import Mathlib.Data.FinEnum
import R10K.Lib.Lanes
import R10K.Lsq.Pointers
import R10K.SysDefs

/-! The store queue (`stq.sv`).

Sixteen entries between three pointers: the stores from head to retired wait for the
data cache, those from retired to tail for their retirement. A cycle dispatches up to
four stores, takes an address and a datum from execution, marks retired stores,
requests a write for the head once it is retired, and looks up the youngest store
that can forward to the load in the fire stage. A flush keeps the retired stores. -/
namespace R10K.Stq
open Lanes Lsq

structure Inputs where
  pipeFlush : Bool
  dispatchValid : Lane → Bool
  executeStAddr : BitVec 32
  executeStAddrStqTag : StqTag
  executeStAddrValid : Bool
  executeStData : BitVec 32
  executeStDataSize : BitVec 3
  executeStDataStqTag : StqTag
  executeStDataValid : Bool
  retirePkt : Lane → RetireRobPacket
  fireStReady : Bool
  fireLdAddr : BitVec 32
  fireLdDataSize : BitVec 3
  fireLdLdqTag : LdqTag
  fireLdStMask : StqTag → Bool
  fireLdStYoungest : StqTag
  fireLdValid : Bool

structure State where
  stqEntry : StqTag → StqEntry
  headPtr : StqTag
  tailPtr : StqTag
  retiredPtr : StqTag
  headPosBit : Bool
  tailPosBit : Bool
  retiredPosBit : Bool
  fireStValid : Bool
  fireStStqTag : StqTag
  fireStAddr : BitVec 32
  fireStData : BitVec 32
  fireStDataSize : BitVec 3
  fwdData : BitVec 32
  fwdValid : Bool
  fwdSleep : Bool
  fwdLdqTag : LdqTag
  fwdStqTag : StqTag

/-- `rst_n` low. Registers without a reset start at zero here. -/
def reset : State where
  stqEntry := fun _ => {}
  headPtr := 0
  tailPtr := 0
  retiredPtr := 0
  headPosBit := false
  tailPosBit := false
  retiredPosBit := false
  fireStValid := false
  fireStStqTag := 0
  fireStAddr := 0
  fireStData := 0
  fireStDataSize := 0
  fwdData := 0
  fwdValid := false
  fwdSleep := false
  fwdLdqTag := 0
  fwdStqTag := 0

/-! ### Pointers -/

def dispatchCnt (i : Inputs) : Nat :=
  (i.dispatchValid 3).toNat + (i.dispatchValid 2).toNat + (i.dispatchValid 1).toNat +
    (i.dispatchValid 0).toNat

/-- A lane that retires a store. -/
def retiresStore (i : Inputs) (l : Lane) : Bool := (i.retirePkt l).packetValid && (i.retirePkt l).wrMem

def retireCnt (i : Inputs) : Nat :=
  (retiresStore i 3).toNat + (retiresStore i 2).toNat + (retiresStore i 1).toNat +
    (retiresStore i 0).toNat

def fireStAccept (i : Inputs) (s : State) : Bool := s.fireStValid && i.fireStReady

def nextRetiredPtr (i : Inputs) (s : State) : StqTag := s.retiredPtr + BitVec.ofNat 4 (retireCnt i)

def nextRetiredPosBit (i : Inputs) (s : State) : Bool :=
  if overflow s.retiredPtr (nextRetiredPtr i s) then !s.retiredPosBit else s.retiredPosBit

/-- `head_ptr==next_retired_ptr && head_pos_bit==next_retired_pos_bit`: no retired store. -/
def noRetired (i : Inputs) (s : State) : Bool :=
  s.headPtr == nextRetiredPtr i s && s.headPosBit == nextRetiredPosBit i s

def nextHeadPtr (i : Inputs) (s : State) : StqTag :=
  if i.pipeFlush && noRetired i s then s.headPtr
  else s.headPtr + BitVec.ofNat 4 (fireStAccept i s).toNat

def nextHeadPosBit (i : Inputs) (s : State) : Bool :=
  if i.pipeFlush && noRetired i s then s.headPosBit
  else if overflow s.headPtr (nextHeadPtr i s) then !s.headPosBit else s.headPosBit

def nextTailPtr (i : Inputs) (s : State) : StqTag :=
  if i.pipeFlush then if noRetired i s then s.headPtr else nextRetiredPtr i s
  else s.tailPtr + BitVec.ofNat 4 (dispatchCnt i)

/-- `next_tail_pos_bit`. On a flush the source compares the four-bit pointer with
sixteen ones, which it never equals. -/
def nextTailPosBit (i : Inputs) (s : State) : Bool :=
  if i.pipeFlush then
    if noRetired i s then s.headPosBit
    else if (nextRetiredPtr i s).setWidth 16 == BitVec.allOnes 16 then !nextRetiredPosBit i s
    else nextRetiredPosBit i s
  else if overflow s.tailPtr (nextTailPtr i s) then !s.tailPosBit else s.tailPosBit

/-- `dispatch_ready`: at least four slots are free after this cycle. -/
def dispatchReady (i : Inputs) (s : State) : Bool :=
  if nextHeadPosBit i s == nextTailPosBit i s then
    decide (4 ≤ (nextHeadPtr i s).setWidth 32 + 16 - (nextTailPtr i s).setWidth 32)
  else decide (4 ≤ (nextHeadPtr i s).setWidth 32 - (nextTailPtr i s).setWidth 32)

/-- `dispatch_resp`: the valid lanes get the slots from the tail on, in order. -/
def dispatchResp (i : Inputs) (s : State) (l : Lane) : StqTag :=
  if i.dispatchValid l then s.tailPtr + BitVec.ofNat 4 (rank i.dispatchValid l) else 0

def dispatchStMask (s : State) (k : StqTag) : Bool := (s.stqEntry k).entryValid

def dispatchStYoungest (s : State) : StqTag :=
  if s.headPtr == s.tailPtr && s.headPosBit == s.tailPosBit then s.tailPtr else s.tailPtr - 1

/-! ### Forwarding -/

/-- `match`: the entries a load may take its word from. -/
def fwdMatch (i : Inputs) (s : State) (k : StqTag) : Bool :=
  i.fireLdAddr.extractLsb' 2 30 == (s.stqEntry k).addr.extractLsb' 2 30 && i.fireLdStMask k &&
    i.fireLdValid && (s.stqEntry k).addrValid && (s.stqEntry k).entryValid

/-- `match_double`: the matches, and over them those not past the youngest older store. -/
def matchDouble (i : Inputs) (s : State) (k : Nat) : Bool :=
  fwdMatch i s (BitVec.ofNat 4 k) &&
    (decide (k < 16) || decide (BitVec.ofNat 4 k ≤ i.fireLdStYoungest))

/-- `fwd_stq_idx` and `found_match`: the last match of the double vector. -/
def fwdSearch (i : Inputs) (s : State) : StqTag × Bool :=
  (List.range 32).foldl (fun acc k => if matchDouble i s k then (BitVec.ofNat 4 k, true) else acc)
    (0, false)

/-- The offset of an access's last byte in its word. -/
def offsetEnd (start : BitVec 2) (size : BitVec 3) : BitVec 2 :=
  match memSize size with
  | .byte => start + 0
  | .half => start + 1
  | .word | .double => start + 3

/-- `addr_conflict`: a match that does not cover the load. -/
def addrConflict (i : Inputs) (s : State) : Bool :=
  let e := s.stqEntry (fwdSearch i s).1
  let ldStart := i.fireLdAddr.extractLsb' 0 2
  let stStart := e.addr.extractLsb' 0 2
  (fwdSearch i s).2 && !(decide (stStart ≤ ldStart) &&
    decide (offsetEnd ldStart i.fireLdDataSize ≤ offsetEnd stStart e.dataSize))

/-- `fwd_4B_aligned`: the store's datum moved to its offset in the word. -/
def fwd4BAligned (i : Inputs) (s : State) : BitVec 32 :=
  let e := s.stqEntry (fwdSearch i s).1
  e.data <<< ((e.addr.extractLsb' 0 2).toNat * 8)

/-- The bytes of a word a load takes, extended as its size code says. -/
def loadBytes (offset : BitVec 2) (size : BitVec 3) (word : BitVec 32) : BitVec 32 :=
  let byte := word.extractLsb' (offset.toNat * 8) 8
  let half := word.extractLsb' (offset.toNat / 2 * 16) 16
  match memSize size with
  | .byte => if !size.msb then byte.signExtend 32 else byte.setWidth 32
  | .half => if !size.msb then half.signExtend 32 else half.setWidth 32
  | .word => word
  | .double => 0xdeadbeef

/-! ### The clock edge -/

def updateRetire (i : Inputs) (k : StqTag) : Bool :=
  (List.finRange 4).any fun l => k == (i.retirePkt l).stqTag && retiresStore i l

/-- `st_wakeup_N`. -/
def stWakeup (i : Inputs) (s : State) (k : StqTag) : Bool :=
  (s.stqEntry k).entryValid && (s.stqEntry k).retired && !fireStAccept i s

/-- The case on `dispatch_cnt`: that many slots from the tail become valid. -/
def allocate (i : Inputs) (s : State) (k : StqTag) (e : StqEntry) : StqEntry :=
  if (List.range (dispatchCnt i)).any fun j => k == s.tailPtr + BitVec.ofNat 4 j then
    { e with entryValid := true }
  else e

def writeAddr (i : Inputs) (k : StqTag) (e : StqEntry) : StqEntry :=
  if k == i.executeStAddrStqTag && i.executeStAddrValid then
    { e with addr := i.executeStAddr, addrValid := true }
  else e

def writeData (i : Inputs) (k : StqTag) (e : StqEntry) : StqEntry :=
  if k == i.executeStDataStqTag && i.executeStDataValid then
    { e with data := i.executeStData, dataSize := i.executeStDataSize, dataValid := true }
  else e

def retire (i : Inputs) (k : StqTag) (e : StqEntry) : StqEntry :=
  if updateRetire i k then { e with retired := true } else e

def fireMem (i : Inputs) (s : State) (k : StqTag) (e : StqEntry) : StqEntry :=
  if k == s.headPtr && fireStAccept i s then
    { e with addrValid := false, dataValid := false, retired := false, entryValid := false }
  else e

/-- A flush clears the valid entries that are not retired; any other entry takes its
ordinary updates, also in the cycle of a flush. -/
def nextEntry (i : Inputs) (s : State) (k : StqTag) : StqEntry :=
  let e := s.stqEntry k
  if i.pipeFlush && e.entryValid && !e.retired && !updateRetire i k then
    { e with entryValid := false, addrValid := false, dataValid := false, retired := false }
  else fireMem i s k (retire i k (writeData i k (writeAddr i k (allocate i s k e))))

def next (i : Inputs) (s : State) : State where
  stqEntry := nextEntry i s
  headPtr := nextHeadPtr i s
  tailPtr := nextTailPtr i s
  retiredPtr := nextRetiredPtr i s
  headPosBit := nextHeadPosBit i s
  tailPosBit := nextTailPosBit i s
  retiredPosBit := nextRetiredPosBit i s
  fireStValid := !i.pipeFlush && decide (∃ k, stWakeup i s k = true)
  fireStStqTag := s.headPtr
  fireStAddr := (s.stqEntry s.headPtr).addr
  fireStData := (s.stqEntry s.headPtr).data
  fireStDataSize := (s.stqEntry s.headPtr).dataSize
  fwdData := loadBytes (i.fireLdAddr.extractLsb' 0 2) i.fireLdDataSize (fwd4BAligned i s)
  fwdValid := !i.pipeFlush && ((s.stqEntry (fwdSearch i s).1).dataValid && (fwdSearch i s).2 &&
    !addrConflict i s)
  fwdSleep := !i.pipeFlush && (addrConflict i s &&
    !(fireStAccept i s && s.fireStStqTag == (fwdSearch i s).1))
  fwdLdqTag := if i.pipeFlush then 0 else i.fireLdLdqTag
  fwdStqTag := if i.pipeFlush then 0 else (fwdSearch i s).1

end R10K.Stq
