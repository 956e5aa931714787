import Mathlib.Data.FinEnum
import R10K.Lib.Lanes
import R10K.Lsq.Pointers
import R10K.SysDefs

/-! The load queue (`ldq.sv`, speculative, lowest slot first).

Sixteen entries between two pointers. A load fires to the data cache as soon as its
address is known, before the addresses of older stores are: one cycle in the fire
stage, where the store queue looks for a store to forward from. A store whose address
comes later and matches makes the loads behind it fail and fire again. The cache's
answer, or the forwarded datum a cycle after the lookup, is written back once every
older store has its address. -/
namespace R10K.Ldq
open Lanes Lsq

structure Inputs where
  pipeFlush : Bool
  dispatchValid : Lane → Bool
  dispatchStMask : Lane → StqTag → Bool
  dispatchStYoungest : Lane → StqTag
  executeLdAddr : BitVec 32
  executeLdLdqTag : LdqTag
  executeLdDataSize : BitVec 3
  executeLdPc : BitVec 32
  executeLdPrn : Prn
  executeLdRobTag : RobTag
  executeLdValid : Bool
  executeStAddr : BitVec 32
  executeStAddrStqTag : StqTag
  executeStAddrValid : Bool
  fireLdReady : Bool
  fireStStqTag : StqTag
  fireStValid : Bool
  fireStReady : Bool
  fwdData : BitVec 32
  fwdValid : Bool
  fwdSleep : Bool
  fwdLdqTag : LdqTag
  fwdStqTag : StqTag
  dcacheData : BitVec 32
  dcacheLdqTag : LdqTag
  dcacheValid : Bool
  writebackReady : Bool
  retirePkt : Lane → RetireRobPacket
  stqEntry : StqTag → StqEntry

structure State where
  ldqEntry : LdqTag → LdqEntry
  headPtr : LdqTag
  tailPtr : LdqTag
  headPosBit : Bool
  tailPosBit : Bool
  fireLdAddr : BitVec 32
  fireLdDataSize : BitVec 3
  fireLdLdqTag : LdqTag
  fireLdStMask : StqTag → Bool
  fireLdStYoungest : StqTag
  fireLdValid : Bool

/-- `rst_n` low. Registers without a reset start at zero here. -/
def reset : State where
  ldqEntry := fun _ => {}
  headPtr := 0
  tailPtr := 0
  headPosBit := false
  tailPosBit := false
  fireLdAddr := 0
  fireLdDataSize := 0
  fireLdLdqTag := 0
  fireLdStMask := fun _ => false
  fireLdStYoungest := 0
  fireLdValid := false

/-! ### Pointers -/

def dispatchCnt (i : Inputs) : Nat :=
  (i.dispatchValid 3).toNat + (i.dispatchValid 2).toNat + (i.dispatchValid 1).toNat +
    (i.dispatchValid 0).toNat

/-- A lane that retires a load. -/
def retiresLoad (i : Inputs) (l : Lane) : Bool := (i.retirePkt l).packetValid && (i.retirePkt l).rdMem

def retireCnt (i : Inputs) : Nat :=
  (retiresLoad i 0).toNat + (retiresLoad i 1).toNat + (retiresLoad i 2).toNat + (retiresLoad i 3).toNat

def nextHeadPtr (i : Inputs) (s : State) : LdqTag := s.headPtr + BitVec.ofNat 4 (retireCnt i)
def nextTailPtr (i : Inputs) (s : State) : LdqTag := s.tailPtr + BitVec.ofNat 4 (dispatchCnt i)

def nextHeadPosBit (i : Inputs) (s : State) : Bool :=
  if overflow s.headPtr (nextHeadPtr i s) then !s.headPosBit else s.headPosBit

def nextTailPosBit (i : Inputs) (s : State) : Bool :=
  if overflow s.tailPtr (nextTailPtr i s) then !s.tailPosBit else s.tailPosBit

/-- `dispatch_ready`: at least four slots are free after this cycle. -/
def dispatchReady (i : Inputs) (s : State) : Bool :=
  if nextHeadPosBit i s == nextTailPosBit i s then
    decide (4 ≤ (nextHeadPtr i s).setWidth 32 + 16 - (nextTailPtr i s).setWidth 32)
  else decide (4 ≤ (nextHeadPtr i s).setWidth 32 - (nextTailPtr i s).setWidth 32)

/-- `dispatch_resp`: the valid lanes get the slots from the tail on, in order. -/
def dispatchResp (i : Inputs) (s : State) (l : Lane) : LdqTag :=
  if i.dispatchValid l then s.tailPtr + BitVec.ofNat 4 (rank i.dispatchValid l) else 0

/-! ### Firing -/

def fireLdAccept (i : Inputs) (s : State) : Bool := s.fireLdValid && i.fireLdReady

def fwdDataAccept (i : Inputs) (s : State) (k : LdqTag) : Bool :=
  k == i.fwdLdqTag && i.fwdValid && !(s.ldqEntry k).orderFail

/-- `st_ld_violation_N`: the executing store is older, at the same word, and the load
has its datum or is on its way to it. -/
def stLdViolation (i : Inputs) (s : State) (k : LdqTag) : Bool :=
  let e := s.ldqEntry k
  e.addr.extractLsb' 2 30 == i.executeStAddr.extractLsb' 2 30 && e.addrValid && i.executeStAddrValid &&
    e.stMask i.executeStAddrStqTag &&
    (e.dataValid || (k == i.fwdLdqTag && i.fwdValid) || e.fired || (fireLdAccept i s && k == s.fireLdLdqTag))

/-- `ld_wakeup_N`: the address is known, and no datum, sleep or request stands. -/
def ldWakeup (i : Inputs) (s : State) (k : LdqTag) : Bool :=
  let e := s.ldqEntry k
  (e.addrValid || (i.executeLdValid && k == i.executeLdLdqTag)) && !e.dataValid && !e.sleep &&
    !(e.fired || (fireLdAccept i s && k == s.fireLdLdqTag)) &&
    !(i.fwdValid && k == i.fwdLdqTag && !e.orderFail)

/-- The lowest slot with its bit set, and slot 0 if there is none. -/
def lowest (v : LdqTag → Bool) : LdqTag :=
  (((List.range 16).map (BitVec.ofNat 4)).find? v).getD 0

def fireLdqIdx (i : Inputs) (s : State) : LdqTag := lowest (ldWakeup i s)

/-- `fire_ld_kill`: forwarding served the load or puts it to sleep, or it fails. -/
def fireLdKill (i : Inputs) (s : State) (k : LdqTag) : Bool :=
  (k == i.fwdLdqTag && (i.fwdValid || i.fwdSleep)) || (stLdViolation i s k && !(s.ldqEntry k).dataValid)

/-! ### Writeback -/

def stqAddrValid (i : Inputs) (k : StqTag) : Bool := (i.stqEntry k).addrValid && (i.stqEntry k).entryValid

def dcacheDataAccept (i : Inputs) (s : State) (k : LdqTag) : Bool :=
  k == i.dcacheLdqTag && i.dcacheValid && !fireLdKill i s i.dcacheLdqTag

/-- `ld_writeback_N`: every older store has its address, and a datum stands or comes in. -/
def ldWriteback (i : Inputs) (s : State) (k : LdqTag) : Bool :=
  let e := s.ldqEntry k
  decide (∀ t, e.stMask t = true → stqAddrValid i t = true) &&
    ((e.dataValid && !e.writebacked) || fwdDataAccept i s k || dcacheDataAccept i s k)

def writebackLdqIdx (i : Inputs) (s : State) : LdqTag := lowest (ldWriteback i s)

def writebackValid (i : Inputs) (s : State) : Bool := decide (∃ k, ldWriteback i s k = true)

def writebackData (i : Inputs) (s : State) : BitVec 32 :=
  let k := writebackLdqIdx i s
  if k == i.fwdLdqTag && i.fwdValid then i.fwdData
  else if k == i.dcacheLdqTag && i.dcacheValid && !fireLdKill i s i.dcacheLdqTag then i.dcacheData
  else (s.ldqEntry k).data

def writebackPc (i : Inputs) (s : State) : BitVec 32 := (s.ldqEntry (writebackLdqIdx i s)).pc
def writebackDestPrn (i : Inputs) (s : State) : Prn := (s.ldqEntry (writebackLdqIdx i s)).destPrn
def writebackRobTag (i : Inputs) (s : State) : RobTag := (s.ldqEntry (writebackLdqIdx i s)).robTag

/-- The result is taken. -/
def writebackAccept (i : Inputs) (s : State) (k : LdqTag) : Bool :=
  k == writebackLdqIdx i s && writebackValid i s && i.writebackReady

/-! ### The clock edge, update by update -/

def fireStAccept (i : Inputs) : Bool := i.fireStValid && i.fireStReady

def allocate (i : Inputs) (s : State) (k : LdqTag) (e : LdqEntry) : LdqEntry :=
  match (List.finRange 4).find? fun l =>
      i.dispatchValid l && k == s.tailPtr + BitVec.ofNat 4 (rank i.dispatchValid l) with
  | some l =>
    { e with stMask := i.dispatchStMask l, stYoungest := i.dispatchStYoungest l, entryValid := true }
  | none => e

def writeAddr (i : Inputs) (k : LdqTag) (e : LdqEntry) : LdqEntry :=
  if k == i.executeLdLdqTag && i.executeLdValid then
    { e with
      dataSize := i.executeLdDataSize
      addr := i.executeLdAddr
      addrValid := true
      pc := i.executeLdPc
      destPrn := i.executeLdPrn
      robTag := i.executeLdRobTag }
  else e

/-- A store that goes to the data cache leaves the masks. -/
def updateStMask (i : Inputs) (e : LdqEntry) : LdqEntry :=
  if fireStAccept i then { e with stMask := fun t => e.stMask t && t != i.fireStStqTag } else e

def updateSleep (i : Inputs) (s : State) (k : LdqTag) (e : LdqEntry) : LdqEntry :=
  if stLdViolation i s k then { e with sleep := false }
  else if k == i.fwdLdqTag && i.fwdSleep then
    if fireStAccept i && i.fireStStqTag == i.fwdStqTag then { e with sleep := false }
    else { e with sleep := true, fwdStqTag := i.fwdStqTag }
  else if (s.ldqEntry k).fwdStqTag == i.fireStStqTag && fireStAccept i then { e with sleep := false }
  else e

def updateOrderFail (i : Inputs) (s : State) (k : LdqTag) (e : LdqEntry) : LdqEntry :=
  if stLdViolation i s k then { e with orderFail := true }
  else if k == s.fireLdLdqTag && s.fireLdValid && !fireLdKill i s k then { e with orderFail := false }
  else e

def updateFired (i : Inputs) (s : State) (k : LdqTag) (e : LdqEntry) : LdqEntry :=
  if stLdViolation i s k then { e with fired := false }
  else if k == s.fireLdLdqTag && fireLdAccept i s then { e with fired := !fireLdKill i s k }
  else if k == i.fwdLdqTag && i.fwdSleep then { e with fired := false }
  else e

def writeData (i : Inputs) (s : State) (k : LdqTag) (e : LdqEntry) : LdqEntry :=
  if stLdViolation i s k then { e with dataValid := false }
  else if fwdDataAccept i s k then { e with data := i.fwdData, dataValid := true }
  else if dcacheDataAccept i s k then { e with data := i.dcacheData, dataValid := true }
  else e

def writeback (i : Inputs) (s : State) (k : LdqTag) (e : LdqEntry) : LdqEntry :=
  if writebackAccept i s k then { e with writebacked := true } else e

def retires (i : Inputs) (k : LdqTag) : Bool :=
  (List.finRange 4).any fun l => k == (i.retirePkt l).ldqTag && retiresLoad i l

def retire (i : Inputs) (k : LdqTag) (e : LdqEntry) : LdqEntry :=
  if retires i k then
    { e with
      addrValid := false
      stMask := fun _ => false
      fired := false
      dataValid := false
      writebacked := false
      entryValid := false }
  else e

/-- What a flush clears of an entry. -/
def flushed (e : LdqEntry) : LdqEntry :=
  { e with
    entryValid := false
    addrValid := false
    stMask := fun _ => false
    stYoungest := 0
    fwdStqTag := 0
    sleep := false
    fired := false
    dataValid := false
    writebacked := false
    orderFail := false }

/-- The updates of an entry in the order of the source: where two write one field, the
later one wins. Their conditions read the entry as it was. -/
def nextEntry (i : Inputs) (s : State) (k : LdqTag) : LdqEntry :=
  let e := s.ldqEntry k
  if i.pipeFlush then flushed e
  else retire i k (writeback i s k (writeData i s k (updateFired i s k (updateOrderFail i s k
    (updateSleep i s k (updateStMask i (writeAddr i k (allocate i s k e))))))))

def next (i : Inputs) (s : State) : State :=
  let k := fireLdqIdx i s
  let e := s.ldqEntry k
  { ldqEntry := nextEntry i s
    headPtr := if i.pipeFlush then 0 else nextHeadPtr i s
    tailPtr := if i.pipeFlush then 0 else nextTailPtr i s
    headPosBit := if i.pipeFlush then false else nextHeadPosBit i s
    tailPosBit := if i.pipeFlush then false else nextTailPosBit i s
    fireLdAddr := if e.addrValid then e.addr else i.executeLdAddr
    fireLdDataSize := if e.addrValid then e.dataSize else i.executeLdDataSize
    fireLdLdqTag := k
    fireLdStMask := e.stMask
    fireLdStYoungest := e.stYoungest
    fireLdValid := !i.pipeFlush && ldWakeup i s k }

end R10K.Ldq
