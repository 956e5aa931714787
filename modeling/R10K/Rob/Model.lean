import R10K.SysDefs

/-! The reorder buffer (`ROB.sv`).

Sixty-four entries between a head and a tail pointer, each pointer with a position
bit. A cycle dispatches up to four packets at the tail, marks entries complete from
seven writeback lanes, retires up to four entries at the head, and answers how many
packets the next cycle may bring. One register pair remembers the oldest
mispredicted branch and its redirect address. -/
namespace R10K.Rob

structure Inputs where
  pipeFlush : Bool
  dispatchPkt : Lane → DispatchRobPacket
  writebackRobTag : Way → RobTag
  writebackValid : Way → Bool
  writebackBrMisp : Bool
  writebackRedirectPc : BitVec 32

structure State where
  robEntry : BitVec 6 → RobEntry
  headPtr : BitVec 6
  tailPtr : BitVec 6
  headPositionBit : Bool
  tailPositionBit : Bool
  mispRob : RobTag
  branchMisp : Bool
  redirectPc : BitVec 32

/-- `rst_n` low: the pointers, the entries and `branch_misp` are cleared. -/
def reset : State where
  robEntry := fun _ => {}
  headPtr := 0
  tailPtr := 0
  headPositionBit := false
  tailPositionBit := false
  mispRob := ⟨false, 0⟩
  branchMisp := false
  redirectPc := 0

/-- `dispatch_pkt_cnt`. -/
def dispatchPktCnt (i : Inputs) : Nat :=
  (i.dispatchPkt 3).packetValid.toNat + (i.dispatchPkt 2).packetValid.toNat +
    (i.dispatchPkt 1).packetValid.toNat + (i.dispatchPkt 0).packetValid.toNat

/-- The entry `k` slots after the head: `head_ptr`, `head_ptr_plus1`, … -/
def headEntry (s : State) (k : Nat) : RobEntry := s.robEntry (s.headPtr + BitVec.ofNat 6 k)

/-- Branches among the head entry and the `k` entries after it. -/
def branchCnt (s : State) : Nat → Nat
  | 0 => (headEntry s 0).branch.toNat
  | k + 1 => branchCnt s k + (headEntry s (k + 1)).branch.toNat

/-- `br_mask`: only one branch instruction may retire every cycle. -/
def brMask (s : State) (k : Nat) : Bool := k == 0 || decide (branchCnt s k ≤ 1)

/-- A retired entry that flushes: mispredicted, or with an exception. -/
def flushes (e : RobEntry) : Bool := e.branchMisp || e.exception != .noError

/-- `retire_en`: lane `k + 1` needs lane `k`, and lane `k` not to flush. -/
def retireEn (s : State) : Nat → Bool
  | 0 => (headEntry s 0).valid && (headEntry s 0).complete && brMask s 0
  | k + 1 => retireEn s k && !(retireEn s k && flushes (headEntry s k)) &&
      (headEntry s (k + 1)).valid && (headEntry s (k + 1)).complete && brMask s (k + 1)

/-- `retire_en_cnt`. -/
def retireEnCnt (s : State) : Nat :=
  (retireEn s 3).toNat + (retireEn s 2).toNat + (retireEn s 1).toNat + (retireEn s 0).toNat

def nextTailPtr (i : Inputs) (s : State) : BitVec 6 := s.tailPtr + BitVec.ofNat 6 (dispatchPktCnt i)
def nextHeadPtr (s : State) : BitVec 6 := s.headPtr + BitVec.ofNat 6 (retireEnCnt s)

/-- `tail_ptr_overflow`: bits 5..2 all set before, bit 5 clear after. -/
def tailPtrOverflow (i : Inputs) (s : State) : Bool :=
  s.tailPtr.extractLsb' 2 4 == 0b1111 && (nextTailPtr i s).extractLsb' 5 1 == 0

def headPtrOverflow (s : State) : Bool :=
  s.headPtr.extractLsb' 2 4 == 0b1111 && (nextHeadPtr s).extractLsb' 5 1 == 0

def nextTailPositionBit (i : Inputs) (s : State) : Bool :=
  if tailPtrOverflow i s then !s.tailPositionBit else s.tailPositionBit

def nextHeadPositionBit (s : State) : Bool :=
  if headPtrOverflow s then !s.headPositionBit else s.headPositionBit

/-- `dispatch_pkt_ready[k]`: more than `k` slots are free after this cycle's dispatch
and retirement (32-bit subtraction), and no mispredicted branch waits to retire. -/
def dispatchPktReady (i : Inputs) (s : State) (k : Lane) : Bool :=
  if s.branchMisp then false
  else if nextHeadPositionBit s == nextTailPositionBit i s then
    !decide ((nextHeadPtr s).setWidth 32 + 64 - (nextTailPtr i s).setWidth 32 ≤ BitVec.ofNat 32 k.val)
  else !decide ((nextHeadPtr s).setWidth 32 - (nextTailPtr i s).setWidth 32 ≤ BitVec.ofNat 32 k.val)

/-- `dispatch_2_rob`: the entry a dispatched packet becomes. -/
def dispatch2Rob (p : DispatchRobPacket) : RobEntry :=
  let exception : ExceptionCode :=
    if p.halt then .haltedOnWfi else if p.illegal then .illegalInst else .noError
  { pc := p.pc
    destArn := p.destArn
    destPrn := p.destPrn
    destPrnPrev := p.destPrnPrev
    stqTag := p.stqTag
    ldqTag := p.ldqTag
    rdMem := p.rdMem
    wrMem := p.wrMem
    branch := p.condBranch || p.uncondBranch
    branchMisp := false
    exception := exception
    complete := p.inst == nop || exception != .noError
    valid := p.packetValid }

/-- The writeback of one entry: an incomplete valid entry is completed by any lane
with its index, and mispredicted by lane 5 only. -/
def writeback (i : Inputs) (k : BitVec 6) (e : RobEntry) : RobEntry :=
  if e.valid && !e.complete then
    { e with
      complete := (List.finRange 7).any fun w => k == (i.writebackRobTag w).idx && i.writebackValid w
      branchMisp := k == (i.writebackRobTag 5).idx && i.writebackValid 5 && i.writebackBrMisp }
  else e

/-- The retirement of one entry: a retiring slot loses its valid bit. -/
def retire (s : State) (k : BitVec 6) (e : RobEntry) : RobEntry :=
  if (List.range 4).any fun j => retireEn s j && k == s.headPtr + BitVec.ofNat 6 j then
    { e with valid := false }
  else e

/-- The allocation of one entry. Groups are 1111, 0111, 0011, 0001 from lane 0, 1110,
0110, 0010 from lane 1, 1100, 0100 from lane 2 and 1000 from lane 3: the first valid
lane goes to the tail and the lanes after it, while valid, to the slots after it. -/
def allocate (i : Inputs) (s : State) (k : BitVec 6) (e : RobEntry) : RobEntry :=
  let d := fun l => dispatch2Rob (i.dispatchPkt l)
  if (i.dispatchPkt 0).packetValid then
    if k == s.tailPtr then d 0
    else if k == s.tailPtr + 1 && (d 1).valid then d 1
    else if k == s.tailPtr + 2 && (d 2).valid then d 2
    else if k == s.tailPtr + 3 && (d 3).valid then d 3
    else e
  else if (i.dispatchPkt 1).packetValid then
    if k == s.tailPtr then d 1
    else if k == s.tailPtr + 1 && (d 2).valid then d 2
    else if k == s.tailPtr + 2 && (d 3).valid then d 3
    else e
  else if (i.dispatchPkt 2).packetValid then
    if k == s.tailPtr then d 2
    else if k == s.tailPtr + 1 && (d 3).valid then d 3
    else e
  else if (i.dispatchPkt 3).packetValid then
    if k == s.tailPtr then d 3 else e
  else e

/-- The registers of the redirect: the first mispredicted branch since the last
flush, or an older one found later. `writeback_valid` is read as a whole here. -/
def misp (i : Inputs) (s : State) : RobTag × Bool × BitVec 32 :=
  let t := i.writebackRobTag 5
  if i.pipeFlush then (⟨false, 0⟩, false, 0)
  else if (List.finRange 7).any i.writebackValid && i.writebackBrMisp then
    if !s.branchMisp then (t, true, i.writebackRedirectPc)
    else if (s.mispRob.pos == t.pos && decide (t.idx < s.mispRob.idx)) ||
        (s.mispRob.pos != t.pos && decide (s.mispRob.idx < t.idx)) then
      (t, s.branchMisp, i.writebackRedirectPc)
    else (s.mispRob, s.branchMisp, s.redirectPc)
  else (s.mispRob, s.branchMisp, s.redirectPc)

def next (i : Inputs) (s : State) : State where
  robEntry := fun k =>
    if i.pipeFlush then {} else allocate i s k (retire s k (writeback i k (s.robEntry k)))
  headPtr := if i.pipeFlush then 0 else nextHeadPtr s
  tailPtr := if i.pipeFlush then 0 else nextTailPtr i s
  headPositionBit := if i.pipeFlush then false else nextHeadPositionBit s
  tailPositionBit := if i.pipeFlush then false else nextTailPositionBit i s
  mispRob := (misp i s).1
  branchMisp := (misp i s).2.1
  redirectPc := (misp i s).2.2

/-- `retire_pkt`. Every lane carries the head's position bit. -/
def retirePkt (s : State) (k : Lane) : RetireRobPacket :=
  let e := headEntry s k.val
  { pc := e.pc
    destArn := e.destArn
    destPrn := e.destPrn
    destPrnPrev := e.destPrnPrev
    stqTag := e.stqTag
    ldqTag := e.ldqTag
    rdMem := e.rdMem
    wrMem := e.wrMem
    branchMisp := e.branchMisp
    redirectPc := s.redirectPc
    exception := e.exception
    robTag := ⟨s.headPositionBit, s.headPtr + BitVec.ofNat 6 k.val⟩
    packetValid := retireEn s k.val }

/-- `dispatch_pkt_resp`: the tag of the slot a lane goes to, for a group that starts
at lane `f`. The position bit is flipped for the slots past the wrap. Lanes before
the group answer zero. -/
def respFrom (i : Inputs) (s : State) (f : Nat) (l : Lane) : RobTag :=
  if l.val < f then ⟨false, 0⟩
  else
    let slot := s.tailPtr + BitVec.ofNat 6 (l.val - f)
    ⟨if tailPtrOverflow i s && decide (slot < 4) then !s.tailPositionBit else s.tailPositionBit, slot⟩

/-- `dispatch_pkt_resp`. With no valid lane the source leaves the last answer
standing; nobody reads it then, and the model answers zero. -/
def dispatchPktResp (i : Inputs) (s : State) (l : Lane) : RobTag :=
  if (i.dispatchPkt 0).packetValid then respFrom i s 0 l
  else if (i.dispatchPkt 1).packetValid then respFrom i s 1 l
  else if (i.dispatchPkt 2).packetValid then respFrom i s 2 l
  else if (i.dispatchPkt 3).packetValid then respFrom i s 3 l
  else ⟨false, 0⟩

end R10K.Rob
