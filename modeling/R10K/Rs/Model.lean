import R10K.Lib.Select
import R10K.Rs.Sort
import R10K.SysDefs

/-! The reservation stations (`rs_bank.sv`: `rs_array.sv`, `rs1.sv`).

A bank of `2 ^ m` stations. A cycle loads up to four dispatched packets into stations
that are not in use, sets the ready bits of operands broadcast now, and issues for each
functional unit the oldest of the stations that are awake. A station wakes a cycle after
its operands are ready, and is free again when it issues. -/
namespace R10K.Rs
open Select
variable {m : Nat}

/-- One station (`rs1`): the registers a load writes, and its control bits. -/
structure Entry where
  pkt : DispatchRsPacket := {}
  inUse : Bool := false
  wakeUp : Way → Bool := fun _ => false
  issued : Bool := false

structure Inputs where
  pipeFlush : Bool
  dispatchPkt : Lane → DispatchRsPacket
  cdbValid : Way → Bool
  cdbPrn : Way → Prn

structure State (m : Nat) where
  entry : Fin (2 ^ m) → Entry
  /-- The latches of the comparator trees, one tree a unit. -/
  sortPos : Way → Sort.Latch

/-- `rst_n` low. Registers without a reset start at zero here. -/
def reset (m : Nat) : State m where
  entry := fun _ => {}
  sortPos := fun _ _ _ => false

/-! ### Allocation -/

def rsAvail (s : State m) (k : Fin (2 ^ m)) : Bool := !(s.entry k).inUse

def validInstCnt (i : Inputs) : Nat :=
  (i.dispatchPkt 0).packetValid.toNat + (i.dispatchPkt 1).packetValid.toNat +
    (i.dispatchPkt 2).packetValid.toNat + (i.dispatchPkt 3).packetValid.toNat

/-- `rs_avail_cnt`, in `$clog2(RS_DEPTH) + 1` bits. -/
def rsAvailCnt (i : Inputs) (s : State m) : BitVec (m + 1) :=
  BitVec.ofNat (m + 1) ((List.finRange (2 ^ m)).countP (rsAvail s)) - BitVec.ofNat (m + 1) (validInstCnt i)

/-- `dispatch_pkt_ready`: 1111 for four or more, then 0111, 0011, 0001 and 0000. -/
def dispatchPktReady (i : Inputs) (s : State m) (l : Lane) : Bool :=
  decide (l.val < (rsAvailCnt i s).toNat)

def allocIndex (s : State m) (l : Lane) : Fin (2 ^ m) := onehotEnc (gntBus (rsAvail s) l)
def allocIndexValid (s : State m) (l : Lane) : Bool := granted (gntBus (rsAvail s) l)

/-- `alloc_sel`: the first lane whose index this station has. -/
def allocSel (s : State m) (k : Fin (2 ^ m)) (l : Lane) : Bool :=
  if k == allocIndex s 0 && allocIndexValid s 0 then l == 0
  else if k == allocIndex s 1 && allocIndexValid s 1 then l == 1
  else if k == allocIndex s 2 && allocIndexValid s 2 then l == 2
  else if k == allocIndex s 3 && allocIndexValid s 3 then l == 3
  else false

/-- `dispatch_pkt_N`: the crossbar from lanes to stations. -/
def dispatchPktN (i : Inputs) (s : State m) (k : Fin (2 ^ m)) : DispatchRsPacket :=
  muxOnehot {} (allocSel s k) i.dispatchPkt

/-! ### Issue -/

/-- `rs_issue_req`: awake and not issued. -/
def rsIssueReq (s : State m) (k : Fin (2 ^ m)) (w : Way) : Bool :=
  if (s.entry k).issued then false else (s.entry k).wakeUp w

def rsAgeTag (s : State m) (k : Fin (2 ^ m)) : BitVec 6 := (s.entry k).pkt.robEntry.idx
def rsAgePos (s : State m) (k : Fin (2 ^ m)) : Bool := (s.entry k).pkt.robEntry.pos

/-- `issue_en_N`: the station each unit takes, oldest first. -/
def issueEnN (s : State m) (w : Way) (k : Fin (2 ^ m)) : Bool :=
  Sort.gnt m (s.sortPos w) (fun k => rsIssueReq s k w) (rsAgeTag s) (rsAgePos s) k

def issueEn (s : State m) (k : Fin (2 ^ m)) : Bool := (List.finRange 7).any fun w => issueEnN s w k

/-- The outputs of a station, zero unless it issues. -/
def issuePktN (s : State m) (k : Fin (2 ^ m)) : IssuePacket :=
  let p := (s.entry k).pkt
  if issueEn s k then
    { inst := p.inst
      pc := p.pc
      opType := p.opType
      op1Prn := p.op1Prn
      op2Prn := p.op2Prn
      destPrn := p.destPrn
      op1Select := p.op1Select
      op2Select := p.op2Select
      rdMem := p.rdMem
      wrMem := p.wrMem
      condBranch := p.condBranch
      uncondBranch := p.uncondBranch
      robEntry := p.robEntry
      fuId := p.fuId
      ptabTag := p.ptabTag
      stqTag := p.stqTag
      ldqTag := p.ldqTag
      packetValid := true }
  else {}

/-- `issue_pkt`: the crossbar from stations to units. -/
def issuePkt (s : State m) (w : Way) : IssuePacket := muxOnehot {} (issueEnN s w) (issuePktN s)

/-! ### The clock edge of one station -/

/-- A lane broadcasts the register. -/
def cdbMatch (i : Inputs) (p : Prn) : Bool := (List.finRange 7).any fun w => i.cdbPrn w == p && i.cdbValid w

/-- `op1_ready_fwd_cdb`: the packet being loaded waits for what is broadcast now. -/
def readyFwdCdb (i : Inputs) (e : Entry) (p : Prn) (ready use : Bool) : Bool :=
  cdbMatch i p && !ready && use && !e.inUse

/-- `loadAfromPRF`: the operand held waits for what is broadcast now. -/
def loadFromPrf (i : Inputs) (e : Entry) (p : Prn) (ready use : Bool) : Bool :=
  cdbMatch i p && !ready && use && e.inUse

/-- Both operands are ready or not used, of a packet of this unit. -/
def operandsReady (p : DispatchRsPacket) (w : Way) : Bool :=
  (p.op1Ready || !p.useOp1Prn) && (p.op2Ready || !p.useOp2Prn) && w == p.fuId.way

/-- `wake_up_tmp`, of the station and of the packet `p` for it. -/
def wakeUpTmp (e : Entry) (p : DispatchRsPacket) (w : Way) : Bool :=
  (e.inUse && operandsReady e.pkt w) || (p.packetValid && operandsReady p w)

/-- The packet a load writes, with the operands broadcast now marked ready. -/
def loaded (i : Inputs) (e : Entry) (p : DispatchRsPacket) : DispatchRsPacket :=
  { p with
    op1Ready := p.op1Ready || readyFwdCdb i e p.op1Prn p.op1Ready p.useOp1Prn
    op2Ready := p.op2Ready || readyFwdCdb i e p.op2Prn p.op2Ready p.useOp2Prn }

/-- The packet a station holds, with the operands broadcast now marked ready. -/
def updated (i : Inputs) (e : Entry) : DispatchRsPacket :=
  { e.pkt with
    op1Ready := e.pkt.op1Ready || loadFromPrf i e e.pkt.op1Prn e.pkt.op1Ready e.pkt.useOp1Prn
    op2Ready := e.pkt.op2Ready || loadFromPrf i e e.pkt.op2Prn e.pkt.op2Ready e.pkt.useOp2Prn }

/-- `rs1`: `useEn` frees the station, so that `rs1_issued` is never set. -/
def nextEntry (i : Inputs) (useEn : Bool) (p : DispatchRsPacket) (e : Entry) : Entry where
  pkt :=
    if i.pipeFlush then e.pkt else if useEn then e.pkt
    else if p.packetValid then loaded i e p else updated i e
  inUse := if i.pipeFlush then false else if useEn then false else p.packetValid || e.inUse
  wakeUp :=
    if i.pipeFlush then fun _ => false else if useEn then fun _ => false
    else if (List.finRange 7).any (wakeUpTmp e p) then wakeUpTmp e p else e.wakeUp
  issued := if i.pipeFlush then false else if useEn then false else e.issued

def next (i : Inputs) (s : State m) : State m where
  entry := fun k => nextEntry i (issueEn s k) (dispatchPktN i s k) (s.entry k)
  sortPos := fun w =>
    Sort.nextLatch (s.sortPos w) (fun k => rsIssueReq s k w) (rsAgeTag s) (rsAgePos s)

end R10K.Rs
