import R10K.Rs.Model
import R10K.Spine.Model

/-! The core from rename to register read (`backend.sv`, `prf.sv`).

The in-order part, the two banks of reservation stations, the issue register and the
physical register file. Instructions for the address unit go to the bank of eight, the
others to the bank of sixteen; NOPs, halts and illegal instructions go to neither. The
broadcast bus, the load/store unit and the branch table are its surroundings. -/
namespace R10K.Core

structure Inputs where
  /-- `decode_rename_fetch_pkt`. -/
  fetchPkt : Lane → FetchPacket
  ptabTag : Lane → BitVec 4
  lsqReady : Bool
  stqResp : Lane → StqTag
  ldqResp : Lane → LdqTag
  cdbValid : Way → Bool
  cdbPrn : Way → Prn
  cdbRob : Way → RobTag
  cdbResult : Way → BitVec 32
  cdbBranchMisp : Bool
  cdbRedirectPc : BitVec 32

structure State where
  spine : Spine.State
  pipePtabTag : Lane → BitVec 4
  rsInt : Rs.State 4
  rsMem : Rs.State 3
  pipeIssuePkt : Way → IssuePacket
  /-- `registers` of `prf.sv`. -/
  registers : Prn → BitVec 32

/-- `rst_n` low. The register file has no reset and starts at zero here. -/
def reset : State where
  spine := Spine.reset
  pipePtabTag := fun _ => 0
  rsInt := Rs.reset 4
  rsMem := Rs.reset 3
  pipeIssuePkt := fun _ => {}
  registers := fun _ => 0

/-! ### Dispatch -/

/-- `dispatch_rs_pkt` from a renamed packet and the tags answered for it. -/
def rsPkt (p : RenamePacket) (robEntry : RobTag) (ptabTag : BitVec 4) (stqTag : StqTag)
    (ldqTag : LdqTag) : DispatchRsPacket where
  inst := p.inst
  pc := p.pc
  opType := p.opType
  op1Prn := p.op1Prn
  op2Prn := p.op2Prn
  useOp1Prn := p.useOp1Prn
  useOp2Prn := p.useOp2Prn
  destPrn := p.destPrn
  op1Select := p.op1Select
  op2Select := p.op2Select
  rdMem := p.rdMem
  wrMem := p.wrMem
  condBranch := p.condBranch
  uncondBranch := p.uncondBranch
  robEntry := robEntry
  op1Ready := p.op1Ready
  op2Ready := p.op2Ready
  fuId := p.fuId
  ptabTag := ptabTag
  stqTag := stqTag
  ldqTag := ldqTag
  packetValid := p.packetValid && !p.halt && !p.illegal && p.inst != nop

/-- The banks' readies and tags as the in-order part sees them; `dispatch_pkt_ready` of a
bank reads the packets it is given, which do not depend on it. -/
def spinePre (i : Inputs) : Spine.Inputs where
  fetchPkt := i.fetchPkt
  intReady := fun _ => false
  memReady := fun _ => false
  lsqReady := i.lsqReady
  stqResp := i.stqResp
  ldqResp := i.ldqResp
  cdbValid := i.cdbValid
  cdbPrn := i.cdbPrn
  cdbRob := i.cdbRob
  cdbBranchMisp := i.cdbBranchMisp
  cdbRedirectPc := i.cdbRedirectPc

/-- `dispatch_rs_pkt`. -/
def dispatchRsPkt (i : Inputs) (s : State) (l : Lane) : DispatchRsPacket :=
  rsPkt (s.spine.pipeRenamePkt l)
    (Rob.dispatchPktResp (Spine.robIn (spinePre i) s.spine) s.spine.rob l)
    (s.pipePtabTag l) (i.stqResp l) (i.ldqResp l)

/-- `int_dispatch_pkt` and `mem_dispatch_pkt`. -/
def intDispatchPkt (i : Inputs) (s : State) (l : Lane) : DispatchRsPacket :=
  if (dispatchRsPkt i s l).fuId ≠ .agu0 then dispatchRsPkt i s l else {}

def memDispatchPkt (i : Inputs) (s : State) (l : Lane) : DispatchRsPacket :=
  if (dispatchRsPkt i s l).fuId = .agu0 then dispatchRsPkt i s l else {}

def rsIntIn (i : Inputs) (s : State) : Rs.Inputs where
  pipeFlush := Spine.pipeFlush s.spine
  dispatchPkt := intDispatchPkt i s
  cdbValid := i.cdbValid
  cdbPrn := i.cdbPrn

def rsMemIn (i : Inputs) (s : State) : Rs.Inputs where
  pipeFlush := Spine.pipeFlush s.spine
  dispatchPkt := memDispatchPkt i s
  cdbValid := i.cdbValid
  cdbPrn := i.cdbPrn

def spineIn (i : Inputs) (s : State) : Spine.Inputs :=
  { spinePre i with
    intReady := Rs.dispatchPktReady (rsIntIn i s) s.rsInt
    memReady := Rs.dispatchPktReady (rsMemIn i s) s.rsMem }

/-! ### Issue and register read -/

/-- `issue_pkt[0:5] = int_issue_pkt[0:5]`, `issue_pkt[6] = mem_issue_pkt[6]`. -/
def issuePkt (s : State) (w : Way) : IssuePacket :=
  if w < 6 then Rs.issuePkt s.rsInt w else Rs.issuePkt s.rsMem w

/-- A read port of `prf.sv`: the write of the same lane is forwarded. -/
def readPrf (i : Inputs) (s : State) (w : Way) (p : Prn) : BitVec 32 :=
  if p = 0 then 0
  else if i.cdbValid w && i.cdbPrn w == p then i.cdbResult w
  else s.registers p

/-- The registers after a cycle: the last lane wins, and register 0 is not written. -/
def nextRegisters (i : Inputs) (s : State) (p : Prn) : BitVec 32 :=
  (List.finRange 7).foldl (fun v w =>
    if i.cdbValid w && i.cdbPrn w != 0 && i.cdbPrn w == p then i.cdbResult w else v) (s.registers p)

/-- `reg_read_pkt`. -/
def regReadPkt (i : Inputs) (s : State) (w : Way) : RegReadPacket :=
  let p := s.pipeIssuePkt w
  { inst := p.inst
    pc := p.pc
    opType := p.opType
    op1Val := readPrf i s w p.op1Prn
    op2Val := readPrf i s w p.op2Prn
    destPrn := p.destPrn
    op1Select := p.op1Select
    op2Select := p.op2Select
    rdMem := p.rdMem
    wrMem := p.wrMem
    condBranch := p.condBranch
    uncondBranch := p.uncondBranch
    robEntry := p.robEntry
    fuId := p.fuId
    ptabTag := p.ptabTag
    stqTag := p.stqTag
    ldqTag := p.ldqTag
    packetValid := p.packetValid }

/-! ### The clock edge -/

def next (i : Inputs) (s : State) : State where
  spine := Spine.next (spineIn i s) s.spine
  pipePtabTag := fun l =>
    if Spine.pipeFlush s.spine then 0
    else if Rename.accept (Spine.renameIn (spineIn i s) s.spine) then i.ptabTag l
    else 0
  rsInt := Rs.next (rsIntIn i s) s.rsInt
  rsMem := Rs.next (rsMemIn i s) s.rsMem
  pipeIssuePkt := fun w => if Spine.pipeFlush s.spine then {} else issuePkt s w
  registers := nextRegisters i s

end R10K.Core
