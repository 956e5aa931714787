import R10K.Rename.Model
import R10K.Rob.Model

/-! The in-order part of the back end (`backend.sv`).

Decode and rename, the rename/dispatch register, the reorder buffer, the retire
register, the architectural map, and the three bits that steer a recovery: a flush is
taken one cycle after the buffer retires the packet that causes it, the maps are
rebuilt one cycle after the flush, and an exception stops renaming for good. The
reservation stations, the load/store unit and the writeback bus are its surroundings:
their readies, tags and broadcasts are inputs here. -/
namespace R10K.Spine

structure Inputs where
  /-- `decode_rename_fetch_pkt`. -/
  fetchPkt : Lane → FetchPacket
  intReady : Lane → Bool
  memReady : Lane → Bool
  lsqReady : Bool
  stqResp : Lane → StqTag
  ldqResp : Lane → LdqTag
  cdbValid : Way → Bool
  cdbPrn : Way → Prn
  cdbRob : Way → RobTag
  cdbBranchMisp : Bool
  cdbRedirectPc : BitVec 32

structure State where
  rename : Rename.State
  pipeRenamePkt : Lane → RenamePacket
  rob : Rob.State
  pipeRetirePkt : Lane → RetireRobPacket
  archRat : Arn → Prn
  recovArchSt : Bool
  sysException : Bool

def reset : State where
  rename := Rename.reset
  pipeRenamePkt := fun _ => {}
  rob := Rob.reset
  pipeRetirePkt := fun _ => {}
  archRat := fun _ => 0
  recovArchSt := false
  sysException := false

def retireException (s : State) : Bool :=
  (List.finRange 4).any fun l => (s.pipeRetirePkt l).packetValid && (s.pipeRetirePkt l).exception != .noError

def retireBrMisp (s : State) : Bool :=
  (List.finRange 4).any fun l => (s.pipeRetirePkt l).packetValid && (s.pipeRetirePkt l).branchMisp

def pipeFlush (s : State) : Bool := retireBrMisp s || retireException s

/-- `retire_redirect_pc`: the first retired misprediction's. -/
def retireRedirectPc (s : State) : BitVec 32 :=
  match (List.finRange 4).find? fun l => (s.pipeRetirePkt l).packetValid && (s.pipeRetirePkt l).branchMisp with
  | some l => (s.pipeRetirePkt l).redirectPc
  | none => 0

def dispatchRobPkt (i : Inputs) (s : State) (l : Lane) : DispatchRobPacket :=
  let p := s.pipeRenamePkt l
  { inst := p.inst
    pc := p.pc
    destArn := p.destArn
    destPrn := p.destPrn
    destPrnPrev := p.destPrnPrev
    stqTag := i.stqResp l
    ldqTag := i.ldqResp l
    rdMem := p.rdMem
    wrMem := p.wrMem
    condBranch := p.condBranch
    uncondBranch := p.uncondBranch
    halt := p.halt
    illegal := p.illegal
    packetValid := p.packetValid }

def robIn (i : Inputs) (s : State) : Rob.Inputs where
  pipeFlush := pipeFlush s
  dispatchPkt := dispatchRobPkt i s
  writebackRobTag := i.cdbRob
  writebackValid := i.cdbValid
  writebackBrMisp := i.cdbBranchMisp
  writebackRedirectPc := i.cdbRedirectPc

def renamePktReady (i : Inputs) (s : State) (l : Lane) : Bool :=
  if s.sysException || retireException s || !i.lsqReady then false
  else i.intReady l && i.memReady l && Rob.dispatchPktReady (robIn i s) s.rob l

def renameIn (i : Inputs) (s : State) : Rename.Inputs where
  fetchPkt := i.fetchPkt
  renamePktReady := renamePktReady i s
  retirePrnPrev := fun l => (s.pipeRetirePkt l).destPrnPrev
  retirePrnPrevValid := fun l => (s.pipeRetirePkt l).packetValid
  executePrn := i.cdbPrn
  executeValid := i.cdbValid
  archRat := s.archRat
  recovArchSt := s.recovArchSt

def next (i : Inputs) (s : State) : State where
  rename := Rename.next (renameIn i s) s.rename
  pipeRenamePkt := fun l =>
    if pipeFlush s then {}
    else if Rename.accept (renameIn i s) then Rename.renamePkt (renameIn i s) s.rename l
    else {}
  rob := Rob.next (robIn i s) s.rob
  pipeRetirePkt := fun l => if pipeFlush s then {} else Rob.retirePkt s.rob l
  archRat := Rename.nextArchRat s.archRat s.pipeRetirePkt
  recovArchSt := pipeFlush s
  sysException := s.sysException || retireException s

end R10K.Spine
