import R10K.Core.Model
import R10K.Fu.Model
import R10K.Lsq.Model
import R10K.Ptab.Model

/-! The back end (`backend.sv`).

The core, the functional units, the load/store unit and the branch table, with the
pipeline registers between them and the broadcast bus that closes the loop. What comes
from outside is the fetched group and the data cache. -/
namespace R10K.Backend

structure Inputs where
  fetchPkt : Lane → FetchPacket
  fireStReady : Bool
  fireLdReady : Bool
  dcacheData : BitVec 32
  dcacheLdqTag : LdqTag
  dcacheValid : Bool

structure State where
  core : Core.State
  lsq : Lsq.State
  ptab : Ptab.State
  pipeRegReadPkt : Way → RegReadPacket
  fu : Fu.State
  pipeExecutePkt : Way → ExecutePacket
  pipeBruBranchMisp : Bool
  pipeBruRedirectPc : BitVec 32

def reset : State where
  core := Core.reset
  lsq := Lsq.reset
  ptab := Ptab.reset
  pipeRegReadPkt := fun _ => {}
  fu := {}
  pipeExecutePkt := fun _ => {}
  pipeBruBranchMisp := false
  pipeBruRedirectPc := 0

def pipeFlush (s : State) : Bool := Spine.pipeFlush s.core.spine

/-! ### The load/store unit -/

def dispatchLsqPkt (s : State) (l : Lane) : DispatchLsqPacket where
  rdMem := (s.core.spine.pipeRenamePkt l).rdMem
  wrMem := (s.core.spine.pipeRenamePkt l).wrMem
  packetValid := (s.core.spine.pipeRenamePkt l).packetValid

/-- A store is on lane 6 of the bus. -/
def storeOnCdb (s : State) : Bool := (s.pipeExecutePkt 6).packetValid && (s.pipeExecutePkt 6).wrMem

def lsqIn (i : Inputs) (s : State) : Lsq.Inputs where
  pipeFlush := pipeFlush s
  dispatchPkt := dispatchLsqPkt s
  executePkt := s.pipeExecutePkt 6
  retirePkt := s.core.spine.pipeRetirePkt
  fireStReady := i.fireStReady
  fireLdReady := i.fireLdReady
  dcacheData := i.dcacheData
  dcacheLdqTag := i.dcacheLdqTag
  dcacheValid := i.dcacheValid
  writebackReady := !storeOnCdb s

/-! ### The broadcast bus -/

/-- The writeback of the load queue. -/
def lsqWriteback (i : Inputs) (s : State) : ExecutePacket :=
  let j := Lsq.ldqIn (lsqIn i s) s.lsq
  { pc := Ldq.writebackPc j s.lsq.ldq
    result := Ldq.writebackData j s.lsq.ldq
    destPrn := Ldq.writebackDestPrn j s.lsq.ldq
    robEntry := Ldq.writebackRobTag j s.lsq.ldq
    packetValid := Ldq.writebackValid j s.lsq.ldq }

/-- What a lane broadcasts: the unit's packet; lane 6 a store's, else the load queue's. -/
def cdbPkt (i : Inputs) (s : State) (w : Way) : ExecutePacket :=
  if w = 6 then if storeOnCdb s then s.pipeExecutePkt 6 else lsqWriteback i s
  else s.pipeExecutePkt w

/-! ### The branch table -/

/-- `decode_rename_fetch_pkt`. -/
def decodeRenameFetchPkt (i : Inputs) (s : State) (l : Lane) : FetchPacket :=
  if (i.fetchPkt l).packetValid && Ptab.fetchPktReady s.ptab then i.fetchPkt l else {}

def executePkt (s : State) : Way → ExecutePacket := Fu.executePkt s.pipeRegReadPkt s.fu

/-! ### The core -/

def coreIn (i : Inputs) (s : State) : Core.Inputs where
  fetchPkt := decodeRenameFetchPkt i s
  ptabTag := fun l => BitVec.ofFin (Ptab.ptabTag s.ptab l)
  lsqReady := Lsq.dispatchPktReady (lsqIn i s) s.lsq
  stqResp := Lsq.dispatchStqResp (lsqIn i s) s.lsq
  ldqResp := Lsq.dispatchLdqResp (lsqIn i s) s.lsq
  cdbValid := fun w => (cdbPkt i s w).packetValid
  cdbPrn := fun w => (cdbPkt i s w).destPrn
  cdbRob := fun w => (cdbPkt i s w).robEntry
  cdbResult := fun w => (cdbPkt i s w).result
  cdbBranchMisp := s.pipeBruBranchMisp
  cdbRedirectPc := s.pipeBruRedirectPc

def spineIn (i : Inputs) (s : State) : Spine.Inputs := Core.spineIn (coreIn i s) s.core

/-- `rename_pkt_ready`, which is also `decode_rename_ready`. -/
def renamePktReady (i : Inputs) (s : State) (l : Lane) : Bool :=
  Spine.renamePktReady (spineIn i s) s.core.spine l

/-- `rename_pkt_ready == 4'b1111`. -/
def accept (i : Inputs) (s : State) : Bool := (List.finRange 4).all (renamePktReady i s)

/-- `fetch_pkt_ready`. -/
def fetchPktReady (i : Inputs) (s : State) (l : Lane) : Bool :=
  if Ptab.fetchPktReady s.ptab then renamePktReady i s l else false

/-- `fetch_pkt_ready == 4'b1111`: the group is accepted. -/
def takes (i : Inputs) (s : State) : Bool := (List.finRange 4).all (fetchPktReady i s)

/-- `ptab_fetch_pkt`. -/
def ptabFetchPkt (i : Inputs) (s : State) (l : Lane) : FetchPacket :=
  if (i.fetchPkt l).packetValid && accept i s then i.fetchPkt l else {}

def ptabIn (i : Inputs) (s : State) : Ptab.Inputs where
  pipeFlush := pipeFlush s
  fetchPkt := ptabFetchPkt i s
  bruPtabTag := (s.pipeRegReadPkt 5).ptabTag
  bruBranchDir := (executePkt s 5).branchDir
  bruTargetPc := (executePkt s 5).targetPc
  bruValid := (executePkt s 5).packetValid

/-! ### The clock edge -/

def next (i : Inputs) (s : State) : State where
  core := Core.next (coreIn i s) s.core
  lsq := Lsq.next (lsqIn i s) s.lsq
  ptab := Ptab.next (ptabIn i s) s.ptab
  pipeRegReadPkt := fun w =>
    if pipeFlush s then {} else Core.regReadPkt (coreIn i s) s.core w
  fu := Fu.next (pipeFlush s) s.pipeRegReadPkt s.fu
  pipeExecutePkt := fun w => if pipeFlush s then {} else executePkt s w
  pipeBruBranchMisp := !pipeFlush s && (Ptab.bruResult (ptabIn i s) s.ptab).1
  pipeBruRedirectPc := if pipeFlush s then 0 else (Ptab.bruResult (ptabIn i s) s.ptab).2

end R10K.Backend
