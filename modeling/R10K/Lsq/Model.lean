import R10K.Ldq.Model
import R10K.Stq.Model

/-! The load/store unit (`lsq.sv`): the store queue and the load queue.

A cycle dispatches up to four loads and stores, executes one, and lets the retired
stores and the loads with an address out to the data cache. A load is dispatched with
the mask of the stores older than it: those in the queue and those before it in its
group. -/
namespace R10K.Lsq
open Lanes

structure Inputs where
  pipeFlush : Bool
  dispatchPkt : Lane → DispatchLsqPacket
  executePkt : ExecutePacket
  retirePkt : Lane → RetireRobPacket
  fireStReady : Bool
  fireLdReady : Bool
  dcacheData : BitVec 32
  dcacheLdqTag : LdqTag
  dcacheValid : Bool
  writebackReady : Bool

structure State where
  stq : Stq.State
  ldq : Ldq.State

def reset : State := ⟨Stq.reset, Ldq.reset⟩

def executeStqValid (i : Inputs) : Bool := i.executePkt.packetValid && i.executePkt.wrMem
def executeLdqValid (i : Inputs) : Bool := i.executePkt.packetValid && i.executePkt.rdMem

def dispatchStqValid (i : Inputs) (l : Lane) : Bool := (i.dispatchPkt l).packetValid && (i.dispatchPkt l).wrMem
def dispatchLdqValid (i : Inputs) (l : Lane) : Bool := (i.dispatchPkt l).packetValid && (i.dispatchPkt l).rdMem

/-! ### Older stores -/

/-- `dispatch_stq_st_mask != 0`. -/
def anyStore (s : State) : Bool := decide (∃ t, Stq.dispatchStMask s.stq t = true)

/-- `dispatch_ldq_st_youngest`: the slot of the last store before a lane. -/
def dispatchLdqStYoungest (i : Inputs) (s : State) (l : Lane) : StqTag :=
  if l = 0 then Stq.dispatchStYoungest s.stq
  else if anyStore s then BitVec.ofNat 4 (rank (dispatchStqValid i) l) + Stq.dispatchStYoungest s.stq
  else BitVec.ofNat 4 (rank (dispatchStqValid i) l) + Stq.dispatchStYoungest s.stq - 1

/-- `dispatch_ldq_st_mask`: the stores in the queue and those of the lanes before. -/
def dispatchLdqStMask (i : Inputs) (s : State) (l : Lane) (t : StqTag) : Bool :=
  let m1 := (dispatchStqValid i 0 && t == dispatchLdqStYoungest i s 1) || Stq.dispatchStMask s.stq t
  let m2 := (dispatchStqValid i 1 && t == dispatchLdqStYoungest i s 2) || m1
  let m3 := (dispatchStqValid i 2 && t == dispatchLdqStYoungest i s 3) || m2
  match l with
  | 0 => Stq.dispatchStMask s.stq t
  | 1 => m1
  | 2 => m2
  | 3 => m3

/-! ### The two queues -/

def stqIn (i : Inputs) (s : State) : Stq.Inputs where
  pipeFlush := i.pipeFlush
  dispatchValid := dispatchStqValid i
  executeStAddr := i.executePkt.result
  executeStAddrStqTag := i.executePkt.stqTag
  executeStAddrValid := executeStqValid i
  executeStData := i.executePkt.stData
  executeStDataSize := i.executePkt.memSize
  executeStDataStqTag := i.executePkt.stqTag
  executeStDataValid := executeStqValid i
  retirePkt := i.retirePkt
  fireStReady := i.fireStReady
  fireLdAddr := s.ldq.fireLdAddr
  fireLdDataSize := s.ldq.fireLdDataSize
  fireLdLdqTag := s.ldq.fireLdLdqTag
  fireLdStMask := s.ldq.fireLdStMask
  fireLdStYoungest := s.ldq.fireLdStYoungest
  fireLdValid := s.ldq.fireLdValid

def ldqIn (i : Inputs) (s : State) : Ldq.Inputs where
  pipeFlush := i.pipeFlush
  dispatchValid := dispatchLdqValid i
  dispatchStMask := dispatchLdqStMask i s
  dispatchStYoungest := dispatchLdqStYoungest i s
  executeLdAddr := i.executePkt.result
  executeLdLdqTag := i.executePkt.ldqTag
  executeLdDataSize := i.executePkt.memSize
  executeLdPc := i.executePkt.pc
  executeLdPrn := i.executePkt.destPrn
  executeLdRobTag := i.executePkt.robEntry
  executeLdValid := executeLdqValid i
  executeStAddr := i.executePkt.result
  executeStAddrStqTag := i.executePkt.stqTag
  executeStAddrValid := executeStqValid i
  fireLdReady := i.fireLdReady
  fireStStqTag := s.stq.fireStStqTag
  fireStValid := s.stq.fireStValid
  fireStReady := i.fireStReady
  fwdData := s.stq.fwdData
  fwdValid := s.stq.fwdValid
  fwdSleep := s.stq.fwdSleep
  fwdLdqTag := s.stq.fwdLdqTag
  fwdStqTag := s.stq.fwdStqTag
  dcacheData := i.dcacheData
  dcacheLdqTag := i.dcacheLdqTag
  dcacheValid := i.dcacheValid
  writebackReady := i.writebackReady
  retirePkt := i.retirePkt
  stqEntry := s.stq.stqEntry

def dispatchPktReady (i : Inputs) (s : State) : Bool :=
  Stq.dispatchReady (stqIn i s) s.stq && Ldq.dispatchReady (ldqIn i s) s.ldq

def dispatchStqResp (i : Inputs) (s : State) (l : Lane) : StqTag := Stq.dispatchResp (stqIn i s) s.stq l
def dispatchLdqResp (i : Inputs) (s : State) (l : Lane) : LdqTag := Ldq.dispatchResp (ldqIn i s) s.ldq l

def next (i : Inputs) (s : State) : State where
  stq := Stq.next (stqIn i s) s.stq
  ldq := Ldq.next (ldqIn i s) s.ldq

end R10K.Lsq
