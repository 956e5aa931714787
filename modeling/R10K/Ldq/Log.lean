import R10K.Lib.Circular
import R10K.Lib.Run
import R10K.Ldq.Model

/-! What a run of the load queue did since the last flush.

The log lists the loads dispatched, in program order, each with its slot, with what its
execution gave it, and whether its result was taken. The first of them are retired. -/
namespace R10K.Ldq
open Circular Lanes

/-- What an execution gives a load. -/
structure Exec where
  addr : BitVec 32
  size : BitVec 3
  destPrn : Prn
  robTag : RobTag
deriving DecidableEq

structure Load where
  tag : LdqTag
  exec : Option Exec := none
  done : Bool := false
deriving DecidableEq

/-- One cycle of a load that is not retired. -/
def Load.step (i : Inputs) (s : State) (r : Load) : Load :=
  { r with
    exec := if r.tag == i.executeLdLdqTag && i.executeLdValid then
        some ⟨i.executeLdAddr, i.executeLdDataSize, i.executeLdPrn, i.executeLdRobTag⟩
      else r.exec
    done := r.done || writebackAccept i s r.tag }

structure Log where
  loads : List Load := []
  retired : Nat := 0

/-- The loads in flight. -/
def Log.live (l : Log) : List Load := l.loads.drop l.retired

/-- The loads of this cycle's group, in the slots answered. -/
def dispatching (i : Inputs) (s : State) : List Load :=
  (group i.dispatchValid).map fun l => { tag := dispatchResp i s l }

def Log.next (i : Inputs) (s : State) (l : Log) : Log :=
  if i.pipeFlush then {}
  else
    { loads := l.loads.take l.retired ++ l.live.map (Load.step i s) ++ dispatching i s
      retired := l.retired + retireCnt i }

structure Config where
  ldq : State
  /-- `dispatch_ready` of the previous cycle. -/
  ready : Bool
  log : Log

def Config.init : Config := ⟨reset, true, {}⟩

def Config.next (i : Inputs) (c : Config) : Config :=
  ⟨Ldq.next i c.ldq, dispatchReady i c.ldq, c.log.next i c.ldq⟩

/-- Dispatch within `dispatch_ready`, and retirement in order under the slots the loads
were given. -/
structure OkQueue (i : Inputs) (c : Config) : Prop where
  ready : 0 < dispatchCnt i → c.ready = true
  retire : ∀ (j : Nat) (l : Lane), (group (retiresLoad i))[j]? = some l →
    ∃ r : Load, c.log.live[j]? = some r ∧ (i.retirePkt l).ldqTag = r.tag

/-- Besides, each load executes once, and retires after its result was taken. -/
structure Ok (i : Inputs) (c : Config) : Prop extends OkQueue i c where
  execute : i.executeLdValid = true → ∃ r ∈ c.log.live, r.tag = i.executeLdLdqTag ∧ r.exec = none
  done : ∀ (j : Nat) (l : Lane) (r : Load), (group (retiresLoad i))[j]? = some l →
    c.log.live[j]? = some r → r.done = true

end R10K.Ldq
