import R10K.Backend.Model
import R10K.Ldq.Log
import R10K.Rs.Bank
import R10K.Spine.Log
import R10K.Stq.Log

/-! What a run of the back end did: the logs of its queues, and the credit each of them
gave in the previous cycle.

Instructions are numbered in the order in which they are renamed, squashed ones included;
`serials` are the numbers of the program's. -/
namespace R10K.Backend
open Lanes

structure Config where
  state : State
  /-- `dispatch_pkt_ready` of the reorder buffer and of the two banks. -/
  robReady : Lane → Bool
  intReady : Lane → Bool
  memReady : Lane → Bool
  stqReady : Bool
  ldqReady : Bool
  robLog : Rob.Log
  stqLog : Stq.Log
  ldqLog : Ldq.Log
  program : List (Renaming.Instr Arn Prn)
  committed : Nat
  serials : List Nat
  /-- The number of instructions renamed. -/
  count : Nat

namespace Config

def spine (c : Config) : Spine.Config := ⟨c.state.core.spine, c.robReady, c.robLog, c.program, c.committed⟩
def stq (c : Config) : Stq.Config := ⟨c.state.lsq.stq, c.stqReady, c.stqLog⟩
def ldq (c : Config) : Ldq.Config := ⟨c.state.lsq.ldq, c.ldqReady, c.ldqLog⟩

def init : Config where
  state := reset
  robReady := fun _ => true
  intReady := fun _ => true
  memReady := fun _ => true
  stqReady := true
  ldqReady := true
  robLog := {}
  stqLog := {}
  ldqLog := {}
  program := []
  committed := 0
  serials := []
  count := 0

def intIn (i : Inputs) (c : Config) : Rs.Inputs := Core.rsIntIn (coreIn i c.state) c.state.core
def memIn (i : Inputs) (c : Config) : Rs.Inputs := Core.rsMemIn (coreIn i c.state) c.state.core
def stqIn (i : Inputs) (c : Config) : Stq.Inputs := Lsq.stqIn (lsqIn i c.state) c.state.lsq
def ldqIn (i : Inputs) (c : Config) : Ldq.Inputs := Lsq.ldqIn (lsqIn i c.state) c.state.lsq
def robIn (i : Inputs) (c : Config) : Rob.Inputs := Spine.robIn (spineIn i c.state) c.state.core.spine

/-- The instructions renamed in a cycle. -/
def renamed (c : Config) (i : Inputs) : List (Renaming.Instr Arn Prn) :=
  Rename.renamed (Spine.renameIn (spineIn i c.state) c.state.core.spine) c.state.core.spine.rename

/-- Every queue's log moves by its own rule. -/
def next (i : Inputs) (c : Config) : Config :=
  let spine := c.spine.next (spineIn i c.state)
  let stq := c.stq.next (c.stqIn i)
  let ldq := c.ldq.next (c.ldqIn i)
  { state := Backend.next i c.state
    robReady := spine.ready
    intReady := Rs.dispatchPktReady (c.intIn i) c.state.core.rsInt
    memReady := Rs.dispatchPktReady (c.memIn i) c.state.core.rsMem
    stqReady := stq.ready
    ldqReady := ldq.ready
    robLog := spine.robLog
    stqLog := stq.log
    ldqLog := ldq.log
    program := spine.program
    committed := spine.committed
    serials :=
      if pipeFlush c.state then c.serials.take (c.committed + (Spine.retireGroup c.state.core.spine).length)
      else c.serials ++ List.range' c.count (c.renamed i).length
    count := c.count + (c.renamed i).length }

theorem next_spine (i : Inputs) (c : Config) : (c.next i).spine = c.spine.next (spineIn i c.state) := rfl
theorem next_stq (i : Inputs) (c : Config) : (c.next i).stq = c.stq.next (c.stqIn i) := rfl
theorem next_ldq (i : Inputs) (c : Config) : (c.next i).ldq = c.ldq.next (c.ldqIn i) := rfl

end Config

/-- The fetched group has no hole. -/
def Ok (i : Inputs) (_ : Config) : Prop := Contiguous fun l => (i.fetchPkt l).packetValid

def Reach : Config → Prop := Run.Reach Config.next Ok Config.init

/-- Besides, no lane is valid in the cycle after a flush. -/
structure OkRecov (i : Inputs) (c : Config) : Prop where
  contiguous : Ok i c
  recov : c.state.core.spine.recovArchSt = true → ∀ l, (i.fetchPkt l).packetValid = false

def ReachRecov : Config → Prop := Run.Reach Config.next OkRecov Config.init

theorem ReachRecov.reach {c : Config} (h : ReachRecov c) : Reach c := h.mono fun _ _ ok => ok.contiguous

end R10K.Backend
