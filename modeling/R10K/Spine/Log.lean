import R10K.Rename.Allocate
import R10K.Rob.Log
import R10K.Spine.Model

/-! What a run of the in-order part did.

The program of a run is the sequence of mappings renamed so far, without those a flush
squashed; the first `committed` of them are the ones the architectural map has taken. -/
namespace R10K.Spine
open Lanes Renaming

/-- The mapping an instruction carries in the buffer and when it retires. -/
def robInstr (p : DispatchRobPacket) : Instr Arn Prn := ⟨p.destArn, p.destPrn, p.destPrnPrev⟩
def retireInstr (p : RetireRobPacket) : Instr Arn Prn := ⟨p.destArn, p.destPrn, p.destPrnPrev⟩

/-- The group in the retire register. -/
def retireGroup (s : State) : List (Instr Arn Prn) :=
  (group fun l => (s.pipeRetirePkt l).packetValid).map fun l => retireInstr (s.pipeRetirePkt l)

/-- The group in the rename/dispatch register. -/
def renameGroup (s : State) : List (Instr Arn Prn) :=
  (group fun l => (s.pipeRenamePkt l).packetValid).map fun l => Rename.renameInstr (s.pipeRenamePkt l)

structure Config where
  state : State
  /-- `dispatch_pkt_ready` of the buffer in the previous cycle. -/
  ready : Lane → Bool
  robLog : Rob.Log
  program : List (Instr Arn Prn)
  committed : Nat

def Config.rob (c : Config) : Rob.Config := ⟨c.state.rob, c.ready, c.robLog⟩

def Config.init : Config := ⟨reset, fun _ => true, {}, [], 0⟩

/-- The instructions in flight, oldest first: retiring, in the buffer, renamed. -/
def Config.inFlight (c : Config) : List (Instr Arn Prn) :=
  retireGroup c.state ++ c.robLog.live.map (fun r => robInstr r.pkt) ++ renameGroup c.state

/-- A flush drops from the program what is younger than the retiring group. -/
def Config.next (i : Inputs) (c : Config) : Config where
  state := Spine.next i c.state
  ready := Rob.dispatchPktReady (robIn i c.state) c.state.rob
  robLog := c.robLog.next (robIn i c.state) c.state.rob
  program :=
    if pipeFlush c.state then c.program.take (c.committed + (retireGroup c.state).length)
    else c.program ++ Rename.renamed (renameIn i c.state) c.state.rename
  committed := c.committed + (retireGroup c.state).length

/-- Fetch groups have no hole. -/
structure OkFetch (i : Inputs) : Prop where
  contiguous : Contiguous fun l => (i.fetchPkt l).packetValid

/-- Besides, none is valid in the recovery cycle. -/
structure Ok (i : Inputs) (c : Config) : Prop extends OkFetch i where
  recov : c.state.recovArchSt = true → ∀ l, (i.fetchPkt l).packetValid = false

def Reach : Config → Prop := Run.Reach Config.next Ok Config.init

end R10K.Spine
