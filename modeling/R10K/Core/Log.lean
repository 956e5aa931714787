import R10K.Core.Model
import R10K.Lib.Dataflow
import R10K.Spine.Log

/-! What a run of the core did.

The trace of a run is its program with the fate of every instruction: whether it has
issued, and the value broadcast for its destination. What the program says an operand
is, `source`, is read off the trace alone. The surroundings keep `Ok`: what is broadcast
is the completion of an instruction that has issued. -/
namespace R10K
open Lanes Renaming Dataflow

/-- The operands of an instruction. -/
inductive Operand where
  | op1 | op2
deriving DecidableEq, Repr

namespace RenamePacket

def opPrn (p : RenamePacket) : Operand → Prn | .op1 => p.op1Prn | .op2 => p.op2Prn
def useOp (p : RenamePacket) : Operand → Bool | .op1 => p.useOp1Prn | .op2 => p.useOp2Prn
def opReady (p : RenamePacket) : Operand → Bool | .op1 => p.op1Ready | .op2 => p.op2Ready

end RenamePacket

namespace DispatchRsPacket

def opPrn (p : DispatchRsPacket) : Operand → Prn | .op1 => p.op1Prn | .op2 => p.op2Prn
def useOp (p : DispatchRsPacket) : Operand → Bool | .op1 => p.useOp1Prn | .op2 => p.useOp2Prn
def opReady (p : DispatchRsPacket) : Operand → Bool | .op1 => p.op1Ready | .op2 => p.op2Ready

end DispatchRsPacket

def DecodePacket.opArn (p : DecodePacket) : Operand → Arn | .op1 => p.op1Arn | .op2 => p.op2Arn
def IssuePacket.opPrn (p : IssuePacket) : Operand → Prn | .op1 => p.op1Prn | .op2 => p.op2Prn
def RegReadPacket.opVal (p : RegReadPacket) : Operand → BitVec 32 | .op1 => p.op1Val | .op2 => p.op2Val

namespace Core

/-- An instruction of the program: as it was renamed, with the architectural registers
of its operands, and what became of it. -/
structure Flight where
  pkt : RenamePacket
  arn : Operand → Arn
  issued : Bool := false
  result : Option (BitVec 32) := none

def Flight.op (f : Flight) : Op Arn Prn (BitVec 32) :=
  { toInstr := Rename.renameInstr f.pkt, result := f.result }

/-- The value broadcast for a register in this cycle, if any. -/
def broadcast (i : Inputs) (p : Prn) : Option (BitVec 32) :=
  (List.finRange 7).foldl (fun r w =>
    if i.cdbValid w && i.cdbPrn w == p then some (i.cdbResult w) else r) none

/-- An instruction issues, and hears the value broadcast for its destination. -/
def Flight.next (i : Inputs) (issues : Bool) (f : Flight) : Flight :=
  { f with
    issued := f.issued || issues
    result := f.result.or (if f.pkt.destPrn = 0 then none else broadcast i f.pkt.destPrn) }

structure Config where
  state : State
  /-- `dispatch_pkt_ready` of the buffer in the previous cycle. -/
  robReady : Lane → Bool
  robLog : Rob.Log
  trace : List Flight
  committed : Nat

namespace Config

def init : Config := ⟨reset, fun _ => true, {}, [], 0⟩

def ops (c : Config) : List (Op Arn Prn (BitVec 32)) := c.trace.map Flight.op

def spine (c : Config) : Spine.Config :=
  ⟨c.state.spine, c.robReady, c.robLog, instrs c.ops, c.committed⟩

/-- The number of the oldest instruction in the buffer. -/
def base (c : Config) : Nat := c.committed + (Spine.retireGroup c.state.spine).length

/-- What the program says a register holds for instruction `n`: the result of the
youngest instruction before it that writes the register, or zero from the start. -/
def source (c : Config) (n : Nat) : Arn → Option (BitVec 32) := values (fun _ => some 0) (c.ops.take n)

/-- Instruction `n` stands in the buffer with a record. -/
structure At (c : Config) (r : Rob.Record) (n : Nat) (f : Flight) : Prop where
  le : c.base ≤ n
  live : c.robLog.live[n - c.base]? = some r
  flight : c.trace[n]? = some f

/-- An issue lane carries the tag of instruction `n`. -/
def issues (c : Config) (n : Nat) : Bool :=
  decide (c.base ≤ n) && (c.robLog.live[n - c.base]?).any fun r =>
    (List.finRange 7).any fun w => (issuePkt c.state w).packetValid && (issuePkt c.state w).robEntry == r.tag

def renameIn (i : Inputs) (c : Config) : Rename.Inputs := Spine.renameIn (spineIn i c.state) c.state.spine
def robIn (i : Inputs) (c : Config) : Rob.Inputs := Spine.robIn (spineIn i c.state) c.state.spine

/-- What a lane of the renamed group is when it joins the trace. -/
def flight (i : Inputs) (c : Config) (l : Lane) : Flight where
  pkt := Rename.renamePkt (c.renameIn i) c.state.spine.rename l
  arn := (Rename.decoded (c.renameIn i) c.state.spine.rename l).opArn

/-- The instructions renamed in this cycle. -/
def renamed (i : Inputs) (c : Config) : List Flight :=
  if Rename.accept (c.renameIn i) then
    (group fun l => (c.flight i l).pkt.packetValid).map (c.flight i)
  else []

/-- The trace after a cycle, without what is renamed in it. -/
def marked (i : Inputs) (c : Config) : List Flight := c.trace.mapIdx fun n f => f.next i (c.issues n)

def next (i : Inputs) (c : Config) : Config :=
  let spine := c.spine.next (spineIn i c.state)
  { state := Core.next i c.state
    robReady := spine.ready
    robLog := spine.robLog
    trace := if Spine.pipeFlush c.state.spine then (c.marked i).take c.base else c.marked i ++ c.renamed i
    committed := spine.committed }

end Config

/-- Besides the rules of the in-order part: a broadcast carries the tag and the register
of an instruction in the buffer that has issued, and whose register, unless it is
register 0, was not broadcast before. -/
structure Ok (i : Inputs) (c : Config) : Prop extends Spine.Ok (spineIn i c.state) c.spine where
  own : ∀ w, i.cdbValid w = true → ∃ r n f, c.At r n f ∧ r.tag = i.cdbRob w ∧ f.issued = true ∧
    f.pkt.destPrn = i.cdbPrn w ∧ (f.pkt.destPrn ≠ 0 → f.result = none)

def Reach : Config → Prop := Run.Reach Config.next Ok Config.init

end Core

end R10K
