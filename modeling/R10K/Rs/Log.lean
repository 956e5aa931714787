import R10K.Lib.Lanes
import R10K.Lib.Run
import R10K.Rs.Model

/-! What a run of a bank of stations did.

The log keeps every packet dispatched, in order, and every issue: the lane, what the lane
carried, and the number of the instruction that stood in the station it came from. A
station takes its number with the packet it loads. A flush ends the wait of everything
dispatched up to then. -/
namespace R10K.Rs
open Lanes Select
variable {m : Nat}

/-- What an instruction is issued with: what it was dispatched with. -/
def toIssue (p : DispatchRsPacket) : IssuePacket where
  inst := p.inst
  pc := p.pc
  opType := p.opType
  op1Prn := p.op1Prn
  op2Prn := p.op2Prn
  destPrn := p.destPrn
  op1Select := p.op1Select
  op2Select := p.op2Select
  rdMem := p.rdMem
  wrMem := p.wrMem
  condBranch := p.condBranch
  uncondBranch := p.uncondBranch
  robEntry := p.robEntry
  fuId := p.fuId
  ptabTag := p.ptabTag
  stqTag := p.stqTag
  ldqTag := p.ldqTag
  packetValid := true

structure Issue where
  number : Nat
  way : Way
  pkt : IssuePacket

structure Log (m : Nat) where
  bank : State m
  /-- `dispatch_pkt_ready` of the previous cycle. -/
  ready : Lane → Bool
  dispatched : List DispatchRsPacket := []
  /-- What is numbered below was dispatched up to the last flush. -/
  flushMark : Nat := 0
  /-- The number of the instruction each station holds. -/
  number : Fin (2 ^ m) → Nat := fun _ => 0
  issues : List Issue := []

/-- The valid lanes of a dispatched group. -/
def lanes (i : Inputs) : List Lane := group fun l => (i.dispatchPkt l).packetValid

namespace Log

/-- An empty bank is ready for as many lanes as it has stations. -/
def init (m : Nat) : Log m := { bank := reset m, ready := fun l => decide (l.val < 2 ^ m) }

/-- What leaves in this cycle. -/
def issuesNow (s : Log m) : List Issue :=
  ((List.finRange 7).filter fun w => (issuePkt s.bank w).packetValid).map fun w =>
    ⟨s.number (onehotEnc (issueEnN s.bank w)), w, issuePkt s.bank w⟩

def next (i : Inputs) (s : Log m) : Log m where
  bank := Rs.next i s.bank
  ready := dispatchPktReady i s.bank
  dispatched := s.dispatched ++ (lanes i).map i.dispatchPkt
  flushMark := if i.pipeFlush then s.dispatched.length + (lanes i).length else s.flushMark
  number := fun k =>
    if (dispatchPktN i s.bank k).packetValid then
      s.dispatched.length + rank (fun l => (i.dispatchPkt l).packetValid) (onehotEnc (allocSel s.bank k))
    else s.number k
  issues := s.issues ++ s.issuesNow

/-- A lane dispatches only on the credit the bank gave it in the previous cycle. -/
def Ok (i : Inputs) (s : Log m) : Prop := ∀ l, (i.dispatchPkt l).packetValid = true → s.ready l = true

def Reach : Log m → Prop := Run.Reach next Ok (init m)

end Log

end R10K.Rs
