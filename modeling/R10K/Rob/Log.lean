import R10K.Lib.Lanes
import R10K.Lib.Run
import R10K.Rob.Model

/-! What a run of the reorder buffer did since the last flush.

The log is the in-order queue the buffer is for: the packets dispatched, in program
order, each with the tag it was given and what its own writeback said, and the
packets retired. A `Config` is the buffer with its log and the credit it gave in the
previous cycle; `Ok` is what the dispatcher and the writeback lanes promise. -/
namespace R10K.Rob
open Circular Lanes

/-- A dispatched packet and what became of it: whether it was written back under its
own tag, and the redirect address if that writeback said mispredicted. -/
structure Record where
  pkt : DispatchRobPacket
  tag : RobTag
  done : Bool := false
  redirect : Option (BitVec 32) := none

namespace Record

/-- A NOP, a halt or an illegal instruction is complete when it is dispatched. -/
def completeAtDispatch (r : Record) : Bool := (dispatch2Rob r.pkt).complete

/-- Waiting for its writeback. -/
def pending (r : Record) : Bool := !r.done && !r.completeAtDispatch

def isBranch (r : Record) : Bool := r.pkt.condBranch || r.pkt.uncondBranch

/-- The entry a buffer should hold for the record. -/
def entry (r : Record) : RobEntry :=
  { dispatch2Rob r.pkt with
    complete := r.completeAtDispatch || r.done
    branchMisp := r.redirect.isSome }

end Record

/-- A writeback lane carries the tag. -/
def hit (i : Inputs) (t : RobTag) : Bool :=
  (List.finRange 7).any fun w => i.writebackValid w && i.writebackRobTag w == t

/-- The branch lane carries the tag and says mispredicted. -/
def hitMisp (i : Inputs) (t : RobTag) : Bool :=
  i.writebackValid 5 && i.writebackRobTag 5 == t && i.writebackBrMisp

/-- One cycle of writeback on a live record: its first writeback counts. -/
def mark (i : Inputs) (r : Record) : Record :=
  if r.pending && hit i r.tag then
    { r with done := true, redirect := if hitMisp i r.tag then some i.writebackRedirectPc else none }
  else r

structure Log where
  dispatched : List Record := []
  retired : List RetireRobPacket := []

/-- Dispatched and not yet retired. -/
def Log.live (l : Log) : List Record := l.dispatched.drop l.retired.length

/-- The packets of this cycle's valid lanes, with the tags answered. -/
def dispatching (i : Inputs) (s : State) : List Record :=
  (group fun l => (i.dispatchPkt l).packetValid).map fun l =>
    { pkt := i.dispatchPkt l, tag := dispatchPktResp i s l }

/-- The packets retired this cycle: the lanes with `packet_valid`. -/
def retiring (s : State) : List RetireRobPacket :=
  (group fun l => retireEn s l.val).map (retirePkt s)

def Log.next (i : Inputs) (s : State) (l : Log) : Log :=
  if i.pipeFlush then {}
  else
    { dispatched := l.dispatched.take l.retired.length ++ l.live.map (mark i) ++ dispatching i s
      retired := l.retired ++ retiring s }

structure Config where
  rob : State
  /-- `dispatch_pkt_ready` of the previous cycle. -/
  ready : Lane → Bool
  log : Log

def Config.init : Config := ⟨reset, fun _ => true, {}⟩

def Config.next (i : Inputs) (c : Config) : Config :=
  ⟨Rob.next i c.rob, dispatchPktReady i c.rob, c.log.next i c.rob⟩

/-- Contiguous groups, and a group of `n` only on the credit `dispatch_pkt_ready[n-1]`
of the previous cycle. -/
structure OkDispatch (i : Inputs) (c : Config) : Prop where
  contiguous : Contiguous fun l => (i.dispatchPkt l).packetValid
  credit : ∀ l : Lane, l.val + 1 = dispatchPktCnt i → c.ready l = true

/-- Besides, writebacks of live entries only. -/
structure Ok (i : Inputs) (c : Config) : Prop extends OkDispatch i c where
  live : ∀ w, i.writebackValid w = true → ∃ r ∈ c.log.live, r.tag = i.writebackRobTag w

def Reach : Config → Prop := Run.Reach Config.next Ok Config.init

/-- A cycle in which nothing comes in. -/
def idle : Inputs where
  pipeFlush := false
  dispatchPkt := fun _ => {}
  writebackRobTag := fun _ => ⟨false, 0⟩
  writebackValid := fun _ => false
  writebackBrMisp := false
  writebackRedirectPc := 0

/-- A branch dispatched alone, after reset. -/
def branchIn : Inputs :=
  { idle with dispatchPkt := fun l => { condBranch := true, packetValid := decide (l = 0) } }

end R10K.Rob
