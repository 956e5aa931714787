import R10K.Backend.Credit
import R10K.Ptab.Table

/-! What a run of the back end did with its branches.

Instructions are numbered as they are accepted, and the number of an instruction goes
along with it from register to register. The log keeps the branches accepted and since
then neither resolved nor squashed, each with its fetch packet and the entry of the branch
table it was given. -/
namespace R10K.Branch
open Backend Lanes

/-- The instruction is a branch or a jump. -/
def isBranch (inst : BitVec 32) : Bool :=
  (Decoder.control inst).condBranch || (Decoder.control inst).uncondBranch

/-- A branch in flight. -/
structure Record where
  number : Nat
  tag : BitVec 4
  pkt : FetchPacket
deriving DecidableEq

structure Config where
  state : State
  /-- `dispatch_pkt_ready` of the bank of sixteen in the previous cycle. -/
  intReady : Lane → Bool
  /-- The number of instructions accepted. -/
  count : Nat
  inFlight : List Record
  /-- The numbers of the instructions in the dispatch register, in the stations of the bank
  of sixteen, and in lane 5 of the issue and of the register-read register. -/
  renameNumber : Lane → Nat
  stationNumber : Fin 16 → Nat
  issueNumber : Nat
  readNumber : Nat

namespace Config

def init : Config where
  state := reset
  intReady := fun _ => true
  count := 0
  inFlight := []
  renameNumber := fun _ => 0
  stationNumber := fun _ => 0
  issueNumber := 0
  readNumber := 0

/-- An instruction of the fetched group is accepted, and is a branch. -/
def accepted (i : Inputs) (c : Config) (l : Lane) : Bool := takes i c.state && (i.fetchPkt l).packetValid

def acceptedBranch (i : Inputs) (c : Config) (l : Lane) : Bool :=
  c.accepted i l && isBranch (i.fetchPkt l).inst

/-- The number an instruction of the fetched group gets. -/
def fetchNumber (i : Inputs) (c : Config) (l : Lane) : Nat :=
  c.count + rank (fun m => (i.fetchPkt m).packetValid) l

def record (i : Inputs) (c : Config) (l : Lane) : Record where
  number := c.fetchNumber i l
  tag := BitVec.ofFin (Ptab.ptabTag c.state.ptab l)
  pkt := i.fetchPkt l

/-- The branch unit resolves the branch. -/
def resolves (c : Config) (r : Record) : Bool :=
  (executePkt c.state 5).packetValid && r.number == c.readNumber

def intIn (i : Inputs) (c : Config) : Rs.Inputs := Core.rsIntIn (coreIn i c.state) c.state.core

def next (i : Inputs) (c : Config) : Config where
  state := Backend.next i c.state
  intReady := Rs.dispatchPktReady (c.intIn i) c.state.core.rsInt
  count := c.count + (group (c.accepted i)).length
  inFlight :=
    if pipeFlush c.state then []
    else Tokens.update c.resolves ((group (c.acceptedBranch i)).map (c.record i)) c.inFlight
  renameNumber := c.fetchNumber i
  stationNumber := fun k =>
    if (Rs.dispatchPktN (c.intIn i) c.state.core.rsInt k).packetValid then
      c.renameNumber (Select.onehotEnc (Rs.allocSel c.state.core.rsInt k))
    else c.stationNumber k
  issueNumber := c.stationNumber (Select.onehotEnc (Rs.issueEnN c.state.core.rsInt 5))
  readNumber := c.issueNumber

end Config

/-- `branch_mask` is set for exactly the branches and jumps fetched. -/
def Ok (i : Inputs) (_ : Config) : Prop :=
  ∀ l, (i.fetchPkt l).packetValid = true → (i.fetchPkt l).branchMask = isBranch (i.fetchPkt l).inst

instance (i : Inputs) (c : Config) : Decidable (Ok i c) :=
  inferInstanceAs (Decidable (∀ l : Fin 4, (i.fetchPkt l).packetValid = true →
    (i.fetchPkt l).branchMask = isBranch (i.fetchPkt l).inst))

def Reach : Config → Prop := Run.Reach Config.next Ok Config.init

end R10K.Branch
