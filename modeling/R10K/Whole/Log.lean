import R10K.Backend.Recovery
import R10K.Core.Stations
import R10K.Lsq.Once

/-! A run of the whole back end.

The core and the load/store unit were followed with rules on what the rest of the back end
gives them. Here they run in it: the trace of the core and the requests at the data cache go
along with the back end, and rules are left for what is outside only, the fetched groups and
the data cache. -/
namespace R10K.Whole
open Backend

structure Config where
  backend : Backend.Config
  trace : List Core.Flight
  /-- The requests at the data cache, as `Lsq.Config` counts them. -/
  pending : LdqTag → Nat
  stale : LdqTag → Nat

namespace Config

def state (c : Config) : State := c.backend.state

/-- The core of the run, and its load/store unit. -/
def core (c : Config) : Core.Config :=
  ⟨c.state.core, c.backend.robReady, c.backend.robLog, c.trace, c.backend.committed⟩

def lsq (c : Config) : Lsq.Config := ⟨c.backend.stq, c.backend.ldq, c.pending, c.stale⟩

def init : Config := ⟨Backend.Config.init, [], fun _ => 0, fun _ => 0⟩

def coreIn (i : Inputs) (c : Config) : Core.Inputs := Backend.coreIn i c.state
def lsqIn (i : Inputs) (c : Config) : Lsq.Inputs := Backend.lsqIn i c.state

def next (i : Inputs) (c : Config) : Config where
  backend := c.backend.next i
  trace := (c.core.next (c.coreIn i)).trace
  pending := (c.lsq.next (c.lsqIn i)).pending
  stale := (c.lsq.next (c.lsqIn i)).stale

/-- A run of the whole is a run of its parts. -/
theorem next_core (i : Inputs) (c : Config) : (c.next i).core = c.core.next (c.coreIn i) := rfl

theorem next_lsq (i : Inputs) (c : Config) : (c.next i).lsq = c.lsq.next (c.lsqIn i) := rfl

end Config

/-- Fetched groups have no hole, and none comes in the cycle after a flush; the data cache
answers what it accepted since the last flush; and no load is broadcast from its forward
while its lookup forwards again. -/
structure Ok (i : Inputs) (c : Config) : Prop where
  fetch : OkRecov i c.backend
  answer : i.dcacheValid = true → 0 < c.pending i.dcacheLdqTag ∧ c.stale i.dcacheLdqTag = 0
  once : ¬ Lsq.Repeats (c.lsqIn i) c.state.lsq

def Reach : Config → Prop := Run.Reach Config.next Ok Config.init

end R10K.Whole
