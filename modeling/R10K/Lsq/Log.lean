import R10K.Ldq.Log
import R10K.Lsq.Model
import R10K.Stq.Log

/-! What a run of the load/store unit did, and the requests at the data cache.

Besides the logs of the two queues, a `Config` counts the loads that the data cache has
accepted and not answered, for each slot: those accepted since the last flush, and the
stale ones accepted in the cycle of a flush or before it. Raising a slot in
`fire_ld_kill` cancels its requests. -/
namespace R10K.Lsq

structure Config where
  stq : Stq.Config
  ldq : Ldq.Config
  pending : LdqTag → Nat
  stale : LdqTag → Nat

namespace Config

def state (c : Config) : State := ⟨c.stq.stq, c.ldq.ldq⟩

def init : Config := ⟨Stq.Config.init, Ldq.Config.init, fun _ => 0, fun _ => 0⟩

/-- The data cache accepts the load of a slot, which is not killed in the same cycle. -/
def accepts (i : Inputs) (c : Config) (t : LdqTag) : Bool :=
  Ldq.fireLdAccept (ldqIn i c.state) c.ldq.ldq && t == c.ldq.ldq.fireLdLdqTag

/-- The data cache answers a slot. -/
def answers (i : Inputs) (t : LdqTag) : Bool := i.dcacheValid && t == i.dcacheLdqTag

def kills (i : Inputs) (c : Config) (t : LdqTag) : Bool := Ldq.fireLdKill (ldqIn i c.state) c.ldq.ldq t

/-- The requests of a slot that stand after a cycle; an answer goes to a stale one first. -/
def pendingNext (i : Inputs) (c : Config) (t : LdqTag) : Nat :=
  if kills i c t then 0
  else c.pending t + (accepts i c t).toNat - (answers i t && c.stale t == 0).toNat

def staleNext (i : Inputs) (c : Config) (t : LdqTag) : Nat :=
  if kills i c t then 0 else c.stale t - (answers i t).toNat

def next (i : Inputs) (c : Config) : Config where
  stq := c.stq.next (stqIn i c.state)
  ldq := c.ldq.next (ldqIn i c.state)
  pending := fun t => if i.pipeFlush then 0 else pendingNext i c t
  stale := fun t => if i.pipeFlush then staleNext i c t + pendingNext i c t else staleNext i c t

end Config

/-- The rules of the two queues, and the data cache answers what it has accepted. -/
structure Ok (i : Inputs) (c : Config) : Prop where
  stq : Stq.Ok (stqIn i c.state) c.stq
  ldq : Ldq.Ok (ldqIn i c.state) c.ldq
  answer : i.dcacheValid = true → 0 < c.pending i.dcacheLdqTag + c.stale i.dcacheLdqTag

def Reach : Config → Prop := Run.Reach Config.next Ok Config.init

/-- No answer comes for a slot whose load was accepted before the last flush ended. -/
def Fresh (i : Inputs) (c : Config) : Prop := i.dcacheValid = true → c.stale i.dcacheLdqTag = 0

/-- The runs all of whose answers are fresh. -/
def ReachFresh : Config → Prop := Run.Reach Config.next (fun i c => Ok i c ∧ Fresh i c) Config.init

end R10K.Lsq
