import R10K.LdqConservative.Model
import R10K.Lsq.Cycle

/-! The conservative load/store unit with the memory behind its data cache.

The configuration and its log are those of the unit with `ldq.sv`. The data cache may read a
load from the memory as it is in any cycle from the one that accepts the load, after the
store of that cycle, to the one that answers it: a `System` knows the memories since then. -/
namespace R10K.LdqConservative
open Lsq

/-! ### The unit -/

/-- `fire_ld_kill` in the unit. -/
def kills (i : Lsq.Inputs) (c : Config) (t : LdqTag) : Bool := fireLdKill (ldqIn i c.state) t

/-- The requests of a slot that stand after a cycle; an answer goes to a stale one first. -/
def pendingNext (i : Lsq.Inputs) (c : Config) (t : LdqTag) : Nat :=
  if kills i c t then 0
  else c.pending t + (Config.accepts i c t).toNat - (Config.answers i t && c.stale t == 0).toNat

def staleNext (i : Lsq.Inputs) (c : Config) (t : LdqTag) : Nat :=
  if kills i c t then 0 else c.stale t - (Config.answers i t).toNat

def ldqNext (i : Ldq.Inputs) (c : Ldq.Config) : Ldq.Config :=
  ⟨next i c.ldq, Ldq.dispatchReady i c.ldq, c.log.nextWith (writebackAccept i c.ldq) i c.ldq⟩

def lsqNext (i : Lsq.Inputs) (c : Config) : Config where
  stq := c.stq.next (stqIn i c.state)
  ldq := ldqNext (ldqIn i c.state) c.ldq
  pending := fun t => if i.pipeFlush then 0 else pendingNext i c t
  stale := fun t => if i.pipeFlush then staleNext i c t + pendingNext i c t else staleNext i c t

/-! ### The memory -/

structure System extends Lsq.System where
  /-- The memories since the last request of a slot was accepted. -/
  seen : LdqTag → List Mem

namespace System

def init (m : Mem) : System := ⟨Lsq.System.init m, fun _ => []⟩

def next (i : Lsq.Inputs) (s : System) : System where
  lsq := lsqNext i s.lsq
  older := s.older ++ s.dispatchingOlder i
  mem := s.nextMem i
  request := fun t =>
    if Config.accepts i s.lsq t then (s.lsq.ldq.ldq.fireLdAddr, s.lsq.ldq.ldq.fireLdDataSize) else s.request t
  seen := fun t => if Config.accepts i s.lsq t then [s.nextMem i] else s.nextMem i :: s.seen t

/-- The rules of a run without a flush. -/
structure Ok (i : Lsq.Inputs) (s : System) : Prop extends Lsq.System.Rules i s.toSystem where
  noFlush : i.pipeFlush = false
  /-- An answer comes after the cycle that accepted its load, and is read from a memory since then. -/
  answer : i.dcacheValid = true → ∃ m ∈ s.nextMem i :: s.seen i.dcacheLdqTag,
    i.dcacheData = readBytes m (s.request i.dcacheLdqTag).1 (s.request i.dcacheLdqTag).2

def Reach (m : Mem) : System → Prop := Run.Reach next Ok (init m)

/-- The slot a result is offered for. -/
abbrev slot (i : Lsq.Inputs) (s : System) : LdqTag := writebackLdqIdx (ldqIn i s.lsq.state) s.lsq.ldq.ldq

/-- A result that is broadcast is its load's, every store before the load has executed, and the
result is the load's bytes of the memory they leave. -/
def Ordered (m : Mem) (i : Lsq.Inputs) (s : System) : Prop :=
  writebackValid (ldqIn i s.lsq.state) s.lsq.ldq.ldq = true → ∃ k r n x, s.Load k r n x ∧ r.tag = s.slot i ∧
    x.destPrn = writebackDestPrn (ldqIn i s.lsq.state) s.lsq.ldq.ldq ∧
    x.robTag = writebackRobTag (ldqIn i s.lsq.state) s.lsq.ldq.ldq ∧
    (∀ q ∈ s.stores.take n, q.write.isSome = true) ∧
    writebackData (ldqIn i s.lsq.state) s.lsq.ldq.ldq = s.value m n x

end System

end R10K.LdqConservative
