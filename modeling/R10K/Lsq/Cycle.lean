import R10K.Ldq.Cycle
import R10K.Lsq.System
import R10K.Stq.Forward

/-! A cycle of the load/store unit with either load queue.

The store queue, the data cache's requests and the memory move as they do under `ldq.sv`;
of the load queue only what `Ldq.Cycle` says is used. -/
namespace R10K.Lsq

/-- A cycle without a flush. -/
structure Cycle (taken : LdqTag → Bool) (i : Inputs) (c c' : Config) : Prop where
  stq : c'.stq = c.stq.next (stqIn i c.state)
  ldq : Ldq.Cycle taken (ldqIn i c.state) c.ldq c'.ldq
  pending : c'.pending = Config.pendingNext i c
  stale : c'.stale = Config.staleNext i c

theorem cycle_next (c : Config) {i : Inputs} (hf : i.pipeFlush = false) :
    Cycle (Ldq.writebackAccept (ldqIn i c.state) c.ldq.ldq) i c (c.next i) where
  stq := rfl
  ldq := Ldq.cycle_next c.ldq hf
  pending := by
    funext t
    simp only [Config.next, hf, Bool.false_eq_true, if_false]
  stale := by
    funext t
    simp only [Config.next, hf, Bool.false_eq_true, if_false]

/-- The lookup goes to the load in the fire stage. -/
theorem Cycle.fwdLdqTag {taken : LdqTag → Bool} {i : Inputs} {c c' : Config} (e : Cycle taken i c c') :
    c'.stq.stq.fwdLdqTag = c.ldq.ldq.fireLdLdqTag := by
  rw [e.stq]
  exact Stq.next_fwdLdqTag c.stq.stq e.ldq.noFlush

/-- A flush clears every load's entry. -/
theorem flush_entry (c : Config) {i : Inputs} (hf : i.pipeFlush = true) (t : LdqTag) :
    (c.next i).ldq.ldq.ldqEntry t = Ldq.flushed (c.ldq.ldq.ldqEntry t) :=
  Ldq.nextEntry_flush c.ldq.ldq t hf

namespace System

/-- The rules of a run without a flush, whatever the data cache answers. -/
structure Rules (i : Inputs) (s : System) : Prop where
  lsq : Lsq.Ok i s.lsq
  access : (executeStqValid i || executeLdqValid i) = true →
    Access i.executePkt.result i.executePkt.memSize
  inOrder : ∀ k n, s.lsq.ldq.log.retired + Ldq.retireCnt (ldqIn i s.lsq.state) ≤ k → s.older[k]? = some n →
    s.lsq.stq.log.retired + Stq.retireCnt (stqIn i s.lsq.state) ≤ n

theorem Ok.rules {i : Inputs} {s : System} (ok : Ok i s) : Rules i s := ⟨ok.lsq, ok.access, ok.inOrder⟩

/-- A cycle of the unit and its memory. -/
structure Cycle (taken : LdqTag → Bool) (i : Inputs) (s s' : System) : Prop extends
    Lsq.Cycle taken i s.lsq s'.lsq where
  older : s'.older = s.older ++ s.dispatchingOlder i
  mem : s'.mem = s.nextMem i
  request : ∀ t, s'.request t = if Config.accepts i s.lsq t then
    (s.lsq.ldq.ldq.fireLdAddr, s.lsq.ldq.ldq.fireLdDataSize) else s.request t

theorem cycle_next (s : System) {i : Inputs} (hf : i.pipeFlush = false) :
    Cycle (Ldq.writebackAccept (ldqIn i s.lsq.state) s.lsq.ldq.ldq) i s (s.next i) where
  toCycle := Lsq.cycle_next s.lsq hf
  older := rfl
  mem := rfl
  request := fun _ => rfl

end System

end R10K.Lsq
