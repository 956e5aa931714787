import Mathlib.Logic.Function.Basic

/-! A set-associative store.

Every set has one place in each way, and a place holds a block under a tag or nothing. The
store stands for a partial map from lines, a set and a tag, to blocks as long as no line is
held twice. Filling a place keeps that when the line is held nowhere else. -/
namespace R10K.Assoc
universe u v w x
variable {W : Type u} {S : Type v} {T : Type w} {B : Type x}

structure Store (W : Type u) (S : Type v) (T : Type w) (B : Type x) where
  valid : W → S → Bool
  tag : W → S → T
  block : W → S → B

namespace Store
variable {c : Store W S T B} {w w' : W} {s s' : S} {t t' : T} {b : B}

/-- A way holds the line. -/
def Holds (c : Store W S T B) (w : W) (s : S) (t : T) : Prop := c.valid w s = true ∧ c.tag w s = t

/-- Some way holds the line. -/
def Present (c : Store W S T B) (s : S) (t : T) : Prop := ∃ w, c.Holds w s t

/-- No line is held by two ways. -/
def Unique (c : Store W S T B) : Prop := ∀ s t w w', c.Holds w s t → c.Holds w' s t → w = w'

instance [DecidableEq T] : Decidable (c.Holds w s t) := inferInstanceAs (Decidable (_ ∧ _))

theorem unique_of_empty (h : ∀ w s, c.valid w s = false) : c.Unique := by
  intro s t w w' hw
  exact absurd hw.1 (by rw [h]; decide)

variable [DecidableEq W] [DecidableEq S]

/-- The store after a line is written into a place. -/
def fill (c : Store W S T B) (w : W) (s : S) (t : T) (b : B) : Store W S T B where
  valid := fun v r => if v = w ∧ r = s then true else c.valid v r
  tag := fun v r => if v = w ∧ r = s then t else c.tag v r
  block := fun v r => if v = w ∧ r = s then b else c.block v r

theorem holds_fill : (c.fill w s t b).Holds w' s' t' ↔
    if w' = w ∧ s' = s then t = t' else c.Holds w' s' t' := by
  unfold Holds fill
  split
  · rename_i h
    simp [h]
  · rename_i h
    simp [h]

theorem holds_fill_self : (c.fill w s t b).Holds w s t := by
  rw [holds_fill, if_pos ⟨rfl, rfl⟩]

theorem present_fill_self : (c.fill w s t b).Present s t := ⟨w, holds_fill_self⟩

/-- **A fill keeps lines apart when the line is in no other way.** -/
theorem Unique.fill (h : c.Unique) (hline : ∀ v, c.Holds v s t → v = w) :
    (c.fill w s t b).Unique := by
  intro r u v v' hv hv'
  rw [holds_fill] at hv hv'
  split at hv <;> split at hv'
  · rename_i h1 h2
    rw [h1.1, h2.1]
  · rename_i h1 _
    obtain ⟨rfl, rfl⟩ := h1
    subst hv
    exact (hline v' hv').symm
  · rename_i _ h2
    obtain ⟨rfl, rfl⟩ := h2
    subst hv'
    exact hline v hv
  · exact h r u v v' hv hv'

end Store

end R10K.Assoc
