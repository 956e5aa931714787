import R10K.Lib.Assoc

/-! A write-back cache.

A cache stands in front of a memory of lines. A line that is held is read from the cache, any
other from the memory: that is the memory the cache shows (`Shown`). Lines that are not marked
are still the memory's, so a line may be replaced, without being written back, when it is not
marked. -/
namespace R10K.Assoc
universe u v w x
variable {W : Type u} {S : Type v} {T : Type w} {B : Type x}

/-- What the cache shows of the memory, line by line. -/
structure Shown (c : Store W S T B) (marked : W → S → Bool) (mem shown : S → T → B) : Prop where
  held : ∀ w s t, c.Holds w s t → c.block w s = shown s t
  away : ∀ s t, ¬ c.Present s t → shown s t = mem s t
  unmarked : ∀ w s t, c.Holds w s t → marked w s = false → c.block w s = mem s t

namespace Shown
variable {c : Store W S T B} {marked : W → S → Bool} {mem shown : S → T → B} {w : W} {s : S} {t : T} {b : B}

/-- An empty cache shows the memory. -/
theorem empty (h : ∀ w s, c.valid w s = false) : Shown c marked mem mem := by
  have hnone : ∀ w s t, ¬ c.Holds w s t := fun w s t hw => by
    rw [Store.Holds, h] at hw
    exact absurd hw.1 (by decide)
  exact ⟨fun w s t hw => absurd hw (hnone w s t), fun _ _ _ => rfl, fun w s t hw => absurd hw (hnone w s t)⟩

/-- A line that is held but not marked is the memory's. -/
theorem clean (h : Shown c marked mem shown) (hw : c.Holds w s t) (hm : marked w s = false) : shown s t = mem s t :=
  (h.held w s t hw).symm.trans (h.unmarked w s t hw hm)

variable [DecidableEq W] [DecidableEq S] [DecidableEq T]

/-- **A line may be written where it is held, or, when it is not held, over a line that is not
marked.** The cache then shows the block under that line and every other line as before. -/
theorem fill (h : Shown c marked mem shown) (hu : c.Unique)
    (hplace : c.Holds w s t ∨ (¬ c.Present s t ∧ (c.valid w s = true → marked w s = false)))
    {marked' : W → S → Bool} (hmarked : ∀ v r, ¬ (v = w ∧ r = s) → marked' v r = marked v r)
    (hb : marked' w s = false → b = mem s t) :
    Shown (c.fill w s t b) marked' mem fun r u => if r = s ∧ u = t then b else shown r u := by
  have honly : ∀ v, c.Holds v s t → v = w := fun v hv => by
    rcases hplace with hw | ⟨hno, _⟩
    · exact hu s t v w hv hw
    · exact absurd ⟨v, hv⟩ hno
  -- another line in another place
  have hother : ∀ {v r u}, ¬ (v = w ∧ r = s) → c.Holds v r u → ¬ (r = s ∧ u = t) := fun hne hv heq => by
    rw [heq.1, heq.2] at hv
    exact hne ⟨honly _ hv, heq.1⟩
  refine ⟨fun v r u hv => ?_, fun r u hno => ?_, fun v r u hv hm => ?_⟩
  · rw [Store.holds_fill] at hv
    simp only [Store.fill]
    split at hv
    · rename_i heq
      rw [if_pos heq, if_pos ⟨heq.2, hv.symm⟩]
    · rename_i hne
      rw [if_neg hne, if_neg (hother hne hv), h.held v r u hv]
  · have hne : ¬ (r = s ∧ u = t) := fun heq => hno (by
      rw [heq.1, heq.2]
      exact Store.present_fill_self)
    rw [if_neg hne]
    by_cases hp : c.Present r u
    · -- the line that was replaced
      obtain ⟨v, hv⟩ := hp
      have hvw : v = w ∧ r = s := by
        by_contra hplace
        exact hno ⟨v, by rw [Store.holds_fill, if_neg hplace]; exact hv⟩
      obtain ⟨rfl, rfl⟩ := hvw
      rcases hplace with hw | ⟨_, hclean⟩
      · exact absurd ⟨rfl, hv.2.symm.trans hw.2⟩ hne
      · exact h.clean hv (hclean hv.1)
    · exact h.away r u hp
  · rw [Store.holds_fill] at hv
    simp only [Store.fill]
    split at hv
    · rename_i heq
      obtain ⟨rfl, rfl⟩ := heq
      rw [if_pos ⟨rfl, rfl⟩, hb hm, hv]
    · rename_i hne
      rw [if_neg hne]
      exact h.unmarked v r u hv ((hmarked v r hne).symm.trans hm)

end Shown

end R10K.Assoc
