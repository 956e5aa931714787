import Mathlib.Data.Nat.Notation

/-! A delay line.

What is put in at an edge comes out a fixed number of edges later. The line is kept by the
edges to go: place `c` comes out at the edge after the next `c` ones. -/
namespace R10K
universe u

/-- What is under way, by the edges to go. -/
abbrev DelayLine (α : Type u) := ℕ → Option α

namespace DelayLine
variable {α : Type u} {n : ℕ}

def empty : DelayLine α := fun _ => none

/-- One edge of a line of `n` places: everything moves up, and `x` is put in at the end. -/
def shift (n : ℕ) (x : Option α) (l : DelayLine α) : DelayLine α := fun c => if c + 1 = n then x else l (c + 1)

/-- Nothing is beyond the end. -/
def Short (n : ℕ) (l : DelayLine α) : Prop := ∀ c, n ≤ c → l c = none

theorem short_empty : Short n (empty : DelayLine α) := fun _ _ => rfl

theorem Short.shift {l : DelayLine α} (h : Short n l) (x : Option α) : Short n (shift n x l) := fun c hc => by
  rw [DelayLine.shift, if_neg (by omega), h _ (by omega)]

theorem shift_eq_some {l : DelayLine α} {x : Option α} {c : ℕ} {a : α} :
    shift n x l c = some a ↔ (c + 1 = n ∧ x = some a) ∨ (c + 1 ≠ n ∧ l (c + 1) = some a) := by
  rw [shift]
  split <;> simp_all

/-- The line after the first `t` edges of a run that puts in `x`. -/
def run (n : ℕ) (x : ℕ → Option α) : ℕ → DelayLine α
  | 0 => empty
  | t + 1 => shift n (x t) (run n x t)

/-- **What was put in is found where it has got to.** -/
theorem run_apply (x : ℕ → Option α) (t c : ℕ) :
    run n x t c = if c < n ∧ n ≤ t + c then x (t + c - n) else none := by
  induction t generalizing c with
  | zero =>
    rw [if_neg (by omega)]
    rfl
  | succ t ih =>
    rw [run, shift, ih]
    by_cases hc : c + 1 = n
    · rw [if_pos hc, if_pos (by omega), show t + 1 + c - n = t by omega]
    · rw [if_neg hc, show t + (c + 1) = t + 1 + c by omega]
      by_cases hin : c + 1 < n ∧ n ≤ t + 1 + c
      · rw [if_pos hin, if_pos (by omega)]
      · rw [if_neg hin, if_neg (by omega)]

end DelayLine

end R10K
