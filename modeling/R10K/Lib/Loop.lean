import Mathlib.Data.Fin.Tuple.Basic
import Mathlib.Data.Option.Basic

/-! Loops over an index range.

A loop that visits the indices in order keeps what every visit keeps (`foldl_finRange`). Where
each visit may take something that only the first taker gets, what the loop has taken so far
is the first taker among the indices visited (`upTo`). -/
namespace R10K.Loop
universe u
variable {n : Nat}

/-- What holds at the start and is carried on by every visit holds at the end. -/
theorem foldl_finRange {β : Type u} {f : β → Fin n → β} {b : β} (P : Nat → β → Prop) (hinit : P 0 b)
    (hvisit : ∀ (k : Fin n) (b : β), P k.val b → P (k.val + 1) (f b k)) :
    P n ((List.finRange n).foldl f b) := by
  induction n with
  | zero => exact hinit
  | succ n ih =>
    rw [List.finRange_succ_last, List.foldl_append, List.foldl_map]
    exact hvisit (Fin.last n) _ (ih fun k b hk => hvisit k.castSucc b hk)

/-- The first taker, if it is among the first `m` indices. -/
def upTo (taker : Option (Fin n)) (m : Nat) : Option (Fin n) := taker.filter fun k => decide (k.val < m)

variable {taker : Option (Fin n)} {p : Fin n → Bool} {k : Fin n}

@[simp] theorem upTo_zero : upTo taker 0 = none := by cases taker <;> rfl

@[simp] theorem upTo_all : upTo taker n = taker := by
  cases taker with
  | none => rfl
  | some k => simp [upTo, Option.filter]

theorem upTo_eq_some {m : Nat} : upTo taker m = some k ↔ taker = some k ∧ k.val < m := by
  rw [upTo, Option.filter_eq_some_iff, decide_eq_true_eq]

/-- A visit that takes nothing leaves what was taken. -/
theorem upTo_skip (h : taker ≠ some k) : upTo taker (k.val + 1) = upTo taker k.val := by
  ext j
  rw [upTo_eq_some, upTo_eq_some]
  refine and_congr_right fun hj => ⟨fun hlt => ?_, fun hlt => Nat.lt_succ_of_lt hlt⟩
  have hjk : j ≠ k := fun hjk => h (hjk ▸ hj)
  have := Fin.val_ne_of_ne hjk
  omega

theorem upTo_take (h : taker = some k) : upTo taker (k.val + 1) = some k :=
  upTo_eq_some.2 ⟨h, Nat.lt_succ_self _⟩

/-- Nothing is taken before the first taker's turn. -/
theorem upTo_turn (h : taker = some k) : upTo taker k.val = none := by
  rw [Option.eq_none_iff_forall_ne_some]
  intro j hj
  rw [upTo_eq_some, h, Option.some.injEq] at hj
  omega

/-- An index takes when it asks and nothing has been taken before it. -/
theorem takes_iff : Fin.find? p = some k ↔ p k = true ∧ upTo (Fin.find? p) k.val = none := by
  constructor
  · intro h
    exact ⟨(Fin.find?_eq_some_iff.1 h).1, upTo_turn h⟩
  · intro ⟨hp, hnone⟩
    refine Fin.find?_eq_some_iff.2 ⟨hp, fun j hj => ?_⟩
    -- a first taker at `j` or before would have been seen
    rw [← Bool.not_eq_true]
    intro hpj
    obtain ⟨f, hf⟩ := Option.isSome_iff_exists.1 (Fin.isSome_find?_iff.2 ⟨j, hpj⟩)
    have hle : f ≤ j := by
      by_contra hlt
      rw [(Fin.find?_eq_some_iff.1 hf).2 j (by omega)] at hpj
      cases hpj
    rw [upTo_eq_some.2 ⟨hf, by omega⟩] at hnone
    cases hnone

end R10K.Loop
