import Mathlib.Data.Fin.Basic

/-! Requests under tags.

Something is fetched place by place. Each request is given a tag, which is noted at its
place, and an answer comes under the tag of its request. The places are asked for in order,
the answers may come in any: `waiting` says which of the places asked for have none yet. -/
namespace R10K.Requests
universe u v
variable {α : Type u} {τ : Type v} {n m : Nat} {place : Nat → α} {waiting : Fin n → Prop}
  {out : τ → Option α} {tag : Fin n → τ} {zero : τ}

/-- The requests without an answer are those of the first `m` places that wait, under the
tags noted there. The tags are distinct, and none is the one that names no request. -/
structure Noted (place : Nat → α) (waiting : Fin n → Prop) (out : τ → Option α) (tag : Fin n → τ) (zero : τ)
    (m : Nat) : Prop where
  waits : ∀ t a, out t = some a ↔ ∃ k : Fin n, k.val < m ∧ waiting k ∧ a = place k.val ∧ tag k = t
  distinct : ∀ j k : Fin n, j.val < m → k.val < m → tag j = tag k → j = k
  named : ∀ k : Fin n, k.val < m → tag k ≠ zero

namespace Noted

theorem start (place : Nat → α) (waiting : Fin n → Prop) (tag : Fin n → τ) (zero : τ) :
    Noted place waiting (fun _ => none) tag zero 0 where
  waits := fun _ _ => ⟨nofun, fun ⟨_, hk, _⟩ => absurd hk (Nat.not_lt_zero _)⟩
  distinct := fun _ _ hj => absurd hj (Nat.not_lt_zero _)
  named := fun _ hk => absurd hk (Nat.not_lt_zero _)

/-- Which places wait matters for those asked for only. -/
theorem congr {waiting' : Fin n → Prop} (h : Noted place waiting out tag zero m)
    (hw : ∀ k : Fin n, k.val < m → (waiting k ↔ waiting' k)) : Noted place waiting' out tag zero m where
  waits := fun t a => by
    rw [h.waits]
    exact exists_congr fun k => and_congr_right fun hk => and_congr_left fun _ => hw k hk
  distinct := h.distinct
  named := h.named

/-- A tag under which nothing waits is not noted where something does. -/
theorem fresh (h : Noted place waiting out tag zero m) {r : τ} (hfree : out r = none) {k : Fin n}
    (hk : k.val < m) (hwait : waiting k) : tag k ≠ r := by
  intro hkr
  rw [(h.waits r (place k.val)).2 ⟨k, hk, hwait, rfl, hkr⟩] at hfree
  cases hfree

variable [DecidableEq τ]

/-- The next place is asked for, under a tag that is not noted. -/
theorem accept (h : Noted place waiting out tag zero m) (hm : m < n) (hwait : waiting ⟨m, hm⟩) {r : τ}
    (hr : r ≠ zero) (hnew : ∀ k : Fin n, k.val < m → tag k ≠ r) :
    Noted place waiting (fun t => if t = r then some (place m) else out t)
      (fun k => if k.val = m then r else tag k) zero (m + 1) where
  waits := fun t a => by
    by_cases ht : t = r
    · rw [if_pos ht, Option.some.injEq]
      constructor
      · intro ha
        exact ⟨⟨m, hm⟩, Nat.lt_succ_self m, hwait, ha.symm, by rw [if_pos rfl, ht]⟩
      · intro ⟨k, hk, _, ha, htag⟩
        by_cases hkm : k.val = m
        · rw [ha, hkm]
        · rw [if_neg hkm] at htag
          exact absurd (htag.trans ht) (hnew k (by omega))
    · rw [if_neg ht, h.waits]
      constructor
      · intro ⟨k, hk, hw, ha, htag⟩
        exact ⟨k, by omega, hw, ha, by rw [if_neg (by omega), htag]⟩
      · intro ⟨k, hk, hw, ha, htag⟩
        have hkm : k.val ≠ m := fun hkm => by
          rw [if_pos hkm] at htag
          exact ht htag.symm
        rw [if_neg hkm] at htag
        exact ⟨k, by omega, hw, ha, htag⟩
  distinct := fun j k hj hk heq => by
    by_cases hjm : j.val = m <;> by_cases hkm : k.val = m
    · exact Fin.ext (hjm.trans hkm.symm)
    · rw [if_pos hjm, if_neg hkm] at heq
      exact absurd heq.symm (hnew k (by omega))
    · rw [if_neg hjm, if_pos hkm] at heq
      exact absurd heq (hnew j (by omega))
    · rw [if_neg hjm, if_neg hkm] at heq
      exact h.distinct j k (by omega) (by omega) heq
  named := fun k hk => by
    by_cases hkm : k.val = m
    · rw [if_pos hkm]
      exact hr
    · rw [if_neg hkm]
      exact h.named k (by omega)

/-- No request is named, so none is answered. -/
theorem silent (h : Noted place waiting out tag zero m) :
    Noted place waiting (fun t => if t = zero then none else out t) tag zero m where
  waits := fun t a => by
    by_cases ht : t = zero
    · rw [if_pos ht]
      exact ⟨nofun, fun ⟨k, hk, _, _, htag⟩ => absurd (htag.trans ht) (h.named k hk)⟩
    · rw [if_neg ht]
      exact h.waits t a
  distinct := h.distinct
  named := h.named

/-- The request noted at a place is answered. -/
theorem answer (h : Noted place waiting out tag zero m) {k : Fin n} (hk : k.val < m) :
    Noted place (fun j => j ≠ k ∧ waiting j) (fun t => if t = tag k then none else out t) tag zero m where
  waits := fun t a => by
    by_cases ht : t = tag k
    · rw [if_pos ht]
      exact ⟨nofun, fun ⟨j, hj, hw, _, htag⟩ => absurd (h.distinct j k hj hk (htag.trans ht)) hw.1⟩
    · rw [if_neg ht, h.waits]
      constructor
      · intro ⟨j, hj, hw, ha, htag⟩
        exact ⟨j, hj, ⟨fun hjk => ht (by rw [← htag, hjk]), hw⟩, ha, htag⟩
      · intro ⟨j, hj, hw, ha, htag⟩
        exact ⟨j, hj, hw.2, ha, htag⟩
  distinct := h.distinct
  named := h.named

end Noted

end R10K.Requests
