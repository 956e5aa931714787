import Mathlib.Algebra.GroupWithZero.Nat
import Mathlib.Data.List.FinRange
import Mathlib.Tactic.FinCases

/-! Groups of lanes.

A four-wide machine moves up to four items a cycle, one a lane, each with a valid
bit. `group` lists the valid lanes in order; `Contiguous` groups have no hole. -/
namespace R10K.Lanes

/-- There is a lane 0. -/
instance neZero : NeZero 4 := ⟨Nat.succ_ne_zero 3⟩

/-- The valid lanes of a group, in order. -/
def group (v : Fin 4 → Bool) : List (Fin 4) := (List.finRange 4).filter v

/-- No invalid lane between two valid ones. -/
def Contiguous (v : Fin 4 → Bool) : Prop :=
  ∀ a b c : Fin 4, a < b → b < c → v a = true → v c = true → v b = true

instance (v : Fin 4 → Bool) : Decidable (Contiguous v) :=
  inferInstanceAs (Decidable (∀ a b c : Fin 4, a < b → b < c → v a = true → v c = true → v b = true))

/-- The group from the bits of its four lanes. -/
theorem group_eq (v : Fin 4 → Bool) :
    group v = (if v 0 then [0] else []) ++ ((if v 1 then [1] else []) ++
      ((if v 2 then [2] else []) ++ (if v 3 then [3] else []))) := by
  have h : List.finRange 4 = [0, 1, 2, 3] := rfl
  rw [group, h]
  cases h0 : v 0 <;> cases h1 : v 1 <;> cases h2 : v 2 <;> cases h3 : v 3 <;>
    simp [h0, h1, h2, h3]

theorem mem_group {v : Fin 4 → Bool} {l : Fin 4} : l ∈ group v ↔ v l = true := by
  simp [group]

/-- The count of valid lanes as hardware adds it up. -/
theorem group_length (v : Fin 4 → Bool) :
    (group v).length = (v 3).toNat + (v 2).toNat + (v 1).toNat + (v 0).toNat := by
  rw [group_eq]
  cases v 0 <;> cases v 1 <;> cases v 2 <;> cases v 3 <;> rfl

theorem group_length_le (v : Fin 4 → Bool) : (group v).length ≤ 4 := by
  rw [group_length]
  cases v 0 <;> cases v 1 <;> cases v 2 <;> cases v 3 <;> decide

/-- The last valid lane closes the group. -/
theorem group_last {v : Fin 4 → Bool} {l : Fin 4} (hl : v l = true) (hafter : ∀ m, l < m → v m = false) :
    (group v).getLast? = some l := by
  rw [group_eq]
  match l with
  | 0 => simp [hl, hafter 1 (by decide), hafter 2 (by decide), hafter 3 (by decide)]
  | 1 => simp [hl, hafter 2 (by decide), hafter 3 (by decide)]
  | 2 => simp [hl, hafter 3 (by decide)]
  | 3 => simp [hl]

/-- A search from the last lane finds the last valid one. -/
theorem find_last {v : Fin 4 → Bool} {l : Fin 4} (hl : v l = true) (hafter : ∀ m, l < m → v m = false) :
    (List.finRange 4).reverse.find? v = some l := by
  have hrev : (List.finRange 4).reverse = [3, 2, 1, 0] := rfl
  rw [hrev]
  match l with
  | 0 => simp [hl, hafter 1 (by decide), hafter 2 (by decide), hafter 3 (by decide)]
  | 1 => simp [hl, hafter 2 (by decide), hafter 3 (by decide)]
  | 2 => simp [hl, hafter 3 (by decide)]
  | 3 => simp [hl]

/-- The number of valid lanes before a lane. -/
def rank (v : Fin 4 → Bool) (l : Fin 4) : Nat := ((List.finRange 4).filter fun m => m < l && v m).length

/-- The rank of a valid lane is its place in the group. -/
theorem rank_eq {v : Fin 4 → Bool} {j : Nat} {l : Fin 4} (h : (group v)[j]? = some l) :
    rank v l = j := by
  have hf : List.finRange 4 = [0, 1, 2, 3] := rfl
  rw [group_eq] at h
  rw [rank, hf]
  cases h0 : v 0 <;> cases h1 : v 1 <;> cases h2 : v 2 <;> cases h3 : v 3 <;>
    rcases j with _ | _ | _ | _ | j <;> simp [h0, h1, h2, h3] at h <;> subst h <;> simp [h0, h1, h2, h3]

/-- A valid lane stands in the group at its rank. -/
theorem group_rank {v : Fin 4 → Bool} {l : Fin 4} (h : v l = true) : (group v)[rank v l]? = some l := by
  obtain ⟨j, hj, hget⟩ := List.mem_iff_getElem.1 (mem_group.2 h)
  have hsome := List.getElem?_eq_some_iff.2 ⟨hj, hget⟩
  rwa [rank_eq hsome]

theorem rank_inj {v : Fin 4 → Bool} {l m : Fin 4} (hl : v l = true) (hm : v m = true)
    (h : rank v l = rank v m) : l = m := by
  have hsome := group_rank hl
  rw [h, group_rank hm, Option.some.injEq] at hsome
  exact hsome.symm

/-- The rank counts lane by lane. -/
theorem rank_zero (v : Fin 4 → Bool) : rank v 0 = 0 := by simp [rank]

theorem rank_succ (v : Fin 4 → Bool) {l m : Fin 4} (h : m.val = l.val + 1) :
    rank v m = rank v l + (v l).toNat := by
  have hf : List.finRange 4 = [0, 1, 2, 3] := rfl
  rw [rank, rank, hf]
  match l, m with
  | 0, 1 | 1, 2 | 2, 3 =>
    cases h0 : v 0 <;> cases h1 : v 1 <;> cases h2 : v 2 <;> cases h3 : v 3 <;> simp [h0, h1, h2, h3]

/-- No rank passes the group's length. -/
theorem rank_le (v : Fin 4 → Bool) (l : Fin 4) : rank v l + (v l).toNat ≤ (group v).length := by
  have h1 := rank_succ v (l := 0) (m := 1) rfl
  have h2 := rank_succ v (l := 1) (m := 2) rfl
  have h3 := rank_succ v (l := 2) (m := 3) rfl
  have h0 := rank_zero v
  rw [group_length]
  match l with
  | 0 | 1 | 2 | 3 => omega

/-- What comes before a lane in its group. -/
theorem group_take {v : Fin 4 → Bool} {j : Nat} {l : Fin 4} (h : (group v)[j]? = some l) :
    (group v).take j = ((List.finRange 4).take l.val).filter v := by
  have hf : List.finRange 4 = [0, 1, 2, 3] := rfl
  rw [group_eq] at h ⊢
  rw [hf]
  cases h0 : v 0 <;> cases h1 : v 1 <;> cases h2 : v 2 <;> cases h3 : v 3 <;>
    rcases j with _ | _ | _ | _ | j <;> simp [h0, h1, h2, h3] at h <;> subst h <;> simp [h0, h1, h2]

/-- The valid lanes before a lane are the first of the group. -/
theorem group_before (v : Fin 4 → Bool) (l : Fin 4) :
    (group v).filter (fun m => m < l) = (group v).take (rank v l) := by
  have hf : List.finRange 4 = [0, 1, 2, 3] := rfl
  rw [group_eq, rank, hf]
  match l with
  | 0 | 1 | 2 | 3 =>
    cases h0 : v 0 <;> cases h1 : v 1 <;> cases h2 : v 2 <;> cases h3 : v 3 <;> simp [h0, h1, h2, h3]

/-- The valid lanes of a kind before a lane. -/
theorem group_countP {v : Fin 4 → Bool} {j : Nat} {l : Fin 4} (h : (group v)[j]? = some l) (u : Fin 4 → Bool) :
    ((group v).take j).countP u = rank (fun m => v m && u m) l := by
  rw [← rank_eq h, ← group_before, rank, group, List.countP_filter, List.countP_filter, List.countP_eq_length_filter]
  congr 2
  funext m
  cases v m <;> cases u m <;> cases decide (m < l) <;> rfl

end R10K.Lanes
