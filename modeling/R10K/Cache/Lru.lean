import R10K.Cache.Sets

/-! What the tree of a set protects.

The tree points to the way to be replaced. An access to one way turns its set away from
that way; an edge on which no way, or more than one, is accessed leaves the tree alone. -/
namespace R10K.Cache.LruTree
variable {t : LruTree} {x y : Index} {access : CacheWay → Bool} {w : CacheWay}

/-- The way the tree of a set points to: `lru_way` when the set is addressed. -/
def victim (t : LruTree) (x : Index) : CacheWay := t.lruWay x x

theorem accessed_iff : accessed access = some w ↔ ∀ v, access v = decide (v = w) := by
  constructor
  · intro h
    simpa using List.find?_some h
  · intro h
    rw [accessed, List.find?_eq_some_iff_append]
    obtain ⟨before, after, hsplit⟩ := List.append_of_mem (List.mem_finRange w)
    refine ⟨by simpa using h, before, after, hsplit, fun v hv => ?_⟩
    -- the list of ways names each once, so `v` is another
    have hne : v ≠ w := by
      have hnodup := List.nodup_finRange 4
      rw [hsplit, List.nodup_append] at hnodup
      exact hnodup.2.2 v hv w List.mem_cons_self
    simp only [Bool.not_eq_true', decide_eq_false_iff_not]
    intro hall
    have hw := hall w
    rw [h w, decide_eq_true rfl] at hw
    exact hne (of_decide_eq_true hw.symm).symm

theorem accessed_none (h : ∀ v, access v = false) : accessed access = none := by
  cases ha : accessed access with
  | none => rfl
  | some w =>
    have hw := accessed_iff.1 ha w
    rw [h w, decide_eq_true rfl] at hw
    cases hw

theorem next_none (h : accessed access = none) : t.next x access = t := by
  simp only [next, h, ite_self]

theorem victim_next_none (h : accessed access = none) : (t.next x access).victim y = t.victim y := by
  rw [next_none h]

/-- Only the addressed set turns. -/
theorem victim_next_other (h : y ≠ x) : (t.next x access).victim y = t.victim y := by
  simp only [victim, lruWay, next, if_neg (Ne.symm h)]

/-- The half the tree points to, and the way in it. -/
theorem victim_val : (t.victim x).val =
    if t.lruTree0 x then 2 + (t.lruTree1 x 1).toNat else (t.lruTree1 x 0).toNat := by
  rw [victim, lruWay, if_pos rfl]
  cases t.lruTree0 x <;> cases t.lruTree1 x 0 <;> cases t.lruTree1 x 1 <;> rfl

section
variable (h : accessed access = some w)
include h

/-- The addressed set turns to the other half, and stays as it was there. -/
theorem victim_next_val : ((t.next x access).victim x).val =
    if w.val < 2 then 2 + (t.lruTree1 x 1).toNat else (t.lruTree1 x 0).toNat := by
  rw [victim_val]
  simp only [next, if_true, h, decide_eq_true_eq]
  have hw := w.isLt
  split
  · rw [if_neg (show ¬ w.val / 2 = (1 : Fin 2).val by show ¬ w.val / 2 = 1; omega)]
  · rw [if_neg (show ¬ w.val / 2 = (0 : Fin 2).val by show ¬ w.val / 2 = 0; omega)]

/-- **The way just accessed is not replaced next.** -/
theorem victim_next_ne : (t.next x access).victim x ≠ w := by
  intro heq
  have hval := victim_next_val (t := t) (x := x) h
  rw [heq] at hval
  have h0 := (t.lruTree1 x 0).toNat_lt
  split at hval <;> omega

/-- The way to be replaced stays when it is already in the other half. -/
theorem victim_next_eq_iff :
    (t.next x access).victim x = t.victim x ↔ (t.victim x).val / 2 ≠ w.val / 2 := by
  have hval := victim_next_val (t := t) (x := x) h
  have hold := victim_val (t := t) (x := x)
  have h0 := (t.lruTree1 x 0).toNat_lt
  have h1 := (t.lruTree1 x 1).toNat_lt
  have hw := w.isLt
  rw [Fin.ext_iff]
  constructor
  · intro heq
    split at hval <;> split at hold <;> omega
  · intro hne
    split at hval <;> split at hold <;> omega

end

end R10K.Cache.LruTree
