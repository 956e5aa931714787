import R10K.Lib.Circular
import R10K.Lib.Select
import R10K.Stq.Model

/-! The store a load takes its word from.

The search runs over the matches twice: over all slots, then over those not past the
slot of the youngest older store, and keeps the last match. -/
namespace R10K.Stq
open Circular Select

/-- The search is the last match of the double vector. -/
theorem fwdSearch_eq (i : Inputs) (s : State) :
    fwdSearch i s = (((List.range 32).reverse.find? (matchDouble i s)).map
      fun k => (BitVec.ofNat 4 k, true)).getD (0, false) := by
  rw [fwdSearch, foldl_last (matchDouble i s) (fun k => (BitVec.ofNat 4 k, true))]

/-- What is found matches. -/
theorem fwdSearch_match {i : Inputs} {s : State} (h : (fwdSearch i s).2 = true) :
    fwdMatch i s (fwdSearch i s).1 = true := by
  rw [fwdSearch_eq] at h ⊢
  cases hf : (List.range 32).reverse.find? (matchDouble i s) with
  | none =>
    rw [hf] at h
    cases h
  | some k =>
    have hk : matchDouble i s k = true := List.find?_some hf
    exact (Bool.and_eq_true_iff.1 hk).1

/-- Nothing is found only when nothing matches. -/
theorem fwdSearch_none {i : Inputs} {s : State} (h : (fwdSearch i s).2 = false) (k : StqTag) :
    fwdMatch i s k = false := by
  rw [fwdSearch_eq] at h
  cases hf : (List.range 32).reverse.find? (matchDouble i s) with
  | some n =>
    rw [hf] at h
    cases h
  | none =>
    have hk := List.find?_eq_none.1 hf k.toNat (by
      rw [List.mem_reverse, List.mem_range]
      omega)
    have hlow : k.toNat < 16 := k.isLt
    rw [matchDouble, BitVec.ofNat_toNat, BitVec.setWidth_eq, decide_eq_true hlow, Bool.true_or,
      Bool.and_true] at hk
    exact Bool.eq_false_iff.2 hk

/-- **The youngest match is found**: no store between it and the load matches. -/
theorem fwdSearch_youngest {i : Inputs} {s : State} {c d t : Nat}
    (hy : i.fireLdStYoungest = (Ptr.ofCount 4 (t - 1)).idx) (hfound : (fwdSearch i s).2 = true)
    (hc : (fwdSearch i s).1 = (Ptr.ofCount 4 c).idx) (hcd : c < d) (hd : d < t) (ht : t ≤ c + 16) :
    fwdMatch i s (Ptr.ofCount 4 d).idx = false := by
  rw [fwdSearch_eq] at hfound hc
  cases hf : (List.range 32).reverse.find? (matchDouble i s) with
  | none =>
    rw [hf] at hfound
    cases hfound
  | some k =>
    rw [hf] at hc
    have hk : BitVec.ofNat 4 k = (Ptr.ofCount 4 c).idx := hc
    obtain ⟨hmatch, hlast⟩ := find_last hf
    have hklt : k < 32 := List.mem_range.1 (List.mem_reverse.1 (List.mem_of_find?_eq_some hf))
    have hkmod : k % 16 = c % 16 := by
      have := congrArg BitVec.toNat hk
      rwa [BitVec.toNat_ofNat, Ptr.idx_toNat] at this
    have hplace := Ptr.doubled_idx (w := 4) (c := c) (t := t) (by omega) ht
    have hplace' := Ptr.doubled_idx (w := 4) (c := d) (t := t) hd (by omega)
    -- the hit is at the place of its slot or in the first half
    have hkle : k ≤ Ptr.doubled (Ptr.ofCount 4 (t - 1)).idx (Ptr.ofCount 4 c).idx := by
      rw [matchDouble, hk, hy, Bool.and_eq_true, Bool.or_eq_true, decide_eq_true_eq, decide_eq_true_eq]
        at hmatch
      rw [Ptr.doubled, Ptr.idx_toNat]
      split
      · omega
      · rename_i hno
        have := hmatch.2.resolve_right hno
        omega
    have hyt := (Ptr.ofCount 4 (t - 1)).idx.isLt
    have hno := hlast (Ptr.doubled (Ptr.ofCount 4 (t - 1)).idx (Ptr.ofCount 4 d).idx) (by omega) (by omega)
    rw [matchDouble, hy, Bool.and_eq_false_iff, Bool.or_eq_false_iff] at hno
    have hslot : BitVec.ofNat 4 (Ptr.doubled (Ptr.ofCount 4 (t - 1)).idx (Ptr.ofCount 4 d).idx) =
        (Ptr.ofCount 4 d).idx := by
      apply BitVec.eq_of_toNat_eq
      rw [Ptr.doubled, BitVec.toNat_ofNat]
      split <;> rw [Ptr.idx_toNat] <;> omega
    rw [hslot] at hno
    rcases hno with hno | ⟨hhigh, hafter⟩
    · exact hno
    · rw [decide_eq_false_iff_not] at hhigh hafter
      rw [Ptr.doubled, if_neg hafter] at hhigh
      exact absurd (Ptr.ofCount 4 d).idx.isLt hhigh

/-- Only the load in the fire stage is served or put to sleep. -/
theorem next_fwd {i : Inputs} {s : State} (h : ((next i s).fwdValid || (next i s).fwdSleep) = true) :
    i.pipeFlush = false ∧ i.fireLdValid = true := by
  have hfound : i.pipeFlush = false ∧ (fwdSearch i s).2 = true := by
    simp only [next, addrConflict, Bool.or_eq_true, Bool.and_eq_true, Bool.not_eq_true'] at h
    rcases h with h | h
    · exact ⟨h.1, h.2.1.2⟩
    · exact ⟨h.1, h.2.1.1⟩
  have hmatch := fwdSearch_match hfound.2
  simp only [fwdMatch, Bool.and_eq_true] at hmatch
  exact ⟨hfound.1, hmatch.1.1.2⟩

/-- A load is served when its youngest match covers it and has its datum. -/
theorem fwdValid_iff {i : Inputs} {s : State} : (next i s).fwdValid = true ↔
    i.pipeFlush = false ∧ (s.stqEntry (fwdSearch i s).1).dataValid = true ∧ (fwdSearch i s).2 = true ∧
      addrConflict i s = false := by
  simp only [next, Bool.and_eq_true, Bool.not_eq_true', and_assoc]

theorem next_fwdLdqTag {i : Inputs} (s : State) (hf : i.pipeFlush = false) :
    (next i s).fwdLdqTag = i.fireLdLdqTag := by
  simp only [next, hf, Bool.false_eq_true, if_false]

/-- A store with its address keeps its slot until it goes to the data cache. -/
theorem nextEntry_addr {i : Inputs} {s : State} {t : StqTag} (hf : i.pipeFlush = false)
    (ha : (s.stqEntry t).addrValid = true) (hv : (s.stqEntry t).entryValid = true)
    (hno : (t == s.headPtr && fireStAccept i s) = false) :
    (nextEntry i s t).addrValid = true ∧ (nextEntry i s t).entryValid = true := by
  have h1 : ∀ e : StqEntry, e.addrValid = true ∧ e.entryValid = true →
      (allocate i s t e).addrValid = true ∧ (allocate i s t e).entryValid = true := by
    intro e he
    unfold allocate
    split
    · exact ⟨he.1, rfl⟩
    · exact he
  have h2 : ∀ e : StqEntry, e.addrValid = true ∧ e.entryValid = true →
      (writeAddr i t e).addrValid = true ∧ (writeAddr i t e).entryValid = true := by
    intro e he
    unfold writeAddr
    split
    · exact ⟨rfl, he.2⟩
    · exact he
  have h3 : ∀ e : StqEntry, e.addrValid = true ∧ e.entryValid = true →
      (writeData i t e).addrValid = true ∧ (writeData i t e).entryValid = true := by
    intro e he
    unfold writeData
    split <;> exact he
  have h4 : ∀ e : StqEntry, e.addrValid = true ∧ e.entryValid = true →
      (retire i t e).addrValid = true ∧ (retire i t e).entryValid = true := by
    intro e he
    unfold retire
    split <;> exact he
  rw [nextEntry, hf, Bool.false_and, Bool.false_and, Bool.false_and, if_neg Bool.false_ne_true, fireMem, hno,
    if_neg Bool.false_ne_true]
  exact h4 _ (h3 _ (h2 _ (h1 _ ⟨ha, hv⟩)))

end R10K.Stq
