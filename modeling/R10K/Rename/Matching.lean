import R10K.Ptab.Table
import R10K.Rename.Allocate
import R10K.Rs.Bank

/-! What the four lanes of the selector are given.

The free list, the reservation stations and the branch table choose for four lanes at a
time with `psel_gen`. Each offers a `Matching` of what is free: the free list counts the
registers returned in the cycle among the free ones, and never offers p0. -/
namespace R10K.Rename
open Select

/-- A register other than p0 that is free, or returned by a retiring lane. -/
def Offered (i : Inputs) (s : State) (p : Prn) : Prop :=
  p ≠ 0 ∧ (s.freeList p = true ∨ ∃ l, i.retirePrnPrevValid l = true ∧ i.retirePrnPrev l = p)

instance (i : Inputs) (s : State) (p : Prn) : Decidable (Offered i s p) :=
  inferInstanceAs (Decidable (_ ∧ _))

theorem recycled_iff {i : Inputs} {p : Prn} : recycled i p = true ↔
    p ≠ 0 ∧ ∃ l, i.retirePrnPrevValid l = true ∧ i.retirePrnPrev l = p := by
  rw [recycled, List.any_eq_true]
  constructor
  · rintro ⟨l, _, hl⟩
    simp only [Bool.and_eq_true, beq_iff_eq, bne_iff_ne] at hl
    exact ⟨hl.2, l, hl.1.1, hl.1.2.symm⟩
  · rintro ⟨hp, l, hv, he⟩
    refine ⟨l, List.mem_finRange l, ?_⟩
    simp only [Bool.and_eq_true, beq_iff_eq, bne_iff_ne]
    exact ⟨⟨hv, he.symm⟩, hp⟩

/-- With p0 never free, the selector sees the registers offered. -/
theorem freeListRetireFwd_offered {i : Inputs} {s : State} (hz : s.freeList 0 = false) :
    freeListRetireFwd i s = fun p => decide (Offered i s p) := by
  funext p
  rw [freeListRetireFwd, Bool.eq_iff_iff, Bool.or_eq_true, recycled_iff, decide_eq_true_eq, Offered]
  constructor
  · rintro (hp | ⟨hp, hret⟩)
    · refine ⟨?_, .inl hp⟩
      rintro rfl
      rw [hz] at hp
      cases hp
    · exact ⟨hp, .inr hret⟩
  · rintro ⟨hp, hfree | hret⟩
    · exact .inl hfree
    · exact .inr ⟨hp, hret⟩

/-- **The four-way selection is a matching.** The free list's valid lanes are the first
ones, as many as there are registers free or returned, up to four, each with such a register
of its own other than p0, and `free_prn` is the bit granted. The reservation stations and
the branch table match their lanes with their free entries the same way. -/
theorem selection_matches (i : Inputs) (s : State) (hz : s.freeList 0 = false) :
    Matching (fun p => decide (Offered i s p)) (freePrnValid i s) (freePrn i s) ∧
    (∀ l p, freePrnOh i s l p = true ↔ freePrnValid i s l = true ∧ freePrn i s l = p) ∧
    (∀ (m : Nat) (rs : Rs.State m),
      Matching (Rs.rsAvail rs) (Rs.allocIndexValid rs) (Rs.allocIndex rs) ∧
      ∀ k l, Rs.allocSel rs k l = true ↔ Rs.allocIndexValid rs l = true ∧ Rs.allocIndex rs l = k) ∧
    ∀ t : Ptab.State,
      Matching (Ptab.ptabAvail t) (fun l => granted (gntBus (Ptab.ptabAvail t) l)) (Ptab.ptabTag t) ∧
      (Ptab.fetchPktReady t = true → ∀ l, gntBus (Ptab.ptabAvail t) l (Ptab.ptabTag t l) = true) := by
  refine ⟨?_, fun l p => gntBus_iff l p, fun m rs => ⟨matching_gntBus _, fun k l => ⟨?_, ?_⟩⟩,
    fun t => ⟨matching_gntBus _, Ptab.ptabTag_granted⟩⟩
  · rw [← freeListRetireFwd_offered hz]
    exact matching_gntBus _
  · intro h
    obtain ⟨hk, hv⟩ := Rs.allocSel_index h
    exact ⟨hv, hk.symm⟩
  · rintro ⟨hv, rfl⟩
    exact Rs.allocSel_self hv

/-- One register is free, p7 and p0 are returned: the first two lanes are valid. -/
def few : Inputs × State :=
  ({ fetchPkt := fun _ => {}
     renamePktReady := fun _ => true
     retirePrnPrev := fun l => if l = 1 then 7 else 0
     retirePrnPrevValid := fun l => l = 1 ∨ l = 2
     executePrn := fun _ => 0
     executeValid := fun _ => false
     archRat := fun _ => 0
     recovArchSt := false },
   { reset with freeList := fun p => p == 5 })

theorem selection_matches_few : freePrnValid few.1 few.2 1 = true ∧ freePrnValid few.1 few.2 2 = false := by
  have hcard : (Finset.univ.filter fun p => decide (Offered few.1 few.2 p) = true).card = 2 := by
    decide +kernel
  have hfirst := hcard ▸ (selection_matches few.1 few.2 rfl).1.first
  exact ⟨(hfirst 1).2 (by decide), Bool.eq_false_iff.2 fun h => absurd ((hfirst 2).1 h) (by decide)⟩

end R10K.Rename
