import R10K.Lib.Circular
import R10K.Lib.Lanes

/-! Where a group of lanes is put.

A structure with slots takes the valid lanes of a group. `OwnSlots` says that each of them
finds a slot that is free, and no two the same one; a ring that puts the group in order at
its tail gives such slots as long as the places from the tail on are free. -/
namespace R10K.Lanes
open Circular

/-- Every valid lane has a free slot of its own. -/
structure OwnSlots {Slot : Type} (lane : Fin 4 → Bool) (slot : Fin 4 → Slot) (used : Slot → Bool) :
    Prop where
  free : ∀ l, lane l = true → used (slot l) = false
  own : ∀ l m, lane l = true → lane m = true → slot l = slot m → l = m

/-- The lanes of a group put at the places from `t` on. -/
theorem OwnSlots.ring {w t : Nat} {v : Fin 4 → Bool} {slot : Fin 4 → BitVec w} {used : BitVec w → Bool}
    (hslot : ∀ j l, (group v)[j]? = some l → slot l = (Ptr.ofCount w (t + j)).idx)
    (hfit : (group v).length ≤ 2 ^ w)
    (hfree : ∀ j, j < (group v).length → used (Ptr.ofCount w (t + j)).idx = false) :
    OwnSlots v slot used where
  free := by
    intro l hl
    obtain ⟨j, hj⟩ := List.getElem?_of_mem (mem_group.2 hl)
    rw [hslot j l hj]
    exact hfree j (List.getElem?_eq_some_iff.1 hj).1
  own := by
    intro l m hl hm he
    obtain ⟨j, hj⟩ := List.getElem?_of_mem (mem_group.2 hl)
    obtain ⟨k, hk⟩ := List.getElem?_of_mem (mem_group.2 hm)
    have hjlt := (List.getElem?_eq_some_iff.1 hj).1
    have hklt := (List.getElem?_eq_some_iff.1 hk).1
    rw [hslot j l hj, hslot k m hk] at he
    have hjk : t + j = t + k := Ptr.idx_inj_window (b := t) (by omega) (by omega) he
    obtain rfl : j = k := by omega
    rw [hj] at hk
    cases hk
    rfl

/-- The slots of consecutive places of a ring are different. -/
theorem ring_nodup {w b : Nat} {slots : List (BitVec w)} (hfit : slots.length ≤ 2 ^ w)
    (hslot : ∀ k t, slots[k]? = some t → t = (Ptr.ofCount w (b + k)).idx) : slots.Nodup := by
  rw [List.nodup_iff_injective_get]
  intro j k hjk
  have hj := hslot j _ (List.getElem?_eq_getElem j.isLt)
  have hk := hslot k _ (List.getElem?_eq_getElem k.isLt)
  have hlt := j.isLt
  have hlt' := k.isLt
  have := Ptr.idx_inj_window (b := b) (by omega) (by omega) (hj.symm.trans (hjk.trans hk))
  exact Fin.ext (by omega)

end R10K.Lanes
