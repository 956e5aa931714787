import R10K.Lib.Circular

/-! The pointers of the store and the load queue.

Both queues have sixteen slots and the same pointer logic: a position bit that flips
when the top bit of the pointer falls, and a credit of one whole group. -/
namespace R10K.Lsq
open Circular

/-- The wrap of a pointer: its top bit set before, clear after. -/
def overflow (ptr nextPtr : BitVec 4) : Bool := ptr.msb && !nextPtr.msb

/-- The wrap test on the top bit, for an advance of at most four. -/
theorem overflow_eq (c n : Nat) (hn : n ≤ 4) :
    overflow (Ptr.ofCount 4 c).idx ((Ptr.ofCount 4 c).idx + BitVec.ofNat 4 n) =
      decide (2 ^ 4 ≤ c % 2 ^ 4 + n) := by
  rw [← Ptr.idx_add, overflow, Bool.eq_iff_iff]
  simp only [BitVec.msb_eq_decide, Ptr.idx_toNat, Bool.and_eq_true, Bool.not_eq_true',
    decide_eq_true_eq, decide_eq_false_iff_not]
  omega

/-- A pointer advanced by at most four, with its wrap test. -/
theorem advance (p : Ptr 4) (c n : Nat) (hn : n ≤ 4) (hp : p = Ptr.ofCount 4 c) :
    (⟨if overflow p.idx (p.idx + BitVec.ofNat 4 n) then !p.pos else p.pos,
      p.idx + BitVec.ofNat 4 n⟩ : Ptr 4) = Ptr.ofCount 4 (c + n) := by
  subst hp
  rw [overflow_eq c n hn]
  ext
  · rw [Ptr.pos_add _ _ (by omega)]
    cases (Ptr.ofCount 4 c).pos <;> cases decide (2 ^ 4 ≤ c % 2 ^ 4 + n) <;> rfl
  · rw [Ptr.idx_add]

/-- The credit comparison: at least four slots free between the two pointers. -/
theorem ready_iff {h t : Nat} (hle : h ≤ t) (hlt : t ≤ h + 16) :
    ((if (Ptr.ofCount 4 h).pos == (Ptr.ofCount 4 t).pos then
        decide (4 ≤ (Ptr.ofCount 4 h).idx.setWidth 32 + 16 - (Ptr.ofCount 4 t).idx.setWidth 32)
      else decide (4 ≤ (Ptr.ofCount 4 h).idx.setWidth 32 - (Ptr.ofCount 4 t).idx.setWidth 32)) = true) ↔
      t + 4 ≤ h + 16 := by
  have hroom := Ptr.room (w := 4) hle (by omega)
  have hge := Ptr.tail_le_head (w := 4) hle (by omega)
  have h1 := (Ptr.ofCount 4 h).idx.isLt
  have h2 := (Ptr.ofCount 4 t).idx.isLt
  split
  · rename_i hp
    rw [if_pos (by simpa using hp)] at hroom
    simp only [decide_eq_true_eq, BitVec.le_def, BitVec.toNat_sub, BitVec.toNat_add,
      BitVec.toNat_setWidth, BitVec.reduceToNat]
    omega
  · rename_i hp
    rw [if_neg (by simpa using hp)] at hroom
    have hge := hge (by simpa using hp)
    simp only [decide_eq_true_eq, BitVec.le_def, BitVec.toNat_sub, BitVec.toNat_setWidth,
      BitVec.reduceToNat]
    omega

end R10K.Lsq
