import Mathlib.Data.BitVec
import Mathlib.Tactic.Ring

/-! Pointers into a ring of `2 ^ w` slots.

A circular queue names a slot by an index of `w` bits and keeps one more bit that
flips each time the index wraps: the *position* bit, which tells a full ring from
an empty one. Such a pointer is a count modulo `2 ^ (w + 1)`. Everything here is
said about the count, a plain number that only grows: the pointer of a count is
`Ptr.ofCount`, and what hardware does with two pointers (advance one, tell which
is older, count the free slots) is read back on the counts they stand for, as long
as these lie in one window. -/
namespace R10K.Circular

/-- A ring pointer: the slot and the position bit. -/
@[ext] structure Ptr (w : Nat) where
  pos : Bool
  idx : BitVec w
deriving DecidableEq, Repr

namespace Ptr
variable {w : Nat}

/-- The pointer a count stands at. -/
def ofCount (w c : Nat) : Ptr w := ⟨decide (c / 2 ^ w % 2 = 1), BitVec.ofNat w c⟩

@[simp] theorem idx_toNat (c : Nat) : (ofCount w c).idx.toNat = c % 2 ^ w := by
  simp [ofCount]

theorem idx_add (c n : Nat) :
    (ofCount w (c + n)).idx = (ofCount w c).idx + BitVec.ofNat w n := by
  simp [ofCount, BitVec.ofNat_add]

/-- Inside one window of `2 ^ w` counts, a slot is used once. -/
theorem idx_inj {c d : Nat} (h : c ≤ d) (hd : d < c + 2 ^ w)
    (e : (ofCount w c).idx = (ofCount w d).idx) : c = d := by
  have hm : c % 2 ^ w = d % 2 ^ w := by
    rw [← idx_toNat c, ← idx_toNat d, e]
  have hz : (d - c) % 2 ^ w = 0 := by
    rw [← Nat.sub_mod_eq_zero_of_mod_eq hm.symm]
  rw [Nat.mod_eq_of_lt (by omega)] at hz
  omega

/-- The same, whichever count is the larger. -/
theorem idx_inj_window {b c d : Nat} (hc : b ≤ c ∧ c < b + 2 ^ w) (hd : b ≤ d ∧ d < b + 2 ^ w)
    (e : (ofCount w c).idx = (ofCount w d).idx) : c = d := by
  rcases Nat.le_total c d with h | h
  · exact idx_inj h (by omega) e
  · exact (idx_inj h (by omega) e.symm).symm

/-- Every slot is the slot of some count of any window of `2 ^ w`. -/
theorem idx_surj (b : Nat) (k : BitVec w) :
    ∃ c, b ≤ c ∧ c < b + 2 ^ w ∧ (ofCount w c).idx = k := by
  refine ⟨b + (k - (ofCount w b).idx).toNat, Nat.le_add_right _ _, ?_, ?_⟩
  · exact Nat.add_lt_add_left (BitVec.isLt _) b
  · rw [idx_add, BitVec.ofNat_toNat, BitVec.setWidth_eq, BitVec.add_comm, BitVec.sub_add_cancel]

/-- Counts a whole ring apart stand at the same slot. -/
theorem idx_add_ring (c : Nat) : (ofCount w (c + 2 ^ w)).idx = (ofCount w c).idx := by
  apply BitVec.eq_of_toNat_eq
  simp

private theorem div_add (c n : Nat) (hn : n ≤ 2 ^ w) :
    (c + n) / 2 ^ w = c / 2 ^ w + if 2 ^ w ≤ c % 2 ^ w + n then 1 else 0 := by
  have hpos : 0 < 2 ^ w := Nat.two_pow_pos w
  have hc := Nat.div_add_mod c (2 ^ w)
  have hlt := Nat.mod_lt c hpos
  split
  · rename_i h
    rw [Nat.div_eq_iff hpos]
    constructor
    · have : (c / 2 ^ w + 1) * 2 ^ w = 2 ^ w * (c / 2 ^ w) + 2 ^ w := by ring
      omega
    · have : (c / 2 ^ w + 1) * 2 ^ w = 2 ^ w * (c / 2 ^ w) + 2 ^ w := by ring
      omega
  · rename_i h
    rw [Nat.div_eq_iff hpos]
    have : (c / 2 ^ w + 0) * 2 ^ w = 2 ^ w * (c / 2 ^ w) := by ring
    omega

/-- The position bit flips exactly when the index wraps. -/
theorem pos_add (c n : Nat) (hn : n ≤ 2 ^ w) :
    (ofCount w (c + n)).pos = ((ofCount w c).pos ^^ decide (2 ^ w ≤ c % 2 ^ w + n)) := by
  simp only [ofCount, div_add c n hn]
  by_cases h : 2 ^ w ≤ c % 2 ^ w + n
  · rcases Nat.mod_two_eq_zero_or_one (c / 2 ^ w) with h2 | h2 <;>
      simp [h, h2, Nat.add_mod]
  · simp [h]

/-- A pointer determines its count inside a window of two rings. -/
theorem ofCount_inj {c d : Nat} (h : c ≤ d) (hd : d < c + 2 * 2 ^ w)
    (e : ofCount w c = ofCount w d) : c = d := by
  have hidx : (ofCount w c).idx = (ofCount w d).idx := by rw [e]
  have hpos : (ofCount w c).pos = (ofCount w d).pos := by rw [e]
  by_cases hlt : d < c + 2 ^ w
  · exact idx_inj h hlt hidx
  · exfalso
    obtain ⟨n, rfl⟩ : ∃ n, d = c + 2 ^ w + n := ⟨d - (c + 2 ^ w), by omega⟩
    have hn : c = c + n := by
      apply idx_inj (w := w) (Nat.le_add_right c n) (by omega)
      rw [hidx, Nat.add_right_comm, idx_add_ring]
    have hn0 : n = 0 := by omega
    subst hn0
    rw [Nat.add_zero, pos_add c _ (Nat.le_refl _)] at hpos
    simp at hpos

theorem ofCount_inj_window {b c d : Nat} (hc : b ≤ c ∧ c < b + 2 * 2 ^ w)
    (hd : b ≤ d ∧ d < b + 2 * 2 ^ w) (e : ofCount w c = ofCount w d) : c = d := by
  rcases Nat.le_total c d with h | h
  · exact ofCount_inj h (by omega) e
  · exact (ofCount_inj h (by omega) e.symm).symm

/-- The age comparison of two pointers of one window: with equal position bits the
smaller index is the older, with different ones the larger. -/
def older (a b : Ptr w) : Bool :=
  (a.pos == b.pos && decide (a.idx < b.idx)) || (a.pos != b.pos && decide (b.idx < a.idx))

private theorem mod_add_lt (c n : Nat) (hn : n < 2 ^ w) :
    (c + n) % 2 ^ w = if 2 ^ w ≤ c % 2 ^ w + n then c % 2 ^ w + n - 2 ^ w else c % 2 ^ w + n := by
  have hlt := Nat.mod_lt c (Nat.two_pow_pos w)
  rw [Nat.add_mod, Nat.mod_eq_of_lt hn]
  split
  · rename_i h
    rw [Nat.mod_eq_sub_mod h, Nat.mod_eq_of_lt (by omega)]
  · exact Nat.mod_eq_of_lt (by omega)

private theorem older_add (c n : Nat) (hn : 0 < n) (hlt : n < 2 ^ w) :
    older (ofCount w c) (ofCount w (c + n)) = true ∧
      older (ofCount w (c + n)) (ofCount w c) = false := by
  have hm := Nat.mod_lt c (Nat.two_pow_pos w)
  have hidx := mod_add_lt (w := w) c n hlt
  have hpos := pos_add (w := w) c n (by omega)
  simp only [older, BitVec.lt_def, idx_toNat, hidx]
  by_cases h : 2 ^ w ≤ c % 2 ^ w + n
  · simp only [h, decide_true, Bool.xor_true] at hpos
    simp only [hpos, h, if_true]
    cases (ofCount w c).pos <;> simp <;> omega
  · simp only [h, decide_false, Bool.xor_false] at hpos
    simp only [hpos, h, if_false]
    cases (ofCount w c).pos <;> simp <;> omega

/-- The comparison orders a window as the counts do. -/
theorem older_iff {b c d : Nat} (hc : b ≤ c ∧ c < b + 2 ^ w) (hd : b ≤ d ∧ d < b + 2 ^ w) :
    older (ofCount w c) (ofCount w d) = true ↔ c < d := by
  rcases Nat.lt_trichotomy c d with h | h | h
  · obtain ⟨n, rfl⟩ : ∃ n, d = c + n := ⟨d - c, by omega⟩
    simp [(older_add (w := w) c n (by omega) (by omega)).1, h]
  · subst h
    simp [older]
  · obtain ⟨n, rfl⟩ : ∃ n, c = d + n := ⟨c - d, by omega⟩
    simp [(older_add (w := w) d n (by omega) (by omega)).2]

/-- Head and tail of a window read as a test on slots: with equal position bits the
window runs from head to tail, with different ones it wraps. -/
def inWindow (h t : Ptr w) (k : BitVec w) : Bool :=
  if h.pos == t.pos then decide (h.idx ≤ k) && decide (k < t.idx)
  else decide (h.idx ≤ k) || decide (k < t.idx)

/-- A slot passes the test exactly when it is the slot of a count of the window. -/
theorem inWindow_iff {h t : Nat} (hle : h ≤ t) (hlt : t ≤ h + 2 ^ w) (c : Nat)
    (hc : h ≤ c ∧ c < h + 2 ^ w) :
    inWindow (ofCount w h) (ofCount w t) (ofCount w c).idx = true ↔ c < t := by
  have hm := Nat.mod_lt h (Nat.two_pow_pos w)
  obtain ⟨n, rfl⟩ : ∃ n, t = h + n := ⟨t - h, by omega⟩
  obtain ⟨j, rfl⟩ : ∃ j, c = h + j := ⟨c - h, by omega⟩
  have hj := mod_add_lt (w := w) h j (by omega)
  have hpos := pos_add (w := w) h n (by omega)
  have hn : (h + n) % 2 ^ w =
      if 2 ^ w ≤ h % 2 ^ w + n then h % 2 ^ w + n - 2 ^ w else h % 2 ^ w + n := by
    by_cases hfull : n = 2 ^ w
    · subst hfull
      simp
    · exact mod_add_lt h n (by omega)
  simp only [inWindow, BitVec.le_def, BitVec.lt_def, idx_toNat, hj, hn]
  by_cases hw : 2 ^ w ≤ h % 2 ^ w + n
  · simp only [hw, decide_true, Bool.xor_true] at hpos
    simp only [hpos, hw, if_true]
    split
    · simp_all
    · simp only [Bool.or_eq_true, decide_eq_true_eq]
      split <;> omega
  · simp only [hw, decide_false, Bool.xor_false] at hpos
    simp only [hpos, hw, if_false, beq_self_eq_true, if_true, Bool.and_eq_true, decide_eq_true_eq]
    split <;> omega

/-- The free slots a pair of pointers leaves, as the difference of indices hardware
takes: a whole ring is added when the position bits agree. -/
theorem room {h t : Nat} (hle : h ≤ t) (hlt : t ≤ h + 2 ^ w) :
    h + 2 ^ w - t =
      if (ofCount w h).pos = (ofCount w t).pos then
        (ofCount w h).idx.toNat + 2 ^ w - (ofCount w t).idx.toNat
      else (ofCount w h).idx.toNat - (ofCount w t).idx.toNat := by
  have hm := Nat.mod_lt h (Nat.two_pow_pos w)
  obtain ⟨n, rfl⟩ : ∃ n, t = h + n := ⟨t - h, by omega⟩
  have hpos := pos_add (w := w) h n (by omega)
  have hn : (h + n) % 2 ^ w =
      if 2 ^ w ≤ h % 2 ^ w + n then h % 2 ^ w + n - 2 ^ w else h % 2 ^ w + n := by
    by_cases hfull : n = 2 ^ w
    · subst hfull
      simp
    · exact mod_add_lt h n (by omega)
  simp only [idx_toNat, hn]
  by_cases hw : 2 ^ w ≤ h % 2 ^ w + n
  · simp only [hw, decide_true, Bool.xor_true] at hpos
    rw [hpos]
    simp only [hw, if_true]
    cases (ofCount w h).pos <;> simp <;> omega
  · simp only [hw, decide_false, Bool.xor_false] at hpos
    rw [hpos]
    simp only [hw, if_true, if_false]
    omega

/-- With different position bits the head index is not below the tail index. -/
theorem tail_le_head {h t : Nat} (hle : h ≤ t) (hlt : t ≤ h + 2 ^ w)
    (hp : (ofCount w h).pos ≠ (ofCount w t).pos) :
    (ofCount w t).idx.toNat ≤ (ofCount w h).idx.toNat := by
  have hm := Nat.mod_lt h (Nat.two_pow_pos w)
  obtain ⟨n, rfl⟩ : ∃ n, t = h + n := ⟨t - h, by omega⟩
  have hpos := pos_add (w := w) h n (by omega)
  have hw : 2 ^ w ≤ h % 2 ^ w + n := by
    by_contra hw
    simp only [hw, decide_false, Bool.xor_false] at hpos
    exact hp hpos.symm
  simp only [idx_toNat]
  by_cases hfull : n = 2 ^ w
  · subst hfull
    simp
  · rw [mod_add_lt h n (by omega), if_pos hw]
    omega

/-- The place of a slot in a bit vector doubled past the slot `y`: the slots up to `y`
are looked at again after all others. -/
def doubled (y k : BitVec w) : Nat := if k ≤ y then 2 ^ w + k.toNat else k.toNat

/-- In a window that ends at `y`, later counts have later places. -/
theorem doubled_idx {c t : Nat} (hc : c < t) (ht : t ≤ c + 2 ^ w) :
    doubled (ofCount w (t - 1)).idx (ofCount w c).idx + (t - 1 - c) =
      2 ^ w + (ofCount w (t - 1)).idx.toNat := by
  obtain ⟨n, rfl⟩ : ∃ n, t = c + n + 1 := ⟨t - 1 - c, by omega⟩
  have hidx := mod_add_lt (w := w) c n (by omega)
  have hm := Nat.mod_lt c (Nat.two_pow_pos w)
  rw [Nat.add_sub_cancel, Nat.add_sub_cancel_left, doubled]
  simp only [BitVec.le_def, idx_toNat, hidx]
  by_cases h : 2 ^ w ≤ c % 2 ^ w + n
  · rw [if_pos h, if_neg (by omega)]
    omega
  · rw [if_neg h, if_pos (by omega)]
    omega

end Ptr

end R10K.Circular
