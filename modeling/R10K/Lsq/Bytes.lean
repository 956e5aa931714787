import R10K.Lib.Memory
import R10K.Stq.Model

/-! The bytes of loads and stores.

What the size codes of the instruction set mean on a memory of bytes, and that the queues'
shifts and slices of a word agree with it for aligned accesses. -/
namespace R10K.Lsq
open Stq

abbrev Mem := BitVec 32 → BitVec 8

/-- The bytes an access touches from its address on. -/
def width (size : BitVec 3) : Nat :=
  match memSize size with
  | .byte => 1
  | .half => 2
  | .word | .double => 4

/-- A byte, half or word at a multiple of its size. -/
structure Access (addr : BitVec 32) (size : BitVec 3) : Prop where
  sized : memSize size ≠ .double
  aligned : addr.toNat % width size = 0

instance (addr : BitVec 32) (size : BitVec 3) : Decidable (Access addr size) :=
  decidable_of_iff (memSize size ≠ .double ∧ addr.toNat % width size = 0)
    ⟨fun h => ⟨h.1, h.2⟩, fun h => ⟨h.sized, h.aligned⟩⟩

/-- A store's write: its bytes, the low one first. -/
def writeBytes (addr data : BitVec 32) (size : BitVec 3) (b : BitVec 32) : Option (BitVec 8) :=
  if (b - addr).toNat < width size then some (data.extractLsb' ((b - addr).toNat * 8) 8) else none

/-- A load's bytes, extended as its size code says. -/
def readBytes (m : Mem) (addr : BitVec 32) (size : BitVec 3) : BitVec 32 :=
  match memSize size with
  | .byte => if size.msb then (m addr).setWidth 32 else (m addr).signExtend 32
  | .half =>
    if size.msb then (m (addr + 1) ++ m addr).setWidth 32 else (m (addr + 1) ++ m addr).signExtend 32
  | .word | .double => m (addr + 3) ++ m (addr + 2) ++ m (addr + 1) ++ m addr

def offset (addr : BitVec 32) : BitVec 2 := addr.extractLsb' 0 2

def wordAddr (addr : BitVec 32) : BitVec 30 := addr.extractLsb' 2 30

theorem readBytes_congr {m m' : Mem} {a : BitVec 32} {z : BitVec 3}
    (h : ∀ b < width z, m (a + BitVec.ofNat 32 b) = m' (a + BitVec.ofNat 32 b)) :
    readBytes m a z = readBytes m' a z := by
  have h0 : 0 < width z → m a = m' a := fun hlt => by simpa using h 0 hlt
  have h1 : 1 < width z → m (a + 1) = m' (a + 1) := h 1
  have h2 : 2 < width z → m (a + 2) = m' (a + 2) := h 2
  have h3 : 3 < width z → m (a + 3) = m' (a + 3) := h 3
  unfold width at h0 h1 h2 h3
  unfold readBytes
  cases hz : memSize z <;> simp only [hz] at h0 h1 h2 h3 ⊢
  · rw [h0 (by decide)]
  · rw [h0 (by decide), h1 (by decide)]
  · rw [h0 (by decide), h1 (by decide), h2 (by decide), h3 (by decide)]
  · rw [h0 (by decide), h1 (by decide), h2 (by decide), h3 (by decide)]

/-! ### Addresses -/

theorem offset_toNat (a : BitVec 32) : (offset a).toNat = a.toNat % 4 := by
  simp [offset, BitVec.extractLsb'_toNat]

theorem wordAddr_eq {a a' : BitVec 32} : wordAddr a = wordAddr a' ↔ a.toNat / 4 = a'.toNat / 4 := by
  have h1 := a.isLt
  have h2 := a'.isLt
  rw [← BitVec.toNat_inj, wordAddr, wordAddr, BitVec.extractLsb'_toNat, BitVec.extractLsb'_toNat,
    Nat.shiftRight_eq_div_pow, Nat.shiftRight_eq_div_pow]
  omega

theorem width_cases (z : BitVec 3) : width z = 1 ∨ width z = 2 ∨ width z = 4 := by
  unfold width
  cases memSize z <;> simp

/-- An access stays inside its word. -/
theorem Access.fits {a : BitVec 32} {z : BitVec 3} (h : Access a z) : a.toNat % 4 + width z ≤ 4 := by
  have hal := h.aligned
  rcases width_cases z with hz | hz | hz <;> rw [hz] at hal ⊢ <;> omega

/-- The address of a byte of an access. -/
theorem Access.byte {a : BitVec 32} {z : BitVec 3} (h : Access a z) {b : Nat} (hb : b < width z) :
    (a + BitVec.ofNat 32 b).toNat = a.toNat + b := by
  have hfit := h.fits
  have hlt := a.isLt
  rw [BitVec.toNat_add, BitVec.toNat_ofNat]
  omega

/-- The last offset of an aligned access, as the queue computes it. -/
theorem Access.end_eq {a : BitVec 32} {z : BitVec 3} (h : Access a z) :
    (offsetEnd (offset a) z).toNat = a.toNat % 4 + width z - 1 := by
  have hfit := h.fits
  have hsize := h.sized
  have hoff := offset_toNat a
  unfold width at hfit ⊢
  unfold offsetEnd
  cases hz : memSize z <;> simp only [hz] at hfit ⊢
  · simpa using hoff
  · rw [BitVec.toNat_add, hoff]
    show (a.toNat % 4 + 1) % 4 = _
    omega
  · rw [BitVec.toNat_add, hoff]
    show (a.toNat % 4 + 3) % 4 = _
    omega
  · exact absurd hz hsize

/-! ### Bytes of a store -/

section Writes
variable {a a' d : BitVec 32} {z z' : BitVec 3}

/-- The byte of a store at another access's byte. -/
theorem writeBytes_at (h : Access a z) (h' : Access a' z') {b : Nat} (hb : b < width z) :
    writeBytes a' d z' (a + BitVec.ofNat 32 b) =
      if a'.toNat ≤ a.toNat + b ∧ a.toNat + b < a'.toNat + width z' then
        some (d.extractLsb' ((a.toNat + b - a'.toNat) * 8) 8)
      else none := by
  have hbyte := h.byte hb
  have hfit := h.fits
  have hfit' := h'.fits
  have h1 := a.isLt
  have h2 := a'.isLt
  have hsub : (a + BitVec.ofNat 32 b - a').toNat =
      if a'.toNat ≤ a.toNat + b then a.toNat + b - a'.toNat else 2 ^ 32 + (a.toNat + b) - a'.toNat := by
    rw [BitVec.toNat_sub, hbyte]
    split <;> omega
  unfold writeBytes
  rw [hsub]
  by_cases hle : a'.toNat ≤ a.toNat + b
  · rw [if_pos hle]
    by_cases hlt : a.toNat + b < a'.toNat + width z'
    · rw [if_pos (by omega), if_pos ⟨hle, hlt⟩]
    · rw [if_neg (by omega), if_neg (by omega)]
  · rw [if_neg hle, if_neg (by omega), if_neg (by omega)]

/-- A store to another word touches no byte of the load. -/
theorem writeBytes_word (h : Access a z) (h' : Access a' z') (hw : wordAddr a ≠ wordAddr a') {b : Nat}
    (hb : b < width z) : writeBytes a' d z' (a + BitVec.ofNat 32 b) = none := by
  rw [Ne, wordAddr_eq] at hw
  have hfit := h.fits
  have hfit' := h'.fits
  rw [writeBytes_at h h' hb, if_neg (by omega)]

/-- A store that covers the load has all its bytes, where the shifted datum has them. -/
theorem writeBytes_cover (h : Access a z) (h' : Access a' z') (hw : wordAddr a = wordAddr a')
    (hstart : offset a' ≤ offset a) (hend : offsetEnd (offset a) z ≤ offsetEnd (offset a') z') {b : Nat}
    (hb : b < width z) : writeBytes a' d z' (a + BitVec.ofNat 32 b) =
      some ((d <<< ((offset a').toNat * 8)).extractLsb' (((offset a).toNat + b) * 8) 8) := by
  rw [wordAddr_eq] at hw
  rw [BitVec.le_def, offset_toNat, offset_toNat] at hstart
  rw [BitVec.le_def, h.end_eq, h'.end_eq] at hend
  have hfit := h.fits
  have hfit' := h'.fits
  have hpos := width_cases z'
  rw [writeBytes_at h h' hb, if_pos (by omega), offset_toNat, offset_toNat]
  congr 1
  apply BitVec.eq_of_getLsbD_eq
  intro j hj
  have hle : a'.toNat % 4 * 8 ≤ (a.toNat % 4 + b) * 8 + j := by omega
  have hsame : (a.toNat + b - a'.toNat) * 8 + j = (a.toNat % 4 + b) * 8 + j - a'.toNat % 4 * 8 := by omega
  have hin : (a.toNat % 4 + b) * 8 + j < 32 := by omega
  simp only [BitVec.getLsbD_extractLsb', BitVec.getLsbD_shiftLeft, hj, hin, Nat.not_lt.2 hle, hsame,
    decide_true, decide_false, Bool.true_and, Bool.not_false]

/-- A store whose offsets are apart from the load's touches no byte of it. -/
theorem writeBytes_apart (h : Access a z) (h' : Access a' z')
    (hend : ¬ (offset a' ≤ offsetEnd (offset a) z ∧ offset a ≤ offsetEnd (offset a') z')) {b : Nat}
    (hb : b < width z) : writeBytes a' d z' (a + BitVec.ofNat 32 b) = none := by
  rw [BitVec.le_def, BitVec.le_def, h.end_eq, h'.end_eq, offset_toNat, offset_toNat] at hend
  have hfit := h.fits
  have hfit' := h'.fits
  have hpos := width_cases z'
  rw [writeBytes_at h h' hb, if_neg (by omega)]

end Writes

/-! ### Bytes of a load -/

/-- Two adjacent slices are one. -/
theorem slice_append (w : BitVec 32) (s n k : Nat) :
    w.extractLsb' (s + n) k ++ w.extractLsb' s n = w.extractLsb' s (k + n) := by
  apply BitVec.eq_of_getLsbD_eq
  intro j hj
  rw [BitVec.getLsbD_append]
  by_cases hlt : j < n
  · simp [hlt, hj]
  · have hsub : s + n + (j - n) = s + j := by omega
    simp [hlt, hj, hsub, show j - n < k by omega]

theorem slice_low (w : BitVec 32) (n : Nat) : w.extractLsb' 0 n = w.setWidth n := by
  apply BitVec.eq_of_toNat_eq
  rw [BitVec.extractLsb'_toNat, Nat.shiftRight_zero, BitVec.toNat_setWidth]

/-- A word is its four bytes. -/
theorem slice_word (w : BitVec 32) :
    w.extractLsb' 24 8 ++ w.extractLsb' 16 8 ++ w.extractLsb' 8 8 ++ w.extractLsb' 0 8 = w := by
  have h16 : w.extractLsb' 24 8 ++ w.extractLsb' 16 8 = w.extractLsb' 16 16 := slice_append w 16 8 8
  have h8 : w.extractLsb' 16 16 ++ w.extractLsb' 8 8 = w.extractLsb' 8 24 := slice_append w 8 8 16
  have h0 : w.extractLsb' 8 24 ++ w.extractLsb' 0 8 = w.extractLsb' 0 32 := slice_append w 0 8 24
  rw [h16, h8, h0, slice_low, BitVec.setWidth_eq]

/-- The slice of a word that has the load's bytes is what the load reads. -/
theorem loadBytes_eq {m : Mem} {a : BitVec 32} {z : BitVec 3} {w : BitVec 32} (h : Access a z)
    (hw : ∀ b < width z, m (a + BitVec.ofNat 32 b) = w.extractLsb' (((offset a).toNat + b) * 8) 8) :
    loadBytes (offset a) z w = readBytes m a z := by
  have h0 : 0 < width z → m a = w.extractLsb' ((offset a).toNat * 8) 8 := fun hlt => by simpa using hw 0 hlt
  have h1 : 1 < width z → m (a + 1) = w.extractLsb' (((offset a).toNat + 1) * 8) 8 := hw 1
  have h2 : 2 < width z → m (a + 2) = w.extractLsb' (((offset a).toNat + 2) * 8) 8 := hw 2
  have h3 : 3 < width z → m (a + 3) = w.extractLsb' (((offset a).toNat + 3) * 8) 8 := hw 3
  have hal := h.aligned
  have hoff := offset_toNat a
  unfold width at h0 h1 h2 h3 hal
  unfold loadBytes readBytes
  cases hz : memSize z <;> simp only [hz] at h0 h1 h2 h3 hal ⊢
  · rw [h0 (by decide)]
    cases z.msb <;> rfl
  · have hhalf : (offset a).toNat / 2 * 16 = (offset a).toNat * 8 := by omega
    have hnext : ((offset a).toNat + 1) * 8 = (offset a).toNat * 8 + 8 := by omega
    rw [h0 (by decide), h1 (by decide), hnext, slice_append, hhalf]
    cases z.msb <;> rfl
  · have hzero : (offset a).toNat = 0 := by omega
    rw [h0 (by decide), h1 (by decide), h2 (by decide), h3 (by decide), hzero]
    exact (slice_word w).symm
  · exact absurd hz h.sized

end R10K.Lsq
