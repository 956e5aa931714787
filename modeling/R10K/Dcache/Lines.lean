import R10K.Dcache.Ctrl

/-! The lines the data cache holds.

The memories and valid bits of the array are a set-associative store. The registered
outputs show its places at the registered address, so the array's hit is the presence of
the line presented one cycle ago, and a write is a fill of one place. -/
namespace R10K.Dcache
open Cache Select Assoc
variable {i : ArrayInputs} {a : ArrayState} {w : CacheWay}

/-- The lines in the memories. -/
def lines (a : ArrayState) : Store CacheWay Index Tag Block where
  valid := a.blockValid
  tag := fun w => (a.tagSram w).ram
  block := fun w => (a.dataSram w).ram

/-- The line is in the cache. -/
def Held (a : ArrayState) (l : Index × Tag) : Prop := (lines a).Present l.1 l.2

instance (a : ArrayState) (l : Index × Tag) : Decidable (Held a l) :=
  inferInstanceAs (Decidable (∃ _ : Fin 4, _))

/-- The line presented one cycle ago. -/
def pipeLine (a : ArrayState) : Index × Tag := (a.addrIndexPipe, a.addrTagPipe)

/-- The registered outputs show the places of the registered set. -/
structure Shows (a : ArrayState) : Prop where
  valid : ∀ w, a.rdValid w = a.blockValid w a.addrIndexPipe
  tag : ∀ w, a.rdValid w = true → (a.tagSram w).rdData = (a.tagSram w).ram a.addrIndexPipe
  block : ∀ w, a.rdValid w = true → (a.dataSram w).rdData = (a.dataSram w).ram a.addrIndexPipe

theorem Shows.reset (tagSram : CacheWay → Sram Tag) (dataSram : CacheWay → Sram Block) :
    Shows (resetArray tagSram dataSram) :=
  ⟨fun _ => rfl, fun _ h => absurd h Bool.false_ne_true, fun _ h => absurd h Bool.false_ne_true⟩

theorem Shows.next (i : ArrayInputs) (a : ArrayState) : Shows (nextArray i a) where
  valid := fun w => by
    simp only [nextArray, beq_self_eq_true, Bool.and_true]
  tag := fun w _ => Sram.next_rdData ..
  block := fun w _ => Sram.next_rdData ..

/-! ### Hits -/

namespace Shows

theorem hitN_iff (h : Shows a) : hitN a w = true ↔ (lines a).Holds w (pipeLine a).1 (pipeLine a).2 := by
  rw [hitN, Bool.and_eq_true, beq_iff_eq, Store.Holds]
  constructor
  · intro hit
    obtain ⟨htag, hv⟩ := hit
    exact ⟨(h.valid w).symm.trans hv, (h.tag w hv).symm.trans htag⟩
  · intro held
    obtain ⟨hv, htag⟩ := held
    have hrd : a.rdValid w = true := (h.valid w).trans hv
    exact ⟨(h.tag w hrd).trans htag, hrd⟩

/-- **The array hits when it holds the line presented one cycle ago.** -/
theorem hit_iff (h : Shows a) : hit a = true ↔ Held a (pipeLine a) := by
  rw [hit, List.any_eq_true]
  exact exists_congr fun w => by rw [h.hitN_iff, and_iff_right (List.mem_finRange w)]

/-- The block read on a hit. -/
theorem rdBlock_eq (h : Shows a) (hu : (lines a).Unique) (hw : hitN a w = true) :
    rdBlock a = (lines a).block w (pipeLine a).1 := by
  have honly : ∀ v, hitN a v = true → v = w := fun v hv =>
    hu _ _ v w (h.hitN_iff.1 hv) (h.hitN_iff.1 hw)
  rw [rdBlock, muxOnehot_eq 0 _ hw honly]
  exact h.block w (Bool.and_eq_true_iff.1 hw).2

end Shows

/-! ### Writes -/

theorem lines_next_none (h : ∀ v, wenN i a v = false) : lines (nextArray i a) = lines a := by
  simp only [lines, nextArray, Sram.next, h, Bool.false_and, Bool.false_eq_true, if_false]

theorem lines_next_fill (h : ∀ v, wenN i a v = decide (v = w)) : lines (nextArray i a) =
    (lines a).fill w (addrIndex i.addr) (addrTag i.addr) (wrBlock i a) := by
  simp only [lines, nextArray, Sram.next, Store.fill, h, Bool.and_eq_true, decide_eq_true_eq, beq_iff_eq]

theorem wenN_idle (hst : i.stEn = false) (hre : i.refillEn = false) (v : CacheWay) : wenN i a v = false := by
  rw [wenN, hst, hre]
  split <;> rfl

/-- On a hit a write goes to the way that hits. -/
theorem Shows.wenN_hit (h : Shows a) (hu : (lines a).Unique) (hen : (i.stEn || i.refillEn) = true)
    (hw : hitN a w = true) (v : CacheWay) : wenN i a v = decide (v = w) := by
  have hhit : hit a = true := h.hit_iff.2 ⟨w, h.hitN_iff.1 hw⟩
  rw [wenN, if_pos hhit, hen, Bool.true_and]
  by_cases hv : v = w
  · rw [hv, hw, decide_eq_true rfl]
  · rw [decide_eq_false hv]
    by_contra hne
    rw [Bool.not_eq_false] at hne
    exact hv (hu _ _ v w (h.hitN_iff.1 hne) (h.hitN_iff.1 hw))

/-- On a miss a write goes to the way to be replaced. -/
theorem wenN_miss (hen : (i.stEn || i.refillEn) = true) (hmiss : hit a = false) (v : CacheWay) :
    wenN i a v = decide (v = a.lru.lruWay (addrIndex i.addr) (addrIndex i.addr)) := by
  rw [wenN, if_neg (by rw [hmiss]; decide), hen, Bool.true_and]
  rfl

/-! ### The bytes of a store -/

/-- What a store may change: of one way that holds its line, its own bytes. -/
structure Stores (c c' : Store CacheWay Index Tag Block) (addr data : BitVec 32) (size : BitVec 3) :
    Prop where
  valid : c'.valid = c.valid
  tag : c'.tag = c.tag
  block : ∃ w, c.Holds w (addrIndex addr) (addrTag addr) ∧ ∀ v x k, c'.block v x k =
    if v = w ∧ x = addrIndex addr then
      (Lsq.writeBytes addr data size (byteAddr (addrTag addr) x k)).getD (c.block v x k)
    else c.block v x k

/-- A unit of the line is the bytes from its aligned address on. -/
theorem wrPart_eq {addr data : BitVec 32} {size : BitVec 3} {b : Block} {k : Offset}
    (hal : addr.toNat % Lsq.width size = 0) :
    wrPart b (Lsq.width size) (addrOffset addr) data k =
      (Lsq.writeBytes addr data size (byteAddr (addrTag addr) (addrIndex addr) k)).getD (b k) := by
  have ha := addr_toNat addr
  have hb := byteAddr_toNat (addrTag addr) (addrIndex addr) k
  have hlt := addr.isLt
  have hlb := (byteAddr (addrTag addr) (addrIndex addr) k).isLt
  have hk := k.isLt
  have ho := (addrOffset addr).isLt
  have hsub : (byteAddr (addrTag addr) (addrIndex addr) k - addr).toNat =
      (2 ^ 32 + k.toNat - (addrOffset addr).toNat) % 2 ^ 32 := by
    rw [BitVec.toNat_sub]
    omega
  have hunit : k.toNat / Lsq.width size = (addrOffset addr).toNat / Lsq.width size ↔
      (2 ^ 32 + k.toNat - (addrOffset addr).toNat) % 2 ^ 32 < Lsq.width size := by
    rcases Lsq.width_cases size with hz | hz | hz <;> rw [hz] at hal ⊢ <;> omega
  unfold wrPart Lsq.writeBytes
  rw [hsub]
  by_cases hin : k.toNat / Lsq.width size = (addrOffset addr).toNat / Lsq.width size
  · have hoff : (2 ^ 32 + k.toNat - (addrOffset addr).toNat) % 2 ^ 32 = k.toNat % Lsq.width size := by
      rcases Lsq.width_cases size with hz | hz | hz <;> rw [hz] at hal hin ⊢ <;> omega
    rw [if_pos hin, if_pos (hunit.1 hin), hoff, Option.getD_some]
  · rw [if_neg hin, if_neg (fun h => hin (hunit.2 h)), Option.getD_none]

/-- **An aligned store is merged into its bytes.** -/
theorem merge_eq {addr data : BitVec 32} {size : BitVec 3} {b : Block} {k : Offset}
    (h : Lsq.Access addr size) : merge b size (addrOffset addr) data k =
      (Lsq.writeBytes addr data size (byteAddr (addrTag addr) (addrIndex addr) k)).getD (b k) := by
  rw [← wrPart_eq h.aligned]
  have hsized := h.sized
  unfold merge Lsq.width
  cases hz : memSize size with
  | byte | half | word => rfl
  | double => exact absurd hz hsized

end R10K.Dcache
