import R10K.Rob.Log

/-! The buffer's pointers as counts.

The head stands at the number of packets retired since the last flush, the tail at
the number dispatched. Here the buffer's own arithmetic (partial pointer bits for the
wrap, 32-bit subtraction for the credit, the four group shapes of allocation) is read
on these counts. -/
namespace R10K.Rob
open Circular Lanes

def State.head (s : State) : Ptr 6 := ⟨s.headPositionBit, s.headPtr⟩
def State.tail (s : State) : Ptr 6 := ⟨s.tailPositionBit, s.tailPtr⟩

/-! ### Wrap and credit -/

/-- The wrap test on partial bits, for an advance of at most four. -/
theorem overflow_iff (c n : Nat) (hn : n ≤ 4) :
    ((Ptr.ofCount 6 c).idx.extractLsb' 2 4 == 0b1111 &&
      ((Ptr.ofCount 6 c).idx + BitVec.ofNat 6 n).extractLsb' 5 1 == 0) =
      decide (2 ^ 6 ≤ c % 2 ^ 6 + n) := by
  rw [← Ptr.idx_add, Bool.eq_iff_iff]
  simp only [Bool.and_eq_true, beq_iff_eq, decide_eq_true_eq, ← BitVec.toNat_inj,
    BitVec.extractLsb'_toNat, Ptr.idx_toNat, Nat.shiftRight_eq_div_pow, BitVec.reduceToNat]
  omega

/-- The credit comparison: more than `l` slots free between the two pointers. -/
theorem credit_iff {h t : Nat} (hle : h ≤ t) (hlt : t ≤ h + 64) (l : Lane) :
    ((if (Ptr.ofCount 6 h).pos == (Ptr.ofCount 6 t).pos then
        !decide ((Ptr.ofCount 6 h).idx.setWidth 32 + 64 - (Ptr.ofCount 6 t).idx.setWidth 32 ≤
          BitVec.ofNat 32 l.val)
      else
        !decide ((Ptr.ofCount 6 h).idx.setWidth 32 - (Ptr.ofCount 6 t).idx.setWidth 32 ≤
          BitVec.ofNat 32 l.val)) = true) ↔ t + l.val + 1 ≤ h + 64 := by
  have hroom := Ptr.room (w := 6) hle (by omega)
  have hge := Ptr.tail_le_head (w := 6) hle (by omega)
  have hl := l.isLt
  have h1 := (Ptr.ofCount 6 h).idx.isLt
  have h2 := (Ptr.ofCount 6 t).idx.isLt
  split
  · rename_i hp
    rw [if_pos (by simpa using hp)] at hroom
    simp only [Bool.not_eq_eq_eq_not, Bool.not_true, decide_eq_false_iff_not, BitVec.not_le,
      BitVec.lt_def, BitVec.toNat_sub, BitVec.toNat_add, BitVec.toNat_setWidth, BitVec.toNat_ofNat,
      BitVec.reduceToNat]
    omega
  · rename_i hp
    rw [if_neg (by simpa using hp)] at hroom
    have hge := hge (by simpa using hp)
    simp only [Bool.not_eq_eq_eq_not, Bool.not_true, decide_eq_false_iff_not, BitVec.not_le,
      BitVec.lt_def, BitVec.toNat_sub, BitVec.toNat_setWidth, BitVec.toNat_ofNat]
    omega

/-! ### Counting lanes -/

theorem dispatchPktCnt_eq (i : Inputs) :
    dispatchPktCnt i = (group fun l => (i.dispatchPkt l).packetValid).length := by
  rw [group_length, dispatchPktCnt]

theorem dispatchPktCnt_le (i : Inputs) : dispatchPktCnt i ≤ 4 := by
  rw [dispatchPktCnt_eq]
  exact group_length_le _

theorem retireEn_prev (s : State) (k : Nat) (h : retireEn s (k + 1) = true) : retireEn s k = true := by
  simp only [retireEn, Bool.and_eq_true] at h
  exact h.1.1.1.1

theorem retireEn_of_le (s : State) {j k : Nat} (hjk : j ≤ k) (h : retireEn s k = true) :
    retireEn s j = true := by
  induction hjk with
  | refl => exact h
  | step _ ih => exact ih (retireEn_prev s _ h)

/-- A retiring entry is valid and complete. -/
theorem retireEn_entry (s : State) (k : Nat) (h : retireEn s k = true) :
    (headEntry s k).valid = true ∧ (headEntry s k).complete = true := by
  cases k <;> simp only [retireEn, Bool.and_eq_true] at h
  · exact ⟨h.1.1, h.1.2⟩
  · exact ⟨h.1.1.2, h.1.2⟩

theorem retireEnCnt_le (s : State) : retireEnCnt s ≤ 4 := by
  have h := fun b : Bool => Bool.toNat_le b
  have h0 := h (retireEn s 0)
  have h1 := h (retireEn s 1)
  have h2 := h (retireEn s 2)
  have h3 := h (retireEn s 3)
  simp only [retireEnCnt]
  omega

/-- The retiring lanes are a prefix, and the count is its length. -/
theorem retireEn_iff (s : State) (k : Nat) (hk : k < 4) : retireEn s k = true ↔ k < retireEnCnt s := by
  have h1 := retireEn_prev s 0
  have h2 := retireEn_prev s 1
  have h3 := retireEn_prev s 2
  simp only [retireEnCnt]
  rcases k with _ | _ | _ | _ | k
  all_goals first
    | omega
    | cases h0 : retireEn s 0 <;> cases h1' : retireEn s 1 <;> cases h2' : retireEn s 2 <;>
        cases h3' : retireEn s 3 <;> simp_all

/-! ### The pointers after a cycle -/

theorem tailPtrOverflow_eq (i : Inputs) (s : State) (t : Nat) (ht : s.tail = Ptr.ofCount 6 t) :
    tailPtrOverflow i s = decide (2 ^ 6 ≤ t % 2 ^ 6 + dispatchPktCnt i) := by
  have hidx : s.tailPtr = (Ptr.ofCount 6 t).idx := by rw [← ht]; rfl
  rw [tailPtrOverflow, nextTailPtr, hidx]
  exact overflow_iff t _ (dispatchPktCnt_le i)

theorem headPtrOverflow_eq (s : State) (h : Nat) (hh : s.head = Ptr.ofCount 6 h) :
    headPtrOverflow s = decide (2 ^ 6 ≤ h % 2 ^ 6 + retireEnCnt s) := by
  have hidx : s.headPtr = (Ptr.ofCount 6 h).idx := by rw [← hh]; rfl
  rw [headPtrOverflow, nextHeadPtr, hidx]
  exact overflow_iff h _ (retireEnCnt_le s)

private theorem flip_eq (a b : Bool) : (if b then !a else a) = (a ^^ b) := by
  cases a <;> cases b <;> rfl

/-- The next tail stands at the count of packets dispatched. -/
theorem next_tail (i : Inputs) (s : State) (t : Nat) (ht : s.tail = Ptr.ofCount 6 t) :
    (⟨nextTailPositionBit i s, nextTailPtr i s⟩ : Ptr 6) = Ptr.ofCount 6 (t + dispatchPktCnt i) := by
  have hle := dispatchPktCnt_le i
  have hpos : s.tailPositionBit = (Ptr.ofCount 6 t).pos := by rw [← ht]; rfl
  have hidx : s.tailPtr = (Ptr.ofCount 6 t).idx := by rw [← ht]; rfl
  ext
  · rw [nextTailPositionBit, tailPtrOverflow_eq i s t ht, flip_eq, hpos, Ptr.pos_add _ _ (by omega)]
  · rw [nextTailPtr, hidx, Ptr.idx_add]

theorem next_head (s : State) (h : Nat) (hh : s.head = Ptr.ofCount 6 h) :
    (⟨nextHeadPositionBit s, nextHeadPtr s⟩ : Ptr 6) = Ptr.ofCount 6 (h + retireEnCnt s) := by
  have hle := retireEnCnt_le s
  have hpos : s.headPositionBit = (Ptr.ofCount 6 h).pos := by rw [← hh]; rfl
  have hidx : s.headPtr = (Ptr.ofCount 6 h).idx := by rw [← hh]; rfl
  ext
  · rw [nextHeadPositionBit, headPtrOverflow_eq s h hh, flip_eq, hpos, Ptr.pos_add _ _ (by omega)]
  · rw [nextHeadPtr, hidx, Ptr.idx_add]

/-- The tag answered for the lane `m` lanes into a group is the count of its packet. -/
theorem respFrom_eq (i : Inputs) (s : State) (t f : Nat) (l : Lane) (ht : s.tail = Ptr.ofCount 6 t)
    (hf : f ≤ l.val) (hm : l.val - f < dispatchPktCnt i) :
    respFrom i s f l = Ptr.ofCount 6 (t + (l.val - f)) := by
  have hcnt := dispatchPktCnt_le i
  have hl := l.isLt
  have hidx : s.tailPtr = (Ptr.ofCount 6 t).idx := by rw [← ht]; rfl
  have hpos : s.tailPositionBit = (Ptr.ofCount 6 t).pos := by rw [← ht]; rfl
  have hslot : s.tailPtr + BitVec.ofNat 6 (l.val - f) = (Ptr.ofCount 6 (t + (l.val - f))).idx := by
    rw [Ptr.idx_add, hidx]
  have hwrap : (tailPtrOverflow i s && decide ((Ptr.ofCount 6 (t + (l.val - f))).idx < 4)) =
      decide (2 ^ 6 ≤ t % 2 ^ 6 + (l.val - f)) := by
    rw [tailPtrOverflow_eq i s t ht, Bool.eq_iff_iff]
    simp only [Bool.and_eq_true, decide_eq_true_eq, BitVec.lt_def, Ptr.idx_toNat, BitVec.reduceToNat]
    omega
  rw [respFrom, if_neg (by omega)]
  simp only [hslot, hwrap, flip_eq]
  ext
  · rw [Ptr.pos_add _ _ (by omega), hpos]
  · rfl

theorem dispatchPktResp_group (i : Inputs) (s : State) (t : Nat) (ht : s.tail = Ptr.ofCount 6 t)
    (hc : Contiguous fun l => (i.dispatchPkt l).packetValid) (j : Nat) (l : Lane)
    (hl : (group fun l => (i.dispatchPkt l).packetValid)[j]? = some l) :
    dispatchPktResp i s l = Ptr.ofCount 6 (t + j) := by
  have hr := fun f l => respFrom_eq i s t f l ht
  have c1 := hc 0 1 2
  have c2 := hc 0 1 3
  have c3 := hc 0 2 3
  have c4 := hc 1 2 3
  rw [group_eq] at hl
  simp only [dispatchPktResp, dispatchPktCnt] at hr ⊢
  cases v0 : (i.dispatchPkt 0).packetValid <;> cases v1 : (i.dispatchPkt 1).packetValid <;>
    cases v2 : (i.dispatchPkt 2).packetValid <;> cases v3 : (i.dispatchPkt 3).packetValid <;>
    simp [v0, v1, v2, v3] at c1 c2 c3 c4 hl hr <;>
    rcases j with _ | _ | _ | _ | j <;> simp at hl <;> subst hl <;> simp [hr]

/-! ### Allocation -/

theorem slot_beq (p : BitVec 6) {j c : Nat} (hj : j < 64) (hc : c < 64) :
    (p + BitVec.ofNat 6 j == p + BitVec.ofNat 6 c) = decide (j = c) := by
  rw [Bool.eq_iff_iff, beq_iff_eq, decide_eq_true_eq, BitVec.add_right_inj]
  constructor
  · intro h
    have := congrArg BitVec.toNat h
    simp only [BitVec.toNat_ofNat] at this
    omega
  · exact fun h => by rw [h]

theorem allocate_slot (i : Inputs) (s : State)
    (hc : Contiguous fun l => (i.dispatchPkt l).packetValid) (j : Nat) (hj : j < 64) (e : RobEntry) :
    allocate i s (s.tailPtr + BitVec.ofNat 6 j) e =
      ((group fun l => (i.dispatchPkt l).packetValid)[j]?.map
        fun l => dispatch2Rob (i.dispatchPkt l)).getD e := by
  have h0 : (s.tailPtr + BitVec.ofNat 6 j == s.tailPtr) = decide (j = 0) := by
    simpa using slot_beq s.tailPtr hj (c := 0) (by decide)
  have h1 : (s.tailPtr + BitVec.ofNat 6 j == s.tailPtr + 1) = decide (j = 1) :=
    slot_beq s.tailPtr hj (c := 1) (by decide)
  have h2 : (s.tailPtr + BitVec.ofNat 6 j == s.tailPtr + 2) = decide (j = 2) :=
    slot_beq s.tailPtr hj (c := 2) (by decide)
  have h3 : (s.tailPtr + BitVec.ofNat 6 j == s.tailPtr + 3) = decide (j = 3) :=
    slot_beq s.tailPtr hj (c := 3) (by decide)
  have c1 := hc 0 1 2
  have c2 := hc 0 1 3
  have c3 := hc 0 2 3
  have c4 := hc 1 2 3
  have hv : ∀ l, (dispatch2Rob (i.dispatchPkt l)).valid = (i.dispatchPkt l).packetValid := fun _ => rfl
  simp only [allocate, h0, h1, h2, h3, group_eq, hv]
  cases v0 : (i.dispatchPkt 0).packetValid <;> cases v1 : (i.dispatchPkt 1).packetValid <;>
    cases v2 : (i.dispatchPkt 2).packetValid <;> cases v3 : (i.dispatchPkt 3).packetValid <;>
    simp [v0, v1, v2, v3] at c1 c2 c3 c4 <;>
    rcases j with _ | _ | _ | _ | j <;> simp

end R10K.Rob
