import R10K.Lib.Lanes
import R10K.Rs.Model

/-! A bank of stations under its credit.

A bank that answered 1111 has four stations free in the next cycle, and then every lane
is given a station of its own. Whatever is dispatched, a load goes to a station not in
use, and a station is left only by issue or flush. A station is awake only while it is in
use and its operands are ready, so what issues is waiting and ready. -/
namespace R10K.Rs
open Lanes Select
variable {m : Nat} {i : Inputs} {s : State m}

/-- The stations not in use. -/
def availCnt (s : State m) : Nat := (List.finRange (2 ^ m)).countP (rsAvail s)

theorem availCnt_card (s : State m) :
    availCnt s = (Finset.univ.filter fun k => rsAvail s k = true).card := by
  rw [availCnt, List.countP_eq_length_filter, ← List.toFinset_card_of_nodup
    ((List.nodup_finRange _).filter _)]
  congr 1
  ext k
  simp

theorem availCnt_le (s : State m) : availCnt s ≤ 2 ^ m := by
  have := List.countP_le_length (p := rsAvail s) (l := List.finRange (2 ^ m))
  rwa [List.length_finRange] at this

theorem availCnt_reset (m : Nat) : availCnt (reset m) = 2 ^ m := by
  rw [availCnt, List.countP_eq_length.2, List.length_finRange]
  intro k _
  rfl

theorem validInstCnt_le (i : Inputs) : validInstCnt i ≤ 4 := by
  unfold validInstCnt
  have := fun l => Bool.toNat_le (i.dispatchPkt l).packetValid
  have h0 := this 0
  have h1 := this 1
  have h2 := this 2
  have h3 := this 3
  omega

/-- While no more is dispatched than is free, `rs_avail_cnt` is the difference. -/
theorem rsAvailCnt_eq (h : validInstCnt i ≤ availCnt s) :
    (rsAvailCnt i s).toNat = availCnt s - validInstCnt i := by
  have hle := availCnt_le s
  have hpow : 2 ^ (m + 1) = 2 ^ m * 2 := rfl
  have hpos : 0 < 2 ^ m := Nat.two_pow_pos m
  rw [rsAvailCnt, ← availCnt, BitVec.toNat_sub_of_le]
  · rw [BitVec.toNat_ofNat, BitVec.toNat_ofNat, Nat.mod_eq_of_lt (by omega), Nat.mod_eq_of_lt (by omega)]
  · rw [BitVec.le_def, BitVec.toNat_ofNat, BitVec.toNat_ofNat, Nat.mod_eq_of_lt (by omega),
      Nat.mod_eq_of_lt (by omega)]
    exact h

/-! ### Allocation -/

/-- A station is selected for the first lane whose index it has. -/
theorem allocSel_index {k : Fin (2 ^ m)} {l : Lane} (h : allocSel s k l = true) :
    k = allocIndex s l ∧ allocIndexValid s l = true := by
  unfold allocSel at h
  split_ifs at h with h0 h1 h2 h3
  · rw [Bool.and_eq_true, beq_iff_eq] at h0
    exact (beq_iff_eq.1 h) ▸ h0
  · rw [Bool.and_eq_true, beq_iff_eq] at h1
    exact (beq_iff_eq.1 h) ▸ h1
  · rw [Bool.and_eq_true, beq_iff_eq] at h2
    exact (beq_iff_eq.1 h) ▸ h2
  · rw [Bool.and_eq_true, beq_iff_eq] at h3
    exact (beq_iff_eq.1 h) ▸ h3

/-- A lane's index is a station its selector grants. -/
theorem allocIndex_granted {l : Lane} (h : allocIndexValid s l = true) :
    gntBus (rsAvail s) l (allocIndex s l) = true := gntBus_enc h

/-- A selected station is not in use. -/
theorem allocSel_free {k : Fin (2 ^ m)} {l : Lane} (h : allocSel s k l = true) :
    (s.entry k).inUse = false := by
  obtain ⟨rfl, hv⟩ := allocSel_index h
  have := gntBus_req (allocIndex_granted hv)
  simpa [rsAvail] using this

theorem allocSel_unique {k : Fin (2 ^ m)} {l l' : Lane} (h : allocSel s k l = true)
    (h' : allocSel s k l' = true) : l = l' := by
  obtain ⟨hk, hv⟩ := allocSel_index h
  obtain ⟨hk', hv'⟩ := allocSel_index h'
  have hg := allocIndex_granted hv
  have hg' := allocIndex_granted hv'
  rw [← hk'] at hg'
  rw [← hk] at hg
  exact gntBus_disjoint hg hg'

/-- A lane's index selects its station for it. -/
theorem allocSel_self {l : Lane} (hv : allocIndexValid s l = true) : allocSel s (allocIndex s l) l = true := by
  have hlane : ∀ l', (allocIndex s l == allocIndex s l' && allocIndexValid s l') = decide (l' = l) := by
    intro l'
    rw [Bool.eq_iff_iff, Bool.and_eq_true, beq_iff_eq, decide_eq_true_eq]
    constructor
    · rintro ⟨he, hv'⟩
      have hg := allocIndex_granted hv
      rw [he] at hg
      exact gntBus_disjoint (allocIndex_granted hv') hg
    · rintro rfl
      exact ⟨rfl, hv⟩
  rw [allocSel, hlane 0, hlane 1, hlane 2, hlane 3]
  fin_cases l <;> rfl

theorem dispatchPktN_eq {k : Fin (2 ^ m)} {l : Lane} (h : allocSel s k l = true) :
    dispatchPktN i s k = i.dispatchPkt l :=
  muxOnehot_eq _ _ h fun _ h' => allocSel_unique h' h

/-- A station is loaded from a lane that selects it. -/
theorem dispatchPktN_valid {k : Fin (2 ^ m)} (h : (dispatchPktN i s k).packetValid = true) :
    ∃ l, allocSel s k l = true ∧ dispatchPktN i s k = i.dispatchPkt l := by
  by_cases hex : ∃ l, allocSel s k l = true
  · obtain ⟨l, hl⟩ := hex
    exact ⟨l, hl, dispatchPktN_eq hl⟩
  · rw [not_exists] at hex
    rw [dispatchPktN, muxOnehot_none _ _ fun l => Bool.not_eq_true _ ▸ hex l] at h
    cases h

/-- **A load goes to a station that is not in use.** -/
theorem load_free {k : Fin (2 ^ m)} (h : (dispatchPktN i s k).packetValid = true) :
    (s.entry k).inUse = false := by
  obtain ⟨l, hl, _⟩ := dispatchPktN_valid h
  exact allocSel_free hl

theorem inUse_unloaded {k : Fin (2 ^ m)} (h : (s.entry k).inUse = true) :
    (dispatchPktN i s k).packetValid = false := by
  rw [Bool.eq_false_iff]
  intro hload
  rw [load_free hload] at h
  cases h

/-- A lane has a station of its own while more are free than there are lanes before it. -/
theorem allocIndexValid_of_lt {l : Lane} (h : l.val < availCnt s) : allocIndexValid s l = true := by
  rw [availCnt_card] at h
  exact (granted_iff _).2 (gntBus_exists_of_lt h)

/-- With four stations free every lane has one of its own. -/
theorem allocIndexValid_of_avail (h : 4 ≤ availCnt s) (l : Lane) : allocIndexValid s l = true :=
  allocIndexValid_of_lt (lt_of_lt_of_le l.isLt h)

/-! ### One edge -/

theorem next_inUse (i : Inputs) (s : State m) (k : Fin (2 ^ m)) : ((next i s).entry k).inUse =
    (!i.pipeFlush && !issueEn s k && ((dispatchPktN i s k).packetValid || (s.entry k).inUse)) := by
  simp only [next, nextEntry]
  cases i.pipeFlush <;> cases issueEn s k <;> rfl

/-- The valid lanes are counted by `valid_inst_cnt`. -/
theorem validInstCnt_card (i : Inputs) :
    validInstCnt i = (Finset.univ.filter fun l => (i.dispatchPkt l).packetValid = true).card := by
  have hset : (Finset.univ.filter fun l => (i.dispatchPkt l).packetValid = true) =
      (group fun l => (i.dispatchPkt l).packetValid).toFinset := by
    ext l
    simp [mem_group]
  have hnodup : (group fun l => (i.dispatchPkt l).packetValid).Nodup := (List.nodup_finRange 4).filter _
  rw [hset, List.toFinset_card_of_nodup hnodup, group_length, validInstCnt]
  omega

/-- A free station is taken by one valid lane or stays free. -/
theorem availCnt_next (i : Inputs) (s : State m) : availCnt s ≤ availCnt (next i s) + validInstCnt i := by
  rw [availCnt_card, availCnt_card, validInstCnt_card]
  refine (Finset.card_le_card (fun k hk => ?_)).trans ((Finset.card_union_le _ _).trans
    (Nat.add_le_add_left (Finset.card_image_le (f := allocIndex s)) _))
  rw [Finset.mem_filter] at hk
  rw [Finset.mem_union]
  cases hload : (dispatchPktN i s k).packetValid with
  | true =>
    obtain ⟨l, hl, heq⟩ := dispatchPktN_valid hload
    rw [heq] at hload
    exact .inr (Finset.mem_image.2 ⟨l, Finset.mem_filter.2 ⟨Finset.mem_univ _, hload⟩,
      (allocSel_index hl).1.symm⟩)
  | false =>
    refine .inl (Finset.mem_filter.2 ⟨Finset.mem_univ _, ?_⟩)
    have hfree : (s.entry k).inUse = false := by simpa [rsAvail] using hk.2
    rw [rsAvail, next_inUse, hload, hfree, Bool.or_self, Bool.and_false]
    rfl

/-! ### Credit -/

/-- What the credit a bank gave in the previous cycle is worth. -/
structure Credit (ready : Lane → Bool) (s : State m) : Prop where
  avail : (∀ l, ready l = true) → 4 ≤ availCnt s

/-- Nothing is dispatched on less than 1111. -/
def OkDispatch (i : Inputs) (ready : Lane → Bool) : Prop :=
  ∀ l, (i.dispatchPkt l).packetValid = true → ∀ m, ready m = true

namespace Credit
variable {ready : Lane → Bool}

theorem dispatch_le (h : Credit ready s) (ok : OkDispatch i ready) : validInstCnt i ≤ availCnt s := by
  by_cases hv : ∃ l, (i.dispatchPkt l).packetValid = true
  · obtain ⟨l, hl⟩ := hv
    exact (validInstCnt_le i).trans (h.avail (ok l hl))
  · rw [validInstCnt_card, Finset.card_eq_zero.2 (Finset.filter_eq_empty_iff.2 fun l _ hl => hv ⟨l, hl⟩)]
    exact Nat.zero_le _

/-- `rs_avail_cnt` does not underflow. -/
theorem noUnderflow (h : Credit ready s) (ok : OkDispatch i ready) :
    (rsAvailCnt i s).toNat + validInstCnt i = availCnt s := by
  rw [rsAvailCnt_eq (h.dispatch_le ok), Nat.sub_add_cancel (h.dispatch_le ok)]

/-- **One edge keeps the credit.** -/
theorem next (h : Credit ready s) (ok : OkDispatch i ready) :
    Credit (dispatchPktReady i s) (Rs.next i s) where
  avail := by
    intro hr
    have hle := h.dispatch_le ok
    have hcnt := of_decide_eq_true (hr 3)
    rw [rsAvailCnt_eq hle] at hcnt
    have hnext := availCnt_next i s
    have h3 : (3 : Lane).val = 3 := rfl
    omega

theorem init (hm : 2 ≤ m) : Credit ready (reset m) where
  avail := by
    intro _
    rw [availCnt_reset]
    exact Nat.pow_le_pow_right (n := 2) Nat.two_pos hm

/-- A dispatching lane has a station of its own, which is free. -/
theorem slot (h : Credit ready s) (ok : OkDispatch i ready) (l : Lane)
    (hv : (i.dispatchPkt l).packetValid = true) :
    allocSel s (allocIndex s l) l = true ∧ (s.entry (allocIndex s l)).inUse = false ∧
      dispatchPktN i s (allocIndex s l) = i.dispatchPkt l := by
  have hself := allocSel_self (allocIndexValid_of_avail (h.avail (ok l hv)) l)
  exact ⟨hself, allocSel_free hself, dispatchPktN_eq hself⟩

end Credit

/-! ### Issue -/

/-- What is awake is in use with its operands ready, and `rs1_issued` is never set. -/
structure Awake (s : State m) : Prop where
  ready : ∀ k w, (s.entry k).wakeUp w = true → (s.entry k).inUse = true ∧ operandsReady (s.entry k).pkt w = true
  issued : ∀ k, (s.entry k).issued = false

theorem operandsReady_loaded {e : Entry} {p : DispatchRsPacket} {w : Way}
    (h : operandsReady p w = true) : operandsReady (loaded i e p) w = true := by
  simp only [operandsReady, loaded, Bool.and_eq_true, Bool.or_eq_true] at h ⊢
  exact ⟨⟨h.1.1.imp_left .inl, h.1.2.imp_left .inl⟩, h.2⟩

theorem operandsReady_updated {e : Entry} {w : Way} (h : operandsReady e.pkt w = true) :
    operandsReady (updated i e) w = true := by
  simp only [operandsReady, updated, Bool.and_eq_true, Bool.or_eq_true] at h ⊢
  exact ⟨⟨h.1.1.imp_left .inl, h.1.2.imp_left .inl⟩, h.2⟩

namespace Awake

/-- A station wakes for what it will hold. -/
theorem next (h : Awake s) (i : Inputs) : Awake (Rs.next i s) where
  issued := by
    intro k
    simp only [Rs.next, nextEntry, h.issued, ite_self]
  ready := by
    intro k w hw
    rw [next_inUse]
    simp only [Rs.next, nextEntry] at hw ⊢
    cases hf : i.pipeFlush with
    | true =>
      rw [hf] at hw
      cases hw
    | false =>
      cases hen : issueEn s k with
      | true =>
        rw [hf, hen] at hw
        cases hw
      | false =>
        simp only [hf, hen, Bool.false_eq_true, if_false, Bool.not_false, Bool.true_and] at hw ⊢
        have hset : wakeUpTmp (s.entry k) (dispatchPktN i s k) w = true ∨ (s.entry k).wakeUp w = true := by
          split at hw
          · exact .inl hw
          · exact .inr hw
        cases hload : (dispatchPktN i s k).packetValid with
        | true =>
          have hfree := load_free hload
          rw [Bool.true_or, if_pos rfl]
          refine ⟨rfl, operandsReady_loaded ?_⟩
          rcases hset with hset | hset
          · simpa [wakeUpTmp, hfree, hload] using hset
          · rw [(h.ready k w hset).1] at hfree
            cases hfree
        | false =>
          rw [Bool.false_or, if_neg Bool.false_ne_true]
          have hkeep : (s.entry k).inUse = true ∧ operandsReady (s.entry k).pkt w = true := by
            rcases hset with hset | hset
            · simpa [wakeUpTmp, hload] using hset
            · exact h.ready k w hset
          exact ⟨hkeep.1, operandsReady_updated hkeep.2⟩

theorem init : Awake (reset m) where
  ready := fun _ _ h => by cases h
  issued := fun _ => rfl

end Awake

/-- A unit takes a station that is awake for it. -/
theorem issueEnN_wakeUp {w : Way} {k : Fin (2 ^ m)} (h : issueEnN s w k = true) :
    (s.entry k).wakeUp w = true := by
  have := Sort.gnt_req h
  rw [rsIssueReq] at this
  split at this
  · cases this
  · exact this

/-- A station not in use does not issue. -/
theorem Awake.issueEn_free (h : Awake s) {k : Fin (2 ^ m)} (hk : (s.entry k).inUse = false) :
    issueEn s k = false := by
  rw [issueEn, List.any_eq_false]
  intro w _ hw
  rw [(h.ready k w (issueEnN_wakeUp hw)).1] at hk
  cases hk

/-- **What is issued is a station's packet, in use with its operands ready.** -/
theorem issuePkt_valid (h : Awake s) {w : Way} (hv : (issuePkt s w).packetValid = true) :
    ∃ k, issueEnN s w k = true ∧ issuePkt s w = issuePktN s k ∧ (s.entry k).inUse = true ∧
      operandsReady (s.entry k).pkt w = true := by
  by_cases hex : ∃ k, issueEnN s w k = true
  · obtain ⟨k, hk⟩ := hex
    exact ⟨k, hk, muxOnehot_eq _ _ hk fun _ hj => Sort.gnt_unique hj hk, h.ready k w (issueEnN_wakeUp hk)⟩
  · rw [not_exists] at hex
    rw [issuePkt, muxOnehot_none _ _ fun k => Bool.not_eq_true _ ▸ hex k] at hv
    cases hv

/-- **What stands in a station after an edge**: a packet loaded now into a station that
was not in use, or the packet of a station that did not issue. -/
theorem next_cases {k : Fin (2 ^ m)} (hu : ((next i s).entry k).inUse = true) :
    i.pipeFlush = false ∧ issueEn s k = false ∧
      ((∃ l, allocSel s k l = true ∧ (i.dispatchPkt l).packetValid = true ∧ (s.entry k).inUse = false ∧
          ((next i s).entry k).pkt = loaded i (s.entry k) (i.dispatchPkt l)) ∨
        ((s.entry k).inUse = true ∧ ((next i s).entry k).pkt = updated i (s.entry k))) := by
  rw [next_inUse] at hu
  simp only [Bool.and_eq_true, Bool.not_eq_true', Bool.or_eq_true] at hu
  refine ⟨hu.1.1, hu.1.2, ?_⟩
  simp only [next, nextEntry, hu.1.1, hu.1.2, Bool.false_eq_true, if_false]
  cases hload : (dispatchPktN i s k).packetValid with
  | true =>
    obtain ⟨l, hl, heq⟩ := dispatchPktN_valid hload
    exact .inl ⟨l, hl, heq ▸ hload, allocSel_free hl, by rw [if_pos rfl, heq]⟩
  | false =>
    rw [if_neg Bool.false_ne_true]
    exact .inr ⟨hu.2.resolve_left (by rw [hload]; exact Bool.false_ne_true), rfl⟩

end R10K.Rs
