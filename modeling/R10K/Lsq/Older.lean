import R10K.Lsq.Squash
import R10K.Lsq.System

/-! The stores older than a load.

A load is dispatched with the mask of the stores before it that are not in the memory yet,
and with the slot of the last of them; a store that goes to the data cache leaves the
masks. So the mask is a window of the program, from the first store not sent up to the
load (`Older`). Retirement in program order keeps the stores after a load out of the memory
while it is in flight. -/
namespace R10K.Lsq
open Circular Lanes

/-- One more lane of a group adds its store to the mask. -/
private theorem mask_step {h n j : Nat} {b : Bool} {y : StqTag} (hj : h ≤ j ∧ j < h + 16) (hn : h ≤ n)
    (hroom : n + b.toNat ≤ h + 16) (hy : b = true → y + 1 = (Ptr.ofCount 4 (n + 1)).idx) :
    ((b && (Ptr.ofCount 4 j).idx == y) || decide (j < n)) = decide (j < n + b.toNat) := by
  cases b with
  | false => rfl
  | true =>
    have hy' : y = (Ptr.ofCount 4 n).idx := by
      have := hy rfl
      rw [Ptr.idx_add] at this
      exact add_right_cancel this
    rw [Bool.toNat_true] at hroom ⊢
    rw [hy', Bool.true_and, Bool.eq_iff_iff, Bool.or_eq_true, decide_eq_true_eq, decide_eq_true_eq, beq_iff_eq]
    constructor
    · rintro (he | hlt)
      · have := Ptr.idx_inj_window hj ⟨hn, by omega⟩ he
        omega
      · omega
    · intro hlt
      rcases Nat.lt_succ_iff_lt_or_eq.1 hlt with hlt | rfl
      · exact .inr hlt
      · exact .inl rfl

/-! ### Dispatch -/

section Dispatch
variable {c : Config} {i : Inputs}

theorem dispatchStMask_eq (h : Stq.Queue c.stq) (hv : Stq.Vacant c.stq) {j : Nat}
    (hj : c.stq.log.sent.length ≤ j ∧ j < c.stq.log.sent.length + 16) :
    Stq.dispatchStMask c.stq.stq (Ptr.ofCount 4 j).idx = decide (j < c.stq.log.stores.length) := by
  rw [Stq.dispatchStMask]
  by_cases hlt : j < c.stq.log.stores.length
  · rw [(h.slot j hj.1 hlt).1, decide_eq_true hlt]
  · rw [hv j (Nat.le_of_not_lt hlt) hj.2, decide_eq_false hlt]

theorem anyStore_iff (h : Stq.Queue c.stq) (hv : Stq.Vacant c.stq) :
    anyStore c.state = true ↔ c.stq.log.sent.length < c.stq.log.stores.length := by
  rw [anyStore, decide_eq_true_eq]
  constructor
  · rintro ⟨t, ht⟩
    obtain ⟨j, hj1, hj2, rfl⟩ := Ptr.idx_surj (w := 4) c.stq.log.sent.length t
    have := (dispatchStMask_eq h hv ⟨hj1, hj2⟩).symm.trans ht
    have := of_decide_eq_true this
    omega
  · intro hlt
    exact ⟨_, (dispatchStMask_eq h hv ⟨Nat.le_refl _, by omega⟩).trans (decide_eq_true hlt)⟩

theorem dispatchStYoungest_eq (h : Stq.Queue c.stq) : Stq.dispatchStYoungest c.stq.stq =
    if c.stq.log.sent.length = c.stq.log.stores.length then (Ptr.ofCount 4 c.stq.log.stores.length).idx
    else (Ptr.ofCount 4 c.stq.log.stores.length).idx - 1 := by
  have hsl := h.sent_le
  have hrl := h.retired_le
  have hroom := h.room
  have htail : c.stq.stq.tailPtr = (Ptr.ofCount 4 c.stq.log.stores.length).idx := by rw [← h.tail]; rfl
  have hsame : (c.stq.stq.headPtr == c.stq.stq.tailPtr && c.stq.stq.headPosBit == c.stq.stq.tailPosBit) = true ↔
      c.stq.log.sent.length = c.stq.log.stores.length := by
    have hptr : c.stq.stq.head = c.stq.stq.tail ↔ c.stq.log.sent.length = c.stq.log.stores.length := by
      rw [h.head, h.tail]
      exact ⟨fun e => Ptr.ofCount_inj (by omega) (by omega) e, fun e => by rw [e]⟩
    rw [← hptr, Bool.and_eq_true, beq_iff_eq, beq_iff_eq, Ptr.ext_iff, and_comm]
    exact Iff.rfl
  rw [Stq.dispatchStYoungest, htail] at *
  split
  · rename_i heq
    rw [if_pos (hsame.1 heq)]
  · rename_i hne
    rw [if_neg fun e => hne (hsame.2 e)]

/-- The slot of the last store before a lane, if there is one in the queue or its group. -/
theorem dispatchLdqStYoungest_eq (h : Stq.Queue c.stq) (hv : Stq.Vacant c.stq) (i : Inputs) {l : Lane}
    (hl : l ≠ 0 ∨ c.stq.log.sent.length < c.stq.log.stores.length) :
    dispatchLdqStYoungest i c.state l + 1 =
      (Ptr.ofCount 4 (c.stq.log.stores.length + rank (dispatchStqValid i) l)).idx := by
  have hyoung := dispatchStYoungest_eq h
  have hany := anyStore_iff h hv
  have hsl := h.sent_le
  have hrl := h.retired_le
  rw [dispatchLdqStYoungest, Ptr.idx_add]
  show (if l = 0 then Stq.dispatchStYoungest c.stq.stq
    else if anyStore c.state then BitVec.ofNat 4 (rank (dispatchStqValid i) l) + Stq.dispatchStYoungest c.stq.stq
    else BitVec.ofNat 4 (rank (dispatchStqValid i) l) + Stq.dispatchStYoungest c.stq.stq - 1) + 1 = _
  rw [hyoung]
  by_cases hlt : c.stq.log.sent.length < c.stq.log.stores.length
  · rw [if_neg (by omega : ¬ c.stq.log.sent.length = c.stq.log.stores.length), if_pos (hany.2 hlt)]
    split
    · rename_i hl0
      rw [hl0, rank_zero, BitVec.sub_add_cancel]
      simp
    · rw [BitVec.add_assoc, BitVec.sub_add_cancel, BitVec.add_comm]
  · have hno : ¬ anyStore c.state = true := fun ha => hlt (hany.1 ha)
    rw [if_pos (by omega : c.stq.log.sent.length = c.stq.log.stores.length), if_neg hno,
      if_neg (hl.resolve_right hlt), BitVec.sub_add_cancel, BitVec.add_comm]

/-- So it is the slot of the last one, when there is one. -/
theorem dispatchLdqStYoungest_last (h : Stq.Queue c.stq) (hv : Stq.Vacant c.stq) (i : Inputs) {l : Lane}
    (hl : c.stq.log.sent.length < c.stq.log.stores.length + rank (dispatchStqValid i) l) :
    dispatchLdqStYoungest i c.state l =
      (Ptr.ofCount 4 (c.stq.log.stores.length + rank (dispatchStqValid i) l - 1)).idx := by
  have hl0 : l ≠ 0 ∨ c.stq.log.sent.length < c.stq.log.stores.length := by
    by_cases hl0 : l = 0
    · subst hl0
      rw [rank_zero] at hl
      exact .inr hl
    · exact .inl hl0
  have hyoung := dispatchLdqStYoungest_eq h hv i hl0
  have hlast : (Ptr.ofCount 4 (c.stq.log.stores.length + rank (dispatchStqValid i) l)).idx =
      (Ptr.ofCount 4 (c.stq.log.stores.length + rank (dispatchStqValid i) l - 1)).idx + 1 := by
    rw [show (1 : BitVec 4) = BitVec.ofNat 4 1 from rfl, ← Ptr.idx_add, Nat.sub_add_cancel (by omega)]
  exact add_right_cancel (hyoung.trans hlast)

/-- The mask of a lane holds the stores of the queue and those of the lanes before. -/
theorem dispatchLdqStMask_eq (h : Stq.Queue c.stq) (hv : Stq.Vacant c.stq)
    (hroom : c.stq.log.stores.length + (group (dispatchStqValid i)).length ≤ c.stq.log.sent.length + 16)
    (l : Lane) {j : Nat} (hj : c.stq.log.sent.length ≤ j ∧ j < c.stq.log.sent.length + 16) :
    dispatchLdqStMask i c.state l (Ptr.ofCount 4 j).idx =
      decide (j < c.stq.log.stores.length + rank (dispatchStqValid i) l) := by
  have hsl := h.sent_le
  have hrl := h.retired_le
  have h0 : Stq.dispatchStMask c.stq.stq (Ptr.ofCount 4 j).idx =
      decide (j < c.stq.log.stores.length + rank (dispatchStqValid i) 0) := by
    rw [rank_zero]
    exact dispatchStMask_eq h hv hj
  have hstep : ∀ l m : Lane, m.val = l.val + 1 → ((dispatchStqValid i l &&
      (Ptr.ofCount 4 j).idx == dispatchLdqStYoungest i c.state m) ||
        decide (j < c.stq.log.stores.length + rank (dispatchStqValid i) l)) =
      decide (j < c.stq.log.stores.length + rank (dispatchStqValid i) m) := by
    intro l m hm
    have hle := rank_le (dispatchStqValid i) l
    have hrank := rank_succ (dispatchStqValid i) hm
    rw [hrank, ← Nat.add_assoc]
    refine mask_step hj (by omega) (by omega) fun hb => ?_
    rw [dispatchLdqStYoungest_eq h hv i (.inl (by rintro rfl; cases hm)), hrank, hb, Bool.toNat_true,
      Nat.add_assoc]
  have h1 := hstep 0 1 rfl
  have h2 := hstep 1 2 rfl
  have h3 := hstep 2 3 rfl
  rw [← h0] at h1
  rw [← h1] at h2
  rw [← h2] at h3
  match l with
  | 0 => exact h0
  | 1 => exact h1
  | 2 => exact h2
  | 3 => exact h3

end Dispatch

/-! ### The window of a load -/

/-- The entry of the load at place `k`. -/
abbrev System.entry (s : System) (k : Nat) : LdqEntry := s.lsq.ldq.ldq.ldqEntry (Ptr.ofCount 4 k).idx

structure Older (s : System) : Prop where
  unit : Inv s.lsq
  stale : ∀ t, s.lsq.stale t = 0
  vacant : Stq.Vacant s.lsq.stq
  length : s.older.length = s.lsq.ldq.log.loads.length
  le : ∀ k n, s.lsq.ldq.log.retired ≤ k → s.older[k]? = some n →
    s.lsq.stq.log.retired ≤ n ∧ n ≤ s.stores.length
  mask : ∀ k n j, s.lsq.ldq.log.retired ≤ k → s.older[k]? = some n → s.sent ≤ j → j < s.sent + 16 →
    (s.entry k).stMask (Ptr.ofCount 4 j).idx = decide (j < n)
  youngest : ∀ k n, s.lsq.ldq.log.retired ≤ k → s.older[k]? = some n → s.sent < n →
    (s.entry k).stYoungest = (Ptr.ofCount 4 (n - 1)).idx

namespace Older
variable {s : System} {i : Inputs}

theorem fresh (h : Older s) (i : Inputs) : Fresh i s.lsq := fun _ => h.stale _

section Cycle
variable {taken : LdqTag → Bool} {s' : System}

theorem next_stale (h : Older s) (e : System.Cycle taken i s s') (t : LdqTag) : s'.lsq.stale t = 0 := by
  rw [e.stale, Config.staleNext, h.stale t, Nat.zero_sub, ite_self]

theorem next_sent (e : System.Cycle taken i s s') :
    s'.sent = s.sent + (Stq.fireStAccept (stqIn i s.lsq.state) s.lsq.stq.stq).toNat := by
  rw [System.sent, e.stq]
  exact Stq.Queue.next_sent s.lsq.stq (stqIn i s.lsq.state)

theorem next_stores_length (h : Older s) (ok : System.Rules i s) (e : System.Cycle taken i s s') :
    s'.stores.length = s.stores.length + (group (dispatchStqValid i)).length := by
  have hf : (stqIn i s.lsq.state).pipeFlush = false := e.ldq.noFlush
  have hlen := h.unit.stq.next_length ok.lsq.stq.toOkQueue
  rw [hf, if_neg Bool.false_ne_true, Stq.dispatchCnt_eq] at hlen
  rw [System.stores, e.stq]
  exact hlen

/-- The load of a place was there, or is of this cycle's group. -/
theorem next_older (h : Older s) (e : System.Cycle taken i s s') {k n : Nat} (hn : s'.older[k]? = some n) :
    s.older[k]? = some n ∨ ∃ l, s.lsq.ldq.log.loads.length ≤ k ∧
      (group (dispatchLdqValid i))[k - s.lsq.ldq.log.loads.length]? = some l ∧
      n = s.stores.length + rank (dispatchStqValid i) l := by
  rw [e.older] at hn
  by_cases hlt : k < s.older.length
  · rw [List.getElem?_append_left hlt] at hn
    exact .inl hn
  · rw [List.getElem?_append_right (Nat.le_of_not_lt hlt), System.dispatchingOlder, List.getElem?_map] at hn
    obtain ⟨l, hl, rfl⟩ := Option.map_eq_some_iff.1 hn
    rw [h.length] at hl hlt
    exact .inr ⟨l, Nat.le_of_not_lt hlt, hl, rfl⟩

theorem next_le (h : Older s) (ok : System.Rules i s) (e : System.Cycle taken i s s') (k n : Nat)
    (hk : s'.lsq.ldq.log.retired ≤ k) (hn : s'.older[k]? = some n) :
    s'.lsq.stq.log.retired ≤ n ∧ n ≤ s'.stores.length := by
  rw [e.ldq.retired h.unit.ldq.le] at hk
  rw [h.next_stores_length ok e, e.stq]
  have hret := h.unit.stq.retire_le ok.lsq.stq.toOkQueue
  show s.lsq.stq.log.retired + Stq.retireCnt (stqIn i s.lsq.state) ≤ n ∧ _
  rcases h.next_older e hn with hold | ⟨l, _, _, rfl⟩
  · exact ⟨ok.inOrder k n hk hold, Nat.le_trans (h.le k n (by omega) hold).2 (Nat.le_add_right _ _)⟩
  · have := rank_le (dispatchStqValid i) l
    exact ⟨Nat.le_trans hret (Nat.le_add_right _ _), by omega⟩

/-- What the cycle leaves of a mask and a youngest store. -/
theorem next_entry (h : Older s) (ok : System.Rules i s) (e : System.Cycle taken i s s') (k n : Nat)
    (hk : s'.lsq.ldq.log.retired ≤ k) (hn : s'.older[k]? = some n) :
    (∀ j, s.sent ≤ j → j < s.sent + 16 → (s'.entry k).stMask (Ptr.ofCount 4 j).idx =
      (!(Ldq.fireStAccept (ldqIn i s.lsq.state) && (Ptr.ofCount 4 j).idx == s.lsq.stq.stq.fireStStqTag) &&
        decide (j < n))) ∧
    (s.sent < n → (s'.entry k).stYoungest = (Ptr.ofCount 4 (n - 1)).idx) := by
  rw [e.ldq.retired h.unit.ldq.le] at hk
  have hdis := h.unit.ldq.dispatch_le ok.lsq.ldq.toOkQueue
  have hret := h.unit.ldq.retire_le ok.lsq.ldq.toOkQueue
  rcases h.next_older e hn with hold | ⟨l, hge, hl, rfl⟩
  · have hlt := (List.getElem?_eq_some_iff.1 hold).1
    rw [h.length] at hlt
    have hno : Ldq.retires (ldqIn i s.lsq.state) (Ptr.ofCount 4 k).idx = false := by
      rw [h.unit.ldq.retires_eq ok.lsq.ldq.toOkQueue k (by omega), decide_eq_false (by omega)]
    have hsame := h.unit.ldq.allocate_none ok.lsq.ldq.toOkQueue k (by omega) (.inl hlt)
    refine ⟨fun j hj1 hj2 => ?_, fun hlt' => ?_⟩
    · rw [e.ldq.stMask, hno, hsame, Bool.not_false, Bool.true_and]
      exact congrArg _ (h.mask k n j (by omega) hold hj1 hj2)
    · rw [e.ldq.stYoungest, hsame]
      exact h.youngest k n (by omega) hold hlt'
  · have hlt := (List.getElem?_eq_some_iff.1 hl).1
    have hcnt : Ldq.dispatchCnt (ldqIn i s.lsq.state) = (group (dispatchLdqValid i)).length := Ldq.dispatchCnt_eq _
    have hno : Ldq.retires (ldqIn i s.lsq.state) (Ptr.ofCount 4 k).idx = false := by
      rw [h.unit.ldq.retires_eq ok.lsq.ldq.toOkQueue k (by omega), decide_eq_false (by omega)]
    have hnew := h.unit.ldq.allocate_some ok.lsq.ldq.toOkQueue k hge hl
    have hroom := h.unit.stq.dispatch_le ok.lsq.stq.toOkQueue
    rw [Stq.dispatchCnt_eq] at hroom
    refine ⟨fun j hj1 hj2 => ?_, fun hlt' => ?_⟩
    · rw [e.ldq.stMask, hno, hnew, Bool.not_false, Bool.true_and]
      exact congrArg _ (dispatchLdqStMask_eq h.unit.stq.toQueue h.vacant hroom l ⟨hj1, hj2⟩)
    · rw [e.ldq.stYoungest, hnew]
      exact dispatchLdqStYoungest_last h.unit.stq.toQueue h.vacant i hlt'

/-- **Every cycle keeps the windows**, whatever the load queue wakes and takes. -/
theorem cycle (h : Older s) (ok : System.Rules i s) (e : System.Cycle taken i s s') : Older s' where
  unit := h.unit.cycle ok.lsq (h.fresh i) e.toCycle
  stale := h.next_stale e
  vacant := by
    rw [e.stq]
    exact h.unit.stq.next_vacant h.vacant ok.lsq.stq.toOkQueue fun hf =>
      absurd (e.ldq.noFlush.symm.trans hf) Bool.false_ne_true
  length := by
    rw [e.older, List.length_append, System.dispatchingOlder, List.length_map, h.length,
      e.ldq.loads_length h.unit.ldq.le, Ldq.dispatchCnt_eq]
    rfl
  le := h.next_le ok e
  mask := by
    intro k n j hk hn hj1 hj2
    obtain ⟨hmask, _⟩ := h.next_entry ok e k n hk hn
    have hle := (h.next_le ok e k n hk hn).2
    have hstores : s'.stores.length ≤ s.sent + 16 := by
      rw [System.stores, e.stq]
      exact (h.unit.stq.next_bounds ok.lsq.stq.toOkQueue).2.2
    rw [next_sent e] at hj1 hj2
    cases hacc : Stq.fireStAccept (stqIn i s.lsq.state) s.lsq.stq.stq with
    | false =>
      rw [hacc] at hj1 hj2
      have hacc' : Ldq.fireStAccept (ldqIn i s.lsq.state) = false := hacc
      rw [hmask j hj1 hj2, hacc']
      rfl
    | true =>
      have hacc' : Ldq.fireStAccept (ldqIn i s.lsq.state) = true := hacc
      have hreq := (h.unit.stq.request (Bool.and_eq_true_iff.1 hacc).1).2
      have hhead : s.lsq.stq.stq.fireStStqTag = (Ptr.ofCount 4 s.sent).idx := by
        rw [hreq, show s.lsq.stq.stq.headPtr = s.lsq.stq.stq.head.idx from rfl, h.unit.stq.head]
      rw [hacc, Bool.toNat_true] at hj1 hj2
      by_cases hj : j < s.sent + 16
      · have hne : ((Ptr.ofCount 4 j).idx == (Ptr.ofCount 4 s.sent).idx) = false := by
          rw [beq_eq_false_iff_ne]
          intro he
          have := Ptr.idx_inj_window (b := s.sent) (by omega) (by omega) he
          omega
        rw [hmask j (by omega) hj, hacc', hhead, hne]
        rfl
      · have hj' : j = s.sent + 2 ^ 4 := by omega
        have hsame : (Ptr.ofCount 4 j).idx = (Ptr.ofCount 4 s.sent).idx := by
          rw [hj', Ptr.idx_add_ring]
        rw [hsame, hmask s.sent (Nat.le_refl _) (by omega), hacc', hhead, beq_self_eq_true,
          decide_eq_false (by omega : ¬ j < n)]
        rfl
  youngest := by
    intro k n hk hn hlt
    rw [next_sent e] at hlt
    exact (h.next_entry ok e k n hk hn).2 (by omega)

end Cycle

theorem init (m : Mem) : Older (System.init m) where
  unit := Inv.init
  stale := fun _ => rfl
  vacant := Stq.Vacant.init
  length := rfl
  le := fun k n _ hn => by cases hn
  mask := fun k n j _ hn => by cases hn
  youngest := fun k n _ hn => by cases hn

end Older

end R10K.Lsq
