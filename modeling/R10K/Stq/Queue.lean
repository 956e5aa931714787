import R10K.Lib.Slots
import R10K.Stq.Log

/-! The store queue as a queue, whatever is executed.

The three pointers stand at the numbers of stores sent, retired and dispatched; the
slots between are the valid ones, and those before the retired pointer are marked
retired. None of this depends on what execution writes. A flush moves the tail back to
the retired pointer; a store dispatched in the cycle of a flush may leave a slot past
the tail marked valid, but never retired, so no request is ever made for it. -/
namespace R10K.Stq
open Circular Lanes Lsq

def State.head (s : State) : Ptr 4 := ⟨s.headPosBit, s.headPtr⟩
def State.retired (s : State) : Ptr 4 := ⟨s.retiredPosBit, s.retiredPtr⟩
def State.tail (s : State) : Ptr 4 := ⟨s.tailPosBit, s.tailPtr⟩

/-- What ties the pointers and the slots to the log. -/
structure Queue (c : Config) : Prop where
  sent_le : c.log.sent.length ≤ c.log.retired
  retired_le : c.log.retired ≤ c.log.stores.length
  room : c.log.stores.length ≤ c.log.sent.length + 16
  credit : c.ready = true → c.log.stores.length + 4 ≤ c.log.sent.length + 16
  head : c.stq.head = Ptr.ofCount 4 c.log.sent.length
  retired : c.stq.retired = Ptr.ofCount 4 c.log.retired
  tail : c.stq.tail = Ptr.ofCount 4 c.log.stores.length
  tag : ∀ (k : Nat) (r : Store), c.log.stores[k]? = some r → r.tag = (Ptr.ofCount 4 k).idx
  slot : ∀ k, c.log.sent.length ≤ k → k < c.log.stores.length →
    (c.stq.stqEntry (Ptr.ofCount 4 k).idx).entryValid = true ∧
      (c.stq.stqEntry (Ptr.ofCount 4 k).idx).retired = decide (k < c.log.retired)
  free : ∀ k, c.log.stores.length ≤ k → k < c.log.sent.length + 16 →
    (c.stq.stqEntry (Ptr.ofCount 4 k).idx).retired = false
  request : c.stq.fireStValid = true → c.log.sent.length < c.log.retired ∧ c.stq.fireStStqTag = c.stq.headPtr

/-! ### Pointers -/

theorem retireCnt_eq (i : Inputs) : retireCnt i = (group (retiresStore i)).length := by
  rw [group_length, retireCnt]

theorem retireCnt_le (i : Inputs) : retireCnt i ≤ 4 := by
  rw [retireCnt_eq]
  exact group_length_le _

theorem dispatchCnt_eq (i : Inputs) : dispatchCnt i = (group i.dispatchValid).length := by
  rw [group_length, dispatchCnt]

theorem dispatchCnt_le (i : Inputs) : dispatchCnt i ≤ 4 := by
  rw [dispatchCnt_eq]
  exact group_length_le _

/-! ### The log after a cycle -/

/-- The store at place `k` after a cycle. -/
theorem Log.next_get (i : Inputs) (s : State) (l : Log) (hle : l.retired ≤ l.stores.length) (k : Nat) :
    (l.next i s).stores[k]? =
      if k < l.retired then l.stores[k]?
      else if k < l.stores.length then
        if i.pipeFlush = true ∧ l.retired + retireCnt i ≤ k then none
        else l.stores[k]?.map (Store.execute i)
      else if i.pipeFlush then none
      else (dispatching i s)[k - l.stores.length]? := by
  have hlen : (l.stores.take l.retired).length = l.retired := by
    rw [List.length_take]
    omega
  have hlive : l.live.length = l.stores.length - l.retired := List.length_drop
  have hget : l.retired ≤ k → l.live[k - l.retired]? = l.stores[k]? := by
    intro hk
    rw [Log.live, List.getElem?_drop, Nat.add_sub_cancel' hk]
  by_cases h1 : k < l.retired
  · rw [if_pos h1]
    cases hf : i.pipeFlush <;> simp only [Log.next, hf, if_true, if_false, Bool.false_eq_true]
    · rw [List.append_assoc, List.getElem?_append_left (by omega), List.getElem?_take_of_lt h1]
    · rw [List.getElem?_append_left (by omega), List.getElem?_take_of_lt h1]
  · rw [if_neg h1]
    have hget := hget (by omega)
    cases hf : i.pipeFlush <;> simp only [Log.next, hf, if_true, if_false, Bool.false_eq_true,
      false_and, true_and]
    · rw [List.append_assoc, List.getElem?_append_right (by omega), hlen]
      by_cases h2 : k < l.stores.length
      · rw [if_pos h2, List.getElem?_append_left (by rw [List.length_map]; omega), List.getElem?_map, hget]
      · rw [if_neg h2, List.getElem?_append_right (by rw [List.length_map]; omega), List.length_map,
          hlive, show k - l.retired - (l.stores.length - l.retired) = k - l.stores.length by omega]
    · rw [List.getElem?_append_right (by omega), hlen]
      by_cases h2 : k < l.stores.length
      · rw [if_pos h2]
        by_cases h3 : l.retired + retireCnt i ≤ k
        · rw [if_pos h3, List.getElem?_take_eq_none (by omega)]
        · rw [if_neg h3, List.getElem?_take_of_lt (by omega), List.getElem?_map, hget]
      · rw [if_neg h2, List.getElem?_eq_none]
        rw [List.length_take, List.length_map]
        omega

namespace Queue
variable {c : Config} {i : Inputs}

theorem retire_le (hi : Queue c) (ok : OkQueue i c) :
    c.log.retired + retireCnt i ≤ c.log.stores.length := by
  have hle := hi.retired_le
  rcases Nat.eq_zero_or_pos (retireCnt i) with h0 | hpos
  · omega
  · have hlt : retireCnt i - 1 < (group (retiresStore i)).length := by
      rw [← retireCnt_eq]
      omega
    obtain ⟨r, hr, _⟩ := ok.retire (retireCnt i - 1) _ (List.getElem?_eq_getElem hlt)
    have := (List.getElem?_eq_some_iff.1 hr).1
    simp only [Log.live, List.length_drop] at this
    omega

theorem dispatch_le (hi : Queue c) (ok : OkQueue i c) :
    c.log.stores.length + dispatchCnt i ≤ c.log.sent.length + 16 := by
  have hroom := hi.room
  have h4 := dispatchCnt_le i
  rcases Nat.eq_zero_or_pos (dispatchCnt i) with h0 | hpos
  · omega
  · have := hi.credit (ok.ready hpos)
    omega

theorem next_length (hi : Queue c) (ok : OkQueue i c) :
    (c.log.next i c.stq).stores.length =
      if i.pipeFlush then c.log.retired + retireCnt i else c.log.stores.length + dispatchCnt i := by
  have hret := hi.retire_le ok
  cases hf : i.pipeFlush
  · simp only [Log.next, hf, Bool.false_eq_true, if_false, List.length_append, List.length_take,
      List.length_map, Log.live, List.length_drop, dispatching, dispatchCnt_eq]
    omega
  · simp only [Log.next, hf, if_true, List.length_append, List.length_take, List.length_map, Log.live,
      List.length_drop]
    omega

end Queue

/-! ### Pointers after a cycle -/

namespace Queue
variable {c : Config} {i : Inputs}

/-- A request is made for a retired store only. -/
theorem accept_lt (hi : Queue c) (h : fireStAccept i c.stq = true) :
    c.log.sent.length < c.log.retired := by
  rw [fireStAccept, Bool.and_eq_true] at h
  exact (hi.request h.1).1

theorem next_sent (c : Config) (i : Inputs) :
    (c.log.next i c.stq).sent.length = c.log.sent.length + (fireStAccept i c.stq).toNat := by
  simp only [Log.next]
  cases fireStAccept i c.stq <;> simp

/-- `no_retired` compares the counts. -/
theorem noRetired_iff (hi : Queue c) (ok : OkQueue i c) :
    noRetired i c.stq = true ↔ c.log.retired + retireCnt i = c.log.sent.length := by
  have hle := hi.sent_le
  have hret := hi.retire_le ok
  have hroom := hi.room
  have hr : (⟨nextRetiredPosBit i c.stq, nextRetiredPtr i c.stq⟩ : Ptr 4) = _ :=
    advance c.stq.retired c.log.retired _ (retireCnt_le i) hi.retired
  have hpos : nextRetiredPosBit i c.stq = _ := congrArg Ptr.pos hr
  have hidx : nextRetiredPtr i c.stq = _ := congrArg Ptr.idx hr
  have h1 : c.stq.headPtr = (Ptr.ofCount 4 c.log.sent.length).idx := by rw [← hi.head]; rfl
  have h2 : c.stq.headPosBit = (Ptr.ofCount 4 c.log.sent.length).pos := by rw [← hi.head]; rfl
  rw [noRetired, hpos, hidx, h1, h2, Bool.and_eq_true, beq_iff_eq, beq_iff_eq]
  constructor
  · exact fun h => (Ptr.ofCount_inj (w := 4) (by omega) (by omega) (Ptr.ext h.2 h.1)).symm
  · intro h
    rw [h]
    exact ⟨rfl, rfl⟩

theorem next_retired (hi : Queue c) : (Stq.next i c.stq).retired =
    Ptr.ofCount 4 (c.log.retired + retireCnt i) :=
  advance c.stq.retired c.log.retired _ (retireCnt_le i) hi.retired

theorem next_head (hi : Queue c) (ok : OkQueue i c) : (Stq.next i c.stq).head =
    Ptr.ofCount 4 (c.log.sent.length + (fireStAccept i c.stq).toNat) := by
  have hadv := advance c.stq.head c.log.sent.length (fireStAccept i c.stq).toNat
    (Nat.le_trans (Bool.toNat_le _) (by decide)) hi.head
  show (⟨nextHeadPosBit i c.stq, nextHeadPtr i c.stq⟩ : Ptr 4) = _
  by_cases h : (i.pipeFlush && noRetired i c.stq) = true
  · -- with no retired store nothing is accepted either
    have hn := (hi.noRetired_iff ok).1 (Bool.and_eq_true_iff.1 h).2
    have ha : fireStAccept i c.stq = false := by
      cases ha : fireStAccept i c.stq with
      | false => rfl
      | true =>
        have := hi.accept_lt ha
        omega
    rw [nextHeadPosBit, nextHeadPtr, if_pos h, if_pos h, ha]
    exact hi.head
  · have hptr : nextHeadPtr i c.stq = c.stq.headPtr + BitVec.ofNat 4 (fireStAccept i c.stq).toNat := by
      rw [nextHeadPtr, if_neg h]
    rw [nextHeadPosBit, if_neg h, hptr]
    exact hadv

theorem next_tail (hi : Queue c) (ok : OkQueue i c) : (Stq.next i c.stq).tail =
    Ptr.ofCount 4 (c.log.next i c.stq).stores.length := by
  rw [hi.next_length ok]
  have hret : (⟨nextRetiredPosBit i c.stq, nextRetiredPtr i c.stq⟩ : Ptr 4) = _ := hi.next_retired
  have hdead : ((nextRetiredPtr i c.stq).setWidth 16 == BitVec.allOnes 16) = false := by
    have := (nextRetiredPtr i c.stq).isLt
    rw [beq_eq_false_iff_ne]
    intro h
    have := congrArg BitVec.toNat h
    simp only [BitVec.toNat_setWidth, BitVec.toNat_allOnes] at this
    omega
  show (⟨nextTailPosBit i c.stq, nextTailPtr i c.stq⟩ : Ptr 4) = _
  cases hf : i.pipeFlush
  · have hptr : nextTailPtr i c.stq = c.stq.tailPtr + BitVec.ofNat 4 (dispatchCnt i) := by
      rw [nextTailPtr, hf, if_neg Bool.false_ne_true]
    rw [nextTailPosBit, hf, if_neg Bool.false_ne_true, if_neg Bool.false_ne_true, hptr]
    exact advance c.stq.tail c.log.stores.length _ (dispatchCnt_le i) hi.tail
  · rw [nextTailPosBit, nextTailPtr, hf, hdead]
    by_cases hn : noRetired i c.stq = true
    · simp only [hn, if_true, (hi.noRetired_iff ok).1 hn]
      exact hi.head
    · simp only [hn, if_true, if_false, Bool.false_eq_true]
      exact hret

/-! ### Entries after a cycle -/

/-- The retiring slots are those of the oldest stores not retired. -/
theorem updateRetire_eq (hi : Queue c) (ok : OkQueue i c) (k : Nat)
    (hk : c.log.sent.length ≤ k ∧ k < c.log.sent.length + 16) :
    updateRetire i (Ptr.ofCount 4 k).idx =
      (decide (c.log.retired ≤ k) && decide (k < c.log.retired + retireCnt i)) := by
  have hret := hi.retire_le ok
  have hle := hi.sent_le
  have hroom := hi.room
  have htag : ∀ (j : Nat) (l : Lane), (group (retiresStore i))[j]? = some l →
      (i.retirePkt l).stqTag = (Ptr.ofCount 4 (c.log.retired + j)).idx ∧ j < retireCnt i := by
    intro j l hl
    obtain ⟨r, hr, ht⟩ := ok.retire j l hl
    rw [Log.live, List.getElem?_drop] at hr
    refine ⟨ht.trans (hi.tag _ r hr), ?_⟩
    rw [retireCnt_eq]
    exact (List.getElem?_eq_some_iff.1 hl).1
  rw [Bool.eq_iff_iff]
  simp only [updateRetire, List.any_eq_true, Bool.and_eq_true, beq_iff_eq, decide_eq_true_eq]
  constructor
  · rintro ⟨l, _, hslot, hv⟩
    obtain ⟨j, hj⟩ := List.getElem?_of_mem (mem_group.2 hv)
    obtain ⟨ht, hlt⟩ := htag j l hj
    rw [ht] at hslot
    have := Ptr.idx_inj_window (b := c.log.sent.length) (by omega) (by omega) hslot
    omega
  · rintro ⟨h1, h2⟩
    have hlt : k - c.log.retired < (group (retiresStore i)).length := by
      rw [← retireCnt_eq]
      omega
    have hl := List.getElem?_eq_getElem hlt
    refine ⟨_, List.mem_finRange _, ?_, mem_group.1 (List.getElem_mem hlt)⟩
    rw [(htag _ _ hl).1, Nat.add_sub_cancel' h1]

/-- The allocated slots are those from the tail on. -/
theorem allocate_eq (hi : Queue c) (ok : OkQueue i c) (k : Nat)
    (hk : c.log.sent.length ≤ k ∧ k < c.log.sent.length + 16) (e : StqEntry) :
    allocate i c.stq (Ptr.ofCount 4 k).idx e =
      if c.log.stores.length ≤ k ∧ k < c.log.stores.length + dispatchCnt i then
        { e with entryValid := true }
      else e := by
  have hdis := hi.dispatch_le ok
  have hle := hi.sent_le
  have hle' := hi.retired_le
  have htail : c.stq.tailPtr = (Ptr.ofCount 4 c.log.stores.length).idx := by rw [← hi.tail]; rfl
  have hiff : ((List.range (dispatchCnt i)).any fun j =>
      (Ptr.ofCount 4 k).idx == c.stq.tailPtr + BitVec.ofNat 4 j) = true ↔
      c.log.stores.length ≤ k ∧ k < c.log.stores.length + dispatchCnt i := by
    simp only [List.any_eq_true, List.mem_range, htail, ← Ptr.idx_add, beq_iff_eq]
    constructor
    · rintro ⟨j, hj, hslot⟩
      have := Ptr.idx_inj_window (b := c.log.sent.length) (by omega) (by omega) hslot
      omega
    · rintro ⟨h1, h2⟩
      exact ⟨k - c.log.stores.length, by omega, by rw [Nat.add_sub_cancel' h1]⟩
  rw [allocate]
  by_cases h : c.log.stores.length ≤ k ∧ k < c.log.stores.length + dispatchCnt i
  · rw [if_pos (hiff.2 h), if_pos h]
  · rw [if_neg (fun hn => h (hiff.1 hn)), if_neg h]

/-- What happens to the entry of a slot that a flush does not clear and the head does not leave. -/
theorem nextEntry_kept (hi : Queue c) (k : Nat)
    (hk : c.log.sent.length + (fireStAccept i c.stq).toNat ≤ k ∧ k < c.log.sent.length + 16)
    (hkeep : (i.pipeFlush && (c.stq.stqEntry (Ptr.ofCount 4 k).idx).entryValid &&
      !(c.stq.stqEntry (Ptr.ofCount 4 k).idx).retired && !updateRetire i (Ptr.ofCount 4 k).idx) = false) :
    nextEntry i c.stq (Ptr.ofCount 4 k).idx =
      retire i (Ptr.ofCount 4 k).idx (writeData i (Ptr.ofCount 4 k).idx
        (writeAddr i (Ptr.ofCount 4 k).idx
          (allocate i c.stq (Ptr.ofCount 4 k).idx (c.stq.stqEntry (Ptr.ofCount 4 k).idx)))) := by
  have hhead : c.stq.headPtr = (Ptr.ofCount 4 c.log.sent.length).idx := by rw [← hi.head]; rfl
  have hno : ((Ptr.ofCount 4 k).idx == c.stq.headPtr && fireStAccept i c.stq) = false := by
    cases ha : fireStAccept i c.stq with
    | false => rw [Bool.and_false]
    | true =>
      rw [ha, Bool.toNat_true] at hk
      rw [Bool.and_true, beq_eq_false_iff_ne, hhead]
      intro h
      have := Ptr.idx_inj_window (b := c.log.sent.length) (by omega) (by omega) h
      omega
  rw [nextEntry, hkeep, if_neg Bool.false_ne_true, fireMem, hno, if_neg Bool.false_ne_true]

end Queue

theorem writes_retired (i : Inputs) (k : StqTag) (e : StqEntry) :
    (writeData i k (writeAddr i k e)).retired = e.retired := by
  unfold writeData writeAddr
  split <;> split <;> rfl

namespace Queue
variable {c : Config} {i : Inputs}

/-- A store of the next log is a retired one, a live one after its cycle of execution, or
one of this cycle's group; the last two only if no flush drops them. -/
theorem next_store (hi : Queue c) (ok : OkQueue i c) (k : Nat) (r : Store)
    (hr : (c.log.next i c.stq).stores[k]? = some r) :
    (k < c.log.retired ∧ c.log.stores[k]? = some r) ∨
    (c.log.retired ≤ k ∧ (i.pipeFlush = true → k < c.log.retired + retireCnt i) ∧
      ∃ r₀, c.log.stores[k]? = some r₀ ∧ r = r₀.execute i) ∨
    (c.log.stores.length ≤ k ∧ i.pipeFlush = false ∧ ∃ l,
      (group i.dispatchValid)[k - c.log.stores.length]? = some l ∧
        r = { tag := dispatchResp i c.stq l }) := by
  have hret := hi.retire_le ok
  rw [Log.next_get i c.stq c.log hi.retired_le] at hr
  by_cases h1 : k < c.log.retired
  · rw [if_pos h1] at hr
    exact .inl ⟨h1, hr⟩
  · rw [if_neg h1] at hr
    by_cases h2 : k < c.log.stores.length
    · rw [if_pos h2] at hr
      by_cases h3 : i.pipeFlush = true ∧ c.log.retired + retireCnt i ≤ k
      · rw [if_pos h3] at hr
        cases hr
      · rw [if_neg h3] at hr
        obtain ⟨r₀, h₀, rfl⟩ := Option.map_eq_some_iff.1 hr
        exact .inr (.inl ⟨by omega, fun hf => Nat.lt_of_not_le fun h => h3 ⟨hf, h⟩, r₀, h₀, rfl⟩)
    · rw [if_neg h2] at hr
      cases hf : i.pipeFlush
      · rw [hf, if_neg Bool.false_ne_true, dispatching, List.getElem?_map] at hr
        obtain ⟨l, hl, rfl⟩ := Option.map_eq_some_iff.1 hr
        exact .inr (.inr ⟨by omega, rfl, l, hl, rfl⟩)
      · rw [hf, if_pos rfl] at hr
        cases hr

/-- A retired entry anywhere means a retired store at the head. -/
theorem wakeup_lt (hi : Queue c) (k : StqTag) (h : (c.stq.stqEntry k).retired = true) :
    c.log.sent.length < c.log.retired := by
  obtain ⟨m, hm1, hm2, rfl⟩ := Ptr.idx_surj (w := 4) c.log.sent.length k
  have hrl := hi.retired_le
  by_cases hmt : m < c.log.stores.length
  · rw [(hi.slot m hm1 hmt).2, decide_eq_true_eq] at h
    omega
  · rw [hi.free m (by omega) hm2] at h
    cases h

/-! ### One cycle -/

theorem retire_retired (i : Inputs) (k : StqTag) (e : StqEntry) :
    (Stq.retire i k e).retired = (e.retired || updateRetire i k) := by
  unfold Stq.retire
  cases updateRetire i k <;> simp

theorem retire_valid (i : Inputs) (k : StqTag) (e : StqEntry) :
    (Stq.retire i k e).entryValid = e.entryValid := by
  unfold Stq.retire
  split <;> rfl

theorem writes_valid (i : Inputs) (k : StqTag) (e : StqEntry) :
    (writeData i k (writeAddr i k e)).entryValid = e.entryValid := by
  unfold writeData writeAddr
  split <;> split <;> rfl

/-- A slot of the next window: valid, and retired up to the next retired pointer. -/
theorem next_slot (hi : Queue c) (ok : OkQueue i c) (k : Nat)
    (hk : c.log.sent.length + (fireStAccept i c.stq).toNat ≤ k)
    (hlt : k < (c.log.next i c.stq).stores.length) :
    (nextEntry i c.stq (Ptr.ofCount 4 k).idx).entryValid = true ∧
      (nextEntry i c.stq (Ptr.ofCount 4 k).idx).retired = decide (k < c.log.retired + retireCnt i) := by
  have hret := hi.retire_le ok
  have hdis := hi.dispatch_le ok
  have hroom := hi.room
  have hrl := hi.retired_le
  rw [hi.next_length ok] at hlt
  have hlt' : k < c.log.sent.length + 16 := by
    split at hlt <;> omega
  have hup := hi.updateRetire_eq ok k (by omega)
  have hal := hi.allocate_eq ok k (by omega) (c.stq.stqEntry (Ptr.ofCount 4 k).idx)
  by_cases hlive : k < c.log.stores.length
  · obtain ⟨hv, hre⟩ := hi.slot k (by omega) hlive
    have hkeep : (i.pipeFlush && (c.stq.stqEntry (Ptr.ofCount 4 k).idx).entryValid &&
        !(c.stq.stqEntry (Ptr.ofCount 4 k).idx).retired && !updateRetire i (Ptr.ofCount 4 k).idx) = false := by
      cases hf : i.pipeFlush with
      | false => rfl
      | true =>
        rw [hf, if_pos rfl] at hlt
        rw [hv, hre, hup]
        by_cases hr : k < c.log.retired
        · simp [hr]
        · simp [hlt, Nat.le_of_not_lt hr]
    rw [hi.nextEntry_kept k ⟨hk, hlt'⟩ hkeep, hal, if_neg (by omega), retire_valid, writes_valid,
      retire_retired, writes_retired, hv, hre, hup]
    refine ⟨rfl, ?_⟩
    rw [Bool.eq_iff_iff]
    simp only [Bool.or_eq_true, Bool.and_eq_true, decide_eq_true_eq]
    omega
  · have hf : i.pipeFlush = false := by
      cases hf : i.pipeFlush with
      | false => rfl
      | true =>
        rw [hf, if_pos rfl] at hlt
        omega
    rw [hf, if_neg Bool.false_ne_true] at hlt
    have hre := hi.free k (by omega) hlt'
    rw [hi.nextEntry_kept k ⟨hk, hlt'⟩ (by rw [hf]; rfl), hal, if_pos ⟨by omega, hlt⟩, retire_valid,
      writes_valid, retire_retired, writes_retired, hup]
    have hge : ¬ k < c.log.retired + retireCnt i := by omega
    rw [hre, decide_eq_false hge, Bool.and_false]
    exact ⟨rfl, rfl⟩

/-- A slot outside the next window keeps, or was cleared of, what it was. -/
theorem next_outside (hi : Queue c) (ok : OkQueue i c) (k : Nat) (hn : c.log.sent.length ≤ k)
    (hk : c.log.retired + retireCnt i ≤ k) (ht : (c.log.next i c.stq).stores.length ≤ k)
    (hlt : k < c.log.sent.length + (fireStAccept i c.stq).toNat + 16) :
    ((nextEntry i c.stq (Ptr.ofCount 4 k).idx).retired = false ∧
      (nextEntry i c.stq (Ptr.ofCount 4 k).idx).entryValid = false ∧
      (nextEntry i c.stq (Ptr.ofCount 4 k).idx).addrValid = false ∧
      (nextEntry i c.stq (Ptr.ofCount 4 k).idx).dataValid = false) ∨
    (c.log.stores.length ≤ k ∧ k < c.log.sent.length + 16 ∧
      nextEntry i c.stq (Ptr.ofCount 4 k).idx = writeData i (Ptr.ofCount 4 k).idx
        (writeAddr i (Ptr.ofCount 4 k).idx
          (allocate i c.stq (Ptr.ofCount 4 k).idx (c.stq.stqEntry (Ptr.ofCount 4 k).idx)))) := by
  have hsl := hi.sent_le
  have hrl := hi.retired_le
  rw [hi.next_length ok] at ht
  by_cases hwin : k < c.log.sent.length + 16
  · have hup : updateRetire i (Ptr.ofCount 4 k).idx = false := by
      have hge : ¬ k < c.log.retired + retireCnt i := by omega
      rw [hi.updateRetire_eq ok k ⟨hn, hwin⟩, decide_eq_false hge, Bool.and_false]
    have hn' : c.log.sent.length + (fireStAccept i c.stq).toNat ≤ k := by
      cases ha : fireStAccept i c.stq with
      | false => simpa using hn
      | true =>
        have := hi.accept_lt ha
        rw [Bool.toNat_true]
        omega
    by_cases hclear : (i.pipeFlush && (c.stq.stqEntry (Ptr.ofCount 4 k).idx).entryValid &&
        !(c.stq.stqEntry (Ptr.ofCount 4 k).idx).retired && !updateRetire i (Ptr.ofCount 4 k).idx) = true
    · rw [nextEntry, if_pos hclear]
      exact .inl ⟨rfl, rfl, rfl, rfl⟩
    · rw [Bool.not_eq_true] at hclear
      -- a live store past the retired ones is cleared, so this slot was free
      have hkt : c.log.stores.length ≤ k := by
        by_contra hlt'
        obtain ⟨hv, hre⟩ := hi.slot k hn (by omega)
        cases hf : i.pipeFlush
        · rw [hf, if_neg Bool.false_ne_true] at ht
          omega
        · have hge : ¬ k < c.log.retired := by omega
          rw [hv, hre, hup, hf, decide_eq_false hge] at hclear
          cases hclear
      refine .inr ⟨hkt, hwin, ?_⟩
      rw [hi.nextEntry_kept k ⟨hn', hwin⟩ hclear, Stq.retire, hup, if_neg Bool.false_ne_true]
  · -- the slot the head has just left
    have ha : fireStAccept i c.stq = true := by
      cases ha : fireStAccept i c.stq with
      | true => rfl
      | false =>
        rw [ha, Bool.toNat_false] at hlt
        omega
    have hkn : k = c.log.sent.length + 2 ^ 4 := by
      rw [ha, Bool.toNat_true] at hlt
      omega
    have hlt' := hi.accept_lt ha
    have hre := (hi.slot _ (Nat.le_refl _) (by omega)).2
    have hhead : c.stq.headPtr = (Ptr.ofCount 4 c.log.sent.length).idx := by rw [← hi.head]; rfl
    rw [decide_eq_true hlt'] at hre
    rw [hkn, Ptr.idx_add_ring, nextEntry, hre, Bool.not_true, Bool.and_false, Bool.false_and,
      if_neg Bool.false_ne_true, fireMem, ← hhead, beq_self_eq_true, Bool.true_and, ha, if_pos rfl]
    exact .inl ⟨rfl, rfl, rfl, rfl⟩

theorem allocate_retired (i : Inputs) (s : State) (k : StqTag) (e : StqEntry) :
    (allocate i s k e).retired = e.retired := by
  unfold allocate
  split <;> rfl

/-- What is accepted is retired, and the next window fits in the ring. -/
theorem next_bounds (hi : Queue c) (ok : OkQueue i c) :
    c.log.sent.length + (fireStAccept i c.stq).toNat ≤ c.log.retired ∧
      c.log.retired + retireCnt i ≤ (c.log.next i c.stq).stores.length ∧
      (c.log.next i c.stq).stores.length ≤ c.log.sent.length + 16 := by
  have hret := hi.retire_le ok
  have hdis := hi.dispatch_le ok
  have hroom := hi.room
  have hrl := hi.retired_le
  rw [hi.next_length ok]
  refine ⟨?_, ?_, ?_⟩
  · cases ha : fireStAccept i c.stq with
    | false => simpa using hi.sent_le
    | true => exact hi.accept_lt ha
  · split <;> omega
  · split <;> omega

/-- Every cycle keeps the queue. -/
theorem next (hi : Queue c) (ok : OkQueue i c) : Queue (c.next i) := by
  obtain ⟨hacc, hnl1, hnl2⟩ := hi.next_bounds ok
  have hns := next_sent c i
  have hnew := hi.next_store ok
  refine ⟨?_, hnl1, ?_, ?_, ?_, hi.next_retired, hi.next_tail ok, ?_, ?_, ?_, ?_⟩
  · simp only [Config.next, hns]
    show _ ≤ c.log.retired + retireCnt i
    omega
  · simp only [Config.next, hns]
    omega
  · intro hr
    simp only [Config.next, dispatchReady] at hr
    have hh := hi.next_head ok
    have ht := hi.next_tail ok
    have hp1 : nextHeadPosBit i c.stq = _ := congrArg Ptr.pos hh
    have hp2 : nextTailPosBit i c.stq = _ := congrArg Ptr.pos ht
    have hx1 : nextHeadPtr i c.stq = _ := congrArg Ptr.idx hh
    have hx2 : nextTailPtr i c.stq = _ := congrArg Ptr.idx ht
    rw [hp1, hp2, hx1, hx2, ready_iff (by omega) (by omega)] at hr
    simp only [Config.next, hns]
    omega
  · simp only [Config.next, hns]
    exact hi.next_head ok
  · intro k r hr
    rcases hnew k r hr with ⟨_, h⟩ | ⟨_, _, r₀, h, rfl⟩ | ⟨hk, _, l, hl, rfl⟩
    · exact hi.tag k r h
    · exact hi.tag k r₀ h
    · have hv := mem_group.1 (List.mem_of_getElem? hl)
      have htail : c.stq.tailPtr = (Ptr.ofCount 4 c.log.stores.length).idx := by rw [← hi.tail]; rfl
      simp only [dispatchResp, hv, if_true, rank_eq hl, htail]
      rw [← Ptr.idx_add, Nat.add_sub_cancel' hk]
  · intro k hk hlt
    simp only [Config.next, hns] at hk
    exact hi.next_slot ok k hk hlt
  · intro k hk hlt
    have hk' : (c.log.next i c.stq).stores.length ≤ k := hk
    simp only [Config.next, hns] at hlt
    rcases hi.next_outside ok k (by omega) (by omega) hk hlt with h | ⟨hkt, hwin, heq⟩
    · exact h.1
    · show (nextEntry i c.stq (Ptr.ofCount 4 k).idx).retired = false
      rw [heq, writes_retired, allocate_retired]
      exact hi.free k hkt hwin
  · intro hv
    simp only [Config.next, Stq.next, Bool.and_eq_true, Bool.not_eq_true', decide_eq_true_eq] at hv
    obtain ⟨hf, m, hm⟩ := hv
    simp only [stWakeup, Bool.and_eq_true, Bool.not_eq_true'] at hm
    obtain ⟨⟨_, hre⟩, ha⟩ := hm
    have hlt := hi.wakeup_lt m hre
    simp only [Config.next, hns, ha, Bool.toNat_false, Nat.add_zero]
    refine ⟨Nat.lt_of_lt_of_le hlt (Nat.le_add_right _ _), ?_⟩
    show c.stq.headPtr = nextHeadPtr i c.stq
    rw [nextHeadPtr, hf, Bool.false_and, if_neg Bool.false_ne_true, ha, Bool.toNat_false]
    exact (BitVec.add_zero _).symm

theorem init : Queue Config.init := by
  refine ⟨Nat.le_refl _, Nat.le_refl _, by decide, fun _ => by decide, rfl, rfl, rfl, ?_, ?_,
    fun _ _ _ => rfl, fun h => ?_⟩
  · intro k r hr
    cases hr
  · intro k _ hk
    cases hk
  · cases h

end Queue

/-- The slots of the live stores after a cycle. -/
theorem Log.live_next (i : Inputs) (s : State) (l : Log) (hle : l.retired + retireCnt i ≤ l.stores.length) :
    (l.next i s).live.map Store.tag =
      if i.pipeFlush then []
      else (l.live.map Store.tag).drop (retireCnt i) ++ (group i.dispatchValid).map (dispatchResp i s) := by
  have hlen : (l.stores.take l.retired).length = l.retired := by
    rw [List.length_take]
    omega
  have htag : (l.live.map (Store.execute i)).map Store.tag = l.live.map Store.tag := by
    rw [List.map_map]
    rfl
  have hdisp : (dispatching i s).map Store.tag = (group i.dispatchValid).map (dispatchResp i s) := by
    rw [dispatching, List.map_map]
    rfl
  have hlive : l.live.length = l.stores.length - l.retired := List.length_drop
  cases hf : i.pipeFlush
  · simp only [Log.live, Log.next, hf, Bool.false_eq_true, if_false]
    rw [← Log.live, List.append_assoc, List.drop_append, hlen, Nat.add_sub_cancel_left,
      List.drop_eq_nil_of_le (by omega), List.nil_append,
      List.drop_append_of_le_length (by rw [List.length_map]; omega), List.map_append, List.map_drop, htag, hdisp]
  · simp only [Log.live, Log.next, hf, if_true]
    rw [List.drop_eq_nil_of_le, List.map_nil]
    rw [List.length_append, List.length_take, List.length_take]
    omega

/-! ### Free slots -/

/-- The slots past the tail are free. This may fail after a flush in whose cycle a store
was dispatched. -/
def Vacant (c : Config) : Prop :=
  ∀ k, c.log.stores.length ≤ k → k < c.log.sent.length + 16 →
    (c.stq.stqEntry (Ptr.ofCount 4 k).idx).entryValid = false

theorem Vacant.init : Vacant Config.init := fun _ _ _ => rfl

namespace Queue
variable {c : Config} {i : Inputs}

/-- The slot of a store in the queue. -/
theorem queued (hi : Queue c) {m : Nat} (hm : c.log.sent.length ≤ m) (hlive : m < c.log.stores.length) :
    ∃ r ∈ c.log.stores.drop c.log.sent.length, r.tag = (Ptr.ofCount 4 m).idx := by
  have hget := List.getElem?_eq_getElem hlive
  refine ⟨c.log.stores[m], List.mem_drop_iff_getElem.mpr ?_, hi.tag m _ hget⟩
  refine ⟨m - c.log.sent.length, by omega, ?_⟩
  simp only [Nat.add_sub_cancel' hm]

theorem next_vacant (hi : Queue c) (hv : Vacant c) (ok : OkQueue i c)
    (hquiet : i.pipeFlush = true → dispatchCnt i = 0) : Vacant (c.next i) := by
  intro k hk hlt
  obtain ⟨hacc, hret, hroom⟩ := hi.next_bounds ok
  have hk' : (c.log.next i c.stq).stores.length ≤ k := hk
  simp only [Config.next, next_sent] at hlt
  rcases hi.next_outside ok k (by omega) (by omega) hk' hlt with h | ⟨hkt, hwin, heq⟩
  · exact h.2.1
  · show (nextEntry i c.stq (Ptr.ofCount 4 k).idx).entryValid = false
    have hnone : ¬ (c.log.stores.length ≤ k ∧ k < c.log.stores.length + dispatchCnt i) := by
      rw [hi.next_length ok] at hk'
      cases hf : i.pipeFlush with
      | true =>
        rw [hquiet hf]
        omega
      | false =>
        rw [hf, if_neg Bool.false_ne_true] at hk'
        omega
    rw [heq, writes_valid, hi.allocate_eq ok k (by omega), if_neg hnone]
    exact hv k hkt hwin

theorem dispatch_slot (hi : Queue c) (j : Nat) (l : Lane) (hl : (group i.dispatchValid)[j]? = some l) :
    dispatchResp i c.stq l = (Ptr.ofCount 4 (c.log.stores.length + j)).idx := by
  have htail : c.stq.tailPtr = (Ptr.ofCount 4 c.log.stores.length).idx := by rw [← hi.tail]; rfl
  rw [dispatchResp, mem_group.1 (List.mem_of_getElem? hl), if_pos rfl, rank_eq hl, htail, Ptr.idx_add]

/-- Every dispatched store has a free slot of its own. -/
theorem ownSlots (hi : Queue c) (hv : Vacant c) (ok : OkQueue i c) :
    OwnSlots i.dispatchValid (dispatchResp i c.stq) fun k => (c.stq.stqEntry k).entryValid := by
  have hle := hi.dispatch_le ok
  have h4 := dispatchCnt_le i
  rw [dispatchCnt_eq] at hle h4
  exact OwnSlots.ring hi.dispatch_slot (by omega) fun j hj => hv _ (by omega) (by omega)

/-- No valid entry is overwritten. -/
theorem allocate_valid (hi : Queue c) (hv : Vacant c) (ok : OkQueue i c) {k : StqTag}
    (hk : (c.stq.stqEntry k).entryValid = true) (e : StqEntry) : allocate i c.stq k e = e := by
  obtain ⟨m, hm1, hm2, rfl⟩ := Ptr.idx_surj (w := 4) c.log.sent.length k
  rw [hi.allocate_eq ok m ⟨hm1, hm2⟩, if_neg]
  rintro ⟨hge, _⟩
  rw [hv m hge hm2] at hk
  cases hk

/-- Without a flush every dispatched store is in its slot in the next cycle. -/
theorem dispatched (hi : Queue c) (ok : OkQueue i c) (hf : i.pipeFlush = false) (l : Lane)
    (hl : i.dispatchValid l = true) :
    ((Stq.next i c.stq).stqEntry (dispatchResp i c.stq l)).entryValid = true := by
  obtain ⟨j, hj⟩ := List.getElem?_of_mem (mem_group.2 hl)
  have hlt := (List.getElem?_eq_some_iff.1 hj).1
  rw [← dispatchCnt_eq] at hlt
  obtain ⟨hacc, _, _⟩ := hi.next_bounds ok
  have hrl := hi.retired_le
  have hlen := hi.next_length ok
  rw [hf, if_neg Bool.false_ne_true] at hlen
  rw [hi.dispatch_slot j l hj]
  exact (hi.next_slot ok _ (by omega) (by omega)).1

end Queue

end R10K.Stq
