import R10K.Stq.Queue

/-! The valid bits of the store queue against its pointers.

Between the pointers lie the stores of the queue, so the valid bits ought to mark the
slots from head to tail, and the retired bits those from head to the retired pointer.
They do as long as no store is dispatched in the cycle of a flush: the flush rolls the
tail back and clears the entries that were valid, but the slots of that cycle's group
become valid all the same, past the new tail. -/
namespace R10K.Stq
open Circular Lanes Lsq

/-- The valid and the retired bits mark their windows, and the mask given to loads names
stores of the queue. -/
structure Matches (c : Config) : Prop where
  valid (k : StqTag) : (c.stq.stqEntry k).entryValid = Ptr.inWindow c.stq.head c.stq.tail k
  retired (k : StqTag) : (c.stq.stqEntry k).retired = Ptr.inWindow c.stq.head c.stq.retired k
  mask (k : StqTag) : dispatchStMask c.stq k = true →
    ∃ r ∈ c.log.stores.drop c.log.sent.length, r.tag = k

/-- No store is dispatched in the cycle of a flush. -/
def Quiet (i : Inputs) : Prop := i.pipeFlush = true → dispatchCnt i = 0

/-- Besides the rules of the queue, no store is dispatched in the cycle of a flush. -/
structure OkQuiet (i : Inputs) (c : Config) : Prop extends OkQueue i c where
  quiet : Quiet i

namespace Queue
variable {c : Config} {i : Inputs}

/-- The retired bits mark their window whatever happens past the tail. -/
theorem retired_inWindow (hi : Queue c) (k : StqTag) :
    (c.stq.stqEntry k).retired = Ptr.inWindow c.stq.head c.stq.retired k := by
  have hsl := hi.sent_le
  have hrl := hi.retired_le
  have hroom := hi.room
  obtain ⟨m, hm1, hm2, rfl⟩ := Ptr.idx_surj (w := 4) c.log.sent.length k
  have hwin := Ptr.inWindow_iff (w := 4) hsl (by omega) m ⟨hm1, hm2⟩
  rw [hi.head, hi.retired, Bool.eq_iff_iff, hwin]
  by_cases hlive : m < c.log.stores.length
  · rw [(hi.slot m hm1 hlive).2, decide_eq_true_eq]
  · rw [hi.free m (by omega) hm2]
    simp only [Bool.false_eq_true, false_iff]
    omega

/-- The valid bits mark their window exactly if the slots past the tail are free. -/
theorem matches_iff (hi : Queue c) : Matches c ↔ Vacant c := by
  have hsl := hi.sent_le
  have hrl := hi.retired_le
  have hroom := hi.room
  have hwin : ∀ m, c.log.sent.length ≤ m → m < c.log.sent.length + 16 →
      (Ptr.inWindow c.stq.head c.stq.tail (Ptr.ofCount 4 m).idx = true ↔ m < c.log.stores.length) := by
    intro m hm1 hm2
    rw [hi.head, hi.tail]
    exact Ptr.inWindow_iff (w := 4) (by omega) (by omega) m ⟨hm1, hm2⟩
  constructor
  · intro h m hm1 hm2
    rw [h.valid, ← Bool.not_eq_true, hwin m (by omega) hm2]
    omega
  · intro hv
    refine ⟨fun k => ?_, hi.retired_inWindow, fun k hk => ?_⟩
    · obtain ⟨m, hm1, hm2, rfl⟩ := Ptr.idx_surj (w := 4) c.log.sent.length k
      rw [Bool.eq_iff_iff, hwin m hm1 hm2]
      by_cases hlive : m < c.log.stores.length
      · simp only [(hi.slot m hm1 hlive).1, hlive]
      · simp only [hv m (by omega) hm2, hlive, Bool.false_eq_true]
    · obtain ⟨m, hm1, hm2, rfl⟩ := Ptr.idx_surj (w := 4) c.log.sent.length k
      have hlive : m < c.log.stores.length := by
        by_contra hge
        have := hv m (by omega) hm2
        rw [dispatchStMask, this] at hk
        cases hk
      exact hi.queued hm1 hlive

/-- A store dispatched in the cycle of a flush leaves its slot valid past the tail. -/
theorem flush_leaves (hi : Queue c) (hv : Vacant c) (ok : OkQueue i c) (hf : i.pipeFlush = true)
    (hd : 0 < dispatchCnt i) : ¬ Vacant (c.next i) := by
  intro h
  obtain ⟨hacc, hret, hroom⟩ := hi.next_bounds ok
  have hdis := hi.dispatch_le ok
  have hrl := hi.retired_le
  have hret' := hi.retire_le ok
  have hlen := hi.next_length ok
  rw [hf, if_pos rfl] at hlen
  have hfree := hv c.log.stores.length (Nat.le_refl _) (by omega)
  have hkept := hi.nextEntry_kept (i := i) c.log.stores.length (by omega) (by simp [hfree])
  have hnext := h c.log.stores.length (by simp only [Config.next]; omega)
    (by simp only [Config.next, next_sent]; omega)
  simp only [Config.next, Stq.next] at hnext
  rw [hkept, retire_valid, writes_valid, hi.allocate_eq ok _ (by omega), if_pos (by omega)] at hnext
  cases hnext

/-- From a queue whose bits match, one cycle keeps them so exactly if it is quiet. -/
theorem next_vacant_iff (hi : Queue c) (hv : Vacant c) (ok : OkQueue i c) :
    Vacant (c.next i) ↔ Quiet i := by
  constructor
  · intro h hf
    by_contra hd
    exact hi.flush_leaves hv ok hf (by omega) h
  · exact hi.next_vacant hv ok

end Queue

/-- What runs keep. -/
theorem queue_vacant {c : Config} (h : Run.Reach Config.next OkQuiet Config.init c) :
    Queue c ∧ Vacant c :=
  h.invariant (fun c => Queue c ∧ Vacant c) ⟨.init, .init⟩ fun _ _ hi ok =>
    ⟨hi.1.next ok.toOkQueue, hi.1.next_vacant hi.2 ok.toOkQueue ok.quiet⟩

/-- **While no store is dispatched in the cycle of a flush, the valid bits match the window
and name stores of the queue; the next cycle keeps this exactly if it does the same.** -/
theorem window_matches {c : Config} (h : Run.Reach Config.next OkQuiet Config.init c) :
    Matches c ∧ ∀ i, OkQueue i c → (Matches (c.next i) ↔ Quiet i) := by
  obtain ⟨hi, hv⟩ := queue_vacant h
  refine ⟨hi.matches_iff.mpr hv, fun i ok => ?_⟩
  rw [(hi.next ok).matches_iff]
  exact hi.next_vacant_iff hv ok

/-! A flush that drops two of three stores, and a store dispatched in the cycle of a flush. -/

instance (i : Inputs) (c : Config) : Decidable (OkQuiet i c) :=
  decidable_of_iff (OkQueue i c ∧ (i.pipeFlush = true → dispatchCnt i = 0))
    ⟨fun h => ⟨h.1, h.2⟩, fun h => ⟨h.toOkQueue, h.quiet⟩⟩

/-- Three stores, the first of which retires before the flush, and one after it. -/
def windowRun : Config :=
  [{ idle with dispatchValid := fun l => decide (l < 3) },
    { idle with retirePkt := fun l => { wrMem := true, packetValid := decide (l = 0) } },
    { idle with pipeFlush := true }, { idle with dispatchValid := fun l => l == 0 }].foldl (fun c i => c.next i) .init

theorem window_matches_flush : windowRun.log.stores.length = 2 ∧ Matches windowRun ∧
    ∀ i, OkQueue i windowRun → (Matches (windowRun.next i) ↔ Quiet i) := by
  obtain ⟨hmatches, hnext⟩ := window_matches (c := windowRun) (.of_keeps _ .init (by decide +kernel))
  exact ⟨by decide +kernel, hmatches, hnext⟩

def dispatchOne : Inputs := { idle with dispatchValid := fun l => l == 0 }

theorem dispatchOne_ok : OkQueue { dispatchOne with pipeFlush := true } Config.init := by decide

/-- The slot of a store dispatched in the cycle of a flush is valid in an empty queue. -/
theorem flushed_slot_valid :
    ¬ ∀ c, Run.Reach Config.next OkQueue Config.init c → Matches c := by
  intro h
  have hm := h _ (.step { dispatchOne with pipeFlush := true } .init dispatchOne_ok)
  have := hm.valid 0
  revert this
  decide

end R10K.Stq
