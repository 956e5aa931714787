import R10K.Lsq.Older
import R10K.Stq.Window

/-! What a dispatched load is told of the stores before it.

`lsq.sv` derives the slot of the last store before a lane from the tail of the store
queue, by two formulas, and the mask from these slots; the queue itself answers the slot
of each store. Both are read here against one list: the slots of the stores before a
lane in program order. -/
namespace R10K.Lsq
open Circular Lanes

/-- The slots of the stores before a lane: those of the queue, then those of the lanes
before it as they were answered. -/
def olderSlots (i : Inputs) (c : Config) (l : Lane) : List StqTag :=
  (c.stq.log.stores.drop c.stq.log.sent.length).map Stq.Store.tag ++
    ((group (dispatchStqValid i)).filter fun m => m < l).map (dispatchStqResp i c.state)

/-- The record of a load: its mask holds the stores before it but for the one accepted in
the same cycle, and its youngest store is the last of them. -/
structure Records (i : Inputs) (c : Config) (l : Lane) : Prop where
  mask (t : StqTag) :
    ((Ldq.next (ldqIn i c.state) c.ldq.ldq).ldqEntry (dispatchLdqResp i c.state l)).stMask t = true ↔
      t ∈ olderSlots i c l ∧
        ¬ (Stq.fireStAccept (stqIn i c.state) c.stq.stq = true ∧ t = c.stq.stq.fireStStqTag)
  youngest (t : StqTag) : (olderSlots i c l).getLast? = some t →
    ((Ldq.next (ldqIn i c.state) c.ldq.ldq).ldqEntry (dispatchLdqResp i c.state l)).stYoungest = t

section
variable {c : Config} {i : Inputs}

/-- The slots are those of the counts from the first store not sent on. -/
theorem olderSlots_eq (h : Stq.Queue c.stq) (l : Lane) : olderSlots i c l =
    (List.range' c.stq.log.sent.length
      (c.stq.log.stores.length + rank (dispatchStqValid i) l - c.stq.log.sent.length)).map
        fun j => (Ptr.ofCount 4 j).idx := by
  have hsl := h.sent_le
  have hrl := h.retired_le
  have hqueue : (c.stq.log.stores.drop c.stq.log.sent.length).map Stq.Store.tag =
      (List.range' c.stq.log.sent.length (c.stq.log.stores.length - c.stq.log.sent.length)).map
        fun j => (Ptr.ofCount 4 j).idx := by
    apply List.ext_getElem
    · simp
    · intro j h1 h2
      have hlt : c.stq.log.sent.length + j < c.stq.log.stores.length := by
        simp only [List.length_map, List.length_drop] at h1
        omega
      simp only [List.getElem_map, List.getElem_drop, List.getElem_range', Nat.one_mul]
      exact h.tag _ _ (List.getElem?_eq_getElem hlt)
  have hgroup : ((group (dispatchStqValid i)).filter fun m => m < l).map (dispatchStqResp i c.state) =
      (List.range' c.stq.log.stores.length (rank (dispatchStqValid i) l)).map
        fun j => (Ptr.ofCount 4 j).idx := by
    have hrank := rank_le (dispatchStqValid i) l
    rw [group_before]
    apply List.ext_getElem
    · simp only [List.length_map, List.length_take, List.length_range']
      omega
    · intro j h1 h2
      simp only [List.length_map, List.length_take] at h1
      simp only [List.getElem_map, List.getElem_take, List.getElem_range', Nat.one_mul]
      have hget : (group (dispatchStqValid i))[j]? = some _ := List.getElem?_eq_getElem (by omega)
      exact h.dispatch_slot (i := stqIn i c.state) j _ hget
  rw [olderSlots, hqueue, hgroup, ← List.map_append]
  congr 1
  rw [show c.stq.log.stores.length + rank (dispatchStqValid i) l - c.stq.log.sent.length =
    (c.stq.log.stores.length - c.stq.log.sent.length) + rank (dispatchStqValid i) l by omega,
    ← List.range'_append_1, Nat.add_sub_cancel' (by omega)]

theorem mem_olderSlots (h : Stq.Queue c.stq) (l : Lane) {j : Nat}
    (hroom : c.stq.log.stores.length + (group (dispatchStqValid i)).length ≤ c.stq.log.sent.length + 16)
    (hj : c.stq.log.sent.length ≤ j ∧ j < c.stq.log.sent.length + 16) :
    (Ptr.ofCount 4 j).idx ∈ olderSlots i c l ↔ j < c.stq.log.stores.length + rank (dispatchStqValid i) l := by
  have hrank := rank_le (dispatchStqValid i) l
  rw [olderSlots_eq h, List.mem_map]
  simp only [List.mem_range'_1]
  constructor
  · intro hex
    obtain ⟨j', hj', he⟩ := hex
    have := Ptr.idx_inj_window (b := c.stq.log.sent.length) (by omega) (by omega) he
    omega
  · intro hlt
    exact ⟨j, by omega, rfl⟩

theorem getLast_olderSlots (h : Stq.Queue c.stq) (l : Lane) {t : StqTag}
    (ht : (olderSlots i c l).getLast? = some t) :
    c.stq.log.sent.length < c.stq.log.stores.length + rank (dispatchStqValid i) l ∧
      t = (Ptr.ofCount 4 (c.stq.log.stores.length + rank (dispatchStqValid i) l - 1)).idx := by
  rw [olderSlots_eq h, List.getLast?_map, List.getLast?_range'] at ht
  obtain ⟨j, hj, rfl⟩ := Option.map_eq_some_iff.mp ht
  split at hj
  · cases hj
  · rename_i hne
    have hlast := Option.some.inj hj
    exact ⟨by omega, by rw [← hlast]; congr 2; omega⟩

theorem records (hq : Stq.Queue c.stq) (hv : Stq.Vacant c.stq) (hl : Ldq.Queue c.ldq)
    (okS : Stq.OkQueue (stqIn i c.state) c.stq) (okL : Ldq.OkQueue (ldqIn i c.state) c.ldq)
    (hf : i.pipeFlush = false) {l : Lane} (hd : dispatchLdqValid i l = true) : Records i c l := by
  have hroom := hq.dispatch_le okS
  rw [Stq.dispatchCnt_eq] at hroom
  have hrank := group_rank hd
  -- the load's place in the load queue, and what allocation writes there
  have hlt := (List.getElem?_eq_some_iff.1 hrank).1
  have hret := hl.retire_le okL
  have hfit := hl.dispatch_le okL
  have hcnt : Ldq.dispatchCnt (ldqIn i c.state) = (group (dispatchLdqValid i)).length := Ldq.dispatchCnt_eq _
  have hslot : dispatchLdqResp i c.state l =
      (Ptr.ofCount 4 (c.ldq.log.loads.length + rank (dispatchLdqValid i) l)).idx :=
    hl.dispatch_slot (i := ldqIn i c.state) _ l hrank
  have hnew := hl.allocate_some okL (c.ldq.log.loads.length + rank (dispatchLdqValid i) l)
    (Nat.le_add_right _ _) (by rw [Nat.add_sub_cancel_left]; exact hrank)
  have hno : Ldq.retires (ldqIn i c.state)
      (Ptr.ofCount 4 (c.ldq.log.loads.length + rank (dispatchLdqValid i) l)).idx = false := by
    rw [hl.retires_eq okL _ (by omega), decide_eq_false (by omega)]
  rw [← hslot] at hnew hno
  constructor
  · intro t
    show (Ldq.nextEntry _ _ _).stMask t = true ↔ _
    obtain ⟨j, hj1, hj2, rfl⟩ := Ptr.idx_surj (w := 4) c.stq.log.sent.length t
    rw [mem_olderSlots hq l hroom ⟨hj1, hj2⟩, Ldq.nextEntry_stMask _ _ hf, hno, hnew, Bool.not_false,
      Bool.true_and]
    show (!(Stq.fireStAccept (stqIn i c.state) c.stq.stq && (Ptr.ofCount 4 j).idx == c.stq.stq.fireStStqTag) &&
      dispatchLdqStMask i c.state l (Ptr.ofCount 4 j).idx) = true ↔ _
    rw [dispatchLdqStMask_eq hq hv hroom l ⟨hj1, hj2⟩, Bool.and_eq_true, decide_eq_true_eq, Bool.not_eq_true',
      ← Bool.not_eq_true, Bool.and_eq_true, beq_iff_eq]
    exact and_comm
  · intro t ht
    obtain ⟨hlt', rfl⟩ := getLast_olderSlots hq l ht
    show (Ldq.nextEntry _ _ _).stYoungest = _
    rw [Ldq.nextEntry_stYoungest _ _ hf, hnew]
    exact dispatchLdqStYoungest_last hq hv i hlt'

end

/-- **A dispatched load is recorded with exactly the stores before it**, from every state of
the two queues in which the valid bits of the store queue match its window. -/
theorem dispatch_records {c : Config} {i : Inputs}
    (hstq : Run.Reach Stq.Config.next Stq.OkQueue Stq.Config.init c.stq) (hm : Stq.Matches c.stq)
    (hldq : Run.Reach Ldq.Config.next Ldq.OkQueue Ldq.Config.init c.ldq)
    (okS : Stq.OkQueue (stqIn i c.state) c.stq) (okL : Ldq.OkQueue (ldqIn i c.state) c.ldq)
    (hf : i.pipeFlush = false) (l : Lane) (hd : dispatchLdqValid i l = true) : Records i c l := by
  have hq := hstq.invariant Stq.Queue .init fun _ _ h ok => h.next ok
  have hl := hldq.invariant Ldq.Queue .init fun _ _ h ok => h.next ok
  exact records hq (hq.matches_iff.mp hm) hl okS okL hf hd

/-- A store and a load behind it, dispatched to empty queues. -/
def storeLoad : Inputs where
  pipeFlush := false
  dispatchPkt := fun l => { rdMem := l == 1, wrMem := l == 0, packetValid := decide (l ≤ 1) }
  executePkt := {}
  retirePkt := fun _ => {}
  fireStReady := false
  fireLdReady := false
  dcacheData := 0
  dcacheLdqTag := 0
  dcacheValid := false
  writebackReady := false

theorem dispatch_records_storeLoad : Records storeLoad Config.init 1 := by
  have hstq : Run.Reach Stq.Config.next Stq.OkQueue Stq.Config.init Config.init.stq := .init
  have hm : Stq.Matches Config.init.stq := Stq.Queue.init.matches_iff.mpr .init
  have hldq : Run.Reach Ldq.Config.next Ldq.OkQueue Ldq.Config.init Config.init.ldq := .init
  have hnoStore : group (Stq.retiresStore (stqIn storeLoad Config.init.state)) = [] := rfl
  have hnoLoad : group (Ldq.retiresLoad (ldqIn storeLoad Config.init.state)) = [] := rfl
  refine dispatch_records hstq hm hldq ⟨fun _ => rfl, fun j l hl => ?_⟩ ⟨fun _ => rfl, fun j l hl => ?_⟩
    rfl 1 (by decide)
  · rw [hnoStore] at hl
    cases hl
  · rw [hnoLoad] at hl
    cases hl

end R10K.Lsq
