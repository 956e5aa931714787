import R10K.Stq.Queue

/-! Stores drain in order, exactly once, and only after retirement.

The entries of the queue hold the stores of the log with what they executed (`Inv`), so
the write requested for the head is that of the oldest store not sent. -/
namespace R10K.Stq
open Circular Lanes Lsq

/-- An entry holds what a store executed. -/
structure Holds (e : StqEntry) (r : Store) : Prop where
  addr : e.addrValid = r.addr.isSome ∧ ∀ a, r.addr = some a → e.addr = a
  data : e.dataValid = r.data.isSome ∧ ∀ d, r.data = some d → e.data = d.1 ∧ e.dataSize = d.2

/-- The queue with the values of its stores. -/
structure Inv (c : Config) : Prop extends Queue c where
  written : ∀ (k : Nat) (r : Store), k < c.log.retired → c.log.stores[k]? = some r → r.write.isSome = true
  holds : ∀ (k : Nat) (r : Store), c.log.sent.length ≤ k → c.log.stores[k]? = some r →
    Holds (c.stq.stqEntry (Ptr.ofCount 4 k).idx) r
  clear : ∀ k, c.log.stores.length ≤ k → k < c.log.sent.length + 16 →
    (c.stq.stqEntry (Ptr.ofCount 4 k).idx).addrValid = false ∧
      (c.stq.stqEntry (Ptr.ofCount 4 k).idx).dataValid = false
  fire : c.stq.fireStValid = true → ∃ r : Store, c.log.stores[c.log.sent.length]? = some r ∧
    r.write = some (c.stq.fireStAddr, c.stq.fireStData, c.stq.fireStDataSize)
  order : c.log.sent.map some = (c.log.stores.take c.log.sent.length).map Store.write

/-- Execution keeps an entry and its store together. -/
theorem Holds.execute {e : StqEntry} {r : Store} (h : Holds e r) (i : Inputs) :
    Holds (writeData i r.tag (writeAddr i r.tag e)) (r.execute i) := by
  have ha := h.addr
  have hd := h.data
  cases hta : (r.tag == i.executeStAddrStqTag && i.executeStAddrValid) <;>
    cases htd : (r.tag == i.executeStDataStqTag && i.executeStDataValid) <;>
    simp only [writeAddr, writeData, Store.execute, hta, htd, if_true, if_false, Bool.false_eq_true]
  · exact h
  · exact ⟨ha, rfl, fun d hd => by cases hd; exact ⟨rfl, rfl⟩⟩
  · exact ⟨⟨rfl, fun a ha => by cases ha; rfl⟩, hd⟩
  · exact ⟨⟨rfl, fun a ha => by cases ha; rfl⟩, rfl, fun d hd => by cases hd; exact ⟨rfl, rfl⟩⟩

theorem write_isSome (r : Store) : r.write.isSome = (r.addr.isSome && r.data.isSome) := by
  unfold Store.write
  cases r.addr <;> cases r.data <;> rfl

theorem execute_write {r : Store} (i : Inputs) (h : r.write.isSome = true) :
    (r.execute i).write.isSome = true := by
  rw [write_isSome, Bool.and_eq_true] at h ⊢
  refine ⟨?_, ?_⟩
  · unfold Store.execute
    split
    · rfl
    · exact h.1
  · simp only [Store.execute]
    split
    · rfl
    · exact h.2

/-- What an entry that holds an executed store asks of the data cache. -/
theorem Holds.write {e : StqEntry} {r : Store} (h : Holds e r) (hw : r.write.isSome = true) :
    r.write = some (e.addr, e.data, e.dataSize) := by
  unfold Store.write at hw ⊢
  cases ha : r.addr with
  | none => simp [ha] at hw
  | some a =>
    cases hd : r.data with
    | none => simp [ha, hd] at hw
    | some d =>
      obtain ⟨h1, h2⟩ := h.data.2 d hd
      rw [h.addr.2 a ha, h1, h2]

/-- Allocation and retirement leave the values alone. -/
theorem Holds.allocate {e : StqEntry} {r : Store} (h : Holds e r) (i : Inputs) (s : State) (k : StqTag) :
    Holds (Stq.allocate i s k e) r := by
  unfold Stq.allocate
  split
  · exact ⟨h.addr, h.data⟩
  · exact h

theorem Holds.retire {e : StqEntry} {r : Store} (h : Holds e r) (i : Inputs) (k : StqTag) :
    Holds (Stq.retire i k e) r := by
  unfold Stq.retire
  split
  · exact ⟨h.addr, h.data⟩
  · exact h

namespace Inv
variable {c : Config} {i : Inputs}

/-- The executing slot is a live store's, so no other slot of the window is written. -/
theorem writes_other (hi : Inv c) (ok : Ok i c) (k : Nat)
    (hk : c.log.sent.length ≤ k ∧ k < c.log.sent.length + 16)
    (hout : k < c.log.retired ∨ c.log.stores.length ≤ k) (e : StqEntry) :
    writeData i (Ptr.ofCount 4 k).idx (writeAddr i (Ptr.ofCount 4 k).idx e) = e := by
  have hle := hi.sent_le
  have hroom := hi.room
  have hne : ∀ t, (∃ r ∈ c.log.live, r.tag = t) → (Ptr.ofCount 4 k).idx ≠ t := by
    rintro t ⟨r, hr, rfl⟩ h
    obtain ⟨m, hm, hget⟩ := List.getElem_of_mem hr
    simp only [Log.live, List.length_drop] at hm
    simp only [Log.live, List.getElem_drop] at hget
    rw [hi.tag (c.log.retired + m) r (by rw [List.getElem?_eq_getElem (by omega), hget])] at h
    have := Ptr.idx_inj_window (b := c.log.sent.length) hk (by omega) h
    omega
  have ha : ((Ptr.ofCount 4 k).idx == i.executeStAddrStqTag && i.executeStAddrValid) = false := by
    cases hv : i.executeStAddrValid with
    | false => rw [Bool.and_false]
    | true =>
      obtain ⟨r, hr, ht, _⟩ := ok.addr hv
      rw [Bool.and_true, beq_eq_false_iff_ne]
      exact hne _ ⟨r, hr, ht⟩
  have hd : ((Ptr.ofCount 4 k).idx == i.executeStDataStqTag && i.executeStDataValid) = false := by
    cases hv : i.executeStDataValid with
    | false => rw [Bool.and_false]
    | true =>
      obtain ⟨r, hr, ht, _⟩ := ok.data hv
      rw [Bool.and_true, beq_eq_false_iff_ne]
      exact hne _ ⟨r, hr, ht⟩
  rw [writeAddr, ha, if_neg Bool.false_ne_true, writeData, hd, if_neg Bool.false_ne_true]

/-- A slot of the next window holds its store after the cycle. -/
theorem next_holds (hi : Inv c) (ok : Ok i c) (k : Nat) (r : Store)
    (hk : c.log.sent.length + (fireStAccept i c.stq).toNat ≤ k)
    (hr : (c.log.next i c.stq).stores[k]? = some r) :
    Holds (nextEntry i c.stq (Ptr.ofCount 4 k).idx) r := by
  obtain ⟨hacc, hnl1, hnl2⟩ := hi.next_bounds ok.toOkQueue
  have hkt := (List.getElem?_eq_some_iff.1 hr).1
  have hwin : c.log.sent.length ≤ k ∧ k < c.log.sent.length + 16 := by omega
  have hup := hi.updateRetire_eq ok.toOkQueue k hwin
  rcases hi.next_store ok.toOkQueue k r hr with ⟨hlt, h⟩ | ⟨hge, hfl, r₀, h, rfl⟩ | ⟨hge, hfl, l, hl, rfl⟩
  · -- a retired store
    have hh := hi.holds k r hwin.1 h
    have hre := (hi.slot k hwin.1 (List.getElem?_eq_some_iff.1 h).1).2
    rw [decide_eq_true hlt] at hre
    rw [hi.nextEntry_kept k ⟨hk, hwin.2⟩ (by simp [hre]), hi.writes_other ok k hwin (.inl hlt)]
    exact (hh.allocate i c.stq _).retire i _
  · -- a live store, executed and perhaps retired by this cycle
    have hh := hi.holds k r₀ hwin.1 h
    have hkeep : (i.pipeFlush && !updateRetire i (Ptr.ofCount 4 k).idx) = false := by
      rw [hup, decide_eq_true hge, Bool.true_and]
      cases hf : i.pipeFlush with
      | false => rfl
      | true => simp [hfl hf]
    have hx := (hh.allocate i c.stq (Ptr.ofCount 4 k).idx).execute i
    rw [hi.tag k r₀ h] at hx
    rw [hi.nextEntry_kept k ⟨hk, hwin.2⟩ (by
      rw [Bool.and_right_comm, Bool.and_right_comm _ _ (!updateRetire i (Ptr.ofCount 4 k).idx), hkeep]
      rfl)]
    exact hx.retire i _
  · -- a store of this cycle's group
    obtain ⟨hav, hdv⟩ := hi.clear k hge hwin.2
    have hnone : Holds (c.stq.stqEntry (Ptr.ofCount 4 k).idx) { tag := dispatchResp i c.stq l } :=
      ⟨⟨hav, fun a ha => by cases ha⟩, hdv, fun d hd => by cases hd⟩
    rw [hi.nextEntry_kept k ⟨hk, hwin.2⟩ (by rw [hfl]; rfl), hi.writes_other ok k hwin (.inr hge)]
    exact (hnone.allocate i c.stq _).retire i _

/-- A store that is retired in the next cycle has executed. -/
theorem next_written (hi : Inv c) (ok : Ok i c) (k : Nat) (r : Store) (hk : k < c.log.retired + retireCnt i)
    (hr : (c.log.next i c.stq).stores[k]? = some r) : r.write.isSome = true := by
  have hret := hi.retire_le ok.toOkQueue
  rcases hi.next_store ok.toOkQueue k r hr with ⟨hlt, h⟩ | ⟨hge, _, r₀, h, rfl⟩ | ⟨hge, _, l, hl, rfl⟩
  · exact hi.written k r hlt h
  · have hlt : k - c.log.retired < (group (retiresStore i)).length := by
      rw [← retireCnt_eq]
      omega
    have hlive : c.log.live[k - c.log.retired]? = some r₀ := by
      rw [Log.live, List.getElem?_drop, Nat.add_sub_cancel' hge]
      exact h
    exact execute_write i (ok.executed _ _ _ (List.getElem?_eq_getElem hlt) hlive)
  · omega

/-- Every cycle keeps the invariant. -/
theorem next (hi : Inv c) (ok : Ok i c) : Inv (c.next i) := by
  obtain ⟨hacc, hnl1, hnl2⟩ := hi.next_bounds ok.toOkQueue
  have hns := Queue.next_sent c i
  have hrl := hi.retired_le
  have hget := Log.next_get i c.stq c.log hrl
  refine ⟨hi.toQueue.next ok.toOkQueue, hi.next_written ok, ?_, ?_, ?_, ?_⟩
  · intro k r hk hr
    simp only [Config.next, hns] at hk
    exact hi.next_holds ok k r hk hr
  · intro k hk hlt
    have hk' : (c.log.next i c.stq).stores.length ≤ k := hk
    simp only [Config.next, hns] at hlt
    rcases hi.next_outside ok.toOkQueue k (by omega) (by omega) hk hlt with h | ⟨hkt, hwin, heq⟩
    · exact ⟨h.2.2.1, h.2.2.2⟩
    · show (nextEntry i c.stq (Ptr.ofCount 4 k).idx).addrValid = false ∧
        (nextEntry i c.stq (Ptr.ofCount 4 k).idx).dataValid = false
      rw [heq, hi.writes_other ok k ⟨by omega, hwin⟩ (.inr hkt), allocate]
      split
      · exact hi.clear k hkt hwin
      · exact hi.clear k hkt hwin
  · intro hv
    simp only [Config.next, Stq.next, Bool.and_eq_true, Bool.not_eq_true', decide_eq_true_eq] at hv
    obtain ⟨_, m, hm⟩ := hv
    simp only [stWakeup, Bool.and_eq_true, Bool.not_eq_true'] at hm
    obtain ⟨⟨_, hre⟩, ha⟩ := hm
    have hlt := hi.wakeup_lt m hre
    have hw := hi.written _ _ hlt (List.getElem?_eq_getElem (by omega))
    have hhead : c.stq.headPtr = (Ptr.ofCount 4 c.log.sent.length).idx := by rw [← hi.head]; rfl
    have hh := hi.holds _ _ (Nat.le_refl _) (List.getElem?_eq_getElem (by omega))
    simp only [Config.next, hns, ha, Bool.toNat_false, Nat.add_zero]
    refine ⟨c.log.stores[c.log.sent.length], ?_, ?_⟩
    · rw [hget, if_pos hlt]
      exact List.getElem?_eq_getElem (by omega)
    · simp only [Stq.next, hhead]
      exact hh.write hw
  · have htake : (c.log.next i c.stq).stores.take (c.log.next i c.stq).sent.length =
        c.log.stores.take (c.log.sent.length + (fireStAccept i c.stq).toNat) := by
      apply List.ext_getElem?
      intro k
      rw [hns]
      by_cases hk : k < c.log.sent.length + (fireStAccept i c.stq).toNat
      · rw [List.getElem?_take_of_lt hk, List.getElem?_take_of_lt hk, hget, if_pos (by omega)]
      · rw [List.getElem?_take_eq_none (by omega), List.getElem?_take_eq_none (by omega)]
    simp only [Config.next]
    rw [htake]
    simp only [Log.next]
    cases ha : fireStAccept i c.stq
    · exact hi.order
    · obtain ⟨r, hr, hw⟩ := hi.fire (Bool.and_eq_true_iff.1 ha).1
      rw [if_pos rfl, List.map_append, hi.order, Bool.toNat_true, List.take_add_one, hr, List.map_append]
      simp [hw]

theorem init : Inv Config.init := by
  refine ⟨Queue.init, ?_, ?_, fun _ _ _ => ⟨rfl, rfl⟩, fun h => ?_, rfl⟩
  · intro k r _ hr
    cases hr
  · intro k r _ hr
    cases hr
  · cases h

theorem of_reach {c : Config} (h : Reach c) : Inv c :=
  Run.Reach.invariant Inv init (fun _ _ hi ok => hi.next ok) h

end Inv

/-! ### The drain -/

/-- What the queue guarantees at a configuration. -/
structure Drains (c : Config) : Prop where
  /-- The accepted writes are the oldest retired stores' own, in program order, each once. -/
  order : c.log.sent.map some <+: (c.log.stores.take c.log.retired).map Store.write
  /-- A retired store that is not sent stays in its slot with what it executed. -/
  kept : ∀ (k : Nat) (r : Store), c.log.sent.length ≤ k → k < c.log.retired →
    c.log.stores[k]? = some r → Holds (c.stq.stqEntry r.tag) r ∧
      (c.stq.stqEntry r.tag).entryValid = true ∧ (c.stq.stqEntry r.tag).retired = true
  /-- No cycle, a flush included, drops or changes a retired store. -/
  lasting : ∀ i, Ok i c → c.log.stores.take c.log.retired <+: (c.next i).log.stores
  /-- A request is the oldest unsent store's, and that one is retired. -/
  request : c.stq.fireStValid = true → c.log.sent.length < c.log.retired ∧
    ∃ r : Store, c.log.stores[c.log.sent.length]? = some r ∧
      r.write = some (c.stq.fireStAddr, c.stq.fireStData, c.stq.fireStDataSize)
  /-- While a retired store is unsent, a request stands or comes with the next cycle. -/
  pending : ∀ i, i.pipeFlush = false → c.stq.fireStValid = false →
    c.log.sent.length < c.log.retired → (c.next i).stq.fireStValid = true

/-- **Stores drain in order, exactly once, and only after retirement.** -/
theorem stq_drains {c : Config} (h : Reach c) : Drains c := by
  have hi := Inv.of_reach h
  have hsl := hi.sent_le
  have hrl := hi.retired_le
  refine ⟨?_, fun k r hk hlt hr => ?_, fun i ok => ?_, fun hv => ⟨(hi.request hv).1, hi.fire hv⟩,
    fun i hf hv hlt => ?_⟩
  · rw [hi.order]
    exact (List.take_prefix_take_left hsl).map _
  · obtain ⟨hv, hre⟩ := hi.slot k hk (by omega)
    rw [hi.tag k r hr]
    exact ⟨hi.holds k r hk hr, hv, hre.trans (decide_eq_true hlt)⟩
  · rw [List.prefix_iff_getElem?]
    intro k hk
    rw [List.length_take] at hk
    have hlt : k < c.log.retired := by omega
    show (c.log.next i c.stq).stores[k]? = _
    rw [Log.next_get i c.stq c.log hrl, if_pos hlt, List.getElem_take, List.getElem?_eq_getElem]
  · obtain ⟨hh, hre⟩ := hi.slot _ (Nat.le_refl _) (by omega)
    rw [decide_eq_true hlt] at hre
    simp only [Config.next, Stq.next, hf, Bool.not_false, Bool.true_and, decide_eq_true_eq]
    refine ⟨(Ptr.ofCount 4 c.log.sent.length).idx, ?_⟩
    simp only [stWakeup, hh, hre, fireStAccept, hv, Bool.false_and, Bool.not_false, Bool.and_true]

/-! Three stores. The first retires, and is sent after a flush that drops the others; the slot
of the second goes to a new store. -/

def storesIn : Inputs := { idle with dispatchValid := fun l => decide (l < 3) }

def storeOut (tag : StqTag) (addr : BitVec 32) : Inputs :=
  { idle with executeStAddr := addr, executeStAddrStqTag := tag, executeStAddrValid := true,
              executeStData := 7, executeStDataSize := 2, executeStDataStqTag := tag, executeStDataValid := true }

def storeRetire (tag : StqTag) : Inputs :=
  { idle with retirePkt := fun l => { wrMem := true, stqTag := tag, packetValid := decide (l = 0) } }

def drained : Config :=
  [storesIn, storeOut 1 0x200, storeOut 0 0x100, storeRetire 0, { idle with pipeFlush := true },
    { idle with dispatchValid := fun l => decide (l = 2) }, { storeOut 1 0x300 with fireStReady := true },
    storeRetire 1, idle].foldl (fun c i => c.next i) .init

theorem stq_drains_flush : drained.log.sent = [(0x100, 7, 2)] ∧
    drained.log.stores.map Store.write = [some (0x100, 7, 2), some (0x300, 7, 2)] ∧
    drained.stq.fireStAddr = 0x300 ∧ Drains drained :=
  ⟨by decide +kernel, by decide +kernel, by decide +kernel, stq_drains (.of_keeps _ .init (by decide +kernel))⟩

end R10K.Stq
