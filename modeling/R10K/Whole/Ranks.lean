import R10K.Whole.Run

/-! The stores of the program and their places in the store queue.

The queue lists the stores in program order: the store with `k` stores before it is the
queue's `k`-th, and it is retired there as soon as its instruction is committed. -/
namespace R10K.Whole
open Backend Lanes Mirror

/-- How many of the first `n` instructions are of a kind. -/
def Config.rank (c : Config) (kind : RenamePacket → Bool) (n : Nat) : Nat :=
  ((c.core.trace.map Core.Flight.pkt).take n).countP kind

/-- The number of the first instruction that is not in the buffer yet. -/
def Config.dispatchedTo (c : Config) : Nat := c.core.base + c.backend.robLog.live.length

/-- What the queue has retired is what the program has committed, and what leaves is in the
retire register. -/
structure Counted (c : Config) : Prop where
  leaving : c.backend.stqLog.retired + (Spine.retireRead storeLeft c.state.core.spine).reduceOption.length =
    c.rank RenamePacket.wrMem c.core.base
  retired : c.backend.stqLog.retired = c.rank RenamePacket.wrMem c.core.committed

section
variable {c : Config} {i : Inputs} {kind : RenamePacket → Bool} {n m : Nat} {f g : Core.Flight}

/-! ### Counting -/

theorem rank_succ (hn : c.core.trace[n]? = some f) : c.rank kind (n + 1) = c.rank kind n + (kind f.pkt).toNat := by
  rw [Config.rank, Config.rank, List.take_add_one, List.getElem?_map, hn, List.countP_append]
  cases h : kind f.pkt <;> simp [h]

theorem rank_mono (h : n ≤ m) : c.rank kind n ≤ c.rank kind m := by
  have htake : (c.core.trace.map Core.Flight.pkt).take n = ((c.core.trace.map Core.Flight.pkt).take m).take n := by
    rw [List.take_take, Nat.min_eq_left h]
  rw [Config.rank, htake]
  exact (List.take_sublist n _).countP_le

/-- Instructions of one kind are told by their rank. -/
theorem rank_inj (hn : c.core.trace[n]? = some f) (hm : c.core.trace[m]? = some g) (hf : kind f.pkt = true)
    (hg : kind g.pkt = true) (h : c.rank kind n = c.rank kind m) : n = m := by
  have hsn : c.rank kind (n + 1) = _ := rank_succ hn
  have hsm : c.rank kind (m + 1) = _ := rank_succ hm
  rw [hf] at hsn
  rw [hg] at hsm
  have h1 : n < m → c.rank kind (n + 1) ≤ c.rank kind m := fun hlt => rank_mono hlt
  have h2 : m < n → c.rank kind (m + 1) ≤ c.rank kind n := fun hlt => rank_mono hlt
  simp only [Bool.toNat_true] at hsn hsm
  omega

/-- Every count up to that of the first `n` instructions is that of some of them. -/
theorem exists_rank {k : Nat} (hk : k ≤ c.rank kind n) (hn : n ≤ c.core.trace.length) :
    ∃ m, m ≤ n ∧ c.rank kind m = k := by
  induction n with
  | zero => exact ⟨0, Nat.le_refl _, (Nat.le_zero.1 hk).symm⟩
  | succ n ih =>
    by_cases hle : k ≤ c.rank kind n
    · obtain ⟨m, hm, hrank⟩ := ih hle (Nat.le_of_succ_le hn)
      exact ⟨m, Nat.le_succ_of_le hm, hrank⟩
    · have hsucc : c.rank kind (n + 1) = _ := rank_succ (List.getElem?_eq_getElem (l := c.core.trace) (i := n) hn)
      have hone := Bool.toNat_le (kind c.core.trace[n].pkt)
      exact ⟨n + 1, Nat.le_refl _, by omega⟩

/-- Instructions that stay are counted as before. -/
theorem rank_next (hn : n ≤ c.core.trace.length) (hf : pipeFlush c.state = true → n ≤ c.core.base) :
    (c.next i).rank kind n = c.rank kind n := by
  have htake : ((c.next i).core.trace.map Core.Flight.pkt).take n = (c.core.trace.map Core.Flight.pkt).take n := by
    apply List.ext_getElem?
    intro k
    rw [List.getElem?_take, List.getElem?_take]
    split
    · rename_i hk
      have hget := List.getElem?_eq_getElem (l := c.core.trace) (i := k) (by omega)
      have hnext := Core.next_flight (c := c.core) (c.coreIn i) hget fun hf' => Nat.lt_of_lt_of_le hk (hf hf')
      rw [List.getElem?_map, List.getElem?_map, Config.next_core, hnext, hget]
      rfl
    · rfl
  rw [Config.rank, htake]
  rfl

/-- The first records of the buffer count the instructions they stand for. -/
theorem buffer_rank {V : Type} {give : Rob.Record → Option V} (h : Core.Inv c.core)
    (hgive : ∀ r n f, c.core.At r n f → (give r).isSome = kind f.pkt) :
    ∀ k, k ≤ c.backend.robLog.live.length →
      c.rank kind c.core.base + ((c.backend.robLog.live.take k).map give).reduceOption.length =
        c.rank kind (c.core.base + k) := by
  have hlen := Core.base_length h.spine
  intro k
  induction k with
  | zero => exact fun _ => rfl
  | succ k ih =>
    intro hk
    have hlive := List.getElem?_eq_getElem (l := c.backend.robLog.live) (i := k) (by omega)
    have hlt : k < c.core.robLog.live.length := hk
    have hget := List.getElem?_eq_getElem (l := c.core.trace) (i := c.core.base + k) (by omega)
    have hat : c.core.At _ (c.core.base + k) _ := ⟨Nat.le_add_right _ _, by
      rw [Nat.add_sub_cancel_left]
      exact hlive, hget⟩
    have hkind := hgive _ _ _ hat
    rw [← Nat.add_assoc, rank_succ hget, ← hkind, ← ih (by omega), List.take_add_one, hlive, List.map_append,
      List.reduceOption_append, List.length_append, Nat.add_assoc]
    congr 1
    show _ + (([give _] : List (Option V)).reduceOption).length = _
    cases give c.backend.robLog.live[k] <;> rfl

/-! ### The queues and the program -/

theorem store_gives (h : Core.Decoded c.core) (r : Rob.Record) (n : Nat) (f : Core.Flight)
    (hat : c.core.At r n f) : (storeGives r).isSome = f.pkt.wrMem := by
  rw [← (h.copies r n f hat).wrMem, storeGives, memTag]
  cases r.pkt.wrMem <;> rfl

/-- The queue has an entry for every store dispatched. -/
theorem stores_length (h : Inv c) (hc : Counted c) :
    c.backend.stqLog.stores.length = c.rank RenamePacket.wrMem c.dispatchedTo := by
  have hle : c.backend.stqLog.retired ≤ c.backend.stqLog.stores.length := h.backend.stq.retired_le
  have hlinked := congrArg List.length h.linked.stores
  rw [List.length_map, List.length_append, Stq.Log.live, List.length_drop] at hlinked
  have hbuffer : c.rank RenamePacket.wrMem _ + _ = _ := buffer_rank h.core (store_gives h.decoded) _ (Nat.le_refl _)
  rw [List.take_length] at hbuffer
  have hcount := hc.leaving
  rw [Config.dispatchedTo]
  omega

/-- An instruction in the dispatch register counts those of the buffer and of the lanes before. -/
theorem waits_rank (h : Core.Inv c.core) {l : Lane} (hw : c.core.Waits l n f) : c.rank kind n =
    c.rank kind c.dispatchedTo + Lanes.rank (fun l => (c.state.core.spine.pipeRenamePkt l).packetValid &&
      kind (c.state.core.spine.pipeRenamePkt l)) l := by
  have hcount : ∀ j l, (group fun l => (c.state.core.spine.pipeRenamePkt l).packetValid)[j]? = some l →
      c.rank kind (c.dispatchedTo + j) = c.rank kind c.dispatchedTo +
        ((group fun l => (c.state.core.spine.pipeRenamePkt l).packetValid).take j).countP fun l =>
          kind (c.state.core.spine.pipeRenamePkt l) := by
    have hlen := Core.base_length h.spine
    have hgroup : (Spine.renameGroup c.core.state.spine).length =
        (group fun l => (c.state.core.spine.pipeRenamePkt l).packetValid).length := by
      rw [Spine.renameGroup, List.length_map]
      rfl
    intro j
    induction j with
    | zero => exact fun _ _ => rfl
    | succ j ih =>
      intro l hl
      have hlt := (List.getElem?_eq_some_iff.1 hl).1
      have hprev := List.getElem?_eq_getElem (l := group fun l => (c.state.core.spine.pipeRenamePkt l).packetValid)
        (i := j) (by omega)
      have hto : c.dispatchedTo = c.core.base + c.core.robLog.live.length := rfl
      have hget := List.getElem?_eq_getElem (l := c.core.trace) (i := c.dispatchedTo + j) (by omega)
      have hpkt := (h.waits _ _ _ ⟨⟨j, hprev, rfl⟩, hget⟩).1
      rw [← Nat.add_assoc, rank_succ hget, ih _ hprev, hpkt, List.take_add_one, hprev, List.countP_append, Nat.add_assoc]
      rfl
  obtain ⟨j, hj, hn⟩ := hw.lane
  have hj' : (group fun l => (c.state.core.spine.pipeRenamePkt l).packetValid)[j]? = some l := hj
  rw [show n = c.dispatchedTo + j from hn, hcount j l hj', group_countP hj']

/-- **A store of the buffer stands at its rank**, in the slot its record names. -/
theorem store_at (h : Inv c) (hc : Counted c) {r : Rob.Record} (hat : c.core.At r n f)
    (hw : f.pkt.wrMem = true) : ∃ q, c.backend.stqLog.stores[c.rank RenamePacket.wrMem n]? = some q ∧
      storeView q = (r.pkt.stqTag, !r.pending, !r.pending) := by
  have hlt := (List.getElem?_eq_some_iff.1 hat.live).1
  have hgives : storeGives r = some (r.pkt.stqTag, !r.pending, !r.pending) := by
    rw [storeGives, (h.decoded.copies r n f hat).wrMem, hw]
    rfl
  obtain ⟨q, hq, hview⟩ := h.linked.stores.shown_at hat.live hgives
  have hbuffer : c.rank RenamePacket.wrMem _ + _ = _ := buffer_rank h.core (store_gives h.decoded)
    (n - c.core.base) (Nat.le_of_lt hlt)
  have hcount := hc.leaving
  have hle := hat.le
  rw [Nat.add_sub_cancel' hle] at hbuffer
  rw [Stq.Log.live, List.getElem?_drop] at hq
  refine ⟨q, ?_, hview⟩
  rw [← hq, ← hbuffer, ← hcount, Nat.add_assoc]

/-! ### One edge -/

/-- What leaves next counts the instructions that retire. -/
theorem leaving_rank {V : Type} {left : RetireRobPacket → Option V} {give : Rob.Record → Option V}
    (h : Core.Inv c.core) (hf : pipeFlush c.state = false)
    (hshow : ∀ r p, Rob.Shows r p → left p = give { r with done := true })
    (hdone : ∀ r, r.pending = false → give { r with done := true } = give r)
    (hgive : ∀ r n f, c.core.At r n f → (give (Rob.mark (c.robIn i) r)).isSome = kind f.pkt) :
    c.rank kind c.core.base + (Spine.retireRead left (c.next i).state.core.spine).reduceOption.length =
      (c.next i).rank kind (c.next i).core.base := by
  have hbase : (c.next i).core.base = c.core.base + Rob.retireEnCnt c.state.core.spine.rob :=
    Core.next_base (c := c.core) (c.coreIn i) hf
  have hret : Rob.retireEnCnt c.state.core.spine.rob ≤ c.backend.robLog.live.length :=
    Core.retire_le_live (c := c.core) h.spine
  have hlen := Core.base_length h.spine
  have hlive : c.core.robLog.live.length = c.backend.robLog.live.length := rfl
  rw [left_next h hf hshow hdone, ← List.map_take, List.map_map, hbase,
    rank_next (by omega) (fun hf' => by rw [hf] at hf'; cases hf')]
  exact buffer_rank h hgive _ hret

theorem retired_next (hc : Counted c) (hle : c.core.base ≤ c.core.trace.length) :
    (c.next i).backend.stqLog.retired = (c.next i).rank RenamePacket.wrMem (c.next i).core.committed := by
  show c.backend.stqLog.retired + Stq.retireCnt (c.backend.stqIn i) = (c.next i).rank _ c.core.base
  rw [rank_next hle (fun _ => Nat.le_refl _), ← store_leaving, hc.leaving]

theorem base_le (h : Core.Inv c.core) : c.core.base ≤ c.core.trace.length := by
  have hlen := Core.base_length h.spine
  omega

/-- **One edge keeps the counts.** -/
theorem Counted.next (hc : Counted c) (h : Inv c) : Counted (c.next i) := by
  have hretired := retired_next (i := i) hc (base_le h.core)
  refine ⟨?_, hretired⟩
  have hcommitted : (c.next i).core.committed = c.core.base := rfl
  rw [hcommitted, rank_next (base_le h.core) fun _ => Nat.le_refl _] at hretired
  rw [hretired]
  cases hf : pipeFlush c.state with
  | true =>
    have hret : ∀ {V : Type} (left : RetireRobPacket → V), Spine.retireRead left (c.next i).state.core.spine = [] :=
      fun left => Spine.retireRead_flush (c := c.backend.spine) (i := spineIn i c.state) left hf
    have hbase : (c.next i).core.base = c.core.base := by
      have hgroup : Spine.retireGroup (c.next i).state.core.spine = [] := hret Spine.retireInstr
      show c.core.base + (Spine.retireGroup (c.next i).state.core.spine).length = c.core.base
      rw [hgroup]
      rfl
    rw [hret, hbase, rank_next (base_le h.core) fun _ => Nat.le_refl _]
    rfl
  | false =>
    refine @leaving_rank c i RenamePacket.wrMem _ storeLeft storeGives h.core hf ?_ ?_ ?_
    · intro r p hs
      rw [hs]
      rfl
    · intro r hr
      rw [storeGives, storeGives, hr]
      rfl
    · intro r n f hat
      rw [← store_gives h.decoded r n f hat, storeGives, storeGives, (Rob.mark_eq_iff (c.robIn i) r).2, memTag, memTag]
      cases r.pkt.wrMem <;> rfl

theorem Counted.init : Counted Config.init := ⟨rfl, rfl⟩

end

end R10K.Whole
