import R10K.Icache.Refill

/-! One way for every line of the instruction cache, whatever the memory answers.

A line is written only while a miss waits for it, after a lookup that did not find it. The
write clears the tags the miss waits for, so nothing is written a second time, even when a
wrong answer completes the buffer too early. -/
namespace R10K.Icache
open Cache Assoc

/-- What holds of the ways that hit. -/
structure OneWay (s : State) : Prop where
  /-- No set holds two valid ways with one tag. -/
  unique : (lines s.array).Unique
  onehot : ∀ v w, hitN s.array v = true → hitN s.array w = true → v = w
  /-- The block read on a hit is that of the way that hits. -/
  block : ∀ w, hitN s.array w = true → hit s = true ∧
    rdBlock s.array s.cacheLineBufValid s.cacheLineBuf = (s.array.dataSram w).ram s.array.addrIndexPipe

variable {i : Inputs} {s : State}

/-! ### The invariant -/

/-- The miss that is served cannot write any more. -/
structure Spent (s : State) : Prop where
  tags : ∀ k, s.outstandingTag k = 0
  command : s.proc2imemCommandPipe ≠ .busLoad
  valid : s.cacheLineBufValid = false

/-- The buffer is full and its line is not in the cache. -/
structure Ready (s : State) : Prop where
  state : s.currSt = .rdL2Ack ∨ s.currSt = .wrL1
  absent : ¬ Held s.array s.currFetchPc
  command : s.proc2imemCommandPipe = .busNone

structure Sole (s : State) : Prop where
  shows : Shows s.array
  unique : (lines s.array).Unique
  fresh : s.currSt = .chkHit → Fresh s.array
  looked : lookSt s.currSt = true → Looked s.array s.currFetchPc
  ready : s.cacheLineBufValid = true → Ready s
  requested : s.currSt = .rdL2Req → ¬ Held s.array s.currFetchPc
  awaited : s.currSt = .rdL2Ack → ¬ Held s.array s.currFetchPc ∨ Spent s

theorem Sole.reset (tagSram : CacheWay → Sram Tag) (dataSram : CacheWay → Sram Block) :
    Sole (reset tagSram dataSram) where
  shows := .reset tagSram dataSram
  unique := Store.unique_of_empty fun _ _ => rfl
  fresh := nofun
  looked := nofun
  ready := nofun
  requested := nofun
  awaited := nofun

/-! ### One edge -/

theorem held_next_none (h : s.cacheLineBufValid = false) (addr : BitVec 32) :
    Held (next i s).array addr ↔ Held s.array addr := by
  rw [Held, show lines (next i s).array = lines s.array from lines_next_none h]
  rfl

/-- Only a cycle of `RD_L2_ACK` fills the buffer, with the answer to a tag that is noted. -/
theorem bufValid_next (h : (next i s).cacheLineBufValid = true) :
    s.cacheLineBufValid = false ∧ s.currSt = .rdL2Ack ∧ ∃ k, s.outstandingTag k ≠ 0 := by
  have hnext : (nextBuf i s).2.2 = true := h
  rw [nextBuf] at hnext
  split at hnext
  · cases hnext
  · rename_i hv
    rw [Bool.not_eq_true] at hv
    split at hnext
    · rename_i hst
      refine ⟨hv, hst, ?_⟩
      split at hnext
      · rename_i k hk
        rw [answered] at hk
        split at hk
        · cases hk
        · rename_i ht
          have hmatch := List.find?_some hk
          rw [beq_iff_eq] at hmatch
          exact ⟨k, fun h0 => ht (hmatch.trans h0)⟩
      · rw [hv] at hnext
        cases hnext
    · rw [hv] at hnext
      cases hnext

namespace Sole

/-- Outside the end of a miss nothing is written. -/
theorem not_ready (h : Sole s) (hack : s.currSt ≠ .rdL2Ack) (hwr : s.currSt ≠ .wrL1) :
    s.cacheLineBufValid = false := by
  rw [← Bool.not_eq_true]
  exact fun hv => (h.ready hv).state.elim hack hwr

/-- A lookup that misses in `CHK_HIT` misses a line that is not in the cache. -/
theorem absent_chkHit (h : Sole s) (hst : s.currSt = .chkHit) (hmiss : hit s = false) :
    ¬ Held s.array s.currFetchPc := by
  have hv := h.not_ready (by rw [hst]; decide) (by rw [hst]; decide)
  rw [hit, hv] at hmiss
  rw [← h.shows.hit_iff (h.fresh hst) (h.looked (by rw [hst]; rfl)), hmiss]
  decide

/-- No way hits while a line is written. -/
theorem ready_silent (h : Sole s) (hv : s.cacheLineBufValid = true) (w : CacheWay) :
    hitN s.array w = false := by
  have hr := h.ready hv
  have hlook : lookSt s.currSt = true := by rcases hr.state with hst | hst <;> rw [hst] <;> rfl
  rw [← Bool.not_eq_true]
  exact fun hw => hr.absent ⟨w, h.shows.holds (h.looked hlook) hw⟩

/-- **A write keeps lines apart**: its line is nowhere in the cache. -/
theorem unique_next (h : Sole s) : (lines (next i s).array).Unique := by
  cases hv : s.cacheLineBufValid with
  | false =>
    rw [show lines (next i s).array = lines s.array from lines_next_none hv]
    exact h.unique
  | true =>
    have hr := h.ready hv
    have haddr : addrCacheArray i s = s.currFetchPc := by
      rcases hr.state with hst | hst <;> simp [addrCacheArray, hst]
    have hfill := lines_next_fill (i := arrayIn i s) (a := s.array) hv
    rw [show (arrayIn i s).addr = _ from haddr] at hfill
    rw [show lines (next i s).array = _ from hfill]
    exact h.unique.fill fun w hw => absurd ⟨w, hw⟩ hr.absent

/-- A miss that waits has not written its line, or cannot write again. -/
theorem awaited_next (h : Sole s) (hst : s.currSt = .rdL2Ack) :
    ¬ Held (next i s).array (next i s).currFetchPc ∨ Spent (next i s) := by
  have hcmd : proc2imemCommand s ≠ .busLoad := by simp [proc2imemCommand, hst]
  cases hv : s.cacheLineBufValid with
  | true =>
    -- the write counts as a hit, which clears the tags
    have hr := h.ready hv
    have hhit : hit s = true := by rw [hit, arrayHit, hv, Bool.or_true]
    right
    refine ⟨fun k => ?_, hcmd, ?_⟩
    · simp [next, hr.command, hhit]
    · simp [next, nextBuf, hv]
  | false =>
    rcases h.awaited hst with habs | hsp
    · left
      rw [currFetchPc_keep (.inr hst), held_next_none hv]
      exact habs
    · right
      refine ⟨fun k => ?_, hcmd, ?_⟩
      · simp [next, hsp.command, hsp.tags]
      · rw [← Bool.not_eq_true]
        intro hnext
        obtain ⟨_, _, k, hk⟩ := bufValid_next hnext
        exact hk (hsp.tags k)

theorem ready_next (h : Sole s) (hv : (next i s).cacheLineBufValid = true) : Ready (next i s) := by
  obtain ⟨hold, hst, k, hk⟩ := bufValid_next hv
  have habs : ¬ Held s.array s.currFetchPc :=
    (h.awaited hst).resolve_right fun hsp => hk (hsp.tags k)
  refine ⟨?_, ?_, ?_⟩
  · show nextSt i s = _ ∨ nextSt i s = _
    rw [nextSt, hst]
    dsimp only
    split
    · exact .inr rfl
    · exact .inl rfl
  · rw [currFetchPc_keep (.inr hst), held_next_none hold]
    exact habs
  · simp [next, proc2imemCommand, hst]

theorem next (h : Sole s) : Sole (next i s) where
  shows := .next ..
  unique := h.unique_next
  fresh := fun hchk => by
    obtain ⟨hack, hwr⟩ := nextSt_chkHit hchk
    exact Fresh.next (h.not_ready hack hwr)
  looked := fun hlook => by
    rw [← addrCacheArray_look hlook]
    exact Looked.next ..
  ready := h.ready_next
  requested := fun hreq => by
    rcases nextSt_rdL2Req hreq with ⟨hchk, hmiss⟩ | hst
    · have hv := h.not_ready (by rw [hchk]; decide) (by rw [hchk]; decide)
      have hacc : fetchPcAccept i s = false :=
        fetchPcAccept_off (by rw [hchk]; decide) (by rw [hchk]; decide) fun _ => hmiss
      have hidle : nextSt i s ≠ .idle := by rw [show nextSt i s = .rdL2Req from hreq]; decide
      rw [currFetchPc_stay hacc hidle, held_next_none hv]
      exact h.absent_chkHit hchk hmiss
    · have hv := h.not_ready (by rw [hst]; decide) (by rw [hst]; decide)
      rw [currFetchPc_keep (.inl hst), held_next_none hv]
      exact h.requested hst
  awaited := fun hack => by
    rcases nextSt_rdL2Ack hack with hst | hst
    · have hv := h.not_ready (by rw [hst]; decide) (by rw [hst]; decide)
      rw [currFetchPc_keep (.inl hst), held_next_none hv]
      exact .inl (h.requested hst)
    · exact h.awaited_next hst

theorem run (h : Sole s) (is : List Inputs) : Sole (is.foldl (fun s i => Icache.next i s) s) := by
  induction is generalizing s with
  | nil => exact h
  | cons i is ih => exact ih h.next

theorem oneWay (h : Sole s) : OneWay s where
  unique := h.unique
  onehot := fun v w hv hw => h.unique _ _ v w (h.shows.holds_pipe hv) (h.shows.holds_pipe hw)
  block := fun w hw => by
    have hv : s.cacheLineBufValid = false := by
      rw [← Bool.not_eq_true]
      intro hv
      rw [h.ready_silent hv w] at hw
      cases hw
    have hh : arrayHit s.array false = true := arrayHit_iff.2 ⟨w, hw⟩
    have honly : ∀ v, hitN s.array v = true → v = w := fun v hv' =>
      h.unique _ _ v w (h.shows.holds_pipe hv') (h.shows.holds_pipe hw)
    rw [hit, hv]
    refine ⟨hh, ?_⟩
    simp only [rdBlock, hh, Bool.false_eq_true, if_false, if_true]
    rw [cacheBlockData, Select.muxOnehot_eq 0 _ hw honly]
    exact h.shows.block w (Bool.and_eq_true_iff.1 hw).2

end Sole

/-- **At most one way hits**, under any fetches, stalls and answers. -/
theorem one_way_hits (tagSram : CacheWay → Sram Tag) (dataSram : CacheWay → Sram Block) (is : List Inputs) :
    OneWay (is.foldl (fun s i => next i s) (reset tagSram dataSram)) :=
  ((Sole.reset tagSram dataSram).run is).oneWay

end R10K.Icache
