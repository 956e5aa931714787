import R10K.Rob.Queue
import R10K.Spine.Log

/-! The flow of instructions through the in-order part.

The instructions in flight are the retiring group, the buffer and the group in the
rename/dispatch register, in this order. An edge without a flush moves them along and
adds the group renamed; a flush drops them all after the retiring group. The buffer is
given no more than it has room for, a misprediction that retires found the rename stage
closed a cycle before, and an exception closes it for good. -/
namespace R10K.Spine
open Lanes Renaming

/-! ### One edge -/

section
variable {i : Inputs} {c : Config}

/-- Retirement shows the oldest live records. -/
theorem retiring_shows (hq : Rob.Queue c.rob) (j : Nat) (hj : j < Rob.retireEnCnt c.state.rob) :
    ∃ r, c.robLog.live[j]? = some r ∧
      Rob.Shows r (Rob.retirePkt c.state.rob ⟨j, by have := Rob.retireEnCnt_le c.state.rob; omega⟩) := by
  have h4 := Rob.retireEnCnt_le c.state.rob
  obtain ⟨r, hr, hshow⟩ := hq.retiring_shows ⟨j, by omega⟩
    ((Rob.retireEn_iff c.state.rob j (by omega)).2 hj)
  refine ⟨r, ?_, hshow⟩
  rw [Rob.Log.live, List.getElem?_drop]
  exact hr

/-- What is read off the retired packets is read off the oldest live records. -/
theorem retiring_map {α : Type} (hq : Rob.Queue c.rob) {f : RetireRobPacket → α} {g : Rob.Record → α}
    (hfg : ∀ r p, Rob.Shows r p → f p = g r) :
    (Rob.retiring c.state.rob).map f = (c.robLog.live.take (Rob.retireEnCnt c.state.rob)).map g := by
  have hle : c.robLog.retired.length + Rob.retireEnCnt c.state.rob ≤ c.robLog.dispatched.length :=
    hq.retiring_le
  have hlen := Rob.retiring_length c.state.rob
  apply List.ext_getElem
  · simp only [List.length_map, List.length_take, Rob.Log.live, List.length_drop]
    omega
  · intro j hj hj'
    rw [List.length_map] at hj
    obtain ⟨r, hr, hshow⟩ := retiring_shows hq j (by omega)
    obtain ⟨hlt, rfl⟩ := List.getElem?_eq_some_iff.1 hr
    rw [List.getElem_map, Rob.retiring_get c.state.rob j hj, List.getElem_map, List.getElem_take]
    exact hfg _ _ hshow

/-- Dispatch moves the renamed group into the buffer. -/
theorem dispatching_map {α : Type} (s : State) (g : DispatchRobPacket → α) :
    (Rob.dispatching (robIn i s) s.rob).map (fun r => g r.pkt) =
      (group fun l => (s.pipeRenamePkt l).packetValid).map fun l => g (dispatchRobPkt i s l) := by
  rw [Rob.dispatching, List.map_map]
  rfl

theorem live_next (hq : Rob.Queue c.rob) (hf : pipeFlush c.state = false) :
    (c.next i).robLog.live =
      (c.robLog.live.map (Rob.mark (robIn i c.state))).drop (Rob.retireEnCnt c.state.rob) ++
        Rob.dispatching (robIn i c.state) c.state.rob := by
  have hle : c.robLog.retired.length ≤ c.robLog.dispatched.length := hq.le
  have hret : c.robLog.retired.length + Rob.retireEnCnt c.state.rob ≤ c.robLog.dispatched.length :=
    hq.retiring_le
  have hlen := Rob.retiring_length c.state.rob
  have htake : (c.robLog.dispatched.take c.robLog.retired.length).length = c.robLog.retired.length := by
    rw [List.length_take]
    omega
  have hflush : (robIn i c.state).pipeFlush = false := hf
  simp only [Config.next, Rob.Log.live, Rob.Log.next, hflush, Bool.false_eq_true, if_false,
    List.length_append, hlen]
  rw [List.append_assoc, List.drop_append, htake, Nat.add_sub_cancel_left,
    List.drop_eq_nil_of_le (by omega), List.nil_append, List.drop_append_of_le_length]
  simp only [List.length_map, List.length_drop]
  omega

/-- What is read off the retire register. -/
def retireRead {α : Type} (f : RetireRobPacket → α) (s : State) : List α :=
  (group fun l => (s.pipeRetirePkt l).packetValid).map fun l => f (s.pipeRetirePkt l)

theorem retireRead_next {α : Type} (f : RetireRobPacket → α) (hf : pipeFlush c.state = false) :
    retireRead f (c.next i).state = (Rob.retiring c.state.rob).map f := by
  simp only [retireRead, Config.next, Spine.next, hf, Bool.false_eq_true, if_false, Rob.retiring,
    List.map_map]
  rfl

theorem retireRead_flush {α : Type} (f : RetireRobPacket → α) (hf : pipeFlush c.state = true) :
    retireRead f (c.next i).state = [] := by
  have hgroup : group (fun _ => false) = [] := rfl
  simp only [retireRead, Config.next, Spine.next, hf, if_true, hgroup, List.map_nil]

theorem live_flush (hf : pipeFlush c.state = true) : (c.next i).robLog.live = [] := by
  have hflush : (robIn i c.state).pipeFlush = true := hf
  simp only [Config.next, Rob.Log.next, hflush, if_true]
  rfl

/-- **An edge without a flush moves what is in flight along**: read off the retire register
and the buffer, it is what the buffer held, and the group dispatched. -/
theorem moves {α : Type} (hq : Rob.Queue c.rob) (hf : pipeFlush c.state = false)
    {f : RetireRobPacket → α} {g : DispatchRobPacket → α} (hfg : ∀ r p, Rob.Shows r p → f p = g r.pkt) :
    retireRead f (c.next i).state ++ (c.next i).robLog.live.map (fun r => g r.pkt) =
      c.robLog.live.map (fun r => g r.pkt) ++
        (group fun l => (c.state.pipeRenamePkt l).packetValid).map fun l => g (dispatchRobPkt i c.state l) := by
  have hmark : ∀ l : List Rob.Record,
      (l.map (Rob.mark (robIn i c.state))).map (fun r => g r.pkt) = l.map fun r => g r.pkt := by
    intro l
    rw [List.map_map]
    congr 1
    funext r
    rw [Function.comp_apply, (Rob.mark_eq_iff (robIn i c.state) r).2]
  rw [retireRead_next f hf, retiring_map hq hfg, live_next hq hf, List.map_append, dispatching_map,
    ← List.map_drop, hmark, List.map_drop, ← List.append_assoc, ← List.map_drop, ← List.map_append,
    List.take_append_drop]

/-- An edge without a flush: what is in flight moves along, and the group renamed joins. -/
theorem inFlight_next (hq : Rob.Queue c.rob) (hf : pipeFlush c.state = false) :
    (c.next i).inFlight = c.robLog.live.map (fun r => robInstr r.pkt) ++ renameGroup c.state ++
      Rename.renamed (renameIn i c.state) c.state.rename := by
  have hrename : renameGroup (c.next i).state = Rename.renamed (renameIn i c.state) c.state.rename := by
    simp only [renameGroup, Config.next, Spine.next, hf, Bool.false_eq_true, if_false, Rename.renamed]
    cases Rename.accept (renameIn i c.state) <;> rfl
  have hmoves := moves (i := i) hq hf (f := retireInstr) (g := robInstr) fun r p h => by rw [h]; rfl
  rw [Config.inFlight, hrename]
  exact congrArg (· ++ _) hmoves

/-- After a flush nothing is in flight. -/
theorem inFlight_flush (hf : pipeFlush c.state = true) : (c.next i).inFlight = [] := by
  have hgroup : group (fun _ => false) = [] := rfl
  have hretire : retireGroup (c.next i).state = [] := retireRead_flush retireInstr hf
  rw [Config.inFlight, hretire, live_flush hf]
  simp only [Config.next, renameGroup, Spine.next, hf, if_true, hgroup]
  rfl

end

/-! ### What holds of the flow -/

/-- What makes a packet in the retire register flush. -/
def flushesPkt (p : RetireRobPacket) : Bool := p.branchMisp || p.exception != .noError

/-- The buffer is a queue, and what enters and leaves it is in order. -/
structure Flow (c : Config) : Prop where
  queue : Rob.Queue c.rob
  flagged : Rob.Flagged c.state.rob
  misp : retireBrMisp c.state = true → c.state.rob.branchMisp = true
  contiguous : Contiguous fun l => (c.state.pipeRenamePkt l).packetValid
  ready : ∀ l, (c.state.pipeRenamePkt l).packetValid = true → ∀ m, c.ready m = true
  quiet : retireBrMisp c.state = true → ∀ l, c.state.pipeRenamePkt l = {}
  stopped : c.state.sysException = true → ∀ l, c.state.pipeRenamePkt l = {}
  last : ∀ l m, l < m → flushesPkt (c.state.pipeRetirePkt l) = true →
    (c.state.pipeRetirePkt l).packetValid = true → (c.state.pipeRetirePkt m).packetValid = false

/-- Nothing is renamed in the cycle of a flush. -/
theorem accept_flush {c : Config} (h : retireBrMisp c.state = true → c.state.rob.branchMisp = true)
    (hf : pipeFlush c.state = true) (i : Inputs) : Rename.accept (renameIn i c.state) = false := by
  rw [Rename.accept, List.all_eq_false]
  refine ⟨0, List.mem_finRange _, ?_⟩
  show ¬ renamePktReady i c.state 0 = true
  rw [renamePktReady]
  rw [pipeFlush, Bool.or_eq_true] at hf
  rcases hf with hb | he
  · have hready : Rob.dispatchPktReady (robIn i c.state) c.state.rob 0 = false := by
      rw [Rob.dispatchPktReady, h hb, if_pos rfl]
    rw [hready, Bool.and_false]
    split <;> exact Bool.false_ne_true
  · rw [he, Bool.or_true, Bool.true_or, if_pos rfl]
    exact Bool.false_ne_true

/-- What a lane of the next dispatch register tells: a group was taken, and no flush. -/
theorem next_taken {c : Config} {i : Inputs} (l : Lane)
    (hv : ((c.next i).state.pipeRenamePkt l).packetValid = true) :
    pipeFlush c.state = false ∧ Rename.accept (renameIn i c.state) = true := by
  simp only [Config.next, Spine.next] at hv
  cases hf : pipeFlush c.state with
  | true =>
    rw [hf, if_pos rfl] at hv
    cases hv
  | false =>
    cases ha : Rename.accept (renameIn i c.state) with
    | true => exact ⟨rfl, rfl⟩
    | false =>
      rw [hf, ha, if_neg Bool.false_ne_true, if_neg Bool.false_ne_true] at hv
      cases hv

/-- A group that is not taken leaves the dispatch register empty. -/
theorem next_refused {c : Config} {i : Inputs} (ha : Rename.accept (renameIn i c.state) = false) (l : Lane) :
    (c.next i).state.pipeRenamePkt l = {} := by
  simp only [Config.next, Spine.next, ha, Bool.false_eq_true, if_false, ite_self]

/-- A group is taken if every queue has room for it. -/
theorem accept_ready {s : State} {i : Inputs} (ha : Rename.accept (renameIn i s) = true) :
    s.sysException = false ∧ retireException s = false ∧ i.lsqReady = true ∧
      ∀ m, i.intReady m = true ∧ i.memReady m = true ∧ Rob.dispatchPktReady (robIn i s) s.rob m = true := by
  have hm : ∀ m, renamePktReady i s m = true := fun m => List.all_eq_true.1 ha m (List.mem_finRange m)
  simp only [renamePktReady] at hm
  by_cases hno : (s.sysException || retireException s || !i.lsqReady) = true
  · have := hm 0
    rw [if_pos hno] at this
    cases this
  · simp only [if_neg hno, Bool.and_eq_true] at hm
    simp only [Bool.or_eq_true, Bool.not_eq_true', not_or, Bool.not_eq_true, Bool.not_eq_false] at hno
    exact ⟨hno.1.1, hno.1.2, hno.2, fun m => ⟨(hm m).1.1, (hm m).1.2, (hm m).2⟩⟩

namespace Flow
variable {c : Config} {i : Inputs}

/-- The dispatch register keeps what the buffer asks for. -/
theorem okDispatch (h : Flow c) : Rob.OkDispatch (robIn i c.state) c.rob where
  contiguous := h.contiguous
  credit := by
    intro l hl
    rw [Rob.dispatchPktCnt_eq] at hl
    obtain ⟨m, hm⟩ := List.exists_mem_of_length_pos (l := group fun l =>
      ((robIn i c.state).dispatchPkt l).packetValid) (by omega)
    exact h.ready m (mem_group.1 hm) l

theorem next_contiguous (ok : OkFetch i) :
    Contiguous fun l => ((c.next i).state.pipeRenamePkt l).packetValid := by
  simp only [Config.next, Spine.next]
  cases pipeFlush c.state
  · cases Rename.accept (renameIn i c.state)
    · exact fun _ _ _ _ _ h => by cases h
    · exact ok.contiguous
  · exact fun _ _ _ _ _ h => by cases h

/-- A misprediction that retires was recorded, and no flush came in between. -/
theorem next_retireBrMisp (h : Flow c) (hm : retireBrMisp (c.next i).state = true) :
    pipeFlush c.state = false ∧ c.state.rob.branchMisp = true := by
  obtain ⟨l, _, hl⟩ := List.any_eq_true.1 hm
  simp only [Config.next, Spine.next] at hl
  cases hf : pipeFlush c.state with
  | true =>
    rw [hf, if_pos rfl] at hl
    cases hl
  | false =>
    rw [hf, if_neg Bool.false_ne_true] at hl
    exact ⟨rfl, h.flagged _ (Bool.and_eq_true_iff.1 hl).2⟩

/-- No instruction retires past one that flushes. -/
theorem next_last (l m : Lane) (hlm : l < m)
    (hfl : flushesPkt ((c.next i).state.pipeRetirePkt l) = true)
    (hv : ((c.next i).state.pipeRetirePkt l).packetValid = true) :
    ((c.next i).state.pipeRetirePkt m).packetValid = false := by
  simp only [Config.next, Spine.next] at hfl hv ⊢
  cases hf : pipeFlush c.state with
  | true =>
    rw [hf, if_pos rfl] at hv
    cases hv
  | false =>
    rw [hf, if_neg Bool.false_ne_true] at hfl
    rw [if_neg Bool.false_ne_true]
    exact Rob.retire_stops c.state.rob l.val m.val hlm hfl

/-- **One edge keeps the flow.** -/
theorem next (h : Flow c) (ok : OkFetch i) : Flow (c.next i) where
  queue := h.queue.next h.okDispatch
  flagged := h.flagged.next _
  misp := by
    intro hm
    obtain ⟨hf, hset⟩ := h.next_retireBrMisp hm
    have hflush : (robIn i c.state).pipeFlush = false := hf
    show (Rob.misp (robIn i c.state) c.state.rob).2.1 = true
    rw [Rob.misp_flag, hflush, hset]
    rfl
  contiguous := next_contiguous ok
  ready := fun l hv m => ((accept_ready (next_taken l hv).2).2.2.2 m).2.2
  quiet := by
    intro hm
    -- while a misprediction waits the buffer takes nothing
    have hset := (h.next_retireBrMisp hm).2
    refine next_refused (Bool.eq_false_iff.2 fun ha => ?_)
    have := ((accept_ready ha).2.2.2 0).2.2
    rw [Rob.dispatchPktReady, hset, if_pos rfl] at this
    cases this
  stopped := by
    intro hs
    refine next_refused (Bool.eq_false_iff.2 fun ha => ?_)
    obtain ⟨hs0, he0, _⟩ := accept_ready ha
    simp only [Config.next, Spine.next, hs0, he0] at hs
    cases hs
  last := next_last

theorem init : Flow Config.init where
  queue := Rob.Queue.init
  flagged := Rob.Flagged.init
  misp := fun h => by cases h
  contiguous := fun _ _ _ _ _ h => by cases h
  ready := fun _ h => by cases h
  quiet := fun _ _ => rfl
  stopped := fun _ _ => rfl
  last := fun _ _ _ _ h => by cases h

end Flow

end R10K.Spine
