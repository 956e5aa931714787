import R10K.Spine.Flow

/-! The invariant of the in-order part.

Between a
recovery and the next flush the free list, the architectural map and the instructions
in flight hold every register once, and the speculative map is the architectural one
with the instructions in flight applied. In the recovery cycle only the architectural
map counts. -/
namespace R10K.Spine
open Lanes Renaming

section
variable {i : Inputs} {c : Config}

/-- The registers the retiring group returns. -/
theorem release_retireGroup (s : State) :
    (retireGroup s).foldl (fun f r => release f r.prev) s.rename.freeList =
      Rename.freeListRetireFwd (renameIn i s) s.rename := by
  funext p
  rw [foldl_release, Rename.freeListRetireFwd, Rename.recycled, retireGroup, List.any_map, group,
    List.any_filter]
  congr 2
  funext l
  show ((s.pipeRetirePkt l).packetValid &&
    decide (p = (s.pipeRetirePkt l).destPrnPrev ∧ p ≠ 0)) =
      ((s.pipeRetirePkt l).packetValid && p == (s.pipeRetirePkt l).destPrnPrev && p != 0)
  rw [Bool.and_assoc]
  congr 1
  rw [Bool.eq_iff_iff, decide_eq_true_eq, Bool.and_eq_true, beq_iff_eq, bne_iff_ne]

/-- The architectural map takes the retiring group in order. -/
theorem archRat_next (s : State) : (Spine.next i s).archRat = replay s.archRat (retireGroup s) := by
  funext a
  rw [retireGroup, group, replay_filter]
  show Rename.nextArchRat s.archRat s.pipeRetirePkt a = _
  rw [Rename.nextArchRat]
  congr 1
  funext r l
  congr 1
  rw [eq_iff_iff, Bool.and_eq_true, Bool.and_eq_true, beq_iff_eq, bne_iff_ne, and_assoc]
  exact Iff.rfl

end

/-! ### The invariant -/

/-- Between a recovery and the next flush. -/
structure Steady (c : Config) : Prop where
  conserved : Conserved c.state.rename.freeList c.state.archRat c.inFlight
  rat : c.state.rename.rat = replay c.state.archRat c.inFlight

/-- In the cycle after a flush. -/
structure Recovering (c : Config) : Prop where
  injective : Injective c.state.archRat
  zeroFree : c.state.rename.freeList 0 = false
  free : 4 ≤ (Finset.univ.filter fun p => c.state.rename.freeList p = true).card
  retire : ∀ l, c.state.pipeRetirePkt l = {}
  inFlight : c.inFlight = []

/-- No flush follows a flush. -/
theorem Recovering.noFlush {c : Config} (h : Recovering c) : pipeFlush c.state = false := by
  simp [pipeFlush, retireBrMisp, retireException, h.retire]

structure Inv (c : Config) : Prop extends Flow c where
  steady : c.state.recovArchSt = false → Steady c
  recovering : c.state.recovArchSt = true → Recovering c
  program : c.program.drop c.committed = c.inFlight
  committed : c.committed ≤ c.program.length
  archRat : c.state.archRat = replay (fun _ => 0) (c.program.take c.committed)
  named : ∀ r ∈ c.program, r.prn = 0 ↔ r.arn = 0

namespace Inv
variable {c : Config} {i : Inputs}

/-- What the buffer holds and what it is about to receive fit in it. -/
theorem live_le (h : Inv c) (i : Inputs) :
    c.robLog.live.length + (renameGroup c.state).length ≤ 64 := by
  have hroom : c.robLog.dispatched.length + Rob.dispatchPktCnt (robIn i c.state) ≤
      c.robLog.retired.length + 64 := h.queue.dispatching_le h.okDispatch
  have hgroup : (renameGroup c.state).length = Rob.dispatchPktCnt (robIn i c.state) := by
    rw [Rob.dispatchPktCnt_eq, renameGroup, List.length_map]
    rfl
  have hle : c.robLog.retired.length ≤ c.robLog.dispatched.length := h.queue.le
  rw [hgroup, Rob.Log.live, List.length_drop]
  omega

/-- The retiring group commits, and the registers it displaces come back. -/
theorem commit (h : Inv c) (hr : c.state.recovArchSt = false) :
    Conserved (Rename.freeListRetireFwd (renameIn i c.state) c.state.rename)
      (Spine.next i c.state).archRat
      (c.robLog.live.map (fun r => robInstr r.pkt) ++ renameGroup c.state) := by
  have hc := (h.steady hr).conserved
  rw [Config.inFlight, List.append_assoc] at hc
  have := hc.commit_all
  rwa [release_retireGroup, ← archRat_next (i := i)] at this

/-- At least four registers are free, those being returned included. -/
theorem free_card (h : Inv c) (i : Inputs) :
    4 ≤ (Finset.univ.filter fun p =>
      Rename.freeListRetireFwd (renameIn i c.state) c.state.rename p = true).card := by
  cases hr : c.state.recovArchSt with
  | false =>
    have hcard := (h.commit (i := i) hr).free_card
    have hlive := h.live_le i
    have hprn : Fintype.card Prn = 100 := Fintype.card_fin 100
    have harn : Fintype.card Arn = 32 := by decide
    rw [List.length_append, List.length_map] at hcard
    omega
  | true =>
    refine (h.recovering hr).free.trans (Finset.card_le_card fun p hp => ?_)
    rw [Finset.mem_filter] at hp ⊢
    exact ⟨hp.1, by rw [Rename.freeListRetireFwd, hp.2, Bool.true_or]⟩

theorem zeroFree (h : Inv c) : c.state.rename.freeList 0 = false := by
  cases hr : c.state.recovArchSt with
  | false => exact (h.steady hr).conserved.zeroFree
  | true => exact (h.recovering hr).zeroFree

/-- Every lane is offered a register other than 0. -/
theorem offered (h : Inv c) (i : Inputs) (l : Lane) :
    Rename.freePrnValid (renameIn i c.state) c.state.rename l = true ∧
      Rename.freePrn (renameIn i c.state) c.state.rename l ≠ 0 := by
  have hv := Rename.freePrnValid_of_card (h.free_card i) l
  exact ⟨hv, Rename.freePrn_ne_zero hv h.zeroFree⟩

/-- A lane carries register 0 exactly if it has no destination other than x0. -/
theorem renamed_zero (h : Inv c) (i : Inputs) (l : Lane) :
    (Rename.renamePkt (renameIn i c.state) c.state.rename l).destPrn = 0 ↔
      (Rename.renamePkt (renameIn i c.state) c.state.rename l).destArn = 0 := by
  show Rename.prDest (renameIn i c.state) c.state.rename l = 0 ↔
    (Rename.decoded (renameIn i c.state) c.state.rename l).destArn = 0
  rw [Rename.prDest]
  by_cases hd : Rename.hasDest (Rename.decoded (renameIn i c.state) c.state.rename l) = true
  · rw [if_pos hd]
    exact iff_of_false (h.offered i l).2 (Rename.hasDest_iff.1 hd)
  · rw [if_neg hd]
    exact iff_of_true rfl (not_not.1 fun hne => hd (Rename.hasDest_iff.2 hne))

/-! ### The program -/

/-- The committed part of the program grows by the retiring group. -/
theorem take_retire (h : Inv c) : c.program.take (c.committed + (retireGroup c.state).length) =
    c.program.take c.committed ++ retireGroup c.state := by
  rw [List.take_add, h.program, Config.inFlight, List.append_assoc, List.take_left]

theorem drop_retire (h : Inv c) : c.program.drop (c.committed + (retireGroup c.state).length) =
    c.robLog.live.map (fun r => robInstr r.pkt) ++ renameGroup c.state := by
  rw [← List.drop_drop, h.program, Config.inFlight, List.append_assoc, List.drop_left]

theorem retire_le (h : Inv c) : c.committed + (retireGroup c.state).length ≤ c.program.length := by
  have hlen := congrArg List.length h.program
  simp only [Config.inFlight, List.length_append, List.length_drop] at hlen
  have := h.committed
  omega

theorem next_committed (h : Inv c) (i : Inputs) : (c.next i).committed ≤ (c.next i).program.length := by
  have hle := h.retire_le
  simp only [Config.next]
  split
  · rw [List.length_take]
    omega
  · rw [List.length_append]
    omega

/-- **The architectural map is the committed program.** -/
theorem next_archRat (h : Inv c) (i : Inputs) :
    (c.next i).state.archRat = replay (fun _ => 0) ((c.next i).program.take (c.next i).committed) := by
  have htake : (c.next i).program.take (c.next i).committed =
      c.program.take (c.committed + (retireGroup c.state).length) := by
    simp only [Config.next]
    split
    · rw [List.take_take, Nat.min_self]
    · rw [List.take_append_of_le_length h.retire_le]
  rw [htake, h.take_retire, replay_append, ← h.archRat]
  exact archRat_next c.state

theorem next_program (h : Inv c) (i : Inputs) :
    (c.next i).program.drop (c.next i).committed = (c.next i).inFlight := by
  cases hf : pipeFlush c.state with
  | true =>
    rw [inFlight_flush hf]
    simp only [Config.next, hf, if_true]
    exact List.drop_eq_nil_of_le (by rw [List.length_take]; omega)
  | false =>
    rw [inFlight_next h.queue hf]
    simp only [Config.next, hf, Bool.false_eq_true, if_false]
    rw [List.drop_append_of_le_length h.retire_le, h.drop_retire]

theorem next_named (h : Inv c) (i : Inputs) : ∀ r ∈ (c.next i).program, r.prn = 0 ↔ r.arn = 0 := by
  intro r hr
  simp only [Config.next] at hr
  split at hr
  · exact h.named r (List.mem_of_mem_take hr)
  · rcases List.mem_append.1 hr with hr | hr
    · exact h.named r hr
    · rw [Rename.renamed] at hr
      split at hr
      · obtain ⟨l, _, rfl⟩ := List.mem_map.1 hr
        exact h.renamed_zero i l
      · cases hr

/-! ### The next cycle -/

/-- In the recovery cycle nothing is in flight, renamed or committed. -/
theorem recovering_next (h : Inv c) (ok : Ok i c) (hr : c.state.recovArchSt = true) :
    (c.next i).inFlight = [] ∧ (c.next i).state.archRat = c.state.archRat := by
  have hrec := h.recovering hr
  have hempty := hrec.inFlight
  rw [Config.inFlight, List.append_eq_nil_iff, List.append_eq_nil_iff] at hempty
  have hrenamed : Rename.renamed (renameIn i c.state) c.state.rename = [] := by
    rw [Rename.renamed, Rename.groupTo, List.filter_eq_nil_iff.2, List.map_nil, ite_self]
    intro l _
    have hl : (Rename.renamePkt (renameIn i c.state) c.state.rename l).packetValid = false := ok.recov hr l
    rw [hl]
    exact Bool.false_ne_true
  refine ⟨?_, ?_⟩
  · rw [inFlight_next h.queue hrec.noFlush, hempty.1.2, hempty.2, hrenamed]
    rfl
  · rw [show (c.next i).state.archRat = _ from archRat_next c.state, hempty.1.1, replay_nil]

/-- **The free list is rebuilt as what the architectural map leaves.** -/
theorem rebuilt (h : Inv c) (ok : Ok i c) (hr : c.state.recovArchSt = true) (p : Prn) :
    (c.next i).state.rename.freeList p = true ↔ ∀ a, (c.next i).state.archRat a ≠ p := by
  have hrin : (renameIn i c.state).recovArchSt = true := hr
  show Rename.nextFreeList (renameIn i c.state) c.state.rename p = true ↔ _
  rw [Rename.nextFreeList, hrin, if_pos rfl, decide_eq_true_eq, (h.recovering_next ok hr).2]
  exact forall_congr' fun a => ne_comm

theorem next_steady (h : Inv c) (ok : Ok i c) (hf : pipeFlush c.state = false) : Steady (c.next i) := by
  cases hr : c.state.recovArchSt with
  | false =>
    have hin := inFlight_next (i := i) h.queue hf
    have hrat : c.state.rename.rat = replay (Spine.next i c.state).archRat
        (c.robLog.live.map (fun r => robInstr r.pkt) ++ renameGroup c.state) := by
      rw [(h.steady hr).rat, Config.inFlight, List.append_assoc, replay_append, archRat_next]
    obtain ⟨hcons, hmap⟩ := Rename.next_conserved (i := renameIn i c.state) hr
      (fun l => (h.offered i l).1) hrat (h.commit hr)
    exact ⟨by rw [hin]; exact hcons, by rw [hin]; exact hmap⟩
  | true =>
    obtain ⟨hin, harch⟩ := h.recovering_next ok hr
    refine ⟨?_, ?_⟩
    · rw [hin]
      exact (harch ▸ (h.recovering hr).injective).conserved (h.rebuilt ok hr)
    · rw [hin, replay_nil, harch]
      funext a
      have hrin : (renameIn i c.state).recovArchSt = true := hr
      show Rename.nextRat (renameIn i c.state) c.state.rename a = _
      rw [Rename.nextRat, hrin, if_pos rfl]
      rfl

theorem next_recovering (h : Inv c) (hf : pipeFlush c.state = true) : Recovering (c.next i) := by
  have hr : c.state.recovArchSt = false := by
    cases hr : c.state.recovArchSt with
    | false => rfl
    | true =>
      rw [(h.recovering hr).noFlush] at hf
      cases hf
  have ha := accept_flush h.misp hf i
  have hfree : (c.next i).state.rename.freeList =
      Rename.freeListRetireFwd (renameIn i c.state) c.state.rename := by
    funext p
    show Rename.nextFreeList (renameIn i c.state) c.state.rename p = _
    rw [Rename.nextFreeList_eq hr]
    simp [Rename.freeTo, Rename.freePrnReady_refused ha]
  refine ⟨(h.commit hr).injective, ?_, ?_, fun l => ?_, inFlight_flush hf⟩
  · rw [hfree]
    exact (h.commit hr).zeroFree
  · rw [hfree]
    exact h.free_card i
  · simp only [Config.next, Spine.next, hf, if_true]

/-- **One edge keeps the invariant.** -/
theorem next (h : Inv c) (ok : Ok i c) : Inv (c.next i) where
  toFlow := h.toFlow.next ok.toOkFetch
  steady := fun hr => h.next_steady ok hr
  recovering := fun hr => h.next_recovering hr
  program := h.next_program i
  committed := h.next_committed i
  archRat := h.next_archRat i
  named := h.next_named i

theorem init : Inv Config.init where
  toFlow := Flow.init
  steady := fun _ => by
    have hempty : Config.init.inFlight = [] := rfl
    refine ⟨?_, hempty ▸ rfl⟩
    rw [hempty]
    refine Injective.conserved ⟨rfl, fun p hp => ?_⟩ fun p => ?_
    · have hnone : mapped Config.init.state.archRat p = ∅ :=
        Finset.filter_eq_empty_iff.2 fun a _ ha => hp ha.2.symm
      rw [hnone]
      exact Nat.zero_le 1
    · show (p != 0) = true ↔ ∀ a, (0 : Prn) ≠ p
      rw [bne_iff_ne]
      exact ⟨fun h _ => h.symm, fun h => (h 0).symm⟩
  recovering := fun h => by cases h
  program := rfl
  committed := Nat.le_refl _
  archRat := rfl
  named := fun _ h => by cases h

end Inv

/-- Every reachable configuration keeps the invariant. -/
theorem reach_inv {c : Config} (h : Reach c) : Inv c :=
  Run.Reach.invariant Inv Inv.init (fun _ _ hinv ok => hinv.next ok) h

end R10K.Spine
