import R10K.Backend.Credit
import R10K.Rob.Tags
import R10K.Whole.Places

/-! The buffer as the ledger of its instructions.

A record of the buffer that waits for its writeback stands for the instruction at one
place: dispatch enters both, and what a lane of the bus carries is the instruction that
leaves its last place. So every instruction dispatched and not broadcast yet is in one
place, with its tag, its register and its slot; none is lost, and none is there twice. -/
namespace R10K.Whole
open Backend Lanes

namespace Config

def robIn (i : Inputs) (c : Config) : Rob.Inputs := c.core.robIn (c.coreIn i)

/-- What a lane of the dispatch register becomes in the buffer, and in its station. -/
def record (i : Inputs) (c : Config) (l : Lane) : Rob.Record := c.core.record (c.coreIn i) l

def dispatched (i : Inputs) (c : Config) (l : Lane) : Work :=
  .ofIssue (Rs.toIssue (Core.dispatchRsPkt (c.coreIn i) c.state.core l))

/-- The station it is loaded into. -/
def station (c : Config) (l : Lane) : Stage :=
  if (c.state.core.spine.pipeRenamePkt l).fuId = .agu0 then .mem (Rs.allocIndex c.state.core.rsMem l)
  else .int (Rs.allocIndex c.state.core.rsInt l)

/-- What is dispatched and waits for its writeback. -/
def entered (i : Inputs) (c : Config) : List Token :=
  ((Rob.dispatching (c.robIn i) c.state.core.spine.rob).filter Rob.Record.pending).map recordToken

end Config

section
variable {c : Config} {i : Inputs} {t : Token} {l : Lane} {w : Way} {p : Place}

/-! ### Dispatch -/

/-- Its station and the buffer are given the same instruction. -/
theorem dispatched_token (i : Inputs) (c : Config) (l : Lane) :
    (c.dispatched i l).token = recordToken (c.record i l) := rfl

/-- A dispatched instruction waits for its writeback if it needs a station. -/
theorem record_pending (hv : (c.state.core.spine.pipeRenamePkt l).packetValid = true) :
    (c.record i l).pending = needsStation c.state l := by
  have hcomp : (c.record i l).completeAtDispatch = ((c.state.core.spine.pipeRenamePkt l).inst == nop ||
      (if (c.state.core.spine.pipeRenamePkt l).halt then ExceptionCode.haltedOnWfi
        else if (c.state.core.spine.pipeRenamePkt l).illegal then .illegalInst else .noError) != .noError) := rfl
  rw [Rob.Record.pending, hcomp, needsStation, hv]
  simp only [bne]
  cases (c.state.core.spine.pipeRenamePkt l).inst == nop <;>
    cases (c.state.core.spine.pipeRenamePkt l).halt <;>
    cases (c.state.core.spine.pipeRenamePkt l).illegal <;> rfl

theorem needs_valid (h : needsStation c.state l = true) :
    (c.state.core.spine.pipeRenamePkt l).packetValid = true := by
  simp only [needsStation, Bool.and_eq_true] at h
  exact h.1.1.1

theorem mem_entered : t ∈ c.entered i ↔
    ∃ l, needsStation c.state l = true ∧ recordToken (c.record i l) = t := by
  rw [Config.entered, List.mem_map]
  constructor
  · rintro ⟨r, hr, rfl⟩
    obtain ⟨hr, hpend⟩ := List.mem_filter.1 hr
    obtain ⟨l, hl, rfl⟩ := List.mem_map.1 hr
    exact ⟨l, (record_pending (mem_group.1 hl)).symm.trans hpend, rfl⟩
  · rintro ⟨l, hl, rfl⟩
    have hv := needs_valid hl
    refine ⟨c.record i l, List.mem_filter.2 ⟨List.mem_map.2 ⟨l, mem_group.2 hv, rfl⟩, ?_⟩, rfl⟩
    rw [record_pending hv, hl]

/-- **Every instruction that needs a station is loaded into one of its own bank**, and nothing
else is loaded. -/
theorem loaded_iff (h : Backend.Inv c.backend) {s : Stage} {x : Work} : c.loaded i s = some x ↔
    ∃ l, needsStation c.state l = true ∧ c.station l = s ∧ c.dispatched i l = x := by
  have hneeds := fun l => rsPkt_needs i c.state l
  constructor
  · intro hx
    cases s with
    | int k =>
      obtain ⟨hv, rfl⟩ := loaded_int.1 hx
      obtain ⟨l, hl, heq⟩ := Rs.dispatchPktN_valid hv
      have hpkt : (c.intIn i).dispatchPkt l = if (c.state.core.spine.pipeRenamePkt l).fuId ≠ .agu0 then
        Core.dispatchRsPkt (c.coreIn i) c.state.core l else {} := rfl
      rw [hpkt] at heq
      rw [heq] at hv
      split at hv
      · rename_i hfu
        rw [if_pos hfu] at heq
        refine ⟨l, (hneeds l).symm.trans hv, ?_, by rw [heq]; rfl⟩
        rw [Config.station, if_neg hfu, (Rs.allocSel_index hl).1]
      · cases hv
    | mem k =>
      obtain ⟨hv, rfl⟩ := loaded_mem.1 hx
      obtain ⟨l, hl, heq⟩ := Rs.dispatchPktN_valid hv
      have hpkt : (c.memIn i).dispatchPkt l = if (c.state.core.spine.pipeRenamePkt l).fuId = .agu0 then
        Core.dispatchRsPkt (c.coreIn i) c.state.core l else {} := rfl
      rw [hpkt] at heq
      rw [heq] at hv
      split at hv
      · rename_i hfu
        rw [if_pos hfu] at heq
        refine ⟨l, (hneeds l).symm.trans hv, ?_, by rw [heq]; rfl⟩
        rw [Config.station, if_pos hfu, (Rs.allocSel_index hl).1]
      · cases hv
    | issue w => cases hx
    | read w => cases hx
    | mult0 => cases hx
    | mult1 => cases hx
  · rintro ⟨l, hl, rfl, rfl⟩
    by_cases hfu : (c.state.core.spine.pipeRenamePkt l).fuId = .agu0
    · have hpkt : (c.memIn i).dispatchPkt l = Core.dispatchRsPkt (c.coreIn i) c.state.core l := if_pos hfu
      have hv : ((c.memIn i).dispatchPkt l).packetValid = true := by
        rw [hpkt]
        exact (hneeds l).trans hl
      have hslot := (h.mem.slot (h.okMem i) l hv).2.2
      rw [Config.station, if_pos hfu, loaded_mem]
      have hslot' : Rs.dispatchPktN (c.memIn i) c.state.core.rsMem (Rs.allocIndex c.state.core.rsMem l) =
        (c.memIn i).dispatchPkt l := hslot
      rw [hslot', hpkt]
      exact ⟨(hneeds l).trans hl, rfl⟩
    · have hpkt : (c.intIn i).dispatchPkt l = Core.dispatchRsPkt (c.coreIn i) c.state.core l := if_pos hfu
      have hv : ((c.intIn i).dispatchPkt l).packetValid = true := by
        rw [hpkt]
        exact (hneeds l).trans hl
      have hslot := (h.int.slot (h.okInt i) l hv).2.2
      rw [Config.station, if_neg hfu, loaded_int]
      have hslot' : Rs.dispatchPktN (c.intIn i) c.state.core.rsInt (Rs.allocIndex c.state.core.rsInt l) =
        (c.intIn i).dispatchPkt l := hslot
      rw [hslot', hpkt]
      exact ⟨(hneeds l).trans hl, rfl⟩

theorem enter_iff (h : Backend.Inv c.backend) : c.enter i p = some t ↔
    ∃ l, needsStation c.state l = true ∧ p = .stage (c.station l) ∧ recordToken (c.record i l) = t := by
  cases p with
  | stage s =>
    rw [Config.enter, Option.map_eq_some_iff]
    constructor
    · rintro ⟨x, hx, rfl⟩
      obtain ⟨l, hl, rfl, rfl⟩ := (loaded_iff h).1 hx
      exact ⟨l, hl, rfl, dispatched_token i c l⟩
    · rintro ⟨l, hl, hs, rfl⟩
      cases hs
      exact ⟨_, (loaded_iff h).2 ⟨l, hl, rfl, rfl⟩, dispatched_token i c l⟩
  | execute w => simp [Config.enter]
  | load k => simp [Config.enter]

/-! ### The bus -/

/-- Lane 6 carries a load when no store executes. -/
theorem takes_iff {k : LdqTag} : c.takes i k = true ↔
    k = Ldq.writebackLdqIdx (Lsq.ldqIn (c.lsqIn i) c.state.lsq) c.state.lsq.ldq ∧
      (lsqWriteback i c.state).packetValid = true ∧ storeOnCdb c.state = false := by
  rw [Config.takes, Ldq.writebackAccept, Bool.and_eq_true, Bool.and_eq_true, beq_iff_eq, and_assoc]
  exact and_congr_right fun _ => and_congr_right fun _ => Iff.of_eq (Bool.not_eq_true' _)

/-- **What a lane carries leaves its last place**, under its tag and its register. -/
theorem lane_held (h : Unit i c) (hp : Parted c) (hv : (cdbPkt i c.state w).packetValid = true) :
    ∃ p t, c.held p = some t ∧ c.dest i p = none ∧ p.issued = true ∧ p.lane = w ∧
      t.robEntry = (cdbPkt i c.state w).robEntry ∧ t.destPrn = (cdbPkt i c.state w).destPrn := by
  rw [cdbPkt] at hv ⊢
  split at hv
  · rename_i hw
    rw [if_pos hw]
    split at hv
    · rename_i hst
      rw [if_pos hst]
      obtain ⟨hvalid, hwr⟩ := Bool.and_eq_true_iff.1 hst
      have hheld := held_execute.2 ⟨hvalid, rfl⟩
      refine ⟨.execute 6, _, hheld, ?_, rfl, hw.symm, rfl, rfl⟩
      have hload := (hp.one _ _ hheld).resolve_right (by
        rw [executeToken, hwr]
        exact Option.some_ne_none _)
      rw [Config.dest, if_pos rfl]
      exact congrArg (Option.map Place.load) hload
    · rename_i hst
      rw [if_neg hst]
      have hk : c.takes i _ = true := takes_iff.2 ⟨rfl, hv, Bool.not_eq_true _ ▸ hst⟩
      obtain ⟨ha, hwb⟩ := h.takes_held hk
      refine ⟨.load _, _, held_load.2 ⟨ha, hwb, rfl⟩, ?_, rfl, hw.symm, rfl, rfl⟩
      rw [Config.dest, hk, if_pos rfl]
  · rename_i hw
    rw [if_neg hw]
    refine ⟨.execute w, _, held_execute.2 ⟨hv, rfl⟩, ?_, rfl, rfl, rfl, rfl⟩
    rw [Config.dest, if_neg hw]

/-- **What leaves is on a lane.** -/
theorem held_lane (hp : Parted c) (hheld : c.held p = some t) (hd : c.dest i p = none) :
    ∃ w, (cdbPkt i c.state w).packetValid = true ∧ (cdbPkt i c.state w).robEntry = t.robEntry := by
  cases p with
  | stage s =>
    rw [Config.dest] at hd
    split at hd <;> cases hd
  | execute w =>
    obtain ⟨hv, rfl⟩ := held_execute.1 hheld
    by_cases hw : w = 6
    · subst hw
      rw [Config.dest, if_pos rfl, Option.map_eq_none_iff] at hd
      have hload : (executeToken (c.state.pipeExecutePkt 6)).load = none := hd
      -- it is not a load, so it is a store
      have hmem := hp.memory _ _ hheld
      rw [hload, Option.isSome_none, Bool.false_or] at hmem
      obtain ⟨u, hu⟩ := Option.isSome_iff_exists.1 (hmem.trans (show Place.memory (.execute 6) = true from rfl))
      have hst : storeOnCdb c.state = true := Bool.and_eq_true_iff.2 ⟨hv, (memTag_some hu).1⟩
      refine ⟨6, ?_⟩
      rw [cdbPkt, if_pos rfl, if_pos hst]
      exact ⟨hv, rfl⟩
    · refine ⟨w, ?_⟩
      rw [cdbPkt, if_neg hw]
      exact ⟨hv, rfl⟩
  | load k =>
    obtain ⟨-, -, rfl⟩ := held_load.1 hheld
    rw [Config.dest] at hd
    split at hd
    · rename_i hk
      obtain ⟨hidx, hv, hst⟩ := takes_iff.1 hk
      refine ⟨6, ?_⟩
      rw [cdbPkt, if_pos rfl, hst, if_neg Bool.false_ne_true]
      refine ⟨hv, ?_⟩
      rw [hidx]
      rfl
    · cases hd

theorem hit_iff {g : RobTag} : Rob.hit (c.robIn i) g = true ↔
    ∃ w, (cdbPkt i c.state w).packetValid = true ∧ (cdbPkt i c.state w).robEntry = g := by
  rw [Rob.hit, List.any_eq_true]
  constructor
  · rintro ⟨w, -, hw⟩
    rw [Bool.and_eq_true, beq_iff_eq] at hw
    exact ⟨w, hw⟩
  · rintro ⟨w, hw⟩
    refine ⟨w, List.mem_finRange w, ?_⟩
    rw [Bool.and_eq_true, beq_iff_eq]
    exact hw

/-- A writeback of an instruction's tag is its own. -/
theorem hit_leaves (h : Unit i c) (hp : Parted c) (ht : Tokens.Tracks Token.robEntry c.held c.ledger)
    (hheld : c.held p = some t) : Rob.hit (c.robIn i) t.robEntry = true ↔ c.dest i p = none := by
  rw [hit_iff]
  constructor
  · rintro ⟨w, hv, htag⟩
    obtain ⟨q, u, hu, hd, -, -, hrob, -⟩ := lane_held h hp hv
    obtain ⟨rfl, -⟩ := ht.eq_of_key hheld hu (htag.symm.trans hrob.symm)
    exact hd
  · intro hd
    exact held_lane hp hheld hd

/-! ### One edge of the ledger -/

/-- What retires does not wait for its writeback. -/
theorem retiring_done (h : Core.Inv c.core) {r : Rob.Record}
    (hr : r ∈ c.backend.robLog.live.take (Rob.retireEnCnt c.state.core.spine.rob)) : r.pending = false := by
  obtain ⟨j, hj⟩ := List.getElem?_of_mem hr
  have hlt := (List.getElem?_eq_some_iff.1 hj).1
  rw [List.length_take] at hlt
  rw [List.getElem?_take_of_lt (by omega)] at hj
  have hbase := Core.base_length h.spine
  have hlen : j < c.core.robLog.live.length := (List.getElem?_eq_some_iff.1 hj).1
  have hat : c.core.At r (c.core.base + j) _ := ⟨Nat.le_add_right _ _,
    by rw [Nat.add_sub_cancel_left]; exact hj, List.getElem?_eq_getElem (by omega)⟩
  rw [Rob.Record.pending]
  rcases Core.retiring_finished h.rob hat (by show _ < _ + Rob.retireEnCnt c.state.core.spine.rob; omega) with
    hd | hc
  · rw [hd]
    rfl
  · rw [hc, Bool.not_true, Bool.and_false]

theorem mark_pending (j : Rob.Inputs) (r : Rob.Record) :
    (Rob.mark j r).pending = (r.pending && !Rob.hit j r.tag) := by
  rw [Rob.mark]
  split
  · rename_i h
    obtain ⟨hp, hh⟩ := Bool.and_eq_true_iff.1 h
    rw [hp, hh]
    rfl
  · rename_i h
    cases hp : r.pending with
    | false => rfl
    | true =>
      rw [hp, Bool.true_and, Bool.not_eq_true] at h
      rw [h]
      rfl

theorem mark_token (j : Rob.Inputs) (r : Rob.Record) : recordToken (Rob.mark j r) = recordToken r := by
  rw [recordToken, (Rob.mark_eq_iff j r).1, (Rob.mark_eq_iff j r).2]
  rfl

/-- The records of the next buffer. -/
theorem live_next (h : Core.Inv c.core) (hf : pipeFlush c.state = false) : (c.next i).backend.robLog.live =
    (c.backend.robLog.live.map (Rob.mark (c.robIn i))).drop (Rob.retireEnCnt c.state.core.spine.rob) ++
      Rob.dispatching (c.robIn i) c.state.core.spine.rob :=
  Core.next_live h.spine (c.coreIn i) hf

/-- **The buffer loses what is broadcast and gains what is dispatched.** -/
theorem ledger_next (h : Core.Inv c.core) (hf : pipeFlush c.state = false) : (c.next i).ledger =
    Tokens.update (fun t => Rob.hit (c.robIn i) t.robEntry) (c.entered i) c.ledger := by
  have hstay : ((c.backend.robLog.live.map (Rob.mark (c.robIn i))).drop
      (Rob.retireEnCnt c.state.core.spine.rob)).filter Rob.Record.pending =
        (c.backend.robLog.live.map (Rob.mark (c.robIn i))).filter Rob.Record.pending := by
    have htake : ((c.backend.robLog.live.map (Rob.mark (c.robIn i))).take
        (Rob.retireEnCnt c.state.core.spine.rob)).filter Rob.Record.pending = [] := by
      rw [List.filter_eq_nil_iff, ← List.map_take]
      intro r hr
      obtain ⟨r₀, hr₀, rfl⟩ := List.mem_map.1 hr
      rw [mark_pending, retiring_done h hr₀, Bool.false_and]
      exact Bool.false_ne_true
    conv_rhs => rw [← List.take_append_drop (Rob.retireEnCnt c.state.core.spine.rob)
      (c.backend.robLog.live.map (Rob.mark (c.robIn i))), List.filter_append, htake, List.nil_append]
  have hmark : ((c.backend.robLog.live.map (Rob.mark (c.robIn i))).filter Rob.Record.pending).map recordToken =
      c.ledger.filter fun t => !Rob.hit (c.robIn i) t.robEntry := by
    rw [Config.ledger, List.filter_map, List.filter_map, List.map_map, List.filter_filter]
    congr 1
    · funext r
      exact mark_token _ r
    · congr 1
      funext r
      rw [Function.comp_apply, mark_pending, Bool.and_comm]
      rfl
  rw [Config.ledger, live_next h hf, List.filter_append, List.map_append, hstay, hmark]
  rfl

/-- No two records of the buffer have the same tag. -/
theorem live_tags (hq : Rob.Queue c.core.spine.rob) : (c.backend.robLog.live.map Rob.Record.tag).Nodup := by
  rw [List.nodup_iff_injective_get]
  intro a b hab
  have hlen : (c.backend.robLog.live.map Rob.Record.tag).length = c.backend.robLog.live.length := List.length_map _
  have ha := List.getElem?_eq_getElem (lt_of_lt_of_eq a.isLt hlen)
  have hb := List.getElem?_eq_getElem (lt_of_lt_of_eq b.isLt hlen)
  rw [List.get_eq_getElem, List.get_eq_getElem, List.getElem_map, List.getElem_map] at hab
  exact Fin.ext (hq.given.distinct _ _ _ _ ha hb hab)

/-- What waits for its writeback stays in the buffer. -/
theorem pending_stays (h : Core.Inv c.core) {r : Rob.Record} (hr : r ∈ c.backend.robLog.live)
    (hp : r.pending = true) :
    r ∈ c.backend.robLog.live.drop (Rob.retireEnCnt c.state.core.spine.rob) := by
  rw [← List.take_append_drop (Rob.retireEnCnt c.state.core.spine.rob) c.backend.robLog.live] at hr
  refine (List.mem_append.1 hr).resolve_left fun htake => ?_
  rw [retiring_done h htake] at hp
  cases hp

/-- What is dispatched has a tag of its own. -/
theorem entered_new (hcore : Core.Inv c.core) (hq : Rob.Queue (c.next i).core.spine.rob)
    (hf : pipeFlush c.state = false) {t' : Token} (ht : t ∈ c.ledger) (ht' : t' ∈ c.entered i) :
    t.robEntry ≠ t'.robEntry := by
  have htags := live_tags hq
  rw [live_next hcore hf, List.map_append, List.nodup_append] at htags
  obtain ⟨r, hr, rfl⟩ := List.mem_map.1 ht
  obtain ⟨hr, hpend⟩ := List.mem_filter.1 hr
  obtain ⟨r', hr', rfl⟩ := List.mem_map.1 ht'
  refine htags.2.2 r.tag ?_ r'.tag (List.mem_map_of_mem (List.mem_filter.1 hr').1)
  rw [← List.map_drop, List.map_map]
  exact List.mem_map.2 ⟨r, pending_stays hcore hr hpend, (Rob.mark_eq_iff _ r).1⟩

/-- **One edge keeps the ledger.** -/
theorem tracks_next (h : Unit i c) (hs : Sorted c) (hp : Parted c) (hb : Backend.Inv c.backend)
    (hcore : Core.Inv c.core) (hq : Rob.Queue (c.next i).core.spine.rob)
    (ht : Tokens.Tracks Token.robEntry c.held c.ledger) (hf : pipeFlush c.state = false) :
    Tokens.Tracks Token.robEntry (c.next i).held (c.next i).ledger := by
  have htags := live_tags hq
  rw [live_next hcore hf, List.map_append, List.nodup_append] at htags
  have hentered : (c.entered i).map Token.robEntry =
      ((Rob.dispatching (c.robIn i) c.state.core.spine.rob).filter Rob.Record.pending).map Rob.Record.tag := by
    rw [Config.entered, List.map_map]
    rfl
  rw [ledger_next hcore hf]
  refine ht.next (h.moves hs hp hf) (fun p t hheld => hit_leaves h hp ht hheld) ?_ ?_ ?_ ?_
  · intro t
    rw [mem_entered]
    constructor
    · rintro ⟨l, hl, rfl⟩
      exact ⟨_, (enter_iff hb).2 ⟨l, hl, rfl, rfl⟩⟩
    · rintro ⟨q, hq⟩
      obtain ⟨l, hl, -, rfl⟩ := (enter_iff hb).1 hq
      exact ⟨l, hl, rfl⟩
  · rw [hentered]
    exact ((List.filter_sublist).map _).nodup htags.2.1
  · exact fun t ht t' ht' => entered_new hcore hq hf ht ht'
  · intro q q' t hq hq'
    obtain ⟨l, hl, rfl, rfl⟩ := (enter_iff hb).1 hq
    obtain ⟨l', hl', rfl, he⟩ := (enter_iff hb).1 hq'
    have htag : (c.record i l').tag = (c.record i l).tag := congrArg Token.robEntry he
    have hown := (hb.flow.queue.ownSlots (hb.okRob i)).own l' l (needs_valid hl') (needs_valid hl)
      (congrArg Circular.Ptr.idx htag)
    rw [hown]

end

end R10K.Whole
