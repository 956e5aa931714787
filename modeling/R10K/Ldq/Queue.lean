import R10K.Ldq.Cycle
import R10K.Lib.Slots

/-! The load queue as a queue.

The two pointers stand at the numbers of loads retired and dispatched since the last
flush, and the slots between are the valid ones. -/
namespace R10K.Ldq
open Circular Lanes Lsq

def State.head (s : State) : Ptr 4 := ⟨s.headPosBit, s.headPtr⟩
def State.tail (s : State) : Ptr 4 := ⟨s.tailPosBit, s.tailPtr⟩

/-- What ties the pointers and the slots to the log. -/
structure Queue (c : Config) : Prop where
  le : c.log.retired ≤ c.log.loads.length
  room : c.log.loads.length ≤ c.log.retired + 16
  credit : c.ready = true → c.log.loads.length + 4 ≤ c.log.retired + 16
  head : c.ldq.head = Ptr.ofCount 4 c.log.retired
  tail : c.ldq.tail = Ptr.ofCount 4 c.log.loads.length
  tag : ∀ (k : Nat) (r : Load), c.log.loads[k]? = some r → r.tag = (Ptr.ofCount 4 k).idx
  slot : ∀ k, c.log.retired ≤ k → k < c.log.loads.length →
    (c.ldq.ldqEntry (Ptr.ofCount 4 k).idx).entryValid = true
  free : ∀ k, c.log.loads.length ≤ k → k < c.log.retired + 16 →
    (c.ldq.ldqEntry (Ptr.ofCount 4 k).idx).entryValid = false

theorem retireCnt_eq (i : Inputs) : retireCnt i = (group (retiresLoad i)).length := by
  rw [group_length, retireCnt]
  omega

theorem retireCnt_le (i : Inputs) : retireCnt i ≤ 4 := by
  rw [retireCnt_eq]
  exact group_length_le _

theorem dispatchCnt_eq (i : Inputs) : dispatchCnt i = (group i.dispatchValid).length := by
  rw [group_length, dispatchCnt]

theorem dispatchCnt_le (i : Inputs) : dispatchCnt i ≤ 4 := by
  rw [dispatchCnt_eq]
  exact group_length_le _

/-! ### The log after a cycle -/

namespace Log
variable {taken : LdqTag → Bool} {i : Inputs} {s : State} {l : Log}

/-- The load at place `k` after a cycle without a flush. -/
theorem nextWith_get (hf : i.pipeFlush = false) (hle : l.retired ≤ l.loads.length) (k : Nat) :
    (l.nextWith taken i s).loads[k]? =
      if k < l.retired then l.loads[k]?
      else if k < l.loads.length then l.loads[k]?.map (Load.stepWith taken i)
      else (dispatching i s)[k - l.loads.length]? := by
  have hlen : (l.loads.take l.retired).length = l.retired := by
    rw [List.length_take]
    omega
  have hlive : l.live.length = l.loads.length - l.retired := List.length_drop
  simp only [nextWith, hf, Bool.false_eq_true, if_false]
  rw [List.append_assoc]
  by_cases h1 : k < l.retired
  · rw [if_pos h1, List.getElem?_append_left (by omega), List.getElem?_take_of_lt h1]
  · rw [if_neg h1, List.getElem?_append_right (by omega), hlen]
    by_cases h2 : k < l.loads.length
    · rw [if_pos h2, List.getElem?_append_left (by rw [List.length_map]; omega), List.getElem?_map,
        live, List.getElem?_drop, Nat.add_sub_cancel' (by omega)]
    · rw [if_neg h2, List.getElem?_append_right (by rw [List.length_map]; omega), List.length_map, hlive,
        show k - l.retired - (l.loads.length - l.retired) = k - l.loads.length by omega]

theorem nextWith_length (hf : i.pipeFlush = false) (hle : l.retired ≤ l.loads.length) :
    (l.nextWith taken i s).loads.length = l.loads.length + dispatchCnt i ∧
      (l.nextWith taken i s).retired = l.retired + retireCnt i := by
  simp only [nextWith, hf, Bool.false_eq_true, if_false, List.length_append, List.length_take,
    List.length_map, live, List.length_drop, dispatching, dispatchCnt_eq, and_true]
  omega

/-- A load of the next log is a retired one, a live one after its cycle, or one of this
cycle's group. -/
theorem nextWith_load (hf : i.pipeFlush = false) (hle : l.retired ≤ l.loads.length) {k : Nat} {r : Load}
    (hr : (l.nextWith taken i s).loads[k]? = some r) :
    (k < l.retired ∧ l.loads[k]? = some r) ∨
    (l.retired ≤ k ∧ ∃ r₀, l.loads[k]? = some r₀ ∧ r = r₀.stepWith taken i) ∨
    (l.loads.length ≤ k ∧ ∃ m, (group i.dispatchValid)[k - l.loads.length]? = some m ∧
      r = { tag := dispatchResp i s m }) := by
  rw [nextWith_get hf hle] at hr
  split at hr
  · exact .inl ⟨‹_›, hr⟩
  · split at hr
    · obtain ⟨r₀, h₀, rfl⟩ := Option.map_eq_some_iff.1 hr
      exact .inr (.inl ⟨by omega, r₀, h₀, rfl⟩)
    · rw [dispatching, List.getElem?_map] at hr
      obtain ⟨m, hm, rfl⟩ := Option.map_eq_some_iff.1 hr
      exact .inr (.inr ⟨by omega, m, hm, rfl⟩)

end Log

namespace Moves
variable {taken : LdqTag → Bool} {i : Inputs} {c c' : Config}

theorem loads_length (h : Moves taken i c c') (hle : c.log.retired ≤ c.log.loads.length) :
    c'.log.loads.length = c.log.loads.length + dispatchCnt i := by
  rw [h.log]
  exact (Log.nextWith_length h.noFlush hle).1

theorem retired (h : Moves taken i c c') (hle : c.log.retired ≤ c.log.loads.length) :
    c'.log.retired = c.log.retired + retireCnt i := by
  rw [h.log]
  exact (Log.nextWith_length h.noFlush hle).2

theorem load (h : Moves taken i c c') (hle : c.log.retired ≤ c.log.loads.length) {k : Nat} {r : Load}
    (hr : c'.log.loads[k]? = some r) :
    (k < c.log.retired ∧ c.log.loads[k]? = some r) ∨
    (c.log.retired ≤ k ∧ ∃ r₀, c.log.loads[k]? = some r₀ ∧ r = r₀.stepWith taken i) ∨
    (c.log.loads.length ≤ k ∧ ∃ m, (group i.dispatchValid)[k - c.log.loads.length]? = some m ∧
      r = { tag := dispatchResp i c.ldq m }) := by
  rw [h.log] at hr
  exact Log.nextWith_load h.noFlush hle hr

end Moves

namespace Cycle
variable {taken : LdqTag → Bool} {i : Inputs} {c c' : Config}

theorem loads_length (h : Cycle taken i c c') (hle : c.log.retired ≤ c.log.loads.length) :
    c'.log.loads.length = c.log.loads.length + dispatchCnt i :=
  h.moves.loads_length hle

theorem retired (h : Cycle taken i c c') (hle : c.log.retired ≤ c.log.loads.length) :
    c'.log.retired = c.log.retired + retireCnt i :=
  h.moves.retired hle

theorem load (h : Cycle taken i c c') (hle : c.log.retired ≤ c.log.loads.length) {k : Nat} {r : Load}
    (hr : c'.log.loads[k]? = some r) :
    (k < c.log.retired ∧ c.log.loads[k]? = some r) ∨
    (c.log.retired ≤ k ∧ ∃ r₀, c.log.loads[k]? = some r₀ ∧ r = r₀.stepWith taken i) ∨
    (c.log.loads.length ≤ k ∧ ∃ m, (group i.dispatchValid)[k - c.log.loads.length]? = some m ∧
      r = { tag := dispatchResp i c.ldq m }) :=
  h.moves.load hle hr

end Cycle

/-! ### One cycle -/

namespace Queue
variable {c : Config} {i : Inputs}

theorem retire_le (hq : Queue c) (ok : OkQueue i c) :
    c.log.retired + retireCnt i ≤ c.log.loads.length := by
  have hle := hq.le
  rcases Nat.eq_zero_or_pos (retireCnt i) with h0 | hpos
  · omega
  · have hlt : retireCnt i - 1 < (group (retiresLoad i)).length := by
      rw [← retireCnt_eq]
      omega
    obtain ⟨r, hr, _⟩ := ok.retire (retireCnt i - 1) _ (List.getElem?_eq_getElem hlt)
    have := (List.getElem?_eq_some_iff.1 hr).1
    simp only [Log.live, List.length_drop] at this
    omega

theorem dispatch_le (hq : Queue c) (ok : OkQueue i c) :
    c.log.loads.length + dispatchCnt i ≤ c.log.retired + 16 := by
  have hroom := hq.room
  have h4 := dispatchCnt_le i
  rcases Nat.eq_zero_or_pos (dispatchCnt i) with h0 | hpos
  · omega
  · have := hq.credit (ok.ready hpos)
    omega

/-- The slot of a live load. -/
theorem live_slot (hq : Queue c) {r : Load} (hr : r ∈ c.log.live) :
    ∃ k, c.log.retired ≤ k ∧ c.log.loads[k]? = some r ∧ r.tag = (Ptr.ofCount 4 k).idx := by
  obtain ⟨m, hm, hget⟩ := List.getElem_of_mem hr
  simp only [Log.live, List.length_drop] at hm
  simp only [Log.live, List.getElem_drop] at hget
  have hk : c.log.loads[c.log.retired + m]? = some r := by
    rw [List.getElem?_eq_getElem (by omega), hget]
  exact ⟨_, Nat.le_add_right _ _, hk, hq.tag _ r hk⟩

/-- The retiring slots are those of the oldest loads. -/
theorem retires_eq (hq : Queue c) (ok : OkQueue i c) (k : Nat)
    (hk : c.log.retired ≤ k ∧ k < c.log.retired + 16) :
    retires i (Ptr.ofCount 4 k).idx = decide (k < c.log.retired + retireCnt i) := by
  have hret := hq.retire_le ok
  have hroom := hq.room
  have htag : ∀ (j : Nat) (l : Lane), (group (retiresLoad i))[j]? = some l →
      (i.retirePkt l).ldqTag = (Ptr.ofCount 4 (c.log.retired + j)).idx ∧ j < retireCnt i := by
    intro j l hl
    obtain ⟨r, hr, ht⟩ := ok.retire j l hl
    rw [Log.live, List.getElem?_drop] at hr
    refine ⟨ht.trans (hq.tag _ r hr), ?_⟩
    rw [retireCnt_eq]
    exact (List.getElem?_eq_some_iff.1 hl).1
  rw [Bool.eq_iff_iff]
  simp only [retires, List.any_eq_true, Bool.and_eq_true, beq_iff_eq, decide_eq_true_eq]
  constructor
  · rintro ⟨l, _, hslot, hv⟩
    obtain ⟨j, hj⟩ := List.getElem?_of_mem (mem_group.2 hv)
    obtain ⟨ht, hlt⟩ := htag j l hj
    rw [ht] at hslot
    have := Ptr.idx_inj_window (b := c.log.retired) (by omega) (by omega) hslot
    omega
  · intro h
    have hlt : k - c.log.retired < (group (retiresLoad i)).length := by
      rw [← retireCnt_eq]
      omega
    have hl := List.getElem?_eq_getElem hlt
    refine ⟨_, List.mem_finRange _, ?_, mem_group.1 (List.getElem_mem hlt)⟩
    rw [(htag _ _ hl).1, Nat.add_sub_cancel' hk.1]

/-- A lane that goes to the slot of a count of the window goes to its own place. -/
theorem lane_place (hq : Queue c) (ok : OkQueue i c) (k : Nat)
    (hk : c.log.retired ≤ k ∧ k < c.log.retired + 16) {m : Lane} (hv : i.dispatchValid m = true)
    (hslot : (Ptr.ofCount 4 k).idx = c.ldq.tailPtr + BitVec.ofNat 4 (rank i.dispatchValid m)) :
    c.log.loads.length ≤ k ∧ (group i.dispatchValid)[k - c.log.loads.length]? = some m := by
  have hdis := hq.dispatch_le ok
  have hle := hq.le
  have htail : c.ldq.tailPtr = (Ptr.ofCount 4 c.log.loads.length).idx := by rw [← hq.tail]; rfl
  obtain ⟨j, hj⟩ := List.getElem?_of_mem (mem_group.2 hv)
  have hlt := (List.getElem?_eq_some_iff.1 hj).1
  rw [← dispatchCnt_eq] at hlt
  rw [rank_eq hj, htail, ← Ptr.idx_add] at hslot
  have hkj : k = c.log.loads.length + j :=
    Ptr.idx_inj_window (b := c.log.retired) (by omega) (by omega) hslot
  rw [hkj, Nat.add_sub_cancel_left]
  exact ⟨Nat.le_add_right _ _, hj⟩

theorem allocate_some (hq : Queue c) (ok : OkQueue i c) (k : Nat) (hk : c.log.loads.length ≤ k) {l : Lane}
    (hl : (group i.dispatchValid)[k - c.log.loads.length]? = some l) (e : LdqEntry) :
    allocate i c.ldq (Ptr.ofCount 4 k).idx e =
      { e with stMask := i.dispatchStMask l, stYoungest := i.dispatchStYoungest l, entryValid := true } := by
  have hdis := hq.dispatch_le ok
  have hle := hq.le
  have hlt := (List.getElem?_eq_some_iff.1 hl).1
  rw [← dispatchCnt_eq] at hlt
  have htail : c.ldq.tailPtr = (Ptr.ofCount 4 c.log.loads.length).idx := by rw [← hq.tail]; rfl
  rw [allocate]
  cases hf : (List.finRange 4).find? fun l =>
      i.dispatchValid l && (Ptr.ofCount 4 k).idx == c.ldq.tailPtr + BitVec.ofNat 4 (rank i.dispatchValid l) with
  | none =>
    have := List.find?_eq_none.1 hf l (List.mem_finRange l)
    rw [mem_group.1 (List.mem_of_getElem? hl), rank_eq hl, htail, ← Ptr.idx_add, Nat.add_sub_cancel' hk,
      Bool.true_and, beq_self_eq_true] at this
    exact absurd rfl this
  | some m =>
    have hm := List.find?_some hf
    rw [Bool.and_eq_true, beq_iff_eq] at hm
    obtain ⟨_, hplace⟩ := hq.lane_place ok k (by omega) hm.1 hm.2
    rw [hl] at hplace
    cases hplace
    rfl

theorem allocate_none (hq : Queue c) (ok : OkQueue i c) (k : Nat)
    (hk : c.log.retired ≤ k ∧ k < c.log.retired + 16)
    (hout : k < c.log.loads.length ∨ c.log.loads.length + dispatchCnt i ≤ k) (e : LdqEntry) :
    allocate i c.ldq (Ptr.ofCount 4 k).idx e = e := by
  rw [allocate]
  cases hf : (List.finRange 4).find? fun l =>
      i.dispatchValid l && (Ptr.ofCount 4 k).idx == c.ldq.tailPtr + BitVec.ofNat 4 (rank i.dispatchValid l) with
  | none => rfl
  | some m =>
    have hm := List.find?_some hf
    rw [Bool.and_eq_true, beq_iff_eq] at hm
    obtain ⟨hge, hplace⟩ := hq.lane_place ok k hk hm.1 hm.2
    have := (List.getElem?_eq_some_iff.1 hplace).1
    rw [← dispatchCnt_eq] at this
    omega

end Queue

namespace Queue
variable {c : Config} {i : Inputs}

/-- **A cycle without a flush keeps the queue.** -/
theorem moves {taken : LdqTag → Bool} {c' : Config} (hq : Queue c) (ok : OkQueue i c) (h : Moves taken i c c') :
    Queue c' := by
  have hret := hq.retire_le ok
  have hdis := hq.dispatch_le ok
  have hdl := h.loads_length hq.le
  have hrl := h.retired hq.le
  have hhead := advance c.ldq.head c.log.retired _ (retireCnt_le i) hq.head
  have htail := advance c.ldq.tail c.log.loads.length _ (dispatchCnt_le i) hq.tail
  refine ⟨?_, ?_, ?_, ?_, ?_, ?_, ?_, ?_⟩
  · rw [hdl, hrl]
    omega
  · rw [hdl, hrl]
    omega
  · intro hr
    rw [h.ready, dispatchReady] at hr
    have hp1 : nextHeadPosBit i c.ldq = _ := congrArg Ptr.pos hhead
    have hp2 : nextTailPosBit i c.ldq = _ := congrArg Ptr.pos htail
    have hx1 : nextHeadPtr i c.ldq = _ := congrArg Ptr.idx hhead
    have hx2 : nextTailPtr i c.ldq = _ := congrArg Ptr.idx htail
    rw [hp1, hp2, hx1, hx2, ready_iff (by omega) (by omega)] at hr
    rw [hdl, hrl]
    omega
  · rw [State.head, h.headPosBit, h.headPtr, hrl]
    exact hhead
  · rw [State.tail, h.tailPosBit, h.tailPtr, hdl]
    exact htail
  · intro k r hr
    rcases h.load hq.le hr with ⟨_, h⟩ | ⟨_, r₀, h, rfl⟩ | ⟨hk, l, hl, rfl⟩
    · exact hq.tag k r h
    · exact hq.tag k r₀ h
    · have hv := mem_group.1 (List.mem_of_getElem? hl)
      have ht : c.ldq.tailPtr = (Ptr.ofCount 4 c.log.loads.length).idx := by rw [← hq.tail]; rfl
      simp only [dispatchResp, hv, if_true, rank_eq hl, ht]
      rw [← Ptr.idx_add, Nat.add_sub_cancel' hk]
  · intro k hk hlt
    rw [hrl] at hk
    rw [hdl] at hlt
    have hge : ¬ k < c.log.retired + retireCnt i := by omega
    rw [h.entryValid, hq.retires_eq ok k (by omega), decide_eq_false hge, Bool.not_false, Bool.true_and]
    by_cases hlive : k < c.log.loads.length
    · rw [hq.allocate_none ok k (by omega) (.inl hlive)]
      exact hq.slot k (by omega) hlive
    · have hin : k - c.log.loads.length < (group i.dispatchValid).length := by
        rw [← dispatchCnt_eq]
        omega
      rw [hq.allocate_some ok k (by omega) (List.getElem?_eq_getElem hin)]
  · intro k hk hlt
    rw [hdl] at hk
    rw [hrl] at hlt
    rw [h.entryValid]
    by_cases hwin : k < c.log.retired + 16
    · rw [hq.allocate_none ok k (by omega) (.inr hk), hq.free k (by omega) hwin, Bool.and_false]
    · -- the slot of a load that has just retired
      have hslot : (Ptr.ofCount 4 k).idx = (Ptr.ofCount 4 (k - 2 ^ 4)).idx := by
        rw [← Ptr.idx_add_ring (k - 2 ^ 4), Nat.sub_add_cancel (by omega)]
      have hin : k - 2 ^ 4 < c.log.retired + retireCnt i := by omega
      rw [hslot, hq.retires_eq ok (k - 2 ^ 4) (by omega), decide_eq_true hin]
      rfl

theorem cycle {taken : LdqTag → Bool} {c' : Config} (hq : Queue c) (ok : OkQueue i c) (h : Cycle taken i c c') :
    Queue c' :=
  hq.moves ok h.moves

theorem next_noFlush (hq : Queue c) (ok : OkQueue i c) (hf : i.pipeFlush = false) : Queue (c.next i) :=
  hq.cycle ok (cycle_next c hf)

theorem next_flush (i : Inputs) (c : Config) (hf : i.pipeFlush = true) : Queue (c.next i) := by
  refine ⟨?_, ?_, ?_, ?_, ?_, ?_, ?_, ?_⟩ <;>
    simp [Config.next, Ldq.next, Log.next, hf, State.head, State.tail, Ptr.ofCount, nextEntry, flushed]

theorem next (hq : Queue c) (ok : OkQueue i c) : Queue (c.next i) := by
  cases hf : i.pipeFlush
  · exact hq.next_noFlush ok hf
  · exact next_flush i c hf

theorem init : Queue Config.init := by
  refine ⟨Nat.le_refl _, by decide, fun _ => by decide, rfl, rfl, ?_, ?_, fun _ _ _ => rfl⟩
  · intro k r hr
    cases hr
  · intro k _ hk
    cases hk

/-- The slots of the live loads after a cycle. -/
theorem live_next (hq : Queue c) (ok : OkQueue i c) : (c.next i).log.live.map Load.tag =
    if i.pipeFlush then []
    else (c.log.live.map Load.tag).drop (retireCnt i) ++ (group i.dispatchValid).map (dispatchResp i c.ldq) := by
  have hret := hq.retire_le ok
  have hlen : (c.log.loads.take c.log.retired).length = c.log.retired := by
    rw [List.length_take]
    omega
  have htag : (c.log.live.map (Load.step i c.ldq)).map Load.tag = c.log.live.map Load.tag := by
    rw [List.map_map]
    rfl
  have hdisp : (dispatching i c.ldq).map Load.tag = (group i.dispatchValid).map (dispatchResp i c.ldq) := by
    rw [dispatching, List.map_map]
    rfl
  have hlive : c.log.live.length = c.log.loads.length - c.log.retired := List.length_drop
  cases hf : i.pipeFlush
  · simp only [Config.next, Log.live, Log.next, hf, Bool.false_eq_true, if_false]
    rw [← Log.live, List.append_assoc, List.drop_append, hlen, Nat.add_sub_cancel_left,
      List.drop_eq_nil_of_le (by omega), List.nil_append,
      List.drop_append_of_le_length (by rw [List.length_map]; omega), List.map_append, List.map_drop, htag, hdisp]
  · simp only [Config.next, Log.next, hf, if_true]
    rfl

theorem dispatch_slot (hq : Queue c) (j : Nat) (l : Lane) (hl : (group i.dispatchValid)[j]? = some l) :
    dispatchResp i c.ldq l = (Ptr.ofCount 4 (c.log.loads.length + j)).idx := by
  have htail : c.ldq.tailPtr = (Ptr.ofCount 4 c.log.loads.length).idx := by rw [← hq.tail]; rfl
  rw [dispatchResp, mem_group.1 (List.mem_of_getElem? hl), if_pos rfl, rank_eq hl, htail, Ptr.idx_add]

/-- Every dispatched load has a free slot of its own. -/
theorem ownSlots (hq : Queue c) (ok : OkQueue i c) :
    OwnSlots i.dispatchValid (dispatchResp i c.ldq) fun k => (c.ldq.ldqEntry k).entryValid := by
  have hle := hq.dispatch_le ok
  have h4 := dispatchCnt_le i
  rw [dispatchCnt_eq] at hle h4
  exact OwnSlots.ring hq.dispatch_slot (by omega) fun j hj => hq.free _ (by omega) (by omega)

/-- No valid entry is overwritten. -/
theorem allocate_valid (hq : Queue c) (ok : OkQueue i c) {k : LdqTag}
    (hk : (c.ldq.ldqEntry k).entryValid = true) (e : LdqEntry) : allocate i c.ldq k e = e := by
  obtain ⟨m, hm1, hm2, rfl⟩ := Ptr.idx_surj (w := 4) c.log.retired k
  refine hq.allocate_none ok m ⟨hm1, hm2⟩ (.inl (Nat.lt_of_not_le fun hge => ?_)) e
  rw [hq.free m hge hm2] at hk
  cases hk

/-- Without a flush every dispatched load is in its slot in the next cycle. -/
theorem dispatched (hq : Queue c) (ok : OkQueue i c) (hf : i.pipeFlush = false) (l : Lane)
    (hl : i.dispatchValid l = true) :
    ((Ldq.next i c.ldq).ldqEntry (dispatchResp i c.ldq l)).entryValid = true := by
  obtain ⟨j, hj⟩ := List.getElem?_of_mem (mem_group.2 hl)
  have hlt := (List.getElem?_eq_some_iff.1 hj).1
  rw [← dispatchCnt_eq] at hlt
  have hcycle := cycle_next c hf
  have hdl := hcycle.loads_length hq.le
  have hrl := hcycle.retired hq.le
  have hret := hq.retire_le ok
  rw [hq.dispatch_slot j l hj]
  refine (hq.next_noFlush ok hf).slot _ ?_ ?_
  · rw [hrl]
    omega
  · rw [hdl]
    omega

end Queue

end R10K.Ldq
