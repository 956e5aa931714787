import R10K.Lib.Mirror
import R10K.Whole.Ledger

/-! The store and the load queue beside the buffer.

The store queue lists the stores of the retire register and of the buffer, in order, and so
does the load queue its loads. A store that waits for its writeback has neither address nor
datum, and after it both; a load's result was taken exactly if it was written back. This
holds because the bus is what completes an instruction in the buffer and in its queue. -/
namespace R10K

/-! ### The live entries after a cycle without a flush -/

theorem Stq.Log.live_eq {i : Stq.Inputs} {s : Stq.State} {l : Stq.Log} (hf : i.pipeFlush = false)
    (hle : l.retired + Stq.retireCnt i ≤ l.stores.length) :
    (l.next i s).live = (l.live.map (Store.execute i)).drop (Stq.retireCnt i) ++ Stq.dispatching i s := by
  have hlen : (l.stores.take l.retired).length = l.retired := by
    rw [List.length_take]
    omega
  have hlive : l.live.length = l.stores.length - l.retired := List.length_drop
  simp only [Log.live, Log.next, hf, Bool.false_eq_true, if_false]
  rw [← Log.live, List.append_assoc, List.drop_append, hlen, Nat.add_sub_cancel_left,
    List.drop_eq_nil_of_le (by omega), List.nil_append,
    List.drop_append_of_le_length (by rw [List.length_map]; omega)]

theorem Ldq.Log.live_eq {i : Ldq.Inputs} {s : Ldq.State} {l : Ldq.Log} (hf : i.pipeFlush = false)
    (hle : l.retired + Ldq.retireCnt i ≤ l.loads.length) :
    (l.next i s).live = (l.live.map (Load.step i s)).drop (Ldq.retireCnt i) ++ Ldq.dispatching i s := by
  have hlen : (l.loads.take l.retired).length = l.retired := by
    rw [List.length_take]
    omega
  have hlive : l.live.length = l.loads.length - l.retired := List.length_drop
  simp only [Log.live, Log.next, hf, Bool.false_eq_true, if_false]
  rw [← Log.live, List.append_assoc, List.drop_append, hlen, Nat.add_sub_cancel_left,
    List.drop_eq_nil_of_le (by omega), List.nil_append,
    List.drop_append_of_le_length (by rw [List.length_map]; omega)]

namespace Whole
open Backend Lanes Mirror

/-! ### What the queues show -/

/-- A store: its slot, and whether its address and its datum are there. -/
def storeView (q : Stq.Store) : StqTag × Bool × Bool := (q.tag, q.addr.isSome, q.data.isSome)
def storeGives (r : Rob.Record) : Option (StqTag × Bool × Bool) :=
  memTag r.pkt.wrMem (r.pkt.stqTag, !r.pending, !r.pending)
def storeLeft (p : RetireRobPacket) : Option (StqTag × Bool × Bool) := memTag p.wrMem (p.stqTag, true, true)

/-- A load: its slot, and whether its result was taken. -/
def loadView (q : Ldq.Load) : LdqTag × Bool := (q.tag, q.done)
def loadGives (r : Rob.Record) : Option (LdqTag × Bool) := memTag r.pkt.rdMem (r.pkt.ldqTag, !r.pending)
def loadLeft (p : RetireRobPacket) : Option (LdqTag × Bool) := memTag p.rdMem (p.ldqTag, true)

structure Linked (c : Config) : Prop where
  stores : Mirrors storeView storeGives (Spine.retireRead storeLeft c.state.core.spine).reduceOption
    c.backend.stqLog.live c.backend.robLog.live
  loads : Mirrors loadView loadGives (Spine.retireRead loadLeft c.state.core.spine).reduceOption
    c.backend.ldqLog.live c.backend.robLog.live

/-- A store that executes gets its address and its datum, a load whose result is taken is done. -/
def storeStep (c : Config) (x : StqTag × Bool × Bool) : StqTag × Bool × Bool :=
  let hit := x.1 == (c.state.pipeExecutePkt 6).stqTag && storeOnCdb c.state
  (x.1, hit || x.2.1, hit || x.2.2)

def loadStep (i : Inputs) (c : Config) (x : LdqTag × Bool) : LdqTag × Bool := (x.1, x.2 || c.takes i x.1)

section
variable {c : Config} {i : Inputs} {l : Lane}

theorem storeView_execute (q : Stq.Store) :
    storeView (Stq.Store.execute (c.backend.stqIn i) q) = storeStep c (storeView q) := by
  show (q.tag, (if q.tag == (c.state.pipeExecutePkt 6).stqTag && storeOnCdb c.state then some _ else _).isSome,
    (if q.tag == (c.state.pipeExecutePkt 6).stqTag && storeOnCdb c.state then some _ else _).isSome) = _
  rw [storeStep, storeView]
  cases q.tag == (c.state.pipeExecutePkt 6).stqTag && storeOnCdb c.state <;> rfl

theorem loadView_step (q : Ldq.Load) :
    loadView (Ldq.Load.step (c.backend.ldqIn i) c.state.lsq.ldq q) = loadStep i c (loadView q) := rfl

/-! ### Retirement and dispatch -/

/-- What retires gives what it gave in the buffer. -/
theorem left_next {V : Type} {left : RetireRobPacket → Option V} {give : Rob.Record → Option V}
    (h : Core.Inv c.core) (hf : pipeFlush c.state = false)
    (hshow : ∀ r p, Rob.Shows r p → left p = give { r with done := true })
    (hdone : ∀ r, r.pending = false → give { r with done := true } = give r) :
    Spine.retireRead left (c.next i).state.core.spine =
      ((c.backend.robLog.live.map (Rob.mark (c.robIn i))).take (Rob.retireEnCnt c.state.core.spine.rob)).map
        give := by
  have hread : Spine.retireRead left (c.next i).state.core.spine = (Rob.retiring c.state.core.spine.rob).map left :=
    Spine.retireRead_next (c := c.core.spine) (i := spineIn i c.state) left hf
  have hret : (Rob.retiring c.state.core.spine.rob).map left =
      (c.backend.robLog.live.take (Rob.retireEnCnt c.state.core.spine.rob)).map fun r =>
        give { r with done := true } :=
    Spine.retiring_map (c := c.core.spine) h.rob.toQueue hshow
  rw [hread, hret, ← List.map_take, List.map_map]
  refine List.map_congr_left fun r hr => ?_
  have hp := retiring_done h hr
  have hmark : Rob.mark (c.robIn i) r = r := if_neg (by rw [hp, Bool.false_and]; exact Bool.false_ne_true)
  rw [Function.comp_apply, hmark, hdone r hp]

/-- What the retire register shows of a queue is what the queue retires. -/
theorem store_leaving (i : Inputs) (c : Config) :
    (Spine.retireRead storeLeft c.state.core.spine).reduceOption.length = Stq.retireCnt (c.backend.stqIn i) := by
  rw [Stq.retireCnt_eq]
  exact (congrArg List.length (group_memTag _ _ _)).trans (List.length_map _)

theorem load_leaving (i : Inputs) (c : Config) :
    (Spine.retireRead loadLeft c.state.core.spine).reduceOption.length = Ldq.retireCnt (c.backend.ldqIn i) := by
  rw [Ldq.retireCnt_eq]
  exact (congrArg List.length (group_memTag _ _ _)).trans (List.length_map _)

/-- A load or a store in the dispatch register goes to a station. -/
theorem memory_needs (h : Core.Inv c.core) (hdec : Core.Decoded c.core)
    (hv : (c.state.core.spine.pipeRenamePkt l).packetValid = true)
    (hm : ((c.state.core.spine.pipeRenamePkt l).rdMem || (c.state.core.spine.pipeRenamePkt l).wrMem) = true) :
    needsStation c.state l = true := by
  obtain ⟨n, f, hw⟩ := Core.exists_waits (c := c.core) h.spine hv
  have hpkt : f.pkt = c.state.core.spine.pipeRenamePkt l := (h.waits l n f hw).1
  have hfin := (hdec.made f (List.mem_of_getElem? hw.flight)).proceeds (by rw [hpkt]; exact hm)
  rw [hpkt, Core.finishes, Bool.or_eq_false_iff, Bool.or_eq_false_iff] at hfin
  rw [needsStation, hv, bne, hfin.1.1, hfin.1.2, hfin.2]
  rfl

/-- What a group gives when it is dispatched, for one kind of memory operation. -/
theorem dispatching_gives {V : Type} (mem : Lane → Bool) (x : Lane → Bool → V) (give : Rob.Record → Option V)
    (hgive : ∀ l, give (c.record i l) = memTag (mem l) (x l (!(c.record i l).pending)))
    (hpend : ∀ l, (c.state.core.spine.pipeRenamePkt l).packetValid = true → mem l = true →
      (c.record i l).pending = true) :
    (group fun l => (c.state.core.spine.pipeRenamePkt l).packetValid && mem l).map (fun l => x l false) =
      ((Rob.dispatching (c.robIn i) c.state.core.spine.rob).map give).reduceOption := by
  have hdisp : (Rob.dispatching (c.robIn i) c.state.core.spine.rob).map give =
      (group fun l => (c.state.core.spine.pipeRenamePkt l).packetValid).map fun l =>
        memTag (mem l) (x l (!(c.record i l).pending)) := by
    rw [Rob.dispatching, List.map_map]
    exact List.map_congr_left fun l _ => hgive l
  rw [hdisp, group_memTag]
  refine List.map_congr_left fun l hl => ?_
  obtain ⟨hv, hm⟩ := Bool.and_eq_true_iff.1 (mem_group.1 hl)
  rw [hpend l hv hm]
  rfl

/-! ### What the bus completes -/

abbrev Follows (c : Config) : Prop := Tokens.Tracks Token.robEntry c.held c.ledger

theorem Follows.record (ht : Follows c) {p : Place} {t : Token} (hheld : c.held p = some t) :
    ∃ r ∈ c.backend.robLog.live, r.pending = true ∧ recordToken r = t := by
  obtain ⟨r, hr, hrt⟩ := List.mem_map.1 ((ht.mem t).2 ⟨p, hheld⟩)
  exact ⟨r, (List.mem_filter.1 hr).1, (List.mem_filter.1 hr).2, hrt⟩

theorem Follows.place (ht : Follows c) {r : Rob.Record} (hr : r ∈ c.backend.robLog.live)
    (hp : r.pending = true) : ∃ p, c.held p = some (recordToken r) :=
  (ht.mem _).1 (List.mem_map.2 ⟨r, List.mem_filter.2 ⟨hr, hp⟩, rfl⟩)

theorem store_slots (hq : Stq.Queue c.backend.stq) :
    (c.backend.stqLog.live.map fun q => (storeView q).1).Nodup := by
  have hroom : c.backend.stqLog.stores.length ≤ c.backend.stqLog.sent.length + 16 := hq.room
  have hsent : c.backend.stqLog.sent.length ≤ c.backend.stqLog.retired := hq.sent_le
  refine ring_nodup (b := c.backend.stqLog.retired) ?_ fun k t ht => ?_
  · rw [List.length_map, Stq.Log.live, List.length_drop]
    omega
  · rw [List.getElem?_map, Stq.Log.live, List.getElem?_drop] at ht
    obtain ⟨q, hk, rfl⟩ := Option.map_eq_some_iff.1 ht
    exact hq.tag _ q hk

theorem load_slots (hq : Ldq.Queue c.backend.ldq) :
    (c.backend.ldqLog.live.map fun q => (loadView q).1).Nodup := by
  have hroom : c.backend.ldqLog.loads.length ≤ c.backend.ldqLog.retired + 16 := hq.room
  refine ring_nodup (b := c.backend.ldqLog.retired) ?_ fun k t ht => ?_
  · rw [List.length_map, Ldq.Log.live, List.length_drop]
    omega
  · rw [List.getElem?_map, Ldq.Log.live, List.getElem?_drop] at ht
    obtain ⟨q, hk, rfl⟩ := Option.map_eq_some_iff.1 ht
    exact hq.tag _ q hk

/-- Two stores of the buffer have different slots, and so have two loads. -/
theorem store_unique (hl : Linked c) (hq : Stq.Queue c.backend.stq) {r r' : Rob.Record}
    (hr : r ∈ c.backend.robLog.live) (hr' : r' ∈ c.backend.robLog.live) (hw : r.pkt.wrMem = true)
    (hw' : r'.pkt.wrMem = true) (ht : r.pkt.stqTag = r'.pkt.stqTag) : r = r' :=
  hl.stores.unique (store_slots hq) hr hr' (by rw [storeGives, hw, memTag, if_pos rfl])
    (by rw [storeGives, hw', memTag, if_pos rfl]) ht

theorem load_unique (hl : Linked c) (hq : Ldq.Queue c.backend.ldq) {r r' : Rob.Record}
    (hr : r ∈ c.backend.robLog.live) (hr' : r' ∈ c.backend.robLog.live) (hw : r.pkt.rdMem = true)
    (hw' : r'.pkt.rdMem = true) (ht : r.pkt.ldqTag = r'.pkt.ldqTag) : r = r' :=
  hl.loads.unique (load_slots hq) hr hr' (by rw [loadGives, hw, memTag, if_pos rfl])
    (by rw [loadGives, hw', memTag, if_pos rfl]) ht

theorem record_store {r : Rob.Record} (h : r.pkt.wrMem = true) : (recordToken r).store = some r.pkt.stqTag := by
  rw [recordToken, h]
  rfl

theorem record_load {r : Rob.Record} (h : r.pkt.rdMem = true) : (recordToken r).load = some r.pkt.ldqTag := by
  rw [recordToken, h]
  rfl

/-- **A store is completed by its execution.** -/
theorem hit_store (h : Unit i c) (hp : Parted c) (ht : Follows c) (hl : Linked c)
    (hq : Stq.Queue c.backend.stq) {r : Rob.Record} (hr : r ∈ c.backend.robLog.live) (hpend : r.pending = true)
    (hw : r.pkt.wrMem = true) : Rob.hit (c.robIn i) r.tag = true ↔
      r.pkt.stqTag = (c.state.pipeExecutePkt 6).stqTag ∧ storeOnCdb c.state = true := by
  constructor
  · intro hhit
    obtain ⟨p, hheld⟩ := ht.place hr hpend
    have hd := (hit_leaves h hp ht hheld).1 hhit
    have hmem := hp.memory _ _ hheld
    rw [record_store hw, Option.isSome_some, Bool.or_true] at hmem
    cases p with
    | stage s =>
      rw [Config.dest] at hd
      split at hd <;> cases hd
    | execute w =>
      obtain rfl : w = 6 := beq_iff_eq.1 hmem.symm
      obtain ⟨hv, htok⟩ := held_execute.1 hheld
      obtain ⟨hwr, htag⟩ := memTag_some ((congrArg Token.store htok).trans (record_store hw))
      exact ⟨htag.symm, Bool.and_eq_true_iff.2 ⟨hv, hwr⟩⟩
    | load k =>
      obtain ⟨-, -, htok⟩ := held_load.1 hheld
      have := (congrArg Token.store htok).trans (record_store hw)
      cases this
  · rintro ⟨htag, hst⟩
    obtain ⟨hv, hwr⟩ := Bool.and_eq_true_iff.1 hst
    have hheld := held_execute.2 ⟨hv, rfl⟩
    obtain ⟨r', hr', -, htok⟩ := ht.record hheld
    have hstore : (recordToken r').store = some (c.state.pipeExecutePkt 6).stqTag := by
      rw [htok, executeToken, hwr]
      rfl
    obtain ⟨hw', htag'⟩ := memTag_some hstore
    obtain rfl := store_unique hl hq hr hr' hw hw' (htag.trans htag'.symm)
    have hload := (hp.one _ _ hheld).resolve_right (by
      rw [executeToken, hwr]
      exact Option.some_ne_none _)
    have hhit := (hit_leaves h hp ht hheld).2 (by
      rw [Config.dest, if_pos rfl]
      exact congrArg (Option.map Place.load) hload)
    rwa [← htok] at hhit

/-- **A load is completed when its result is taken.** -/
theorem hit_load (h : Unit i c) (hp : Parted c) (ht : Follows c) (hl : Linked c)
    (hq : Ldq.Queue c.backend.ldq) {r : Rob.Record} (hr : r ∈ c.backend.robLog.live) (hpend : r.pending = true)
    (hw : r.pkt.rdMem = true) : Rob.hit (c.robIn i) r.tag = true ↔ c.takes i r.pkt.ldqTag = true := by
  constructor
  · intro hhit
    obtain ⟨p, hheld⟩ := ht.place hr hpend
    have hd := (hit_leaves h hp ht hheld).1 hhit
    have hmem := hp.memory _ _ hheld
    rw [record_load hw, Option.isSome_some, Bool.true_or] at hmem
    cases p with
    | stage s =>
      rw [Config.dest] at hd
      split at hd <;> cases hd
    | execute w =>
      obtain rfl : w = 6 := beq_iff_eq.1 hmem.symm
      obtain ⟨hv, htok⟩ := held_execute.1 hheld
      have hload := (congrArg Token.load htok).trans (record_load hw)
      rw [Config.dest, if_pos rfl, show memTag _ _ = _ from hload] at hd
      cases hd
    | load k =>
      obtain ⟨-, -, htok⟩ := held_load.1 hheld
      have hk := (congrArg Token.load htok).trans (record_load hw)
      rw [← Option.some.inj hk]
      rw [Config.dest] at hd
      split at hd
      · assumption
      · cases hd
  · intro hk
    obtain ⟨ha, hwb⟩ := h.takes_held hk
    have hheld := held_load.2 ⟨ha, hwb, rfl⟩
    obtain ⟨r', hr', -, htok⟩ := ht.record hheld
    obtain ⟨hw', htag'⟩ := memTag_some (congrArg Token.load htok)
    obtain rfl := load_unique hl hq hr hr' hw hw' htag'.symm
    have hhit := (hit_leaves h hp ht hheld).2 (by rw [Config.dest, hk, if_pos rfl])
    rwa [← htok] at hhit

/-! ### One edge -/

theorem storeGives_mark (h : Unit i c) (hp : Parted c) (ht : Follows c) (hl : Linked c)
    (hq : Stq.Queue c.backend.stq) {r : Rob.Record} (hr : r ∈ c.backend.robLog.live) :
    storeGives (Rob.mark (c.robIn i) r) = (storeGives r).map (storeStep c) := by
  rw [storeGives, storeGives, (Rob.mark_eq_iff (c.robIn i) r).2, mark_pending]
  cases hw : r.pkt.wrMem with
  | false => rfl
  | true =>
    have hhit : r.pending = true → Rob.hit (c.robIn i) r.tag =
        (r.pkt.stqTag == (c.state.pipeExecutePkt 6).stqTag && storeOnCdb c.state) := fun hpend => by
      rw [Bool.eq_iff_iff, hit_store h hp ht hl hq hr hpend hw, Bool.and_eq_true, beq_iff_eq]
    show some (r.pkt.stqTag, !(r.pending && !Rob.hit (c.robIn i) r.tag), _) =
      some (storeStep c (r.pkt.stqTag, !r.pending, !r.pending))
    rw [storeStep]
    cases hpend : r.pending with
    | false => simp
    | true => simp [hhit hpend]

theorem loadGives_mark (h : Unit i c) (hp : Parted c) (ht : Follows c) (hl : Linked c)
    (hq : Ldq.Queue c.backend.ldq) {r : Rob.Record} (hr : r ∈ c.backend.robLog.live) :
    loadGives (Rob.mark (c.robIn i) r) = (loadGives r).map (loadStep i c) := by
  rw [loadGives, loadGives, (Rob.mark_eq_iff (c.robIn i) r).2, mark_pending]
  cases hw : r.pkt.rdMem with
  | false => rfl
  | true =>
    have hhit : r.pending = true → Rob.hit (c.robIn i) r.tag = c.takes i r.pkt.ldqTag := fun hpend => by
      rw [Bool.eq_iff_iff, hit_load h hp ht hl hq hr hpend hw]
    show some (r.pkt.ldqTag, !(r.pending && !Rob.hit (c.robIn i) r.tag)) =
      some (loadStep i c (r.pkt.ldqTag, !r.pending))
    rw [loadStep]
    cases hpend : r.pending with
    | false => simp
    | true => simp [hhit hpend]

/-- **One edge keeps the queues beside the buffer.** -/
theorem Linked.next (hl : Linked c) (h : Unit i c) (hp : Parted c) (ht : Follows c)
    (hb : Backend.Inv c.backend) (hcore : Core.Inv c.core) (hdec : Core.Decoded c.core)
    (hf : pipeFlush c.state = false) : Linked (c.next i) where
  stores := by
    have hcnt := store_leaving i c
    have hlive : (c.next i).backend.stqLog.live = (c.backend.stqLog.live.map
        (Stq.Store.execute (c.backend.stqIn i))).drop (Stq.retireCnt (c.backend.stqIn i)) ++
          Stq.dispatching (c.backend.stqIn i) c.state.lsq.stq :=
      Stq.Log.live_eq hf (hb.stq.retire_le (hb.okStq i))
    rw [hlive, live_next hcore hf, left_next hcore hf, ← hcnt]
    · refine hl.stores.step storeView_execute (fun r hr => storeGives_mark h hp ht hl hb.stq hr) ?_
      refine Eq.trans ?_ (dispatching_gives (fun l => (c.state.core.spine.pipeRenamePkt l).wrMem)
        (fun l b => (Stq.dispatchResp (c.backend.stqIn i) c.state.lsq.stq l, b, b)) storeGives (fun l => rfl)
        fun l hv hm => ?_)
      · rw [Stq.dispatching, List.map_map]
        rfl
      · rw [record_pending hv]
        exact memory_needs hcore hdec hv (by rw [hm, Bool.or_true])
    · intro r p hs
      rw [hs]
      rfl
    · intro r hr
      rw [storeGives, storeGives, hr]
      rfl
  loads := by
    have hcnt := load_leaving i c
    have hlive : (c.next i).backend.ldqLog.live = (c.backend.ldqLog.live.map
        (Ldq.Load.step (c.backend.ldqIn i) c.state.lsq.ldq)).drop (Ldq.retireCnt (c.backend.ldqIn i)) ++
          Ldq.dispatching (c.backend.ldqIn i) c.state.lsq.ldq :=
      Ldq.Log.live_eq hf (hb.ldq.retire_le (hb.okLdq i))
    rw [hlive, live_next hcore hf, left_next hcore hf, ← hcnt]
    · refine hl.loads.step loadView_step (fun r hr => loadGives_mark h hp ht hl hb.ldq hr) ?_
      refine Eq.trans ?_ (dispatching_gives (fun l => (c.state.core.spine.pipeRenamePkt l).rdMem)
        (fun l b => (Ldq.dispatchResp (c.backend.ldqIn i) c.state.lsq.ldq l, b)) loadGives (fun l => rfl)
        fun l hv hm => ?_)
      · rw [Ldq.dispatching, List.map_map]
        rfl
      · rw [record_pending hv]
        exact memory_needs hcore hdec hv (by rw [hm, Bool.true_or])
    · intro r p hs
      rw [hs]
      rfl
    · intro r hr
      rw [loadGives, loadGives, hr]
      rfl

/-- A flush leaves no instruction, neither in the buffer nor in a queue. -/
theorem flush_nothing (hb : Backend.Inv c.backend) (hf : pipeFlush c.state = true) :
    (c.next i).backend.robLog.live = [] ∧ (c.next i).backend.stqLog.live = [] ∧
      (c.next i).backend.ldqLog.live = [] := by
  have hf' : Spine.pipeFlush c.backend.spine.state = true := hf
  have hstq := hb.next_stores i
  have hldq := hb.next_loads i
  rw [Backend.Config.next_spine, slotsInFlight_flush hf', List.map_eq_nil_iff] at hstq hldq
  exact ⟨Spine.live_flush (c := c.backend.spine) (i := spineIn i c.state) hf, hstq, hldq⟩

theorem Linked.flush (hb : Backend.Inv c.backend) (hf : pipeFlush c.state = true) : Linked (c.next i) := by
  obtain ⟨hrob, hstq, hldq⟩ := flush_nothing (i := i) hb hf
  have hret : ∀ {V : Type} (left : RetireRobPacket → Option V),
      Spine.retireRead left (c.next i).state.core.spine = [] := fun left =>
    Spine.retireRead_flush (c := c.backend.spine) (i := spineIn i c.state) left hf
  refine ⟨?_, ?_⟩
  · rw [hret, hrob, hstq]
    exact .nil
  · rw [hret, hrob, hldq]
    exact .nil

theorem Linked.init : Linked Config.init := ⟨.nil, .nil⟩

end

end Whole

end R10K
