import R10K.Whole.Queues

/-! The rules of the parts hold in the whole.

The core and the load/store unit were followed on the promise that what is given to them is
right: a broadcast completes an instruction that has issued and was not broadcast, a load or
a store executes once, in its own slot, and before it retires. In the back end the core and
the unit give this to each other. -/
namespace R10K.Whole
open Backend Lanes Mirror

/-- What holds in every cycle. -/
structure Inv (c : Config) : Prop where
  backend : RecovInv c.backend
  core : Core.Inv c.core
  operands : Core.Operands c.core
  stations : Core.Stations c.core
  decoded : Core.Decoded c.core
  lsq : Lsq.Inv c.lsq
  again : ¬ Lsq.Again c.lsq
  follows : Follows c
  parted : Parted c
  linked : Linked c
  /-- Past its station an instruction has issued. -/
  issued : ∀ p t, c.held p = some t → p.issued = true →
    ∃ r n f, c.core.At r n f ∧ r.tag = t.robEntry ∧ f.issued = true
  /-- What waits for its writeback has no result. -/
  fresh : ∀ r n f, c.core.At r n f → r.pending = true → f.pkt.destPrn ≠ 0 → f.result = none

namespace Inv
variable {c : Config} {i : Inputs} {w : Way} {k : LdqTag}

theorem sorted (h : Inv c) : Sorted c where
  int := h.stations.int.awake
  mem := h.stations.mem.awake
  intUnit := by
    intro k hk
    obtain ⟨n, f, hw, hmine⟩ := h.stations.int.waiting k hk
    exact fun he => bne_iff_ne.1 hmine (hw.fuId.symm.trans he)
  memUnit := by
    intro k hk
    obtain ⟨n, f, hw, hmine⟩ := h.stations.mem.waiting k hk
    exact hw.fuId.trans (beq_iff_eq.1 hmine)

/-! ### The load/store unit -/

/-- A store that executes waits in its slot. -/
theorem executing_store (h : Inv c) (hst : storeOnCdb c.state = true) : ∃ q ∈ c.backend.stqLog.live,
    q.tag = (c.state.pipeExecutePkt 6).stqTag ∧ q.addr = none ∧ q.data = none := by
  obtain ⟨hv, hwr⟩ := Bool.and_eq_true_iff.1 hst
  obtain ⟨r, hr, hpend, htok⟩ := h.follows.record (held_execute.2 ⟨hv, rfl⟩)
  have hstore : (recordToken r).store = some (c.state.pipeExecutePkt 6).stqTag := by
    rw [htok, executeToken, hwr]
    rfl
  obtain ⟨hw, htag⟩ := memTag_some hstore
  obtain ⟨q, hq, hview⟩ := h.linked.stores.shown hr (x := (r.pkt.stqTag, false, false))
    (by rw [storeGives, hw, hpend]; rfl)
  rw [storeView, Prod.mk.injEq, Prod.mk.injEq, Option.isSome_eq_false_iff, Option.isSome_eq_false_iff,
    Option.isNone_iff_eq_none, Option.isNone_iff_eq_none] at hview
  exact ⟨q, hq, hview.1.trans htag, hview.2⟩

/-- A load that executes has not executed before. -/
theorem executing_load (h : Inv c) (hx : c.executes k = true) :
    ∃ q ∈ c.backend.ldqLog.live, q.tag = k ∧ q.exec = none := by
  obtain ⟨⟨hv, hrd⟩, hk⟩ := executes_iff.1 hx
  have hheld := held_execute.2 ⟨hv, rfl⟩
  obtain ⟨r, hr, hpend, htok⟩ := h.follows.record hheld
  have hload : (recordToken r).load = some k := by
    rw [htok, executeToken, hrd, hk]
    rfl
  obtain ⟨hw, htag⟩ := memTag_some hload
  obtain ⟨q, hq, hview⟩ := h.linked.loads.shown hr (x := (r.pkt.ldqTag, false))
    (by rw [loadGives, hw, hpend]; rfl)
  rw [loadView, Prod.mk.injEq] at hview
  refine ⟨q, hq, hview.1.trans htag, Option.eq_none_iff_forall_ne_some.2 fun x hexec => ?_⟩
  -- a load with its address waits in its entry, and no instruction is in two places
  obtain ⟨n, hn, hget, hslot⟩ := h.lsq.ldq.live_slot hq
  have hag := h.lsq.agrees n q hn hget
  rw [← hslot, hview.1.trans htag] at hag
  have haddr : (c.state.lsq.ldq.ldqEntry k).addrValid = true := by
    rw [show (c.state.lsq.ldq.ldqEntry k).addrValid = q.exec.isSome from hag.addr, hexec]
    rfl
  have hwb : (c.state.lsq.ldq.ldqEntry k).writebacked = false := hag.done.trans hview.2
  have hheld' := held_load.2 ⟨haddr, hwb, rfl⟩
  obtain ⟨r', hr', -, htok'⟩ := h.follows.record hheld'
  obtain ⟨hw', htag'⟩ := memTag_some (congrArg Token.load htok')
  obtain rfl := load_unique h.linked h.backend.ldq hr hr' hw hw' (htag.trans htag'.symm)
  cases (h.follows.eq_of_key hheld hheld' (congrArg Token.robEntry (htok.symm.trans htok'))).1

theorem lsqOk (h : Inv c) (ok : Ok i c) : Lsq.Ok (c.lsqIn i) c.lsq where
  stq := {
    h.backend.okStq i with
    addr := fun hv => by
      obtain ⟨q, hq, ht, ha, -⟩ := h.executing_store hv
      exact ⟨q, hq, ht, ha⟩
    data := fun hv => by
      obtain ⟨q, hq, ht, -, hd⟩ := h.executing_store hv
      exact ⟨q, hq, ht, hd⟩
    executed := fun j l r hl hr => by
      have hleft : (Spine.retireRead storeLeft c.state.core.spine).reduceOption[j]? =
          some ((c.state.core.spine.pipeRetirePkt l).stqTag, true, true) := by
        have hgroup := group_memTag (fun l => (c.state.core.spine.pipeRetirePkt l).packetValid)
          (fun l => (c.state.core.spine.pipeRetirePkt l).wrMem)
          fun l => ((c.state.core.spine.pipeRetirePkt l).stqTag, true, true)
        refine (congrArg (fun ts => ts[j]?) hgroup).trans ?_
        exact (List.getElem?_map ..).trans (congrArg (Option.map _) hl)
      have hview := h.linked.stores.shown_left hleft hr
      rw [storeView, Prod.mk.injEq, Prod.mk.injEq, Option.isSome_iff_exists, Option.isSome_iff_exists] at hview
      obtain ⟨-, ⟨a, ha⟩, d, hd⟩ := hview
      rw [Stq.Store.write, ha, hd]
      rfl }
  ldq := {
    h.backend.okLdq i with
    execute := fun hv => by
      obtain ⟨q, hq, ht, hnone⟩ := h.executing_load (executes_iff.2 ⟨Bool.and_eq_true_iff.1 hv, rfl⟩)
      exact ⟨q, hq, ht, hnone⟩
    done := fun j l r hl hr => by
      have hleft : (Spine.retireRead loadLeft c.state.core.spine).reduceOption[j]? =
          some ((c.state.core.spine.pipeRetirePkt l).ldqTag, true) := by
        have hgroup := group_memTag (fun l => (c.state.core.spine.pipeRetirePkt l).packetValid)
          (fun l => (c.state.core.spine.pipeRetirePkt l).rdMem)
          fun l => ((c.state.core.spine.pipeRetirePkt l).ldqTag, true)
        refine (congrArg (fun ts => ts[j]?) hgroup).trans ?_
        exact (List.getElem?_map ..).trans (congrArg (Option.map _) hl)
      exact congrArg Prod.snd (h.linked.loads.shown_left hleft hr) }
  answer := fun hv => Nat.lt_of_lt_of_le (ok.answer hv).1 (Nat.le_add_right _ _)

/-- **The load/store unit is given what it relies on.** -/
theorem unit (h : Inv c) (ok : Ok i c) : Unit i c where
  inv := h.lsq
  ok := h.lsqOk ok
  fresh := fun hv => (ok.answer hv).2
  again := h.again

/-! ### The core -/

/-- The instruction of a place. -/
theorem at_place (h : Inv c) {p : Place} {t : Token} (hheld : c.held p = some t) :
    ∃ r n f, c.core.At r n f ∧ r.pending = true ∧ recordToken r = t := by
  obtain ⟨r, hr, hpend, htok⟩ := h.follows.record hheld
  obtain ⟨n, f, hat⟩ := Core.exists_at (c := c.core) h.core.spine hr
  exact ⟨r, n, f, hat, hpend, htok⟩

/-- **The core is given what it relies on.** -/
theorem coreOk (h : Inv c) (ok : Ok i c) : Core.Ok (c.coreIn i) c.core where
  contiguous := (okSpine ok.fetch).contiguous
  recov := (okSpine ok.fetch).recov
  own := by
    intro w hv
    obtain ⟨p, t, hheld, -, hissued, -, hrob, hprn⟩ := lane_held (h.unit ok) h.parted hv
    obtain ⟨r, n, f, hat, hpend, htok⟩ := h.at_place hheld
    obtain ⟨r', n', f', hat', htag', hf⟩ := h.issued p t hheld hissued
    obtain ⟨rfl, rfl, rfl⟩ := hat.unique h.core.rob.toQueue hat'
      ((congrArg Token.robEntry htok).trans htag'.symm)
    have hdest := (h.decoded.copies r n f hat).destPrn.symm.trans (congrArg Token.destPrn htok)
    exact ⟨r, n, f, hat, htag'.trans hrob, hf, hdest.trans hprn, h.fresh r n f hat hpend⟩

end Inv

end R10K.Whole
