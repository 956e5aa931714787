import R10K.LdqConservative.Sleep
import R10K.Lsq.Squash

/-! Loads that wait are cycles of the load queue that does not.

A load fires when the stores of its mask have their addresses, and a store executes once. So
no load that has left for the data cache or has its datum (`Started`) waits for an address any
more (`Waits`), the violation of `ldq.sv` never arises, and what the conservative queue
does in a cycle is a cycle of `ldq.sv` that wakes fewer loads (`cycle`). -/
namespace R10K.LdqConservative
open Circular Lsq Ldq

/-- The load of a slot is in the fire stage, is served by forwarding, has fired, or has its datum. -/
inductive Started (c : Lsq.Config) (t : LdqTag) : Prop where
  | fire (valid : c.ldq.ldq.fireLdValid = true) (tag : t = c.ldq.ldq.fireLdLdqTag)
  | fwd (valid : c.stq.stq.fwdValid = true) (tag : t = c.stq.stq.fwdLdqTag)
  | fired (fired : (c.ldq.ldq.ldqEntry t).fired = true)
  | data (dataValid : (c.ldq.ldq.ldqEntry t).dataValid = true)

/-- A load that has started is in flight. -/
theorem Started.valid {c : Lsq.Config} {t : LdqTag} (hs : Started c t) (h : Inv c) :
    (c.ldq.ldq.ldqEntry t).entryValid = true := by
  cases hs with
  | fire valid tag =>
    rw [tag]
    exact (h.fire valid).1
  | fwd valid tag =>
    rw [tag]
    exact (h.fwd (Bool.or_eq_true_iff.2 (.inl valid))).1
  | fired fired =>
    by_contra hno
    exact Bool.false_ne_true ((h.clear t (Bool.eq_false_iff.2 hno)).fired.symm.trans fired)
  | data dataValid =>
    by_contra hno
    exact Bool.false_ne_true ((h.clear t (Bool.eq_false_iff.2 hno)).data.symm.trans dataValid)

structure Waits (c : Lsq.Config) : Prop where
  orderFail : ∀ t, (c.ldq.ldq.ldqEntry t).orderFail = false
  addrs : ∀ t, Started c t → ∀ u, (c.ldq.ldq.ldqEntry t).stMask u = true → HasAddr c u

namespace Waits
variable {c : Lsq.Config} {i : Lsq.Inputs} {t : LdqTag}

/-- No store before a load that has started executes. -/
theorem unhit (w : Waits c) (h : Inv c) (ok : Lsq.Ok i c) (hs : Started c t) (hx : executeStqValid i = true) :
    (c.ldq.ldq.ldqEntry t).stMask i.executePkt.stqTag = false := by
  rw [← Bool.not_eq_true]
  intro hm
  have haddr := (w.addrs t hs _ hm).1
  rw [h.store_once ok hx] at haddr
  cases haddr

/-- The violation of the queue that does not wait never arises. -/
theorem quiet (w : Waits c) (h : Inv c) (ok : Lsq.Ok i c) (t : LdqTag) :
    stLdViolation (ldqIn i c.state) c.ldq.ldq t = false := by
  rw [← Bool.not_eq_true]
  intro hv
  simp only [stLdViolation, Bool.and_eq_true, Bool.or_eq_true, beq_iff_eq] at hv
  obtain ⟨⟨⟨_, hx⟩, hm⟩, hon⟩ := hv
  have hs : Started c t := by
    rcases hon with ((hd | hfwd) | hfired) | hfire
    · exact .data hd
    · exact .fwd hfwd.2 hfwd.1
    · exact .fired hfired
    · exact .fire (Bool.and_eq_true_iff.1 hfire.1).1 hfire.2
  exact Bool.false_ne_true ((w.unhit h ok hs hx).symm.trans hm)

/-- Nothing is killed but what forwarding serves or puts to sleep. -/
theorem kill_eq (w : Waits c) (h : Inv c) (ok : Lsq.Ok i c) (t : LdqTag) :
    Ldq.fireLdKill (ldqIn i c.state) c.ldq.ldq t = fireLdKill (ldqIn i c.state) t := by
  rw [Ldq.fireLdKill, w.quiet h ok, Bool.false_and, Bool.or_false]
  rfl

theorem fwd_eq (w : Waits c) (t : LdqTag) :
    Ldq.fwdDataAccept (ldqIn i c.state) c.ldq.ldq t = fwdDataAccept (ldqIn i c.state) t := by
  rw [Ldq.fwdDataAccept, w.orderFail, Bool.not_false, Bool.and_true]
  rfl

theorem dcache_eq (w : Waits c) (h : Inv c) (ok : Lsq.Ok i c) (t : LdqTag) :
    Ldq.dcacheDataAccept (ldqIn i c.state) c.ldq.ldq t = dcacheDataAccept (ldqIn i c.state) t := by
  rw [Ldq.dcacheDataAccept, w.kill_eq h ok]
  rfl

/-- A load with its datum, or to which one comes, has started. -/
theorem started (w : Waits c) (h : Inv c) (ok : Lsq.Ok i c) (hfresh : Fresh i c)
    (hd : hasDatum (ldqIn i c.state) c.ldq.ldq t = true) : Started c t := by
  rw [hasDatum, Bool.or_eq_true, Bool.or_eq_true, w.fwd_eq] at hd
  rcases hd with (hfwd | hans) | hdata
  · rw [fwdDataAccept, Bool.and_eq_true, beq_iff_eq] at hfwd
    exact .fwd hfwd.2 hfwd.1
  · exact .fired (h.pending t (Inv.answered ok hfresh hans).2.2.2).2.2.2.1
  · exact .data hdata

/-- What is offered has its datum. -/
theorem hasDatum_of_writeback (w : Waits c) (h : Inv c) (ok : Lsq.Ok i c)
    (hv : ldWriteback (ldqIn i c.state) c.ldq.ldq t = true) : hasDatum (ldqIn i c.state) c.ldq.ldq t = true := by
  rw [ldWriteback, Bool.or_eq_true, Bool.or_eq_true, Bool.and_eq_true, Bool.and_eq_true, Bool.and_eq_true] at hv
  rw [hasDatum, w.fwd_eq, w.dcache_eq h ok, Bool.or_eq_true, Bool.or_eq_true]
  rcases hv with (hv | hv) | hv
  · exact .inr hv.1
  · exact .inl (.inl hv.1)
  · exact .inl (.inr hv.1)

/-! ### A cycle -/

/-- Only a violation and its end touch `order_fail`. -/
theorem executed_orderFail (i : Ldq.Inputs) (s : Ldq.State) (k : LdqTag) (e : LdqEntry) :
    (updateSleep i s k (updateStMask i (writeAddr i k (allocate i s k e)))).orderFail = e.orderFail := by
  simp only [updateSleep, updateStMask, writeAddr, apply_ite LdqEntry.orderFail, ite_self]
  rw [allocate_frame]

/-- An entry takes the updates of the queue that does not wait, but for its result taken. -/
theorem entry_eq (w : Waits c) (h : Inv c) (ok : Lsq.Ok i c) (hf : i.pipeFlush = false) (t : LdqTag) :
    nextEntry (ldqIn i c.state) c.ldq.ldq t =
      { Ldq.nextEntry (ldqIn i c.state) c.ldq.ldq t with
        writebacked := (nextEntry (ldqIn i c.state) c.ldq.ldq t).writebacked } := by
  have hf' : (ldqIn i c.state).pipeFlush = false := hf
  have hsleep : ∀ e, Ldq.updateSleep (ldqIn i c.state) c.ldq.ldq t e = updateSleep (ldqIn i c.state) c.ldq.ldq t e :=
    fun e => by
      rw [Ldq.updateSleep, w.quiet h ok, if_neg Bool.false_ne_true]
      rfl
  have hfail : ∀ e : LdqEntry, e.orderFail = false → Ldq.updateOrderFail (ldqIn i c.state) c.ldq.ldq t e = e :=
    fun e he => by
      rw [Ldq.updateOrderFail, w.quiet h ok, if_neg Bool.false_ne_true]
      split
      · rw [← he]
      · rfl
  have hfired : ∀ e, Ldq.updateFired (ldqIn i c.state) c.ldq.ldq t e = updateFired (ldqIn i c.state) c.ldq.ldq t e :=
    fun e => by
      rw [Ldq.updateFired, w.quiet h ok, if_neg Bool.false_ne_true, w.kill_eq h ok]
      rfl
  have hdata : ∀ e, Ldq.writeData (ldqIn i c.state) c.ldq.ldq t e = writeData (ldqIn i c.state) t e :=
    fun e => by
      rw [Ldq.writeData, w.quiet h ok, if_neg Bool.false_ne_true, w.fwd_eq, w.dcache_eq h ok]
      rfl
  have hshared : ∃ e, Ldq.nextEntry (ldqIn i c.state) c.ldq.ldq t =
      retire (ldqIn i c.state) t (Ldq.writeback (ldqIn i c.state) c.ldq.ldq t e) ∧
      nextEntry (ldqIn i c.state) c.ldq.ldq t =
        retire (ldqIn i c.state) t (writeback (ldqIn i c.state) c.ldq.ldq t e) := by
    refine ⟨writeData (ldqIn i c.state) t (updateFired (ldqIn i c.state) c.ldq.ldq t
      (updateSleep (ldqIn i c.state) c.ldq.ldq t (updateStMask (ldqIn i c.state) (writeAddr (ldqIn i c.state) t
        (allocate (ldqIn i c.state) c.ldq.ldq t (c.ldq.ldq.ldqEntry t)))))), ?_, ?_⟩
    · rw [Ldq.nextEntry, hf', if_neg Bool.false_ne_true, hsleep,
        hfail _ ((executed_orderFail _ _ _ _).trans (w.orderFail t)), hfired, hdata]
    · rw [nextEntry, hf', if_neg Bool.false_ne_true]
  obtain ⟨e, h1, h2⟩ := hshared
  rw [h1, h2, retire, retire, writeback, Ldq.writeback]
  split_ifs <;> rfl

theorem next_writebacked (hf : i.pipeFlush = false) (t : LdqTag) :
    (nextEntry (ldqIn i c.state) c.ldq.ldq t).writebacked =
      (!retires (ldqIn i c.state) t &&
        ((writebackAccept (ldqIn i c.state) c.ldq.ldq t && (c.ldq.ldq.ldqEntry t).entryValid) ||
          (c.ldq.ldq.ldqEntry t).writebacked)) := by
  have hf' : (ldqIn i c.state).pipeFlush = false := hf
  simp only [nextEntry, hf', Bool.false_eq_true, if_false, retire, writeback, writeData, updateFired,
    updateSleep, updateStMask, writeAddr, apply_ite LdqEntry.writebacked, ite_self]
  rw [allocate_frame]
  cases retires (ldqIn i c.state) t <;>
    cases (writebackAccept (ldqIn i c.state) c.ldq.ldq t && (c.ldq.ldq.ldqEntry t).entryValid) <;> rfl

/-- **The queue that waits takes cycles of the one that does not.** -/
theorem cycle (w : Waits c) (h : Inv c) (ok : Lsq.Ok i c) (hfresh : Fresh i c) (hf : i.pipeFlush = false) :
    Lsq.Cycle (writebackAccept (ldqIn i c.state) c.ldq.ldq) i c (lsqNext i c) := by
  have hf' : (ldqIn i c.state).pipeFlush = false := hf
  have hslot : ∀ t, writebackAccept (ldqIn i c.state) c.ldq.ldq t = true →
      hasDatum (ldqIn i c.state) c.ldq.ldq t = true := by
    intro t ht
    rw [writebackAccept, Bool.and_eq_true, Bool.and_eq_true, beq_iff_eq, writebackValid, decide_eq_true_eq] at ht
    rw [ht.1.1]
    exact w.hasDatum_of_writeback h ok (lowest_of_exists ht.1.2)
  refine
    { stq := rfl
      ldq :=
        { noFlush := hf
          headPtr := (moves_next c.ldq hf').headPtr
          headPosBit := (moves_next c.ldq hf').headPosBit
          tailPtr := (moves_next c.ldq hf').tailPtr
          tailPosBit := (moves_next c.ldq hf').tailPosBit
          ready := rfl
          log := rfl
          entry := fun t => ?_
          datum := hslot
          waits := fun t ht u hu => ?_
          fire := fun hv => ?_ }
      pending := ?_
      stale := ?_ }
  · have hvalid : (writebackAccept (ldqIn i c.state) c.ldq.ldq t && (c.ldq.ldq.ldqEntry t).entryValid) =
        writebackAccept (ldqIn i c.state) c.ldq.ldq t := by
      cases ht : writebackAccept (ldqIn i c.state) c.ldq.ldq t with
      | false => rfl
      | true => rw [(h.served ok hfresh (hslot t ht)).1, Bool.and_true]
    show nextEntry (ldqIn i c.state) c.ldq.ldq t = _
    rw [w.entry_eq h ok hf, next_writebacked hf, hvalid]
  · exact Bool.and_eq_true_iff.2 (w.addrs t (w.started h ok hfresh (hslot t ht)) u hu)
  · have hwake : ldWakeup (ldqIn i c.state) c.ldq.ldq (fireLdqIdx (ldqIn i c.state) c.ldq.ldq) = true :=
      (Bool.and_eq_true_iff.1 hv).2
    simp only [ldWakeup, Bool.and_eq_true] at hwake
    obtain ⟨⟨⟨⟨⟨⟨_, haddr⟩, hdata⟩, hsleep⟩, hfired⟩, hfwd⟩, _⟩ := hwake
    refine ⟨?_, ?_, ?_, rfl, rfl⟩
    · show Ldq.ldWakeup _ _ (fireLdqIdx (ldqIn i c.state) c.ldq.ldq) = true
      simp only [Ldq.ldWakeup, haddr, hdata, hsleep, hfired, w.orderFail, Bool.not_false, Bool.and_true,
        Bool.true_or]
      exact hfwd
    · exact (if_pos haddr).symm
    · exact (if_pos haddr).symm
  · funext t
    have hkill : Config.kills i c t = kills i c t := w.kill_eq h ok t
    simp only [lsqNext, hf, Bool.false_eq_true, if_false]
    rw [pendingNext, Config.pendingNext, hkill]
  · funext t
    have hkill : Config.kills i c t = kills i c t := w.kill_eq h ok t
    simp only [lsqNext, hf, Bool.false_eq_true, if_false]
    rw [staleNext, Config.staleNext, hkill]

/-- What starts in a cycle is woken by it, with all addresses it waits for; the rest had started. -/
theorem next_started (w : Waits c) (h : Inv c) (ok : Lsq.Ok i c) (hfresh : Fresh i c) (hf : i.pipeFlush = false)
    (hs : Started (lsqNext i c) t) : Started c t ∨ ldWakeup (ldqIn i c.state) c.ldq.ldq t = true := by
  have e := w.cycle h ok hfresh hf
  cases hs with
  | fire valid tag =>
    rw [tag]
    exact .inr (Bool.and_eq_true_iff.1 valid).2
  | fwd valid tag =>
    have hlook := Stq.next_fwd (i := stqIn i c.state) (Bool.or_eq_true_iff.2 (.inl valid))
    exact .inl (.fire hlook.2 (tag.trans e.fwdLdqTag))
  | fired fired =>
    rw [e.ldq.fired, Bool.and_eq_true] at fired
    split at fired
    · rename_i haccept
      rw [Bool.and_eq_true, beq_iff_eq] at haccept
      exact .inl (.fire (Bool.and_eq_true_iff.1 haccept.2).1 haccept.1)
    · exact .inl (.fired (Bool.and_eq_true_iff.1 fired.2).2)
  | data dataValid =>
    rw [e.ldq.dataValid, Bool.and_eq_true] at dataValid
    exact .inl (w.started h ok hfresh dataValid.2)

/-- **Every cycle leaves what has started with its addresses.** -/
theorem next (w : Waits c) (h : Inv c) (ok : Lsq.Ok i c) (hfresh : Fresh i c) (hf : i.pipeFlush = false) :
    Waits (lsqNext i c) := by
  have e := w.cycle h ok hfresh hf
  refine ⟨fun t => ?_, fun t hs => ?_⟩
  · rw [e.ldq.orderFail, w.quiet h ok, w.orderFail, Bool.and_false]
    rfl
  · have hnow : (c.ldq.ldq.ldqEntry t).entryValid = true ∧
        ∀ u, (c.ldq.ldq.ldqEntry t).stMask u = true → HasAddr c u := by
      rcases w.next_started h ok hfresh hf hs with hs | hwake
      · exact ⟨hs.valid h, w.addrs t hs⟩
      · simp only [ldWakeup, Bool.and_eq_true, decide_eq_true_eq] at hwake
        refine ⟨hwake.1.1.1.1.1.1, fun u hu => ?_⟩
        have haddr := hwake.2 u
        rw [hu, Bool.true_and] at haddr
        exact Bool.and_eq_true_iff.1 haddr
    exact h.next_hasAddr ok e hnow.1 hnow.2

theorem init : Waits Config.init where
  orderFail := fun _ => rfl
  addrs := fun _ _ _ hu => by cases hu

end Waits

end R10K.LdqConservative
