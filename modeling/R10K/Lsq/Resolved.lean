import R10K.Lsq.Squash

/-! No load is broadcast before its speculation is resolved.

A store makes the loads behind it fail in the cycle it executes, one cycle before its
address is in its entry. A load is offered only once the entries of all its stores have
their addresses, and a store executes once, so no store can make a load fail that was
broadcast. `order_fail` is cleared when the load fires again: a request at the data
cache and a datum belong to a load that has not failed since. -/
namespace R10K.Lsq
open Circular Lanes Ldq

/-- A load with a datum, or with a request at the data cache, has not failed since it fired. -/
structure Passed (c : Config) : Prop where
  data : ∀ t, (c.ldq.ldq.ldqEntry t).dataValid = true → (c.ldq.ldq.ldqEntry t).orderFail = false
  pending : ∀ t, 0 < c.pending t → (c.ldq.ldq.ldqEntry t).orderFail = false

namespace Passed
variable {c c' : Config} {i : Inputs} {taken : LdqTag → Bool}

/-- A datum that stands or comes in is for a load that has not failed. -/
theorem hasDatum (hp : Passed c) (ok : Ok i c) (hfresh : Fresh i c) {t : LdqTag}
    (hd : Ldq.hasDatum (ldqIn i c.state) c.ldq.ldq t = true) : (c.ldq.ldq.ldqEntry t).orderFail = false := by
  rw [Ldq.hasDatum, Bool.or_eq_true, Bool.or_eq_true] at hd
  rcases hd with (hfwd | hans) | hdata
  · exact (fwdDataAccept_iff.1 hfwd).2.2
  · exact hp.pending t (Inv.answered ok hfresh hans).2.2.2
  · exact hp.data t hdata

/-- A load that neither fails in this cycle nor did before has not failed after it. -/
theorem next_orderFail (e : Cycle taken i c c') {t : LdqTag}
    (hviol : stLdViolation (ldqIn i c.state) c.ldq.ldq t = false)
    (hno : (c.ldq.ldq.ldqEntry t).orderFail = false) : (c'.ldq.ldq.ldqEntry t).orderFail = false := by
  rw [e.ldq.orderFail, hviol, hno, Bool.and_false, Bool.or_false]

theorem next_data (hp : Passed c) (ok : Ok i c) (hfresh : Fresh i c) (e : Cycle taken i c c') (t : LdqTag)
    (hd : (c'.ldq.ldq.ldqEntry t).dataValid = true) : (c'.ldq.ldq.ldqEntry t).orderFail = false := by
  rw [e.ldq.dataValid, Bool.and_eq_true, Bool.and_eq_true, Bool.not_eq_true', Bool.not_eq_true'] at hd
  exact next_orderFail e hd.1.2 (hp.hasDatum ok hfresh hd.2)

/-- A request that stands after the cycle was not killed in it, so its load did not fail. -/
theorem next_pending (h : Inv c) (hp : Passed c) (ok : Ok i c) (hfresh : Fresh i c) (e : Cycle taken i c c')
    (t : LdqTag) (hpend : 0 < Config.pendingNext i c t) : (c'.ldq.ldq.ldqEntry t).orderFail = false := by
  have hr := h.requested ok hfresh hpend
  have hkill := Inv.pending_unkilled hpend
  have hviol := hr.unfailed hkill
  cases hacc : Config.accepts i c t with
  | false =>
    have hold : c.pending t = 1 := by
      have hone := hr.one
      rwa [hacc, Bool.toNat_false, Nat.add_zero] at hone
    exact next_orderFail e hviol (hp.pending t (by omega))
  | true =>
    -- the load fires in this cycle, which clears the bit
    rw [Config.accepts, fireLdAccept, Bool.and_eq_true, Bool.and_eq_true, beq_iff_eq] at hacc
    obtain ⟨⟨hvalid, _⟩, rfl⟩ := hacc
    rw [e.ldq.orderFail, hviol, hvalid, hkill, beq_self_eq_true]
    rfl

/-- **A cycle without a flush keeps the invariant**, whatever it wakes and takes. -/
theorem cycle (h : Inv c) (hp : Passed c) (ok : Ok i c) (hfresh : Fresh i c) (e : Cycle taken i c c') :
    Passed c' where
  data := hp.next_data ok hfresh e
  pending := by
    intro t hpend
    rw [e.pending] at hpend
    exact hp.next_pending h ok hfresh e t hpend

/-- A flush clears every entry. -/
theorem next_flush (c : Config) (hf : i.pipeFlush = true) : Passed (c.next i) := by
  have hclear : ∀ t, ((c.next i).ldq.ldq.ldqEntry t).orderFail = false := fun t => by
    rw [flush_entry c hf]
    rfl
  exact ⟨fun t _ => hclear t, fun t _ => hclear t⟩

theorem next (h : Inv c) (hp : Passed c) (ok : Ok i c) (hfresh : Fresh i c) : Passed (c.next i) := by
  cases hf : i.pipeFlush
  · exact hp.cycle h ok hfresh (cycle_next c hf)
  · exact next_flush c hf

theorem init : Passed Config.init where
  data := fun _ hd => by cases hd
  pending := fun _ hp => absurd hp (Nat.lt_irrefl 0)

theorem of_reach {c : Config} (h : ReachFresh c) : Inv c ∧ Passed c :=
  Run.Reach.invariant (fun c => Inv c ∧ Passed c) ⟨Inv.init, init⟩
    (fun _ _ hi ok => ⟨hi.1.next ok.1 ok.2, hi.2.next hi.1 ok.1 ok.2⟩) h

end Passed

/-! ### The result -/

/-- What holds of the loads broadcast so far, in a cycle that may broadcast one more. -/
structure Resolved (i : Inputs) (c : Config) : Prop where
  /-- A load is broadcast once all the stores of its mask have written their addresses,
  and no store makes it fail in that cycle. -/
  broadcast : ∀ t, writebackAccept (ldqIn i c.state) c.ldq.ldq t = true →
    (∀ u, (c.ldq.ldq.ldqEntry t).stMask u = true → HasAddr c u) ∧
      stLdViolation (ldqIn i c.state) c.ldq.ldq t = false
  /-- No store makes a load fail that was broadcast before. -/
  violation : ∀ r ∈ c.ldq.log.live, r.done = true →
    stLdViolation (ldqIn i c.state) c.ldq.ldq r.tag = false
  /-- The loads that retire have not failed since they fired. -/
  retire : ∀ l, retiresLoad (ldqIn i c.state) l = true →
    (c.ldq.ldq.ldqEntry (i.retirePkt l).ldqTag).orderFail = false

/-- **No load is broadcast before its speculation is resolved**, in a run whose answers
are all fresh. -/
theorem broadcast_resolved {c : Config} (h : ReachFresh c) (i : Inputs) (ok : Ok i c) : Resolved i c := by
  obtain ⟨hi, hp⟩ := Passed.of_reach h
  refine ⟨fun t ht => ?_, fun r hr hdone => ?_, fun l hl => ?_⟩
  · have hslot := accept_slot ht
    rw [ldWriteback, Bool.and_eq_true, decide_eq_true_eq] at hslot
    have hm : ∀ u, (c.ldq.ldq.ldqEntry t).stMask u = true → HasAddr c u := fun u hu =>
      Bool.and_eq_true_iff.1 (hslot.1 u hu)
    exact ⟨hm, hi.settled_safe ok hm⟩
  · obtain ⟨k, hk, hget, htag⟩ := hi.ldq.live_slot hr
    have hag := hi.agrees k r hk hget
    rw [htag]
    exact hi.settled_safe ok (hi.settled _ (hag.done.trans hdone)).2
  · refine hp.data _ (hi.retires_done ok ?_)
    rw [retires, List.any_eq_true]
    exact ⟨l, List.mem_finRange l, Bool.and_eq_true_iff.2 ⟨beq_self_eq_true _, hl⟩⟩

/-! A store and a load, executed and fired before the store has its address. -/

def storeLoadIn : Inputs :=
  { idle with dispatchPkt := fun l => { wrMem := decide (l = 0), rdMem := decide (l = 1), packetValid := decide (l < 2) } }

/-- The store is elsewhere. -/
def storeAway : Inputs :=
  { idle with executePkt := { result := 0x200, wrMem := true, stData := 1, memSize := 2, packetValid := true } }

def ahead : Config := (((Config.init.next storeLoadIn).next loadOut).next loadFire).next storeAway

theorem ahead_reach : ReachFresh ahead := by
  refine .step storeAway (.step loadFire (.step loadOut (.step storeLoadIn .init ⟨?_, nofun⟩) ⟨?_, nofun⟩)
    ⟨?_, nofun⟩) ⟨?_, nofun⟩
  all_goals refine ok_of (fun _ => rfl) ?_ ?_ ?_ ?_ ?_ <;> decide +kernel

/-- The load is broadcast once the store before it has its address. -/
theorem broadcast_resolved_ahead : (ahead.ldq.ldq.ldqEntry 0).stMask 0 = true ∧ HasAddr ahead 0 ∧
    stLdViolation (ldqIn loadAnswer ahead.state) ahead.ldq.ldq 0 = false := by
  have hok : Ok loadAnswer ahead := by
    refine ok_of (fun _ => rfl) ?_ ?_ ?_ ?_ ?_ <;> decide +kernel
  have hmask : (ahead.ldq.ldq.ldqEntry 0).stMask 0 = true := by decide +kernel
  obtain ⟨haddr, hsafe⟩ := (broadcast_resolved ahead_reach loadAnswer hok).broadcast 0 (by decide +kernel)
  exact ⟨hmask, haddr 0 hmask, hsafe⟩

end R10K.Lsq
