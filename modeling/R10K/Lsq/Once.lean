import R10K.Lsq.Dispatch
import R10K.Lsq.Ordered
import R10K.Lsq.Squash

/-! A load is broadcast at most once, unless its lookup forwards twice.

A pending result is offered while the entry is not written back; a forward is offered
whatever the entry says. A load that the data cache refuses is woken again before its
forward arrives, so it stands in the fire stage a second time in the cycle the forward
comes in. If the result is taken in that cycle and the second lookup forwards too, the
next cycle offers the load again. `Repeats` is that cycle. -/
namespace R10K.Lsq
open Circular Lanes Ldq

/-- The forward of the load in the fire stage is broadcast while its lookup forwards again. -/
structure Repeats (i : Inputs) (s : State) : Prop where
  noFlush : i.pipeFlush = false
  served : s.stq.fwdValid = true ∧ s.stq.fwdLdqTag = s.ldq.fireLdLdqTag
  taken : writebackAccept (ldqIn i s) s.ldq s.ldq.fireLdLdqTag = true
  forwards : (Stq.fwdSearch (stqIn i s) s.stq).2 = true
  covers : Stq.addrConflict (stqIn i s) s.stq = false
  datum : (s.stq.stqEntry (Stq.fwdSearch (stqIn i s) s.stq).1).dataValid = true

/-- A forward stands for a load that was broadcast. -/
def Again (c : Config) : Prop :=
  c.stq.stq.fwdValid = true ∧ (c.ldq.ldq.ldqEntry c.stq.stq.fwdLdqTag).writebacked = true

/-- A run with the number of times each load of the log was broadcast. -/
structure Tally where
  lsq : Config
  taken : Nat → Nat

namespace Tally

def init : Tally := ⟨Config.init, fun _ => 0⟩

/-- The broadcasts of a load in this cycle: one if it is in flight and its entry is selected
with `writeback_valid` and `writeback_ready`. -/
def takes (i : Inputs) (s : Tally) (k : Nat) : Nat :=
  match s.lsq.ldq.log.loads[k]? with
  | some r => (decide (s.lsq.ldq.log.retired ≤ k) &&
      writebackAccept (ldqIn i s.lsq.state) s.lsq.ldq.ldq r.tag).toNat
  | none => 0

theorem takes_live {i : Inputs} {s : Tally} {k : Nat} {r : Load} (hk : s.lsq.ldq.log.retired ≤ k)
    (hr : s.lsq.ldq.log.loads[k]? = some r) :
    s.takes i k = (writebackAccept (ldqIn i s.lsq.state) s.lsq.ldq.ldq r.tag).toNat := by
  simp only [takes, hr, decide_eq_true hk, Bool.true_and]

/-- A retired load is not broadcast. -/
theorem takes_retired (i : Inputs) {s : Tally} {k : Nat} (hk : k < s.lsq.ldq.log.retired) : s.takes i k = 0 := by
  rw [takes, decide_eq_false (Nat.not_le.2 hk)]
  split <;> rfl

theorem takes_none (i : Inputs) {s : Tally} {k : Nat} (hk : s.lsq.ldq.log.loads.length ≤ k) : s.takes i k = 0 := by
  simp only [takes, List.getElem?_eq_none_iff.2 hk]

/-- The log starts anew after a flush, and so do the counts. -/
def next (i : Inputs) (s : Tally) : Tally where
  lsq := s.lsq.next i
  taken := fun k => if i.pipeFlush then 0 else s.taken k + s.takes i k

end Tally

/-- What broadcast at most once says of a cycle. -/
structure AtMostOnce (i : Inputs) (s : Tally) : Prop where
  /-- No load was broadcast twice, this cycle included. -/
  count : ∀ k, s.taken k + s.takes i k ≤ 1
  /-- An entry that is written back is not offered. -/
  silent : ∀ t, (s.lsq.ldq.ldq.ldqEntry t).writebacked = true →
    ldWriteback (ldqIn i s.lsq.state) s.lsq.ldq.ldq t = false

/-! ### What is offered twice -/

namespace Inv
variable {c : Config} {i : Inputs}

/-- Only a forward offers an entry that is written back. -/
theorem offered_forward (h : Inv c) (ok : Ok i c) (hfresh : Fresh i c) {t : LdqTag}
    (hw : (c.ldq.ldq.ldqEntry t).writebacked = true)
    (ho : ldWriteback (ldqIn i c.state) c.ldq.ldq t = true) : t = c.stq.stq.fwdLdqTag ∧ Again c := by
  rw [ldWriteback, Bool.and_eq_true, Bool.or_eq_true, Bool.or_eq_true, hw, Bool.not_true, Bool.and_false] at ho
  rcases ho.2 with (hd | hfwd) | hans
  · cases hd
  · obtain ⟨rfl, hv, _⟩ := fwdDataAccept_iff.1 hfwd
    exact ⟨rfl, hv, hw⟩
  · have hd := (h.pending t (answered ok hfresh hans).2.2.2).2.2.2.2
    rw [(h.settled t hw).1] at hd
    cases hd

/-- The load in the fire stage is taken by its forward only. -/
theorem fire_taken (h : Inv c) (ok : Ok i c) (hfresh : Fresh i c) (hv : c.ldq.ldq.fireLdValid = true)
    (ht : hasDatum (ldqIn i c.state) c.ldq.ldq c.ldq.ldq.fireLdLdqTag = true) :
    c.stq.stq.fwdValid = true ∧ c.stq.stq.fwdLdqTag = c.ldq.ldq.fireLdLdqTag := by
  obtain ⟨_, _, hfired, hdata⟩ := h.fire hv
  rw [hasDatum, hdata, Bool.or_false, Bool.or_eq_true] at ht
  rcases ht with hfwd | hans
  · obtain ⟨htag, hvalid, _⟩ := fwdDataAccept_iff.1 hfwd
    exact ⟨hvalid, htag.symm⟩
  · rw [(h.pending _ (answered ok hfresh hans).2.2.2).2.2.2.1] at hfired
    cases hfired

/-- **A forward for a load that was broadcast comes from `Repeats` only**, and always does. -/
theorem again_iff (h : Inv c) (ok : Ok i c) (hfresh : Fresh i c) : Again (c.next i) ↔ Repeats i c.state := by
  constructor
  · intro ⟨hv, hw⟩
    obtain ⟨hf, hdatum, hfound, hcovers⟩ := Stq.fwdValid_iff.1 hv
    have hf' : i.pipeFlush = false := hf
    have e := cycle_next c hf'
    have hfire : c.ldq.ldq.fireLdValid = true := (Stq.next_fwd (Bool.or_eq_true_iff.2 (.inl hv))).2
    -- the load in the fire stage has no datum, so it is broadcast in this cycle
    rw [e.fwdLdqTag, e.ldq.writebacked, Bool.and_eq_true, Bool.or_eq_true] at hw
    have htaken : writebackAccept (ldqIn i c.state) c.ldq.ldq c.ldq.ldq.fireLdLdqTag = true := by
      rcases hw.2 with htaken | hold
      · exact htaken
      · have hdata := (h.fire hfire).2.2.2
        rw [(h.settled _ hold).1] at hdata
        cases hdata
    exact ⟨hf', h.fire_taken ok hfresh hfire (e.ldq.datum _ htaken), htaken, hfound, hcovers, hdatum⟩
  · intro hr
    have e := cycle_next c hr.noFlush
    have hv : (c.next i).stq.stq.fwdValid = true :=
      Stq.fwdValid_iff.2 ⟨hr.noFlush, hr.datum, hr.forwards, hr.covers⟩
    have hfire : c.ldq.ldq.fireLdValid = true := (Stq.next_fwd (Bool.or_eq_true_iff.2 (.inl hv))).2
    have htaken : writebackAccept (ldqIn i c.state) c.ldq.ldq c.ldq.ldq.fireLdLdqTag = true := hr.taken
    refine ⟨hv, ?_⟩
    rw [e.fwdLdqTag, e.ldq.writebacked, (h.fire_stays ok e hfire).1, htaken]
    rfl

end Inv

/-! ### Runs -/

/-- The counts say which loads were broadcast, and no forward stands for one of them. -/
structure Once (s : Tally) : Prop where
  lsq : Inv s.lsq
  again : ¬ Again s.lsq
  count : ∀ (k : Nat) (r : Load), s.lsq.ldq.log.loads[k]? = some r → s.taken k = r.done.toNat
  fresh : ∀ k, s.lsq.ldq.log.loads.length ≤ k → s.taken k = 0

namespace Once
variable {s : Tally} {i : Inputs}

theorem silent (h : Once s) (ok : Ok i s.lsq) (hfresh : Fresh i s.lsq) (t : LdqTag)
    (hw : (s.lsq.ldq.ldq.ldqEntry t).writebacked = true) :
    ldWriteback (ldqIn i s.lsq.state) s.lsq.ldq.ldq t = false := by
  rw [← Bool.not_eq_true]
  intro ho
  exact h.again (h.lsq.offered_forward ok hfresh hw ho).2

/-- A load in flight that was broadcast is not broadcast in this cycle. -/
theorem done_silent (h : Once s) (ok : Ok i s.lsq) (hfresh : Fresh i s.lsq) {k : Nat} {r : Load}
    (hk : s.lsq.ldq.log.retired ≤ k) (hr : s.lsq.ldq.log.loads[k]? = some r) (hd : r.done = true) :
    writebackAccept (ldqIn i s.lsq.state) s.lsq.ldq.ldq r.tag = false := by
  have htag := h.lsq.ldq.tag k r hr
  have hw := (h.lsq.agrees k r hk hr).done.trans hd
  rw [← Bool.not_eq_true]
  intro ht
  have ho := accept_slot ht
  rw [htag, h.silent ok hfresh _ hw] at ho
  cases ho

/-- The count of a load after a cycle says again whether it was broadcast. -/
theorem count_next (h : Once s) (ok : Ok i s.lsq) (hfresh : Fresh i s.lsq) {k : Nat} {r : Load}
    (hk : s.lsq.ldq.log.retired ≤ k) (hr : s.lsq.ldq.log.loads[k]? = some r) :
    s.taken k + s.takes i k = (r.done || writebackAccept (ldqIn i s.lsq.state) s.lsq.ldq.ldq r.tag).toNat := by
  rw [h.count k r hr, Tally.takes_live hk hr]
  cases hd : r.done with
  | false => exact Nat.zero_add _
  | true => rw [h.done_silent ok hfresh hk hr hd, Bool.or_false]; rfl

theorem atMostOnce (h : Once s) (ok : Ok i s.lsq) (hfresh : Fresh i s.lsq) : AtMostOnce i s where
  count := by
    intro k
    cases hr : s.lsq.ldq.log.loads[k]? with
    | none =>
      rw [h.fresh k (List.getElem?_eq_none_iff.1 hr), Tally.takes_none i (List.getElem?_eq_none_iff.1 hr)]
      exact Nat.zero_le 1
    | some r =>
      by_cases hk : s.lsq.ldq.log.retired ≤ k
      · rw [h.count_next ok hfresh hk hr]
        exact Bool.toNat_le _
      · rw [h.count k r hr, Tally.takes_retired i (Nat.lt_of_not_le hk)]
        exact Bool.toNat_le _
  silent := h.silent ok hfresh

theorem next_noFlush (h : Once s) (ok : Ok i s.lsq) (hfresh : Fresh i s.lsq) (hno : ¬ Repeats i s.lsq.state)
    (hf : i.pipeFlush = false) : Once (s.next i) := by
  have hle := h.lsq.ldq.le
  have e := (cycle_next s.lsq hf).ldq
  have hcount : ∀ k, (s.next i).taken k = s.taken k + s.takes i k := fun k => by
    simp only [Tally.next, hf, Bool.false_eq_true, if_false]
  have hnone : ∀ k, s.lsq.ldq.log.loads.length ≤ k → (s.next i).taken k = 0 := fun k hk => by
    rw [hcount, h.fresh k hk, Tally.takes_none i hk]
  refine ⟨h.lsq.next ok hfresh, fun ha => hno ((h.lsq.again_iff ok hfresh).1 ha), fun k r hr => ?_,
    fun k hk => hnone k ?_⟩
  · rcases e.load hle hr with ⟨hlt, h₀⟩ | ⟨hge, r₀, h₀, rfl⟩ | ⟨hge, _, _, rfl⟩
    · rw [hcount, h.count k r h₀, Tally.takes_retired i hlt]
      rfl
    · rw [hcount, h.count_next ok hfresh hge h₀]
      rfl
    · exact hnone k hge
  · have hlen := e.loads_length hle
    have hk' : (s.lsq.ldq.next (ldqIn i s.lsq.state)).log.loads.length ≤ k := hk
    have hlen' : (s.lsq.ldq.next (ldqIn i s.lsq.state)).log.loads.length = _ := hlen
    omega

theorem next_flush (h : Once s) (ok : Ok i s.lsq) (hfresh : Fresh i s.lsq) (hno : ¬ Repeats i s.lsq.state)
    (hf : i.pipeFlush = true) : Once (s.next i) := by
  have hzero : ∀ k, (s.next i).taken k = 0 := fun k => by
    simp only [Tally.next, hf, if_true]
  refine ⟨h.lsq.next ok hfresh, fun ha => hno ((h.lsq.again_iff ok hfresh).1 ha), fun k r hr => ?_,
    fun k _ => hzero k⟩
  simp only [Tally.next, Config.next, Ldq.Config.next, Log.next, show (ldqIn i s.lsq.state).pipeFlush = true from hf,
    if_true] at hr
  cases hr

theorem next (h : Once s) (ok : Ok i s.lsq) (hfresh : Fresh i s.lsq) (hno : ¬ Repeats i s.lsq.state) :
    Once (s.next i) := by
  cases hf : i.pipeFlush
  · exact h.next_noFlush ok hfresh hno hf
  · exact h.next_flush ok hfresh hno hf

theorem init : Once Tally.init where
  lsq := Inv.init
  again := fun ha => Bool.false_ne_true ha.1
  count := fun k r hr => by cases hr
  fresh := fun _ _ => rfl

end Once

/-- **A load is broadcast at most once**, in a run whose answers are fresh and in which no
load is broadcast while its lookup forwards again. Such a cycle is exactly one after which
an entry is offered that is written back. -/
theorem broadcast_once {s : Tally}
    (h : Run.Reach Tally.next (fun i s => Ok i s.lsq ∧ Fresh i s.lsq ∧ ¬ Repeats i s.lsq.state) Tally.init s)
    (i : Inputs) (ok : Ok i s.lsq) (hfresh : Fresh i s.lsq) :
    AtMostOnce i s ∧ (Again (s.lsq.next i) ↔ Repeats i s.lsq.state) := by
  have hi : Once s := h.invariant Once .init fun _ _ hi hok => hi.next hok.1 hok.2.1 hok.2.2
  exact ⟨hi.atMostOnce ok hfresh, hi.lsq.again_iff ok hfresh⟩

/-- A load that the data cache accepted and answers. -/
theorem broadcast_once_answer : AtMostOnce loadAnswer (((Tally.init.next loadIn).next loadOut).next loadFire) := by
  refine (broadcast_once (.step loadFire (.step loadOut (.step loadIn .init ⟨?_, nofun, fun h => ?_⟩)
    ⟨?_, nofun, fun h => ?_⟩) ⟨?_, nofun, fun h => ?_⟩) loadAnswer answer_ok fun _ => rfl).1
  · exact ok_of (fun _ => rfl) (by decide) (by decide) (by decide) (by decide) (by decide)
  · exact absurd h.served.1 (by decide)
  · exact ok_of (fun _ => rfl) (by decide) (by decide) (by decide) (by decide) (by decide)
  · exact absurd h.served.1 (by decide)
  · exact ok_of (fun _ => rfl) (by decide) (by decide) (by decide) (by decide) (by decide)
  · exact absurd h.served.1 (by decide)

/-! ### A load broadcast twice -/

/-- A store and a load of its word behind it execute, the data cache refuses the load while it
is looked up, and the forward is taken while the load stands in the fire stage again. -/
def servedTwice : Tally :=
  ((((Tally.init.next storeLoad).next (storeWord 0 1)).next loadOut).next idle).next takeIn

/-- The second forward is taken as well. -/
theorem broadcast_twice : ∃ s i, Run.Reach Tally.next (fun i s => Ok i s.lsq ∧ Fresh i s.lsq) Tally.init s ∧
    Ok i s.lsq ∧ Fresh i s.lsq ∧ ¬ AtMostOnce i s := by
  refine ⟨servedTwice, takeIn, ?_, ?_, nofun, fun h => ?_⟩
  · refine .step takeIn (.step idle (.step loadOut (.step (storeWord 0 1) (.step storeLoad .init
      ⟨?_, nofun⟩) ⟨?_, nofun⟩) ⟨?_, nofun⟩) ⟨?_, nofun⟩) ⟨?_, nofun⟩
    all_goals
      refine ok_of (fun _ => rfl) ?_ ?_ ?_ ?_ ?_ <;> decide +kernel
  · exact ok_of (fun _ => rfl) (by decide) (by decide) (by decide) (by decide) (by decide)
  · have htwo : servedTwice.taken 0 + servedTwice.takes takeIn 0 = 2 := by decide +kernel
    have hone := h.count 0
    omega

end R10K.Lsq
