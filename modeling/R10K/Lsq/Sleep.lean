import R10K.LdqConservative.Sleep
import R10K.Lsq.Dispatch
import R10K.Lsq.Squash

/-! A sleeping load can always be woken.

A lookup that finds a store which does not cover the load asks, one cycle later, that the
load sleep until that store goes to the data cache. The request may meet the store on its
way out: the store queue does not ask for a store it accepts in the same cycle, and the
load queue drops a request for a store accepted when it arrives. So what blocks a load is
always a store with its address, in the queue and in the load's mask (`Blocks`). The bit
outlives its load's retirement: a slot may be allocated asleep, and then the blocking store
is in the mask of the new load, since that names every store in the queue. Nothing here
depends on the data cache, and both load queues do the same. -/
namespace R10K.Lsq
open Circular Ldq

/-! ### Either load queue -/

/-- The load queue the unit is built with: `ldq.sv`, or `ldq_conservative.sv` under
`LSQ_CONSERVATIVE`. -/
inductive Variant where
  | speculative
  | conservative

def Variant.next : Variant → Inputs → Config → Config
  | .speculative, i, c => c.next i
  | .conservative, i, c => LdqConservative.lsqNext i c

/-- A cycle of the unit without a flush, with either queue. -/
structure Steps (i : Inputs) (c c' : Config) : Prop where
  stq : c'.stq = c.stq.next (stqIn i c.state)
  moves : ∃ taken, Moves taken (ldqIn i c.state) c.ldq c'.ldq
  sleeps : Sleeps (ldqIn i c.state) c.ldq.ldq c'.ldq.ldq

/-- What a flush leaves of the loads. -/
structure Flushed (c : Config) : Prop where
  ldq : Queue c.ldq
  stMask : ∀ t u, (c.ldq.ldq.ldqEntry t).stMask u = false
  sleep : ∀ t, (c.ldq.ldq.ldqEntry t).sleep = false
  fire : c.ldq.ldq.fireLdValid = false

namespace Variant

theorem steps (v : Variant) (c : Config) {i : Inputs} (hf : i.pipeFlush = false) : Steps i c (v.next i c) := by
  have hf' : (ldqIn i c.state).pipeFlush = false := hf
  cases v with
  | speculative => exact ⟨rfl, ⟨_, (Ldq.cycle_next c.ldq hf').moves⟩, sleeps_next _ hf'⟩
  | conservative => exact ⟨rfl, ⟨_, LdqConservative.moves_next c.ldq hf'⟩, LdqConservative.sleeps_next _ hf'⟩

theorem flushed (v : Variant) (c : Config) {i : Inputs} (hf : i.pipeFlush = true) : Flushed (v.next i c) := by
  have hf' : (ldqIn i c.state).pipeFlush = true := hf
  cases v with
  | speculative =>
    refine ⟨Queue.next_flush _ _ hf', fun t u => ?_, fun t => ?_, ?_⟩
    · show ((c.next i).ldq.ldq.ldqEntry t).stMask u = false
      rw [flush_entry c hf]
      rfl
    · show ((c.next i).ldq.ldq.ldqEntry t).sleep = false
      rw [flush_entry c hf]
      rfl
    · simp only [next, Config.next, Ldq.Config.next, Ldq.next, hf', Bool.not_true, Bool.false_and]
  | conservative =>
    have hentry : ∀ t, ((next .conservative i c).ldq.ldq.ldqEntry t) =
        LdqConservative.flushed (c.ldq.ldq.ldqEntry t) := fun t => by
      show LdqConservative.nextEntry (ldqIn i c.state) c.ldq.ldq t = _
      rw [LdqConservative.nextEntry, hf', if_pos rfl]
    refine ⟨LdqConservative.queue_flush _ hf', fun t u => ?_, fun t => ?_, ?_⟩
    · rw [hentry]
      rfl
    · rw [hentry]
      rfl
    · simp only [next, LdqConservative.lsqNext, LdqConservative.ldqNext, LdqConservative.next, hf', Bool.not_true,
        Bool.false_and]

end Variant

/-! ### What blocks a load -/

/-- A store that a load may sleep for: it has its address and is in the queue, and a valid
load has it in its mask. -/
def Blocks (c : Config) (t : LdqTag) (u : StqTag) : Prop :=
  HasAddr c u ∧ ((c.ldq.ldq.ldqEntry t).entryValid = true → (c.ldq.ldq.ldqEntry t).stMask u = true)

/-- The rules of the two queues, whatever the data cache answers. -/
structure OkQueues (i : Inputs) (c : Config) : Prop where
  stq : Stq.Ok (stqIn i c.state) c.stq
  ldq : Ldq.OkQueue (ldqIn i c.state) c.ldq

structure Wakeable (c : Config) : Prop where
  stq : Stq.Inv c.stq
  ldq : Queue c.ldq
  clear : ∀ t, (c.ldq.ldq.ldqEntry t).entryValid = false → ∀ u, (c.ldq.ldq.ldqEntry t).stMask u = false
  sleep : ∀ t, (c.ldq.ldq.ldqEntry t).sleep = true → Blocks c t (c.ldq.ldq.ldqEntry t).fwdStqTag
  request : c.stq.stq.fwdSleep = true → Blocks c c.stq.stq.fwdLdqTag c.stq.stq.fwdStqTag
  /-- The load in the fire stage has the mask it had, less the stores that left since. -/
  fire : c.ldq.ldq.fireLdValid = true → ∀ u, c.ldq.ldq.fireLdStMask u = true →
    (c.stq.stq.stqEntry u).entryValid = true →
    (c.ldq.ldq.ldqEntry c.ldq.ldq.fireLdLdqTag).entryValid = true →
    (c.ldq.ldq.ldqEntry c.ldq.ldq.fireLdLdqTag).stMask u = true

namespace Wakeable
variable {c c' : Config} {i : Inputs}

/-- The store accepted is the head's. -/
theorem accept_head (h : Wakeable c) (ha : fireStAccept (ldqIn i c.state) = true) :
    c.stq.stq.fireStStqTag = c.stq.stq.headPtr :=
  (h.stq.request (Bool.and_eq_true_iff.1 ha).1).2

/-- A load allocated in a cycle has every store of the queue in its mask. -/
theorem allocated_mask (i : Inputs) (c : Config) {t : LdqTag} {u : StqTag}
    (hno : (c.ldq.ldq.ldqEntry t).entryValid = false)
    (hv : (allocate (ldqIn i c.state) c.ldq.ldq t (c.ldq.ldq.ldqEntry t)).entryValid = true)
    (hu : (c.stq.stq.stqEntry u).entryValid = true) :
    (allocate (ldqIn i c.state) c.ldq.ldq t (c.ldq.ldq.ldqEntry t)).stMask u = true := by
  unfold allocate at hv ⊢
  split
  · rename_i l _
    have hmask : Stq.dispatchStMask c.state.stq u = true := hu
    show dispatchLdqStMask i c.state l u = true
    fin_cases l <;> simp [dispatchLdqStMask, hmask]
  · rename_i hnone
    rw [hnone, hno] at hv
    cases hv

/-- A store that blocks a load blocks it until it is accepted. -/
theorem next_blocks (h : Wakeable c) (ok : OkQueues i c) (hf : i.pipeFlush = false) (e : Steps i c c')
    {t : LdqTag} {u : StqTag} (hb : Blocks c t u)
    (hstay : (fireStAccept (ldqIn i c.state) && u == c.stq.stq.fireStStqTag) = false) : Blocks c' t u := by
  obtain ⟨_, hm⟩ := e.moves
  refine ⟨?_, fun hv => ?_⟩
  · rw [HasAddr, e.stq]
    refine Stq.nextEntry_addr (i := stqIn i c.state) hf hb.1.1 hb.1.2 ?_
    cases ha : Stq.fireStAccept (stqIn i c.state) c.stq.stq with
    | false => rw [Bool.and_false]
    | true =>
      have ha' : fireStAccept (ldqIn i c.state) = true := ha
      rw [ha', Bool.true_and, h.accept_head ha'] at hstay
      rw [Bool.and_true]
      exact hstay
  · rw [hm.entryValid, Bool.and_eq_true] at hv
    have hmask : (allocate (ldqIn i c.state) c.ldq.ldq t (c.ldq.ldq.ldqEntry t)).stMask u = true := by
      cases hold : (c.ldq.ldq.ldqEntry t).entryValid with
      | false => exact allocated_mask i c hold hv.2 hb.1.2
      | true =>
        rw [h.ldq.allocate_valid ok.ldq hold]
        exact hb.2 hold
    have hstay' : (fireStAccept (ldqIn i c.state) && u == (ldqIn i c.state).fireStStqTag) = false := hstay
    rw [e.sleeps.stMask, hv.1, hstay', hmask]
    rfl

/-- A load that sleeps after the cycle sleeps for a store that blocks it. -/
theorem next_sleep (h : Wakeable c) (ok : OkQueues i c) (hf : i.pipeFlush = false) (e : Steps i c c') (t : LdqTag)
    (hs : (c'.ldq.ldq.ldqEntry t).sleep = true) : Blocks c' t (c'.ldq.ldq.ldqEntry t).fwdStqTag := by
  rcases e.sleeps.sleep t hs with ⟨hreq, hstay, htag⟩ | ⟨_, hold, hstay, htag⟩
  · rw [Bool.and_eq_true, beq_iff_eq] at hreq
    have ht : t = c.stq.stq.fwdLdqTag := hreq.1
    have hv : c.stq.stq.fwdSleep = true := hreq.2
    rw [htag, ht]
    refine h.next_blocks ok hf e (h.request hv) ?_
    rw [Bool.beq_comm]
    exact hstay
  · rw [htag]
    refine h.next_blocks ok hf e (h.sleep t hold) ?_
    rw [Bool.and_comm]
    exact hstay

/-- A request after the cycle is for the match of the lookup, which is not accepted in it. -/
theorem next_request (h : Wakeable c) (ok : OkQueues i c) (hf : i.pipeFlush = false) (e : Steps i c c')
    (hs : c'.stq.stq.fwdSleep = true) : Blocks c' c'.stq.stq.fwdLdqTag c'.stq.stq.fwdStqTag := by
  have hf' : (stqIn i c.state).pipeFlush = false := hf
  have hstq : c'.stq.stq = Stq.next (stqIn i c.state) c.stq.stq := by rw [e.stq]; rfl
  have htag : c'.stq.stq.fwdStqTag = (Stq.fwdSearch (stqIn i c.state) c.stq.stq).1 := by
    rw [hstq]
    simp only [Stq.next, hf', Bool.false_eq_true, if_false]
  have hload : c'.stq.stq.fwdLdqTag = c.ldq.ldq.fireLdLdqTag := by
    rw [hstq, Stq.next_fwdLdqTag _ hf']
    rfl
  rw [hstq] at hs
  simp only [Stq.next, Stq.addrConflict, Bool.and_eq_true, Bool.not_eq_true'] at hs
  obtain ⟨_, ⟨hfound, _⟩, hstay⟩ := hs
  have hmatch := Stq.fwdSearch_match hfound
  rw [htag, hload]
  generalize (Stq.fwdSearch (stqIn i c.state) c.stq.stq).1 = u at hmatch hstay ⊢
  simp only [Stq.fwdMatch, Bool.and_eq_true] at hmatch
  obtain ⟨⟨⟨⟨_, hmask⟩, hfire⟩, haddr⟩, hvalid⟩ := hmatch
  refine h.next_blocks ok hf e ⟨⟨haddr, hvalid⟩, h.fire hfire u hmask hvalid⟩ ?_
  rw [Bool.beq_comm]
  exact hstay

/-- A store in the queue after the cycle was not accepted in it. -/
theorem valid_stays (h : Wakeable c) (hf : i.pipeFlush = false) (e : Steps i c c') {u : StqTag}
    (hv : (c'.stq.stq.stqEntry u).entryValid = true) :
    (fireStAccept (ldqIn i c.state) && u == c.stq.stq.fireStStqTag) = false := by
  rw [← Bool.not_eq_true]
  intro hgone
  rw [Bool.and_eq_true] at hgone
  have ha : Stq.fireStAccept (stqIn i c.state) c.stq.stq = true := hgone.1
  have hhead : (u == c.stq.stq.headPtr) = true := by
    rw [← h.accept_head hgone.1]
    exact hgone.2
  have hf' : (stqIn i c.state).pipeFlush = false := hf
  have hv' : (Stq.nextEntry (stqIn i c.state) c.stq.stq u).entryValid = true := by
    rw [e.stq] at hv
    exact hv
  simp only [Stq.nextEntry, hf', Bool.false_and, Bool.false_eq_true, if_false, Stq.fireMem, hhead, ha,
    Bool.and_self, if_true] at hv'

theorem next_clear (h : Wakeable c) (e : Steps i c c') (t : LdqTag)
    (hv : (c'.ldq.ldq.ldqEntry t).entryValid = false) (u : StqTag) : (c'.ldq.ldq.ldqEntry t).stMask u = false := by
  obtain ⟨_, hm⟩ := e.moves
  rw [hm.entryValid] at hv
  rw [e.sleeps.stMask]
  cases hret : retires (ldqIn i c.state) t with
  | true => rfl
  | false =>
    rw [hret, Bool.not_false, Bool.true_and] at hv
    have hsame : allocate (ldqIn i c.state) c.ldq.ldq t (c.ldq.ldq.ldqEntry t) = c.ldq.ldq.ldqEntry t := by
      unfold allocate at hv ⊢
      split
      · rename_i hfind
        rw [hfind] at hv
        cases hv
      · rfl
    rw [hsame] at hv ⊢
    rw [h.clear t hv, Bool.and_false]

theorem next_fire (h : Wakeable c) (ok : OkQueues i c) (hf : i.pipeFlush = false) (e : Steps i c c') (u : StqTag)
    (hu : c'.ldq.ldq.fireLdStMask u = true) (hs : (c'.stq.stq.stqEntry u).entryValid = true)
    (hv : (c'.ldq.ldq.ldqEntry c'.ldq.ldq.fireLdLdqTag).entryValid = true) :
    (c'.ldq.ldq.ldqEntry c'.ldq.ldq.fireLdLdqTag).stMask u = true := by
  obtain ⟨_, hm⟩ := e.moves
  rw [e.sleeps.fireLdStMask] at hu
  generalize c'.ldq.ldq.fireLdLdqTag = t at hu hv ⊢
  rw [hm.entryValid, Bool.and_eq_true] at hv
  have hold : (c.ldq.ldq.ldqEntry t).entryValid = true := by
    by_contra hno
    rw [h.clear t (Bool.eq_false_iff.2 hno)] at hu
    cases hu
  have hstay : (fireStAccept (ldqIn i c.state) && u == (ldqIn i c.state).fireStStqTag) = false :=
    h.valid_stays hf e hs
  rw [e.sleeps.stMask, hv.1, hstay, h.ldq.allocate_valid ok.ldq hold, hu]
  rfl

/-- **A cycle keeps every sleeping load wakeable**, with either queue. -/
theorem next (v : Variant) (h : Wakeable c) (ok : OkQueues i c) : Wakeable (v.next i c) := by
  have hstq : Stq.Inv (v.next i c).stq := by
    cases v <;> exact h.stq.next ok.stq
  cases hf : i.pipeFlush with
  | false =>
    have e := v.steps c hf
    obtain ⟨_, hm⟩ := e.moves
    exact
      { stq := hstq
        ldq := h.ldq.moves ok.ldq hm
        clear := h.next_clear e
        sleep := h.next_sleep ok hf e
        request := h.next_request ok hf e
        fire := fun _ => h.next_fire ok hf e }
  | true =>
    have e := v.flushed c hf
    have hquiet : (v.next i c).stq.stq.fwdSleep = false := by
      have hf' : (stqIn i c.state).pipeFlush = true := hf
      cases v <;>
        simp only [Variant.next, Config.next, LdqConservative.lsqNext, Stq.Config.next, Stq.next, hf', Bool.not_true,
          Bool.false_and]
    refine
      { stq := hstq
        ldq := e.ldq
        clear := fun t _ => e.stMask t
        sleep := fun t hs => ?_
        request := fun hs => ?_
        fire := fun hs => ?_ }
    · rw [e.sleep] at hs
      cases hs
    · rw [hquiet] at hs
      cases hs
    · rw [e.fire] at hs
      cases hs

theorem init : Wakeable Config.init where
  stq := Stq.Inv.init
  ldq := Queue.init
  clear := fun _ _ _ => rfl
  sleep := fun _ hs => by cases hs
  request := fun hs => by cases hs
  fire := fun hs => by cases hs

theorem of_reach {v : Variant} {c : Config} (h : Run.Reach v.next OkQueues Config.init c) : Wakeable c :=
  h.invariant Wakeable init fun _ _ hi ok => hi.next v ok

end Wakeable

/-! ### The result -/

/-- No load sleeps for ever: the store it sleeps for is to come, and wakes it. -/
structure Wakes (v : Variant) (i : Inputs) (c : Config) : Prop where
  /-- A sleeping load names a valid store of its mask, which is in the queue and not sent yet. -/
  waits : ∀ t, (c.ldq.ldq.ldqEntry t).entryValid = true → (c.ldq.ldq.ldqEntry t).sleep = true →
    (c.stq.stq.stqEntry (c.ldq.ldq.ldqEntry t).fwdStqTag).entryValid = true ∧
      (c.ldq.ldq.ldqEntry t).stMask (c.ldq.ldq.ldqEntry t).fwdStqTag = true ∧
      ∃ r ∈ c.stq.log.stores.drop c.stq.log.sent.length, r.tag = (c.ldq.ldq.ldqEntry t).fwdStqTag
  /-- The accept of the store clears the bit, unless another store blocks the load by then. -/
  wakes : ∀ t, fireStAccept (ldqIn i c.state) = true →
    c.stq.stq.fireStStqTag = (c.ldq.ldq.ldqEntry t).fwdStqTag →
    ((v.next i c).ldq.ldq.ldqEntry t).sleep = true →
    c.stq.stq.fwdSleep = true ∧ c.stq.stq.fwdLdqTag = t ∧ c.stq.stq.fwdStqTag ≠ c.stq.stq.fireStStqTag
  /-- A request that arrives with the accept of its store does not put the load to sleep. -/
  together : c.stq.stq.fwdSleep = true → fireStAccept (ldqIn i c.state) = true →
    c.stq.stq.fireStStqTag = c.stq.stq.fwdStqTag →
    ((v.next i c).ldq.ldq.ldqEntry c.stq.stq.fwdLdqTag).sleep = false
  /-- None arrives in the cycle after the accept. -/
  late : fireStAccept (ldqIn i c.state) = true → (v.next i c).stq.stq.fwdSleep = true →
    (v.next i c).stq.stq.fwdStqTag ≠ c.stq.stq.fireStStqTag

end R10K.Lsq
