import R10K.Ldq.Entry
import R10K.Ldq.Log

/-! A cycle of a load queue, whichever loads it wakes and whichever results it takes.

The unit comes with one of two load queues: `ldq.sv`, which wakes a load as soon as it has
its address, and `ldq_conservative.sv`, which lets it wait for the stores before it. They
share the slots and the pointers, and differ in which load they wake and in what they offer.
`Cycle` is what a cycle without a flush does in both: a load that fires is one `ldq.sv`
would wake, and a result that is taken has its datum and all addresses it waits for. What
the load/store unit keeps is proved from `Cycle` alone. -/
namespace R10K.Ldq
open Lanes

/-- One cycle of a load that is not retired, its result taken or not. -/
def Load.stepWith (taken : LdqTag → Bool) (i : Inputs) (r : Load) : Load :=
  { r with
    exec := if r.tag == i.executeLdLdqTag && i.executeLdValid then
        some ⟨i.executeLdAddr, i.executeLdDataSize, i.executeLdPrn, i.executeLdRobTag⟩
      else r.exec
    done := r.done || taken r.tag }

def Log.nextWith (taken : LdqTag → Bool) (i : Inputs) (s : State) (l : Log) : Log :=
  if i.pipeFlush then {}
  else
    { loads := l.loads.take l.retired ++ l.live.map (Load.stepWith taken i) ++ dispatching i s
      retired := l.retired + retireCnt i }

/-- The load that enters the fire stage, with a copy of its entry. -/
structure Fires (i : Inputs) (s s' : State) : Prop where
  wakeup : ldWakeup i s s'.fireLdLdqTag = true
  addr : s'.fireLdAddr = if (s.ldqEntry s'.fireLdLdqTag).addrValid then (s.ldqEntry s'.fireLdLdqTag).addr
    else i.executeLdAddr
  dataSize : s'.fireLdDataSize = if (s.ldqEntry s'.fireLdLdqTag).addrValid then
    (s.ldqEntry s'.fireLdLdqTag).dataSize else i.executeLdDataSize
  stMask : s'.fireLdStMask = (s.ldqEntry s'.fireLdLdqTag).stMask
  stYoungest : s'.fireLdStYoungest = (s.ldqEntry s'.fireLdLdqTag).stYoungest

/-- A datum stands or comes in. -/
def hasDatum (i : Inputs) (s : State) (k : LdqTag) : Bool :=
  fwdDataAccept i s k || dcacheDataAccept i s k || (s.ldqEntry k).dataValid

structure Cycle (taken : LdqTag → Bool) (i : Inputs) (c c' : Config) : Prop where
  noFlush : i.pipeFlush = false
  headPtr : c'.ldq.headPtr = nextHeadPtr i c.ldq
  headPosBit : c'.ldq.headPosBit = nextHeadPosBit i c.ldq
  tailPtr : c'.ldq.tailPtr = nextTailPtr i c.ldq
  tailPosBit : c'.ldq.tailPosBit = nextTailPosBit i c.ldq
  ready : c'.ready = dispatchReady i c.ldq
  log : c'.log = c.log.nextWith taken i c.ldq
  entry : ∀ k, c'.ldq.ldqEntry k =
    { nextEntry i c.ldq k with
      writebacked := !retires i k && (taken k || (c.ldq.ldqEntry k).writebacked) }
  datum : ∀ k, taken k = true → hasDatum i c.ldq k = true
  waits : ∀ k, taken k = true → ∀ t, (c.ldq.ldqEntry k).stMask t = true → stqAddrValid i t = true
  fire : c'.ldq.fireLdValid = true → Fires i c.ldq c'.ldq

/-- The slots, the pointers and the log in a cycle without a flush. -/
structure Moves (taken : LdqTag → Bool) (i : Inputs) (c c' : Config) : Prop where
  noFlush : i.pipeFlush = false
  headPtr : c'.ldq.headPtr = nextHeadPtr i c.ldq
  headPosBit : c'.ldq.headPosBit = nextHeadPosBit i c.ldq
  tailPtr : c'.ldq.tailPtr = nextTailPtr i c.ldq
  tailPosBit : c'.ldq.tailPosBit = nextTailPosBit i c.ldq
  ready : c'.ready = dispatchReady i c.ldq
  log : c'.log = c.log.nextWith taken i c.ldq
  entryValid : ∀ k, (c'.ldq.ldqEntry k).entryValid =
    (!retires i k && (allocate i c.ldq k (c.ldq.ldqEntry k)).entryValid)

/-- What is offered has its datum. -/
theorem hasDatum_of_writeback {i : Inputs} {s : State} {k : LdqTag} (h : ldWriteback i s k = true) :
    hasDatum i s k = true := by
  rw [ldWriteback, Bool.and_eq_true, Bool.or_eq_true, Bool.or_eq_true, Bool.and_eq_true] at h
  rw [hasDatum, Bool.or_eq_true, Bool.or_eq_true]
  rcases h.2 with (hd | hd) | hd
  · exact .inr hd.1
  · exact .inl (.inl hd)
  · exact .inl (.inr hd)

/-- **The load queue takes its cycles.** -/
theorem cycle_next (c : Config) {i : Inputs} (hf : i.pipeFlush = false) :
    Cycle (writebackAccept i c.ldq) i c (c.next i) := by
  refine
    { noFlush := hf
      headPtr := ?_
      headPosBit := ?_
      tailPtr := ?_
      tailPosBit := ?_
      ready := rfl
      log := rfl
      entry := fun k => ?_
      datum := fun k hk => hasDatum_of_writeback (accept_slot hk)
      waits := fun k hk => ?_
      fire := fun hv => ⟨?_, rfl, rfl, rfl, rfl⟩ }
  · simp only [Config.next, Ldq.next, hf, Bool.false_eq_true, if_false]
  · simp only [Config.next, Ldq.next, hf, Bool.false_eq_true, if_false]
  · simp only [Config.next, Ldq.next, hf, Bool.false_eq_true, if_false]
  · simp only [Config.next, Ldq.next, hf, Bool.false_eq_true, if_false]
  · rw [← nextEntry_writebacked _ _ hf]
    rfl
  · have hw := accept_slot hk
    rw [ldWriteback, Bool.and_eq_true, decide_eq_true_eq] at hw
    exact hw.1
  · exact (Bool.and_eq_true_iff.1 hv).2

/-! ### A load's entry after a cycle -/

namespace Cycle
variable {taken : LdqTag → Bool} {i : Inputs} {c c' : Config} (h : Cycle taken i c c') (k : LdqTag)
include h

theorem entryValid : (c'.ldq.ldqEntry k).entryValid =
    (!retires i k && (allocate i c.ldq k (c.ldq.ldqEntry k)).entryValid) := by
  rw [h.entry]
  exact nextEntry_entryValid _ _ h.noFlush

theorem moves : Moves taken i c c' where
  noFlush := h.noFlush
  headPtr := h.headPtr
  headPosBit := h.headPosBit
  tailPtr := h.tailPtr
  tailPosBit := h.tailPosBit
  ready := h.ready
  log := h.log
  entryValid := h.entryValid

theorem addrValid : (c'.ldq.ldqEntry k).addrValid =
    (!retires i k && ((k == i.executeLdLdqTag && i.executeLdValid) || (c.ldq.ldqEntry k).addrValid)) := by
  rw [h.entry]
  exact nextEntry_addrValid _ _ h.noFlush

theorem fired : (c'.ldq.ldqEntry k).fired =
    (!retires i k && !stLdViolation i c.ldq k &&
      if k == c.ldq.fireLdLdqTag && fireLdAccept i c.ldq then !fireLdKill i c.ldq k
      else !(k == i.fwdLdqTag && i.fwdSleep) && (c.ldq.ldqEntry k).fired) := by
  rw [h.entry]
  exact nextEntry_fired _ _ h.noFlush

theorem dataValid : (c'.ldq.ldqEntry k).dataValid =
    (!retires i k && !stLdViolation i c.ldq k && hasDatum i c.ldq k) := by
  rw [h.entry]
  exact nextEntry_dataValid _ _ h.noFlush

theorem writebacked : (c'.ldq.ldqEntry k).writebacked =
    (!retires i k && (taken k || (c.ldq.ldqEntry k).writebacked)) := by
  rw [h.entry]

theorem stMask (t : StqTag) : (c'.ldq.ldqEntry k).stMask t =
    (!retires i k && !(fireStAccept i && t == i.fireStStqTag) &&
      (allocate i c.ldq k (c.ldq.ldqEntry k)).stMask t) := by
  rw [h.entry]
  exact nextEntry_stMask _ _ h.noFlush t

theorem stYoungest : (c'.ldq.ldqEntry k).stYoungest = (allocate i c.ldq k (c.ldq.ldqEntry k)).stYoungest := by
  rw [h.entry]
  exact nextEntry_stYoungest _ _ h.noFlush

theorem orderFail : (c'.ldq.ldqEntry k).orderFail =
    (stLdViolation i c.ldq k ||
      (!(k == c.ldq.fireLdLdqTag && c.ldq.fireLdValid && !fireLdKill i c.ldq k) &&
        (c.ldq.ldqEntry k).orderFail)) := by
  rw [h.entry]
  exact nextEntry_orderFail _ _ h.noFlush

/-- The datum of a load that does not fail. -/
theorem data (hno : stLdViolation i c.ldq k = false) : (c'.ldq.ldqEntry k).data =
    if fwdDataAccept i c.ldq k then i.fwdData
    else if dcacheDataAccept i c.ldq k then i.dcacheData else (c.ldq.ldqEntry k).data := by
  rw [h.entry]
  exact nextEntry_data _ _ h.noFlush hno

/-- What execution writes besides the valid bit. -/
theorem exec : (c'.ldq.ldqEntry k).addr = (if k == i.executeLdLdqTag && i.executeLdValid then i.executeLdAddr
      else (c.ldq.ldqEntry k).addr) ∧
    (c'.ldq.ldqEntry k).dataSize = (if k == i.executeLdLdqTag && i.executeLdValid then i.executeLdDataSize
      else (c.ldq.ldqEntry k).dataSize) ∧
    (c'.ldq.ldqEntry k).destPrn = (if k == i.executeLdLdqTag && i.executeLdValid then i.executeLdPrn
      else (c.ldq.ldqEntry k).destPrn) ∧
    (c'.ldq.ldqEntry k).robTag = (if k == i.executeLdLdqTag && i.executeLdValid then i.executeLdRobTag
      else (c.ldq.ldqEntry k).robTag) := by
  rw [h.entry]
  exact nextEntry_exec _ _ h.noFlush

end Cycle

/-! ### Sleeping -/

/-- What both queues do in a cycle with what a sleeping load depends on. -/
structure Sleeps (i : Inputs) (s s' : State) : Prop where
  stMask : ∀ k t, (s'.ldqEntry k).stMask t = (!retires i k && !(fireStAccept i && t == i.fireStStqTag) &&
    (allocate i s k (s.ldqEntry k)).stMask t)
  /-- A load asleep after the cycle was put to sleep in it, or slept and was not woken. -/
  sleep : ∀ k, (s'.ldqEntry k).sleep = true →
    ((k == i.fwdLdqTag && i.fwdSleep) = true ∧ (fireStAccept i && i.fireStStqTag == i.fwdStqTag) = false ∧
      (s'.ldqEntry k).fwdStqTag = i.fwdStqTag) ∨
    ((k == i.fwdLdqTag && i.fwdSleep) = false ∧ (s.ldqEntry k).sleep = true ∧
      ((s.ldqEntry k).fwdStqTag == i.fireStStqTag && fireStAccept i) = false ∧
      (s'.ldqEntry k).fwdStqTag = (s.ldqEntry k).fwdStqTag)
  fireLdStMask : s'.fireLdStMask = (s.ldqEntry s'.fireLdLdqTag).stMask

/-- What `updateSleep` leaves asleep. -/
theorem updateSleep_sleep {i : Inputs} {s : State} {k : LdqTag}
    (h : (updateSleep i s k (s.ldqEntry k)).sleep = true) :
    ((k == i.fwdLdqTag && i.fwdSleep) = true ∧ (fireStAccept i && i.fireStStqTag == i.fwdStqTag) = false ∧
      (updateSleep i s k (s.ldqEntry k)).fwdStqTag = i.fwdStqTag) ∨
    ((k == i.fwdLdqTag && i.fwdSleep) = false ∧ (s.ldqEntry k).sleep = true ∧
      ((s.ldqEntry k).fwdStqTag == i.fireStStqTag && fireStAccept i) = false ∧
      (updateSleep i s k (s.ldqEntry k)).fwdStqTag = (s.ldqEntry k).fwdStqTag) := by
  unfold updateSleep at h ⊢
  split at h
  · cases h
  · rename_i hviol
    rw [if_neg hviol]
    split at h
    · rename_i hreq
      rw [if_pos hreq]
      split at h
      · cases h
      · rename_i hno
        rw [if_neg hno]
        exact .inl ⟨hreq, Bool.eq_false_iff.2 hno, rfl⟩
    · rename_i hreq
      rw [if_neg hreq]
      split at h
      · cases h
      · rename_i hno
        rw [if_neg hno]
        exact .inr ⟨Bool.eq_false_iff.2 hreq, h, Bool.eq_false_iff.2 hno, rfl⟩

/-- Only `updateSleep` touches the bit and its store. -/
theorem sleeps_next (s : State) {i : Inputs} (hf : i.pipeFlush = false) : Sleeps i s (next i s) where
  stMask := fun k t => nextEntry_stMask s k hf t
  sleep := by
    intro k hk
    have hbit : ((next i s).ldqEntry k).sleep = (updateSleep i s k (s.ldqEntry k)).sleep ∧
        ((next i s).ldqEntry k).fwdStqTag = (updateSleep i s k (s.ldqEntry k)).fwdStqTag := by
      constructor <;>
        simp only [next, nextEntry, hf, Bool.false_eq_true, if_false, retire, writeback, writeData, updateFired,
          updateOrderFail, updateSleep, updateStMask, writeAddr, apply_ite LdqEntry.sleep,
          apply_ite LdqEntry.fwdStqTag, ite_self] <;>
        rw [allocate_frame]
    rw [hbit.1] at hk
    rw [hbit.2]
    exact updateSleep_sleep hk
  fireLdStMask := rfl

end R10K.Ldq
