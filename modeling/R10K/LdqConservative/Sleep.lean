import R10K.Ldq.Queue
import R10K.LdqConservative.System

/-! The slots and the sleep bits of the load queue that waits.

They are those of the queue that does not wait: a cycle moves the slots alike, and puts
loads to sleep and wakes them alike, whatever the data cache answers. -/
namespace R10K.LdqConservative
open Circular Lsq Ldq

theorem sleeps_next (s : Ldq.State) {i : Ldq.Inputs} (hf : i.pipeFlush = false) : Sleeps i s (next i s) where
  stMask := by
    intro k t
    have hmask : ((next i s).ldqEntry k).stMask = if retires i k then fun _ => false
        else if fireStAccept i then fun t => (allocate i s k (s.ldqEntry k)).stMask t && t != i.fireStStqTag
        else (allocate i s k (s.ldqEntry k)).stMask := by
      simp only [next, nextEntry, hf, Bool.false_eq_true, if_false, retire, writeback, writeData, updateFired,
        updateSleep, updateStMask, writeAddr, apply_ite LdqEntry.stMask, ite_self]
    rw [hmask]
    cases retires i k <;> cases fireStAccept i <;> simp [bne, Bool.and_comm]
  sleep := by
    intro k hk
    have hbit : ((next i s).ldqEntry k).sleep = (updateSleep i s k (s.ldqEntry k)).sleep ∧
        ((next i s).ldqEntry k).fwdStqTag = (updateSleep i s k (s.ldqEntry k)).fwdStqTag := by
      constructor <;>
        simp only [next, nextEntry, hf, Bool.false_eq_true, if_false, retire, writeback, writeData, updateFired,
          updateSleep, updateStMask, writeAddr, apply_ite LdqEntry.sleep, apply_ite LdqEntry.fwdStqTag, ite_self] <;>
        rw [allocate_frame]
    -- the update is that of `ldq.sv` when no store executes
    have hsame : updateSleep i s k (s.ldqEntry k) =
        Ldq.updateSleep { i with executeStAddrValid := false } s k (s.ldqEntry k) := by
      rw [Ldq.updateSleep, stLdViolation, Bool.and_false, Bool.false_and, Bool.false_and, if_neg Bool.false_ne_true]
      rfl
    rw [hbit.1, hsame] at hk
    rw [hbit.2, hsame]
    exact updateSleep_sleep hk
  fireLdStMask := rfl

theorem moves_next (c : Ldq.Config) {i : Ldq.Inputs} (hf : i.pipeFlush = false) :
    Moves (writebackAccept i c.ldq) i c (ldqNext i c) where
  noFlush := hf
  headPtr := by simp only [ldqNext, next, hf, Bool.false_eq_true, if_false]
  headPosBit := by simp only [ldqNext, next, hf, Bool.false_eq_true, if_false]
  tailPtr := by simp only [ldqNext, next, hf, Bool.false_eq_true, if_false]
  tailPosBit := by simp only [ldqNext, next, hf, Bool.false_eq_true, if_false]
  ready := rfl
  log := rfl
  entryValid := by
    intro k
    simp only [ldqNext, next, nextEntry, hf, Bool.false_eq_true, if_false, retire, writeback, writeData, updateFired,
      updateSleep, updateStMask, writeAddr, apply_ite LdqEntry.entryValid, ite_self]
    cases retires i k <;> rfl

theorem queue_flush (c : Ldq.Config) {i : Ldq.Inputs} (hf : i.pipeFlush = true) : Queue (ldqNext i c) := by
  refine ⟨?_, ?_, ?_, ?_, ?_, ?_, ?_, ?_⟩ <;>
    simp [ldqNext, next, Log.nextWith, hf, State.head, State.tail, Ptr.ofCount, nextEntry, flushed]

end R10K.LdqConservative
