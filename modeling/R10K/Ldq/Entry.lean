import R10K.Ldq.Model

/-! A load's entry after a cycle, field by field.

Nine updates write an entry; each field is written by few of them, and retirement wins
over all. The lemmas say so once, for a cycle without a flush. -/
namespace R10K.Ldq
variable {i : Inputs} (s : State) (k : LdqTag)

/-- Allocation writes the mask, the youngest store and the valid bit. -/
theorem allocate_frame (i : Inputs) (e : LdqEntry) : allocate i s k e =
    { e with
      stMask := (allocate i s k e).stMask
      stYoungest := (allocate i s k e).stYoungest
      entryValid := (allocate i s k e).entryValid } := by
  unfold allocate
  split <;> rfl

theorem nextEntry_flush (hf : i.pipeFlush = true) : nextEntry i s k = flushed (s.ldqEntry k) := by
  rw [nextEntry, hf, if_pos rfl]

/-- Only allocation and retirement touch the valid bit. -/
theorem nextEntry_entryValid (hf : i.pipeFlush = false) : (nextEntry i s k).entryValid =
    (!retires i k && (allocate i s k (s.ldqEntry k)).entryValid) := by
  simp only [nextEntry, hf, Bool.false_eq_true, if_false, retire, writeback, writeData, updateFired,
    updateOrderFail, updateSleep, updateStMask, writeAddr, apply_ite LdqEntry.entryValid, ite_self]
  cases retires i k <;> rfl

theorem nextEntry_addrValid (hf : i.pipeFlush = false) : (nextEntry i s k).addrValid =
    (!retires i k && ((k == i.executeLdLdqTag && i.executeLdValid) || (s.ldqEntry k).addrValid)) := by
  simp only [nextEntry, hf, Bool.false_eq_true, if_false, retire, writeback, writeData, updateFired,
    updateOrderFail, updateSleep, updateStMask, writeAddr, apply_ite LdqEntry.addrValid, ite_self]
  rw [allocate_frame]
  cases retires i k <;> cases (k == i.executeLdLdqTag && i.executeLdValid) <;> rfl

theorem nextEntry_fired (hf : i.pipeFlush = false) : (nextEntry i s k).fired =
    (!retires i k && !stLdViolation i s k &&
      if k == s.fireLdLdqTag && fireLdAccept i s then !fireLdKill i s k
      else !(k == i.fwdLdqTag && i.fwdSleep) && (s.ldqEntry k).fired) := by
  simp only [nextEntry, hf, Bool.false_eq_true, if_false, retire, writeback, writeData, updateFired,
    updateOrderFail, updateSleep, updateStMask, writeAddr, apply_ite LdqEntry.fired, ite_self]
  rw [allocate_frame]
  cases retires i k <;> cases stLdViolation i s k <;>
    cases (k == s.fireLdLdqTag && fireLdAccept i s) <;> cases (k == i.fwdLdqTag && i.fwdSleep) <;> rfl

theorem nextEntry_dataValid (hf : i.pipeFlush = false) : (nextEntry i s k).dataValid =
    (!retires i k && !stLdViolation i s k &&
      (fwdDataAccept i s k || dcacheDataAccept i s k || (s.ldqEntry k).dataValid)) := by
  simp only [nextEntry, hf, Bool.false_eq_true, if_false, retire, writeback, writeData, updateFired,
    updateOrderFail, updateSleep, updateStMask, writeAddr, apply_ite LdqEntry.dataValid, ite_self]
  rw [allocate_frame]
  cases retires i k <;> cases stLdViolation i s k <;> cases fwdDataAccept i s k <;>
    cases dcacheDataAccept i s k <;> rfl

theorem nextEntry_writebacked (hf : i.pipeFlush = false) : (nextEntry i s k).writebacked =
    (!retires i k && (writebackAccept i s k || (s.ldqEntry k).writebacked)) := by
  simp only [nextEntry, hf, Bool.false_eq_true, if_false, retire, writeback, writeData, updateFired,
    updateOrderFail, updateSleep, updateStMask, writeAddr, apply_ite LdqEntry.writebacked, ite_self]
  rw [allocate_frame]
  cases retires i k <;> cases writebackAccept i s k <;> rfl

theorem nextEntry_stMask (hf : i.pipeFlush = false) (t : StqTag) : (nextEntry i s k).stMask t =
    (!retires i k && !(fireStAccept i && t == i.fireStStqTag) &&
      (allocate i s k (s.ldqEntry k)).stMask t) := by
  have hmask : (nextEntry i s k).stMask = if retires i k then fun _ => false
      else if fireStAccept i then fun t => (allocate i s k (s.ldqEntry k)).stMask t && t != i.fireStStqTag
      else (allocate i s k (s.ldqEntry k)).stMask := by
    simp only [nextEntry, hf, Bool.false_eq_true, if_false, retire, writeback, writeData, updateFired,
      updateOrderFail, updateSleep, updateStMask, writeAddr, apply_ite LdqEntry.stMask, ite_self]
  rw [hmask]
  cases retires i k <;> cases fireStAccept i <;> simp [bne, Bool.and_comm]

theorem nextEntry_stYoungest (hf : i.pipeFlush = false) :
    (nextEntry i s k).stYoungest = (allocate i s k (s.ldqEntry k)).stYoungest := by
  simp only [nextEntry, hf, Bool.false_eq_true, if_false, retire, writeback, writeData, updateFired,
    updateOrderFail, updateSleep, updateStMask, writeAddr, apply_ite LdqEntry.stYoungest, ite_self]

theorem nextEntry_orderFail (hf : i.pipeFlush = false) : (nextEntry i s k).orderFail =
    (stLdViolation i s k ||
      (!(k == s.fireLdLdqTag && s.fireLdValid && !fireLdKill i s k) && (s.ldqEntry k).orderFail)) := by
  simp only [nextEntry, hf, Bool.false_eq_true, if_false, retire, writeback, writeData, updateFired,
    updateOrderFail, updateSleep, updateStMask, writeAddr, apply_ite LdqEntry.orderFail, ite_self]
  rw [allocate_frame]
  cases stLdViolation i s k <;> cases (k == s.fireLdLdqTag && s.fireLdValid && !fireLdKill i s k) <;> rfl

/-- The datum of a load that does not fail. -/
theorem nextEntry_data (hf : i.pipeFlush = false) (hno : stLdViolation i s k = false) :
    (nextEntry i s k).data = if fwdDataAccept i s k then i.fwdData
      else if dcacheDataAccept i s k then i.dcacheData else (s.ldqEntry k).data := by
  simp only [nextEntry, hf, hno, Bool.false_eq_true, if_false, retire, writeback, writeData, updateFired,
    updateOrderFail, updateSleep, updateStMask, writeAddr, apply_ite LdqEntry.data, ite_self]
  rw [allocate_frame]

/-- What execution writes besides the valid bit. -/
theorem nextEntry_exec (hf : i.pipeFlush = false) :
    (nextEntry i s k).addr = (if k == i.executeLdLdqTag && i.executeLdValid then i.executeLdAddr
      else (s.ldqEntry k).addr) ∧
    (nextEntry i s k).dataSize = (if k == i.executeLdLdqTag && i.executeLdValid then i.executeLdDataSize
      else (s.ldqEntry k).dataSize) ∧
    (nextEntry i s k).destPrn = (if k == i.executeLdLdqTag && i.executeLdValid then i.executeLdPrn
      else (s.ldqEntry k).destPrn) ∧
    (nextEntry i s k).robTag = (if k == i.executeLdLdqTag && i.executeLdValid then i.executeLdRobTag
      else (s.ldqEntry k).robTag) := by
  refine ⟨?_, ?_, ?_, ?_⟩ <;>
    simp only [nextEntry, hf, Bool.false_eq_true, if_false, retire, writeback, writeData, updateFired,
      updateOrderFail, updateSleep, updateStMask, writeAddr, apply_ite LdqEntry.addr,
      apply_ite LdqEntry.dataSize, apply_ite LdqEntry.destPrn, apply_ite LdqEntry.robTag, ite_self] <;>
    rw [allocate_frame]

theorem fwdDataAccept_iff {i : Inputs} {s : State} {k : LdqTag} : fwdDataAccept i s k = true ↔
    k = i.fwdLdqTag ∧ i.fwdValid = true ∧ (s.ldqEntry k).orderFail = false := by
  simp only [fwdDataAccept, Bool.and_eq_true, beq_iff_eq, Bool.not_eq_true', and_assoc]

/-! ### The lowest slot -/

theorem lowest_of_exists {v : LdqTag → Bool} (h : ∃ k, v k = true) : v (lowest v) = true := by
  obtain ⟨k, hk⟩ := h
  have hmem : k ∈ (List.range 16).map (BitVec.ofNat 4) :=
    List.mem_map.2 ⟨k.toNat, List.mem_range.2 k.isLt, by rw [BitVec.ofNat_toNat, BitVec.setWidth_eq]⟩
  rw [lowest]
  cases hf : ((List.range 16).map (BitVec.ofNat 4)).find? v with
  | none => exact absurd hk (List.find?_eq_none.1 hf k hmem)
  | some m => exact List.find?_some hf

/-- The slot whose result is offered has one. -/
theorem writeback_slot {i : Inputs} {s : State} (h : writebackValid i s = true) :
    ldWriteback i s (writebackLdqIdx i s) = true :=
  lowest_of_exists (of_decide_eq_true h)

/-- A result that is taken is offered. -/
theorem accept_slot {i : Inputs} {s : State} {k : LdqTag} (h : writebackAccept i s k = true) :
    ldWriteback i s k = true := by
  rw [writebackAccept, Bool.and_eq_true, Bool.and_eq_true, beq_iff_eq] at h
  rw [h.1.1]
  exact writeback_slot h.1.2

end R10K.Ldq
