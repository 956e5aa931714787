import R10K.Lsq.Bytes
import R10K.Stq.Forward

/-! Forwarding against a memory of bytes.

A lookup of the store queue is read against the masked stores whose address is known, in
circular order up to the youngest: what is forwarded is what the load would read from any
memory after these stores. Nothing here depends on how the queue was filled. -/
namespace R10K.Lsq
open Circular Memory Stq

/-- The slots of a ring in circular order, the given one last. -/
def slotsTo (y : StqTag) : List StqTag := (List.range' (y.toNat + 1) 16).map (BitVec.ofNat 4)

/-- A masked store with its address. -/
def known (i : Stq.Inputs) (s : Stq.State) (k : StqTag) : Bool :=
  i.fireLdStMask k && (s.stqEntry k).entryValid && (s.stqEntry k).addrValid

/-- The write of the store in a slot. -/
def slotWrite (s : Stq.State) (k : StqTag) : BitVec 32 → Option (BitVec 8) :=
  writeBytes (s.stqEntry k).addr (s.stqEntry k).data (s.stqEntry k).dataSize

/-- A lookup: a load in the fire stage of a cycle without a flush, over stores that get
their address and datum together, all accesses aligned. -/
structure Lookup (i : Stq.Inputs) (s : Stq.State) : Prop where
  noFlush : i.pipeFlush = false
  fire : i.fireLdValid = true
  together : ∀ k, (s.stqEntry k).entryValid = true → (s.stqEntry k).addrValid = (s.stqEntry k).dataValid
  load : Access i.fireLdAddr i.fireLdDataSize
  stores : ∀ k, known i s k = true → Access (s.stqEntry k).addr (s.stqEntry k).dataSize

/-- What a lookup answers agrees with memory. -/
structure Forwards (i : Stq.Inputs) (s : Stq.State) : Prop where
  /-- What is forwarded is read from any memory after the masked stores, oldest first. -/
  value : (Stq.next i s).fwdValid = true → ∀ m : Mem, (Stq.next i s).fwdData =
    readBytes (applyAll m (((slotsTo i.fireLdStYoungest).filter (known i s)).map (slotWrite s)))
      i.fireLdAddr i.fireLdDataSize
  /-- When nothing is, no masked store has the load's word. -/
  none : (Stq.next i s).fwdValid = false → (Stq.next i s).fwdSleep = false → fireStAccept i s = false →
    ∀ k, known i s k = true → wordAddr i.fireLdAddr ≠ wordAddr (s.stqEntry k).addr
  exclusive : ((Stq.next i s).fwdValid && (Stq.next i s).fwdSleep) = false

section
variable {i : Stq.Inputs} {s : Stq.State}

/-- The matches are the known stores of the load's word. -/
theorem match_iff (hl : Lookup i s) (k : StqTag) : fwdMatch i s k = true ↔
    known i s k = true ∧ wordAddr i.fireLdAddr = wordAddr (s.stqEntry k).addr := by
  rw [fwdMatch, known, hl.fire, Bool.and_true]
  simp only [Bool.and_eq_true, beq_iff_eq]
  constructor
  · intro h
    exact ⟨⟨⟨h.1.1.2, h.2⟩, h.1.2⟩, h.1.1.1⟩
  · intro h
    exact ⟨⟨⟨h.2, h.1.1.1⟩, h.1.2⟩, h.1.1.2⟩

/-- The slot found, and the slots after it up to the youngest, none of which matches. -/
theorem slotsTo_split (hfound : (fwdSearch i s).2 = true) : ∃ before behind,
    slotsTo i.fireLdStYoungest = before ++ (fwdSearch i s).1 :: behind ∧
      ∀ k ∈ behind, fwdMatch i s k = false := by
  obtain ⟨c, hc1, hc2, hc⟩ := Ptr.idx_surj (w := 4) (i.fireLdStYoungest.toNat + 1) (fwdSearch i s).1
  have hy : i.fireLdStYoungest = (Ptr.ofCount 4 (i.fireLdStYoungest.toNat + 17 - 1)).idx := by
    apply BitVec.eq_of_toNat_eq
    have := i.fireLdStYoungest.isLt
    rw [Ptr.idx_toNat]
    omega
  refine ⟨(List.range' (i.fireLdStYoungest.toNat + 1) (c - (i.fireLdStYoungest.toNat + 1))).map (BitVec.ofNat 4),
    (List.range' (c + 1) (i.fireLdStYoungest.toNat + 16 - c)).map (BitVec.ofNat 4), ?_, ?_⟩
  · have hrange : List.range' (i.fireLdStYoungest.toNat + 1) 16 =
        List.range' (i.fireLdStYoungest.toNat + 1) (c - (i.fireLdStYoungest.toNat + 1)) ++
          c :: List.range' (c + 1) (i.fireLdStYoungest.toNat + 16 - c) := by
      rw [← List.range'_succ]
      have hsum : List.range' (i.fireLdStYoungest.toNat + 1) (c - (i.fireLdStYoungest.toNat + 1)) ++
          List.range' (i.fireLdStYoungest.toNat + 1 + (c - (i.fireLdStYoungest.toNat + 1)))
            (i.fireLdStYoungest.toNat + 16 - c + 1) = _ := List.range'_append_1
      rw [Nat.add_sub_cancel' hc1] at hsum
      rw [hsum]
      congr 1
      omega
    rw [slotsTo, hrange, List.map_append, List.map_cons, ← hc]
    rfl
  · intro k hk
    obtain ⟨d, hd, rfl⟩ := List.mem_map.mp hk
    rw [List.mem_range'_1] at hd
    exact fwdSearch_youngest hy hfound hc.symm (by omega) (by omega) (by omega)

theorem fwd_covers (hv : (Stq.next i s).fwdValid = true) : (fwdSearch i s).2 = true ∧
    offset (s.stqEntry (fwdSearch i s).1).addr ≤ offset i.fireLdAddr ∧
    offsetEnd (offset i.fireLdAddr) i.fireLdDataSize ≤
      offsetEnd (offset (s.stqEntry (fwdSearch i s).1).addr) (s.stqEntry (fwdSearch i s).1).dataSize := by
  simp only [Stq.next, Bool.and_eq_true, Bool.not_eq_true'] at hv
  obtain ⟨_, ⟨_, hfound⟩, hcover⟩ := hv
  simp only [addrConflict, hfound, Bool.true_and, Bool.not_eq_false', Bool.and_eq_true,
    decide_eq_true_eq] at hcover
  exact ⟨hfound, hcover.1, hcover.2⟩

/-- What is forwarded is read from memory after the masked stores. -/
theorem forward_value (hl : Lookup i s) (hv : (Stq.next i s).fwdValid = true) (m : Mem) :
    (Stq.next i s).fwdData =
      readBytes (applyAll m (((slotsTo i.fireLdStYoungest).filter (known i s)).map (slotWrite s)))
        i.fireLdAddr i.fireLdDataSize := by
  obtain ⟨hfound, hstart, hend⟩ := fwd_covers hv
  obtain ⟨hknown, hword⟩ := (match_iff hl _).mp (fwdSearch_match hfound)
  obtain ⟨before, behind, hsplit, hbehind⟩ := slotsTo_split hfound
  refine loadBytes_eq (w := fwd4BAligned i s) hl.load fun b hb => ?_
  rw [hsplit, List.filter_append, List.filter_cons, if_pos hknown, List.map_append, List.map_cons]
  refine applyAll_middle (writeBytes_cover hl.load (hl.stores _ hknown) hword hstart hend hb) ?_
  -- a known store behind the one found has another word
  intro u hu
  obtain ⟨k, hk, rfl⟩ := List.mem_map.mp hu
  obtain ⟨hmem, hkk⟩ := List.mem_filter.mp hk
  have hapart : wordAddr i.fireLdAddr ≠ wordAddr (s.stqEntry k).addr := by
    intro hw
    have hno := hbehind k hmem
    rw [(match_iff hl k).mpr ⟨hkk, hw⟩] at hno
    cases hno
  exact writeBytes_word hl.load (hl.stores k hkk) hapart hb

theorem forward_none (hl : Lookup i s) (hv : (Stq.next i s).fwdValid = false)
    (hsl : (Stq.next i s).fwdSleep = false) (hacc : fireStAccept i s = false) (k : StqTag)
    (hk : known i s k = true) : wordAddr i.fireLdAddr ≠ wordAddr (s.stqEntry k).addr := by
  have hmiss : (fwdSearch i s).2 = false := by
    by_contra hfound
    rw [Bool.not_eq_false] at hfound
    -- the store found has its datum, so it serves the load or conflicts with it
    obtain ⟨hknown, _⟩ := (match_iff hl _).mp (fwdSearch_match hfound)
    rw [known, Bool.and_eq_true, Bool.and_eq_true] at hknown
    have hdata := (hl.together _ hknown.1.2).symm.trans hknown.2
    simp only [Stq.next, hl.noFlush, hfound, hdata, hacc, Bool.not_false, Bool.true_and, Bool.and_true,
      Bool.false_and, Bool.not_eq_false'] at hv hsl
    rw [hv] at hsl
    cases hsl
  intro hw
  have hyes := (match_iff hl k).mpr ⟨hk, hw⟩
  rw [fwdSearch_none hmiss k] at hyes
  cases hyes

/-- **Store-to-load forwarding returns what memory would.** -/
theorem forwards_memory (hl : Lookup i s) : Forwards i s where
  value := forward_value hl
  none := forward_none hl
  exclusive := by
    simp only [Stq.next]
    cases addrConflict i s <;> simp

end

/-- A halfword store at the top of a word, and a load of its second byte. -/
def halfState : Stq.State :=
  { Stq.reset with
    stqEntry := fun k =>
      if k = 15 then
        { addr := 0x102, addrValid := true, data := 0x8765, dataSize := 1, dataValid := true, entryValid := true }
      else {} }

def halfLookup : Stq.Inputs where
  pipeFlush := false
  dispatchValid := fun _ => false
  executeStAddr := 0
  executeStAddrStqTag := 0
  executeStAddrValid := false
  executeStData := 0
  executeStDataSize := 0
  executeStDataStqTag := 0
  executeStDataValid := false
  retirePkt := fun _ => {}
  fireStReady := false
  fireLdAddr := 0x103
  fireLdDataSize := 0
  fireLdLdqTag := 0
  fireLdStMask := fun k => k == 15
  fireLdStYoungest := 15
  fireLdValid := true

theorem forwards_memory_half : Forwards halfLookup halfState :=
  forwards_memory
    { noFlush := rfl
      fire := rfl
      together := by decide
      load := by decide
      stores := by decide }

end R10K.Lsq
