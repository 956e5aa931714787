import R10K.Backend.Queues

/-! Dispatch credit is sound in every queue at once.

What stands in the dispatch register is dispatched whatever the queues say in that cycle,
on the promise each of them made a cycle before. In every reachable state each of these
instructions finds a slot of its own in every queue it goes to, nothing valid is
overwritten, and only a flush drops what is dispatched. -/
namespace R10K.Backend
open Lanes

/-- Whatever goes to a structure has a free slot of its own there, no slot in use is
written, and without a flush it is in its slot in the next cycle. -/
structure Fits {Slot : Type} (flush : Bool) (lane : Lane → Bool) (slot : Lane → Slot) (used : Slot → Bool)
    (written : Slot → Prop) (placed : Lane → Prop) : Prop where
  slots : OwnSlots lane slot used
  kept : ∀ k, used k = true → ¬ written k
  placed : flush = false → ∀ l, lane l = true → placed l

/-- A lane of the dispatch register that needs a station of the bank of sixteen, or of eight:
neither a NOP nor a halt nor an illegal instruction, and not, or indeed, for the address unit. -/
def needsStation (s : State) (l : Lane) : Bool :=
  let p := s.core.spine.pipeRenamePkt l
  p.packetValid && p.inst != nop && !p.halt && !p.illegal

def needsInt (s : State) (l : Lane) : Bool :=
  needsStation s l && (s.core.spine.pipeRenamePkt l).fuId != .agu0

def needsMem (s : State) (l : Lane) : Bool :=
  needsStation s l && (s.core.spine.pipeRenamePkt l).fuId == .agu0

/-- The dispatch of a cycle, queue by queue. -/
structure Dispatches (i : Inputs) (c : Config) : Prop where
  rob : Fits (pipeFlush c.state) (fun l => (c.state.core.spine.pipeRenamePkt l).packetValid)
    (fun l => (Rob.dispatchPktResp (c.robIn i) c.state.core.spine.rob l).idx)
    (fun k => (c.state.core.spine.rob.robEntry k).valid)
    (fun k => ∃ e, Rob.allocate (c.robIn i) c.state.core.spine.rob k e ≠ e)
    (fun l => ((Backend.next i c.state).core.spine.rob.robEntry
      (Rob.dispatchPktResp (c.robIn i) c.state.core.spine.rob l).idx) =
        Rob.dispatch2Rob ((c.robIn i).dispatchPkt l))
  int : Fits (pipeFlush c.state) (needsInt c.state) (Rs.allocIndex c.state.core.rsInt)
    (fun k => (c.state.core.rsInt.entry k).inUse)
    (fun k => (Rs.dispatchPktN (c.intIn i) c.state.core.rsInt k).packetValid = true)
    (fun l => ((Backend.next i c.state).core.rsInt.entry (Rs.allocIndex c.state.core.rsInt l)).inUse = true ∧
      ((Backend.next i c.state).core.rsInt.entry (Rs.allocIndex c.state.core.rsInt l)).pkt =
        Rs.loaded (c.intIn i) (c.state.core.rsInt.entry (Rs.allocIndex c.state.core.rsInt l))
          ((c.intIn i).dispatchPkt l))
  mem : Fits (pipeFlush c.state) (needsMem c.state) (Rs.allocIndex c.state.core.rsMem)
    (fun k => (c.state.core.rsMem.entry k).inUse)
    (fun k => (Rs.dispatchPktN (c.memIn i) c.state.core.rsMem k).packetValid = true)
    (fun l => ((Backend.next i c.state).core.rsMem.entry (Rs.allocIndex c.state.core.rsMem l)).inUse = true ∧
      ((Backend.next i c.state).core.rsMem.entry (Rs.allocIndex c.state.core.rsMem l)).pkt =
        Rs.loaded (c.memIn i) (c.state.core.rsMem.entry (Rs.allocIndex c.state.core.rsMem l))
          ((c.memIn i).dispatchPkt l))
  stq : Fits (pipeFlush c.state)
    (fun l => (c.state.core.spine.pipeRenamePkt l).packetValid && (c.state.core.spine.pipeRenamePkt l).wrMem)
    (Lsq.dispatchStqResp (lsqIn i c.state) c.state.lsq) (fun k => (c.state.lsq.stq.stqEntry k).entryValid)
    (fun k => ∃ e, Stq.allocate (c.stqIn i) c.state.lsq.stq k e ≠ e)
    (fun l => ((Backend.next i c.state).lsq.stq.stqEntry
      (Lsq.dispatchStqResp (lsqIn i c.state) c.state.lsq l)).entryValid = true)
  ldq : Fits (pipeFlush c.state)
    (fun l => (c.state.core.spine.pipeRenamePkt l).packetValid && (c.state.core.spine.pipeRenamePkt l).rdMem)
    (Lsq.dispatchLdqResp (lsqIn i c.state) c.state.lsq) (fun k => (c.state.lsq.ldq.ldqEntry k).entryValid)
    (fun k => ∃ e, Ldq.allocate (c.ldqIn i) c.state.lsq.ldq k e ≠ e)
    (fun l => ((Backend.next i c.state).lsq.ldq.ldqEntry
      (Lsq.dispatchLdqResp (lsqIn i c.state) c.state.lsq l)).entryValid = true)
  intCnt : (Rs.rsAvailCnt (c.intIn i) c.state.core.rsInt).toNat + Rs.validInstCnt (c.intIn i) =
    Rs.availCnt c.state.core.rsInt
  memCnt : (Rs.rsAvailCnt (c.memIn i) c.state.core.rsMem).toNat + Rs.validInstCnt (c.memIn i) =
    Rs.availCnt c.state.core.rsMem

/-! ### Each structure -/

section
variable {c : Config} {i : Inputs}

/-- A bank takes what is dispatched to it. -/
theorem bank_fits {m : Nat} {j : Rs.Inputs} {s : Rs.State m} {ready : Lane → Bool} {lane : Lane → Bool}
    (h : Rs.Credit ready s) (ok : Rs.OkDispatch j ready)
    (hlane : ∀ l, lane l = true → (j.dispatchPkt l).packetValid = true) (hidle : Rs.Awake s) :
    Fits j.pipeFlush lane (Rs.allocIndex s) (fun k => (s.entry k).inUse)
      (fun k => (Rs.dispatchPktN j s k).packetValid = true)
      (fun l => ((Rs.next j s).entry (Rs.allocIndex s l)).inUse = true ∧
        ((Rs.next j s).entry (Rs.allocIndex s l)).pkt =
          Rs.loaded j (s.entry (Rs.allocIndex s l)) (j.dispatchPkt l)) where
  slots := by
    refine ⟨fun l hl => (h.slot ok l (hlane l hl)).2.1, fun l m hl hm he => ?_⟩
    have hself := (h.slot ok l (hlane l hl)).1
    rw [he] at hself
    exact Rs.allocSel_unique hself (h.slot ok m (hlane m hm)).1
  kept := by
    intro k hk hw
    rw [Rs.inUse_unloaded hk] at hw
    cases hw
  placed := by
    intro hf l hl
    obtain ⟨_, hfree, hpkt⟩ := h.slot ok l (hlane l hl)
    have hv := hlane l hl
    have hen : Rs.issueEn s (Rs.allocIndex s l) = false := hidle.issueEn_free hfree
    simp only [Rs.next, Rs.nextEntry, hf, hen, hpkt, hv, Bool.false_eq_true, if_false, if_true,
      Bool.true_or, and_self]

theorem rsPkt_needs (i : Inputs) (s : State) (l : Lane) :
    (Core.dispatchRsPkt (coreIn i s) s.core l).packetValid = needsStation s l := by
  show (_ && !_ && !_ && _) = (_ && _ && !_ && !_)
  cases (s.core.spine.pipeRenamePkt l).packetValid <;> cases (s.core.spine.pipeRenamePkt l).halt <;>
    cases (s.core.spine.pipeRenamePkt l).illegal <;>
    cases (s.core.spine.pipeRenamePkt l).inst != nop <;> rfl

theorem int_needs (l : Lane) (h : needsInt c.state l = true) :
    ((c.intIn i).dispatchPkt l).packetValid = true := by
  rw [needsInt, Bool.and_eq_true, bne_iff_ne] at h
  show (Core.intDispatchPkt (coreIn i c.state) c.state.core l).packetValid = true
  rw [Core.intDispatchPkt, if_pos (show (Core.dispatchRsPkt _ _ l).fuId ≠ .agu0 from h.2), rsPkt_needs, h.1]

theorem mem_needs (l : Lane) (h : needsMem c.state l = true) :
    ((c.memIn i).dispatchPkt l).packetValid = true := by
  rw [needsMem, Bool.and_eq_true, beq_iff_eq] at h
  show (Core.memDispatchPkt (coreIn i c.state) c.state.core l).packetValid = true
  rw [Core.memDispatchPkt, if_pos (show (Core.dispatchRsPkt _ _ l).fuId = .agu0 from h.2), rsPkt_needs, h.1]

/-- The register is empty once an exception has stopped the rename stage. -/
theorem stq_fits (h : Inv c) (i : Inputs) : Fits (pipeFlush c.state)
    (fun l => (c.state.core.spine.pipeRenamePkt l).packetValid && (c.state.core.spine.pipeRenamePkt l).wrMem)
    (Lsq.dispatchStqResp (lsqIn i c.state) c.state.lsq) (fun k => (c.state.lsq.stq.stqEntry k).entryValid)
    (fun k => ∃ e, Stq.allocate (c.stqIn i) c.state.lsq.stq k e ≠ e)
    (fun l => ((Backend.next i c.state).lsq.stq.stqEntry
      (Lsq.dispatchStqResp (lsqIn i c.state) c.state.lsq l)).entryValid = true) := by
  have hplaced : pipeFlush c.state = false → ∀ l, (c.stqIn i).dispatchValid l = true →
      ((Stq.next (c.stqIn i) c.stq.stq).stqEntry (Stq.dispatchResp (c.stqIn i) c.stq.stq l)).entryValid = true :=
    fun hf l hl => h.stq.dispatched (h.okStq i) hf l hl
  cases hs : c.state.core.spine.sysException with
  | false =>
    refine ⟨h.stq.ownSlots (h.vacant hs) (h.okStq i), fun k hk => ?_, hplaced⟩
    rintro ⟨e, he⟩
    exact he (h.stq.allocate_valid (h.vacant hs) (h.okStq i) hk e)
  | true =>
    have hquiet : ∀ l, c.state.core.spine.pipeRenamePkt l = {} := h.flow.stopped hs
    refine ⟨⟨fun l hl => ?_, fun l _ hl => ?_⟩, fun k _ => ?_, hplaced⟩
    · rw [hquiet l] at hl
      cases hl
    · rw [hquiet l] at hl
      cases hl
    · rintro ⟨e, he⟩
      refine he ?_
      have hcnt : Stq.dispatchCnt (c.stqIn i) = 0 := by
        rw [Stq.dispatchCnt_eq, List.length_eq_zero_iff, group, List.filter_eq_nil_iff]
        intro l _
        show ¬ ((c.state.core.spine.pipeRenamePkt l).packetValid &&
          (c.state.core.spine.pipeRenamePkt l).wrMem) = true
        rw [hquiet l]
        exact Bool.false_ne_true
      rw [Stq.allocate, hcnt]
      rfl

/-! ### The result -/

/-- **Dispatch credit is sound in every queue at once**: in every reachable state all that
stands in the dispatch register fits, so that nothing valid is overwritten and nothing
dispatched is lost but by a flush. -/
theorem dispatch_credit {c : Config} (h : Reach c) (i : Inputs) : Dispatches i c := by
  have hinv := reach_inv h
  refine ⟨?_, ?_, ?_, stq_fits hinv i, ?_, hinv.int.noUnderflow (hinv.okInt i),
    hinv.mem.noUnderflow (hinv.okMem i)⟩
  · refine ⟨hinv.flow.queue.ownSlots (hinv.okRob i), fun k hk => ?_, fun hf l hl => ?_⟩
    · rintro ⟨e, he⟩
      exact he (hinv.flow.queue.allocate_valid (hinv.okRob i) hk e)
    · exact hinv.flow.queue.dispatched (hinv.okRob i) hf l hl
  · exact bank_fits hinv.int (hinv.okInt i) int_needs hinv.intAwake
  · exact bank_fits hinv.mem (hinv.okMem i) mem_needs hinv.memAwake
  · refine ⟨hinv.ldq.ownSlots (hinv.okLdq i), fun k hk => ?_, fun hf l hl => ?_⟩
    · rintro ⟨e, he⟩
      exact he (hinv.ldq.allocate_valid (hinv.okLdq i) hk e)
    · exact hinv.ldq.dispatched (hinv.okLdq i) hf l hl

/-- A group of two: a load and an addition. -/
def loadAddIn : Inputs where
  fetchPkt := fun l =>
    if l = 0 then { inst := 0x0000a103, packetValid := true }
    else if l = 1 then { inst := 0x00208133, packetValid := true }
    else {}
  fireStReady := false
  fireLdReady := false
  dcacheData := 0
  dcacheLdqTag := 0
  dcacheValid := false

theorem dispatch_credit_loadAdd :
    ((Config.init.next loadAddIn).state.core.spine.pipeRenamePkt 1).packetValid = true ∧
      Dispatches loadAddIn (Config.init.next loadAddIn) :=
  ⟨by decide +kernel, dispatch_credit (.step loadAddIn .init (show Contiguous _ by decide)) loadAddIn⟩

end

end R10K.Backend
