import R10K.Backend.Queues
import R10K.Spine.Conserve

/-! Recovery is precise.

A flush is taken in the cycle after the retirement of the instruction that causes it, and
the maps are rebuilt a cycle later. What the reorder buffer retires in the cycle of the
flush is of the wrong path and goes nowhere: the retire register is cleared, as is every
other register and queue of the machine, and nothing enters them in the recovery cycle. -/
namespace R10K.Backend
open Lanes Renaming

/-! ### The empty machine -/

/-- No structure and no pipeline register holds a valid instruction. -/
structure Empty (s : State) : Prop where
  rename : ∀ l, (s.core.spine.pipeRenamePkt l).packetValid = false
  rob : ∀ k, (s.core.spine.rob.robEntry k).valid = false
  rsInt : ∀ k, (s.core.rsInt.entry k).inUse = false
  rsMem : ∀ k, (s.core.rsMem.entry k).inUse = false
  ldq : ∀ k, (s.lsq.ldq.ldqEntry k).entryValid = false
  ptab : ∀ k, (s.ptab.ptabEntry k).valid = false
  issue : ∀ w, (s.core.pipeIssuePkt w).packetValid = false
  regRead : ∀ w, (s.pipeRegReadPkt w).packetValid = false
  mult : s.fu.stage0.pkt.packetValid = false ∧ s.fu.stage1.pkt.packetValid = false
  execute : ∀ w, (s.pipeExecutePkt w).packetValid = false
  retire : ∀ l, (s.core.spine.pipeRetirePkt l).packetValid = false

/-- A flush empties the machine. -/
theorem flush_empty (i : Inputs) {s : State} (hf : pipeFlush s = true) : Empty (next i s) := by
  have hf' : Spine.pipeFlush s.core.spine = true := hf
  refine ⟨?_, ?_, ?_, ?_, ?_, ?_, ?_, ?_, ?_, ?_, ?_⟩
  · intro l
    simp only [next, Core.next, Spine.next, hf', if_true]
  · intro k
    have hrob : (Spine.robIn (Core.spineIn (coreIn i s) s.core) s.core.spine).pipeFlush = true := hf
    simp only [next, Core.next, Spine.next, Rob.next, hrob, if_true]
  · intro k
    have hint : (Core.rsIntIn (coreIn i s) s.core).pipeFlush = true := hf
    show ((Rs.next (Core.rsIntIn (coreIn i s) s.core) s.core.rsInt).entry k).inUse = false
    rw [Rs.next_inUse, hint]
    rfl
  · intro k
    have hmem : (Core.rsMemIn (coreIn i s) s.core).pipeFlush = true := hf
    show ((Rs.next (Core.rsMemIn (coreIn i s) s.core) s.core.rsMem).entry k).inUse = false
    rw [Rs.next_inUse, hmem]
    rfl
  · intro k
    have hldq : (Lsq.ldqIn (lsqIn i s) s.lsq).pipeFlush = true := hf
    simp only [next, Lsq.next, Ldq.next, Ldq.nextEntry, hldq, if_true, Ldq.flushed]
  · intro k
    have hptab : (ptabIn i s).pipeFlush = true := hf
    simp only [next, Ptab.next, Ptab.nextEntry, hptab, if_true]
  · intro w
    simp only [next, Core.next, hf', if_true]
  · intro w
    simp only [next, hf, if_true]
  · simp only [next, Fu.next, hf, if_true, and_self]
  · intro w
    simp only [next, hf, if_true]
  · intro l
    simp only [next, Core.next, Spine.next, hf', if_true]

namespace Empty
variable {s : State}

theorem noFlush (h : Empty s) : pipeFlush s = false := by
  simp [pipeFlush, Spine.pipeFlush, Spine.retireBrMisp, Spine.retireException, h.retire]

theorem issuePkt_invalid {m : Nat} {b : Rs.State m} (hb : Rs.Awake b) (hu : ∀ k, (b.entry k).inUse = false)
    (w : Way) : (Rs.issuePkt b w).packetValid = false := by
  cases hv : (Rs.issuePkt b w).packetValid with
  | false => rfl
  | true =>
    obtain ⟨k, _, _, hk, _⟩ := Rs.issuePkt_valid hb hv
    rw [hu k] at hk
    cases hk

/-- A bank that is given nothing stays empty. -/
theorem bank_next {m : Nat} {b : Rs.State m} {j : Rs.Inputs} (hj : ∀ l, (j.dispatchPkt l).packetValid = false)
    (hu : ∀ k, (b.entry k).inUse = false) (k : Fin (2 ^ m)) : ((Rs.next j b).entry k).inUse = false := by
  have hload : (Rs.dispatchPktN j b k).packetValid = false := by
    cases hl : (Rs.dispatchPktN j b k).packetValid with
    | false => rfl
    | true =>
      obtain ⟨l, _, heq⟩ := Rs.dispatchPktN_valid hl
      rw [heq, hj l] at hl
      cases hl
  rw [Rs.next_inUse, hload, hu k, Bool.or_self, Bool.and_false]

/-- With nothing dispatched the buffer stays empty. -/
theorem rob_next {j : Rob.Inputs} {r : Rob.State} (hj : ∀ l, (j.dispatchPkt l).packetValid = false)
    (hr : ∀ k, (r.robEntry k).valid = false) (k : BitVec 6) : ((Rob.next j r).robEntry k).valid = false := by
  have halloc : ∀ e, Rob.allocate j r k e = e := fun e => by
    simp only [Rob.allocate, hj, Bool.false_eq_true, if_false]
  simp only [Rob.next, halloc, Rob.Queue.writeback_invalid _ _ _ (hr k)]
  split
  · rfl
  · unfold Rob.retire
    split
    · rfl
    · exact hr k

/-- A machine that fetches nothing stays empty. -/
theorem next (h : Empty s) (hint : Rs.Awake s.core.rsInt) (hmem : Rs.Awake s.core.rsMem) {i : Inputs}
    (hi : ∀ l, (i.fetchPkt l).packetValid = false) : Empty (next i s) := by
  have hf : Spine.pipeFlush s.core.spine = false := h.noFlush
  have hfetch : ∀ l, (decodeRenameFetchPkt i s l).packetValid = false := fun l => by
    rw [decodeRenameFetchPkt, hi l, Bool.false_and, if_neg Bool.false_ne_true]
  have hrs : ∀ l, (Core.dispatchRsPkt (coreIn i s) s.core l).packetValid = false := fun l => by
    show ((s.core.spine.pipeRenamePkt l).packetValid && _ && _ && _) = false
    rw [h.rename l, Bool.false_and, Bool.false_and, Bool.false_and]
  have hdisp : ∀ (P : Prop) [Decidable P] (l : Lane),
      (if P then Core.dispatchRsPkt (coreIn i s) s.core l else {}).packetValid = false := fun P _ l => by
    split
    · exact hrs l
    · rfl
  refine ⟨?_, ?_, ?_, ?_, ?_, ?_, ?_, ?_, ?_, ?_, ?_⟩
  · intro l
    simp only [Backend.next, Core.next, Spine.next, hf, Bool.false_eq_true, if_false]
    split
    · exact hfetch l
    · rfl
  · exact rob_next (fun l => h.rename l) h.rob
  · exact bank_next (fun l => hdisp _ l) h.rsInt
  · exact bank_next (fun l => hdisp _ l) h.rsMem
  · intro k
    have hldq : (Lsq.ldqIn (lsqIn i s) s.lsq).pipeFlush = false := hf
    have hnone : (Lsq.ldqIn (lsqIn i s) s.lsq).dispatchValid = fun _ => false := by
      funext l
      show ((s.core.spine.pipeRenamePkt l).packetValid && _) = false
      rw [h.rename l, Bool.false_and]
    show (Ldq.nextEntry (Lsq.ldqIn (lsqIn i s) s.lsq) s.lsq.ldq k).entryValid = false
    rw [Ldq.nextEntry_entryValid _ _ hldq]
    have halloc : Ldq.allocate (Lsq.ldqIn (lsqIn i s) s.lsq) s.lsq.ldq k (s.lsq.ldq.ldqEntry k) =
        s.lsq.ldq.ldqEntry k := by
      rw [Ldq.allocate, hnone, List.find?_eq_none.2 fun _ _ => by simp]
    rw [halloc, h.ldq k, Bool.and_false]
  · intro k
    have hnone : ∀ l, Ptab.allocates (ptabIn i s) s.ptab k l = false := fun l => by
      have hl : (ptabFetchPkt i s l).packetValid = false := by
        rw [ptabFetchPkt, hi l, Bool.false_and, if_neg Bool.false_ne_true]
      show (_ && (ptabFetchPkt i s l).packetValid && _) = false
      rw [hl, Bool.and_false, Bool.false_and]
    show (Ptab.nextEntry (ptabIn i s) s.ptab k).valid = false
    unfold Ptab.nextEntry
    simp only [List.find?_eq_none.2 fun l _ => Bool.not_eq_true _ ▸ hnone l]
    split_ifs
    · rfl
    · rfl
    · exact h.ptab k
    · exact h.ptab k
  · intro w
    simp only [Backend.next, Core.next, hf, Bool.false_eq_true, if_false, Core.issuePkt]
    split
    · exact issuePkt_invalid hint h.rsInt w
    · exact issuePkt_invalid hmem h.rsMem w
  · intro w
    simp only [Backend.next, h.noFlush, Bool.false_eq_true, if_false]
    exact h.issue w
  · simp only [Backend.next, Fu.next, h.noFlush, Bool.false_eq_true, if_false]
    exact ⟨h.regRead 4, h.mult.1⟩
  · intro w
    simp only [Backend.next, h.noFlush, Bool.false_eq_true, if_false, executePkt, Fu.executePkt]
    split_ifs
    · exact h.regRead w
    · exact h.mult.2
    · exact h.regRead w
    · exact h.regRead w
  · intro l
    simp only [Backend.next, Core.next, Spine.next, hf, Bool.false_eq_true, if_false]
    show Rob.retireEn s.core.spine.rob l.val = false
    cases he : Rob.retireEn s.core.spine.rob l.val with
    | false => rfl
    | true =>
      have := (Rob.retireEn_entry _ _ he).1
      rw [Rob.headEntry, h.rob] at this
      cases this

end Empty

/-! ### What commits -/

/-- The instructions in the retire register, by their numbers. -/
def Config.committing (c : Config) : List Nat :=
  (c.serials.drop c.committed).take (Spine.retireGroup c.spine.state).length

/-- The place in the program behind the retiring group. -/
def Config.upTo (c : Config) : Nat := c.committed + (Spine.retireGroup c.spine.state).length

/-- Retirement does to the maps, to the free list and to the store queue what the
instructions in the retire register say, and these are the next of the program. -/
structure CommitsOnly (i : Inputs) (c : Config) : Prop where
  group : (c.program.drop c.committed).take (Spine.retireGroup c.spine.state).length =
    Spine.retireGroup c.spine.state
  arch : (c.next i).state.core.spine.archRat =
    replay c.state.core.spine.archRat (Spine.retireGroup c.spine.state)
  free : c.state.core.spine.recovArchSt = false → ∀ p, c.state.core.spine.rename.freeList p = false →
    (c.next i).state.core.spine.rename.freeList p = true →
    ∃ r ∈ Spine.retireGroup c.spine.state, r.prev = p
  rebuilt : c.state.core.spine.recovArchSt = true → ∀ p,
    (c.next i).state.core.spine.rename.freeList p = true ↔ ∀ a, c.state.core.spine.archRat a ≠ p
  store : ∀ k, (c.state.lsq.stq.stqEntry k).retired = false →
    ((c.next i).state.lsq.stq.stqEntry k).retired = true →
    ∃ l, (c.state.core.spine.pipeRetirePkt l).packetValid = true ∧
      (c.state.core.spine.pipeRetirePkt l).wrMem = true ∧ (c.state.core.spine.pipeRetirePkt l).stqTag = k

/-- The machine after the recovery cycle. -/
structure Recovered (c : Config) : Prop where
  rat : c.state.core.spine.rename.rat = c.state.core.spine.archRat
  busy : ∀ p, c.state.core.spine.rename.busyTable p = false
  empty : Empty c.state

/-- What a flush does, now and later: the last packet of the retiring group causes it, the
architectural map takes the program up to it, and nothing renamed before the flush
commits after it. -/
structure Precise (c : Config) : Prop where
  last : ∃ l, (group fun l => (c.state.core.spine.pipeRetirePkt l).packetValid).getLast? = some l ∧
    Spine.flushesPkt (c.state.core.spine.pipeRetirePkt l) = true
  upTo : c.program.take c.upTo = c.program.take c.committed ++ Spine.retireGroup c.spine.state
  arch : ∀ i, (c.next i).state.core.spine.archRat = replay (fun _ => 0) (c.program.take c.upTo)
  recovered : ∀ i j, OkRecov i c → OkRecov j (c.next i) → Recovered ((c.next i).next j) ∧
    ((c.next i).next j).state.core.spine.archRat = (c.next i).state.core.spine.archRat
  later : ∀ i d, OkRecov i c → Run.Reach Config.next OkRecov (c.next i) d →
    d.program.take c.upTo = c.program.take c.upTo ∧ ∀ n ∈ d.committing, c.count ≤ n

/-! ### The invariant -/

structure RecovInv (c : Config) : Prop extends Inv c where
  spine : Spine.Inv c.spine
  numbered : c.serials.length = c.program.length

theorem okSpine {c : Config} {i : Inputs} (ok : OkRecov i c) : Spine.Ok (spineIn i c.state) c.spine where
  toOkFetch := okFetch ok.contiguous
  recov := by
    intro hr l
    show (decodeRenameFetchPkt i c.state l).packetValid = false
    rw [decodeRenameFetchPkt, ok.recov hr l, Bool.false_and, if_neg Bool.false_ne_true]

namespace RecovInv
variable {c : Config} {i : Inputs}

theorem next (h : RecovInv c) (ok : OkRecov i c) : RecovInv (c.next i) where
  toInv := h.toInv.next ok.contiguous
  spine := h.spine.next (okSpine ok)
  numbered := by
    have hprog : (c.next i).program = if pipeFlush c.state then c.program.take c.upTo
      else c.program ++ c.renamed i := rfl
    have hser : (c.next i).serials = if pipeFlush c.state then c.serials.take c.upTo
      else c.serials ++ List.range' c.count (c.renamed i).length := rfl
    rw [hprog, hser]
    cases pipeFlush c.state
    · simp [h.numbered]
    · simp [h.numbered]

theorem init : RecovInv Config.init where
  toInv := Inv.init
  spine := Spine.Inv.init
  numbered := rfl

theorem of_reach (h : ReachRecov c) : RecovInv c :=
  Run.Reach.invariant RecovInv init (fun _ _ hinv ok => hinv.next ok) h

/-! ### Commits -/

theorem stored (i : Stq.Inputs) (s : Stq.State) (k : StqTag) (h0 : (s.stqEntry k).retired = false)
    (h1 : (Stq.nextEntry i s k).retired = true) : Stq.updateRetire i k = true := by
  simp only [Stq.nextEntry] at h1
  split at h1
  · cases h1
  · rw [Stq.fireMem] at h1
    split at h1
    · cases h1
    · rw [Stq.Queue.retire_retired, Stq.writes_retired, Stq.Queue.allocate_retired, h0, Bool.false_or] at h1
      exact h1

theorem commitsOnly (h : RecovInv c) (i : Inputs) : CommitsOnly i c where
  group := by
    show (c.spine.program.drop c.spine.committed).take _ = _
    rw [h.spine.program, Spine.Config.inFlight, List.append_assoc, List.take_left]
  arch := Spine.archRat_next c.spine.state
  free := by
    intro hr p h0 h1
    have hrin : (Spine.renameIn (spineIn i c.state) c.state.core.spine).recovArchSt = false := hr
    have h1' : Rename.nextFreeList (Spine.renameIn (spineIn i c.state) c.state.core.spine)
      c.state.core.spine.rename p = true := h1
    rw [Rename.nextFreeList, hrin, if_neg Bool.false_ne_true] at h1'
    split at h1'
    · cases h1'
    · split at h1'
      · rename_i hrec
        obtain ⟨l, _, hl⟩ := List.any_eq_true.1 hrec
        rw [Bool.and_eq_true, Bool.and_eq_true, beq_iff_eq] at hl
        exact ⟨_, List.mem_map.2 ⟨l, mem_group.2 hl.1.1, rfl⟩, hl.1.2.symm⟩
      · rw [h0] at h1'
        cases h1'
  rebuilt := by
    intro hr p
    have hrin : (Spine.renameIn (spineIn i c.state) c.state.core.spine).recovArchSt = true := hr
    show Rename.nextFreeList (Spine.renameIn (spineIn i c.state) c.state.core.spine)
      c.state.core.spine.rename p = true ↔ _
    rw [Rename.nextFreeList, hrin, if_pos rfl, decide_eq_true_eq]
    exact forall_congr' fun a => ne_comm
  store := by
    intro k h0 h1
    obtain ⟨l, _, hl⟩ := List.any_eq_true.1 (stored (c.stqIn i) c.state.lsq.stq k h0 h1)
    rw [Bool.and_eq_true, beq_iff_eq, Stq.retiresStore, Bool.and_eq_true] at hl
    exact ⟨l, hl.2.1, hl.2.2, hl.1.symm⟩

/-- The packet that flushes is the last of the group. -/
theorem flushing_last (h : RecovInv c) (hf : pipeFlush c.state = true) :
    ∃ l, (group fun l => (c.state.core.spine.pipeRetirePkt l).packetValid).getLast? = some l ∧
      Spine.flushesPkt (c.state.core.spine.pipeRetirePkt l) = true := by
  have hex : ∃ l, (c.state.core.spine.pipeRetirePkt l).packetValid = true ∧
      Spine.flushesPkt (c.state.core.spine.pipeRetirePkt l) = true := by
    have hf' : (Spine.retireBrMisp c.state.core.spine || Spine.retireException c.state.core.spine) = true := hf
    rw [Bool.or_eq_true] at hf'
    rcases hf' with hb | he
    · obtain ⟨l, _, hl⟩ := List.any_eq_true.1 hb
      rw [Bool.and_eq_true] at hl
      exact ⟨l, hl.1, by rw [Spine.flushesPkt, hl.2, Bool.true_or]⟩
    · obtain ⟨l, _, hl⟩ := List.any_eq_true.1 he
      rw [Bool.and_eq_true] at hl
      exact ⟨l, hl.1, by rw [Spine.flushesPkt, hl.2, Bool.or_true]⟩
  obtain ⟨l, hv, hfl⟩ := hex
  refine ⟨l, ?_, hfl⟩
  have hafter : ∀ m, l < m → (c.state.core.spine.pipeRetirePkt m).packetValid = false :=
    fun m hm => h.flow.last l m hm hfl hv
  exact group_last hv hafter

/-- After the recovery cycle the map is the architectural one and the machine is empty. -/
theorem recovered (h : RecovInv c) (hf : pipeFlush c.state = true) {j : Inputs} (ok : OkRecov i c)
    (ok' : OkRecov j (c.next i)) : Recovered ((c.next i).next j) ∧
      ((c.next i).next j).state.core.spine.archRat = (c.next i).state.core.spine.archRat := by
  have h1 := h.next ok
  have hrecov : (c.next i).state.core.spine.recovArchSt = true := hf
  have hempty : Empty (c.next i).state := flush_empty i hf
  have hrin : (Spine.renameIn (spineIn j (c.next i).state) (c.next i).state.core.spine).recovArchSt = true := hrecov
  have harch : ((c.next i).next j).state.core.spine.archRat = (c.next i).state.core.spine.archRat :=
    (h1.spine.recovering_next (okSpine ok') hrecov).2
  refine ⟨⟨?_, fun p => ?_, ?_⟩, harch⟩
  · rw [harch]
    funext a
    show Rename.nextRat (Spine.renameIn (spineIn j (c.next i).state) (c.next i).state.core.spine)
      (c.next i).state.core.spine.rename a = _
    rw [Rename.nextRat, hrin, if_pos rfl]
    rfl
  · show Rename.nextBusyTable (Spine.renameIn (spineIn j (c.next i).state) (c.next i).state.core.spine)
      (c.next i).state.core.spine.rename p = false
    rw [Rename.nextBusyTable, hrin, if_pos rfl]
  · exact hempty.next h1.intAwake h1.memAwake (ok'.recov hrecov)

end RecovInv

/-! ### After a flush -/

/-- A later configuration: the program up to a place is as it was, it has committed, and
what follows was renamed later. -/
structure After (place count : Nat) (program : List (Instr Arn Prn)) (d : Config) : Prop where
  program : d.program.take place = program
  committed : place ≤ d.committed
  serials : ∀ n ∈ d.serials.drop place, count ≤ n
  count : count ≤ d.count

namespace After
variable {place count : Nat} {program : List (Instr Arn Prn)} {d : Config} {j : Inputs}

/-- One edge keeps the committed program and adds younger instructions only. -/
theorem next (h : After place count program d) (hinv : RecovInv d) (j : Inputs) :
    After place count program (d.next j) where
  program := by
    have hle : d.committed ≤ d.program.length := hinv.spine.committed
    have hprog : (d.next j).program = if pipeFlush d.state then d.program.take d.upTo
      else d.program ++ d.renamed j := rfl
    have hcom := h.committed
    have hup : d.committed ≤ d.upTo := Nat.le_add_right _ _
    rw [hprog, ← h.program]
    cases pipeFlush d.state
    · rw [if_neg Bool.false_ne_true, List.take_append_of_le_length (by omega)]
    · rw [if_pos rfl, List.take_take, Nat.min_eq_left (by omega)]
  committed := Nat.le_trans h.committed (Nat.le_add_right _ _)
  serials := by
    intro n hn
    have hle : d.committed ≤ d.program.length := hinv.spine.committed
    have hcom := h.committed
    have hnum := hinv.numbered
    have hser : (d.next j).serials = if pipeFlush d.state then d.serials.take d.upTo
      else d.serials ++ List.range' d.count (d.renamed j).length := rfl
    rw [hser] at hn
    cases hf : pipeFlush d.state with
    | false =>
      rw [hf, if_neg Bool.false_ne_true, List.drop_append_of_le_length (by omega), List.mem_append] at hn
      rcases hn with hn | hn
      · exact h.serials n hn
      · exact Nat.le_trans h.count (List.mem_range'_1.1 hn).1
    | true =>
      rw [hf, if_pos rfl, List.drop_take] at hn
      exact h.serials n (List.mem_of_mem_take hn)
  count := Nat.le_trans h.count (Nat.le_add_right _ _)

/-- The instructions that commit follow the place. -/
theorem committing (h : After place count program d) : ∀ n ∈ d.committing, count ≤ n := by
  intro n hn
  refine h.serials n ?_
  obtain ⟨m, hm⟩ : ∃ m, d.committed = place + m := ⟨d.committed - place, by have := h.committed; omega⟩
  have hmem := List.mem_of_mem_take hn
  rw [hm, ← List.drop_drop] at hmem
  exact List.mem_of_mem_drop hmem

/-- The configuration after a flush. -/
theorem flush {c : Config} (hf : pipeFlush c.state = true) (i : Inputs) :
    After c.upTo c.count (c.program.take c.upTo) (c.next i) where
  program := by
    have hprog : (c.next i).program = if pipeFlush c.state then c.program.take c.upTo
      else c.program ++ c.renamed i := rfl
    rw [hprog, hf, if_pos rfl, List.take_take, Nat.min_self]
  committed := Nat.le_refl _
  serials := by
    intro n hn
    have hser : (c.next i).serials = if pipeFlush c.state then c.serials.take c.upTo
      else c.serials ++ List.range' c.count (c.renamed i).length := rfl
    rw [hser, hf, if_pos rfl, List.drop_eq_nil_of_le (List.length_take_le _ _)] at hn
    cases hn
  count := Nat.le_add_right _ _

end After

/-! ### The result -/

/-- **Recovery is precise**: what retirement changes it changes for the next instructions
of the program, and a flush ends the program behind the instruction that causes it, for
good, with the machine empty and the map restored two cycles later. -/
theorem recovery_precise {c : Config} (h : ReachRecov c) :
    (∀ i, CommitsOnly i c) ∧ (pipeFlush c.state = true → Precise c) := by
  have hinv := RecovInv.of_reach h
  refine ⟨hinv.commitsOnly, fun hf => ⟨hinv.flushing_last hf, hinv.spine.take_retire, fun i => ?_, ?_, ?_⟩⟩
  · have harch := hinv.spine.next_archRat (spineIn i c.state)
    have hprog : (c.spine.next (spineIn i c.state)).program = c.program.take c.upTo := if_pos hf
    have hcom : (c.spine.next (spineIn i c.state)).committed = c.upTo := rfl
    rw [hprog, hcom, List.take_take, Nat.min_self] at harch
    exact harch
  · exact fun i j ok ok' => hinv.recovered hf ok ok'
  · intro i d ok hd
    have hlater : RecovInv d ∧ After c.upTo c.count (c.program.take c.upTo) d :=
      Run.Reach.invariant (fun d => RecovInv d ∧ After c.upTo c.count (c.program.take c.upTo) d)
        ⟨hinv.next ok, After.flush hf i⟩
        (fun j d hd okd => ⟨hd.1.next okd, hd.2.next hd.1 j⟩) hd
    exact ⟨hlater.2.program, hlater.2.committing⟩

/-- A cycle without fetch and without memory, and one that fetches an illegal word. -/
def quietIn : Inputs where
  fetchPkt := fun _ => {}
  fireStReady := false
  fireLdReady := false
  dcacheData := 0
  dcacheLdqTag := 0
  dcacheValid := false

instance (i : Inputs) (c : Config) : Decidable (OkRecov i c) :=
  decidable_of_iff (Contiguous (fun l => (i.fetchPkt l).packetValid) ∧
    (c.state.core.spine.recovArchSt = true → ∀ l : Fin 4, (i.fetchPkt l).packetValid = false))
    ⟨fun h => ⟨h.1, h.2⟩, fun h => ⟨h.contiguous, h.recov⟩⟩

/-- `addi x1, x0, 5`, and an illegal word with `addi x1, x0, 7` behind it. -/
def addiIn : Inputs :=
  { quietIn with fetchPkt := fun l => { inst := 0x00500093, packetValid := decide (l = 0) } }

def illegalIn : Inputs :=
  { quietIn with fetchPkt := fun l =>
      { inst := if l = 0 then 0 else 0x00700093, packetValid := decide (l < 2) } }

/-- The first word is committed before the illegal one is renamed, which retires two cycles
later. -/
def illegalOut : Config :=
  (addiIn :: List.replicate 8 quietIn ++ [illegalIn, quietIn, quietIn]).foldl (fun c i => c.next i) .init

/-- The map keeps the register of the first word, and the word behind the illegal one is left out. -/
theorem recovery_precise_illegal : (illegalOut.committed = 1 ∧ illegalOut.state.core.spine.archRat 1 = 99 ∧
    illegalOut.upTo = 2 ∧ illegalOut.program.length = 3) ∧ pipeFlush illegalOut.state = true ∧
    Precise illegalOut := by
  have hreach : ReachRecov illegalOut := .of_keeps _ .init (by decide +kernel)
  have hstate : (illegalOut.committed = 1 ∧ illegalOut.state.core.spine.archRat 1 = 99 ∧
    illegalOut.upTo = 2 ∧ illegalOut.program.length = 3) ∧ pipeFlush illegalOut.state = true := by decide +kernel
  exact ⟨hstate.1, hstate.2, (recovery_precise hreach).2 hstate.2⟩

end R10K.Backend
