import R10K.Backend.Recovery
import R10K.Ptab.Table

/-! Group acceptance.

The decision to take a fetched group is made from the readies of the branch table, the
buffer, the banks and the queues, and acted on in five places: the map, the free list, the
busy table, the branch table and the rename/dispatch register. All of them act on it or
none does. Two of them give way to what else happens in the cycle: a broadcast clears the
busy bit of its register, and the branch unit clears the entry it reads. -/
namespace R10K.Backend
open Lanes Select

def renameIn (i : Inputs) (s : State) : Rename.Inputs := Spine.renameIn (spineIn i s) s.core.spine

/-- `decode_pkt`, and `free_prn` of a lane. -/
def decodePkt (i : Inputs) (s : State) : Lane → DecodePacket :=
  Rename.decoded (renameIn i s) s.core.spine.rename

def freePrn (i : Inputs) (s : State) : Lane → Prn := Rename.freePrn (renameIn i s) s.core.spine.rename

/-- A valid lane fetched with a destination other than x0. -/
def writes (i : Inputs) (l : Lane) : Bool :=
  (i.fetchPkt l).packetValid && Rename.hasDest (Decoder.decode (i.fetchPkt l) 0)

/-- The architectural register a lane writes. -/
def destArn (i : Inputs) (l : Lane) : Arn := (Decoder.decode (i.fetchPkt l) 0).destArn

/-- A valid lane fetched with `branch_mask`. -/
def masked (i : Inputs) (l : Lane) : Bool := (i.fetchPkt l).packetValid && (i.fetchPkt l).branchMask

/-- The fetched group as recorded. Of the lanes that write one architectural register the
youngest is mapped. -/
structure Recorded (i : Inputs) (s : State) : Prop where
  loaded : ∀ l, (i.fetchPkt l).packetValid = true →
    let p := (next i s).core.spine.pipeRenamePkt l
    p = Rename.renamePkt (renameIn i s) s.core.spine.rename l ∧ p.packetValid = true ∧
      p.inst = (i.fetchPkt l).inst ∧ p.pc = (i.fetchPkt l).pc
  own : ∀ l m, freePrn i s l = freePrn i s m → l = m
  mapped : ∀ l, writes i l = true → (∀ m, l < m → writes i m = true → destArn i m ≠ destArn i l) →
    (next i s).core.spine.rename.rat (destArn i l) = freePrn i s l
  removed : ∀ l, writes i l = true →
    Rename.freeListRetireFwd (renameIn i s) s.core.spine.rename (freePrn i s l) = true ∧
      (next i s).core.spine.rename.freeList (freePrn i s l) = false
  busy : ∀ l, writes i l = true → (next i s).core.spine.rename.busyTable (freePrn i s l) = true
  table : ∀ l, masked i l = true →
    (next i s).ptab.ptabEntry (Ptab.ptabTag s.ptab l) = Ptab.recorded (i.fetchPkt l) ∧
      (next i s).core.pipePtabTag l = BitVec.ofFin (Ptab.ptabTag s.ptab l)

/-- The same cycle with nothing fetched. -/
def unfetched (i : Inputs) : Inputs := { i with fetchPkt := fun _ => {} }

/-- The group changes nothing. -/
structure Untouched (i : Inputs) (s : State) : Prop where
  rat : (next i s).core.spine.rename.rat = (next (unfetched i) s).core.spine.rename.rat
  freeList : (next i s).core.spine.rename.freeList = (next (unfetched i) s).core.spine.rename.freeList
  busyTable : (next i s).core.spine.rename.busyTable = (next (unfetched i) s).core.spine.rename.busyTable
  ptab : (next i s).ptab = (next (unfetched i) s).ptab
  lanes : ∀ l, ((next i s).core.spine.pipeRenamePkt l).packetValid = false

structure AllOrNothing (i : Inputs) (s : State) : Prop where
  all : takes i s = true → Recorded i s
  nothing : takes i s = false → Untouched i s
  noFlush : takes i s = true → pipeFlush s = false

/-- No broadcast names a register the group takes, and the branch unit reads no entry it is
given. -/
structure Unclashed (i : Inputs) (s : State) : Prop where
  broadcast : ∀ l, writes i l = true → ∀ w, (cdbPkt i s w).packetValid = true →
    (cdbPkt i s w).destPrn ≠ freePrn i s l
  resolved : ∀ l, masked i l = true → (ptabIn i s).bruValid = true →
    (ptabIn i s).bruPtabTag.toFin ≠ Ptab.ptabTag s.ptab l

section
variable {c : Config} {s : State} {i : Inputs} {l : Lane}

/-! ### A group that is accepted -/

theorem takes_accept (ht : takes i s = true) : Ptab.fetchPktReady s.ptab = true ∧ accept i s = true := by
  rwa [takes_iff, Bool.and_eq_true] at ht

/-- The decoder sees the fetched lanes. -/
theorem decodePkt_valid (ht : takes i s = true) (hv : (i.fetchPkt l).packetValid = true) :
    decodeRenameFetchPkt i s l = i.fetchPkt l := by
  rw [decodeRenameFetchPkt, hv, (takes_accept ht).1]
  rfl

theorem hasDest_eq (ht : takes i s = true) (l : Lane) :
    Rename.hasDest (decodePkt i s l) = writes i l := by
  cases hv : (i.fetchPkt l).packetValid with
  | true =>
    have hpkt := decodePkt_valid ht hv
    show Rename.hasDest (Decoder.decode (decodeRenameFetchPkt i s l) _) = _
    rw [hpkt, writes, hv]
    rfl
  | false =>
    have hpkt : decodeRenameFetchPkt i s l = {} := by
      rw [decodeRenameFetchPkt, hv]
      rfl
    show Rename.hasDest (Decoder.decode (decodeRenameFetchPkt i s l) _) = _
    rw [hpkt, writes, hv]
    rfl

theorem destArn_eq (ht : takes i s = true) (hv : (i.fetchPkt l).packetValid = true) :
    (decodePkt i s l).destArn = destArn i l := by
  show (Decoder.decode (decodeRenameFetchPkt i s l) _).destArn = _
  rw [decodePkt_valid ht hv]
  rfl

theorem freePrnReady_eq (ht : takes i s = true) (l : Lane) :
    Rename.freePrnReady (renameIn i s) s.core.spine.rename l = writes i l := by
  rw [← hasDest_eq ht]
  exact Rename.freePrnReady_eq (takes_accept ht).2

theorem writes_valid (h : writes i l = true) : (i.fetchPkt l).packetValid = true :=
  (Bool.and_eq_true_iff.1 h).1

namespace RecovInv

/-- A group with a valid lane is not fetched in the recovery cycle. -/
theorem noRecov (ok : OkRecov i c) (hv : (i.fetchPkt l).packetValid = true) :
    c.state.core.spine.recovArchSt = false := by
  rw [Bool.eq_false_iff]
  intro hr
  rw [ok.recov hr l] at hv
  cases hv

theorem accept_noFlush (h : RecovInv c) (ht : takes i c.state = true) : pipeFlush c.state = false := by
  rw [Bool.eq_false_iff]
  intro hf
  have ha : accept i c.state = false := Spine.accept_flush h.flow.misp hf (spineIn i c.state)
  rw [(takes_accept ht).2] at ha
  cases ha

theorem offered (h : RecovInv c) (i : Inputs) (l : Lane) :
    Rename.freePrnValid (renameIn i c.state) c.state.core.spine.rename l = true :=
  (h.spine.offered (spineIn i c.state) l).1

/-- The group's registers are apart. -/
theorem freePrn_inj (h : RecovInv c) (i : Inputs) {l m : Lane} (he : freePrn i c.state l = freePrn i c.state m) :
    l = m := by
  have hl := (Rename.freePrnOh_iff (h.offered i l) _).2 rfl
  have hm := (Rename.freePrnOh_iff (h.offered i m) _).2 he
  exact gntBus_disjoint hl hm

theorem next_pkt (h : RecovInv c) (ht : takes i c.state = true) (l : Lane) :
    (Backend.next i c.state).core.spine.pipeRenamePkt l =
      Rename.renamePkt (renameIn i c.state) c.state.core.spine.rename l := by
  show (if pipeFlush c.state then _ else if accept i c.state then _ else _) = _
  rw [h.accept_noFlush ht, if_neg Bool.false_ne_true, if_pos (takes_accept ht).2]
  rfl

theorem next_tag (h : RecovInv c) (ht : takes i c.state = true) (l : Lane) :
    (Backend.next i c.state).core.pipePtabTag l = BitVec.ofFin (w := 4) (Ptab.ptabTag c.state.ptab l) := by
  show (if pipeFlush c.state then _ else if accept i c.state then _ else _) = _
  rw [h.accept_noFlush ht, if_neg Bool.false_ne_true, if_pos (takes_accept ht).2]
  rfl

/-- The youngest lane that writes a register maps it. -/
theorem next_rat (h : RecovInv c) (ok : OkRecov i c) (ht : takes i c.state = true) (hw : writes i l = true)
    (hafter : ∀ m, l < m → writes i m = true → destArn i m ≠ destArn i l) :
    (Backend.next i c.state).core.spine.rename.rat (destArn i l) = freePrn i c.state l := by
  have hwrite : ∀ m, (Rename.freePrnValid (renameIn i c.state) c.state.core.spine.rename m &&
      Rename.freePrnReady (renameIn i c.state) c.state.core.spine.rename m &&
      destArn i l == (decodePkt i c.state m).destArn) = (writes i m && destArn i l == destArn i m) := by
    intro m
    rw [h.offered i m, freePrnReady_eq ht, Bool.true_and]
    cases hm : writes i m with
    | false => rfl
    | true => rw [destArn_eq ht (writes_valid hm)]
  have hlast : (List.finRange 4).reverse.find? (fun m => writes i m && destArn i l == destArn i m) = some l := by
    refine find_last (by rw [hw, beq_self_eq_true]; rfl) fun m hlm => ?_
    cases hm : writes i m with
    | false => rfl
    | true =>
      rw [Bool.true_and, beq_eq_false_iff_ne]
      exact (hafter m hlm hm).symm
  show Rename.nextRat (renameIn i c.state) c.state.core.spine.rename (destArn i l) = _
  have hr : (renameIn i c.state).recovArchSt = false := noRecov ok (writes_valid hw)
  rw [Rename.nextRat, hr, if_neg Bool.false_ne_true]
  refine (foldl_last (fun m => Rename.freePrnValid (renameIn i c.state) c.state.core.spine.rename m &&
    Rename.freePrnReady (renameIn i c.state) c.state.core.spine.rename m &&
    destArn i l == (decodePkt i c.state m).destArn) (freePrn i c.state) _ _).trans ?_
  rw [funext hwrite, hlast]
  rfl

theorem next_free (h : RecovInv c) (ok : OkRecov i c) (ht : takes i c.state = true) (hw : writes i l = true) :
    Rename.freeListRetireFwd (renameIn i c.state) c.state.core.spine.rename (freePrn i c.state l) = true ∧
      (Backend.next i c.state).core.spine.rename.freeList (freePrn i c.state l) = false := by
  have hoh := (Rename.freePrnOh_iff (h.offered i l) _).2 rfl
  refine ⟨Rename.freePrnOh_free hoh, ?_⟩
  show Rename.nextFreeList (renameIn i c.state) c.state.core.spine.rename (freePrn i c.state l) = false
  have hr : (renameIn i c.state).recovArchSt = false := noRecov ok (writes_valid hw)
  rw [Rename.nextFreeList, hr, if_neg Bool.false_ne_true, if_pos]
  rw [List.any_eq_true]
  exact ⟨l, List.mem_finRange l, by rw [freePrnReady_eq ht, hw, Bool.and_true]; exact hoh⟩

/-- A register taken is busy unless it is broadcast in this cycle. -/
theorem next_busy (h : RecovInv c) (ok : OkRecov i c) (ht : takes i c.state = true) (hw : writes i l = true) :
    (Backend.next i c.state).core.spine.rename.busyTable (freePrn i c.state l) = true ↔
      ∀ w, (cdbPkt i c.state w).packetValid = true → (cdbPkt i c.state w).destPrn ≠ freePrn i c.state l := by
  have hr : (renameIn i c.state).recovArchSt = false := noRecov ok (writes_valid hw)
  have htaken : ((List.finRange 4).any fun m =>
      Rename.freePrnValid (renameIn i c.state) c.state.core.spine.rename m &&
        Rename.freePrnReady (renameIn i c.state) c.state.core.spine.rename m &&
        freePrn i c.state l == Rename.freePrn (renameIn i c.state) c.state.core.spine.rename m) = true := by
    rw [List.any_eq_true]
    refine ⟨l, List.mem_finRange l, ?_⟩
    rw [h.offered i l, freePrnReady_eq ht, hw, Bool.true_and, Bool.true_and]
    exact beq_self_eq_true _
  show Rename.nextBusyTable (renameIn i c.state) c.state.core.spine.rename (freePrn i c.state l) = true ↔ _
  rw [Rename.nextBusyTable, hr, if_neg Bool.false_ne_true, if_pos htaken]
  rw [Bool.if_false_left, Bool.and_true, Bool.not_eq_true', decide_eq_false_iff_not, Bool.not_eq_true,
    List.any_eq_false]
  constructor
  · intro hno w hv he
    refine hno w (List.mem_finRange w) ?_
    rw [Bool.and_eq_true, beq_iff_eq]
    exact ⟨hv, he.symm⟩
  · intro hno w _ hw
    rw [Bool.and_eq_true, beq_iff_eq] at hw
    exact hno w hw.1 hw.2.symm

/-- A masked lane's entry is recorded unless the branch unit clears it in this cycle. -/
theorem next_entry (h : RecovInv c) (ht : takes i c.state = true) (hm : masked i l = true) :
    (Backend.next i c.state).ptab.ptabEntry (Ptab.ptabTag c.state.ptab l) = Ptab.recorded (i.fetchPkt l) ↔
      ((ptabIn i c.state).bruValid = true →
        (ptabIn i c.state).bruPtabTag.toFin ≠ Ptab.ptabTag c.state.ptab l) := by
  obtain ⟨hv, hb⟩ := Bool.and_eq_true_iff.1 hm
  have hpkt : (ptabIn i c.state).fetchPkt l = i.fetchPkt l := by
    show (if (i.fetchPkt l).packetValid && accept i c.state then _ else _) = _
    rw [hv, (takes_accept ht).2]
    rfl
  have hrec : Ptab.records (ptabIn i c.state) c.state.ptab l = true := by
    rw [Ptab.records, hpkt, hv, hb, (takes_accept ht).1]
    rfl
  show Ptab.nextEntry (ptabIn i c.state) c.state.ptab _ = _ ↔ _
  cases hc : Ptab.clears (ptabIn i c.state) (Ptab.ptabTag c.state.ptab l) with
  | false =>
    rw [Ptab.nextEntry_recorded (h.accept_noFlush ht) hrec hc, hpkt]
    refine iff_of_true rfl fun hv he => ?_
    rw [Ptab.clears, hv, he, beq_self_eq_true] at hc
    cases hc
  | true =>
    refine iff_of_false (fun he => ?_) fun hno => ?_
    · have hclear := Ptab.nextEntry_cleared (s := c.state.ptab) _ hc
      rw [he] at hclear
      cases hclear
    · rw [Ptab.clears, Bool.and_eq_true, beq_iff_eq] at hc
      exact hno hc.1 hc.2.symm

end RecovInv

/-! ### A group that is refused -/

theorem freePrnReady_refused (ht : takes i s = false) (l : Lane) :
    Rename.freePrnReady (renameIn i s) s.core.spine.rename l = false := by
  rw [takes_iff, Bool.and_eq_false_iff] at ht
  rcases ht with hp | ha
  · -- the branch table has no room: nothing reaches the decoder
    have hpkt : decodeRenameFetchPkt i s l = {} := by
      rw [decodeRenameFetchPkt, hp, Bool.and_false]
      rfl
    have hdest : Rename.hasDest (decodePkt i s l) = false := by
      show Rename.hasDest (Decoder.decode (decodeRenameFetchPkt i s l) _) = false
      rw [hpkt]
      rfl
    show (Rename.hasDest (decodePkt i s l) && _ && _) = false
    rw [hdest]
    rfl
  · exact Rename.freePrnReady_refused ha

theorem records_refused (ht : takes i s = false) (l : Lane) : Ptab.records (ptabIn i s) s.ptab l = false := by
  rw [takes_iff, Bool.and_eq_false_iff] at ht
  rcases ht with hp | ha
  · rw [Ptab.records, hp]
    rfl
  · have hpkt : (ptabIn i s).fetchPkt l = {} := by
      show (if (i.fetchPkt l).packetValid && accept i s then _ else _) = _
      rw [ha, Bool.and_false]
      rfl
    rw [Ptab.records, hpkt, Bool.and_false]

theorem freePrnReady_unfetched (l : Lane) :
    Rename.freePrnReady (renameIn (unfetched i) s) s.core.spine.rename l = false := by
  have hdest : Rename.hasDest (decodePkt (unfetched i) s l) = false := rfl
  show (Rename.hasDest (decodePkt (unfetched i) s l) && _ && _) = false
  rw [hdest]
  rfl

theorem records_unfetched (l : Lane) : Ptab.records (ptabIn (unfetched i) s) s.ptab l = false := by
  have hpkt : (ptabIn (unfetched i) s).fetchPkt l = {} := rfl
  rw [Ptab.records, hpkt, Bool.and_false]

/-- **A group that is refused leaves no trace.** -/
theorem untouched (ht : takes i s = false) : Untouched i s := by
  obtain ⟨hrat, hfree, hbusy⟩ := Rename.next_refused (freePrnReady_refused ht)
  obtain ⟨hrat', hfree', hbusy'⟩ := Rename.next_refused (freePrnReady_unfetched (i := i) (s := s))
  refine ⟨hrat.trans hrat'.symm, hfree.trans hfree'.symm, hbusy.trans hbusy'.symm, ?_, fun l => ?_⟩
  · show Ptab.State.mk (Ptab.nextEntry _ _) = Ptab.State.mk (Ptab.nextEntry _ _)
    rw [funext (Ptab.nextEntry_idle (records_refused ht)), funext (Ptab.nextEntry_idle records_unfetched)]
    rfl
  · show (if pipeFlush s then _ else if accept i s then _ else _ : RenamePacket).packetValid = false
    cases pipeFlush s with
    | true => rfl
    | false =>
      cases ha : accept i s with
      | false => rfl
      | true =>
        rw [takes_iff, ha, Bool.and_true] at ht
        show (decodeRenameFetchPkt i s l).packetValid = false
        rw [decodeRenameFetchPkt, ht, Bool.and_false]
        rfl

/-! ### The result -/

/-- **Group acceptance is all or nothing**, exactly when no broadcast of the cycle names a
register the group takes and the branch unit reads no entry it is given. -/
theorem all_or_nothing_iff (h : ReachRecov c) (ok : OkRecov i c) :
    AllOrNothing i c.state ↔ (takes i c.state = true → Unclashed i c.state) := by
  have hinv := RecovInv.of_reach h
  constructor
  · intro hall ht
    have hrec := hall.all ht
    exact ⟨fun l hl => (hinv.next_busy ok ht hl).1 (hrec.busy l hl),
      fun l hl => (hinv.next_entry ht hl).1 (hrec.table l hl).1⟩
  · intro hno
    refine ⟨fun ht => ?_, untouched, hinv.accept_noFlush⟩
    refine ⟨fun l hv => ?_, fun l m => hinv.freePrn_inj i, fun l hl => hinv.next_rat ok ht hl,
      fun l hl => hinv.next_free ok ht hl, fun l hl => (hinv.next_busy ok ht hl).2 ((hno ht).broadcast l hl),
      fun l hl => ⟨(hinv.next_entry ht hl).2 ((hno ht).resolved l hl), hinv.next_tag ht l⟩⟩
    have hpkt := decodePkt_valid ht hv
    refine ⟨hinv.next_pkt ht l, ?_, ?_, ?_⟩
    · rw [hinv.next_pkt ht l]
      show (decodeRenameFetchPkt i c.state l).packetValid = true
      rw [hpkt, hv]
    · rw [hinv.next_pkt ht l]
      exact congrArg FetchPacket.inst hpkt
    · rw [hinv.next_pkt ht l]
      exact congrArg FetchPacket.pc hpkt

end

/-- A branch that is taken against its prediction, and behind it a load. -/
def beqLoadIn : Inputs where
  fetchPkt := fun l =>
    if l = 0 then { inst := 0x00000463, branchMask := true, packetValid := true }
    else if l = 1 then { inst := 0x00002083, packetValid := true }
    else {}
  fireStReady := false
  fireLdReady := true
  dcacheData := 0
  dcacheLdqTag := 0
  dcacheValid := false

theorem all_or_nothing_beqLoad : takes beqLoadIn Config.init.state = true ∧
    AllOrNothing beqLoadIn Config.init.state :=
  ⟨by decide +kernel, (all_or_nothing_iff .init ⟨(show Contiguous _ by decide), fun h => by cases h⟩).2
    fun _ => ⟨by decide +kernel, by decide +kernel⟩⟩

/-! ### An answer to a squashed load -/

def waitIn : Inputs := { beqLoadIn with fetchPkt := fun _ => {} }

/-- Counting cycles from 0, the data cache has taken the load in cycle 6, the branch has
flushed it in cycle 7, and the maps were rebuilt in cycle 8. -/
def squashed : Config := (beqLoadIn :: List.replicate 8 waitIn).foldl (fun c i => c.next i) .init

/-- The data cache answers while a NOP and an addition are fetched. -/
def answerIn : Inputs where
  fetchPkt := fun l =>
    if l = 0 then { inst := nop, packetValid := true }
    else if l = 1 then { inst := 0x00100113, packetValid := true }
    else {}
  fireStReady := false
  fireLdReady := true
  dcacheData := 0
  dcacheLdqTag := 0
  dcacheValid := true

/-- The addition is given the register of the squashed load and the answer is broadcast for
that register, so that its busy bit is not set. -/
theorem squashed_late : Run.Keeps Config.next OkRecov Config.init (beqLoadIn :: List.replicate 8 waitIn) ∧
    OkRecov answerIn squashed ∧ takes answerIn squashed.state = true ∧ writes answerIn 1 = true ∧
    (next answerIn squashed.state).core.spine.rename.busyTable (freePrn answerIn squashed.state 1) = false := by
  decide +kernel

theorem busy_missed : ¬ ∀ c i, ReachRecov c → OkRecov i c → AllOrNothing i c.state := by
  intro h
  obtain ⟨hkeeps, hok, ht, hw, hbusy⟩ := squashed_late
  have hrec := (h squashed answerIn (Run.Reach.of_keeps _ .init hkeeps) hok).all ht
  rw [hrec.busy 1 hw] at hbusy
  cases hbusy

end R10K.Backend
