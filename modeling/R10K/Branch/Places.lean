import R10K.Branch.Log
import R10K.Rs.Once

/-! Where the branches in flight are.

An accepted branch stands in the dispatch register for one cycle, then in a station of the
bank of sixteen until its operands are ready, and for one cycle each in lane 5 of the issue
and of the register-read register. Nothing but a flush takes it off this way, because the
bank has promised room for what stands in the dispatch register. -/
namespace R10K.Branch
open Backend Lanes Select

/-- What can be seen of a branch where it stands. -/
structure Token where
  number : Nat
  tag : BitVec 4
  inst : BitVec 32
  pc : BitVec 32
deriving DecidableEq

def Record.token (r : Record) : Token := ⟨r.number, r.tag, r.pkt.inst, r.pkt.pc⟩

def Token.of (number : Nat) (p : IssuePacket) : Token := ⟨number, p.ptabTag, p.inst, p.pc⟩

inductive Place where
  | rename (l : Lane)
  | station (k : Fin 16)
  | issue
  | read
deriving DecidableEq

namespace Config

/-- The branch at a place. -/
def held (c : Config) : Place → Option Token
  | .rename l =>
    let p := c.state.core.spine.pipeRenamePkt l
    if needsStation c.state l && p.fuId == .bru0 then
      some ⟨c.renameNumber l, c.state.core.pipePtabTag l, p.inst, p.pc⟩
    else none
  | .station k =>
    let e := c.state.core.rsInt.entry k
    if e.inUse && e.pkt.fuId == .bru0 then some ⟨c.stationNumber k, e.pkt.ptabTag, e.pkt.inst, e.pkt.pc⟩
    else none
  | .issue =>
    let p := c.state.core.pipeIssuePkt 5
    if p.packetValid then some ⟨c.issueNumber, p.ptabTag, p.inst, p.pc⟩ else none
  | .read =>
    let p := c.state.pipeRegReadPkt 5
    if p.packetValid then some ⟨c.readNumber, p.ptabTag, p.inst, p.pc⟩ else none

/-- Where a branch goes from a place; from the last one it leaves. -/
def dest (c : Config) : Place → Option Place
  | .rename l => some (.station (Rs.allocIndex c.state.core.rsInt l))
  | .station k => if Rs.issueEnN c.state.core.rsInt 5 k then some .issue else some (.station k)
  | .issue => some .read
  | .read => none

/-- The branches accepted enter the dispatch register. -/
def enter (i : Inputs) (c : Config) : Place → Option Token
  | .rename l => if c.acceptedBranch i l then some (c.record i l).token else none
  | _ => none

end Config

/-- What the bank of sixteen keeps. -/
structure Sound (c : Config) : Prop where
  credit : Rs.Credit c.intReady c.state.core.rsInt
  awake : Rs.Awake c.state.core.rsInt
  promised : ∀ l, (c.state.core.spine.pipeRenamePkt l).packetValid = true → ∀ m, c.intReady m = true

section
variable {c : Config} {i : Inputs} {l : Lane} {k : Fin 16} {t : Token}

/-! ### Decoding -/

/-- A branch neither halts nor is illegal. -/
def Proceeds (c : Decoder.Control) : Prop :=
  (c.condBranch || c.uncondBranch) = true → c.halt = false ∧ c.illegal = false

instance (c : Decoder.Control) : Decidable (Proceeds c) := inferInstanceAs (Decidable (_ → _))

theorem Proceeds.ite {p : Prop} [Decidable p] {a b : Decoder.Control} (ha : Proceeds a)
    (hb : Proceeds b) : Proceeds (if p then a else b) := by
  split
  · exact ha
  · exact hb

theorem control_proceeds (inst : BitVec 32) : Proceeds (Decoder.control inst) := by
  unfold Decoder.control
  repeat' apply Proceeds.ite
  all_goals decide

theorem isBranch_nop : isBranch nop = false := by decide

/-- The packets for the branch unit are those of branches. -/
theorem decode_bru (p : FetchPacket) (alu : BitVec 2) (hv : p.packetValid = true) :
    (p.inst != nop && !(Decoder.decode p alu).halt && !(Decoder.decode p alu).illegal &&
      (Decoder.decode p alu).fuId == .bru0) = isBranch p.inst := by
  have hfu : ((Decoder.decode p alu).fuId == .bru0) = isBranch p.inst := by
    simp only [Decoder.decode, hv, if_true, Decoder.fuId, isBranch]
    split_ifs with h <;> simp_all
  rw [hfu]
  cases hb : isBranch p.inst with
  | false => rw [Bool.and_false]
  | true =>
    have hn : p.inst ≠ nop := by
      intro hn
      rw [hn, isBranch_nop] at hb
      cases hb
    obtain ⟨hh, hi⟩ := control_proceeds p.inst hb
    have hh' : (Decoder.decode p alu).halt = false := by simpa [Decoder.decode, hv] using hh
    have hi' : (Decoder.decode p alu).illegal = false := by simpa [Decoder.decode, hv] using hi
    rw [hh', hi', bne_iff_ne.2 hn]
    rfl

/-! ### Where a branch comes from -/

/-- A renamed packet that is valid and for the branch unit is a branch. -/
theorem renamed_bru (j : Rename.Inputs) (s : Rename.State) (l : Lane) :
    ((Rename.renamePkt j s l).packetValid && (Rename.renamePkt j s l).inst != nop &&
        !(Rename.renamePkt j s l).halt && !(Rename.renamePkt j s l).illegal &&
        (Rename.renamePkt j s l).fuId == .bru0) =
        ((j.fetchPkt l).packetValid && isBranch (j.fetchPkt l).inst) ∧
      (Rename.renamePkt j s l).inst = (j.fetchPkt l).inst ∧ (Rename.renamePkt j s l).pc = (j.fetchPkt l).pc := by
  refine ⟨?_, rfl, rfl⟩
  show ((j.fetchPkt l).packetValid && (j.fetchPkt l).inst != nop && !(Rename.decoded j s l).halt &&
    !(Rename.decoded j s l).illegal && (Rename.decoded j s l).fuId == .bru0) = _
  cases hv : (j.fetchPkt l).packetValid with
  | false => simp
  | true =>
    rw [Bool.true_and, Bool.true_and]
    exact decode_bru (j.fetchPkt l) (s.aluAllocHead + Decoder.validBefore j.fetchPkt l) hv

/-- The dispatch register shows the branches just accepted. -/
theorem held_rename (hf : pipeFlush c.state = false) (l : Lane) :
    (c.next i).held (.rename l) = c.enter i (.rename l) := by
  have hacc : ∀ {α : Type} (x y z : α), (if pipeFlush c.state then x else if accept i c.state then y else z) =
      if accept i c.state then y else z := by
    intro α x y z
    rw [hf, if_neg Bool.false_ne_true]
  have hreg : (c.next i).state.core.spine.pipeRenamePkt l = if accept i c.state then
      Rename.renamePkt (Spine.renameIn (spineIn i c.state) c.state.core.spine) c.state.core.spine.rename l
      else {} := hacc _ _ _
  have htag : (c.next i).state.core.pipePtabTag l = if accept i c.state then
      BitVec.ofFin (Ptab.ptabTag c.state.ptab l) else 0 := hacc _ _ _
  simp only [Config.held, Config.enter, Config.acceptedBranch, Config.accepted, takes_iff, needsStation,
    hreg, htag]
  cases ha : accept i c.state with
  | false => simp
  | true =>
    obtain ⟨hbru, hinst, hpc⟩ := renamed_bru (Spine.renameIn (spineIn i c.state) c.state.core.spine)
      c.state.core.spine.rename l
    rw [if_pos rfl, if_pos rfl, hbru, hinst, hpc]
    -- the decoder is given the packet only when the table has room
    show (if (decodeRenameFetchPkt i c.state l).packetValid && isBranch (decodeRenameFetchPkt i c.state l).inst
      then some (Token.mk (c.fetchNumber i l) _ (decodeRenameFetchPkt i c.state l).inst
        (decodeRenameFetchPkt i c.state l).pc) else none) = _
    rw [decodeRenameFetchPkt]
    cases hv : (i.fetchPkt l).packetValid <;> cases hp : Ptab.fetchPktReady c.state.ptab <;>
      simp [hv, Config.record, Record.token]

/-- What a lane dispatches to the bank of sixteen. -/
theorem intIn_dispatch (l : Lane) (h : (c.state.core.spine.pipeRenamePkt l).fuId = .bru0) :
    (c.intIn i).dispatchPkt l = Core.dispatchRsPkt (coreIn i c.state) c.state.core l := by
  show Core.intDispatchPkt (coreIn i c.state) c.state.core l = _
  rw [Core.intDispatchPkt, if_pos]
  show (c.state.core.spine.pipeRenamePkt l).fuId ≠ .agu0
  rw [h]
  decide

/-- Only what needs a station is dispatched to the bank of sixteen. -/
theorem intIn_valid (h : ((c.intIn i).dispatchPkt l).packetValid = true) :
    (c.intIn i).dispatchPkt l = Core.dispatchRsPkt (coreIn i c.state) c.state.core l ∧
      needsStation c.state l = true := by
  have h' : (Core.intDispatchPkt (coreIn i c.state) c.state.core l).packetValid = true := h
  rw [Core.intDispatchPkt] at h'
  split at h'
  · rename_i hne
    exact ⟨if_pos hne, rsPkt_needs i c.state l ▸ h'⟩
  · cases h'

theorem held_rename_iff : c.held (.rename l) = some t ↔
    needsStation c.state l = true ∧ (c.state.core.spine.pipeRenamePkt l).fuId = .bru0 ∧
      Token.mk (c.renameNumber l) (c.state.core.pipePtabTag l) (c.state.core.spine.pipeRenamePkt l).inst
        (c.state.core.spine.pipeRenamePkt l).pc = t := by
  simp [Config.held, and_assoc]

theorem held_station_iff : c.held (.station k) = some t ↔
    (c.state.core.rsInt.entry k).inUse = true ∧ (c.state.core.rsInt.entry k).pkt.fuId = .bru0 ∧
      Token.of (c.stationNumber k) (Rs.toIssue (c.state.core.rsInt.entry k).pkt) = t := by
  simp [Config.held, Token.of, Rs.toIssue, and_assoc]

theorem held_issue_iff : c.held .issue = some t ↔ (c.state.core.pipeIssuePkt 5).packetValid = true ∧
    Token.of c.issueNumber (c.state.core.pipeIssuePkt 5) = t := by
  simp [Config.held, Token.of]

theorem held_read_iff : c.held .read = some t ↔ (c.state.pipeRegReadPkt 5).packetValid = true ∧
    Token.mk c.readNumber (c.state.pipeRegReadPkt 5).ptabTag (c.state.pipeRegReadPkt 5).inst
      (c.state.pipeRegReadPkt 5).pc = t := by
  simp [Config.held]

namespace Sound

/-- The bank is given only what it has promised room for. -/
theorem okInt (h : Sound c) (i : Inputs) : Rs.OkDispatch (c.intIn i) c.intReady := by
  intro l hl
  have hneeds := (intIn_valid hl).2
  simp only [needsStation, Bool.and_eq_true] at hneeds
  exact h.promised l hneeds.1.1.1

/-- A branch in a station issues on lane 5 or stays. -/
theorem issueEn_bru (h : Sound c) (hfu : (c.state.core.rsInt.entry k).pkt.fuId = .bru0) :
    Rs.issueEn c.state.core.rsInt k = Rs.issueEnN c.state.core.rsInt 5 k := by
  rw [Bool.eq_iff_iff, Rs.issueEn_iff]
  constructor
  · rintro ⟨w, hw⟩
    have hway := (h.awake.way hw).2
    rw [hfu] at hway
    rwa [← hway] at hw
  · intro hw
    exact ⟨5, hw⟩

theorem unit_bru {f : FuId} (h : f.way = 5) : f = .bru0 := by
  cases f <;> first | rfl | exact absurd h (by decide)

theorem stationNumber_load (hl : Rs.allocSel c.state.core.rsInt k l = true)
    (hv : ((c.intIn i).dispatchPkt l).packetValid = true) : (c.next i).stationNumber k = c.renameNumber l := by
  show (if (Rs.dispatchPktN (c.intIn i) c.state.core.rsInt k).packetValid then _ else _) = _
  rw [Rs.dispatchPktN_eq hl, if_pos hv, Rs.loadLane_eq hl]

theorem stationNumber_keep (huse : (c.state.core.rsInt.entry k).inUse = true) :
    (c.next i).stationNumber k = c.stationNumber k :=
  if_neg (by rw [Rs.inUse_unloaded huse]; exact Bool.false_ne_true)

/-- The branches in the stations were there and did not issue, or are dispatched now. -/
theorem held_station (h : Sound c) (hf : pipeFlush c.state = false) :
    (c.next i).held (.station k) = some t ↔ ∃ p, c.held p = some t ∧ c.dest p = some (.station k) := by
  constructor
  · intro hheld
    obtain ⟨huse, hfu, rfl⟩ := held_station_iff.1 hheld
    obtain ⟨-, ⟨l, hv, hl, hpkt⟩ | ⟨hold, hen, hpkt⟩⟩ :=
      Rs.next_holds (i := c.intIn i) (b := c.state.core.rsInt) huse
    · obtain ⟨hdisp, hneeds⟩ := intIn_valid hv
      have hfu' := (congrArg IssuePacket.fuId hpkt).symm.trans hfu
      rw [hdisp] at hpkt hfu'
      refine ⟨.rename l, held_rename_iff.2 ⟨hneeds, hfu', ?_⟩, ?_⟩
      · rw [stationNumber_load hl hv]
        exact (congrArg (Token.of _) hpkt).symm
      · exact congrArg (fun k => some (Place.station k)) (Rs.allocSel_index hl).1.symm
    · have hfu' := (congrArg IssuePacket.fuId hpkt).symm.trans hfu
      refine ⟨.station k, held_station_iff.2 ⟨hold, hfu', ?_⟩, ?_⟩
      · rw [stationNumber_keep hold]
        exact (congrArg (Token.of _) hpkt).symm
      · rw [Config.dest, if_neg]
        rw [← h.issueEn_bru hfu', hen]
        exact Bool.false_ne_true
  · rintro ⟨p, hp, hd⟩
    rw [held_station_iff]
    cases p with
    | rename l =>
      obtain ⟨hneeds, hfu, rfl⟩ := held_rename_iff.1 hp
      have hkl : Rs.allocIndex c.state.core.rsInt l = k := by simpa [Config.dest] using hd
      subst hkl
      have hdisp := intIn_dispatch (i := i) l hfu
      have hv : ((c.intIn i).dispatchPkt l).packetValid = true := by
        rw [hdisp, rsPkt_needs]
        exact hneeds
      have hself := (h.credit.slot (h.okInt i) l hv).1
      obtain ⟨huse, hpkt⟩ := Rs.next_load (i := c.intIn i) h.awake hf hself hv
      rw [hdisp] at hpkt
      refine ⟨huse, (congrArg IssuePacket.fuId hpkt).trans hfu, ?_⟩
      rw [stationNumber_load hself hv]
      exact congrArg (Token.of _) hpkt
    | station j =>
      obtain ⟨hold, hfu, rfl⟩ := held_station_iff.1 hp
      rw [Config.dest] at hd
      split at hd
      · cases hd
      · rename_i hen
        cases hd
        rw [← h.issueEn_bru hfu, Bool.not_eq_true] at hen
        obtain ⟨huse, hpkt⟩ := Rs.next_keep (i := c.intIn i) hf hold hen
        refine ⟨huse, (congrArg IssuePacket.fuId hpkt).trans hfu, ?_⟩
        rw [stationNumber_keep hold]
        exact congrArg (Token.of _) hpkt
    | issue => cases hd
    | read => cases hd

/-- Lane 5 issues the branch it takes from a station. -/
theorem held_issue (h : Sound c) (hf : pipeFlush c.state = false) :
    (c.next i).held .issue = some t ↔ ∃ p, c.held p = some t ∧ c.dest p = some .issue := by
  have hreg : (c.next i).state.core.pipeIssuePkt 5 = Rs.issuePkt c.state.core.rsInt 5 := by
    show (if pipeFlush c.state then _ else _) = _
    rw [hf, if_neg Bool.false_ne_true]
    rfl
  rw [held_issue_iff, hreg]
  constructor
  · rintro ⟨hv, rfl⟩
    obtain ⟨k, hk, -, -⟩ := Rs.issuePkt_valid h.awake hv
    obtain ⟨huse, hway⟩ := h.awake.way hk
    refine ⟨.station k, held_station_iff.2 ⟨huse, unit_bru hway, ?_⟩, if_pos hk⟩
    rw [Rs.issuePkt_eq hk, Config.next, Rs.issueIdx_eq hk]
  · rintro ⟨p, hp, hd⟩
    cases p with
    | rename l => cases hd
    | station k =>
      obtain ⟨huse, hfu, rfl⟩ := held_station_iff.1 hp
      rw [Config.dest] at hd
      split at hd
      · rename_i hk
        rw [Rs.issuePkt_eq hk, Config.next, Rs.issueIdx_eq hk]
        exact ⟨rfl, rfl⟩
      · cases hd
    | issue => cases hd
    | read => cases hd

/-- What is issued reads its registers. -/
theorem held_read (hf : pipeFlush c.state = false) : (c.next i).held .read = c.held .issue := by
  have hreg : (c.next i).state.pipeRegReadPkt 5 = Core.regReadPkt (coreIn i c.state) c.state.core 5 := by
    show (if pipeFlush c.state then _ else _) = _
    rw [hf, if_neg Bool.false_ne_true]
  simp only [Config.held, hreg]
  rfl

/-- **Branches move along their way and nowhere else.** -/
theorem moves (h : Sound c) (hf : pipeFlush c.state = false) :
    Tokens.Moves c.held (c.next i).held c.dest (c.enter i) := by
  intro q t
  cases q with
  | rename l =>
    rw [held_rename hf l]
    constructor
    · exact .inl
    · rintro (he | ⟨p, -, hd⟩)
      · exact he
      · cases p with
        | rename m => cases hd
        | station k =>
          rw [Config.dest] at hd
          split at hd <;> cases hd
        | issue => cases hd
        | read => cases hd
  | station k =>
    rw [h.held_station hf]
    exact ⟨.inr, fun he => he.resolve_left fun he => by cases he⟩
  | issue =>
    rw [h.held_issue hf]
    exact ⟨.inr, fun he => he.resolve_left fun he => by cases he⟩
  | read =>
    rw [held_read hf]
    constructor
    · intro hp
      exact .inr ⟨.issue, hp, rfl⟩
    · rintro (he | ⟨p, hp, hd⟩)
      · cases he
      · cases p with
        | rename m => cases hd
        | station k =>
          rw [Config.dest] at hd
          split at hd <;> cases hd
        | issue => exact hp
        | read => cases hd

/-- A flush empties every place. -/
theorem held_flush (hf : pipeFlush c.state = true) (p : Place) : (c.next i).held p = none := by
  have hflush : ∀ {α : Type} (x y : α), (if pipeFlush c.state then x else y) = x := fun x y => if_pos hf
  cases p with
  | rename l =>
    have hreg : (c.next i).state.core.spine.pipeRenamePkt l = {} := hflush _ _
    simp [Config.held, needsStation, hreg]
  | station k =>
    have huse : ((c.next i).state.core.rsInt.entry k).inUse = false := hflush _ _
    simp [Config.held, huse]
  | issue =>
    have hreg : (c.next i).state.core.pipeIssuePkt 5 = {} := hflush _ _
    simp [Config.held, hreg]
  | read =>
    have hreg : (c.next i).state.pipeRegReadPkt 5 = {} := hflush _ _
    simp [Config.held, hreg]

/-- **One edge keeps what the bank promises.** -/
theorem next (h : Sound c) (i : Inputs) : Sound (c.next i) where
  credit := h.credit.next (h.okInt i)
  awake := h.awake.next _
  promised := by
    intro l hl m
    have hl' : (if pipeFlush c.state then ({} : RenamePacket) else if accept i c.state then
      Rename.renamePkt (Spine.renameIn (spineIn i c.state) c.state.core.spine) c.state.core.spine.rename l
      else {}).packetValid = true := hl
    have ha : accept i c.state = true := by
      split at hl'
      · cases hl'
      · split at hl'
        · assumption
        · cases hl'
    exact ((Spine.accept_ready ha).2.2.2 m).1

theorem init : Sound Config.init where
  credit := Rs.Credit.init (by decide)
  awake := Rs.Awake.init
  promised := fun _ h => by cases h

end Sound

end

end R10K.Branch
