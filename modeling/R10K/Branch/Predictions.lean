import R10K.Branch.Places

/-! Every branch is checked against its own prediction.

The branches in flight are the tokens on the way to the branch unit and the ledger of the
branch table at once. So the valid entries and the branches in flight correspond through
`ptab_tag`, and the entry the branch unit reads is the one recorded for the branch it
decides. -/
namespace R10K.Branch
open Backend Lanes
variable {c : Config} {i : Inputs} {l : Lane} {r : Record} {t : Token}

/-! ### The group accepted -/

theorem acceptedBranch_iff : c.acceptedBranch i l = true ↔
    takes i c.state = true ∧ (i.fetchPkt l).packetValid = true ∧ isBranch (i.fetchPkt l).inst = true := by
  simp [Config.acceptedBranch, Config.accepted, and_assoc]

/-- The lanes recorded in the branch table are those of the branches accepted. -/
theorem records_eq (ok : Ok i c) (l : Lane) :
    Ptab.records (ptabIn i c.state) c.state.ptab l = c.acceptedBranch i l := by
  have hpkt : (ptabIn i c.state).fetchPkt l =
      if (i.fetchPkt l).packetValid && accept i c.state then i.fetchPkt l else {} := rfl
  rw [Ptab.records, hpkt, Config.acceptedBranch, Config.accepted, takes_iff]
  cases hv : (i.fetchPkt l).packetValid with
  | false => simp
  | true =>
    cases accept i c.state with
    | false => simp
    | true => rw [Bool.and_true, if_pos rfl, hv, ok l hv, Bool.and_true, Bool.and_true]

theorem record_pkt (h : c.acceptedBranch i l = true) :
    (ptabIn i c.state).fetchPkt l = (c.record i l).pkt := by
  obtain ⟨ht, hv, -⟩ := acceptedBranch_iff.1 h
  rw [takes_iff, Bool.and_eq_true] at ht
  show (if (i.fetchPkt l).packetValid && accept i c.state then i.fetchPkt l else {}) = i.fetchPkt l
  rw [hv, ht.2]
  rfl

theorem count_le_fetchNumber : c.count ≤ c.fetchNumber i l := Nat.le_add_right _ _

theorem fetchNumber_inj {m : Lane} (hl : c.acceptedBranch i l = true) (hm : c.acceptedBranch i m = true)
    (h : c.fetchNumber i l = c.fetchNumber i m) : l = m :=
  rank_inj (acceptedBranch_iff.1 hl).2.1 (acceptedBranch_iff.1 hm).2.1 (Nat.add_left_cancel h)

theorem fetchNumber_lt (h : c.acceptedBranch i l = true) : c.fetchNumber i l < (c.next i).count := by
  obtain ⟨ht, hv, -⟩ := acceptedBranch_iff.1 h
  have hgroup : c.accepted i = fun m => (i.fetchPkt m).packetValid := by
    funext m
    rw [Config.accepted, ht, Bool.true_and]
  have hrank := rank_le (fun m => (i.fetchPkt m).packetValid) l
  show c.count + rank (fun m => (i.fetchPkt m).packetValid) l < c.count + (group (c.accepted i)).length
  rw [hgroup]
  rw [hv] at hrank
  exact Nat.add_lt_add_left hrank _

theorem enter_iff {q : Place} : c.enter i q = some t ↔
    ∃ l, q = .rename l ∧ c.acceptedBranch i l = true ∧ (c.record i l).token = t := by
  cases q with
  | rename l =>
    rw [Config.enter, Option.ite_none_right_eq_some, Option.some.injEq]
    constructor
    · rintro ⟨ha, ht⟩
      exact ⟨l, rfl, ha, ht⟩
    · rintro ⟨m, hm, ha, ht⟩
      cases hm
      exact ⟨ha, ht⟩
  | station k => simp [Config.enter]
  | issue => simp [Config.enter]
  | read => simp [Config.enter]

/-! ### The invariant -/

structure Inv (c : Config) : Prop where
  sound : Sound c
  tracks : Tokens.Tracks Token.number c.held (c.inFlight.map Record.token)
  table : Ptab.Stands (fun r => r.tag.toFin) (fun r => Ptab.recorded r.pkt) c.inFlight c.state.ptab
  below : ∀ r ∈ c.inFlight, r.number < c.count

namespace Inv

/-- The branch the branch unit decides is in flight. -/
theorem reading (h : Inv c) (hv : (executePkt c.state 5).packetValid = true) : ∃ r ∈ c.inFlight,
    r.token = ⟨c.readNumber, (c.state.pipeRegReadPkt 5).ptabTag, (c.state.pipeRegReadPkt 5).inst,
      (c.state.pipeRegReadPkt 5).pc⟩ := by
  have hread := held_read_iff.2 ⟨show (c.state.pipeRegReadPkt 5).packetValid = true from hv, rfl⟩
  exact List.mem_map.1 ((h.tracks.mem _).2 ⟨_, hread⟩)

/-- The ledger names a branch by its number and by its entry. -/
theorem number_inj (h : Inv c) {r' : Record} (hr : r ∈ c.inFlight) (hr' : r' ∈ c.inFlight)
    (he : r.number = r'.number) : r = r' := by
  have hkeys := h.tracks.keys
  rw [List.map_map] at hkeys
  exact List.inj_on_of_nodup_map hkeys hr hr' he

theorem tag_inj (h : Inv c) {r' : Record} (hr : r ∈ c.inFlight) (hr' : r' ∈ c.inFlight)
    (he : r.tag.toFin = r'.tag.toFin) : r = r' :=
  List.inj_on_of_nodup_map h.table.tags hr hr' he

/-- The branch resolved is the one whose entry is cleared. -/
theorem resolves_clears (h : Inv c) (i : Inputs) (hr : r ∈ c.inFlight) :
    c.resolves r = Ptab.clears (ptabIn i c.state) r.tag.toFin := by
  show ((executePkt c.state 5).packetValid && _) = ((executePkt c.state 5).packetValid && _)
  cases hv : (executePkt c.state 5).packetValid with
  | false => rfl
  | true =>
    obtain ⟨r', hr', ht⟩ := h.reading hv
    have hnumber : r'.number = c.readNumber := congrArg Token.number ht
    have htag : r'.tag = (c.state.pipeRegReadPkt 5).ptabTag := congrArg Token.tag ht
    rw [Bool.true_and, Bool.true_and, Bool.eq_iff_iff, beq_iff_eq, beq_iff_eq, ← hnumber]
    show _ ↔ r.tag.toFin = (c.state.pipeRegReadPkt 5).ptabTag.toFin
    rw [← htag]
    constructor
    · intro he
      rw [h.number_inj hr hr' he]
    · intro he
      rw [h.tag_inj hr hr' he]

/-- Only the branch that is read leaves its way. -/
theorem leaves_iff (h : Inv c) {p : Place} (hp : c.held p = some t) :
    ((executePkt c.state 5).packetValid && t.number == c.readNumber) = true ↔ c.dest p = none := by
  rw [Bool.and_eq_true, beq_iff_eq]
  constructor
  · rintro ⟨hv, hn⟩
    have hread := held_read_iff.2 ⟨show (c.state.pipeRegReadPkt 5).packetValid = true from hv, rfl⟩
    rw [(h.tracks.eq_of_key hp hread hn).1]
    rfl
  · intro hd
    cases p with
    | rename l => cases hd
    | station k =>
      rw [Config.dest] at hd
      split at hd <;> cases hd
    | issue => cases hd
    | read =>
      obtain ⟨hv, rfl⟩ := held_read_iff.1 hp
      exact ⟨hv, rfl⟩

theorem next_inFlight (hf : pipeFlush c.state = false) : (c.next i).inFlight =
    Tokens.update c.resolves ((group (c.acceptedBranch i)).map (c.record i)) c.inFlight := by
  show (if pipeFlush c.state then _ else _) = _
  rw [hf, if_neg Bool.false_ne_true]

/-- The branches on the way are those in flight. -/
theorem next_tracks (h : Inv c) (hf : pipeFlush c.state = false) :
    Tokens.Tracks Token.number (c.next i).held ((c.next i).inFlight.map Record.token) := by
  have hmap : (c.next i).inFlight.map Record.token =
      Tokens.update (fun t => (executePkt c.state 5).packetValid && t.number == c.readNumber)
        ((group (c.acceptedBranch i)).map fun l => (c.record i l).token) (c.inFlight.map Record.token) := by
    rw [next_inFlight hf, Tokens.update, Tokens.update, List.map_append, List.map_map, List.filter_map]
    rfl
  have hentered : ∀ t, (t ∈ (group (c.acceptedBranch i)).map fun l => (c.record i l).token) ↔
      ∃ l, c.acceptedBranch i l = true ∧ (c.record i l).token = t := by
    intro t
    simp only [List.mem_map, mem_group]
  rw [hmap]
  refine h.tracks.next (h.sound.moves hf) (fun p t hp => h.leaves_iff hp) (fun t => ?_) ?_
    (fun t ht t' ht' => ?_) fun q q' t hq hq' => ?_
  · rw [hentered]
    constructor
    · rintro ⟨l, hl, ht⟩
      exact ⟨.rename l, enter_iff.2 ⟨l, rfl, hl, ht⟩⟩
    · rintro ⟨q, hq⟩
      obtain ⟨l, -, hl, ht⟩ := enter_iff.1 hq
      exact ⟨l, hl, ht⟩
  · rw [List.map_map]
    exact List.Nodup.map_on (fun l hl m hm he => fetchNumber_inj (mem_group.1 hl) (mem_group.1 hm) he)
      ((List.nodup_finRange 4).filter _)
  · obtain ⟨r, hr, rfl⟩ := List.mem_map.1 ht
    obtain ⟨l, -, rfl⟩ := (hentered t').1 ht'
    exact Nat.ne_of_lt (lt_of_lt_of_le (h.below r hr) count_le_fetchNumber)
  · obtain ⟨l, rfl, hl, rfl⟩ := enter_iff.1 hq
    obtain ⟨m, rfl, hm, he⟩ := enter_iff.1 hq'
    rw [fetchNumber_inj hl hm (congrArg Token.number he).symm]

/-- The valid entries of the branch table are those of the branches in flight. -/
theorem next_table (h : Inv c) (ok : Ok i c) (hf : pipeFlush c.state = false) :
    Ptab.Stands (fun r => r.tag.toFin) (fun r => Ptab.recorded r.pkt) (c.next i).inFlight
      (c.next i).state.ptab := by
  have hgroup : c.acceptedBranch i = Ptab.records (ptabIn i c.state) c.state.ptab :=
    funext fun l => (records_eq ok l).symm
  rw [next_inFlight hf, hgroup]
  refine h.table.next (i := ptabIn i c.state) hf (fun hv => ?_) (fun r hr => h.resolves_clears i hr)
    (fun l => rfl) fun l hl => ?_
  · obtain ⟨r, hr, ht⟩ := h.reading hv
    exact ⟨r, hr, congrArg (fun t => t.tag.toFin) ht⟩
  · rw [records_eq ok] at hl
    rw [record_pkt hl]

/-- **One edge keeps the invariant.** -/
theorem next (h : Inv c) (ok : Ok i c) : Inv (c.next i) where
  sound := h.sound.next i
  tracks := by
    cases hf : pipeFlush c.state with
    | false => exact h.next_tracks hf
    | true =>
      have hnone : (c.next i).inFlight = [] := if_pos hf
      rw [hnone]
      exact Tokens.Tracks.empty fun p => Sound.held_flush hf p
  table := by
    cases hf : pipeFlush c.state with
    | false => exact h.next_table ok hf
    | true =>
      have hnone : (c.next i).inFlight = [] := if_pos hf
      rw [hnone]
      exact Ptab.Stands.flush (i := ptabIn i c.state) hf
  below := by
    intro r hr
    cases hf : pipeFlush c.state with
    | false =>
      rw [next_inFlight hf, Tokens.update, List.mem_append, List.mem_filter] at hr
      rcases hr with ⟨hr, -⟩ | hr
      · exact lt_of_lt_of_le (h.below r hr) (Nat.le_add_right _ _)
      · obtain ⟨l, hl, rfl⟩ := List.mem_map.1 hr
        exact fetchNumber_lt (mem_group.1 hl)
    | true =>
      have hnone : (c.next i).inFlight = [] := if_pos hf
      rw [hnone] at hr
      cases hr

theorem init : Inv Config.init where
  sound := Sound.init
  tracks := Tokens.Tracks.empty fun p => by cases p <;> rfl
  table := Ptab.Stands.init
  below := fun _ hr => by cases hr

end Inv

/-- Every reachable configuration keeps the invariant. -/
theorem reach_inv (h : Reach c) : Inv c :=
  Run.Reach.invariant Inv Inv.init (fun _ _ hinv ok => hinv.next ok) h

/-! ### The result -/

/-- The entry the branch unit reads was recorded for the branch it decides, and its verdict
says whether that branch was predicted right. -/
structure Decides (i : Inputs) (c : Config) (r : Record) : Prop where
  number : r.number = c.readNumber
  tag : r.tag = (c.state.pipeRegReadPkt 5).ptabTag
  inst : r.pkt.inst = (c.state.pipeRegReadPkt 5).inst
  pc : r.pkt.pc = (c.state.pipeRegReadPkt 5).pc
  entry : c.state.ptab.ptabEntry (ptabIn i c.state).bruPtabTag.toFin = Ptab.recorded r.pkt
  right : (Ptab.bruResult (ptabIn i c.state) c.state.ptab).1 = false →
    Ptab.predictedPc r.pkt = Ptab.actualPc (ptabIn i c.state) r.pkt.pc
  wrong : (Ptab.bruResult (ptabIn i c.state) c.state.ptab).1 = true →
    (Ptab.bruResult (ptabIn i c.state) c.state.ptab).2 = Ptab.actualPc (ptabIn i c.state) r.pkt.pc

/-- The branches in flight and the branch table. -/
structure Checked (i : Inputs) (c : Config) : Prop where
  tags : (c.inFlight.map Record.tag).Nodup
  entries : ∀ r ∈ c.inFlight, c.state.ptab.ptabEntry r.tag.toFin = Ptab.recorded r.pkt
  valid : ∀ k, (c.state.ptab.ptabEntry k).valid = true → ∃ r ∈ c.inFlight, r.tag.toFin = k
  places : ∀ t, t ∈ c.inFlight.map Record.token ↔ ∃ p, c.held p = some t
  refilled : c.inFlight = [] → Ptab.ptabAvailCnt c.state.ptab = 16
  decides : (ptabIn i c.state).bruValid = true → ∃ r ∈ c.inFlight, Decides i c r

/-- What reaches the branch unit is a branch in flight, compared with its own prediction. -/
theorem reading_decides (h : Reach c) (i : Inputs) (hv : (ptabIn i c.state).bruValid = true) :
    ∃ r ∈ c.inFlight, Decides i c r := by
  obtain ⟨r, hr, ht⟩ := (reach_inv h).reading hv
  have htag : r.tag = (c.state.pipeRegReadPkt 5).ptabTag := congrArg Token.tag ht
  have hentry : c.state.ptab.ptabEntry (ptabIn i c.state).bruPtabTag.toFin = Ptab.recorded r.pkt := by
    rw [← (reach_inv h).table.holds r hr]
    exact congrArg (fun t => c.state.ptab.ptabEntry t.toFin) htag.symm
  obtain ⟨hright, hwrong⟩ := Ptab.bruResult_correct hv hentry
  exact ⟨r, hr, congrArg Token.number ht, htag, congrArg Token.inst ht, congrArg Token.pc ht, hentry,
    hright, hwrong⟩

/-- **Every branch is checked against its own prediction**: in every reachable state the valid
entries are those of the branches accepted and neither resolved nor squashed, one each, and
what reaches the branch unit is compared with what was recorded for it. -/
theorem checked_own (h : Reach c) (i : Inputs) : Checked i c where
  tags := by
    have htags := (reach_inv h).table.tags
    rw [show (fun r : Record => r.tag.toFin) = BitVec.toFin ∘ Record.tag from rfl, ← List.map_map] at htags
    exact htags.of_map _
  entries := (reach_inv h).table.holds
  valid := (reach_inv h).table.valid
  places := (reach_inv h).tracks.mem
  refilled := by
    intro he
    have htable := (reach_inv h).table
    rw [he] at htable
    exact htable.refilled
  decides := reading_decides h i

/-- The branch unit reads no entry that is offered to a lane. -/
theorem resolved_apart (h : Reach c) (i : Inputs) (hready : Ptab.fetchPktReady c.state.ptab = true)
    (hv : (ptabIn i c.state).bruValid = true) (l : Lane) :
    (ptabIn i c.state).bruPtabTag.toFin ≠ Ptab.ptabTag c.state.ptab l := by
  intro he
  obtain ⟨r, -, hr⟩ := reading_decides h i hv
  have hfree := Ptab.ptabTag_free hready l
  rw [← he, hr.entry] at hfree
  cases hfree

/-- A fetched group with a taken branch in its first lane, predicted not taken, and an empty one. -/
def beqIn : Inputs where
  fetchPkt := fun l => if l = 0 then { inst := 0x00000463, branchMask := true, packetValid := true } else {}
  fireStReady := false
  fireLdReady := false
  dcacheData := 0
  dcacheLdqTag := 0
  dcacheValid := false

def emptyIn : Inputs := { beqIn with fetchPkt := fun _ => {} }

/-- An untaken branch and a taken one, both predicted not taken. -/
def pairIn : Inputs :=
  { beqIn with fetchPkt := fun l =>
      { inst := if l = 0 then 0x00001463 else 0x00000463, branchMask := true, packetValid := decide (l < 2) } }

/-- The first branch is decided four cycles after it is fetched, and the second in the next. -/
def pairRun : Config := [pairIn, beqIn, emptyIn, emptyIn, emptyIn].foldl (fun c i => c.next i) .init

/-- The second is at the unit, and that of the second group behind it. -/
theorem checked_own_pair : (ptabIn emptyIn pairRun.state).bruValid = true ∧ pairRun.inFlight.length = 2 ∧
    Checked emptyIn pairRun := by
  have hstate : (ptabIn emptyIn pairRun.state).bruValid = true ∧ pairRun.inFlight.length = 2 := by decide +kernel
  exact ⟨hstate.1, hstate.2, checked_own (Run.Reach.of_keeps _ .init (by decide +kernel)) emptyIn⟩

end R10K.Branch
