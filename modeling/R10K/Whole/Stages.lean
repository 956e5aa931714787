import R10K.Lib.Tokens
import R10K.Rs.Once
import R10K.Whole.Log

/-! The way from the stations to the units.

What an instruction is to do stands in a station until it issues, and then for a cycle each
in the issue register and in the register-read register; a multiplication takes two more.
Without a flush nothing is dropped on the way, nothing is copied, and nothing is changed. -/
namespace R10K

/-! ### A bank -/

namespace Rs
variable {m : Nat} {b : State m} {i : Inputs}

/-- What stands in a station after an edge is what is loaded now, or what did not issue. -/
theorem stands_iff (h : Awake b) (hf : i.pipeFlush = false) {k : Fin (2 ^ m)} {p : IssuePacket} :
    (((next i b).entry k).inUse = true ∧ toIssue ((next i b).entry k).pkt = p) ↔
      ((dispatchPktN i b k).packetValid = true ∧ toIssue (dispatchPktN i b k) = p) ∨
        ((b.entry k).inUse = true ∧ issueEn b k = false ∧ toIssue (b.entry k).pkt = p) := by
  constructor
  · rintro ⟨huse, rfl⟩
    obtain ⟨-, ⟨l, hv, hl, hpkt⟩ | ⟨hold, hen, hpkt⟩⟩ := next_holds huse
    · left
      rw [dispatchPktN_eq hl]
      exact ⟨hv, hpkt.symm⟩
    · exact .inr ⟨hold, hen, hpkt.symm⟩
  · rintro (⟨hv, rfl⟩ | ⟨hold, hen, rfl⟩)
    · obtain ⟨l, hl, heq⟩ := dispatchPktN_valid hv
      rw [heq] at hv ⊢
      exact next_load h hf hl hv
    · exact next_keep hf hold hen

/-- What a lane issues is what stands in a station of its unit that issues. -/
theorem issued_iff (h : Awake b) {w : Way} {p : IssuePacket} :
    ((issuePkt b w).packetValid = true ∧ issuePkt b w = p) ↔
      ∃ k, (b.entry k).inUse = true ∧ issueEn b k = true ∧ (b.entry k).pkt.fuId.way = w ∧
        toIssue (b.entry k).pkt = p := by
  constructor
  · rintro ⟨hv, rfl⟩
    obtain ⟨k, hk, -, -⟩ := issuePkt_valid h hv
    obtain ⟨huse, hway⟩ := h.way hk
    exact ⟨k, huse, issueEn_iff.2 ⟨w, hk⟩, hway, (issuePkt_eq hk).symm⟩
  · rintro ⟨k, huse, hen, hway, rfl⟩
    obtain ⟨w', hk⟩ := issueEn_iff.1 hen
    obtain rfl : w' = w := (h.way hk).2.symm.trans hway
    rw [issuePkt_eq hk]
    exact ⟨rfl, rfl⟩

end Rs

namespace Whole
open Backend

/-- What goes along unchanged from the station to the unit. -/
structure Work where
  inst : BitVec 32
  pc : BitVec 32
  opType : AluFunc
  destPrn : Prn
  op1Select : AluOpaSelect
  op2Select : AluOpbSelect
  rdMem : Bool
  wrMem : Bool
  condBranch : Bool
  uncondBranch : Bool
  robEntry : RobTag
  stqTag : StqTag
  ldqTag : LdqTag
deriving DecidableEq

def Work.ofIssue (p : IssuePacket) : Work :=
  ⟨p.inst, p.pc, p.opType, p.destPrn, p.op1Select, p.op2Select, p.rdMem, p.wrMem, p.condBranch, p.uncondBranch,
    p.robEntry, p.stqTag, p.ldqTag⟩

def Work.ofRead (p : RegReadPacket) : Work :=
  ⟨p.inst, p.pc, p.opType, p.destPrn, p.op1Select, p.op2Select, p.rdMem, p.wrMem, p.condBranch, p.uncondBranch,
    p.robEntry, p.stqTag, p.ldqTag⟩

/-- A station of either bank, a lane of either register, a stage of the multiplier. -/
inductive Stage where
  | int (k : Fin 16)
  | mem (k : Fin 8)
  | issue (w : Way)
  | read (w : Way)
  | mult0
  | mult1
deriving DecidableEq

namespace Config

def work (c : Config) : Stage → Option Work
  | .int k =>
    let e := c.state.core.rsInt.entry k
    if e.inUse then some (.ofIssue (Rs.toIssue e.pkt)) else none
  | .mem k =>
    let e := c.state.core.rsMem.entry k
    if e.inUse then some (.ofIssue (Rs.toIssue e.pkt)) else none
  | .issue w =>
    let p := c.state.core.pipeIssuePkt w
    if p.packetValid then some (.ofIssue p) else none
  | .read w =>
    let p := c.state.pipeRegReadPkt w
    if p.packetValid then some (.ofRead p) else none
  | .mult0 => if c.state.fu.stage0.pkt.packetValid then some (.ofRead c.state.fu.stage0.pkt) else none
  | .mult1 => if c.state.fu.stage1.pkt.packetValid then some (.ofRead c.state.fu.stage1.pkt) else none

/-- Where the work of a stage goes; from the last ones a unit answers. -/
def forth (c : Config) : Stage → Option Stage
  | .int k =>
    if Rs.issueEn c.state.core.rsInt k then some (.issue (c.state.core.rsInt.entry k).pkt.fuId.way)
    else some (.int k)
  | .mem k =>
    if Rs.issueEn c.state.core.rsMem k then some (.issue (c.state.core.rsMem.entry k).pkt.fuId.way)
    else some (.mem k)
  | .issue w => some (.read w)
  | .read w => if w = 4 then some .mult0 else none
  | .mult0 => some .mult1
  | .mult1 => none

def intIn (i : Inputs) (c : Config) : Rs.Inputs := c.backend.intIn i
def memIn (i : Inputs) (c : Config) : Rs.Inputs := c.backend.memIn i

/-- What is dispatched is loaded into the stations. -/
def loaded (i : Inputs) (c : Config) : Stage → Option Work
  | .int k =>
    let p := Rs.dispatchPktN (c.intIn i) c.state.core.rsInt k
    if p.packetValid then some (.ofIssue (Rs.toIssue p)) else none
  | .mem k =>
    let p := Rs.dispatchPktN (c.memIn i) c.state.core.rsMem k
    if p.packetValid then some (.ofIssue (Rs.toIssue p)) else none
  | _ => none

end Config

/-- The banks keep to their units. -/
structure Sorted (c : Config) : Prop where
  int : Rs.Awake c.state.core.rsInt
  mem : Rs.Awake c.state.core.rsMem
  intUnit : ∀ k, (c.state.core.rsInt.entry k).inUse = true → (c.state.core.rsInt.entry k).pkt.fuId ≠ .agu0
  memUnit : ∀ k, (c.state.core.rsMem.entry k).inUse = true → (c.state.core.rsMem.entry k).pkt.fuId = .agu0

section
variable {c : Config} {i : Inputs} {x : Work}

theorem work_int {k : Fin 16} : c.work (.int k) = some x ↔ (c.state.core.rsInt.entry k).inUse = true ∧
    Work.ofIssue (Rs.toIssue (c.state.core.rsInt.entry k).pkt) = x := by
  simp [Config.work]

theorem work_mem {k : Fin 8} : c.work (.mem k) = some x ↔ (c.state.core.rsMem.entry k).inUse = true ∧
    Work.ofIssue (Rs.toIssue (c.state.core.rsMem.entry k).pkt) = x := by
  simp [Config.work]

theorem work_issue {w : Way} : c.work (.issue w) = some x ↔ (c.state.core.pipeIssuePkt w).packetValid = true ∧
    Work.ofIssue (c.state.core.pipeIssuePkt w) = x := by
  simp [Config.work]

theorem work_read {w : Way} : c.work (.read w) = some x ↔ (c.state.pipeRegReadPkt w).packetValid = true ∧
    Work.ofRead (c.state.pipeRegReadPkt w) = x := by
  simp [Config.work]

theorem work_mult0 : c.work .mult0 = some x ↔ c.state.fu.stage0.pkt.packetValid = true ∧
    Work.ofRead c.state.fu.stage0.pkt = x := by
  simp [Config.work]

theorem work_mult1 : c.work .mult1 = some x ↔ c.state.fu.stage1.pkt.packetValid = true ∧
    Work.ofRead c.state.fu.stage1.pkt = x := by
  simp [Config.work]

theorem loaded_int {k : Fin 16} : c.loaded i (.int k) = some x ↔
    (Rs.dispatchPktN (c.intIn i) c.state.core.rsInt k).packetValid = true ∧
      Work.ofIssue (Rs.toIssue (Rs.dispatchPktN (c.intIn i) c.state.core.rsInt k)) = x := by
  simp [Config.loaded]

theorem loaded_mem {k : Fin 8} : c.loaded i (.mem k) = some x ↔
    (Rs.dispatchPktN (c.memIn i) c.state.core.rsMem k).packetValid = true ∧
      Work.ofIssue (Rs.toIssue (Rs.dispatchPktN (c.memIn i) c.state.core.rsMem k)) = x := by
  simp [Config.loaded]

theorem way_lt {u : FuId} (h : u ≠ .agu0) : u.way < 6 := by
  cases u <;> first | decide | exact absurd rfl h

theorem way_ne {u : FuId} (h : u = .agu0) : ¬ u.way < 6 := by
  subst h
  decide

/-! Where the work of a place comes from. -/

theorem forth_int {s : Stage} {k : Fin 16} (h : c.forth s = some (.int k)) :
    s = .int k ∧ Rs.issueEn c.state.core.rsInt k = false := by
  cases s <;> grind [Config.forth]

theorem forth_mem {s : Stage} {k : Fin 8} (h : c.forth s = some (.mem k)) :
    s = .mem k ∧ Rs.issueEn c.state.core.rsMem k = false := by
  cases s <;> grind [Config.forth]

theorem forth_read {s : Stage} {w : Way} (h : c.forth s = some (.read w)) : s = .issue w := by
  cases s <;> grind [Config.forth]

theorem forth_mult0 {s : Stage} (h : c.forth s = some .mult0) : s = .read 4 := by
  cases s <;> grind [Config.forth]

theorem forth_mult1 {s : Stage} (h : c.forth s = some .mult1) : s = .mult0 := by
  cases s <;> grind [Config.forth]

namespace Sorted

/-- The work in a bank after an edge. -/
theorem work_int_next (h : Sorted c) (hf : pipeFlush c.state = false) {k : Fin 16} :
    (c.next i).work (.int k) = some x ↔ c.loaded i (.int k) = some x ∨
      (c.work (.int k) = some x ∧ Rs.issueEn c.state.core.rsInt k = false) := by
  have hiff := fun p => Rs.stands_iff (i := c.intIn i) (k := k) (p := p) h.int hf
  rw [work_int, loaded_int, work_int]
  constructor
  · rintro ⟨huse, rfl⟩
    rcases (hiff _).1 ⟨huse, rfl⟩ with ⟨hv, hp⟩ | ⟨hold, hen, hp⟩
    · exact .inl ⟨hv, congrArg Work.ofIssue hp⟩
    · exact .inr ⟨⟨hold, congrArg Work.ofIssue hp⟩, hen⟩
  · rintro (⟨hv, rfl⟩ | ⟨⟨hold, rfl⟩, hen⟩)
    · obtain ⟨huse, hp⟩ := (hiff _).2 (.inl ⟨hv, rfl⟩)
      exact ⟨huse, congrArg Work.ofIssue hp⟩
    · obtain ⟨huse, hp⟩ := (hiff _).2 (.inr ⟨hold, hen, rfl⟩)
      exact ⟨huse, congrArg Work.ofIssue hp⟩

theorem work_mem_next (h : Sorted c) (hf : pipeFlush c.state = false) {k : Fin 8} :
    (c.next i).work (.mem k) = some x ↔ c.loaded i (.mem k) = some x ∨
      (c.work (.mem k) = some x ∧ Rs.issueEn c.state.core.rsMem k = false) := by
  have hiff := fun p => Rs.stands_iff (i := c.memIn i) (k := k) (p := p) h.mem hf
  rw [work_mem, loaded_mem, work_mem]
  constructor
  · rintro ⟨huse, rfl⟩
    rcases (hiff _).1 ⟨huse, rfl⟩ with ⟨hv, hp⟩ | ⟨hold, hen, hp⟩
    · exact .inl ⟨hv, congrArg Work.ofIssue hp⟩
    · exact .inr ⟨⟨hold, congrArg Work.ofIssue hp⟩, hen⟩
  · rintro (⟨hv, rfl⟩ | ⟨⟨hold, rfl⟩, hen⟩)
    · obtain ⟨huse, hp⟩ := (hiff _).2 (.inl ⟨hv, rfl⟩)
      exact ⟨huse, congrArg Work.ofIssue hp⟩
    · obtain ⟨huse, hp⟩ := (hiff _).2 (.inr ⟨hold, hen, rfl⟩)
      exact ⟨huse, congrArg Work.ofIssue hp⟩

/-- A lane of the issue register takes the work of the station that issues on it. -/
theorem work_issue_next (h : Sorted c) (hf : pipeFlush c.state = false) {w : Way} :
    (c.next i).work (.issue w) = some x ↔ ∃ s, c.work s = some x ∧ c.forth s = some (.issue w) := by
  have hreg : (c.next i).state.core.pipeIssuePkt w = Core.issuePkt c.state.core w := by
    show (if pipeFlush c.state then _ else _) = _
    rw [hf, if_neg Bool.false_ne_true]
    rfl
  rw [work_issue, hreg, Core.issuePkt]
  constructor
  · rintro ⟨hv, rfl⟩
    split at hv
    · rename_i hw
      obtain ⟨k, huse, hen, hway, hp⟩ := (Rs.issued_iff h.int).1 ⟨hv, rfl⟩
      refine ⟨.int k, work_int.2 ⟨huse, ?_⟩, ?_⟩
      · rw [if_pos hw, hp]
      · rw [Config.forth, if_pos hen, hway]
    · rename_i hw
      obtain ⟨k, huse, hen, hway, hp⟩ := (Rs.issued_iff h.mem).1 ⟨hv, rfl⟩
      refine ⟨.mem k, work_mem.2 ⟨huse, ?_⟩, ?_⟩
      · rw [if_neg hw, hp]
      · rw [Config.forth, if_pos hen, hway]
  · rintro ⟨s, hs, hd⟩
    cases s with
    | int k =>
      obtain ⟨huse, rfl⟩ := work_int.1 hs
      rw [Config.forth] at hd
      split at hd
      · rename_i hen
        cases hd
        rw [if_pos (way_lt (h.intUnit k huse))]
        obtain ⟨hv, hp⟩ := (Rs.issued_iff h.int).2 ⟨k, huse, hen, rfl, rfl⟩
        exact ⟨hv, congrArg Work.ofIssue hp⟩
      · cases hd
    | mem k =>
      obtain ⟨huse, rfl⟩ := work_mem.1 hs
      rw [Config.forth] at hd
      split at hd
      · rename_i hen
        cases hd
        rw [if_neg (way_ne (h.memUnit k huse))]
        obtain ⟨hv, hp⟩ := (Rs.issued_iff h.mem).2 ⟨k, huse, hen, rfl, rfl⟩
        exact ⟨hv, congrArg Work.ofIssue hp⟩
      · cases hd
    | issue v => cases hd
    | read v =>
      rw [Config.forth] at hd
      split at hd <;> cases hd
    | mult0 => cases hd
    | mult1 => cases hd

end Sorted

/-- What is issued reads its registers; lane 4 goes through the multiplier. -/
theorem work_read_next (hf : pipeFlush c.state = false) {w : Way} :
    (c.next i).work (.read w) = c.work (.issue w) := by
  have hreg : (c.next i).state.pipeRegReadPkt w = Core.regReadPkt (c.coreIn i) c.state.core w := by
    show (if pipeFlush c.state then _ else _) = _
    rw [hf, if_neg Bool.false_ne_true]
    rfl
  simp only [Config.work, hreg]
  rfl

theorem work_mult0_next (hf : pipeFlush c.state = false) : (c.next i).work .mult0 = c.work (.read 4) := by
  have hreg : (c.next i).state.fu.stage0 = Fu.multIn (c.state.pipeRegReadPkt 4) := by
    show (if pipeFlush c.state then _ else _) = _
    rw [hf, if_neg Bool.false_ne_true]
    rfl
  simp only [Config.work, hreg]
  rfl

theorem work_mult1_next (hf : pipeFlush c.state = false) : (c.next i).work .mult1 = c.work .mult0 := by
  have hreg : (c.next i).state.fu.stage1 = c.state.fu.stage0 := by
    show (if pipeFlush c.state then _ else _) = _
    rw [hf, if_neg Bool.false_ne_true]
    rfl
  simp only [Config.work, hreg]

/-- **Work moves along its way and nowhere else.** -/
theorem Sorted.moves (h : Sorted c) (hf : pipeFlush c.state = false) :
    Tokens.Moves c.work (c.next i).work c.forth (c.loaded i) := by
  intro q x
  cases q with
  | int k =>
    rw [h.work_int_next hf]
    refine or_congr_right ⟨fun ⟨hw, hen⟩ => ⟨.int k, hw, ?_⟩, ?_⟩
    · rw [Config.forth, hen, if_neg Bool.false_ne_true]
    · rintro ⟨s, hs, hd⟩
      obtain ⟨rfl, hen⟩ := forth_int hd
      exact ⟨hs, hen⟩
  | mem k =>
    rw [h.work_mem_next hf]
    refine or_congr_right ⟨fun ⟨hw, hen⟩ => ⟨.mem k, hw, ?_⟩, ?_⟩
    · rw [Config.forth, hen, if_neg Bool.false_ne_true]
    · rintro ⟨s, hs, hd⟩
      obtain ⟨rfl, hen⟩ := forth_mem hd
      exact ⟨hs, hen⟩
  | issue w =>
    rw [h.work_issue_next hf]
    exact ⟨.inr, fun he => he.resolve_left nofun⟩
  | read w =>
    rw [work_read_next hf]
    refine ⟨fun hw => .inr ⟨.issue w, hw, rfl⟩, fun he => ?_⟩
    obtain ⟨s, hs, hd⟩ := he.resolve_left nofun
    obtain rfl := forth_read hd
    exact hs
  | mult0 =>
    rw [work_mult0_next hf]
    refine ⟨fun hw => .inr ⟨.read 4, hw, rfl⟩, fun he => ?_⟩
    obtain ⟨s, hs, hd⟩ := he.resolve_left nofun
    obtain rfl := forth_mult0 hd
    exact hs
  | mult1 =>
    rw [work_mult1_next hf]
    refine ⟨fun hw => .inr ⟨.mult0, hw, rfl⟩, fun he => ?_⟩
    obtain ⟨s, hs, hd⟩ := he.resolve_left nofun
    obtain rfl := forth_mult1 hd
    exact hs

end

end Whole

end R10K
