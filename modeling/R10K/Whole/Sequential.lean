import R10K.Fu.Mult
import R10K.Fu.Rv32
import R10K.Lib.Execution
import R10K.Whole.Values

/-! The committed program runs as if one instruction ran after the other.

Whatever the order in which the instructions issued and finished, the architectural
registers are what RV32 gives when the committed words are executed in program order, each
load leaving what it got. -/
namespace R10K.Whole
open Backend Lanes Rv32

/-- What the program says the registers hold before instruction `n`. -/
def Config.regs (c : Config) (n : Nat) (a : Arn) : BitVec 32 := (c.core.source n a).getD 0

/-- What the register file shows under the architectural map. -/
def Config.archRegs (c : Config) (a : Arn) : BitVec 32 :=
  Dataflow.readReg c.state.core.registers (c.state.core.spine.archRat a)

/-- A committed instruction as it ran, with what it left, and the program committed. -/
def stepOf (f : Core.Flight) : Step := ⟨f.pkt.inst, f.pkt.pc, f.result.getD 0⟩
def Config.steps (c : Config) : List Step := (c.core.trace.take c.core.committed).map stepOf

/-- All but the CSR instructions, whose register the decoder drops, and a MULHSU for which
the unsigned product does not serve. -/
def Supported (r : Reg → Word) : Instr → Prop
  | .csr _ _ _ _ => False
  | .mul .mulhsu _ rs1 rs2 => (r rs1).msb = false ∨ r rs2 = 0
  | _ => True

/-! ### A unit's answer -/

/-- A packet with the registers its word names in place of its operands' values. -/
def filled (regs : Arn → BitVec 32) (p : RegReadPacket) : RegReadPacket :=
  { p with op1Val := regs (p.inst.extractLsb' 15 5), op2Val := regs (p.inst.extractLsb' 20 5) }

section
variable {c : Config} {i : Instr} {p : RegReadPacket} {n : Nat} {f : Core.Flight}

theorem carries (hm : Core.Made f) (hp : Packet c p n f) (alu : BitVec 2) : Fu.Carries (c.regs n)
    (Decoder.decode { inst := f.pkt.inst, pc := f.pkt.pc, packetValid := true } alu) (filled (c.regs n) p) where
  inst := hp.inst
  pc := hp.pc
  opType := hp.opType.trans hm.opType
  op1Val := congrArg (fun w => c.regs n (BitVec.extractLsb' 15 5 w)) hp.inst
  op2Val := congrArg (fun w => c.regs n (BitVec.extractLsb' 20 5 w)) hp.inst
  op1Select := hp.op1Select.trans hm.op1Select
  op2Select := hp.op2Select.trans hm.op2Select
  condBranch := hp.condBranch.trans hm.condBranch
  uncondBranch := hp.uncondBranch.trans hm.uncondBranch

/-- A used operand is read from the register its word names. -/
theorem op1_used (hm : Core.Made f) (hp : Packet c p n f) (huse : f.pkt.useOp .op1 = true) :
    (filled (c.regs n) p).op1Val = p.op1Val := by
  have hv := hp.value .op1 huse
  rw [hm.op1Arn, ← hp.inst] at hv
  show (c.core.source n _).getD 0 = _
  rw [hv]
  rfl

theorem op2_used (hm : Core.Made f) (hp : Packet c p n f) (huse : f.pkt.useOp .op2 = true) :
    (filled (c.regs n) p).op2Val = p.op2Val := by
  have hv := hp.value .op2 huse
  rw [hm.op2Arn, ← hp.inst] at hv
  show (c.core.source n _).getD 0 = _
  rw [hv]
  rfl

/-- The unit sees the same operands. -/
theorem filled_muxes (hm : Core.Made f) (hp : Packet c p n f)
    (hrun : (Decoder.control f.pkt.inst).illegal = false ∧ (Decoder.control f.pkt.inst).halt = false) :
    Fu.op1MuxOut (filled (c.regs n) p) = Fu.op1MuxOut p ∧ Fu.op2MuxOut (filled (c.regs n) p) = Fu.op2MuxOut p := by
  have h1 : (filled (c.regs n) p).op1Select = p.op1Select := rfl
  have h2 : (filled (c.regs n) p).op2Select = p.op2Select := rfl
  constructor
  · rw [Fu.op1MuxOut, Fu.op1MuxOut, h1]
    cases hs : p.op1Select with
    | rs1 =>
      refine op1_used hm hp ?_
      rw [hm.useOp1, ← hm.op1Select, ← hp.op1Select, hs, hrun.1, hrun.2]
      rfl
    | npc | pc | zero => rfl
  · rw [Fu.op2MuxOut, Fu.op2MuxOut, h2]
    cases hs : p.op2Select with
    | rs2 =>
      refine op2_used hm hp ?_
      rw [hm.useOp2, ← hm.op2Select, ← hp.op2Select, hs, hrun.1, hrun.2]
      rfl
    | iImm | sImm | bImm | uImm | jImm => rfl

/-- The control signals of an instruction's word. -/
theorem control_of (hi : encode i = f.pkt.inst) : Decoder.control f.pkt.inst = Decoder.controlOf i := by
  rw [← hi, Decoder.control_encode]

/-- An instruction that computes a value neither halts nor is illegal. -/
theorem computes {pc loaded : Word} {r : Reg → Word} {v : Word} (h : i.result pc loaded r = some v) :
    (Decoder.controlOf i).illegal = false ∧ (Decoder.controlOf i).halt = false := by
  cases i with
  | branch | store | csr | wfi => cases h
  | _ => exact ⟨rfl, rfl⟩

/-- **A unit's answer is the instruction's result.** -/
theorem unit_result (hm : Core.Made f) (hp : Packet c p n f) (hi : encode i = f.pkt.inst)
    (hs : Supported (c.regs n) i) (hload : f.pkt.rdMem = false) {loaded v : Word}
    (hv : i.result f.pkt.pc loaded (c.regs n) = some v) : (unitAnswer f.pkt.fuId.way p).result = v := by
  obtain ⟨alu, hfu⟩ := hm.fuId
  have hctl := control_of hi
  have hrun := computes hv
  rw [← hctl] at hrun
  obtain ⟨h1, h2⟩ := filled_muxes hm hp hrun
  rw [hctl] at hfu
  have hc := carries hm hp alu
  have hadder : ∀ v, i.value f.pkt.pc (c.regs n) = some v → (unitAnswer f.pkt.fuId.way p).result = v := by
    intro v hval
    have hway := Fu.fuId_value alu hval
    rw [← hfu] at hway
    have hne : f.pkt.fuId.way ≠ 4 := fun he => by
      rw [he] at hway
      exact absurd hway (by decide)
    rw [unitAnswer, if_neg hne, Fu.executePkt_alu _ _ hway, ← h1, ← h2]
    exact Fu.alu_value rfl hi hc hval
  cases i with
  | lui rd imm => exact hadder v hv
  | auipc rd imm => exact hadder v hv
  | opImm op rd rs1 imm => exact hadder v hv
  | shiftImm op rd rs1 shamt => exact hadder v hv
  | reg op rd rs1 rs2 => exact hadder v hv
  | jal rd offset =>
    obtain rfl := Option.some.inj hv
    rw [hfu]
    exact congrArg (· + 4) hp.pc
  | jalr rd rs1 imm =>
    obtain rfl := Option.some.inj hv
    rw [hfu]
    exact congrArg (· + 4) hp.pc
  | mul op rd rs1 rs2 =>
    obtain rfl := Option.some.inj hv
    have hop : p.opType = Decoder.mulFunc op := by
      rw [hp.opType, hm.opType, hctl]
      rfl
    have hway : f.pkt.fuId.way = 4 := by
      rw [hfu]
      cases op <;> rfl
    have hr1 : Fu.op1MuxOut p = c.regs n rs1 := by
      rw [← h1]
      exact Fu.op1MuxOut_rs1 rfl hi hc rfl rfl
    have hr2 : Fu.op2MuxOut p = c.regs n rs2 := by
      rw [← h2]
      exact Fu.op2MuxOut_rs2 rfl hi hc rfl rfl
    rw [unitAnswer, hway, if_pos rfl, ← hr1, ← hr2]
    refine (Fu.multResult_eq_iff hop).2 fun hsu => ?_
    have hfunc : Decoder.mulFunc op = Decoder.mulFunc .mulhsu := hop.symm.trans hsu
    obtain rfl := Fu.mulFunc_injective hfunc
    rw [hr1, hr2]
    exact hs
  | load op rd rs1 imm =>
    rw [hm.rdMem, hctl] at hload
    cases hload
  | branch | store | csr | wfi => cases hv

/-! ### A step of the program -/

/-- What an instruction leaves in the program's registers. -/
theorem regs_next (hn : c.core.trace[n]? = some f) (a : Arn) : c.regs (n + 1) a =
    if a = f.pkt.destArn ∧ a ≠ 0 then f.result.getD 0 else c.regs n a := by
  have hget : c.core.ops[n]? = some f.op := by
    rw [Core.Config.ops, List.getElem?_map, hn]
    rfl
  have hsource : c.core.source (n + 1) = Dataflow.assign (c.core.source n) f.op := by
    rw [Core.Config.source, Core.Config.source, List.take_add_one, hget, Dataflow.values_append]
    rfl
  rw [Config.regs, Config.regs, hsource, Dataflow.assign]
  split <;> split <;> first | rfl | contradiction

/-- The register an instruction writes, unless it is a CSR instruction. -/
theorem destArn_of (hm : Core.Made f) (hi : encode i = f.pkt.inst) (hs : Supported (c.regs n) i) :
    f.pkt.destArn = i.rd.getD 0 := by
  rw [hm.destArn, control_of hi]
  cases i with
  | branch | store | wfi => rfl
  | csr => cases hs
  | _ =>
    rw [← hi]
    exact encode_rd rfl

/-- An instruction that writes a register computes something for it. -/
theorem writer_computes {rd : Reg} (hrd : i.rd = some rd) (hs : Supported (c.regs n) i) (pc loaded : Word) :
    ∃ v, i.result pc loaded (c.regs n) = some v := by
  cases i with
  | branch | store | wfi => cases hrd
  | csr => cases hs
  | _ => exact ⟨_, rfl⟩

/-- What an instruction that has left the buffer has left in its register. -/
theorem result_of (h : Inv c) (hcomp : Computed c) (hn : c.core.trace[n]? = some f) (hlt : n < c.core.base)
    (hdest : f.pkt.destArn ≠ 0) (hi : encode i = f.pkt.inst) (hs : Supported (c.regs n) i) {v : Word}
    (hv : i.result f.pkt.pc (f.result.getD 0) (c.regs n) = some v) : f.result.getD 0 = v := by
  have hm := h.decoded.made f (List.mem_of_getElem? hn)
  obtain ⟨x, hx⟩ := Option.isSome_iff_exists.1 (h.core.settled n f hlt hn hdest)
  cases hload : f.pkt.rdMem with
  | true =>
    rw [hm.rdMem, control_of hi] at hload
    cases i with
    | load => exact Option.some.inj hv
    | mul op => cases op <;> cases hload
    | opImm op => cases op <;> cases hload
    | shiftImm op => cases op <;> cases hload
    | reg op => cases op <;> cases hload
    | _ => cases hload
  | false =>
    obtain ⟨p, hp, he⟩ := hcomp n f x hn hx hload
    rw [hx, Option.getD_some, he]
    exact unit_result hm hp hi hs hload hv

/-- **An instruction that has left the buffer has been performed**, on the registers the
program gave it. -/
theorem performs (h : Inv c) (hcomp : Computed c) (hn : c.core.trace[n]? = some f) (hlt : n < c.core.base)
    (hs : ∀ i, encode i = f.pkt.inst → Supported (c.regs n) i) :
    (stepOf f).Performs (c.regs n) (c.regs (n + 1)) := by
  have hm := h.decoded.made f (List.mem_of_getElem? hn)
  have hkeeps : ∀ {a : Arn} {x : BitVec 32}, f.pkt.destArn = 0 →
      (if a = f.pkt.destArn ∧ a ≠ 0 then x else c.regs n a) = c.regs n a := fun h0 =>
    if_neg fun ha => ha.2 (ha.1.trans h0)
  constructor
  · intro i hi
    have hi' : encode i = f.pkt.inst := hi
    have hdest := destArn_of hm hi' (hs i hi')
    funext a
    rw [regs_next hn, Instr.exec]
    cases hrd : i.rd with
    | none =>
      rw [hrd] at hdest
      exact hkeeps hdest
    | some rd =>
      rw [hrd] at hdest
      obtain ⟨v, hv⟩ := writer_computes hrd (hs i hi') f.pkt.pc (f.result.getD 0)
      have hv' : i.result (stepOf f).pc (stepOf f).loaded (c.regs n) = some v := hv
      rw [hv', hdest]
      by_cases ha : a = rd ∧ a ≠ 0
      · rw [Option.getD_some, if_pos ha]
        show _ = if a = rd ∧ a ≠ 0 then v else _
        rw [if_pos ha]
        exact result_of h hcomp hn hlt (by rw [hdest]; exact ha.1 ▸ ha.2) hi' (hs i hi') hv
      · rw [Option.getD_some, if_neg ha]
        exact (if_neg ha).symm
  · intro hno
    have hill : (Decoder.control f.pkt.inst).illegal = true := (Decoder.illegal_iff _).2 hno
    have hdest : f.pkt.destArn = 0 := by
      refine h.core.plain f (List.mem_of_getElem? hn) ?_
      rw [Core.finishes, hm.illegal, hill, Bool.or_true]
    funext a
    rw [regs_next hn]
    exact hkeeps hdest

/-! ### The result -/

theorem committed_le (h : Inv c) : c.core.committed ≤ c.core.trace.length := by
  have hle : c.core.committed ≤ c.core.spine.program.length := h.core.spine.committed
  rwa [Core.length_ops] at hle

theorem steps_length (h : Inv c) : c.steps.length = c.core.committed := by
  rw [Config.steps, List.length_map, List.length_take, Nat.min_eq_left (committed_le h)]

/-- A step is a committed instruction. -/
theorem steps_get {s : Step} (hn : c.steps[n]? = some s) :
    ∃ f, c.core.trace[n]? = some f ∧ n < c.core.committed ∧ stepOf f = s := by
  rw [Config.steps, List.getElem?_map] at hn
  obtain ⟨f, hf, rfl⟩ := Option.map_eq_some_iff.1 hn
  have hlt : n < c.core.committed := by
    have := (List.getElem?_eq_some_iff.1 hf).1
    rw [List.length_take] at this
    omega
  rw [List.getElem?_take_of_lt hlt] at hf
  exact ⟨f, hf, hlt, rfl⟩

theorem steps_perform (h : Inv c) (hcomp : Computed c) (n : Nat) (s : Step) (hn : c.steps[n]? = some s)
    (hs : ∀ i, encode i = s.word → Supported (c.regs n) i) : s.Performs (c.regs n) (c.regs (n + 1)) := by
  obtain ⟨f, hf, hlt, rfl⟩ := steps_get hn
  exact performs h hcomp hf (Nat.lt_of_lt_of_le hlt (Nat.le_add_right _ _)) hs

/-- The architectural registers are the program's. -/
theorem archRegs_eq (h : Inv c) : c.archRegs = c.regs c.steps.length := by
  funext a
  have ha : c.core.source c.core.committed a = some (c.archRegs a) := h.core.faithful.arch a
  rw [steps_length h, Config.regs, ha]
  rfl

/-- **The committed program runs in order**: in every state of a run the architectural
registers are what the committed words leave when they are executed one after the other,
each load leaving what it got. -/
theorem runs_in_order (h : Reach c) (hs : Always Supported (fun _ => 0) c.steps) :
    Executes (fun _ => 0) c.steps c.archRegs := by
  obtain ⟨hinv, -, hcomp⟩ := Valued.of_reach h
  rw [archRegs_eq hinv]
  exact @Executes.of_steps Supported c.steps c.regs hs (steps_perform hinv hcomp)

/-- What the decoder says is enough. -/
theorem supported_of {r : Reg → Word} {w : Word} (hi : encode i = w) (hcsr : (Decoder.control w).csrOp = false)
    (hmul : (Decoder.control w).aluFunc ≠ .mulhsu) : Supported r i := by
  rw [← hi, Decoder.control_encode] at hcsr hmul
  cases i with
  | csr => cases hcsr
  | mul op =>
    cases op with
    | mulhsu => exact absurd rfl hmul
    | _ => trivial
  | _ => trivial

theorem pairAfter_words : ∀ s ∈ (pairAfter 12).steps,
    (Decoder.control s.word).csrOp = false ∧ (Decoder.control s.word).aluFunc ≠ .mulhsu := by decide +kernel

theorem runs_in_order_pair : (pairAfter 12).archRegs 2 = 10 ∧
    Executes (fun _ => 0) (pairAfter 12).steps (pairAfter 12).archRegs := by
  refine ⟨by decide +kernel, runs_in_order (pairAfter_reach 12 (Nat.le_refl _)) fun n r s i _ hn hi => ?_⟩
  obtain ⟨hcsr, hmul⟩ := pairAfter_words s (List.mem_of_getElem? hn)
  exact supported_of hi hcsr hmul

end

end R10K.Whole
