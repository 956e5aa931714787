import R10K.Fu.Model
import R10K.Rename.Encodings

/-! Decoding and execution against RV32I.

A packet that carries a decoded instruction brings its fields and the registers it
names; what the adders, the branch unit and the address unit make of it is compared
with the instruction whose word was decoded. -/
namespace R10K.Fu
open Rv32 Decoder

/-- A packet carries a decoded instruction and the values of the registers it names. -/
structure Carries (regs : Arn → BitVec 32) (d : DecodePacket) (p : RegReadPacket) : Prop where
  inst : p.inst = d.inst
  pc : p.pc = d.pc
  opType : p.opType = d.opType
  op1Val : p.op1Val = regs d.op1Arn
  op2Val : p.op2Val = regs d.op2Arn
  op1Select : p.op1Select = d.op1Select
  op2Select : p.op2Select = d.op2Select
  condBranch : p.condBranch = d.condBranch
  uncondBranch : p.uncondBranch = d.uncondBranch

/-! ### The decoded word -/

section Decoded
variable {f : FetchPacket} {i : Instr} {pc : Word} {regs : Arn → BitVec 32} {p : RegReadPacket}

/-- The control signals of a valid lane are those of the instruction its word encodes. -/
theorem control_valid (hv : f.packetValid = true) (hi : encode i = f.inst) :
    (if f.packetValid then control f.inst else {}) = controlOf i := by
  rw [if_pos hv, ← hi, control_encode]

variable {alu : BitVec 2} (hv : f.packetValid = true) (hi : encode i = f.inst)
  (hc : Carries regs (decode f alu) p)
include hv hi hc

theorem Carries.op1Select_eq : p.op1Select = (controlOf i).opaSelect := by
  rw [hc.op1Select, ← control_valid hv hi]
  rfl

theorem Carries.op2Select_eq : p.op2Select = (controlOf i).opbSelect := by
  rw [hc.op2Select, ← control_valid hv hi]
  rfl

theorem Carries.opType_eq : p.opType = (controlOf i).aluFunc := by
  rw [hc.opType, ← control_valid hv hi]
  rfl

theorem Carries.condBranch_eq : p.condBranch = (controlOf i).condBranch := by
  rw [hc.condBranch, ← control_valid hv hi]
  rfl

theorem Carries.uncondBranch_eq : p.uncondBranch = (controlOf i).uncondBranch := by
  rw [hc.uncondBranch, ← control_valid hv hi]
  rfl

omit hv in
theorem Carries.op1Val_eq {r : Reg} (h : i.rs1 = some r) : p.op1Val = regs r := by
  rw [hc.op1Val, ← encode_rs1 h, hi]
  rfl

omit hv in
theorem Carries.op2Val_eq {r : Reg} (h : i.rs2 = some r) : p.op2Val = regs r := by
  rw [hc.op2Val, ← encode_rs2 h, hi]
  rfl

omit hv in
theorem Carries.inst_eq : p.inst = encode i := by
  rw [hc.inst, hi]
  rfl

end Decoded

/-! ### Immediates -/

section Immediates
variable (imm : BitVec 12) (upper offset : BitVec 20) (rs2 rs1 rd : Reg) (f3 : BitVec 3) (op : BitVec 7)

theorem iImm_iType : iImm (iType imm rs1 f3 rd op) = immWord imm := by
  rw [iImm, iType_imm, immWord_eq]

theorem sImm_sType : sImm (sType imm rs2 rs1 f3 op) = immWord imm := by
  rw [sImm, sType_imm, immWord_eq]

theorem bImm_bType : bImm (bType imm rs2 rs1 f3 op) = offsetWord imm := by
  rw [offsetWord_eq]
  exact congrArg (fun x : BitVec 12 => (x ++ (0 : BitVec 1)).signExtend 32) (bType_offset imm rs2 rs1 f3 op)

theorem uImm_uType : uImm (uType upper rd op) = upperWord upper := by
  rw [uImm, uType_imm, upperWord_eq]

theorem jImm_jType : jImm (jType offset rd op) = offsetWord offset := by
  rw [offsetWord_eq]
  exact congrArg (fun x : BitVec 20 => (x ++ (0 : BitVec 1)).signExtend 32) (jType_offset offset rd op)

/-- The amount of an immediate shift is the `rs2` field. -/
theorem iImm_amount (w : Word) : (iImm w).extractLsb' 0 5 = w.extractLsb' 20 5 := by
  ext k hk
  simp only [iImm, BitVec.getElem_extractLsb', BitVec.getLsbD_signExtend, BitVec.getLsbD_extractLsb']
  simp [show k < 12 by omega, show k < 32 by omega]

end Immediates

/-! ### The adders -/

/-- An adder computes the operation of its function. -/
theorem alu_eval (op : RegOp) (x y : Word) : alu x y (aluFunc op) = op.eval x y := by
  cases op with
  | add => exact (eval_add x y).symm
  | sub => exact (eval_sub x y).symm
  | sll => exact (eval_sll x y).symm
  | srl => exact (eval_srl x y).symm
  | sra => exact (eval_sra x y).symm
  | _ => rfl

/-- A shift reads the amount of its second operand only. -/
theorem alu_shift (op : ShiftOp) (x : Word) {y y' : Word} (h : y.extractLsb' 0 5 = y'.extractLsb' 0 5) :
    alu x y (aluFunc op.regOp) = alu x y' (aluFunc op.regOp) := by
  cases op <;> simp only [alu, aluFunc, ShiftOp.regOp, h]

/-! ### The branch unit -/

/-- The comparison a branch's `funct3` selects. -/
theorem taken_holds (cond : Cond) (x y : Word) :
    (if cond.funct3 = 0b000 then x == y
      else if cond.funct3 = 0b001 then x != y
      else if cond.funct3 = 0b100 then x.slt y
      else if cond.funct3 = 0b101 then !x.slt y
      else if cond.funct3 = 0b110 then x.ult y
      else if cond.funct3 = 0b111 then !x.ult y
      else false) = cond.holds x y := by
  cases cond with
  | eq | lt | ltu => rfl
  | ne => exact (decide_not (p := x = y)).symm
  | ge =>
    show (!decide (x.toInt < y.toInt)) = decide (y.toInt ≤ x.toInt)
    rw [← decide_not, decide_eq_decide, Int.not_lt]
  | geu =>
    show (!decide (x.toNat < y.toNat)) = decide (y.toNat ≤ x.toNat)
    rw [← decide_not, decide_eq_decide, Nat.not_lt]

/-! ### What the units make of an instruction -/

section Units
variable {f : FetchPacket} {i : Instr} {regs : Arn → BitVec 32} {p : RegReadPacket} {alu' : BitVec 2}
  (hv : f.packetValid = true) (hi : encode i = f.inst) (hc : Carries regs (decode f alu') p)
include hv hi hc

theorem op1MuxOut_rs1 {r : Reg} (hr : i.rs1 = some r) (hs : (controlOf i).opaSelect = .rs1) :
    op1MuxOut p = regs r := by
  rw [op1MuxOut, hc.op1Select_eq hv hi, hs]
  exact hc.op1Val_eq hi hr

theorem op1MuxOut_pc (hs : (controlOf i).opaSelect = .pc) : op1MuxOut p = f.pc := by
  rw [op1MuxOut, hc.op1Select_eq hv hi, hs]
  exact hc.pc

theorem op2MuxOut_rs2 {r : Reg} (hr : i.rs2 = some r) (hs : (controlOf i).opbSelect = .rs2) :
    op2MuxOut p = regs r := by
  rw [op2MuxOut, hc.op2Select_eq hv hi, hs]
  exact hc.op2Val_eq hi hr

/-- The result of an integer instruction. -/
theorem alu_value {v : Word} (h : i.value f.pc regs = some v) :
    alu (op1MuxOut p) (op2MuxOut p) p.opType = v := by
  cases i with
  | lui rd imm =>
    obtain rfl := Option.some.inj h
    have h2 : op2MuxOut p = upperWord imm := by
      rw [op2MuxOut, hc.op2Select_eq hv hi, hc.inst_eq hi]
      exact uImm_uType imm rd _
    have h1 : op1MuxOut p = 0 := by rw [op1MuxOut, hc.op1Select_eq hv hi]; rfl
    rw [hc.opType_eq hv hi, h1, h2]
    exact BitVec.zero_add _
  | auipc rd imm =>
    obtain rfl := Option.some.inj h
    have h2 : op2MuxOut p = upperWord imm := by
      rw [op2MuxOut, hc.op2Select_eq hv hi, hc.inst_eq hi]
      exact uImm_uType imm rd _
    rw [hc.opType_eq hv hi, op1MuxOut_pc hv hi hc rfl, h2]
    rfl
  | opImm op rd rs1 imm =>
    obtain rfl := Option.some.inj h
    have h2 : op2MuxOut p = immWord imm := by
      rw [op2MuxOut, hc.op2Select_eq hv hi, hc.inst_eq hi]
      exact iImm_iType imm rs1 rd _ _
    rw [hc.opType_eq hv hi, op1MuxOut_rs1 hv hi hc rfl rfl, h2]
    exact alu_eval ..
  | shiftImm op rd rs1 shamt =>
    obtain rfl := Option.some.inj h
    have h2 : (op2MuxOut p).extractLsb' 0 5 = (shamt.setWidth 32).extractLsb' 0 5 := by
      rw [op2MuxOut, hc.op2Select_eq hv hi, hc.inst_eq hi]
      refine (iImm_amount _).trans ((rType_rs2 ..).trans ?_)
      apply BitVec.eq_of_toNat_eq
      have := shamt.isLt
      simp only [BitVec.extractLsb'_toNat, BitVec.toNat_setWidth, Nat.shiftRight_zero]
      omega
    rw [hc.opType_eq hv hi, op1MuxOut_rs1 hv hi hc rfl rfl]
    exact (alu_shift op _ h2).trans (alu_eval ..)
  | reg op rd rs1 rs2 =>
    obtain rfl := Option.some.inj h
    rw [hc.opType_eq hv hi, op1MuxOut_rs1 hv hi hc rfl rfl, op2MuxOut_rs2 hv hi hc rfl rfl]
    exact alu_eval ..
  | _ => cases h

/-- The address of a load or store. -/
theorem agu_address {a : Word} (h : i.address regs = some a) : op1MuxOut p + op2MuxOut p = a := by
  cases i with
  | load op rd rs1 imm =>
    obtain rfl := Option.some.inj h
    have h2 : op2MuxOut p = immWord imm := by
      rw [op2MuxOut, hc.op2Select_eq hv hi, hc.inst_eq hi]
      exact iImm_iType imm rs1 rd _ _
    rw [op1MuxOut_rs1 hv hi hc rfl rfl, h2]
  | store op rs1 rs2 imm =>
    obtain rfl := Option.some.inj h
    have h2 : op2MuxOut p = immWord imm := by
      rw [op2MuxOut, hc.op2Select_eq hv hi, hc.inst_eq hi]
      exact sImm_sType imm rs2 rs1 _ _
    rw [op1MuxOut_rs1 hv hi hc rfl rfl, h2]
  | _ => cases h

/-- The direction of a branch or jump. -/
theorem bru_taken {t : Bool} (h : i.taken regs = some t) : (bru p).2 = t := by
  cases i with
  | branch cond rs1 rs2 offset =>
    obtain rfl := Option.some.inj h
    have hf3 : p.inst.extractLsb' 12 3 = cond.funct3 := by
      rw [hc.inst_eq hi]
      exact rType_funct3 ..
    have h1 : p.op1Val = regs rs1 := hc.op1Val_eq hi rfl
    have h2 : p.op2Val = regs rs2 := hc.op2Val_eq hi rfl
    have hcond : p.condBranch = true := hc.condBranch_eq hv hi
    simp only [bru, hcond, hf3, h1, h2, if_true]
    exact taken_holds cond (regs rs1) (regs rs2)
  | jal rd offset =>
    obtain rfl := Option.some.inj h
    have hcond : p.condBranch = false := hc.condBranch_eq hv hi
    have huncond : p.uncondBranch = true := hc.uncondBranch_eq hv hi
    simp only [bru, hcond, huncond, Bool.false_eq_true, if_false]
  | jalr rd rs1 imm =>
    obtain rfl := Option.some.inj h
    have hcond : p.condBranch = false := hc.condBranch_eq hv hi
    have huncond : p.uncondBranch = true := hc.uncondBranch_eq hv hi
    simp only [bru, hcond, huncond, Bool.false_eq_true, if_false]
  | _ => cases h

/-- The target of a branch or jump that is not a JALR. -/
theorem bru_target {t : Word} (h : i.target f.pc regs = some t) (hj : ∀ rd rs1 imm, i ≠ .jalr rd rs1 imm) :
    (bru p).1 = t := by
  cases i with
  | branch cond rs1 rs2 offset =>
    obtain rfl := Option.some.inj h
    have h2 : op2MuxOut p = offsetWord offset := by
      rw [op2MuxOut, hc.op2Select_eq hv hi, hc.inst_eq hi]
      exact bImm_bType offset rs2 rs1 _ _
    show op1MuxOut p + op2MuxOut p = _
    rw [op1MuxOut_pc hv hi hc rfl, h2]
  | jal rd offset =>
    obtain rfl := Option.some.inj h
    have h2 : op2MuxOut p = offsetWord offset := by
      rw [op2MuxOut, hc.op2Select_eq hv hi, hc.inst_eq hi]
      exact jImm_jType offset rd _
    show op1MuxOut p + op2MuxOut p = _
    rw [op1MuxOut_pc hv hi hc rfl, h2]
  | jalr rd rs1 imm => exact absurd rfl (hj rd rs1 imm)
  | _ => cases h

end Units

/-- The target of a JALR keeps the lowest bit of the sum. -/
theorem bru_jalr {f : FetchPacket} {rd rs1 : Reg} {imm : BitVec 12} {regs : Arn → BitVec 32}
    {p : RegReadPacket} {alu' : BitVec 2} (hv : f.packetValid = true) (hi : encode (.jalr rd rs1 imm) = f.inst)
    (hc : Carries regs (decode f alu') p) : (bru p).1 = regs rs1 + immWord imm := by
  have h2 : op2MuxOut p = immWord imm := by
    rw [op2MuxOut, hc.op2Select_eq hv hi, hc.inst_eq hi]
    exact iImm_iType imm rs1 rd _ _
  show op1MuxOut p + op2MuxOut p = _
  rw [op1MuxOut_rs1 hv hi hc rfl rfl, h2]

/-! ### Branches and jumps -/

/-- A branch or jump goes as RV32I says. -/
structure BranchFollows (regs : Arn → BitVec 32) (pc : Word) (i : Instr) (e : ExecutePacket) : Prop where
  direction (t : Bool) : i.taken regs = some t → e.branchDir = t
  target (t : Word) : i.target pc regs = some t → e.targetPc = t
  link (v : Word) : i.link pc = some v → e.result = v

/-- The sum of a JALR is even. -/
def EvenJalr (regs : Arn → BitVec 32) (i : Instr) : Prop :=
  ∀ rd rs1 imm, i = .jalr rd rs1 imm → (regs rs1 + immWord imm).getLsbD 0 = false

theorem clear_eq_iff (x : Word) : x = x &&& ~~~1 ↔ x.getLsbD 0 = false := by
  constructor
  · intro h
    rw [h, BitVec.getLsbD_and]
    simp
  · intro h
    ext k hk
    by_cases hk0 : k = 0
    · subst hk0
      rw [← BitVec.getLsbD_eq_getElem, h, BitVec.getElem_and]
      simp
    · rw [BitVec.getElem_and, BitVec.getElem_not]
      simp [hk0]

theorem branchFollows_iff {f : FetchPacket} {alu' : BitVec 2} {regs : Arn → BitVec 32}
    {pkt : Way → RegReadPacket} {i : Instr} (s : State) (hv : f.packetValid = true)
    (hc : Carries regs (decode f alu') (pkt 5)) (hi : encode i = f.inst) :
    BranchFollows regs f.pc i (executePkt pkt s 5) ↔ EvenJalr regs i := by
  have htarget : (executePkt pkt s 5).targetPc = (bru (pkt 5)).1 := rfl
  constructor
  · intro h rd rs1 imm hj
    subst hj
    have := h.target _ rfl
    rw [htarget, bru_jalr hv hi hc] at this
    exact (clear_eq_iff _).mp this
  · intro h
    refine ⟨fun t ht => bru_taken hv hi hc ht, fun t ht => ?_, fun v hl => ?_⟩
    · by_cases hj : ∃ rd rs1 imm, i = .jalr rd rs1 imm
      · obtain ⟨rd, rs1, imm, rfl⟩ := hj
        obtain rfl := Option.some.inj ht
        rw [htarget, bru_jalr hv hi hc]
        exact (clear_eq_iff _).mpr (h rd rs1 imm rfl)
      · exact bru_target hv hi hc ht fun rd rs1 imm hj' => hj ⟨rd, rs1, imm, hj'⟩
    · have hpc : (pkt 5).pc = f.pc := hc.pc
      show (pkt 5).pc + 4 = v
      rw [hpc]
      cases i with
      | jal | jalr => exact Option.some.inj hl
      | _ => cases hl

/-- A word the decoder takes for a branch or jump encodes one. -/
theorem accepted_branch {f : FetchPacket} {alu' : BitVec 2} (hv : f.packetValid = true)
    (h : ((decode f alu').condBranch || (decode f alu').uncondBranch) = true) :
    (decode f alu').fuId = .bru0 ∧ (∃ i, encode i = f.inst) ∧
      ∀ i, encode i = f.inst → ∀ regs, (i.taken regs).isSome = true := by
  have hd : (decode f alu').condBranch = (control f.inst).condBranch ∧
      (decode f alu').uncondBranch = (control f.inst).uncondBranch ∧
      (decode f alu').fuId = fuId (control f.inst) alu' := by
    simp [decode, hv]
  rw [hd.1, hd.2.1] at h
  refine ⟨by rw [hd.2.2, fuId, if_pos h], ?_, ?_⟩
  · by_contra hno
    rw [control_outside (outside fun i hi => hno ⟨i, hi⟩)] at h
    cases h
  · intro i hi regs
    rw [← hi, control_encode] at h
    cases i with
    | branch | jal | jalr => rfl
    | _ => cases h

/-- **A B-type, JAL or JALR word goes as RV32I says exactly if it is no JALR to an odd sum.** -/
theorem branch_follows_iff (f : FetchPacket) (alu' : BitVec 2) (regs : Arn → BitVec 32)
    (pkt : Way → RegReadPacket) (s : State) (hv : f.packetValid = true)
    (h : ((decode f alu').condBranch || (decode f alu').uncondBranch) = true)
    (hc : Carries regs (decode f alu') (pkt 5)) :
    (decode f alu').fuId = .bru0 ∧ (∃ i, encode i = f.inst) ∧ ∀ i, encode i = f.inst →
      (i.taken regs).isSome = true ∧
        (BranchFollows regs f.pc i (executePkt pkt s 5) ↔ EvenJalr regs i) := by
  obtain ⟨hfu, hex, hall⟩ := accepted_branch hv h
  exact ⟨hfu, hex, fun i hi => ⟨hall i hi regs, branchFollows_iff s hv hc hi⟩⟩

/-- The packet that carries the first lane's instruction, with its operands' values. -/
def carryingOf (regs : Arn → BitVec 32) (f : FetchPacket) : RegReadPacket where
  inst := f.inst
  pc := f.pc
  opType := (decode f 0).opType
  op1Val := regs (decode f 0).op1Arn
  op2Val := regs (decode f 0).op2Arn
  op1Select := (decode f 0).op1Select
  op2Select := (decode f 0).op2Select
  condBranch := (decode f 0).condBranch
  uncondBranch := (decode f 0).uncondBranch

theorem carryingOf_carries (regs : Arn → BitVec 32) (f : FetchPacket) :
    Carries regs (decode f 0) (carryingOf regs f) :=
  ⟨rfl, rfl, rfl, rfl, rfl, rfl, rfl, rfl, rfl⟩

/-- Every register holds four times its number. -/
def fourfold (r : Arn) : BitVec 32 := r.setWidth 32 * 4

def wordAt (pc : Word) (i : Instr) : FetchPacket := { inst := encode i, pc := pc, packetValid := true }

/-- BLT x1, x2, 16, taken, and JALR x1, -2(x3), whose sum is even, at 0x80. -/
theorem branch_follows_taken :
    BranchFollows fourfold 0x80 (.branch .lt 1 2 8)
        (executePkt (fun _ => carryingOf fourfold (wordAt 0x80 (.branch .lt 1 2 8))) {} 5) ∧
      BranchFollows fourfold 0x80 (.jalr 1 3 (-2))
        (executePkt (fun _ => carryingOf fourfold (wordAt 0x80 (.jalr 1 3 (-2)))) {} 5) := by
  constructor
  · obtain ⟨-, -, h⟩ := branch_follows_iff (wordAt 0x80 (.branch .lt 1 2 8)) 0 fourfold
      (fun _ => carryingOf fourfold (wordAt 0x80 (.branch .lt 1 2 8))) {} rfl (by decide) (carryingOf_carries ..)
    exact (h _ rfl).2.2 nofun
  · obtain ⟨-, -, h⟩ := branch_follows_iff (wordAt 0x80 (.jalr 1 3 (-2))) 0 fourfold
      (fun _ => carryingOf fourfold (wordAt 0x80 (.jalr 1 3 (-2)))) {} rfl (by decide) (carryingOf_carries ..)
    refine (h _ rfl).2.2 ?_
    rintro rd rs1 imm heq
    cases heq
    decide

/-- JALR x0, 1(x0): the target is 1, not 0. -/
def oddJalr : Instr := .jalr 0 0 1

/-- The packet that carries the first lane's instruction, all registers zero. -/
def carrying (f : FetchPacket) : RegReadPacket where
  inst := f.inst
  pc := f.pc
  opType := (decode f 0).opType
  op1Select := (decode f 0).op1Select
  op2Select := (decode f 0).op2Select
  condBranch := (decode f 0).condBranch
  uncondBranch := (decode f 0).uncondBranch

theorem carrying_carries (f : FetchPacket) : Carries (fun _ => 0) (decode f 0) (carrying f) :=
  ⟨rfl, rfl, rfl, rfl, rfl, rfl, rfl, rfl, rfl⟩

/-- The branch unit leaves the lowest bit of a JALR's target. -/
theorem jalr_keeps_bit : ¬ ∀ (f : FetchPacket) (alu' : BitVec 2) (regs : Arn → BitVec 32)
    (pkt : Way → RegReadPacket) (s : State) (i : Instr), f.packetValid = true → encode i = f.inst →
    (i.taken regs).isSome = true → Carries regs (decode f alu') (pkt 5) →
    BranchFollows regs f.pc i (executePkt pkt s 5) := by
  intro h
  have := (h { inst := encode oddJalr, packetValid := true } 0 (fun _ => 0) (fun _ => carrying _) {} oddJalr
    rfl rfl rfl (carrying_carries _)).target _ rfl
  revert this
  decide

/-! ### Integer instructions -/

/-- A decoded instruction names its registers and computes its result; the CSR
instructions, which the decoder lets pass without effect, write no register. -/
structure DecodesTo (regs : Arn → BitVec 32) (pc : Word) (i : Instr) (d : DecodePacket) (e : ExecutePacket) :
    Prop where
  value (v : Word) : i.value pc regs = some v → d.fuId.way < 4 ∧ e.result = v
  address (a : Word) : i.address regs = some a → d.fuId = .agu0 ∧ e.result = a
  stored (v : Word) : i.stored regs = some v → e.stData = v
  reads1 (r : Reg) : i.rs1 = some r → d.useOp1Arn = true ∧ d.op1Arn = r
  reads2 (r : Reg) : i.rs2 = some r → d.useOp2Arn = true ∧ d.op2Arn = r
  writes : (∀ op rd rs1 n, i ≠ .csr op rd rs1 n) → d.destArn = i.rd.getD 0
  csr (op : CsrOp) (rd rs1 : Reg) (n : BitVec 12) : i = .csr op rd rs1 n → d.destArn = 0

/-- An instruction with a value goes to one of the adders. -/
theorem fuId_value {i : Instr} {pc v : Word} {regs : Arn → BitVec 32} (alu' : BitVec 2)
    (h : i.value pc regs = some v) : (fuId (controlOf i) alu').way < 4 := by
  have hadder : ∀ c : Control, (c.condBranch || c.uncondBranch) = false → (c.rdMem || c.wrMem) = false →
      (∃ op, c.aluFunc = aluFunc op) → (fuId c alu').way < 4 := by
    intro c hbr hmem hop
    obtain ⟨op, hop⟩ := hop
    have hmul : ¬ (c.aluFunc = .mul || c.aluFunc = .mulh || c.aluFunc = .mulhsu ||
        c.aluFunc = .mulhu : Bool) = true := by
      rw [hop]
      cases op <;> decide
    rw [fuId, if_neg (by simp [hbr]), if_neg (by simp [hmem]), if_neg hmul]
    split
    · decide
    · split
      · decide
      · split <;> decide
  cases i with
  | lui | auipc => exact hadder _ rfl rfl ⟨.add, rfl⟩
  | opImm op _ _ _ => exact hadder _ rfl rfl ⟨op.regOp, rfl⟩
  | shiftImm op _ _ _ => exact hadder _ rfl rfl ⟨op.regOp, rfl⟩
  | reg op _ _ _ => exact hadder _ rfl rfl ⟨op, rfl⟩
  | _ => cases h

theorem executePkt_alu (pkt : Way → RegReadPacket) (s : State) {w : Way} (h : w < 4) :
    (executePkt pkt s w).result = alu (op1MuxOut (pkt w)) (op2MuxOut (pkt w)) (pkt w).opType := by
  simp only [executePkt, if_pos h]
  rfl

theorem decodesTo {f : FetchPacket} {alu' : BitVec 2} {regs : Arn → BitVec 32}
    {pkt : Way → RegReadPacket} {i : Instr} (s : State) (hv : f.packetValid = true)
    (hc : Carries regs (decode f alu') (pkt (decode f alu').fuId.way)) (hi : encode i = f.inst) :
    DecodesTo regs f.pc i (decode f alu') (executePkt pkt s (decode f alu').fuId.way) := by
  have hctl := control_valid hv hi
  have hfu : (decode f alu').fuId = fuId (controlOf i) alu' := by rw [← hctl]; rfl
  have hdest : (decode f alu').destArn =
      if (controlOf i).destSelect = .rd then f.inst.extractLsb' 7 5 else 0 := by
    rw [← hctl]
    rfl
  constructor
  · intro v h
    have hway := fuId_value alu' h
    rw [← hfu] at hway
    exact ⟨hway, (executePkt_alu pkt s hway).trans (alu_value hv hi hc h)⟩
  · intro a h
    have hagu : (decode f alu').fuId = .agu0 := by
      rw [hfu]
      cases i with
      | load | store => rfl
      | _ => cases h
    refine ⟨hagu, ?_⟩
    rw [hagu] at hc ⊢
    exact agu_address hv hi hc h
  · intro v h
    cases i with
    | store op rs1 rs2 imm =>
      obtain rfl := Option.some.inj h
      rw [hfu] at hc ⊢
      exact hc.op2Val_eq hi rfl
    | _ => cases h
  · intro r h
    have huse : (decode f alu').useOp1Arn = ((decide ((controlOf i).opaSelect = .rs1) &&
        !(controlOf i).illegal && !(controlOf i).halt) || (controlOf i).condBranch) := by
      rw [← hctl]
      rfl
    refine ⟨?_, ?_⟩
    · rw [huse]
      cases i with
      | lui | auipc | jal | wfi => cases h
      | _ => rfl
    · rw [← encode_rs1 h, hi]
      rfl
  · intro r h
    have huse : (decode f alu').useOp2Arn = ((decide ((controlOf i).opbSelect = .rs2) &&
        !(controlOf i).illegal && !(controlOf i).halt) || (controlOf i).condBranch || (controlOf i).wrMem) := by
      rw [← hctl]
      rfl
    refine ⟨?_, ?_⟩
    · rw [huse]
      cases i with
      | branch | store | reg | mul => rfl
      | _ => cases h
    · rw [← encode_rs2 h, hi]
      rfl
  · intro hcsr
    cases i with
    | branch | store | wfi => exact hdest
    | csr op rd rs1 n => exact absurd rfl (hcsr op rd rs1 n)
    | _ =>
      refine hdest.trans ?_
      rw [← hi]
      exact encode_rd rfl
  · intro op rd rs1 n h
    subst h
    exact hdest

/-- **Decoding and integer execution follow RV32I, and illegal words are those of no
instruction of the list.** -/
theorem decode_follows (f : FetchPacket) (alu' : BitVec 2) (regs : Arn → BitVec 32)
    (pkt : Way → RegReadPacket) (s : State) (hv : f.packetValid = true)
    (hc : Carries regs (decode f alu') (pkt (decode f alu').fuId.way)) :
    ((decode f alu').illegal = true ↔ ∀ i, encode i ≠ f.inst) ∧
      ∀ i, encode i = f.inst →
        DecodesTo regs f.pc i (decode f alu') (executePkt pkt s (decode f alu').fuId.way) := by
  refine ⟨?_, fun i hi => decodesTo s hv hc hi⟩
  rw [← illegal_iff]
  simp only [decode, if_pos hv]

/-- SUB x3, x1, x2 is decoded to x3 and leaves -4, and CSRRW is no illegal word. -/
theorem decode_follows_sub :
    (decode (wordAt 0 (.reg .sub 3 1 2)) 0).destArn = 3 ∧
      (executePkt (fun _ => carryingOf fourfold (wordAt 0 (.reg .sub 3 1 2))) {}
        (decode (wordAt 0 (.reg .sub 3 1 2)) 0).fuId.way).result = -4 ∧
      (decode (wordAt 0 (.csr .csrrw 1 0 0)) 0).illegal = false := by
  obtain ⟨-, hsub⟩ := decode_follows (wordAt 0 (.reg .sub 3 1 2)) 0 fourfold
    (fun _ => carryingOf fourfold (wordAt 0 (.reg .sub 3 1 2))) {} rfl (carryingOf_carries ..)
  obtain ⟨hcsr, -⟩ := decode_follows (wordAt 0 (.csr .csrrw 1 0 0)) 0 fourfold
    (fun _ => carryingOf fourfold (wordAt 0 (.csr .csrrw 1 0 0))) {} rfl (carryingOf_carries ..)
  have hdecodes := hsub (.reg .sub 3 1 2) rfl
  refine ⟨hdecodes.writes ?_, (hdecodes.value (-4) rfl).2, ?_⟩
  · intro op rd rs1 n h
    cases h
  · rw [← Bool.not_eq_true, hcsr]
    exact fun hno => hno (.csr .csrrw 1 0 0) rfl

/-- CSRRW x1, 0, x0, which names x1 and is decoded to x0. -/
def csrWrite : Instr := .csr .csrrw 1 0 0

/-- A CSR instruction writes a register, and the decoder names none for it. -/
theorem csr_drops_rd : ¬ ∀ (f : FetchPacket) (alu' : BitVec 2) (i : Instr), f.packetValid = true →
    encode i = f.inst → (decode f alu').destArn = i.rd.getD 0 := by
  intro h
  have := h { inst := encode csrWrite, packetValid := true } 0 csrWrite rfl rfl
  revert this
  decide

end R10K.Fu
