import R10K.Rename.Decoder
import R10K.Lib.Rv32

/-! The decoder against the encodings of RV32IM.

Every instruction of the list gets the controls of its kind, and a word is illegal
exactly if it encodes none of them. -/
namespace R10K.Decoder
open Rv32

/-- `ALU_FUNC` of an operation on two registers, and of a multiplication. -/
def aluFunc : RegOp → AluFunc
  | .add => .add | .sub => .sub | .sll => .sll | .slt => .slt | .sltu => .sltu
  | .xor => .xor | .srl => .srl | .sra => .sra | .or => .or | .and => .and

def mulFunc : MulOp → AluFunc
  | .mul => .mul | .mulh => .mulh | .mulhsu => .mulhsu | .mulhu => .mulhu

/-- The controls of an instruction. -/
def controlOf : Instr → Control
  | .lui _ _ => { destSelect := .rd, opaSelect := .zero, opbSelect := .uImm }
  | .auipc _ _ => { destSelect := .rd, opaSelect := .pc, opbSelect := .uImm }
  | .jal _ _ => { destSelect := .rd, opaSelect := .pc, opbSelect := .jImm, uncondBranch := true }
  | .jalr _ _ _ => { destSelect := .rd, opaSelect := .rs1, opbSelect := .iImm, uncondBranch := true }
  | .branch _ _ _ _ => { opaSelect := .pc, opbSelect := .bImm, condBranch := true }
  | .load _ _ _ _ => { destSelect := .rd, opbSelect := .iImm, rdMem := true }
  | .store _ _ _ _ => { opbSelect := .sImm, wrMem := true }
  | .opImm op _ _ _ => opImm (aluFunc op.regOp)
  | .shiftImm op _ _ _ => opImm (aluFunc op.regOp)
  | .reg op _ _ _ => opReg (aluFunc op)
  | .mul op _ _ _ => opReg (mulFunc op)
  | .csr _ _ _ _ => { csrOp := true }
  | .wfi => { halt := true }

/-! ### The fields of an encoded word -/

section Fields
variable (f7 : BitVec 7) (imm : BitVec 12) (upper : BitVec 20) (rs2 rs1 rd : Reg) (f3 : BitVec 3)
  (op : BitVec 7)

theorem opcode_rType : opcode (rType f7 rs2 rs1 f3 rd op) = op := rType_opcode ..
theorem funct3_rType : funct3 (rType f7 rs2 rs1 f3 rd op) = f3 := rType_funct3 ..
theorem funct7_rType : funct7 (rType f7 rs2 rs1 f3 rd op) = f7 := rType_funct7 ..
theorem opcode_iType : opcode (iType imm rs1 f3 rd op) = op := iType_opcode ..
theorem funct3_iType : funct3 (iType imm rs1 f3 rd op) = f3 := iType_funct3 ..
theorem opcode_uType : opcode (uType upper rd op) = op := uType_opcode ..

end Fields

theorem control_encode (i : Instr) : control (encode i) = controlOf i := by
  cases i with
  | lui rd imm | auipc rd imm | jal rd offset =>
    simp only [control, encode, jType, utype, opcode_uType]
    rfl
  | jalr rd rs1 imm =>
    simp only [control, encode, utype, itype, opcode_iType, funct3_iType]
    rfl
  | load op rd rs1 imm | opImm op rd rs1 imm | csr op rd rs1 imm =>
    simp only [control, encode, utype, itype, rtype, opcode_iType, funct3_iType]
    cases op <;> rfl
  | branch op rs1 rs2 imm | store op rs1 rs2 imm | shiftImm op rd rs1 shamt | reg op rd rs1 rs2
  | mul op rd rs1 rs2 =>
    simp only [control, encode, bType, sType, utype, itype, rtype, opcode_rType, funct3_rType, funct7_rType]
    cases op <;> rfl
  | wfi => decide

/-! ### The words outside the list -/

section Outside
variable {w : Word} {op : BitVec 7} {f3 : BitVec 3} {f7 : BitVec 7}

/-- A word of no pattern is none of the format's words. -/
theorem utype_eq_false (h : ∀ upper rd, uType upper rd op ≠ w) : utype op w = false := by
  refine Bool.eq_false_iff.mpr fun hw => ?_
  have hop : w.extractLsb' 0 7 = op := beq_iff_eq.mp hw
  exact h _ _ (hop ▸ uType_fields w)

theorem itype_eq_false (h : ∀ imm rs1 rd, iType imm rs1 f3 rd op ≠ w) : itype op f3 w = false := by
  refine Bool.eq_false_iff.mpr fun hw => ?_
  obtain ⟨hop, hf3⟩ := Bool.and_eq_true_iff.mp hw
  have hop : w.extractLsb' 0 7 = op := beq_iff_eq.mp hop
  have hf3 : w.extractLsb' 12 3 = f3 := beq_iff_eq.mp hf3
  exact h _ _ _ (hop ▸ hf3 ▸ iType_fields w)

theorem rtype_eq_false (h : ∀ rs2 rs1 rd, rType f7 rs2 rs1 f3 rd op ≠ w) : rtype op f3 f7 w = false := by
  refine Bool.eq_false_iff.mpr fun hw => ?_
  obtain ⟨hw, hf7⟩ := Bool.and_eq_true_iff.mp hw
  obtain ⟨hop, hf3⟩ := Bool.and_eq_true_iff.mp hw
  have hop : w.extractLsb' 0 7 = op := beq_iff_eq.mp hop
  have hf3 : w.extractLsb' 12 3 = f3 := beq_iff_eq.mp hf3
  have hf7 : w.extractLsb' 25 7 = f7 := beq_iff_eq.mp hf7
  exact h _ _ _ (hop ▸ hf3 ▸ hf7 ▸ rType_fields w)

/-- `RV32_Stype` constrains what `RV32_Itype` does. -/
theorem stype_eq_false (h : ∀ f7 rs2 rs1 rd, rType f7 rs2 rs1 f3 rd op ≠ w) : itype op f3 w = false :=
  itype_eq_false fun imm rs1 rd => iType_eq imm rs1 rd f3 op ▸ h _ _ _ _

end Outside

/-- The patterns of a word that encodes no instruction, kind by kind. -/
structure Outside (w : Word) : Prop where
  lui : utype rv32LuiOp w = false
  auipc : utype rv32AuipcOp w = false
  jal : utype rv32JalOp w = false
  jalr : itype rv32JalrOp 0b000 w = false
  branch (cond : Cond) : itype rv32Branch cond.funct3 w = false
  load (op : LoadOp) : itype rv32Load op.funct3 w = false
  store (op : StoreOp) : itype rv32Store op.funct3 w = false
  opImm (op : ImmOp) : itype rv32OpImm op.funct3 w = false
  shiftImm (op : ShiftOp) : rtype rv32OpImm op.funct3 op.funct7 w = false
  reg (op : RegOp) : rtype rv32Op op.funct3 op.funct7 w = false
  mul (op : MulOp) : rtype rv32Op op.funct3 0b0000001 w = false
  csr (op : CsrOp) : itype rv32System op.funct3 w = false
  wfi : (w == Decoder.wfi) = false

theorem outside {w : Word} (h : ∀ i, encode i ≠ w) : Outside w where
  lui := utype_eq_false fun upper rd => h (.lui rd upper)
  auipc := utype_eq_false fun upper rd => h (.auipc rd upper)
  jal := utype_eq_false fun upper rd => jType_append rd _ upper ▸ h (.jal rd _)
  jalr := itype_eq_false fun imm rs1 rd => h (.jalr rd rs1 imm)
  branch cond := stype_eq_false fun f7 rs2 rs1 rd => bType_append rs2 rs1 _ _ f7 rd ▸ h (.branch cond rs1 rs2 _)
  load op := itype_eq_false fun imm rs1 rd => h (.load op rd rs1 imm)
  store op := stype_eq_false fun f7 rs2 rs1 rd => sType_append rs2 rs1 _ _ f7 rd ▸ h (.store op rs1 rs2 _)
  opImm op := itype_eq_false fun imm rs1 rd => h (.opImm op rd rs1 imm)
  shiftImm op := rtype_eq_false fun rs2 rs1 rd => h (.shiftImm op rd rs1 rs2)
  reg op := rtype_eq_false fun rs2 rs1 rd => h (.reg op rd rs1 rs2)
  mul op := rtype_eq_false fun rs2 rs1 rd => h (.mul op rd rs1 rs2)
  csr op := itype_eq_false fun imm rs1 rd => h (.csr op rd rs1 imm)
  wfi := beq_eq_false_iff_ne.mpr fun hw => h .wfi (hw ▸ by decide)

/-- A word that encodes no instruction is illegal, and nothing else. -/
theorem control_outside {w : Word} (h : Outside w) : control w = { illegal := true } := by
  have hbranch : itype rv32Branch 0b000 w = false ∧ itype rv32Branch 0b001 w = false ∧
      itype rv32Branch 0b100 w = false ∧ itype rv32Branch 0b101 w = false ∧
      itype rv32Branch 0b110 w = false ∧ itype rv32Branch 0b111 w = false :=
    ⟨h.branch .eq, h.branch .ne, h.branch .lt, h.branch .ge, h.branch .ltu, h.branch .geu⟩
  have hload : itype rv32Load 0b000 w = false ∧ itype rv32Load 0b001 w = false ∧
      itype rv32Load 0b010 w = false ∧ itype rv32Load 0b100 w = false ∧ itype rv32Load 0b101 w = false :=
    ⟨h.load .lb, h.load .lh, h.load .lw, h.load .lbu, h.load .lhu⟩
  have hstore : itype rv32Store 0b000 w = false ∧ itype rv32Store 0b001 w = false ∧
      itype rv32Store 0b010 w = false := ⟨h.store .sb, h.store .sh, h.store .sw⟩
  have himm : itype rv32OpImm 0b000 w = false ∧ itype rv32OpImm 0b010 w = false ∧
      itype rv32OpImm 0b011 w = false ∧ itype rv32OpImm 0b111 w = false ∧
      itype rv32OpImm 0b110 w = false ∧ itype rv32OpImm 0b100 w = false :=
    ⟨h.opImm .addi, h.opImm .slti, h.opImm .sltiu, h.opImm .andi, h.opImm .ori, h.opImm .xori⟩
  have hshift : rtype rv32OpImm 0b001 0b0000000 w = false ∧ rtype rv32OpImm 0b101 0b0000000 w = false ∧
      rtype rv32OpImm 0b101 0b0100000 w = false := ⟨h.shiftImm .slli, h.shiftImm .srli, h.shiftImm .srai⟩
  have hreg : rtype rv32Op 0b000 0b0000000 w = false ∧ rtype rv32Op 0b000 0b0100000 w = false ∧
      rtype rv32Op 0b010 0b0000000 w = false ∧ rtype rv32Op 0b011 0b0000000 w = false ∧
      rtype rv32Op 0b111 0b0000000 w = false ∧ rtype rv32Op 0b110 0b0000000 w = false ∧
      rtype rv32Op 0b100 0b0000000 w = false ∧ rtype rv32Op 0b001 0b0000000 w = false ∧
      rtype rv32Op 0b101 0b0000000 w = false ∧ rtype rv32Op 0b101 0b0100000 w = false :=
    ⟨h.reg .add, h.reg .sub, h.reg .slt, h.reg .sltu, h.reg .and, h.reg .or, h.reg .xor, h.reg .sll,
      h.reg .srl, h.reg .sra⟩
  have hmul : rtype rv32Op 0b000 0b0000001 w = false ∧ rtype rv32Op 0b001 0b0000001 w = false ∧
      rtype rv32Op 0b010 0b0000001 w = false ∧ rtype rv32Op 0b011 0b0000001 w = false :=
    ⟨h.mul .mul, h.mul .mulh, h.mul .mulhsu, h.mul .mulhu⟩
  have hcsr : itype rv32System 0b001 w = false ∧ itype rv32System 0b010 w = false ∧
      itype rv32System 0b011 w = false := ⟨h.csr .csrrw, h.csr .csrrs, h.csr .csrrc⟩
  simp only [control, h.lui, h.auipc, h.jal, h.jalr, hbranch, hload, hstore, himm, hshift, hreg, hmul,
    hcsr, h.wfi, Bool.or_false, Bool.false_eq_true, if_false]

/-- A word is illegal exactly if it encodes no instruction. -/
theorem illegal_iff (w : Word) : (control w).illegal = true ↔ ∀ i, encode i ≠ w := by
  constructor
  · intro h i hi
    rw [← hi, control_encode] at h
    cases i <;> cases h
  · intro h
    rw [control_outside (outside h)]

end R10K.Decoder
