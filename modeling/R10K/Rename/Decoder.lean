import R10K.SysDefs

/-! The decoder (`decoder.sv`, `decoder_top.sv`).

One instruction word to its control signals, and the choice of an execution lane:
branches, memory operations and multiplications have their own, other instructions
take the four adders in turn. -/
namespace R10K.Decoder

def opcode (inst : BitVec 32) : BitVec 7 := inst.extractLsb' 0 7
def funct3 (inst : BitVec 32) : BitVec 3 := inst.extractLsb' 12 3
def funct7 (inst : BitVec 32) : BitVec 7 := inst.extractLsb' 25 7

/-! The patterns of `ISA.svh`; `RV32_Stype` constrains the same bits as `RV32_Itype`. -/

def utype (op : BitVec 7) (inst : BitVec 32) : Bool := opcode inst == op
def itype (op : BitVec 7) (f3 : BitVec 3) (inst : BitVec 32) : Bool :=
  opcode inst == op && funct3 inst == f3
def rtype (op : BitVec 7) (f3 : BitVec 3) (f7 : BitVec 7) (inst : BitVec 32) : Bool :=
  opcode inst == op && funct3 inst == f3 && funct7 inst == f7

def rv32Load : BitVec 7 := 0b0000011
def rv32Store : BitVec 7 := 0b0100011
def rv32Branch : BitVec 7 := 0b1100011
def rv32JalrOp : BitVec 7 := 0b1100111
def rv32JalOp : BitVec 7 := 0b1101111
def rv32OpImm : BitVec 7 := 0b0010011
def rv32Op : BitVec 7 := 0b0110011
def rv32System : BitVec 7 := 0b1110011
def rv32AuipcOp : BitVec 7 := 0b0010111
def rv32LuiOp : BitVec 7 := 0b0110111
def wfi : BitVec 32 := 0x10500073

/-- The control signals; the defaults are those of a word that decodes to nothing. -/
structure Control where
  opaSelect : AluOpaSelect := .rs1
  opbSelect : AluOpbSelect := .rs2
  destSelect : DestRegSel := .none
  aluFunc : AluFunc := .add
  rdMem : Bool := false
  wrMem : Bool := false
  condBranch : Bool := false
  uncondBranch : Bool := false
  csrOp : Bool := false
  halt : Bool := false
  illegal : Bool := false
deriving DecidableEq, Repr

/-- An immediate operation of the adders, and a register one. -/
def opImm (f : AluFunc) : Control := { destSelect := .rd, opbSelect := .iImm, aluFunc := f }
def opReg (f : AluFunc) : Control := { destSelect := .rd, aluFunc := f }

/-- The `casez` of a valid word, in the order of the source. -/
def control (inst : BitVec 32) : Control :=
  if utype rv32LuiOp inst then { destSelect := .rd, opaSelect := .zero, opbSelect := .uImm }
  else if utype rv32AuipcOp inst then { destSelect := .rd, opaSelect := .pc, opbSelect := .uImm }
  else if utype rv32JalOp inst then
    { destSelect := .rd, opaSelect := .pc, opbSelect := .jImm, uncondBranch := true }
  else if itype rv32JalrOp 0b000 inst then
    { destSelect := .rd, opaSelect := .rs1, opbSelect := .iImm, uncondBranch := true }
  else if itype rv32Branch 0b000 inst || itype rv32Branch 0b001 inst || itype rv32Branch 0b100 inst ||
      itype rv32Branch 0b101 inst || itype rv32Branch 0b110 inst || itype rv32Branch 0b111 inst then
    { opaSelect := .pc, opbSelect := .bImm, condBranch := true }
  else if itype rv32Load 0b000 inst || itype rv32Load 0b001 inst || itype rv32Load 0b010 inst ||
      itype rv32Load 0b100 inst || itype rv32Load 0b101 inst then
    { destSelect := .rd, opbSelect := .iImm, rdMem := true }
  else if itype rv32Store 0b000 inst || itype rv32Store 0b001 inst || itype rv32Store 0b010 inst then
    { opbSelect := .sImm, wrMem := true }
  else if itype rv32OpImm 0b000 inst then opImm .add
  else if itype rv32OpImm 0b010 inst then opImm .slt
  else if itype rv32OpImm 0b011 inst then opImm .sltu
  else if itype rv32OpImm 0b111 inst then opImm .and
  else if itype rv32OpImm 0b110 inst then opImm .or
  else if itype rv32OpImm 0b100 inst then opImm .xor
  else if rtype rv32OpImm 0b001 0b0000000 inst then opImm .sll
  else if rtype rv32OpImm 0b101 0b0000000 inst then opImm .srl
  else if rtype rv32OpImm 0b101 0b0100000 inst then opImm .sra
  else if rtype rv32Op 0b000 0b0000000 inst then opReg .add
  else if rtype rv32Op 0b000 0b0100000 inst then opReg .sub
  else if rtype rv32Op 0b010 0b0000000 inst then opReg .slt
  else if rtype rv32Op 0b011 0b0000000 inst then opReg .sltu
  else if rtype rv32Op 0b111 0b0000000 inst then opReg .and
  else if rtype rv32Op 0b110 0b0000000 inst then opReg .or
  else if rtype rv32Op 0b100 0b0000000 inst then opReg .xor
  else if rtype rv32Op 0b001 0b0000000 inst then opReg .sll
  else if rtype rv32Op 0b101 0b0000000 inst then opReg .srl
  else if rtype rv32Op 0b101 0b0100000 inst then opReg .sra
  else if rtype rv32Op 0b000 0b0000001 inst then opReg .mul
  else if rtype rv32Op 0b001 0b0000001 inst then opReg .mulh
  else if rtype rv32Op 0b010 0b0000001 inst then opReg .mulhsu
  else if rtype rv32Op 0b011 0b0000001 inst then opReg .mulhu
  else if itype rv32System 0b001 inst || itype rv32System 0b010 inst || itype rv32System 0b011 inst then
    { csrOp := true }
  else if inst == wfi then { halt := true }
  else { illegal := true }

/-- `fu_id`, for an instruction whose turn at the adders is `alu`. -/
def fuId (c : Control) (alu : BitVec 2) : FuId :=
  if c.condBranch || c.uncondBranch then .bru0
  else if c.rdMem || c.wrMem then .agu0
  else if c.aluFunc = .mul || c.aluFunc = .mulh || c.aluFunc = .mulhsu || c.aluFunc = .mulhu then .mul0
  else if alu = 0 then .alu0
  else if alu = 1 then .alu1
  else if alu = 2 then .alu2
  else .alu3

/-- One lane of the decoder. -/
def decode (p : FetchPacket) (alu : BitVec 2) : DecodePacket :=
  let c := if p.packetValid then control p.inst else {}
  { inst := p.inst
    pc := p.pc
    opType := c.aluFunc
    op1Arn := p.inst.extractLsb' 15 5
    op2Arn := p.inst.extractLsb' 20 5
    useOp1Arn := (decide (c.opaSelect = .rs1) && !c.illegal && !c.halt) || c.condBranch
    useOp2Arn := (decide (c.opbSelect = .rs2) && !c.illegal && !c.halt) || c.condBranch || c.wrMem
    destArn := if c.destSelect = .rd then p.inst.extractLsb' 7 5 else 0
    op1Select := c.opaSelect
    op2Select := c.opbSelect
    destSelect := c.destSelect
    rdMem := c.rdMem
    wrMem := c.wrMem
    condBranch := c.condBranch
    uncondBranch := c.uncondBranch
    halt := c.halt
    illegal := c.illegal
    csrOp := c.csrOp
    fuId := fuId c alu
    packetValid := p.packetValid }

/-- Valid lanes before a lane, in two bits. -/
def validBefore (p : Lane → FetchPacket) (l : Lane) : BitVec 2 :=
  ((List.finRange 4).filter fun m => m < l).foldl
    (fun n m => n + BitVec.ofNat 2 (p m).packetValid.toNat) 0

/-- `decode_pkt`: the lanes from `alu_alloc_head` on take the adders in turn. -/
def decodePkt (aluAllocHead : BitVec 2) (p : Lane → FetchPacket) (l : Lane) : DecodePacket :=
  decode (p l) (aluAllocHead + validBefore p l)

def nextAluAllocHead (aluAllocHead : BitVec 2) (p : Lane → FetchPacket) : BitVec 2 :=
  aluAllocHead + (List.finRange 4).foldl (fun n m => n + BitVec.ofNat 2 (p m).packetValid.toNat) 0

/-! ### What decoding guarantees -/

/-- Only an instruction with a destination names an architectural register. -/
theorem destArn_none (p : FetchPacket) (alu : BitVec 2) (h : (decode p alu).destSelect ≠ .rd) :
    (decode p alu).destArn = 0 := if_neg h

/-- An empty lane decodes to an instruction without destination, memory access or branch. -/
theorem decode_invalid {p : FetchPacket} (alu : BitVec 2) (h : p.packetValid = false) :
    (decode p alu).destSelect = .none ∧ (decode p alu).packetValid = false := by
  simp [decode, h]

/-- A halt or an illegal word writes no register. -/
def Inert (c : Control) : Prop := (c.halt || c.illegal) = true → c.destSelect = .none

instance (c : Control) : Decidable (Inert c) := inferInstanceAs (Decidable (_ → _))

theorem Inert.ite {p : Prop} [Decidable p] {a b : Control} (ha : Inert a) (hb : Inert b) :
    Inert (if p then a else b) := by
  split
  · exact ha
  · exact hb

theorem control_inert (inst : BitVec 32) : Inert (control inst) := by
  unfold control
  repeat' apply Inert.ite
  all_goals decide

/-- A NOP, a halt or an illegal word has no destination other than x0. -/
theorem decode_finishes (p : FetchPacket) (alu : BitVec 2)
    (h : (p.inst == nop || (decode p alu).halt || (decode p alu).illegal) = true) :
    (decode p alu).destArn = 0 := by
  cases hv : p.packetValid with
  | false => exact destArn_none p alu (by rw [(decode_invalid alu hv).1]; decide)
  | true =>
    rw [Bool.or_eq_true, Bool.or_eq_true, beq_iff_eq, or_assoc] at h
    rcases h with hn | hfin
    · simp only [decode, hn]
      split
      · decide
      · rfl
    · have hinert := control_inert p.inst
      rw [← Bool.or_eq_true] at hfin
      simp only [decode, hv, if_true] at hfin
      refine destArn_none p alu ?_
      show (if p.packetValid then control p.inst else {}).destSelect ≠ .rd
      rw [hv, if_pos rfl, hinert hfin]
      decide

end R10K.Decoder
