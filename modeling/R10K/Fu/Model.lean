import R10K.SysDefs

/-! The functional units (`fu_top.sv`: `alu.sv`, `mult_top.sv`, `bru.sv`, `agu.sv`).

Lanes 0 to 3 are adders, lane 4 multiplies in two cycles, lane 5 decides branches and
lane 6 adds up addresses. All but the multiplier answer in the cycle they are given a
packet. -/
namespace R10K.Fu

/-! ### Operands -/

/-! The immediates of `ISA.svh`. -/

def iImm (inst : BitVec 32) : BitVec 32 := (inst.extractLsb' 20 12).signExtend 32
def sImm (inst : BitVec 32) : BitVec 32 :=
  (inst.extractLsb' 25 7 ++ inst.extractLsb' 7 5 : BitVec 12).signExtend 32
def bImm (inst : BitVec 32) : BitVec 32 :=
  (inst.extractLsb' 31 1 ++ inst.extractLsb' 7 1 ++ inst.extractLsb' 25 6 ++ inst.extractLsb' 8 4 ++
    (0 : BitVec 1) : BitVec 13).signExtend 32
def uImm (inst : BitVec 32) : BitVec 32 := (inst.extractLsb' 12 20 ++ (0 : BitVec 12) : BitVec 32)
def jImm (inst : BitVec 32) : BitVec 32 :=
  (inst.extractLsb' 31 1 ++ inst.extractLsb' 12 8 ++ inst.extractLsb' 20 1 ++ inst.extractLsb' 21 10 ++
    (0 : BitVec 1) : BitVec 21).signExtend 32

def op1MuxOut (p : RegReadPacket) : BitVec 32 :=
  match p.op1Select with
  | .rs1 => p.op1Val
  | .npc => p.pc + 4
  | .pc => p.pc
  | .zero => 0

def op2MuxOut (p : RegReadPacket) : BitVec 32 :=
  match p.op2Select with
  | .rs2 => p.op2Val
  | .iImm => iImm p.inst
  | .sImm => sImm p.inst
  | .bImm => bImm p.inst
  | .uImm => uImm p.inst
  | .jImm => jImm p.inst

/-! ### Units -/

def alu (opa opb : BitVec 32) : AluFunc → BitVec 32
  | .add => opa + opb
  | .sub => opa - opb
  | .and => opa &&& opb
  | .slt => if opa.slt opb then 1 else 0
  | .sltu => if opa.ult opb then 1 else 0
  | .or => opa ||| opb
  | .xor => opa ^^^ opb
  | .srl => opa >>> (opb.extractLsb' 0 5).toNat
  | .sll => opa <<< (opb.extractLsb' 0 5).toNat
  | .sra => opa.sshiftRight (opb.extractLsb' 0 5).toNat
  | _ => 0xdeadbeef

/-- `target_pc` and `branch_taken`. -/
def bru (p : RegReadPacket) : BitVec 32 × Bool :=
  let rs1 := p.op1Val
  let rs2 := p.op2Val
  let taken :=
    if p.condBranch then
      let funct3 := p.inst.extractLsb' 12 3
      if funct3 = 0b000 then rs1 == rs2
      else if funct3 = 0b001 then rs1 != rs2
      else if funct3 = 0b100 then rs1.slt rs2
      else if funct3 = 0b101 then !rs1.slt rs2
      else if funct3 = 0b110 then rs1.ult rs2
      else if funct3 = 0b111 then !rs1.ult rs2
      else false
    else p.uncondBranch
  (op1MuxOut p + op2MuxOut p, taken)

/-- One stage of the multiplier (`mult_top.sv`, `mult.sv`, `reg_read_pkt_pipe`): the
packet, its function, and the signed and the unsigned product. -/
structure MultStage where
  pkt : RegReadPacket := {}
  func : AluFunc := .add
  signedProduct : BitVec 64 := 0
  product : BitVec 64 := 0

/-- What enters the first stage. -/
def multIn (p : RegReadPacket) : MultStage where
  pkt := p
  func := p.opType
  signedProduct := (op1MuxOut p).signExtend 64 * (op2MuxOut p).signExtend 64
  product := (op1MuxOut p).setWidth 64 * (op2MuxOut p).setWidth 64

/-- `mult_top`'s result, from its last stage. -/
def multResult (m : MultStage) : BitVec 32 :=
  match m.func with
  | .mul => m.signedProduct.extractLsb' 0 32
  | .mulh => m.signedProduct.extractLsb' 32 32
  | .mulhsu => m.product.extractLsb' 32 32
  | .mulhu => m.product.extractLsb' 32 32
  | _ => 0xfacebeec

/-- The two stages of the multiplier. -/
structure State where
  stage0 : MultStage := {}
  stage1 : MultStage := {}

/-- The packet a unit passes on with its result. -/
def executed (p : RegReadPacket) (result : BitVec 32) : ExecutePacket where
  pc := p.pc
  result := result
  destPrn := p.destPrn
  rdMem := p.rdMem
  wrMem := p.wrMem
  robEntry := p.robEntry
  stData := p.op2Val
  stqTag := p.stqTag
  ldqTag := p.ldqTag
  memSize := p.inst.extractLsb' 12 3
  packetValid := p.packetValid

/-- `execute_pkt`. -/
def executePkt (pkt : Way → RegReadPacket) (s : State) (w : Way) : ExecutePacket :=
  let p := pkt w
  if w < 4 then executed p (alu (op1MuxOut p) (op2MuxOut p) p.opType)
  else if w = 4 then executed s.stage1.pkt (multResult s.stage1)
  else if w = 5 then { executed p (p.pc + 4) with targetPc := (bru p).1, branchDir := (bru p).2 }
  else executed p (op1MuxOut p + op2MuxOut p)

def next (pipeFlush : Bool) (pkt : Way → RegReadPacket) (s : State) : State where
  stage0 := if pipeFlush then {} else multIn (pkt 4)
  stage1 := if pipeFlush then {} else s.stage0

end R10K.Fu
