import R10K.Lib.Circular
import R10K.Lib.Lanes

/-! The packets and entries of `sys_defs.svh`.

Every structure is one packed struct of the source, with the fields the modelled
modules read; a field's default is what clearing the struct writes. Indices that
use every value of their width are bit vectors. A physical register number is one
of the hundred registers: the free list's encoder produces no other number, and
clearing writes number 0. -/
namespace R10K

/-- `PRF_DEPTH` physical registers. -/
abbrev Prn := Fin 100
/-- `ARF_WIDTH` bits of architectural register. -/
abbrev Arn := BitVec 5
/-- A reorder-buffer tag: position bit and index. -/
abbrev RobTag := Circular.Ptr 6
/-- The lanes of the four-wide machine. -/
abbrev Lane := Fin 4
/-- The issue and writeback lanes. -/
abbrev Way := Fin 7

/-- There are a register 0 and a way 0. -/
instance Prn.neZero : NeZero 100 := ⟨Nat.succ_ne_zero 99⟩
instance Way.neZero : NeZero 7 := ⟨Nat.succ_ne_zero 6⟩

inductive ExceptionCode where
  | instAddrMisalign | instAccessFault | illegalInst | breakpoint | loadAddrMisalign
  | loadAccessFault | storeAddrMisalign | storeAccessFault | ecallUMode | ecallSMode
  | noError | ecallMMode | instPageFault | loadPageFault | haltedOnWfi | storePageFault
deriving DecidableEq, Repr

/-- `NOP`: addi x0, x0, 0. -/
def nop : BitVec 32 := 0x00000013

structure DispatchRobPacket where
  inst : BitVec 32 := 0
  pc : BitVec 32 := 0
  destArn : Arn := 0
  destPrn : Prn := 0
  destPrnPrev : Prn := 0
  stqTag : BitVec 4 := 0
  ldqTag : BitVec 4 := 0
  rdMem : Bool := false
  wrMem : Bool := false
  condBranch : Bool := false
  uncondBranch : Bool := false
  halt : Bool := false
  illegal : Bool := false
  packetValid : Bool := false
deriving DecidableEq, Repr

structure RetireRobPacket where
  pc : BitVec 32 := 0
  destArn : Arn := 0
  destPrn : Prn := 0
  destPrnPrev : Prn := 0
  rdMem : Bool := false
  wrMem : Bool := false
  branchMisp : Bool := false
  redirectPc : BitVec 32 := 0
  exception : ExceptionCode := .instAddrMisalign
  robTag : RobTag := ⟨false, 0⟩
  stqTag : BitVec 4 := 0
  ldqTag : BitVec 4 := 0
  packetValid : Bool := false
deriving DecidableEq, Repr

structure RobEntry where
  pc : BitVec 32 := 0
  destArn : Arn := 0
  destPrn : Prn := 0
  destPrnPrev : Prn := 0
  stqTag : BitVec 4 := 0
  ldqTag : BitVec 4 := 0
  rdMem : Bool := false
  wrMem : Bool := false
  branch : Bool := false
  branchMisp : Bool := false
  exception : ExceptionCode := .instAddrMisalign
  complete : Bool := false
  valid : Bool := false
deriving DecidableEq, Repr

/-- A slot of the store or the load queue, sixteen each. -/
abbrev StqTag := BitVec 4
abbrev LdqTag := BitVec 4

structure StqEntry where
  addr : BitVec 32 := 0
  addrValid : Bool := false
  data : BitVec 32 := 0
  dataSize : BitVec 3 := 0
  dataValid : Bool := false
  retired : Bool := false
  entryValid : Bool := false
deriving DecidableEq, Repr

structure LdqEntry where
  addr : BitVec 32 := 0
  addrValid : Bool := false
  data : BitVec 32 := 0
  dataSize : BitVec 3 := 0
  dataValid : Bool := false
  writebacked : Bool := false
  fired : Bool := false
  orderFail : Bool := false
  stMask : StqTag → Bool := fun _ => false
  stYoungest : StqTag := 0
  fwdStqTag : StqTag := 0
  sleep : Bool := false
  pc : BitVec 32 := 0
  destPrn : Prn := 0
  robTag : RobTag := ⟨false, 0⟩
  entryValid : Bool := false

inductive MemSize where
  | byte | half | word | double
deriving DecidableEq, Repr

/-- `MEM_SIZE'(x)`: the low two bits of a size code. -/
def memSize (x : BitVec 3) : MemSize :=
  if x.extractLsb' 0 2 = 0 then .byte
  else if x.extractLsb' 0 2 = 1 then .half
  else if x.extractLsb' 0 2 = 2 then .word
  else .double

/-! ### From fetch to execution -/

inductive AluFunc where
  | add | sub | slt | sltu | and | or | xor | sll | srl | sra | mul | mulh | mulhsu | mulhu
  | div | divu | rem | remu
deriving DecidableEq, Repr

/-- The execution lanes by name. -/
inductive FuId where
  | alu0 | alu1 | alu2 | alu3 | mul0 | bru0 | agu0
deriving DecidableEq, Repr

def FuId.way : FuId → Way
  | .alu0 => 0 | .alu1 => 1 | .alu2 => 2 | .alu3 => 3 | .mul0 => 4 | .bru0 => 5 | .agu0 => 6

inductive AluOpaSelect where
  | rs1 | npc | pc | zero
deriving DecidableEq, Repr

inductive AluOpbSelect where
  | rs2 | iImm | sImm | bImm | uImm | jImm
deriving DecidableEq, Repr

inductive DestRegSel where
  | rd | none
deriving DecidableEq, Repr

structure FetchPacket where
  inst : BitVec 32 := 0
  pc : BitVec 32 := 0
  branchMask : Bool := false
  branchDir : Bool := false
  branchAddr : BitVec 32 := 0
  packetValid : Bool := false
deriving DecidableEq, Repr

structure DecodePacket where
  inst : BitVec 32 := 0
  pc : BitVec 32 := 0
  opType : AluFunc := .add
  op1Arn : Arn := 0
  op2Arn : Arn := 0
  useOp1Arn : Bool := false
  useOp2Arn : Bool := false
  destArn : Arn := 0
  op1Select : AluOpaSelect := .rs1
  op2Select : AluOpbSelect := .rs2
  destSelect : DestRegSel := .rd
  rdMem : Bool := false
  wrMem : Bool := false
  condBranch : Bool := false
  uncondBranch : Bool := false
  halt : Bool := false
  illegal : Bool := false
  csrOp : Bool := false
  fuId : FuId := .alu0
  packetValid : Bool := false
deriving DecidableEq, Repr

structure RenamePacket where
  inst : BitVec 32 := 0
  pc : BitVec 32 := 0
  opType : AluFunc := .add
  op1Prn : Prn := 0
  op2Prn : Prn := 0
  useOp1Prn : Bool := false
  useOp2Prn : Bool := false
  destArn : Arn := 0
  destPrn : Prn := 0
  destPrnPrev : Prn := 0
  op1Select : AluOpaSelect := .rs1
  op2Select : AluOpbSelect := .rs2
  rdMem : Bool := false
  wrMem : Bool := false
  condBranch : Bool := false
  uncondBranch : Bool := false
  halt : Bool := false
  illegal : Bool := false
  op1Ready : Bool := false
  op2Ready : Bool := false
  fuId : FuId := .alu0
  packetValid : Bool := false
deriving DecidableEq, Repr

structure DispatchRsPacket where
  inst : BitVec 32 := 0
  pc : BitVec 32 := 0
  opType : AluFunc := .add
  op1Prn : Prn := 0
  op2Prn : Prn := 0
  useOp1Prn : Bool := false
  useOp2Prn : Bool := false
  destPrn : Prn := 0
  op1Select : AluOpaSelect := .rs1
  op2Select : AluOpbSelect := .rs2
  rdMem : Bool := false
  wrMem : Bool := false
  condBranch : Bool := false
  uncondBranch : Bool := false
  robEntry : RobTag := ⟨false, 0⟩
  op1Ready : Bool := false
  op2Ready : Bool := false
  fuId : FuId := .alu0
  ptabTag : BitVec 4 := 0
  stqTag : StqTag := 0
  ldqTag : LdqTag := 0
  packetValid : Bool := false
deriving DecidableEq, Repr

structure DispatchLsqPacket where
  rdMem : Bool := false
  wrMem : Bool := false
  packetValid : Bool := false
deriving DecidableEq, Repr

structure IssuePacket where
  inst : BitVec 32 := 0
  pc : BitVec 32 := 0
  opType : AluFunc := .add
  op1Prn : Prn := 0
  op2Prn : Prn := 0
  destPrn : Prn := 0
  op1Select : AluOpaSelect := .rs1
  op2Select : AluOpbSelect := .rs2
  rdMem : Bool := false
  wrMem : Bool := false
  condBranch : Bool := false
  uncondBranch : Bool := false
  robEntry : RobTag := ⟨false, 0⟩
  fuId : FuId := .alu0
  ptabTag : BitVec 4 := 0
  stqTag : StqTag := 0
  ldqTag : LdqTag := 0
  packetValid : Bool := false
deriving DecidableEq, Repr

structure RegReadPacket where
  inst : BitVec 32 := 0
  pc : BitVec 32 := 0
  opType : AluFunc := .add
  op1Val : BitVec 32 := 0
  op2Val : BitVec 32 := 0
  destPrn : Prn := 0
  op1Select : AluOpaSelect := .rs1
  op2Select : AluOpbSelect := .rs2
  rdMem : Bool := false
  wrMem : Bool := false
  condBranch : Bool := false
  uncondBranch : Bool := false
  robEntry : RobTag := ⟨false, 0⟩
  fuId : FuId := .alu0
  ptabTag : BitVec 4 := 0
  stqTag : StqTag := 0
  ldqTag : LdqTag := 0
  packetValid : Bool := false
deriving DecidableEq, Repr

structure ExecutePacket where
  pc : BitVec 32 := 0
  result : BitVec 32 := 0
  destPrn : Prn := 0
  rdMem : Bool := false
  wrMem : Bool := false
  robEntry : RobTag := ⟨false, 0⟩
  branchDir : Bool := false
  targetPc : BitVec 32 := 0
  stData : BitVec 32 := 0
  stqTag : StqTag := 0
  ldqTag : LdqTag := 0
  memSize : BitVec 3 := 0
  packetValid : Bool := false
deriving DecidableEq, Repr

end R10K
