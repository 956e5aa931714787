import Mathlib.Data.FinEnum
import R10K.Lib.Select
import R10K.Rename.Decoder

/-! Decode and rename (`decode_rename.sv`: `rat.sv`, `free_list.sv`, `busy_table.sv`).

A cycle decodes a group of four, takes free registers for its destinations, looks up
its sources and what its destinations were mapped to before (through the group, then
through the map), and reads which sources have their value. Registers freed by
retirement can be taken in the same cycle. After a flush the map and the free list are
rebuilt from the architectural map. -/
namespace R10K.Rename
open Select Decoder

structure Inputs where
  fetchPkt : Lane → FetchPacket
  renamePktReady : Lane → Bool
  retirePrnPrev : Lane → Prn
  retirePrnPrevValid : Lane → Bool
  executePrn : Way → Prn
  executeValid : Way → Bool
  archRat : Arn → Prn
  recovArchSt : Bool

structure State where
  aluAllocHead : BitVec 2
  rat : Arn → Prn
  freeList : Prn → Bool
  busyTable : Prn → Bool

/-- `rst_n` low: every register but 0 is free, every mapping is to 0. -/
def reset : State where
  aluAllocHead := 0
  rat := fun _ => 0
  freeList := fun p => p != 0
  busyTable := fun _ => false

def decoded (i : Inputs) (s : State) (l : Lane) : DecodePacket := decodePkt s.aluAllocHead i.fetchPkt l

/-- `rename_pkt_ready == 4'b1111`: the group is taken. -/
def accept (i : Inputs) : Bool := (List.finRange 4).all i.renamePktReady

/-! ### The free list -/

/-- A retiring lane returns the register. -/
def recycled (i : Inputs) (p : Prn) : Bool :=
  (List.finRange 4).any fun l => i.retirePrnPrevValid l && p == i.retirePrnPrev l && p != 0

def freeListRetireFwd (i : Inputs) (s : State) (p : Prn) : Bool := s.freeList p || recycled i p

def freePrnOh (i : Inputs) (s : State) (l : Lane) : Prn → Bool := gntBus (freeListRetireFwd i s) l

def freePrn (i : Inputs) (s : State) (l : Lane) : Prn := onehotEnc (freePrnOh i s l)

def freePrnValid (i : Inputs) (s : State) (l : Lane) : Bool := granted (freePrnOh i s l)

/-! ### The map -/

/-- A lane with a destination other than x0. -/
def hasDest (d : DecodePacket) : Bool := d.destSelect == .rd && d.destArn != 0

/-- `free_prn_ready`: the lane takes its free register. -/
def freePrnReady (i : Inputs) (s : State) (l : Lane) : Bool :=
  hasDest (decoded i s l) && (decoded i s l).packetValid && accept i

def prDest (i : Inputs) (s : State) (l : Lane) : Prn :=
  if hasDest (decoded i s l) then freePrn i s l else 0

/-- The youngest older lane of the group that writes the architectural register. -/
def depLane (i : Inputs) (s : State) (l : Lane) (a : Arn) : Option Lane :=
  ((List.finRange 4).take l.val).reverse.find? fun m =>
    (decoded i s m).destSelect == .rd && a == (decoded i s m).destArn

/-- The mapping a lane sees: through the group, else through the map. -/
def lookup (i : Inputs) (s : State) (l : Lane) (a : Arn) : Prn :=
  match depLane i s l a with
  | some m => prDest i s m
  | none => s.rat a

def prSrc1 (i : Inputs) (s : State) (l : Lane) : Prn :=
  if (decoded i s l).useOp1Arn then lookup i s l (decoded i s l).op1Arn else 0

def prSrc2 (i : Inputs) (s : State) (l : Lane) : Prn :=
  if (decoded i s l).useOp2Arn then lookup i s l (decoded i s l).op2Arn else 0

def prDestPrev (i : Inputs) (s : State) (l : Lane) : Prn :=
  if (decoded i s l).destSelect == .rd then lookup i s l (decoded i s l).destArn else 0

/-! ### The busy table -/

/-- `pr_src_data_ready`: not busy or broadcast now, and not taken by an older lane. -/
def srcDataReady (i : Inputs) (s : State) (l : Lane) (p : Prn) : Bool :=
  (!s.busyTable p || (List.finRange 7).any fun w => p == i.executePrn w && i.executeValid w) &&
    ((List.finRange 4).take l.val).all fun m =>
      !(freePrnValid i s m && freePrnReady i s m && freePrn i s m == p)

/-! ### The packet and the clock edge -/

def renamePkt (i : Inputs) (s : State) (l : Lane) : RenamePacket :=
  let d := decoded i s l
  { inst := d.inst
    pc := d.pc
    opType := d.opType
    op1Prn := prSrc1 i s l
    op2Prn := prSrc2 i s l
    useOp1Prn := d.useOp1Arn
    useOp2Prn := d.useOp2Arn
    destArn := d.destArn
    destPrn := prDest i s l
    destPrnPrev := prDestPrev i s l
    op1Select := d.op1Select
    op2Select := d.op2Select
    rdMem := d.rdMem
    wrMem := d.wrMem
    condBranch := d.condBranch
    uncondBranch := d.uncondBranch
    halt := d.halt
    illegal := d.illegal
    op1Ready := srcDataReady i s l (prSrc1 i s l)
    op2Ready := srcDataReady i s l (prSrc2 i s l)
    fuId := d.fuId
    packetValid := d.packetValid }

/-- `rat`: the last lane of the group wins. -/
def nextRat (i : Inputs) (s : State) (a : Arn) : Prn :=
  if i.recovArchSt then i.archRat a
  else (List.finRange 4).foldl (fun r l =>
    if freePrnValid i s l && freePrnReady i s l && a == (decoded i s l).destArn then freePrn i s l else r)
    (s.rat a)

/-- `free_list`: recycled registers come in, then the chosen ones go out. -/
def nextFreeList (i : Inputs) (s : State) (p : Prn) : Bool :=
  if i.recovArchSt then decide (∀ a, p ≠ i.archRat a)
  else if (List.finRange 4).any fun l => freePrnOh i s l p && freePrnReady i s l then false
  else if recycled i p then true
  else s.freeList p

def nextBusyTable (i : Inputs) (s : State) (p : Prn) : Bool :=
  if i.recovArchSt then false
  else if (List.finRange 7).any fun w => i.executeValid w && p == i.executePrn w then false
  else if (List.finRange 4).any fun l =>
      freePrnValid i s l && freePrnReady i s l && p == freePrn i s l then true
  else s.busyTable p

def next (i : Inputs) (s : State) : State where
  aluAllocHead := nextAluAllocHead s.aluAllocHead i.fetchPkt
  rat := nextRat i s
  freeList := nextFreeList i s
  busyTable := nextBusyTable i s

/-- `arch_rat.sv`: the last retiring lane wins, and x0 keeps its mapping. -/
def nextArchRat (archRat : Arn → Prn) (pkt : Lane → RetireRobPacket) (a : Arn) : Prn :=
  (List.finRange 4).foldl (fun r l =>
    if (pkt l).packetValid && a == (pkt l).destArn && a != 0 then (pkt l).destPrn else r) (archRat a)

end R10K.Rename
