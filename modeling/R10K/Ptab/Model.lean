import R10K.Lib.Select
import R10K.SysDefs

/-! The branch table (`ptab.sv`).

Sixteen entries hold what was predicted of the branches in flight. A fetched branch
takes a free entry, and the branch unit reads it back, compares the prediction with the
outcome and clears it. -/
namespace R10K.Ptab
open Select

structure Entry where
  predictDir : Bool := false
  predictPc : BitVec 32 := 0
  nextPc : BitVec 32 := 0
  valid : Bool := false
deriving DecidableEq, Repr

structure Inputs where
  pipeFlush : Bool
  fetchPkt : Lane → FetchPacket
  bruPtabTag : BitVec 4
  bruBranchDir : Bool
  bruTargetPc : BitVec 32
  bruValid : Bool

/-- There is an entry 0. -/
instance neZero : NeZero 16 := ⟨Nat.succ_ne_zero 15⟩

structure State where
  ptabEntry : Fin 16 → Entry

/-- `rst_n` low. Registers without a reset start at zero here. -/
def reset : State := ⟨fun _ => {}⟩

def ptabAvail (s : State) (k : Fin 16) : Bool := !(s.ptabEntry k).valid

def ptabAvailCnt (s : State) : Nat := (List.finRange 16).countP (ptabAvail s)

def fetchPktReady (s : State) : Bool := decide (4 ≤ ptabAvailCnt s)

/-- `ptab_tag`: the free entry each lane would take. -/
def ptabTag (s : State) (l : Lane) : Fin 16 := onehotEnc (gntBus (ptabAvail s) l)

/-- `bru_branch_misp` and `bru_next_pc`. -/
def bruResult (i : Inputs) (s : State) : Bool × BitVec 32 :=
  let e := s.ptabEntry i.bruPtabTag.toFin
  if i.bruValid && !i.bruBranchDir then
    if e.valid && e.predictDir then (true, e.nextPc) else (false, 0)
  else if i.bruValid && i.bruBranchDir then
    if e.valid && e.predictDir then
      if e.predictPc ≠ i.bruTargetPc then (true, i.bruTargetPc) else (false, 0)
    else (true, i.bruTargetPc)
  else (false, 0)

/-- A lane's branch takes the entry. -/
def allocates (i : Inputs) (s : State) (k : Fin 16) (l : Lane) : Bool :=
  k == ptabTag s l && (i.fetchPkt l).packetValid && (i.fetchPkt l).branchMask

def nextEntry (i : Inputs) (s : State) (k : Fin 16) : Entry :=
  let e := s.ptabEntry k
  if i.pipeFlush then { e with valid := false }
  else if i.bruValid && k == i.bruPtabTag.toFin then { e with valid := false }
  else if fetchPktReady s then
    match (List.finRange 4).find? (allocates i s k) with
    | some l =>
      { valid := true
        predictDir := (i.fetchPkt l).branchDir
        predictPc := (i.fetchPkt l).branchAddr
        nextPc := (i.fetchPkt l).pc + 4 }
    | none => e
  else e

def next (i : Inputs) (s : State) : State := ⟨nextEntry i s⟩

end R10K.Ptab
