import R10K.Dcache.Hit

/-! The writeback of a dirty line.

The pointer has two bits and is compared with four: it counts the stores accepted and wraps
to zero with the fourth, so `DIRTY_WB` is entered and never left. -/
namespace R10K.Dcache
open Cache

/-- A run, with the store asked for in the cycle before and those the memory has accepted. -/
structure Writeback where
  ctrl : State
  asked : BitVec 32
  accepted : List (BitVec 32)

/-- The memory accepts the store of the cycle before. -/
def stored (i : Inputs) (s : State) : Bool := s.proc2dmemCommandPipe == .busStore && i.dmem2procResponse != 0

namespace Writeback

def init (tagSram : CacheWay → Sram Tag) (dataSram : CacheWay → Sram Block) : Writeback where
  ctrl := reset tagSram dataSram
  asked := 0
  accepted := []

def next (i : Inputs) (l : Writeback) : Writeback where
  ctrl := Dcache.next i l.ctrl
  asked := proc2dmemAddr l.ctrl
  accepted := if stored i l.ctrl then l.accepted ++ [l.asked] else l.accepted

def run (l : Writeback) (is : List Inputs) : Writeback := is.foldl (fun l i => l.next i) l

end Writeback

/-- The doublewords of the dirty line, in the order of their addresses. -/
def dirtyDoubles (s : State) : List (BitVec 32) :=
  (List.range 4).map fun k => lineBase (dirtyAddr (arrayIn s) s.array) + BitVec.ofNat 32 (8 * k)

/-- The writeback that started in `l` is over: each doubleword was accepted once, and the
controller goes on to read the line. -/
structure Over (l l' : Writeback) : Prop where
  covers : l'.accepted.Perm (dirtyDoubles l.ctrl)
  moves : l'.ctrl.currSt = .rdL2Req

/-- If the memory accepts four stores, the writeback is over at some point of the run. -/
def Finishes (l : Writeback) (is : List Inputs) : Prop :=
  4 ≤ (l.run is).accepted.length → ∃ n, Over l (l.run (is.take n))

/-- What becomes of a writeback. -/
structure Stuck (l : Writeback) (is : List Inputs) : Prop where
  stays : (l.run is).ctrl.currSt = .dirtyWb
  wraps : (l.run is).ctrl.writebackPtr = BitVec.ofNat 2 (l.run is).accepted.length
  finishes : Finishes l is ↔ (l.run is).accepted.length < 4

variable {s : State} {l : Writeback}

theorem nextSt_dirtyWb (i : Inputs) (h : s.currSt = .dirtyWb) : nextSt i s = .dirtyWb := by
  rw [nextSt, h]
  exact if_neg (writebackPtr_ne s)

namespace Writeback

theorem ctrl_run_dirtyWb (h : l.ctrl.currSt = .dirtyWb) (is : List Inputs) :
    (l.run is).ctrl.currSt = .dirtyWb := by
  induction is generalizing l with
  | nil => exact h
  | cons i is ih => exact ih (l := l.next i) (nextSt_dirtyWb i h)

/-- The pointer counts the stores accepted. -/
theorem ptr_next (i : Inputs) (h : l.ctrl.writebackPtr = BitVec.ofNat 2 l.accepted.length) :
    (l.next i).ctrl.writebackPtr = BitVec.ofNat 2 (l.next i).accepted.length := by
  have hptr : (l.next i).ctrl.writebackPtr =
      if stored i l.ctrl then l.ctrl.writebackPtr + 1 else l.ctrl.writebackPtr :=
    if_neg (writebackPtr_ne l.ctrl)
  rw [hptr, next]
  split
  · rw [h, List.length_append, List.length_singleton, BitVec.ofNat_add]
    rfl
  · exact h

theorem ptr_run (h : l.ctrl.writebackPtr = BitVec.ofNat 2 l.accepted.length) (is : List Inputs) :
    (l.run is).ctrl.writebackPtr = BitVec.ofNat 2 (l.run is).accepted.length := by
  induction is generalizing l with
  | nil => exact h
  | cons i is ih => exact ih (ptr_next i h)

end Writeback

/-- **A writeback never ends**, whatever the memory accepts. -/
theorem writeback_stuck {tagSram : CacheWay → Sram Tag} {dataSram : CacheWay → Sram Block}
    (before is : List Inputs)
    (hst : ((Writeback.init tagSram dataSram).run before).ctrl.currSt = .dirtyWb) :
    Stuck ((Writeback.init tagSram dataSram).run before) is where
  stays := Writeback.ctrl_run_dirtyWb hst is
  wraps := Writeback.ptr_run (Writeback.ptr_run (l := .init tagSram dataSram) rfl before) is
  finishes := by
    constructor
    · intro hf
      by_contra hfour
      obtain ⟨n, hover⟩ := hf (Nat.le_of_not_lt hfour)
      have hmoves := hover.moves
      rw [Writeback.ctrl_run_dirtyWb hst] at hmoves
      cases hmoves
    · intro hlt hfour
      exact absurd hfour (Nat.not_le_of_lt hlt)

/-! ### A dirty miss -/

/-- A store and three loads fill a set, and a fifth line takes the place of the first. -/
def dirtyMissIns : List Inputs :=
  [storeWord 0x200 7, loadWord 0x400, loadWord 0x600, loadWord 0x800].flatMap
    (fun i => i :: missIns.tail ++ [({} : Inputs)]) ++ [loadWord 0xa00, {}]

def dirtyMiss : Writeback := (Writeback.init (fun _ => ⟨fun _ => 0, 0⟩) fun _ => ⟨fun _ => 0, 0⟩).run dirtyMissIns

/-- The memory accepts every store. -/
def acceptIns : List Inputs := (List.range 5).map fun n => { dmem2procResponse := BitVec.ofNat 4 n }

theorem writeback_stuck_accept : Stuck dirtyMiss acceptIns :=
  writeback_stuck dirtyMissIns acceptIns (by decide +kernel)

/-- Four stores are accepted, the first doubleword twice, and the writeback goes on. -/
theorem writeback_unfinished : dirtyMiss.ctrl.currSt = .dirtyWb ∧
    (dirtyMiss.run acceptIns).accepted = [0x200, 0x200, 0x208, 0x210] ∧ ¬ Finishes dirtyMiss acceptIns := by
  have hst : dirtyMiss.ctrl.currSt = .dirtyWb := by decide +kernel
  have hacc : (dirtyMiss.run acceptIns).accepted = [0x200, 0x200, 0x208, 0x210] := by decide +kernel
  refine ⟨hst, hacc, fun hf => ?_⟩
  obtain ⟨n, hover⟩ := hf (by rw [hacc]; decide)
  have hmoves := hover.moves
  rw [Writeback.ctrl_run_dirtyWb hst] at hmoves
  cases hmoves

end R10K.Dcache
