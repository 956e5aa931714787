import Mathlib.Data.BitVec

/-! The FIFO (`sync_fifo.sv`).

A memory of `2 ^ h` words with a write and a read address and a counter of the words it
holds. The five processes of the source are guarded each on its own: the memory, the
output and the two addresses by `full` and `empty`, the counter by a case over the two
enables. -/
namespace R10K.Fifo
variable {h width : Nat}

/-- Bits of an address: `[$clog2(DEPTH)-1:0]`. For one word that range is `[-1:0]`, two bits. -/
abbrev addrBits (h : Nat) : Nat := if h = 0 then 2 else h

structure Inputs (width : Nat) where
  wrEn : Bool
  rdEn : Bool
  dataIn : BitVec width

/-- The registers. A word is `none` while it is unknown, as the memory is before it is written. -/
structure State (h width : Nat) where
  wrAddr : BitVec (addrBits h)
  rdAddr : BitVec (addrBits h)
  count : BitVec (h + 1)
  fifo : Fin (2 ^ h) → Option (BitVec width)
  dataOut : Option (BitVec width)

/-- `rst_n` low. The memory has no reset. -/
def reset (h width : Nat) : State h width := ⟨0, 0, 0, fun _ => none, some 0⟩

def empty (s : State h width) : Bool := decide (s.count.toNat = 0)
def full (s : State h width) : Bool := decide (s.count.toNat = 2 ^ h)

/-- `fifo[a]`, unknown outside the memory. -/
def word (s : State h width) (a : BitVec (addrBits h)) : Option (BitVec width) :=
  if ha : a.toNat < 2 ^ h then s.fifo ⟨a.toNat, ha⟩ else none

/-- A write is accepted, by the guards of the memory and of `wr_addr`. -/
def wrAccept (i : Inputs width) (s : State h width) : Bool := i.wrEn && !full s

/-- A read is accepted, by the guards of `data_out` and of `rd_addr`. -/
def rdAccept (i : Inputs width) (s : State h width) : Bool := i.rdEn && !empty s

def nextCount (i : Inputs width) (s : State h width) : BitVec (h + 1) :=
  match i.wrEn, i.rdEn with
  | false, false => s.count
  | false, true => if !empty s then s.count - 1 else s.count
  | true, false => if !full s then s.count + 1 else s.count
  | true, true => s.count

/-- One clock edge. -/
def next (i : Inputs width) (s : State h width) : State h width where
  wrAddr := if wrAccept i s then s.wrAddr + 1 else s.wrAddr
  rdAddr := if rdAccept i s then s.rdAddr + 1 else s.rdAddr
  count := nextCount i s
  fifo := fun k => if wrAccept i s && k.val == s.wrAddr.toNat then some i.dataIn else s.fifo k
  dataOut := if rdAccept i s then word s s.rdAddr else s.dataOut

/-! ### What passed through it -/

/-- The FIFO with the data it accepted and what its output showed after each read it accepted. -/
structure Log (h width : Nat) where
  fifo : State h width
  writes : List (BitVec width) := []
  reads : List (Option (BitVec width)) := []

namespace Log

def reset (h width : Nat) : Log h width := { fifo := Fifo.reset h width }

def next (i : Inputs width) (s : Log h width) : Log h width where
  fifo := Fifo.next i s.fifo
  writes := s.writes ++ (if wrAccept i s.fifo then [i.dataIn] else [])
  reads := s.reads ++ (if rdAccept i s.fifo then [(Fifo.next i s.fifo).dataOut] else [])

/-- The log after the inputs of these cycles. -/
def run (is : List (Inputs width)) : Log h width := is.foldl (fun s i => next i s) (reset h width)

theorem run_append (is : List (Inputs width)) (i : Inputs width) :
    run (h := h) (is ++ [i]) = next i (run is) := by
  rw [run, List.foldl_append]
  rfl

end Log

end R10K.Fifo
