import R10K.Cache.Sets
import R10K.Lib.Select

/-! The array of the instruction cache (`icache_array.sv`).

It is read as the data cache's array is, one cycle after it is addressed, and written by
refills only. A write counts as a hit on the block written; the registered valid bits miss
it for one cycle. -/
namespace R10K.Icache
open Cache Select

/-- A line, as its instructions. -/
abbrev Block := Fin 8 → BitVec 32

structure ArrayInputs where
  addr : BitVec 32
  wrBlock : Block
  wen : Bool

/-- The registers of the array. -/
structure ArrayState where
  addrOffsetPipe : Offset
  addrIndexPipe : Index
  addrTagPipe : Tag
  lru : LruTree
  blockValid : CacheWay → Index → Bool
  blockValidN : CacheWay → Bool
  tagSram : CacheWay → Sram Tag
  dataSram : CacheWay → Sram Block

/-- `rst_n` low. The memories have no reset and hold anything. -/
def resetArray (tagSram : CacheWay → Sram Tag) (dataSram : CacheWay → Sram Block) : ArrayState where
  addrOffsetPipe := 0
  addrIndexPipe := 0
  addrTagPipe := 0
  lru := .reset
  blockValid := fun _ _ => false
  blockValidN := fun _ => false
  tagSram := tagSram
  dataSram := dataSram

variable (i : ArrayInputs) (a : ArrayState)

def hitN (w : CacheWay) : Bool := (a.tagSram w).rdData == a.addrTagPipe && a.blockValidN w

/-- `hit`, for an array that is being written if `wen`. -/
def arrayHit (wen : Bool) : Bool := (List.finRange 4).any (hitN a) || wen

/-- `cache_block_data`: the block of the only way that hits. -/
def cacheBlockData : Block := muxOnehot 0 (hitN a) fun w => (a.dataSram w).rdData

def rdBlock (wen : Bool) (wrBlock : Block) : Block :=
  if wen then wrBlock else if arrayHit a wen then cacheBlockData a else 0

/-- The instructions from an offset on. -/
def maskFrom (off : Offset) (k : Fin 8) : Bool := decide ((off.extractLsb' 2 3).toNat ≤ k.val)

def rdBlockMask (wen : Bool) (k : Fin 8) : Bool := maskFrom a.addrOffsetPipe k && arrayHit a wen

def wenN (w : CacheWay) : Bool :=
  i.wen && a.lru.lruWay (addrIndex i.addr) (addrIndex i.addr) == w

def accessN (w : CacheWay) : Bool := hitN a w || wenN i a w

/-- One clock edge. -/
def nextArray : ArrayState where
  addrOffsetPipe := addrOffset i.addr
  addrIndexPipe := addrIndex i.addr
  addrTagPipe := addrTag i.addr
  lru := a.lru.next (addrIndex i.addr) (accessN i a)
  blockValid := fun w x => if wenN i a w && x == addrIndex i.addr then true else a.blockValid w x
  blockValidN := fun w => a.blockValid w (addrIndex i.addr)
  tagSram := fun w => (a.tagSram w).next (wenN i a w) (addrIndex i.addr) (addrTag i.addr)
  dataSram := fun w => (a.dataSram w).next (wenN i a w) (addrIndex i.addr) i.wrBlock

end R10K.Icache
