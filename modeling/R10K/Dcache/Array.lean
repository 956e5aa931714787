import R10K.Cache.Sets
import R10K.Lib.Select
import R10K.Lsq.Bytes

/-! The array of the data cache (`dcache_array.sv`).

The memories and the valid and dirty bits answer in the cycle after they are addressed, so
the array registers the address beside them: a hit is a hit of the address presented one
cycle ago, while a write goes to the set and under the tag of the address presented now.
A write is a store into the line that was read, a refill, or a refill with a store merged
into it. -/
namespace R10K.Dcache
open Cache Select

/-- A line, as its bytes. -/
abbrev Block := Offset → BitVec 8

structure ArrayInputs where
  addr : BitVec 32
  size : BitVec 3
  refillLine : Block
  refillEn : Bool
  stData : BitVec 32
  stEn : Bool

/-- The registers of the array. -/
structure ArrayState where
  addrOffsetPipe : Offset
  addrIndexPipe : Index
  addrTagPipe : Tag
  sizePipe : BitVec 3
  lru : LruTree
  blockValid : CacheWay → Index → Bool
  blockDirty : CacheWay → Index → Bool
  rdValid : CacheWay → Bool
  rdDirty : CacheWay → Bool
  tagSram : CacheWay → Sram Tag
  dataSram : CacheWay → Sram Block

/-- `rst_n` low. The memories have no reset and hold anything. -/
def resetArray (tagSram : CacheWay → Sram Tag) (dataSram : CacheWay → Sram Block) : ArrayState where
  addrOffsetPipe := 0
  addrIndexPipe := 0
  addrTagPipe := 0
  sizePipe := 0
  lru := .reset
  blockValid := fun _ _ => false
  blockDirty := fun _ _ => false
  rdValid := fun _ => false
  rdDirty := fun _ => false
  tagSram := tagSram
  dataSram := dataSram

variable (i : ArrayInputs) (a : ArrayState)

/-! ### Reading -/

def hitN (w : CacheWay) : Bool := (a.tagSram w).rdData == a.addrTagPipe && a.rdValid w

def hit : Bool := (List.finRange 4).any (hitN a)

/-- `rd_block`: the block of the only way that hits. -/
def rdBlock : Block := muxOnehot 0 (hitN a) fun w => (a.dataSram w).rdData

/-- `lru_way[addr_index_pipe]`, which is 0 unless the address presented now is of that set. -/
def victimPipe : CacheWay := a.lru.lruWay (addrIndex i.addr) a.addrIndexPipe

def dirty : Bool := a.rdDirty (victimPipe i a)

def dirtyAddr : BitVec 32 := byteAddr (a.tagSram (victimPipe i a)).rdData a.addrIndexPipe 0

/-- A part of a block: the bytes of the `unit` that holds the offset, the low one first. -/
def rdPart (b : Block) (unit : Nat) (off : Offset) (j : Nat) : BitVec 8 :=
  b (BitVec.ofNat 5 (off.toNat / unit * unit + j))

/-- `rd_data`; `none` for a double, for which the case has no branch. -/
def rdData : Option (BitVec 32) :=
  let off := a.addrOffsetPipe
  let byte := rdPart (rdBlock a) 1 off 0
  let half := rdPart (rdBlock a) 2 off 1 ++ rdPart (rdBlock a) 2 off 0
  let word := rdPart (rdBlock a) 4 off 3 ++ rdPart (rdBlock a) 4 off 2 ++ rdPart (rdBlock a) 4 off 1 ++
    rdPart (rdBlock a) 4 off 0
  match memSize a.sizePipe with
  | .byte => some (if !a.sizePipe.msb then byte.signExtend 32 else byte.setWidth 32)
  | .half => some (if !a.sizePipe.msb then half.signExtend 32 else half.setWidth 32)
  | .word => some word
  | .double => none

/-! ### Writing -/

/-- A block with the `unit` that holds the offset replaced by as many bytes of the datum. -/
def wrPart (b : Block) (unit : Nat) (off : Offset) (d : BitVec 32) : Block := fun k =>
  if k.toNat / unit = off.toNat / unit then d.extractLsb' (k.toNat % unit * 8) 8 else b k

/-- The case over the size: a store of a double writes nothing. -/
def merge (b : Block) (size : BitVec 3) (off : Offset) (d : BitVec 32) : Block :=
  match memSize size with
  | .byte => wrPart b 1 off d
  | .half => wrPart b 2 off d
  | .word => wrPart b 4 off d
  | .double => b

def wrBlock : Block :=
  if i.refillEn then
    if i.stEn then merge i.refillLine i.size (addrOffset i.addr) i.stData else i.refillLine
  else merge (rdBlock a) i.size (addrOffset i.addr) i.stData

def wenN (w : CacheWay) : Bool :=
  if hit a then (i.stEn || i.refillEn) && hitN a w
  else (i.stEn || i.refillEn) && w == a.lru.lruWay (addrIndex i.addr) (addrIndex i.addr)

def accessN (w : CacheWay) : Bool := hitN a w || wenN i a w

/-- One clock edge. A refill without a store clears the dirty bits of its whole way. -/
def nextArray : ArrayState where
  addrOffsetPipe := addrOffset i.addr
  addrIndexPipe := addrIndex i.addr
  addrTagPipe := addrTag i.addr
  sizePipe := i.size
  lru := a.lru.next (addrIndex i.addr) (accessN i a)
  blockValid := fun w x => if wenN i a w && x == addrIndex i.addr then true else a.blockValid w x
  blockDirty := fun w x =>
    if wenN i a w && i.stEn then if x = addrIndex i.addr then true else a.blockDirty w x
    else if wenN i a w && i.refillEn then false
    else a.blockDirty w x
  rdValid := fun w => if wenN i a w then true else a.blockValid w (addrIndex i.addr)
  rdDirty := fun w => if wenN i a w then true else a.blockDirty w (addrIndex i.addr)
  tagSram := fun w => (a.tagSram w).next (wenN i a w) (addrIndex i.addr) (addrTag i.addr)
  dataSram := fun w => (a.dataSram w).next (wenN i a w) (addrIndex i.addr) (wrBlock i a)

end R10K.Dcache
