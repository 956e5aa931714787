import R10K.Lib.Assoc
import R10K.Lib.Lanes
import Mathlib.Data.BitVec

/-! What the two caches share.

Both have sixteen sets of four ways and lines of thirty-two bytes, keep tags and lines in
memories of `sram.sv`, and choose the way to replace by the same tree of three bits a set. -/
namespace R10K.Cache

/-- `OFFSET_WIDTH` bits: a byte of a line. -/
abbrev Offset := BitVec 5
/-- `INDEX_WIDTH` bits: a set. -/
abbrev Index := BitVec 4
/-- `TAG_WIDTH` bits. -/
abbrev Tag := BitVec 23
/-- `WAY_NUM` ways. -/
abbrev CacheWay := Fin 4

def addrOffset (addr : BitVec 32) : Offset := addr.extractLsb' 0 5
def addrIndex (addr : BitVec 32) : Index := addr.extractLsb' 5 4
def addrTag (addr : BitVec 32) : Tag := addr.extractLsb' 9 23

/-- The line of an address: the address less its offset. -/
def lineOf (addr : BitVec 32) : Index × Tag := (addrIndex addr, addrTag addr)

/-- The byte address with this line and offset. -/
def byteAddr (t : Tag) (x : Index) (k : Offset) : BitVec 32 := t ++ x ++ k

/-- `BUS_COMMAND`, to the memory. -/
inductive BusCommand where
  | busNone | busLoad | busStore
deriving DecidableEq, Repr

/-- The address of the line of an address: its offset cleared. -/
def lineBase (addr : BitVec 32) : BitVec 32 := addr.extractLsb' 5 27 ++ (0 : BitVec 5)

theorem byteAddr_toNat (t : Tag) (x : Index) (k : Offset) :
    (byteAddr t x k).toNat = t.toNat * 512 + x.toNat * 32 + k.toNat := by
  have h1 := t.isLt
  have h2 := x.isLt
  have h3 := k.isLt
  unfold byteAddr
  rw [BitVec.toNat_append, BitVec.toNat_append, ← Nat.shiftLeft_add_eq_or_of_lt (by omega),
    ← Nat.shiftLeft_add_eq_or_of_lt (by omega), Nat.shiftLeft_eq, Nat.shiftLeft_eq]
  omega

theorem addr_toNat (addr : BitVec 32) :
    addr.toNat = (addrTag addr).toNat * 512 + (addrIndex addr).toNat * 32 + (addrOffset addr).toNat := by
  have h := addr.isLt
  simp only [addrTag, addrIndex, addrOffset, BitVec.extractLsb'_toNat, Nat.shiftRight_eq_div_pow]
  omega

theorem lineBase_toNat (addr : BitVec 32) : (lineBase addr).toNat = addr.toNat / 32 * 32 := by
  have h := addr.isLt
  rw [lineBase, BitVec.toNat_append, ← Nat.shiftLeft_add_eq_or_of_lt (BitVec.isLt _), Nat.shiftLeft_eq,
    BitVec.extractLsb'_toNat, Nat.shiftRight_eq_div_pow]
  have : (0 : BitVec 5).toNat = 0 := rfl
  omega

/-- An address and the first of its line have one line. -/
theorem lineBase_line (addr : BitVec 32) :
    lineBase (byteAddr (addrTag addr) (addrIndex addr) 0) = lineBase addr := by
  have ha := addr_toNat addr
  have hb := byteAddr_toNat (addrTag addr) (addrIndex addr) 0
  have ho := (addrOffset addr).isLt
  have h0 : (0 : Offset).toNat = 0 := rfl
  apply BitVec.eq_of_toNat_eq
  rw [lineBase_toNat, lineBase_toNat]
  omega

/-! ### `sram.sv` -/

/-- A memory with a registered output. -/
structure Sram (α : Type) where
  ram : Index → α
  rdData : α

/-- One clock edge: the output shows what the memory then holds at the address. -/
def Sram.next {α : Type} (m : Sram α) (wen : Bool) (addr : Index) (wrData : α) : Sram α where
  ram := fun x => if wen && x == addr then wrData else m.ram x
  rdData := if wen then wrData else m.ram addr

theorem Sram.next_rdData {α : Type} (m : Sram α) (wen : Bool) (addr : Index) (wrData : α) :
    (m.next wen addr wrData).rdData = (m.next wen addr wrData).ram addr := by
  cases wen <;> simp [Sram.next]

/-! ### The least recently used way -/

/-- `lru_tree_0` and `lru_tree_1`: the half of a set and, in each half, the way. -/
structure LruTree where
  lruTree0 : Index → Bool
  lruTree1 : Index → Fin 2 → Bool

namespace LruTree

def reset : LruTree := ⟨fun _ => false, fun _ _ => false⟩

/-- `lru_way[i]`, computed for the addressed set only. -/
def lruWay (t : LruTree) (addrIndex i : Index) : CacheWay :=
  if addrIndex = i then
    match t.lruTree0 i, t.lruTree1 i 1, t.lruTree1 i 0 with
    | false, _, false => 0
    | false, _, true => 1
    | true, false, _ => 2
    | true, true, _ => 3
  else 0

/-- The one way accessed, if the case on `access_N` names one. -/
def accessed (access : CacheWay → Bool) : Option CacheWay :=
  (List.finRange 4).find? fun w => decide (∀ v, access v = decide (v = w))

/-- One clock edge: the addressed set turns away from the way accessed. -/
def next (t : LruTree) (addrIndex : Index) (access : CacheWay → Bool) : LruTree where
  lruTree0 := fun i =>
    if addrIndex = i then
      match accessed access with
      | some w => decide (w.val < 2)
      | none => t.lruTree0 i
    else t.lruTree0 i
  lruTree1 := fun i half =>
    if addrIndex = i then
      match accessed access with
      | some w => if w.val / 2 = half.val then decide (w.val % 2 = 0) else t.lruTree1 i half
      | none => t.lruTree1 i half
    else t.lruTree1 i half

end LruTree

end R10K.Cache
