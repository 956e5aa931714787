import R10K.Dcache.Lines
import R10K.Lsq.Forward

/-! The two sub-word data paths.

The cache merges a store into a line of thirty-two bytes and takes a load's part out of it;
the store queue shifts the datum into its word and takes the part out of that. Both are
read on one memory of bytes: the line holds the store's write, and each path reads a load
from it. -/
namespace R10K.Dcache
open Cache Lsq
variable {i : ArrayInputs} {a a' : ArrayState}

/-- The bytes of a line, by address. -/
def lineMem (b : Block) : Mem := fun x => b (addrOffset x)

/-- The array presents a line to a load that was presented one cycle ago. -/
structure Presents (a : ArrayState) (b : Block) (addr : BitVec 32) (size : BitVec 3) : Prop where
  block : rdBlock a = b
  offset : a.addrOffsetPipe = addrOffset addr
  size : a.sizePipe = size

/-- The line a store is merged into: the one read, or the one refilled. -/
def baseBlock (i : ArrayInputs) (a : ArrayState) : Block := if i.refillEn then i.refillLine else rdBlock a

/-- A datum cut to a size and extended as the size code says. -/
def extend (size : BitVec 3) (d : BitVec 32) : BitVec 32 :=
  match memSize size with
  | .byte => if size.msb then (d.setWidth 8).setWidth 32 else (d.setWidth 8).signExtend 32
  | .half => if size.msb then (d.setWidth 16).setWidth 32 else (d.setWidth 16).signExtend 32
  | .word | .double => d

/-- A load's bytes lie within a store's. -/
structure Within (addr : BitVec 32) (size : BitVec 3) (stAddr : BitVec 32) (stSize : BitVec 3) : Prop where
  start : stAddr.toNat ≤ addr.toNat
  last : addr.toNat + width size ≤ stAddr.toNat + width stSize

/-- The lookup of a load finds the store presented to the array. -/
structure Finds (j : Stq.Inputs) (q : Stq.State) (i : ArrayInputs) : Prop where
  noFlush : j.pipeFlush = false
  found : (Stq.fwdSearch j q).2 = true
  addr : (q.stqEntry (Stq.fwdSearch j q).1).addr = i.addr
  data : (q.stqEntry (Stq.fwdSearch j q).1).data = i.stData
  size : (q.stqEntry (Stq.fwdSearch j q).1).dataSize = i.size
  dataValid : (q.stqEntry (Stq.fwdSearch j q).1).dataValid = true

/-- How the two paths treat one store. -/
structure Agree (i : ArrayInputs) (a : ArrayState) : Prop where
  /-- The merge writes the bytes addressed, the low one first, -/
  inside : ∀ b < width i.size, wrBlock i a (addrOffset (i.addr + BitVec.ofNat 32 b)) =
    i.stData.extractLsb' (b * 8) 8
  /-- and no other. -/
  outside : ∀ k, (∀ b < width i.size, k ≠ addrOffset (i.addr + BitVec.ofNat 32 b)) →
    wrBlock i a k = baseBlock i a k
  /-- When one way is written and no line is held twice, the array then presents the merged line. -/
  presents : ∀ {w}, (∀ v, wenN i a v = decide (v = w)) → (lines (nextArray i a)).Unique →
    Presents (nextArray i a) (wrBlock i a) i.addr i.size
  /-- Read back at its address and size, it is the datum cut and extended. -/
  back : ∀ {a' size}, Presents a' (wrBlock i a) i.addr size → memSize size = memSize i.size →
    rdData a' = some (extend size i.stData)
  /-- A load within it is forwarded what it reads from the merged line. -/
  forward : ∀ {a' j q}, Finds j q i → Access j.fireLdAddr j.fireLdDataSize →
    Within j.fireLdAddr j.fireLdDataSize i.addr i.size →
    Presents a' (wrBlock i a) j.fireLdAddr j.fireLdDataSize →
    (Stq.next j q).fwdValid = true ∧ rdData a' = some (Stq.next j q).fwdData

/-! ### Bytes of a line -/

section
variable {addr : BitVec 32} {size : BitVec 3}

theorem addrOffset_toNat (x : BitVec 32) : (addrOffset x).toNat = x.toNat % 32 := by
  rw [addrOffset, BitVec.extractLsb'_toNat, Nat.shiftRight_eq_div_pow, Nat.pow_zero, Nat.div_one]

/-- The bytes of an access lie in its line, one after the other. -/
theorem offset_byte (h : Access addr size) {b : Nat} (hb : b < width size) :
    (addrOffset (addr + BitVec.ofNat 32 b)).toNat = (addrOffset addr).toNat + b := by
  have hbyte := h.byte hb
  have hfit := h.fits
  rw [addrOffset_toNat, addrOffset_toNat, hbyte]
  omega

/-- An address with the offset of a byte of an access, in its line, is that byte. -/
theorem byteAddr_byte (h : Access addr size) {b : Nat} (hb : b < width size) :
    byteAddr (addrTag addr) (addrIndex addr) (addrOffset (addr + BitVec.ofNat 32 b)) =
      addr + BitVec.ofNat 32 b := by
  have ha := addr_toNat addr
  apply BitVec.eq_of_toNat_eq
  rw [byteAddr_toNat, offset_byte h hb, h.byte hb]
  omega

/-- A byte of the unit an access fills is its byte in the line. -/
theorem rdPart_eq (b : Block) (h : Access addr size) {n : Nat} (hn : n < width size) :
    rdPart b (width size) (addrOffset addr) n = lineMem b (addr + BitVec.ofNat 32 n) := by
  have hal := h.aligned
  have hoff := addrOffset_toNat addr
  have hbyte := offset_byte h hn
  have hunit : (addrOffset addr).toNat / width size * width size = (addrOffset addr).toNat := by
    rcases width_cases size with hz | hz | hz <;> rw [hz] at hal ⊢ <;> omega
  rw [rdPart, lineMem, hunit, ← hbyte, BitVec.ofNat_toNat, BitVec.setWidth_eq]

/-- **The array reads a load from the bytes of its line.** -/
theorem rdData_eq {b : Block} (h : Access addr size) (hp : Presents a b addr size) :
    rdData a = some (readBytes (lineMem b) addr size) := by
  have hpart := fun n => rdPart_eq b h (n := n)
  have h0 : 0 < width size → rdPart b (width size) (addrOffset addr) 0 = lineMem b addr := fun hlt => by
    simpa using hpart 0 hlt
  have h1 : 1 < width size → rdPart b (width size) (addrOffset addr) 1 = lineMem b (addr + 1) := hpart 1
  have h2 : 2 < width size → rdPart b (width size) (addrOffset addr) 2 = lineMem b (addr + 2) := hpart 2
  have h3 : 3 < width size → rdPart b (width size) (addrOffset addr) 3 = lineMem b (addr + 3) := hpart 3
  have hsized := h.sized
  rw [rdData, hp.block, hp.offset, hp.size, readBytes]
  unfold width at h0 h1 h2 h3
  cases hz : memSize size <;> simp only [hz] at h0 h1 h2 h3 ⊢
  · rw [h0 (by decide)]
    cases size.msb <;> rfl
  · rw [h0 (by decide), h1 (by decide)]
    cases size.msb <;> rfl
  · rw [h0 (by decide), h1 (by decide), h2 (by decide), h3 (by decide)]
  · exact absurd hz hsized

/-- Bytes that are a datum's are read as the datum, cut and extended. -/
theorem readBytes_datum {m : Mem} {d : BitVec 32}
    (hm : ∀ b < width size, m (addr + BitVec.ofNat 32 b) = d.extractLsb' (b * 8) 8)
    (hsized : memSize size ≠ .double) : readBytes m addr size = extend size d := by
  have h0 : 0 < width size → m addr = d.extractLsb' 0 8 := fun hlt => by simpa using hm 0 hlt
  have h1 : 1 < width size → m (addr + 1) = d.extractLsb' 8 8 := hm 1
  have h2 : 2 < width size → m (addr + 2) = d.extractLsb' 16 8 := hm 2
  have h3 : 3 < width size → m (addr + 3) = d.extractLsb' 24 8 := hm 3
  have hhalf : d.extractLsb' 8 8 ++ d.extractLsb' 0 8 = d.extractLsb' 0 16 := slice_append d 0 8 8
  unfold width at h0 h1 h2 h3
  unfold readBytes extend
  cases hz : memSize size <;> simp only [hz] at h0 h1 h2 h3 ⊢
  · rw [h0 (by decide), slice_low]
  · rw [h0 (by decide), h1 (by decide), hhalf, slice_low]
  · rw [h0 (by decide), h1 (by decide), h2 (by decide), h3 (by decide), slice_word]
  · exact absurd hz hsized

end

/-! ### The merge -/

section
variable (h : i.stEn = true) (ha : Access i.addr i.size)
include h ha

theorem wrBlock_store (k : Offset) : wrBlock i a k =
    (writeBytes i.addr i.stData i.size (byteAddr (addrTag i.addr) (addrIndex i.addr) k)).getD
      (baseBlock i a k) := by
  have hmerge : wrBlock i a = merge (baseBlock i a) i.size (addrOffset i.addr) i.stData := by
    rw [wrBlock, baseBlock, h, if_pos rfl]
    split <;> rfl
  rw [hmerge, merge_eq ha]

theorem wrBlock_inside {b : Nat} (hb : b < width i.size) :
    wrBlock i a (addrOffset (i.addr + BitVec.ofNat 32 b)) = i.stData.extractLsb' (b * 8) 8 := by
  rw [wrBlock_store h ha, byteAddr_byte ha hb, writeBytes_at ha ha hb, if_pos (by omega), Option.getD_some,
    Nat.add_sub_cancel_left]

theorem wrBlock_outside {k : Offset}
    (hk : ∀ b < width i.size, k ≠ addrOffset (i.addr + BitVec.ofNat 32 b)) :
    wrBlock i a k = baseBlock i a k := by
  rw [wrBlock_store h ha, writeBytes, if_neg, Option.getD_none]
  intro hlt
  refine hk _ hlt ?_
  have hk' := byteAddr_toNat (addrTag i.addr) (addrIndex i.addr) k
  have hklt := k.isLt
  rw [BitVec.ofNat_toNat, BitVec.setWidth_eq, BitVec.add_comm, BitVec.sub_add_cancel]
  apply BitVec.eq_of_toNat_eq
  rw [addrOffset_toNat, hk']
  omega

/-- What is stored is read back. -/
theorem rdData_stored {size : BitVec 3} (hp : Presents a' (wrBlock i a) i.addr size)
    (hsize : memSize size = memSize i.size) : rdData a' = some (extend size i.stData) := by
  have hwidth : width size = width i.size := by rw [width, width, hsize]
  have hacc : Access i.addr size := ⟨hsize ▸ ha.sized, hwidth ▸ ha.aligned⟩
  rw [rdData_eq hacc hp, readBytes_datum _ hacc.sized]
  intro b hb
  exact wrBlock_inside h ha (hwidth ▸ hb)

end

/-- The line written is read in the next cycle. -/
theorem Presents.written {w : CacheWay} (hw : ∀ v, wenN i a v = decide (v = w))
    (hu : (lines (nextArray i a)).Unique) : Presents (nextArray i a) (wrBlock i a) i.addr i.size where
  block := by
    have hshows := Shows.next i a
    have hfill := lines_next_fill hw
    have hheld : hitN (nextArray i a) w = true := by
      rw [hshows.hitN_iff, hfill]
      exact Assoc.Store.holds_fill_self
    rw [hshows.rdBlock_eq hu hheld, hfill]
    exact if_pos ⟨rfl, rfl⟩
  offset := rfl
  size := rfl

/-! ### The forwarding -/

section
variable {j : Stq.Inputs} {q : Stq.State} (hf : Finds j q i) (ha : Access i.addr i.size)
  (hl : Access j.fireLdAddr j.fireLdDataSize) (hin : Within j.fireLdAddr j.fireLdDataSize i.addr i.size)
include hf

theorem Finds.word : wordAddr j.fireLdAddr = wordAddr i.addr := by
  have hmatch := Stq.fwdSearch_match hf.found
  simp only [Stq.fwdMatch, Bool.and_eq_true, beq_iff_eq] at hmatch
  rw [wordAddr, hmatch.1.1.1.1, hf.addr]
  rfl

include ha hl hin

/-- The offsets compared are those of the bytes. -/
theorem Finds.covers : offset i.addr ≤ offset j.fireLdAddr ∧
    Stq.offsetEnd (offset j.fireLdAddr) j.fireLdDataSize ≤ Stq.offsetEnd (offset i.addr) i.size := by
  have hword := wordAddr_eq.1 hf.word
  have hstart := hin.start
  have hlast := hin.last
  rw [BitVec.le_def, BitVec.le_def, offset_toNat, offset_toNat, hl.end_eq, ha.end_eq]
  omega

theorem Finds.fwdValid : (Stq.next j q).fwdValid = true := by
  rw [Stq.fwdValid_iff]
  refine ⟨hf.noFlush, hf.dataValid, hf.found, ?_⟩
  obtain ⟨hstart, hend⟩ := hf.covers ha hl hin
  simp only [offset] at hstart hend
  simp only [Stq.addrConflict, hf.addr, hf.size, hstart, hend, decide_true, Bool.and_true, Bool.not_true,
    Bool.and_false]

/-- **A forwarded load gets what it would read from the merged line.** -/
theorem Finds.fwdData (h : i.stEn = true) (hp : Presents a' (wrBlock i a) j.fireLdAddr j.fireLdDataSize) :
    rdData a' = some (Stq.next j q).fwdData := by
  obtain ⟨hstart, hend⟩ := hf.covers ha hl hin
  have hword := wordAddr_eq.1 hf.word
  have hline : addrTag j.fireLdAddr = addrTag i.addr ∧ addrIndex j.fireLdAddr = addrIndex i.addr := by
    simp only [← BitVec.toNat_inj, addrTag, addrIndex, BitVec.extractLsb'_toNat, Nat.shiftRight_eq_div_pow]
    omega
  have hdata : (Stq.next j q).fwdData =
      Stq.loadBytes (offset j.fireLdAddr) j.fireLdDataSize (i.stData <<< ((offset i.addr).toNat * 8)) := by
    rw [← hf.data, ← hf.addr]
    rfl
  rw [rdData_eq hl hp, hdata, loadBytes_eq hl]
  intro b hb
  have hbyte := byteAddr_byte hl hb
  rw [hline.1, hline.2] at hbyte
  rw [lineMem, wrBlock_store h ha, hbyte, writeBytes_cover hl ha hf.word hstart hend hb, Option.getD_some]

end

/-- **The two data paths agree** on every aligned store, whatever the line it is merged into. -/
theorem paths_agree (h : i.stEn = true) (ha : Access i.addr i.size) : Agree i a where
  inside := fun _ hb => wrBlock_inside h ha hb
  outside := fun _ hk => wrBlock_outside h ha hk
  presents := fun hw hu => .written hw hu
  back := fun hp hsize => rdData_stored h ha hp hsize
  forward := fun hf hl hin hp => ⟨hf.fwdValid ha hl hin, hf.fwdData ha hl hin h hp⟩

/-- A halfword refilled together with its store, and the queue's lookup of that store. -/
def halfStore : ArrayInputs where
  addr := 0x102
  size := 1
  refillLine := fun k => k.setWidth 8
  refillEn := true
  stData := 0x8765
  stEn := true

theorem paths_agree_half : Agree halfStore (resetArray (fun _ => ⟨fun _ => 0, 0⟩) fun _ => ⟨fun _ => 0, 0⟩) ∧
    Finds halfLookup halfState halfStore :=
  ⟨paths_agree rfl (by decide), rfl, by decide, by decide, by decide, by decide, by decide⟩

end R10K.Dcache
