import R10K.Icache.Ctrl

/-! The lines the instruction cache holds.

As in the data cache the memories and valid bits are a set-associative store. The registered
outputs show the addressed places, but a valid bit that a refill sets is registered one
cycle late: a hit is a held line, and a held line hits unless it was just written. -/
namespace R10K.Icache
open Cache Select Assoc
variable {i : ArrayInputs} {a : ArrayState} {w : CacheWay}

/-- The lines in the memories. -/
def lines (a : ArrayState) : Store CacheWay Index Tag Block where
  valid := a.blockValid
  tag := fun w => (a.tagSram w).ram
  block := fun w => (a.dataSram w).ram

/-- The line of the address is in the cache. -/
def Held (a : ArrayState) (addr : BitVec 32) : Prop := (lines a).Present (addrIndex addr) (addrTag addr)

/-- The registered outputs show the places of the registered set. -/
structure Shows (a : ArrayState) : Prop where
  valid : ∀ w, a.blockValidN w = true → a.blockValid w a.addrIndexPipe = true
  tag : ∀ w, a.blockValidN w = true → (a.tagSram w).rdData = (a.tagSram w).ram a.addrIndexPipe
  block : ∀ w, a.blockValidN w = true → (a.dataSram w).rdData = (a.dataSram w).ram a.addrIndexPipe

/-- The registered valid bits are up to date. -/
def Fresh (a : ArrayState) : Prop := ∀ w, a.blockValidN w = a.blockValid w a.addrIndexPipe

/-- The array was presented this address one cycle ago. -/
structure Looked (a : ArrayState) (addr : BitVec 32) : Prop where
  offset : a.addrOffsetPipe = addrOffset addr
  index : a.addrIndexPipe = addrIndex addr
  tag : a.addrTagPipe = addrTag addr

theorem Shows.reset (tagSram : CacheWay → Sram Tag) (dataSram : CacheWay → Sram Block) :
    Shows (resetArray tagSram dataSram) :=
  ⟨fun _ h => h, fun _ h => absurd h Bool.false_ne_true, fun _ h => absurd h Bool.false_ne_true⟩

theorem Shows.next (i : ArrayInputs) (a : ArrayState) : Shows (nextArray i a) where
  valid := fun w hv => by
    simp only [nextArray] at hv ⊢
    split
    · rfl
    · exact hv
  tag := fun w _ => Sram.next_rdData ..
  block := fun w _ => Sram.next_rdData ..

theorem Looked.next (i : ArrayInputs) (a : ArrayState) : Looked (nextArray i a) i.addr := ⟨rfl, rfl, rfl⟩

/-- Without a write the valid bits registered are those there are. -/
theorem Fresh.next (h : i.wen = false) : Fresh (nextArray i a) := fun w => by
  simp only [nextArray, wenN, h, Bool.false_and, Bool.false_eq_true, if_false]

/-! ### Hits -/

section
variable {addr : BitVec 32}

/-- A way that hits holds the line presented one cycle ago. -/
theorem Shows.holds_pipe (h : Shows a) (hw : hitN a w = true) :
    (lines a).Holds w a.addrIndexPipe a.addrTagPipe := by
  rw [hitN, Bool.and_eq_true, beq_iff_eq] at hw
  exact ⟨h.valid w hw.2, (h.tag w hw.2).symm.trans hw.1⟩

theorem Shows.holds (h : Shows a) (hl : Looked a addr) (hw : hitN a w = true) :
    (lines a).Holds w (addrIndex addr) (addrTag addr) := by
  rw [← hl.index, ← hl.tag]
  exact h.holds_pipe hw

/-- A way that holds the line hits, once its valid bit is registered. -/
theorem Shows.hitN_of_holds (h : Shows a) (hf : Fresh a) (hl : Looked a addr)
    (hw : (lines a).Holds w (addrIndex addr) (addrTag addr)) : hitN a w = true := by
  rw [← hl.index, ← hl.tag] at hw
  have hv : a.blockValidN w = true := (hf w).trans hw.1
  rw [hitN, hv, Bool.and_true, beq_iff_eq, h.tag w hv]
  exact hw.2

theorem arrayHit_iff : arrayHit a false = true ↔ ∃ w, hitN a w = true := by
  simp [arrayHit]

/-- A hit is a hit of a held line. -/
theorem Shows.held (h : Shows a) (hl : Looked a addr) (hh : arrayHit a false = true) : Held a addr := by
  obtain ⟨w, hw⟩ := arrayHit_iff.1 hh
  exact ⟨w, h.holds hl hw⟩

/-- **With its valid bits registered the array hits exactly on the lines it holds.** -/
theorem Shows.hit_iff (h : Shows a) (hf : Fresh a) (hl : Looked a addr) :
    arrayHit a false = true ↔ Held a addr := by
  refine ⟨h.held hl, fun ⟨w, hw⟩ => arrayHit_iff.2 ⟨w, h.hitN_of_holds hf hl hw⟩⟩

/-- The block read on a hit is the line's. -/
theorem Shows.rdBlock_eq (h : Shows a) (hu : (lines a).Unique) (hl : Looked a addr)
    (hh : arrayHit a false = true) (b : Block) : ∃ w, (lines a).Holds w (addrIndex addr) (addrTag addr) ∧
      rdBlock a false b = (lines a).block w (addrIndex addr) := by
  obtain ⟨w, hw⟩ := arrayHit_iff.1 hh
  have honly : ∀ v, hitN a v = true → v = w := fun v hv =>
    hu _ _ v w (h.holds hl hv) (h.holds hl hw)
  refine ⟨w, h.holds hl hw, ?_⟩
  simp only [rdBlock, hh, Bool.false_eq_true, if_false, if_true]
  rw [cacheBlockData, muxOnehot_eq 0 _ hw honly, ← hl.index]
  exact h.block w (Bool.and_eq_true_iff.1 hw).2

end

/-! ### Writes -/

theorem lines_next_none (h : i.wen = false) : lines (nextArray i a) = lines a := by
  simp only [lines, nextArray, Sram.next, wenN, h, Bool.false_and, Bool.false_eq_true, if_false]

theorem lines_next_fill (h : i.wen = true) : lines (nextArray i a) =
    (lines a).fill (a.lru.lruWay (addrIndex i.addr) (addrIndex i.addr)) (addrIndex i.addr)
      (addrTag i.addr) i.wrBlock := by
  have hwen : ∀ v, wenN i a v = decide (v = a.lru.lruWay (addrIndex i.addr) (addrIndex i.addr)) :=
    fun v => by rw [wenN, h, Bool.true_and, Bool.beq_comm]; rfl
  simp only [lines, nextArray, Sram.next, Store.fill, hwen, Bool.and_eq_true, decide_eq_true_eq, beq_iff_eq]

end R10K.Icache
