import R10K.Core.Model
import R10K.Lib.Run
import R10K.Lib.Select

/-! What the register file's ports read (`prf.sv`).

A read port forwards the write of its own lane only. A register that another lane writes in
the same cycle is read as it was before, so a read shows the latest write exactly when no
other lane writes something else to its register. -/
namespace R10K.Core
open Select

/-- The ports: two read addresses and one write a lane. -/
structure PrfInputs where
  rdaAddr : Way → Prn
  rdbAddr : Way → Prn
  wrAddr : Way → Prn
  wrData : Way → BitVec 32
  wrEn : Way → Bool

abbrev Registers := Prn → BitVec 32

/-- A read port of a lane. -/
def rdOut (i : PrfInputs) (r : Registers) (w : Way) (p : Prn) : BitVec 32 :=
  if p = 0 then 0
  else if i.wrEn w && i.wrAddr w == p then i.wrData w
  else r p

def rdaOut (i : PrfInputs) (r : Registers) (w : Way) : BitVec 32 := rdOut i r w (i.rdaAddr w)
def rdbOut (i : PrfInputs) (r : Registers) (w : Way) : BitVec 32 := rdOut i r w (i.rdbAddr w)

/-- One clock edge: the lanes write in turn. -/
def nextPrf (i : PrfInputs) (r : Registers) : Registers := fun p =>
  (List.finRange 7).foldl (fun v w =>
    if i.wrEn w && i.wrAddr w != 0 && i.wrAddr w == p then i.wrData w else v) (r p)

/-- `u_prf` in the backend: it reads for the instructions issued and writes what is broadcast. -/
def prfIn (i : Inputs) (s : State) : PrfInputs where
  rdaAddr := fun w => (s.pipeIssuePkt w).op1Prn
  rdbAddr := fun w => (s.pipeIssuePkt w).op2Prn
  wrAddr := i.cdbPrn
  wrData := i.cdbResult
  wrEn := i.cdbValid

theorem regReadPkt_prf (i : Inputs) (s : State) (w : Way) :
    (regReadPkt i s w).op1Val = rdaOut (prfIn i s) s.registers w ∧
      (regReadPkt i s w).op2Val = rdbOut (prfIn i s) s.registers w := ⟨rfl, rfl⟩

theorem nextRegisters_prf (i : Inputs) (s : State) : nextRegisters i s = nextPrf (prfIn i s) s.registers := rfl

/-! ### The latest write -/

/-- The register file with the last value written to each register. -/
structure PrfLog where
  registers : Registers
  last : Prn → Option (BitVec 32)

/-- A lane writes a register. -/
def writes (i : PrfInputs) (p : Prn) (v : Way) : Bool := i.wrEn v && i.wrAddr v == p

namespace PrfLog

/-- There is no reset: the registers hold anything. -/
def init (r : Registers) : PrfLog := ⟨r, fun _ => none⟩

def next (i : PrfInputs) (l : PrfLog) : PrfLog where
  registers := nextPrf i l.registers
  last := fun p =>
    match (List.finRange 7).find? (writes i p) with
    | some v => some (i.wrData v)
    | none => l.last p

end PrfLog

/-- No register but 0 is written by two lanes. -/
def Distinct (i : PrfInputs) : Prop :=
  ∀ v w, i.wrEn v = true → i.wrEn w = true → i.wrAddr v = i.wrAddr w → i.wrAddr v ≠ 0 → v = w

/-- A port shows the latest write to a register. -/
structure Latest (i : PrfInputs) (l : PrfLog) (p : Prn) (out : BitVec 32) : Prop where
  zero : p = 0 → out = 0
  forwarded : p ≠ 0 → ∀ v, writes i p v = true → out = i.wrData v
  kept : p ≠ 0 → (∀ v, writes i p v = false) → ∀ d, l.last p = some d → out = d

/-- No other lane writes to the register what it does not hold already. -/
def Local (i : PrfInputs) (r : Registers) (w : Way) (p : Prn) : Prop :=
  p ≠ 0 → ∀ v, v ≠ w → writes i p v = true → i.wrData v = r p

variable {i : PrfInputs} {l : PrfLog} {r : Registers} {p : Prn} {v w : Way}

instance : Decidable (Distinct i) := inferInstanceAs (Decidable (∀ _ _, _))
instance : Decidable (Local i r w p) := inferInstanceAs (Decidable (_ → ∀ _, _))

theorem writes_iff : writes i p v = true ↔ i.wrEn v = true ∧ i.wrAddr v = p := by
  rw [writes, Bool.and_eq_true, beq_iff_eq]

theorem Distinct.writer (h : Distinct i) (hp : p ≠ 0) (hv : writes i p v = true) (hw : writes i p w = true) :
    v = w := by
  rw [writes_iff] at hv hw
  exact h v w hv.1 hw.1 (hv.2.trans hw.2.symm) (hv.2.trans_ne hp)

theorem nextPrf_eq (hp : p ≠ 0) : nextPrf i r p =
    (((List.finRange 7).reverse.find? (writes i p)).map i.wrData).getD (r p) := by
  have hlane : (fun w => i.wrEn w && i.wrAddr w != 0 && i.wrAddr w == p) = writes i p := by
    funext w
    rw [Bool.eq_iff_iff, writes_iff]
    simp only [Bool.and_eq_true, bne_iff_ne, beq_iff_eq]
    exact ⟨fun h => ⟨h.1.1, h.2⟩, fun h => ⟨⟨h.1, h.2.trans_ne hp⟩, h.2⟩⟩
  rw [nextPrf, foldl_last (fun w => i.wrEn w && i.wrAddr w != 0 && i.wrAddr w == p), hlane]

/-- What is written is held. -/
theorem nextPrf_write (h : Distinct i) (hp : p ≠ 0) (hv : writes i p v = true) : nextPrf i r p = i.wrData v := by
  rw [nextPrf_eq hp]
  cases hf : (List.finRange 7).reverse.find? (writes i p) with
  | some w => rw [h.writer hp (List.find?_some hf) hv]; rfl
  | none => exact absurd hv (List.find?_eq_none.1 hf v (by simp))

theorem nextPrf_keep (hp : p ≠ 0) (hno : ∀ v, writes i p v = false) : nextPrf i r p = r p := by
  rw [nextPrf_eq hp, List.find?_eq_none.2 fun v _ => by rw [hno v]; decide]
  rfl

namespace PrfLog

/-- The registers hold what was written last. -/
def Holds (l : PrfLog) : Prop := ∀ p, p ≠ 0 → ∀ d, l.last p = some d → l.registers p = d

theorem Holds.init (r : Registers) : (PrfLog.init r).Holds := by
  intro p hp d hd
  cases hd

theorem Holds.next (h : l.Holds) (hi : Distinct i) : (l.next i).Holds := by
  intro p hp d hd
  rw [PrfLog.next] at hd ⊢
  dsimp only at hd ⊢
  cases hf : (List.finRange 7).find? (writes i p) with
  | some v =>
    rw [hf] at hd
    rw [nextPrf_write hi hp (List.find?_some hf)]
    exact Option.some.inj hd
  | none =>
    rw [hf] at hd
    have hno : ∀ v, writes i p v = false := fun v =>
      Bool.eq_false_iff.2 (List.find?_eq_none.1 hf v (List.mem_finRange v))
    rw [nextPrf_keep hp hno]
    exact h p hp d hd

/-- **A port shows the latest write exactly when no other lane writes past it.** -/
theorem Holds.latest_iff (h : l.Holds) (hi : Distinct i) (w : Way) (p : Prn) :
    Latest i l p (rdOut i l.registers w p) ↔ Local i l.registers w p := by
  have hout : p ≠ 0 → rdOut i l.registers w p = if writes i p w = true then i.wrData w else l.registers p :=
    fun hp => if_neg hp
  constructor
  · intro hl hp v hvw hv
    have hw : writes i p w ≠ true := fun hw => hvw (hi.writer hp hv hw)
    rw [← hl.forwarded hp v hv, hout hp, if_neg hw]
  · intro hl
    refine ⟨fun hp => if_pos hp, fun hp v hv => ?_, fun hp hno d hd => ?_⟩
    · rw [hout hp]
      by_cases hvw : v = w
      · rw [← hvw, if_pos hv]
      · rw [if_neg fun hw => hvw (hi.writer hp hv hw), hl hp v hvw hv]
    · rw [hout hp, if_neg (by rw [hno w]; decide)]
      exact h p hp d hd

end PrfLog

/-- **When reads see the latest write**: on either port of a lane, exactly when no other lane
writes something else to the register in this cycle. -/
theorem prf_latest (h : Run.Reach PrfLog.next (fun i _ => Distinct i) (.init r) l) (hi : Distinct i) (w : Way) :
    (Latest i l (i.rdaAddr w) (rdaOut i l.registers w) ↔ Local i l.registers w (i.rdaAddr w)) ∧
      (Latest i l (i.rdbAddr w) (rdbOut i l.registers w) ↔ Local i l.registers w (i.rdbAddr w)) := by
  have hl := h.invariant PrfLog.Holds (.init r) fun _ _ hl hi => hl.next hi
  exact ⟨hl.latest_iff hi w _, hl.latest_iff hi w _⟩

/-! ### A write on the lane of the read, and on another -/

/-- A lane writes p5 while lane 0 reads it. -/
def writeIn (v : Way) (d : BitVec 32) : PrfInputs where
  rdaAddr := fun _ => 5
  rdbAddr := fun _ => 0
  wrAddr := fun _ => 5
  wrData := fun _ => d
  wrEn := fun w => w == v

def zeroLog : PrfLog := .init fun _ => 0

theorem prf_latest_own : Latest (writeIn 0 7) (zeroLog.next (writeIn 0 3)) 5
    (rdaOut (writeIn 0 7) (zeroLog.next (writeIn 0 3)).registers 0) :=
  (prf_latest (.step (writeIn 0 3) .init (by decide)) (by decide) 0).1.2 (by decide)

/-- The value written by lane 1 is missed. -/
theorem prf_stale : Distinct (writeIn 1 7) ∧
    rdaOut (writeIn 1 7) (zeroLog.next (writeIn 0 3)).registers 0 = 3 ∧
    ¬ Latest (writeIn 1 7) (zeroLog.next (writeIn 0 3)) 5
      (rdaOut (writeIn 1 7) (zeroLog.next (writeIn 0 3)).registers 0) := by
  refine ⟨by decide, by decide, fun h => ?_⟩
  exact absurd (h.forwarded (by decide) 1 (by decide)) (by decide)

end R10K.Core
