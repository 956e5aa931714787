import R10K.Fu.Model
import R10K.Rename.Encodings

/-! The multiplier lane against RV32M.

Function, products and packet move through two stages each; a history of the lane is
the list of its cycles, the last one first. What leaves the second stage is the packet
given two cycles before, if neither cycle flushed, and its result is the multiplication
of that packet — except for MULHSU, which takes the high word of the unsigned product. -/
namespace R10K.Fu
open Rv32
open Decoder (mulFunc)

/-- What a cycle gives the functional units. -/
structure Cycle where
  pipeFlush : Bool := false
  pkt : Way → RegReadPacket := fun _ => {}

/-- The state after a history that began at reset. -/
def after : List Cycle → State
  | [] => {}
  | c :: past => next c.pipeFlush c.pkt (after past)

/-- The packet given two cycles before, when neither flushed. -/
def emerging : List Cycle → Option RegReadPacket
  | c :: c' :: _ => if c.pipeFlush || c'.pipeFlush then none else some (c'.pkt 4)
  | _ => none

/-- The lane is given valid packets for multiplications only. -/
def Stream (history : List Cycle) : Prop :=
  ∀ c ∈ history, (c.pkt 4).packetValid = true → ∃ op, (c.pkt 4).opType = mulFunc op

/-- What lane 4 passes on is a packet it was given, with its product. -/
def Multiplies (history : List Cycle) : Prop :=
  ∀ pkt, (executePkt pkt (after history) 4).packetValid = true → ∃ p op, emerging history = some p ∧
    p.opType = mulFunc op ∧
    executePkt pkt (after history) 4 = executed p (op.eval (op1MuxOut p) (op2MuxOut p))

/-- The unsigned product serves: no MULHSU with a negative first operand and a nonzero
second one leaves the lane. -/
def UnsignedServes (history : List Cycle) : Prop :=
  ∀ p, emerging history = some p → p.packetValid = true → p.opType = .mulhsu →
    (op1MuxOut p).msb = false ∨ op2MuxOut p = 0

/-! ### The pipelines stay together -/

/-- The second stage holds what the packet given two cycles before brought in. -/
theorem after_stage1 (history : List Cycle) :
    (after history).stage1 = ((emerging history).map multIn).getD {} := by
  match history with
  | [] => rfl
  | [c] => cases hc : c.pipeFlush <;> simp [after, next, emerging, hc]
  | c :: c' :: past =>
    cases hc : c.pipeFlush <;> cases hc' : c'.pipeFlush <;> simp [after, next, emerging, hc, hc']

theorem emerging_mem {history : List Cycle} {p : RegReadPacket} (h : emerging history = some p) :
    ∃ c ∈ history, p = c.pkt 4 := by
  match history with
  | [] => cases h
  | [_] => cases h
  | c :: c' :: past =>
    refine ⟨c', by simp, ?_⟩
    rw [emerging] at h
    split at h
    · cases h
    · exact (Option.some.inj h).symm

/-- What lane 4 passes on when a packet comes out. -/
theorem executePkt_mult (pkt : Way → RegReadPacket) {history : List Cycle} {p : RegReadPacket}
    (h : emerging history = some p) :
    executePkt pkt (after history) 4 = executed p (multResult (multIn p)) := by
  show executed (after history).stage1.pkt (multResult (after history).stage1) = _
  rw [after_stage1, h]
  rfl

/-- Nothing valid is passed on without a packet. -/
theorem emerging_of_valid (pkt : Way → RegReadPacket) {history : List Cycle}
    (h : (executePkt pkt (after history) 4).packetValid = true) : ∃ p, emerging history = some p := by
  have hv : (after history).stage1.pkt.packetValid = true := h
  rw [after_stage1] at hv
  cases hp : emerging history with
  | none =>
    rw [hp] at hv
    cases hv
  | some p => exact ⟨p, rfl⟩

/-! ### The products -/

/-- The result by function; MULHSU gets that of MULHU. -/
theorem multResult_multIn {p : RegReadPacket} {op : MulOp} (h : p.opType = mulFunc op) :
    multResult (multIn p) =
      (if op = .mulhsu then .mulhu else op : MulOp).eval (op1MuxOut p) (op2MuxOut p) := by
  cases op with
  | mul =>
    simp only [multResult, multIn, h, mulFunc]
    rw [signExtend_mul, low_ofInt]
    rfl
  | mulh =>
    simp only [multResult, multIn, h, mulFunc]
    rw [signExtend_mul, high_ofInt]
    rfl
  | mulhsu =>
    simp only [multResult, multIn, h, mulFunc]
    rw [setWidth_mul, high_ofInt]
    rfl
  | mulhu =>
    simp only [multResult, multIn, h, mulFunc]
    rw [setWidth_mul, high_ofInt]
    rfl

/-- A packet gets its own product exactly if the unsigned one serves. -/
theorem multResult_eq_iff {p : RegReadPacket} {op : MulOp} (h : p.opType = mulFunc op) :
    multResult (multIn p) = op.eval (op1MuxOut p) (op2MuxOut p) ↔
      (p.opType = .mulhsu → (op1MuxOut p).msb = false ∨ op2MuxOut p = 0) := by
  rw [multResult_multIn h, h]
  cases op with
  | mulhsu => simpa [mulFunc] using mulhu_eq_mulhsu (op1MuxOut p) (op2MuxOut p)
  | _ => simp [mulFunc]

theorem mulFunc_injective {op op' : MulOp} (h : mulFunc op = mulFunc op') : op = op' := by
  cases op <;> cases op' <;> first | rfl | cases h

/-- One cycle of a stream is multiplied right exactly if the unsigned product serves. -/
theorem multiplies_iff {history : List Cycle} (hs : Stream history) :
    Multiplies history ↔ UnsignedServes history := by
  constructor
  · intro h p hp hv hm
    have hexec := executePkt_mult (fun _ => {}) hp
    obtain ⟨p', op, hp', hop, hres⟩ := h _ (by rw [hexec]; exact hv)
    obtain rfl : p = p' := Option.some.inj (hp.symm.trans hp')
    refine (multResult_eq_iff hop).mp ?_ hm
    exact congrArg ExecutePacket.result (hexec.symm.trans hres)
  · intro h pkt hv
    obtain ⟨p, hp⟩ := emerging_of_valid pkt hv
    have hexec := executePkt_mult pkt hp
    obtain ⟨c, hc, rfl⟩ := emerging_mem hp
    rw [hexec] at hv
    obtain ⟨op, hop⟩ := hs c hc hv
    refine ⟨_, op, hp, hop, ?_⟩
    rw [hexec, (multResult_eq_iff hop).mpr (h _ hp hv)]

/-- **A stream of multiplications is multiplied right in every cycle exactly if no MULHSU
with a negative first operand and a nonzero second one leaves the lane.** -/
theorem stream_multiplies_iff (history : List Cycle) (hs : Stream history) :
    (∀ past, past <:+ history → Multiplies past) ↔ ∀ past, past <:+ history → UnsignedServes past := by
  have hpast : ∀ past, past <:+ history → (Multiplies past ↔ UnsignedServes past) :=
    fun past hp => multiplies_iff fun c hc => hs c (hp.subset hc)
  constructor
  · intro h past hp
    exact (hpast past hp).mp (h past hp)
  · intro h past hp
    exact (hpast past hp).mpr (h past hp)

instance (history : List Cycle) : Decidable (UnsignedServes history) :=
  inferInstanceAs (Decidable (∀ p ∈ emerging history, _ → _ → _))

/-- A cycle that gives the lane one multiplication. -/
def multiplying (op : MulOp) (a b : BitVec 32) : Cycle :=
  { pkt := fun _ => { opType := mulFunc op, op1Val := a, op2Val := b, packetValid := true } }

/-! -3 times 5 by MUL, 3 times -1 by MULHSU, and the cycle after them. -/

def products : List Cycle := [{}, multiplying .mulhsu 3 (-1), multiplying .mul (-3) 5]

theorem products_stream : Stream products := by
  intro c hc hv
  simp only [products, List.mem_cons, List.not_mem_nil, or_false] at hc
  obtain rfl | rfl | rfl := hc
  · cases hv
  · exact ⟨.mulhsu, rfl⟩
  · exact ⟨.mul, rfl⟩

theorem stream_multiplies_products : (∀ past, past <:+ products → Multiplies past) ∧
    (executePkt (fun _ => {}) (after products) 4).result = 2 ∧
    (executePkt (fun _ => {}) (after products.tail) 4).result = -15 := by
  refine ⟨(stream_multiplies_iff products products_stream).2 fun past hp => ?_, by decide, by decide⟩
  have hserves : ∀ past ∈ products.tails, UnsignedServes past := by decide
  exact hserves past ((List.mem_tails ..).2 hp)

/-! -1 times 1 by MULHSU, and the cycle after it. -/

def minusOneByOne : List Cycle :=
  [{}, { pkt := fun _ => { opType := .mulhsu, op1Val := -1, op2Val := 1, packetValid := true } }]

theorem minusOneByOne_stream : Stream minusOneByOne := by
  intro c hc hv
  simp only [minusOneByOne, List.mem_cons, List.not_mem_nil, or_false] at hc
  obtain rfl | rfl := hc
  · cases hv
  · exact ⟨.mulhsu, rfl⟩

/-- It leaves with the high word 0, not -1. -/
theorem mulhsu_unsigned :
    ¬ ∀ history, Stream history → ∀ past, past <:+ history → Multiplies past := by
  intro h
  obtain ⟨p, op, hp, hop, hres⟩ :=
    h minusOneByOne minusOneByOne_stream _ (List.suffix_refl _) (fun _ => {}) rfl
  obtain rfl := Option.some.inj hp
  obtain rfl : op = .mulhsu := mulFunc_injective hop.symm
  have hresult := congrArg ExecutePacket.result hres
  revert hresult
  decide

end R10K.Fu
