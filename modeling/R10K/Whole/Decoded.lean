import R10K.Core.Stations
import R10K.Rob.Tags

/-! What an instruction of the trace was decoded to.

Every instruction of a run of the core was fetched as a word, and what it carries is the
decoder's answer for that word. A record of the buffer carries the same. So a memory
operation, and no other instruction, is for the address unit; it has a slot of one queue;
and it is never complete when it is dispatched. -/
namespace R10K
open Lanes Renaming

/-! ### The decoder -/

namespace Decoder

/-- A load or a store is one of the two, and nothing else. -/
def MemoryOnly (c : Control) : Prop := (c.rdMem || c.wrMem) = true →
  (c.rdMem && c.wrMem) = false ∧ (c.condBranch || c.uncondBranch) = false ∧ (c.halt || c.illegal) = false

instance (c : Control) : Decidable (MemoryOnly c) := inferInstanceAs (Decidable (_ → _))

theorem MemoryOnly.ite {p : Prop} [Decidable p] {a b : Control} (ha : MemoryOnly a) (hb : MemoryOnly b) :
    MemoryOnly (if p then a else b) := by
  split
  · exact ha
  · exact hb

theorem control_memoryOnly (inst : BitVec 32) : MemoryOnly (control inst) := by
  unfold control
  repeat' apply MemoryOnly.ite
  all_goals decide

/-- The address unit is for the loads and stores. -/
theorem fuId_agu {c : Control} (h : MemoryOnly c) (alu : BitVec 2) :
    fuId c alu = .agu0 ↔ (c.rdMem || c.wrMem) = true := by
  unfold fuId
  split_ifs with hb hm
  · refine iff_of_false (fun he => by cases he) fun hm => ?_
    rw [(h hm).2.1] at hb
    cases hb
  · exact iff_of_true rfl hm
  all_goals exact iff_of_false (fun he => by cases he) hm

end Decoder

namespace Core

/-- An instruction is what its word decodes to. -/
structure Made (f : Flight) : Prop where
  opType : f.pkt.opType = (Decoder.control f.pkt.inst).aluFunc
  op1Select : f.pkt.op1Select = (Decoder.control f.pkt.inst).opaSelect
  op2Select : f.pkt.op2Select = (Decoder.control f.pkt.inst).opbSelect
  rdMem : f.pkt.rdMem = (Decoder.control f.pkt.inst).rdMem
  wrMem : f.pkt.wrMem = (Decoder.control f.pkt.inst).wrMem
  condBranch : f.pkt.condBranch = (Decoder.control f.pkt.inst).condBranch
  uncondBranch : f.pkt.uncondBranch = (Decoder.control f.pkt.inst).uncondBranch
  halt : f.pkt.halt = (Decoder.control f.pkt.inst).halt
  illegal : f.pkt.illegal = (Decoder.control f.pkt.inst).illegal
  destArn : f.pkt.destArn =
    if (Decoder.control f.pkt.inst).destSelect = .rd then f.pkt.inst.extractLsb' 7 5 else 0
  fuId : ∃ alu, f.pkt.fuId = Decoder.fuId (Decoder.control f.pkt.inst) alu
  useOp1 : f.pkt.useOp .op1 = (decide ((Decoder.control f.pkt.inst).opaSelect = .rs1) &&
    !(Decoder.control f.pkt.inst).illegal && !(Decoder.control f.pkt.inst).halt ||
      (Decoder.control f.pkt.inst).condBranch)
  useOp2 : f.pkt.useOp .op2 = (decide ((Decoder.control f.pkt.inst).opbSelect = .rs2) &&
    !(Decoder.control f.pkt.inst).illegal && !(Decoder.control f.pkt.inst).halt ||
      (Decoder.control f.pkt.inst).condBranch || (Decoder.control f.pkt.inst).wrMem)
  op1Arn : f.arn .op1 = f.pkt.inst.extractLsb' 15 5
  op2Arn : f.arn .op2 = f.pkt.inst.extractLsb' 20 5

section
variable {i : Inputs} {c : Config} {f : Flight}

/-- A lane renamed is decoded. -/
theorem flight_made {l : Lane} (hv : (c.flight i l).pkt.packetValid = true) : Made (c.flight i l) := by
  have hv' : ((c.renameIn i).fetchPkt l).packetValid = true := hv
  constructor <;>
    first
    | exact ⟨c.state.spine.rename.aluAllocHead + Decoder.validBefore (c.renameIn i).fetchPkt l, by
        simp [Config.flight, Rename.renamePkt, Rename.decoded, Decoder.decodePkt, Decoder.decode, hv']⟩
    | simp [Config.flight, Rename.renamePkt, Rename.decoded, Decoder.decodePkt, Decoder.decode, hv',
        RenamePacket.useOp, DecodePacket.opArn]

/-- What an instruction hears leaves it as it was decoded. -/
theorem Made.next (h : Made f) (issues : Bool) : Made (f.next i issues) :=
  ⟨h.opType, h.op1Select, h.op2Select, h.rdMem, h.wrMem, h.condBranch, h.uncondBranch, h.halt, h.illegal,
    h.destArn, h.fuId, h.useOp1, h.useOp2, h.op1Arn, h.op2Arn⟩

namespace Made

theorem agu (h : Made f) : f.pkt.fuId = .agu0 ↔ (f.pkt.rdMem || f.pkt.wrMem) = true := by
  obtain ⟨alu, hfu⟩ := h.fuId
  rw [hfu, h.rdMem, h.wrMem]
  exact Decoder.fuId_agu (Decoder.control_memoryOnly _) alu

/-- No instruction is both a load and a store. -/
theorem one (h : Made f) : (f.pkt.rdMem && f.pkt.wrMem) = false := by
  rw [h.rdMem, h.wrMem]
  cases hm : (Decoder.control f.pkt.inst).rdMem || (Decoder.control f.pkt.inst).wrMem with
  | true => exact (Decoder.control_memoryOnly _ hm).1
  | false =>
    rw [Bool.or_eq_false_iff] at hm
    rw [hm.1, Bool.false_and]

/-- A load or a store is not complete when it is dispatched. -/
theorem proceeds (h : Made f) (hm : (f.pkt.rdMem || f.pkt.wrMem) = true) : finishes f.pkt = false := by
  rw [h.rdMem, h.wrMem] at hm
  obtain ⟨-, -, hfin⟩ := Decoder.control_memoryOnly _ hm
  have hnop : f.pkt.inst ≠ nop := by
    intro hn
    rw [hn] at hm
    exact absurd hm (by decide)
  rw [finishes, h.halt, h.illegal, Bool.or_assoc, hfin, Bool.or_false]
  exact beq_eq_false_iff_ne.2 hnop

end Made

/-! ### Records -/

/-- A record of the buffer carries its instruction. -/
structure Copies (r : Rob.Record) (f : Flight) : Prop where
  inst : r.pkt.inst = f.pkt.inst
  pc : r.pkt.pc = f.pkt.pc
  destArn : r.pkt.destArn = f.pkt.destArn
  destPrn : r.pkt.destPrn = f.pkt.destPrn
  rdMem : r.pkt.rdMem = f.pkt.rdMem
  wrMem : r.pkt.wrMem = f.pkt.wrMem
  condBranch : r.pkt.condBranch = f.pkt.condBranch
  uncondBranch : r.pkt.uncondBranch = f.pkt.uncondBranch
  halt : r.pkt.halt = f.pkt.halt
  illegal : r.pkt.illegal = f.pkt.illegal

/-- A record of the buffer is an instruction's. -/
theorem exists_at (hs : Spine.Inv c.spine) {r : Rob.Record} (hr : r ∈ c.robLog.live) : ∃ n f, c.At r n f := by
  obtain ⟨j, hj⟩ := List.getElem?_of_mem hr
  have hlt := (List.getElem?_eq_some_iff.1 hj).1
  have hlen := base_length hs
  refine ⟨c.base + j, _, ⟨Nat.le_add_right _ _, ?_, List.getElem?_eq_getElem (by omega)⟩⟩
  rw [Nat.add_sub_cancel_left]
  exact hj

/-- The instructions are decoded ones, and the records carry them. -/
structure Decoded (c : Config) : Prop where
  made : ∀ f ∈ c.trace, Made f
  copies : ∀ r n f, c.At r n f → Copies r f

theorem Copies.mark {r : Rob.Record} (h : Copies r f) (j : Rob.Inputs) (issues : Bool) :
    Copies (Rob.mark j r) (f.next i issues) := by
  have hpkt := (Rob.mark_eq_iff j r).2
  constructor <;> rw [hpkt] <;> cases h <;> assumption

/-- What is dispatched is the instruction in the dispatch register. -/
theorem record_copies (h : Records c) {l : Lane} {n : Nat} (hw : c.Waits l n f) (issues : Bool) :
    Copies (c.record i l) (f.next i issues) := by
  have hpkt : (f.next i issues).pkt = c.state.spine.pipeRenamePkt l := (h.waits l n f hw).1
  constructor <;> rw [hpkt] <;> rfl

/-- A record is complete at dispatch if its instruction is. -/
theorem Copies.completeAtDispatch {r : Rob.Record} (h : Copies r f) : r.completeAtDispatch = finishes f.pkt := by
  rw [finishes, ← h.inst, ← h.halt, ← h.illegal, Rob.Record.completeAtDispatch, Rob.dispatch2Rob]
  cases r.pkt.halt <;> cases r.pkt.illegal <;> simp

/-- **One edge keeps the instructions as they were decoded.** -/
theorem Decoded.next (h : Decoded c) (hinv : Inv c) : Decoded (c.next i) where
  made := by
    intro f hf
    obtain ⟨n, hn⟩ := List.getElem?_of_mem hf
    rcases next_get hn with ⟨f₀, h₀, rfl, -⟩ | ⟨-, -, j, l, hl, -, rfl⟩
    · exact (h.made f₀ (List.mem_of_getElem? h₀)).next _
    · exact flight_made (mem_group.1 (List.mem_of_getElem? hl))
  copies := by
    intro r n f hat
    obtain ⟨-, ⟨r₀, f₀, hat₀, -, rfl, rfl⟩ | ⟨l, f₀, hw, rfl, rfl⟩⟩ := hat.cases hinv.spine
    · exact (h.copies r₀ n f₀ hat₀).mark _ _
    · exact record_copies hinv.toRecords hw _

theorem Decoded.init : Decoded Config.init where
  made := fun _ hf => by cases hf
  copies := fun _ _ _ hat => by cases hat.live

/-- A load or a store in the buffer waits for its writeback, or has had it. -/
theorem Decoded.memory (h : Decoded c) {r : Rob.Record} {n : Nat} (hat : c.At r n f)
    (hm : (r.pkt.rdMem || r.pkt.wrMem) = true) : r.completeAtDispatch = false := by
  have hcopy := h.copies r n f hat
  rw [hcopy.rdMem, hcopy.wrMem] at hm
  rw [hcopy.completeAtDispatch]
  exact (h.made f (List.mem_of_getElem? hat.flight)).proceeds hm

end

end Core

end R10K
