import R10K.Fifo.Model
import R10K.Lib.Queue

/-! When the FIFO is a bounded queue.

The memory, the output and the addresses accept a write when the FIFO is not full and a
read when it is not empty. The counter does so when one of the two is asked for; asked for
both it stays, although an empty FIFO accepts only the write and a full one only the read.
From there on the counter is off by one. A run refines a bounded queue exactly while no
cycle asks for both of an empty or a full FIFO. -/
namespace R10K.Fifo
open Queue
variable {h width : Nat} {i : Inputs width} {s : Log h width}

/-- The counter, the two flags and the output say what a bounded queue would. -/
structure Exact (s : Log h width) : Prop where
  count : s.fifo.count.toNat + s.reads.length = s.writes.length
  empty : empty s.fifo = true ↔ s.writes.length = s.reads.length
  full : full s.fifo = true ↔ s.writes.length = s.reads.length + 2 ^ h
  order : s.reads = (s.writes.take s.reads.length).map some

/-- A cycle that does not ask for both of an empty or a full FIFO, and reads inside the
memory. The latter can fail only for a memory of one word, whose addresses have two bits. -/
structure Steady (i : Inputs width) (s : State h width) : Prop where
  apart : (i.wrEn = true ∧ i.rdEn = true) → empty s = false ∧ full s = false
  inside : rdAccept i s = true → s.rdAddr.toNat < 2 ^ h

theorem depth_le (h : Nat) : 2 ^ h ≤ 2 ^ addrBits h := by
  apply Nat.pow_le_pow_right Nat.two_pos
  unfold addrBits
  split <;> omega

/-! ### The FIFO and the queue it stands for -/

/-- The FIFO holds the queue's items from its read address on. -/
structure Refines (s : Log h width) (q : History (BitVec width) (2 ^ h)) : Prop where
  ins : s.writes = q.ins
  outs : s.reads = q.outs.map some
  count : s.fifo.count.toNat = q.queue.items.length
  wrAddr : s.fifo.wrAddr = s.fifo.rdAddr + BitVec.ofNat _ q.queue.items.length
  words : ∀ j d, q.queue.items[j]? = some d →
    (s.fifo.rdAddr + BitVec.ofNat _ j).toNat < 2 ^ h →
    word s.fifo (s.fifo.rdAddr + BitVec.ofNat _ j) = some d

/-- What the inputs offer to the queue. -/
def offer (i : Inputs width) : Option (BitVec width) := if i.wrEn then some i.dataIn else none

/-- What the queue holds between the read and the write of a cycle. -/
def left (i : Inputs width) (s : Log h width) (q : History (BitVec width) (2 ^ h)) : List (BitVec width) :=
  if rdAccept i s.fifo then q.queue.items.tail else q.queue.items

namespace Refines
variable {q : History (BitVec width) (2 ^ h)}

theorem empty_iff (r : Refines s q) : empty s.fifo = true ↔ q.queue.items = [] := by
  rw [empty, decide_eq_true_eq, r.count, List.length_eq_zero_iff]

theorem full_iff (r : Refines s q) : full s.fifo = true ↔ q.queue.items.length = 2 ^ h := by
  rw [full, decide_eq_true_eq, r.count]

theorem wrAccept_iff (r : Refines s q) :
    wrAccept i s.fifo = true ↔ i.wrEn = true ∧ q.queue.items.length < 2 ^ h := by
  rw [wrAccept, Bool.and_eq_true, Bool.not_eq_true', ← Bool.not_eq_true, r.full_iff]
  have := q.queue.bound
  exact and_congr_right fun _ => by omega

theorem rdAccept_iff (r : Refines s q) :
    rdAccept i s.fifo = true ↔ i.rdEn = true ∧ q.queue.items ≠ [] := by
  rw [rdAccept, Bool.and_eq_true, Bool.not_eq_true', ← Bool.not_eq_true, r.empty_iff]

theorem accepted_eq (r : Refines s q) :
    q.queue.accepted (offer i) = if wrAccept i s.fifo then [i.dataIn] else [] := by
  rw [Bounded.accepted, offer]
  by_cases hw : wrAccept i s.fifo = true
  · obtain ⟨hen, hlt⟩ := r.wrAccept_iff.1 hw
    rw [if_pos hw, if_pos hlt, hen]
    rfl
  · rw [if_neg hw]
    split
    · rename_i hlt
      cases hen : i.wrEn with
      | false => rfl
      | true => exact absurd (r.wrAccept_iff.2 ⟨hen, hlt⟩) hw
    · rfl

theorem left_eq (r : Refines s q) :
    (if i.rdEn then q.queue.items.tail else q.queue.items) = left i s q := by
  unfold left
  by_cases hr : rdAccept i s.fifo = true
  · rw [if_pos hr, if_pos (r.rdAccept_iff.1 hr).1]
  · rw [if_neg hr]
    split
    · rename_i hen
      have hnil : q.queue.items = [] := by
        by_contra hne
        exact hr (r.rdAccept_iff.2 ⟨hen, hne⟩)
      rw [hnil, List.tail_nil]
    · rfl

theorem items_eq (r : Refines s q) : (q.next (offer i) i.rdEn).queue.items =
    left i s q ++ (if wrAccept i s.fifo then [i.dataIn] else []) := by
  simp only [History.next, Bounded.next, r.left_eq, r.accepted_eq]

/-- An accepted read shows the head of the queue. -/
theorem dataOut_eq (r : Refines s q) (ok : Steady i s.fifo) (hr : rdAccept i s.fifo = true) :
    (next i s.fifo).dataOut = q.queue.taken i.rdEn := by
  obtain ⟨hen, hne⟩ := r.rdAccept_iff.1 hr
  obtain ⟨d, rest, hq⟩ := List.exists_cons_of_ne_nil hne
  have hword := r.words 0 d (by rw [hq]; rfl)
  have hzero : s.fifo.rdAddr + BitVec.ofNat _ 0 = s.fifo.rdAddr := BitVec.add_zero _
  rw [hzero] at hword
  simp only [next, if_pos hr, hword (ok.inside hr), Bounded.taken, if_pos hen, hq, List.head?_cons]

end Refines

/-! ### The counter -/

/-- **Off the two corners the counter moves with what is accepted.** -/
theorem nextCount_eq (ok : Steady i s.fifo) (hb : s.fifo.count.toNat ≤ 2 ^ h) :
    (nextCount i s.fifo).toNat + (rdAccept i s.fifo).toNat =
      s.fifo.count.toNat + (wrAccept i s.fifo).toNat := by
  have hpow : 2 ^ (h + 1) = 2 ^ h * 2 := rfl
  have hpos := Nat.two_pow_pos h
  have hone : (1 : BitVec (h + 1)).toNat = 1 := BitVec.toNat_one (by omega)
  unfold nextCount rdAccept wrAccept
  cases hw : i.wrEn <;> cases hr : i.rdEn
  · rfl
  · cases he : empty s.fifo with
    | true => rfl
    | false =>
      have hne : s.fifo.count.toNat ≠ 0 := of_decide_eq_false he
      simp only [Bool.not_false, if_true, Bool.and_self, Bool.false_and, Bool.toNat_true, Bool.toNat_false]
      rw [BitVec.toNat_sub_of_le (by rw [BitVec.le_def, hone]; omega), hone]
      omega
  · cases hf : full s.fifo with
    | true => rfl
    | false =>
      have hne : s.fifo.count.toNat ≠ 2 ^ h := of_decide_eq_false hf
      simp only [Bool.not_false, if_true, Bool.and_self, Bool.false_and, Bool.toNat_true, Bool.toNat_false]
      rw [BitVec.toNat_add, hone, Nat.mod_eq_of_lt (by omega)]
  · obtain ⟨he, hf⟩ := ok.apart ⟨hw, hr⟩
    rw [he, hf]

/-! ### One edge -/

namespace Refines
variable {q : History (BitVec width) (2 ^ h)}

/-- An accepted write changes the word at the write address. -/
theorem word_next (i : Inputs width) (s : State h width) {a : BitVec (addrBits h)} (ha : a.toNat < 2 ^ h) :
    word (Fifo.next i s) a =
      if wrAccept i s = true ∧ a = s.wrAddr then some i.dataIn else word s a := by
  rw [word, word, dif_pos ha, dif_pos ha]
  simp only [Fifo.next, Bool.and_eq_true, beq_iff_eq, BitVec.toNat_inj]

/-- The read address steps with the head of the queue. -/
theorem words_left {j : Nat} {d : BitVec width} (hd : (left i s q)[j]? = some d) :
    ∃ k, q.queue.items[k]? = some d ∧
      (Fifo.next i s.fifo).rdAddr + BitVec.ofNat _ j = s.fifo.rdAddr + BitVec.ofNat _ k := by
  unfold left at hd
  simp only [Fifo.next]
  split at hd
  · rename_i hr
    refine ⟨j + 1, ?_, ?_⟩
    · rwa [List.getElem?_tail] at hd
    · rw [if_pos hr, BitVec.add_assoc, Nat.add_comm j 1, BitVec.ofNat_add]
      rfl
  · rename_i hr
    exact ⟨j, hd, by rw [if_neg hr]⟩

/-- What is left of the queue ends at the write address. -/
theorem wrAddr_left (r : Refines s q) :
    s.fifo.wrAddr = (Fifo.next i s.fifo).rdAddr + BitVec.ofNat _ (left i s q).length := by
  rw [r.wrAddr, left]
  simp only [Fifo.next]
  by_cases hr : rdAccept i s.fifo = true
  · obtain ⟨d, rest, hq⟩ := List.exists_cons_of_ne_nil (r.rdAccept_iff.1 hr).2
    rw [if_pos hr, if_pos hr, hq, List.tail_cons, List.length_cons, Nat.add_comm, BitVec.ofNat_add,
      BitVec.add_assoc]
    rfl
  · rw [if_neg hr, if_neg hr]

/-- **One cycle off the corners is one cycle of the queue.** -/
theorem next (r : Refines s q) (ok : Steady i s.fifo) :
    Refines (Log.next i s) (q.next (offer i) i.rdEn) where
  ins := by
    simp only [Log.next, History.next, r.accepted_eq, r.ins]
  outs := by
    simp only [Log.next, History.next, List.map_append, r.outs]
    by_cases hr : rdAccept i s.fifo = true
    · have hout := r.dataOut_eq ok hr
      obtain ⟨hen, hne⟩ := r.rdAccept_iff.1 hr
      obtain ⟨d, rest, hq⟩ := List.exists_cons_of_ne_nil hne
      rw [Bounded.taken, if_pos hen, hq, List.head?_cons] at hout
      rw [if_pos hr, hout, Bounded.taken, if_pos hen, hq]
      rfl
    · have hnone : q.queue.taken i.rdEn = none := by
        rw [Bounded.taken]
        split
        · rename_i hen
          by_contra hsome
          refine hr (r.rdAccept_iff.2 ⟨hen, fun hnil => hsome ?_⟩)
          rw [hnil, List.head?_nil]
        · rfl
      rw [if_neg hr, hnone]
      rfl
  count := by
    have hcount := nextCount_eq ok (by rw [r.count]; exact q.queue.bound)
    have hlen : (left i s q).length + (rdAccept i s.fifo).toNat = q.queue.items.length := by
      unfold left
      by_cases hr : rdAccept i s.fifo = true
      · obtain ⟨d, rest, hq⟩ := List.exists_cons_of_ne_nil (r.rdAccept_iff.1 hr).2
        rw [hr, if_pos rfl, hq]
        rfl
      · rw [if_neg hr, Bool.eq_false_iff.2 hr]
        rfl
    have hadd : (if wrAccept i s.fifo then [i.dataIn] else []).length = (wrAccept i s.fifo).toNat := by
      cases wrAccept i s.fifo <;> rfl
    rw [r.items_eq, List.length_append, hadd]
    rw [r.count] at hcount
    simp only [Log.next, Fifo.next]
    omega
  wrAddr := by
    have htail := r.wrAddr_left (i := i)
    rw [r.items_eq, List.length_append, BitVec.ofNat_add, ← BitVec.add_assoc]
    simp only [Log.next]
    rw [← htail]
    simp only [Fifo.next]
    cases wrAccept i s.fifo with
    | true => rfl
    | false => exact (BitVec.add_zero _).symm
  words := by
    intro j d hd hin
    rw [r.items_eq] at hd
    simp only [Log.next] at hin ⊢
    rw [word_next i s.fifo hin]
    by_cases hj : j < (left i s q).length
    · rw [List.getElem?_append_left hj] at hd
      obtain ⟨k, hk, haddr⟩ := words_left hd
      -- a word that is held does not lie at the write address while a write is accepted
      have hne : ¬(wrAccept i s.fifo = true ∧
          (Fifo.next i s.fifo).rdAddr + BitVec.ofNat _ j = s.fifo.wrAddr) := by
        rintro ⟨hw, he⟩
        have hlt := (r.wrAccept_iff.1 hw).2
        have hklt := (List.getElem?_eq_some_iff.1 hk).1
        have hpow := depth_le h
        rw [haddr, r.wrAddr, BitVec.add_right_inj] at he
        have := congrArg BitVec.toNat he
        rw [BitVec.toNat_ofNat, BitVec.toNat_ofNat, Nat.mod_eq_of_lt (by omega),
          Nat.mod_eq_of_lt (by omega)] at this
        omega
      rw [if_neg hne, haddr]
      exact r.words k d hk (haddr ▸ hin)
    · rw [List.getElem?_append_right (Nat.le_of_not_lt hj)] at hd
      cases hw : wrAccept i s.fifo with
      | false =>
        rw [hw] at hd
        cases hd
      | true =>
        rw [hw, if_pos rfl] at hd
        obtain ⟨hlt, hd⟩ := List.getElem?_eq_some_iff.1 hd
        rw [List.length_singleton] at hlt
        rw [List.getElem_singleton] at hd
        have hlast : j = (left i s q).length := by omega
        rw [if_pos ⟨rfl, by rw [hlast, ← r.wrAddr_left]⟩, hd]

theorem init : Refines (Log.reset h width) (History.init _ _) where
  ins := rfl
  outs := rfl
  count := rfl
  wrAddr := (BitVec.add_zero _).symm
  words := by
    intro j d hd
    cases hd

theorem exact (r : Refines s q) : Exact s where
  count := by
    rw [r.count, r.ins, r.outs, List.length_map, q.length_eq, Nat.add_comm]
  empty := by
    rw [r.empty_iff, r.ins, r.outs, List.length_map, q.length_eq, ← List.length_eq_zero_iff]
    omega
  full := by
    rw [r.full_iff, r.ins, r.outs, List.length_map, q.length_eq]
    omega
  order := by
    rw [r.outs, List.length_map, r.ins, ← q.outs_eq]

end Refines

/-! ### Runs -/

/-- A run off the corners is a run of the queue. -/
theorem refines_run (is : List (Inputs width))
    (ok : ∀ pre i, pre ++ [i] <+: is → Steady i (Log.run (h := h) pre).fifo) :
    ∃ q, Refines (Log.run (h := h) is) q := by
  induction is using List.reverseRecOn with
  | nil => exact ⟨_, .init⟩
  | append_singleton is i ih =>
    obtain ⟨q, r⟩ := ih fun pre j hpre => ok pre j (hpre.trans (List.prefix_append _ _))
    rw [Log.run_append]
    exact ⟨_, r.next (ok is i (List.prefix_refl _))⟩

/-- A cycle across which the FIFO stays exact is off the corners. -/
theorem Exact.steady (e : Exact s) (e' : Exact (Log.next i s)) : Steady i s.fifo where
  apart := by
    rintro ⟨hw, hr⟩
    have hcount := e'.count
    have hkeep : (Log.next i s).fifo.count = s.fifo.count := by
      simp only [Log.next, next, nextCount, hw, hr]
    rw [hkeep] at hcount
    simp only [Log.next, wrAccept, rdAccept, hw, hr, Bool.true_and, List.length_append] at hcount
    have hbefore := e.count
    have hcases : ¬(Fifo.empty s.fifo = true ∧ Fifo.full s.fifo = true) := by
      rintro ⟨he, hf⟩
      have hpos := Nat.two_pow_pos h
      rw [Fifo.empty, decide_eq_true_eq] at he
      rw [Fifo.full, decide_eq_true_eq] at hf
      omega
    cases he : Fifo.empty s.fifo with
    | true =>
      cases hf : Fifo.full s.fifo with
      | true => exact absurd ⟨he, hf⟩ hcases
      | false =>
        simp only [he, hf, Bool.not_true, Bool.not_false, Bool.false_eq_true, if_false, if_true,
          List.length_singleton, List.length_nil] at hcount
        omega
    | false =>
      cases hf : Fifo.full s.fifo with
      | true =>
        simp only [he, hf, Bool.not_true, Bool.not_false, Bool.false_eq_true, if_false, if_true,
          List.length_singleton, List.length_nil] at hcount
        omega
      | false => exact ⟨rfl, rfl⟩
  inside := by
    intro hr
    by_contra hout
    have horder := e'.order
    simp only [Log.next, if_pos hr, next, word, dif_neg hout] at horder
    have hmem : none ∈ s.reads ++ [(none : Option (BitVec width))] :=
      List.mem_append_right _ (List.mem_singleton_self _)
    rw [horder, List.mem_map] at hmem
    obtain ⟨d, _, hd⟩ := hmem
    cases hd

/-- **A run of the FIFO is that of a bounded queue exactly if no cycle of it asks for both
of an empty or a full FIFO.** A memory of one word must not be read at its other addresses. -/
theorem exact_iff (is : List (Inputs width)) :
    (∀ pre, pre <+: is → Exact (Log.run (h := h) pre)) ↔
      ∀ pre i, pre ++ [i] <+: is → Steady i (Log.run (h := h) pre).fifo := by
  constructor
  · intro hexact pre i hpre
    have hnext := hexact _ hpre
    rw [Log.run_append] at hnext
    exact (hexact pre ((List.prefix_append pre [i]).trans hpre)).steady hnext
  · intro ok pre hpre
    obtain ⟨q, r⟩ := refines_run (h := h) pre fun p i hp => ok p i (hp.trans hpre)
    exact r.exact

/-- One cycle that writes and reads an empty FIFO of two words leaves a word that is not counted. -/
theorem not_exact_empty : ¬ ∀ is : List (Inputs 8), Exact (Log.run (h := 1) is) := by
  intro hall
  have hcount := (hall [⟨true, true, 5⟩]).count
  exact absurd hcount (by decide)

end R10K.Fifo
