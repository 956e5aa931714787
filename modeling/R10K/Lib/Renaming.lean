import Mathlib.Data.Fintype.Card
import Mathlib.Data.Fintype.Sum
import Mathlib.Data.List.Count
import Mathlib.Algebra.BigOperators.Group.Finset.Basic
import Mathlib.Algebra.Order.BigOperators.Group.Finset
import Mathlib.Tactic.Linarith

/-! Register renaming.

Architectural registers `A` are mapped to physical ones `P`; each has a zero that takes
no part. An instruction in flight carries the mapping it makes and the physical
register it displaces, if its architectural register is not zero. The committed map,
the instructions in flight in program order and the free registers are `Conserved` if
each physical register other than zero has one holder; allocation at the young end and
commitment at the old end keep it. -/
namespace R10K.Renaming
universe u v

/-- The mapping of an instruction: `arn` goes to `prn` and leaves `prev`. -/
structure Instr (A : Type u) (P : Type v) where
  arn : A
  prn : P
  prev : P

variable {A : Type u} {P : Type v} [DecidableEq A] [Zero A]

/-- The map after an instruction. -/
def apply (m : A → P) (i : Instr A P) (a : A) : P := if a = i.arn ∧ a ≠ 0 then i.prn else m a

/-- The map after a sequence of instructions. -/
def replay (m : A → P) (l : List (Instr A P)) : A → P := l.foldl apply m

@[simp] theorem replay_nil (m : A → P) : replay m [] = m := rfl
@[simp] theorem replay_cons (m : A → P) (i : Instr A P) (l : List (Instr A P)) :
    replay m (i :: l) = replay (apply m i) l := rfl
theorem replay_append (m : A → P) (l l' : List (Instr A P)) :
    replay m (l ++ l') = replay (replay m l) l' := List.foldl_append

theorem apply_zero (m : A → P) (i : Instr A P) : apply m i 0 = m 0 := if_neg fun h => h.2 rfl

theorem replay_zero (m : A → P) (l : List (Instr A P)) : replay m l 0 = m 0 := by
  induction l generalizing m with
  | nil => rfl
  | cons i l ih => rw [replay_cons, ih, apply_zero]

/-- The map after the valid lanes of a group, as a loop over the lanes computes it. -/
theorem replay_filter {L : Type} (v : L → Bool) (f : L → Instr A P) (ls : List L) (m : A → P) (a : A) :
    replay m ((ls.filter v).map f) a =
      ls.foldl (fun r l => if v l = true ∧ a = (f l).arn ∧ a ≠ 0 then (f l).prn else r) (m a) := by
  induction ls generalizing m with
  | nil => rfl
  | cons l ls ih =>
    rw [List.foldl_cons, List.filter_cons]
    cases hv : v l with
    | false => exact ih m
    | true =>
      rw [if_pos rfl, List.map_cons, replay_cons, ih]
      simp only [apply, true_and]

variable [Zero P]

/-- An instruction says truly what it displaces, and writes no register exactly when it
has no architectural one. -/
structure WellFormed (m : A → P) (i : Instr A P) : Prop where
  prev : i.arn ≠ 0 → i.prev = m i.arn
  prn : i.arn ≠ 0 → i.prn ≠ 0
  zero : i.arn = 0 → i.prn = 0 ∧ i.prev = 0

/-- Every instruction is well formed under the map that the ones before it make. -/
def Chain : (A → P) → List (Instr A P) → Prop
  | _, [] => True
  | m, i :: l => WellFormed m i ∧ Chain (apply m i) l

theorem chain_append (m : A → P) (l l' : List (Instr A P)) :
    Chain m (l ++ l') ↔ Chain m l ∧ Chain (replay m l) l' := by
  induction l generalizing m with
  | nil => simp [Chain]
  | cons i l ih => simp [Chain, ih, and_assoc]

/-- From the map to zero everywhere, a register is still mapped to zero exactly if no
instruction has written it. -/
theorem replay_eq_zero {l : List (Instr A P)} (h : ∀ r ∈ l, r.prn = 0 ↔ r.arn = 0) (a : A) :
    replay (fun _ => (0 : P)) l a = 0 ↔ a = 0 ∨ ∀ r ∈ l, r.arn ≠ a := by
  induction l using List.reverseRecOn with
  | nil => simp
  | append_singleton l i ih =>
    have hprev := ih fun r hr => h r (List.mem_append_left _ hr)
    have hlast := h i (by simp)
    rw [replay_append, replay_cons, replay_nil, apply]
    by_cases ha : a = i.arn ∧ a ≠ 0
    · rw [if_pos ha, hlast]
      refine iff_of_false (fun h0 => ha.2 (ha.1.trans h0)) ?_
      rintro (h0 | hall)
      · exact ha.2 h0
      · exact hall i (by simp) ha.1.symm
    · rw [if_neg ha, hprev]
      refine or_congr_right' fun ha0 => ?_
      have hne : i.arn ≠ a := fun hia => ha ⟨hia.symm, ha0⟩
      simp [List.mem_append, or_imp, forall_and, hne]

variable [Fintype A] [DecidableEq P]

/-- The architectural registers mapped to a physical one. -/
def mapped (m : A → P) (p : P) : Finset A := Finset.univ.filter fun a => a ≠ 0 ∧ m a = p

/-- How often a physical register is held: free, mapped, or the destination of an
instruction in flight. -/
def holders (free : P → Bool) (m : A → P) (l : List (Instr A P)) (p : P) : Nat :=
  (free p).toNat + (mapped m p).card + (l.map Instr.prn).count p

/-- Every physical register other than zero is held once. -/
structure Conserved (free : P → Bool) (m : A → P) (l : List (Instr A P)) : Prop where
  once : ∀ p, p ≠ 0 → holders free m l p = 1
  zeroFree : free 0 = false
  zeroMap : m 0 = 0
  chain : Chain m l

/-! ### Commitment -/

/-- The register an instruction displaces becomes free. -/
def release (free : P → Bool) (q : P) (p : P) : Bool := free p || decide (p = q ∧ p ≠ 0)

omit [Zero P] in
/-- Committing an instruction moves one architectural register from `prev` to `prn`. -/
theorem mapped_apply (m : A → P) (i : Instr A P) (harn : i.arn ≠ 0) (p : P) :
    (mapped (apply m i) p).card + (if m i.arn = p then 1 else 0) =
      (mapped m p).card + (if i.prn = p then 1 else 0) := by
  have hsplit : ∀ f : A → P, (mapped f p).card =
      ((mapped f p).erase i.arn).card + (if f i.arn = p then 1 else 0) := by
    intro f
    by_cases h : f i.arn = p
    · have hmem : i.arn ∈ mapped f p := by simp [mapped, harn, h]
      rw [if_pos h, Finset.card_erase_add_one hmem]
    · have hmem : i.arn ∉ mapped f p := by simp [mapped, h]
      rw [if_neg h, Finset.erase_eq_of_notMem hmem, Nat.add_zero]
  have hrest : (mapped (apply m i) p).erase i.arn = (mapped m p).erase i.arn := by
    ext a
    by_cases ha : a = i.arn
    · simp [ha]
    · have happ : apply m i a = m a := if_neg fun h => ha h.1
      simp [mapped, happ, ha]
  have happ : apply m i i.arn = i.prn := if_pos ⟨rfl, harn⟩
  rw [hsplit (apply m i), hsplit m, hrest, happ]
  omega

omit [DecidableEq A] [Zero A] [Fintype A] in
theorem foldl_release (done : List (Instr A P)) (free : P → Bool) (p : P) :
    done.foldl (fun f i => release f i.prev) free p =
      (free p || done.any fun i => decide (p = i.prev ∧ p ≠ 0)) := by
  induction done generalizing free with
  | nil => exact (Bool.or_false _).symm
  | cons i done ih => rw [List.foldl_cons, ih, List.any_cons, release, Bool.or_assoc]

theorem Conserved.commit {free : P → Bool} {m : A → P} {i : Instr A P} {l : List (Instr A P)}
    (h : Conserved free m (i :: l)) : Conserved (release free i.prev) (apply m i) l := by
  obtain ⟨hwf, hchain⟩ := h.chain
  refine ⟨fun p hp => ?_, by simp [release, h.zeroFree], by rw [apply_zero, h.zeroMap], hchain⟩
  have honce := h.once p hp
  simp only [holders, List.map_cons, List.count_cons, release] at honce ⊢
  by_cases harn : i.arn = 0
  · obtain ⟨hprn, hprev⟩ := hwf.zero harn
    have happ : apply m i = m := by
      funext a
      exact if_neg fun h => h.2 (h.1.trans harn)
    have hb : decide (p = i.prev ∧ p ≠ 0) = false := decide_eq_false fun h => hp (h.1.trans hprev)
    rw [happ, hb, Bool.or_false]
    simpa [hprn, Ne.symm hp] using honce
  · have hmove := mapped_apply m i harn p
    have hprev := hwf.prev harn
    have hb : decide (p = i.prev ∧ p ≠ 0) = decide (m i.arn = p) :=
      decide_eq_decide.2 ⟨fun h => hprev.symm.trans h.1.symm, fun h => ⟨h.symm.trans hprev.symm, hp⟩⟩
    rw [hb]
    simp only [beq_iff_eq] at honce
    by_cases hm : m i.arn = p
    · have hmem : 0 < (mapped m p).card := Finset.card_pos.2 ⟨i.arn, by simp [mapped, harn, hm]⟩
      rw [if_pos hm] at hmove
      cases hf : free p <;> simp [hf, hm] at honce ⊢ <;> omega
    · rw [if_neg hm] at hmove
      simp only [hm, decide_false, Bool.or_false]
      omega

/-- Committing a whole group. -/
theorem Conserved.commit_all {m : A → P} (done : List (Instr A P)) {free : P → Bool}
    {l : List (Instr A P)} (h : Conserved free m (done ++ l)) :
    Conserved (done.foldl (fun f i => release f i.prev) free) (replay m done) l := by
  induction done generalizing free m with
  | nil => exact h
  | cons i done ih => exact ih h.commit

/-! ### Allocation -/

def take (free : P → Bool) (q : P) (p : P) : Bool := free p && decide (p ≠ q)

theorem Conserved.allocate {free : P → Bool} {m : A → P} {i : Instr A P} {l : List (Instr A P)}
    (h : Conserved free m l) (harn : i.arn ≠ 0) (hfree : free i.prn = true)
    (hprev : i.prev = replay m l i.arn) : Conserved (take free i.prn) m (l ++ [i]) := by
  have hne : i.prn ≠ 0 := by
    intro h0
    rw [h0, h.zeroFree] at hfree
    cases hfree
  refine ⟨fun p hp => ?_, by simp [take, h.zeroFree], h.zeroMap, ?_⟩
  · have honce := h.once p hp
    simp only [holders, List.map_append, List.count_append, List.map_cons, List.map_nil, take] at honce ⊢
    by_cases hpi : p = i.prn
    · subst hpi
      simp [hfree] at honce ⊢
      omega
    · have : List.count p [i.prn] = 0 := by simp [Ne.symm hpi]
      rw [decide_eq_true hpi, Bool.and_true, this]
      exact honce
  · rw [chain_append]
    exact ⟨h.chain, ⟨fun _ => hprev, fun _ => hne, fun h0 => absurd h0 harn⟩, trivial⟩

/-- An instruction without a destination holds nothing. -/
theorem Conserved.pass {free : P → Bool} {m : A → P} {i : Instr A P} {l : List (Instr A P)}
    (h : Conserved free m l) (harn : i.arn = 0) (hprn : i.prn = 0) (hprev : i.prev = 0) :
    Conserved free m (l ++ [i]) := by
  refine ⟨fun p hp => ?_, h.zeroFree, h.zeroMap, ?_⟩
  · have honce := h.once p hp
    have : List.count p [i.prn] = 0 := by simp [hprn, Ne.symm hp]
    simpa only [holders, List.map_append, List.count_append, List.map_cons, List.map_nil, this,
      Nat.add_zero] using honce
  · rw [chain_append]
    exact ⟨h.chain, ⟨fun h0 => absurd harn h0, fun h0 => absurd harn h0, fun _ => ⟨hprn, hprev⟩⟩, trivial⟩

/-! ### Recovery -/

/-- A map under which no register other than zero is mapped twice. -/
def Injective (m : A → P) : Prop := m 0 = 0 ∧ ∀ p, p ≠ 0 → (mapped m p).card ≤ 1

theorem Conserved.injective {free : P → Bool} {m : A → P} {l : List (Instr A P)}
    (h : Conserved free m l) : Injective m := by
  refine ⟨h.zeroMap, fun p hp => ?_⟩
  have := h.once p hp
  rw [holders] at this
  omega

/-- Two architectural registers share no physical register other than zero. -/
theorem Injective.eq {m : A → P} (h : Injective m) {a b : A} (ha : m a ≠ 0) (hab : m a = m b) :
    a = b := by
  have hz : ∀ c, m c ≠ 0 → c ≠ 0 := by
    rintro c hc rfl
    exact hc h.1
  have hb : m b ≠ 0 := hab ▸ ha
  exact Finset.card_le_one.1 (h.2 (m a) ha) a (by simp [mapped, hz a ha]) b
    (by simp [mapped, hz b hb, hab])

/-- With nothing in flight, the registers outside the image are the free ones. -/
theorem Injective.conserved {free : P → Bool} {m : A → P} (h : Injective m)
    (hfree : ∀ p, free p = true ↔ ∀ a, m a ≠ p) : Conserved free m [] := by
  have hz : free 0 = false := by
    cases hf : free 0 with
    | false => rfl
    | true => exact absurd h.1 ((hfree 0).1 hf 0)
  refine ⟨fun p hp => ?_, hz, h.1, trivial⟩
  have hle := h.2 p hp
  simp only [holders, List.map_nil, List.count_nil, Nat.add_zero]
  cases hf : free p with
  | true =>
    have hempty : mapped m p = ∅ := by
      ext a
      simp [mapped, (hfree p).1 hf a]
    simp [hempty]
  | false =>
    have hmem : 0 < (mapped m p).card := by
      by_contra hno
      have hempty : mapped m p = ∅ := Finset.card_eq_zero.1 (by omega)
      have hall : ∀ a, m a ≠ p := by
        intro a ha
        have ha0 : a ≠ 0 := by
          rintro rfl
          exact hp (ha.symm.trans h.1)
        have : a ∈ mapped m p := by simp [mapped, ha0, ha]
        rw [hempty] at this
        exact absurd this (Finset.notMem_empty a)
      rw [(hfree p).2 hall] at hf
      cases hf
    simp only [Bool.toNat_false]
    omega

/-! ### Counting -/

/-- What is neither mapped nor in flight is free: with room for the map and the
instructions, that many registers are left. -/
theorem Conserved.free_card [Fintype P] {free : P → Bool} {m : A → P} {l : List (Instr A P)}
    (h : Conserved free m l) :
    Fintype.card P ≤ (Finset.univ.filter fun p => free p = true).card + Fintype.card A + l.length := by
  let held : Finset P := (Finset.univ.filter fun p => free p = true) ∪
    ((Finset.univ.erase (0 : A)).image m ∪ (l.map Instr.prn).toFinset)
  have hcover : (Finset.univ.erase (0 : P)) ⊆ held := by
    intro p hp
    have hp0 : p ≠ 0 := (Finset.mem_erase.1 hp).1
    have honce := h.once p hp0
    rw [holders] at honce
    by_contra hno
    simp only [held, Finset.mem_union, Finset.mem_filter, Finset.mem_univ, true_and, Finset.mem_image,
      Finset.mem_erase, and_true, List.mem_toFinset, not_or] at hno
    obtain ⟨hfree, hmap, hl⟩ := hno
    have h1 : (free p).toNat = 0 := by simp [hfree]
    have h2 : (mapped m p).card = 0 := by
      rw [Finset.card_eq_zero, mapped, Finset.filter_eq_empty_iff]
      exact fun a _ ha => hmap ⟨a, ha.1, ha.2⟩
    have h3 : (l.map Instr.prn).count p = 0 := List.count_eq_zero_of_not_mem hl
    omega
  have hcard := Finset.card_le_card hcover
  have hu1 : held.card ≤ _ := Finset.card_union_le _ _
  have hu2 := Finset.card_union_le ((Finset.univ.erase (0 : A)).image m) (l.map Instr.prn).toFinset
  have himg := Finset.card_image_le (s := Finset.univ.erase (0 : A)) (f := m)
  have hl := List.toFinset_card_le (l.map Instr.prn)
  rw [Finset.card_erase_of_mem (Finset.mem_univ _), Finset.card_univ] at hcard himg
  rw [List.length_map] at hl
  have hA : 0 < Fintype.card A := Fintype.card_pos_iff.2 ⟨0⟩
  omega

end R10K.Renaming
