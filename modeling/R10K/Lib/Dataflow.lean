import R10K.Lib.Renaming

/-! Values through renamed registers.

An instruction in flight may have a result. `values` is what the program says: a
register holds the result of its last writer, which may not be there yet. The register
file is `Faithful` if every result that is there stands under the writer's physical
register, and what the committed program left stands under the committed map. Then an
operand is read right as soon as the program gives it a value, and it is there exactly
if its physical register is not waited for. -/
namespace R10K.Dataflow
open Renaming
universe u v w

/-- A renamed instruction and its result, once it has one. -/
structure Op (A : Type u) (P : Type v) (V : Type w) extends Instr A P where
  result : Option V := none

variable {A : Type u} {P : Type v} {V : Type w}

def instrs (l : List (Op A P V)) : List (Instr A P) := l.map Op.toInstr

@[simp] theorem instrs_append (l l' : List (Op A P V)) : instrs (l ++ l') = instrs l ++ instrs l' :=
  List.map_append
theorem prn_instrs (l : List (Op A P V)) : (instrs l).map Instr.prn = l.map fun o => o.prn := by
  rw [instrs, List.map_map]
  rfl

variable [DecidableEq A] [Zero A]

/-- What an architectural register holds after an instruction. -/
def assign (val : A → Option V) (o : Op A P V) (a : A) : Option V :=
  if a = o.arn ∧ a ≠ 0 then o.result else val a

/-- What it holds after a sequence of them. -/
def values (val : A → Option V) (l : List (Op A P V)) : A → Option V := l.foldl assign val

@[simp] theorem values_nil (val : A → Option V) : values val ([] : List (Op A P V)) = val := rfl
theorem values_append (val : A → Option V) (l l' : List (Op A P V)) :
    values val (l ++ l') = values (values val l) l' := List.foldl_append

/-- **The last writer gives both the physical register and the value**; a register that
no instruction writes keeps both. -/
theorem source_cases (m : A → P) (val : A → Option V) (l : List (Op A P V)) (a : A) :
    (∃ o ∈ l, a = o.arn ∧ a ≠ 0 ∧ replay m (instrs l) a = o.prn ∧ values val l a = o.result) ∨
      ((a = 0 ∨ ∀ o ∈ l, a ≠ o.arn) ∧ replay m (instrs l) a = m a ∧ values val l a = val a) := by
  induction l using List.reverseRecOn with
  | nil => exact .inr ⟨.inr fun _ h => (by cases h), rfl, rfl⟩
  | append_singleton l o ih =>
    have hmap : replay m (instrs (l ++ [o])) a = apply (replay m (instrs l)) o.toInstr a := by
      rw [instrs_append, replay_append]
      rfl
    have hval : values val (l ++ [o]) a = assign (values val l) o a := by
      rw [values_append]
      rfl
    rw [hmap, hval]
    by_cases ha : a = o.arn ∧ a ≠ 0
    · exact .inl ⟨o, by simp, ha.1, ha.2, if_pos ha, if_pos ha⟩
    · rw [apply, assign, if_neg ha, if_neg ha]
      rcases ih with ⟨o', ho', h⟩ | ⟨hno, h⟩
      · exact .inl ⟨o', List.mem_append_left _ ho', h⟩
      · refine .inr ⟨?_, h⟩
        by_cases ha0 : a = 0
        · exact .inl ha0
        · refine .inr fun o' ho' hao => ?_
          rcases List.mem_append.1 ho' with ho' | ho'
          · exact (hno.resolve_left ha0) o' ho' hao
          · rw [List.mem_singleton.1 ho'] at hao
            exact ha ⟨hao, ha0⟩

/-- Where every writer has its result, every register has a value. -/
theorem values_isSome {val : A → Option V} {l : List (Op A P V)} (hval : ∀ a, (val a).isSome = true)
    (hl : ∀ o ∈ l, o.arn ≠ 0 → o.result.isSome = true) (a : A) : (values val l a).isSome = true := by
  induction l generalizing val with
  | nil => exact hval a
  | cons o l ih =>
    refine ih (fun b => ?_) fun o' ho' => hl o' (List.mem_cons_of_mem _ ho')
    rw [assign]
    split
    · exact hl o (List.mem_cons_self ..) fun h0 => ‹b = o.arn ∧ b ≠ 0›.2 (‹b = o.arn ∧ b ≠ 0›.1.trans h0)
    · exact hval b

/-! ### Broadcasts -/

section
variable [Zero P] [DecidableEq P]

/-- An instruction hears the value broadcast for its register; its first result counts. -/
def hear (b : P → Option V) (o : Op A P V) : Op A P V :=
  { o with result := o.result.or (if o.prn = 0 then none else b o.prn) }

omit [DecidableEq A] [Zero A] in
@[simp] theorem instrs_hear (b : P → Option V) (l : List (Op A P V)) :
    instrs (l.map (hear b)) = instrs l := by
  rw [instrs, instrs, List.map_map]
  rfl

/-- A register has its value after a broadcast if it had it before, or if it is broadcast now. -/
theorem values_hear {m : A → P} {val : A → Option V} {l : List (Op A P V)} (b : P → Option V)
    (hval : ∀ a, (val a).isSome = true) (hnamed : ∀ o ∈ l, o.prn = 0 → o.arn = 0) (a : A) :
    (values val (l.map (hear b)) a).isSome =
      ((values val l a).isSome || (b (replay m (instrs l) a)).isSome) := by
  induction l using List.reverseRecOn with
  | nil => rw [List.map_nil, values_nil, hval a, Bool.true_or]
  | append_singleton l o ih =>
    have hmap : replay m (instrs (l ++ [o])) a = apply (replay m (instrs l)) o.toInstr a := by
      rw [instrs_append, replay_append]
      rfl
    rw [List.map_append, values_append, values_append, hmap]
    show (assign (values val (l.map (hear b))) (hear b o) a).isSome =
      ((assign (values val l) o a).isSome || (b (apply (replay m (instrs l)) o.toInstr a)).isSome)
    by_cases ha : a = o.arn ∧ a ≠ 0
    · have hne : o.prn ≠ 0 := fun h0 => ha.2 (ha.1.trans (hnamed o (by simp) h0))
      have harn : a = (hear b o).arn ∧ a ≠ 0 := ha
      rw [apply, assign, assign, if_pos ha, if_pos ha, if_pos harn, hear, if_neg hne, Option.isSome_or]
    · have harn : ¬(a = (hear b o).arn ∧ a ≠ 0) := ha
      rw [apply, assign, assign, if_neg ha, if_neg ha, if_neg harn]
      exact ih fun o' ho' => hnamed o' (List.mem_append_left _ ho')

/-- A value that is there stays. -/
theorem values_hear_some {val : A → Option V} {l : List (Op A P V)} (b : P → Option V) {a : A} {x : V}
    (h : values val l a = some x) : values val (l.map (hear b)) a = some x := by
  induction l using List.reverseRecOn with
  | nil => exact h
  | append_singleton l o ih =>
    rw [List.map_append, values_append]
    rw [values_append] at h
    show assign (values val (l.map (hear b))) (hear b o) a = some x
    have h' : assign (values val l) o a = some x := h
    by_cases ha : a = o.arn ∧ a ≠ 0
    · rw [assign, if_pos ha] at h'
      rw [assign, if_pos (show a = (hear b o).arn ∧ a ≠ 0 from ha), hear, h']
      rfl
    · rw [assign, if_neg ha] at h'
      rw [assign, if_neg (show ¬(a = (hear b o).arn ∧ a ≠ 0) from ha)]
      exact ih h'

end

/-! ### The register file -/

section
variable [Zero P] [DecidableEq P] [Zero V]

/-- Reading a physical register; register 0 reads as zero. -/
def readReg (regs : P → V) (p : P) : V := if p = 0 then 0 else regs p

/-- The register file holds what the committed program left and the results so far. -/
structure Faithful (regs : P → V) (m : A → P) (val : A → Option V) (l : List (Op A P V)) : Prop where
  arch : ∀ a, val a = some (readReg regs (m a))
  live : ∀ o ∈ l, ∀ x, o.arn ≠ 0 → o.result = some x → readReg regs o.prn = x

namespace Faithful
variable {regs : P → V} {m : A → P} {val : A → Option V} {l : List (Op A P V)}

/-- **An operand is read right** as soon as the program gives it a value. -/
theorem source (h : Faithful regs m val l) {a : A} {x : V} (hx : values val l a = some x) :
    readReg regs (replay m (instrs l) a) = x := by
  rcases source_cases m val l a with ⟨o, ho, ha, ha0, hp, hv⟩ | ⟨_, hp, hv⟩
  · rw [hp]
    exact h.live o ho x (fun h0 => ha0 (ha.trans h0)) (hv.symm.trans hx)
  · rw [hv, h.arch a] at hx
    rw [hp]
    exact Option.some.inj hx

omit [DecidableEq A] in
theorem take (h : Faithful regs m val l) (k : Nat) : Faithful regs m val (l.take k) :=
  ⟨h.arch, fun o ho => h.live o (List.mem_of_mem_take ho)⟩

/-- The settled instructions commit. -/
theorem commit {done : List (Op A P V)} (h : Faithful regs m val (done ++ l))
    (hdone : ∀ o ∈ done, o.arn ≠ 0 → o.result.isSome = true) :
    Faithful regs (replay m (instrs done)) (values val done) l where
  arch := by
    intro a
    have hval : ∀ b, (val b).isSome = true := fun b => by rw [h.arch b]; rfl
    obtain ⟨x, hx⟩ := Option.isSome_iff_exists.1 (values_isSome hval hdone a)
    have hleft : Faithful regs m val done := ⟨h.arch, fun o ho => h.live o (List.mem_append_left _ ho)⟩
    rw [hx, hleft.source hx]
  live := fun o ho => h.live o (List.mem_append_right _ ho)

omit [DecidableEq A] in
/-- New instructions have no result yet. -/
theorem append (h : Faithful regs m val l) {new : List (Op A P V)} (hnew : ∀ o ∈ new, o.result = none) :
    Faithful regs m val (l ++ new) where
  arch := h.arch
  live := by
    intro o ho x harn hx
    rcases List.mem_append.1 ho with ho | ho
    · exact h.live o ho x harn hx
    · rw [hnew o ho] at hx
      cases hx

end Faithful

end

/-! ### Registers held once -/

section
variable [Zero P] [DecidableEq P] [Fintype A]

/-- The members of a list are told apart by a register that occurs in it once. -/
theorem eq_of_count_le_one {α : Type u} {β : Type v} [DecidableEq β] {f : α → β} {l : List α} {p : β}
    (h : (l.map f).count p ≤ 1) {x y : α} (hx : x ∈ l) (hy : y ∈ l) (hfx : f x = p) (hfy : f y = p) :
    x = y := by
  induction l with
  | nil => cases hx
  | cons z l ih =>
    rw [List.map_cons, List.count_cons] at h
    have hmem : ∀ t ∈ l, f t = p → 1 ≤ (l.map f).count p := fun t ht hft =>
      List.count_pos_iff.2 (hft ▸ List.mem_map_of_mem ht)
    rcases List.mem_cons.1 hx with hxz | hxl <;> rcases List.mem_cons.1 hy with hyz | hyl
    · exact hxz.trans hyz.symm
    · have := hmem y hyl hfy
      rw [if_pos (beq_iff_eq.2 (hxz ▸ hfx))] at h
      omega
    · have := hmem x hxl hfx
      rw [if_pos (beq_iff_eq.2 (hyz ▸ hfy))] at h
      omega
    · exact ih (by omega) hxl hyl

/-- So are its places. -/
theorem place_of_count_le_one {α : Type u} {β : Type v} [DecidableEq β] {f : α → β} {l : List α} {p : β}
    (h : (l.map f).count p ≤ 1) {j k : Nat} {x y : α} (hx : l[j]? = some x) (hy : l[k]? = some y)
    (hfx : f x = p) (hfy : f y = p) : j = k := by
  have hmap : l.zipIdx.map (fun q => f q.1) = l.map f := by
    conv_rhs => rw [← List.zipIdx_map_fst 0 l, List.map_map]
    rfl
  have hmem : ∀ {n : Nat} {z : α}, l[n]? = some z → (z, n) ∈ l.zipIdx := fun hz =>
    List.mk_mem_zipIdx_iff_getElem?.2 hz
  exact congrArg Prod.snd (eq_of_count_le_one (f := fun q : α × Nat => f q.1) (by rwa [hmap]) (hmem hx) (hmem hy)
    hfx hfy)

variable {free : P → Bool} {m : A → P} {l : List (Op A P V)}

/-- Two instructions in flight share no register. -/
theorem live_unique (h : Conserved free m (instrs l)) {o q : Op A P V} (ho : o ∈ l) (ho' : q ∈ l)
    (hp : o.prn = q.prn) (hne : o.prn ≠ 0) : o = q := by
  have honce := h.once o.prn hne
  rw [holders, prn_instrs] at honce
  exact eq_of_count_le_one (f := fun o : Op A P V => o.prn) (by omega) ho ho' rfl hp.symm

/-- Nor is one of them there twice. -/
theorem live_place (h : Conserved free m (instrs l)) {j k : Nat} {o q : Op A P V} (hj : l[j]? = some o)
    (hk : l[k]? = some q) (hp : o.prn = q.prn) (hne : o.prn ≠ 0) : j = k := by
  have honce := h.once o.prn hne
  rw [holders, prn_instrs] at honce
  exact place_of_count_le_one (f := fun o : Op A P V => o.prn) (by omega) hj hk rfl hp.symm

/-- A register in flight is neither free nor mapped. -/
theorem live_held (h : Conserved free m (instrs l)) {o : Op A P V} (ho : o ∈ l) (hne : o.prn ≠ 0) :
    free o.prn = false ∧ ∀ a, m a ≠ o.prn := by
  have honce := h.once o.prn hne
  have hcount : 1 ≤ (l.map fun o => o.prn).count o.prn :=
    List.count_pos_iff.2 (List.mem_map_of_mem (f := fun o : Op A P V => o.prn) ho)
  rw [holders, prn_instrs] at honce
  refine ⟨?_, fun a ha => ?_⟩
  · cases hf : free o.prn with
    | false => rfl
    | true =>
      rw [hf, Bool.toNat_true] at honce
      omega
  · have ha0 : a ≠ 0 := by
      rintro rfl
      exact hne (ha.symm.trans h.zeroMap)
    have hmem : 0 < (mapped m o.prn).card := Finset.card_pos.2 ⟨a, by simp [mapped, ha0, ha]⟩
    omega

/-- A mapped register is not free. -/
theorem mapped_held (h : Conserved free m (instrs l)) (a : A) : free (m a) = false := by
  by_cases hne : m a = 0
  · rw [hne]
    exact h.zeroFree
  · have honce := h.once (m a) hne
    have ha0 : a ≠ 0 := by
      rintro rfl
      exact hne h.zeroMap
    have hmem : 0 < (mapped m (m a)).card := Finset.card_pos.2 ⟨a, by simp [mapped, ha0]⟩
    rw [holders] at honce
    cases hf : free (m a) with
    | false => rfl
    | true =>
      rw [hf, Bool.toNat_true] at honce
      omega

/-- The register an operand is renamed to is not free. -/
theorem source_held (h : Conserved free m (instrs l)) (a : A) :
    free (replay m (instrs l) a) = false := by
  have hz := h.zeroFree
  rcases source_cases m (fun _ => (none : Option V)) l a with ⟨o, ho, _, _, hp, _⟩ | ⟨_, hp, _⟩
  · rw [hp]
    by_cases hne : o.prn = 0
    · rw [hne, hz]
    · exact (live_held h ho hne).1
  · rw [hp]
    exact mapped_held h a

/-- The registers waited for: a writer in flight has no result yet. -/
def Busy (busy : P → Bool) (l : List (Op A P V)) : Prop :=
  ∀ p, busy p = true ↔ p ≠ 0 ∧ ∃ o ∈ l, o.prn = p ∧ o.result = none

/-- **An operand has its value exactly if its register is not waited for.** -/
theorem ready_iff (h : Conserved free m (instrs l)) {val : A → Option V} {busy : P → Bool}
    (hval : ∀ a, (val a).isSome = true) (hbusy : Busy busy l) (hnamed : ∀ o ∈ l, o.prn = 0 → o.arn = 0)
    (a : A) : (values val l a).isSome = !busy (replay m (instrs l) a) := by
  rcases source_cases m val l a with ⟨o, ho, ha, ha0, hp, hv⟩ | ⟨_, hp, hv⟩
  · have hne : o.prn ≠ 0 := fun h0 => ha0 (ha.trans (hnamed o ho h0))
    rw [hp, hv, Bool.eq_iff_iff, Bool.not_eq_true', ← Bool.not_eq_true, hbusy]
    constructor
    · rintro hs ⟨_, o', ho', hp', hn⟩
      rw [live_unique h ho' ho hp' (hp' ▸ hne)] at hn
      rw [hn] at hs
      cases hs
    · intro hno
      cases hr : o.result with
      | some x => rfl
      | none => exact absurd ⟨hne, o, ho, rfl, hr⟩ hno
  · rw [hp, hv, hval a, eq_comm, Bool.not_eq_true', ← Bool.not_eq_true, hbusy]
    rintro ⟨hne, o, ho, hpo, _⟩
    exact (live_held h ho (hpo ▸ hne)).2 a hpo.symm

/-- Broadcasts are for instructions in flight that have no result. -/
def Fresh (b : P → Option V) (l : List (Op A P V)) : Prop :=
  ∀ p, p ≠ 0 → (b p).isSome = true → ∃ o ∈ l, o.prn = p ∧ o.result = none

/-- What is broadcast no one reads: an operand with a value is not broadcast again. -/
theorem Fresh.source {val : A → Option V} {b : P → Option V} (hb : Fresh b l)
    (h : Conserved free m (instrs l)) {k : Nat} {a : A} (hs : (values val (l.take k) a).isSome = true)
    (hne : replay m (instrs (l.take k)) a ≠ 0) : b (replay m (instrs (l.take k)) a) = none := by
  cases hbp : b (replay m (instrs (l.take k)) a) with
  | none => rfl
  | some x =>
    obtain ⟨o', ho', hp', hn⟩ := hb _ hne (by rw [hbp]; rfl)
    rcases source_cases m val (l.take k) a with ⟨o, ho, _, _, hp, hv⟩ | ⟨_, hp, _⟩
    · rw [live_unique h ho' (List.mem_of_mem_take ho) (hp'.trans hp) (hp' ▸ hne)] at hn
      rw [hv, hn] at hs
      cases hs
    · exact absurd (hp.symm.trans hp'.symm) ((live_held h ho' (hp' ▸ hne)).2 a)

variable [Zero V]

/-- The registers after a broadcast. -/
def write (regs : P → V) (b : P → Option V) (p : P) : V := if p = 0 then regs p else (b p).getD (regs p)

/-- **A broadcast keeps the register file faithful.** -/
theorem Faithful.broadcast {regs : P → V} {val : A → Option V} {b : P → Option V}
    (hf : Faithful regs m val l) (h : Conserved free m (instrs l)) (hb : Fresh b l)
    (hnamed : ∀ o ∈ l, o.arn ≠ 0 → o.prn ≠ 0) :
    Faithful (write regs b) m val (l.map (hear b)) where
  arch := by
    intro a
    rw [hf.arch a, readReg, readReg]
    by_cases hne : m a = 0
    · rw [if_pos hne, if_pos hne]
    · rw [if_neg hne, if_neg hne, write, if_neg hne]
      cases hbp : b (m a) with
      | none => rfl
      | some x =>
        obtain ⟨o, ho, hp, _⟩ := hb _ hne (by rw [hbp]; rfl)
        exact absurd hp.symm ((live_held h ho (hp ▸ hne)).2 a)
  live := by
    intro o' ho' x harn hx
    obtain ⟨o, ho, rfl⟩ := List.mem_map.1 ho'
    have hne : o.prn ≠ 0 := hnamed o ho harn
    have hprn : (hear b o).prn = o.prn := rfl
    rw [hprn, readReg, if_neg hne, write, if_neg hne]
    rw [hear, if_neg hne] at hx
    cases hbp : b o.prn with
    | none =>
      rw [hbp, Option.or_none] at hx
      have := hf.live o ho x harn hx
      rw [readReg, if_neg hne] at this
      exact this
    | some y =>
      obtain ⟨o'', ho'', hp, hn⟩ := hb _ hne (by rw [hbp]; rfl)
      rw [live_unique h ho'' ho hp (hp ▸ hne)] at hn
      rw [hn, hbp] at hx
      exact Option.some.inj hx

end

end R10K.Dataflow
