import Mathlib.Data.Fin.Rev
import Mathlib.Data.Finset.Max
import Mathlib.Data.Fintype.Card
import Mathlib.Data.Fintype.Fin
import Mathlib.Tactic.FinCases
import R10K.Lib.Lanes

/-! Selecting several requests out of a vector.

`wand_sel.v` grants the highest set bit of a vector. `psel_gen.v` grants four bits at
once from alternating ends: the highest, the lowest, then the next ones inwards, and
masks a lane by the lanes of the other direction before it, so that where requests run
out a lane grants nothing rather than a bit twice. `onehot_enc.sv` turns a grant into
its index, and `mux_onehot.sv` picks the datum a one-hot vector points to. All are for
vectors of any width. -/
namespace R10K.Select
variable {n : Nat}

/-- A vector of a power of two has a bit 0. -/
instance neZero (w : Nat) : NeZero (2 ^ w) := ⟨(Nat.two_pow_pos w).ne'⟩

/-- `wand_sel`: the highest request. -/
def wandSel (req : Fin n → Bool) (i : Fin n) : Bool :=
  req i && (List.finRange n).all fun j => !(decide (i < j) && req j)

/-- `tmp_reqs`: the requests lane `j` sees, reversed for odd lanes. -/
def tmpReqs (req : Fin n → Bool) : Nat → Fin n → Bool
  | 0 => req
  | 1 => fun i => req i.rev
  | j + 2 => fun i => tmpReqs req j i && !wandSel (tmpReqs req j) i

def tmpGnts (req : Fin n → Bool) (j : Nat) : Fin n → Bool := wandSel (tmpReqs req j)

def tmpGntsRev (req : Fin n → Bool) (j : Nat) : Fin n → Bool := fun i => tmpGnts req j i.rev

/-- `gnt_bus` of a selector with four lanes. -/
def gntBus (req : Fin n → Bool) : Fin 4 → Fin n → Bool
  | 0 => tmpGnts req 0
  | 1 => fun i => tmpGntsRev req 1 i && !tmpGnts req 0 i
  | 2 => fun i => tmpGnts req 2 i && !(tmpGntsRev req 1 i && !tmpGnts req 0 i)
  | 3 => fun i => tmpGntsRev req 3 i && !tmpGnts req 0 i &&
      !(tmpGnts req 2 i && !(tmpGntsRev req 1 i && !tmpGnts req 0 i))

/-- `onehot_enc`: the last set bit, and zero if there is none. -/
def onehotEnc [NeZero n] (v : Fin n → Bool) : Fin n :=
  (List.finRange n).foldl (fun out i => if v i then i else out) 0

/-- `mux_onehot`: the datum whose select bit is the only one set, else the zero datum. -/
def muxOnehot {α : Type} (zero : α) (onehot : Fin n → Bool) (data : Fin n → α) : α :=
  (List.finRange n).foldl (fun out i =>
    if decide (∀ j, onehot j = decide (j = i)) then data i else out) zero

/-- A lane grants something. -/
def granted (g : Fin n → Bool) : Bool := (List.finRange n).any g

/-! ### One selector -/

theorem wandSel_iff (req : Fin n → Bool) (i : Fin n) :
    wandSel req i = true ↔ req i = true ∧ ∀ j, i < j → req j = false := by
  rw [wandSel, Bool.and_eq_true, List.all_eq_true]
  refine and_congr_right fun _ => ⟨fun h j hj => ?_, fun h j _ => ?_⟩
  · simpa [hj] using h j (List.mem_finRange j)
  · by_cases hj : i < j
    · rw [h j hj, Bool.and_false, Bool.not_false]
    · rw [decide_eq_false hj, Bool.false_and, Bool.not_false]

theorem wandSel_req {req : Fin n → Bool} {i : Fin n} (h : wandSel req i = true) : req i = true :=
  ((wandSel_iff req i).1 h).1

theorem wandSel_unique {req : Fin n → Bool} {i j : Fin n} (hi : wandSel req i = true)
    (hj : wandSel req j = true) : i = j := by
  rw [wandSel_iff] at hi hj
  rcases lt_trichotomy i j with h | h | h
  · rw [hi.2 j h] at hj
    cases hj.1
  · exact h
  · rw [hj.2 i h] at hi
    cases hi.1

/-- If anything is requested, something is granted. -/
theorem wandSel_exists {req : Fin n → Bool} {k : Fin n} (h : req k = true) :
    ∃ i, wandSel req i = true := by
  let s : Finset (Fin n) := Finset.univ.filter fun i => req i = true
  have hs : s.Nonempty := ⟨k, by simp [s, h]⟩
  refine ⟨s.max' hs, (wandSel_iff req _).2 ⟨?_, fun j hj => ?_⟩⟩
  · exact (Finset.mem_filter.1 (s.max'_mem hs)).2
  · by_contra hne
    have hmem : j ∈ s := by simpa [s] using hne
    exact absurd (s.le_max' j hmem) (not_le.2 hj)

/-! ### Four lanes -/

/-- A lane grants only what is requested. -/
theorem gntBus_req {req : Fin n → Bool} {l : Fin 4} {i : Fin n} (h : gntBus req l i = true) :
    req i = true := by
  fin_cases l <;> simp only [gntBus, Bool.and_eq_true] at h
  · exact wandSel_req h
  · have := wandSel_req h.1
    simpa [tmpReqs] using this
  · have := wandSel_req h.1
    simp only [tmpReqs, Bool.and_eq_true] at this
    exact this.1
  · have := wandSel_req h.1.1
    simp only [tmpReqs, Bool.and_eq_true, Fin.rev_rev] at this
    exact this.1

/-- A lane grants one request. -/
theorem gntBus_unique {req : Fin n → Bool} {l : Fin 4} {i j : Fin n} (hi : gntBus req l i = true)
    (hj : gntBus req l j = true) : i = j := by
  fin_cases l <;> simp only [gntBus, Bool.and_eq_true] at hi hj
  · exact wandSel_unique hi hj
  · exact Fin.rev_injective (wandSel_unique hi.1 hj.1)
  · exact wandSel_unique hi.1 hj.1
  · exact Fin.rev_injective (wandSel_unique hi.1.1 hj.1.1)

/-- A bit is granted to one lane. -/
theorem gntBus_disjoint {req : Fin n → Bool} {l m : Fin 4} {i : Fin n} (hl : gntBus req l i = true)
    (hm : gntBus req m i = true) : l = m := by
  have h2 : tmpGnts req 2 i = true → tmpGnts req 0 i = false := by
    intro h
    have := wandSel_req h
    simp only [tmpReqs, Bool.and_eq_true, Bool.not_eq_true'] at this
    exact this.2
  have h3 : tmpGntsRev req 3 i = true → tmpGntsRev req 1 i = false := by
    intro h
    have := wandSel_req h
    simp only [tmpReqs, Bool.and_eq_true, Bool.not_eq_true'] at this
    simpa [tmpGntsRev, tmpGnts, tmpReqs] using this.2
  fin_cases l <;> fin_cases m <;> simp only [gntBus, Bool.and_eq_true, Bool.not_eq_true'] at hl hm <;>
    simp_all

/-- A granted bit is above every other request. -/
theorem wandSel_max {req : Fin n → Bool} {i j : Fin n} (hi : wandSel req i = true)
    (hj : req j = true) : j ≤ i := by
  by_contra hlt
  rw [((wandSel_iff req i).1 hi).2 j (not_le.1 hlt)] at hj
  cases hj

/-- The lanes see the requests without the ones their direction has granted. -/
theorem tmpReqs_two {req : Fin n → Bool} {a j : Fin n} (ha : tmpGnts req 0 a = true)
    (hj : req j = true) (hne : j ≠ a) : tmpReqs req 2 j = true := by
  cases hw : wandSel req j with
  | false => simp [tmpReqs, hj, hw]
  | true => exact absurd (wandSel_unique hw ha) hne

theorem tmpReqs_three {req : Fin n → Bool} {b j : Fin n} (hb : tmpGntsRev req 1 b = true)
    (hj : req j = true) (hne : j ≠ b) : tmpReqs req 3 j.rev = true := by
  cases hw : wandSel (tmpReqs req 1) j.rev with
  | false =>
    simp only [tmpReqs, Bool.and_eq_true, Bool.not_eq_true', Fin.rev_rev]
    exact ⟨hj, hw⟩
  | true => exact absurd (Fin.rev_injective (wandSel_unique hw hb)) hne

/-- Each lane's own selector grants the extreme of what it sees. -/
theorem lane_zero {req : Fin n → Bool} {k : Fin n} (hk : req k = true) :
    ∃ a, tmpGnts req 0 a = true ∧ ∀ j, req j = true → j ≤ a := by
  obtain ⟨a, ha⟩ := wandSel_exists hk
  exact ⟨a, ha, fun j hj => wandSel_max ha hj⟩

theorem lane_one {req : Fin n → Bool} {k : Fin n} (hk : req k = true) :
    ∃ b, tmpGntsRev req 1 b = true ∧ ∀ j, req j = true → b ≤ j := by
  have hk' : tmpReqs req 1 k.rev = true := by simpa [tmpReqs] using hk
  obtain ⟨b, hb⟩ := wandSel_exists hk'
  refine ⟨b.rev, by simpa [tmpGntsRev, tmpGnts] using hb, fun j hj => ?_⟩
  have hj' : tmpReqs req 1 j.rev = true := by simpa [tmpReqs] using hj
  exact Fin.rev_le_iff.1 (wandSel_max hb hj')

theorem lane_two {req : Fin n → Bool} {a k : Fin n} (ha : tmpGnts req 0 a = true) (hk : req k = true)
    (hne : k ≠ a) : ∃ c, tmpGnts req 2 c = true ∧ ∀ j, req j = true → j ≠ a → j ≤ c := by
  obtain ⟨c, hc⟩ := wandSel_exists (tmpReqs_two ha hk hne)
  exact ⟨c, hc, fun j hj hja => wandSel_max hc (tmpReqs_two ha hj hja)⟩

theorem lane_three {req : Fin n → Bool} {b k : Fin n} (hb : tmpGntsRev req 1 b = true)
    (hk : req k = true) (hne : k ≠ b) :
    ∃ d, tmpGntsRev req 3 d = true ∧ ∀ j, req j = true → j ≠ b → d ≤ j := by
  obtain ⟨d, hd⟩ := wandSel_exists (tmpReqs_three hb hk hne)
  refine ⟨d.rev, by simpa [tmpGntsRev, tmpGnts] using hd, fun j hj hjb => ?_⟩
  exact Fin.rev_le_iff.1 (wandSel_max hd (tmpReqs_three hb hj hjb))

theorem not_granted {g : Fin n → Bool} {a j : Fin n} (huniq : ∀ i, g i = true → i = a) (hne : j ≠ a) :
    g j = false := by
  cases hg : g j with
  | false => rfl
  | true => exact absurd (huniq j hg) hne

/-- A smaller set of bits leaves a request out. -/
theorem exists_outside (req : Fin n → Bool) (s : Finset (Fin n))
    (hs : s.card < (Finset.univ.filter fun i => req i = true).card) : ∃ i, req i = true ∧ i ∉ s := by
  obtain ⟨i, hi, his⟩ := Finset.exists_mem_notMem_of_card_lt_card hs
  exact ⟨i, (Finset.mem_filter.1 hi).2, his⟩

/-- A lane grants as soon as there are more requests than lanes before it: the highest, the
lowest and their neighbours inwards are different bits. -/
theorem gntBus_exists_of_lt {req : Fin n → Bool} {l : Fin 4}
    (h : l.val < (Finset.univ.filter fun i => req i = true).card) : ∃ i, gntBus req l i = true := by
  obtain ⟨k, hk⟩ : (Finset.univ.filter fun i => req i = true).Nonempty :=
    Finset.card_pos.1 (Nat.lt_of_le_of_lt (Nat.zero_le _) h)
  rw [Finset.mem_filter] at hk
  replace hk := hk.2
  obtain ⟨a, ha, hamax⟩ := lane_zero hk
  obtain ⟨b, hb, hbmin⟩ := lane_one hk
  have hna : ∀ j, j ≠ a → tmpGnts req 0 j = false :=
    fun j hj => not_granted (fun i hi => wandSel_unique hi ha) hj
  -- were two of the bits one, no request would lie outside the others
  match l, h with
  | 0, _ => exact ⟨a, ha⟩
  | 1, h =>
    have hab : b ≠ a := by
      rintro rfl
      obtain ⟨j, hj, hjn⟩ := exists_outside req {b} h
      exact hjn (Finset.mem_singleton.2 (le_antisymm (hamax j hj) (hbmin j hj)))
    exact ⟨b, by simp [gntBus, hb, hna b hab]⟩
  | 2, h =>
    have h2 : 2 < (Finset.univ.filter fun i => req i = true).card := h
    obtain ⟨k2, hk2, hk2n⟩ := exists_outside req {a} (by rw [Finset.card_singleton]; omega)
    obtain ⟨c, hc, hcmax⟩ := lane_two ha hk2 (fun h => hk2n (Finset.mem_singleton.2 h))
    have hcb : c ≠ b := by
      rintro rfl
      obtain ⟨j, hj, hjn⟩ := exists_outside req {a, c} (lt_of_le_of_lt Finset.card_le_two h)
      simp only [Finset.mem_insert, Finset.mem_singleton, not_or] at hjn
      exact hjn.2 (le_antisymm (hcmax j hj hjn.1) (hbmin j hj))
    have hnb : tmpGntsRev req 1 c = false :=
      not_granted (fun i hi => Fin.rev_injective (wandSel_unique hi hb)) hcb
    exact ⟨c, by simp [gntBus, hc, hnb]⟩
  | 3, h =>
    have h3 : 3 < (Finset.univ.filter fun i => req i = true).card := h
    obtain ⟨k2, hk2, hk2n⟩ := exists_outside req {a} (by rw [Finset.card_singleton]; omega)
    obtain ⟨c, hc, hcmax⟩ := lane_two ha hk2 (fun h => hk2n (Finset.mem_singleton.2 h))
    obtain ⟨k3, hk3, hk3n⟩ := exists_outside req {b} (by rw [Finset.card_singleton]; omega)
    obtain ⟨d, hd, hdmin⟩ := lane_three hb hk3 (fun h => hk3n (Finset.mem_singleton.2 h))
    have hda : d ≠ a := by
      rintro rfl
      obtain ⟨j, hj, hjn⟩ := exists_outside req {d, b} (lt_of_le_of_lt Finset.card_le_two (by omega))
      simp only [Finset.mem_insert, Finset.mem_singleton, not_or] at hjn
      exact hjn.1 (le_antisymm (hamax j hj) (hdmin j hj hjn.2))
    have hdc : d ≠ c := by
      rintro rfl
      obtain ⟨j, hj, hjn⟩ := exists_outside req {a, b, d} (lt_of_le_of_lt Finset.card_le_three h3)
      simp only [Finset.mem_insert, Finset.mem_singleton, not_or] at hjn
      exact hjn.2.2 (le_antisymm (hcmax j hj hjn.1) (hdmin j hj hjn.2.1))
    have hnc : tmpGnts req 2 d = false := not_granted (fun i hi => wandSel_unique hi hc) hdc
    exact ⟨d, by simp [gntBus, hd, hnc, hna d hda]⟩

/-- With four requests every lane grants. -/
theorem gntBus_exists {req : Fin n → Bool}
    (h : 4 ≤ (Finset.univ.filter fun i => req i = true).card) (l : Fin 4) :
    ∃ i, gntBus req l i = true := gntBus_exists_of_lt (lt_of_lt_of_le l.isLt h)

/-! ### The encoder -/

/-- A loop whose last hit wins is a search from the end. -/
theorem foldl_last {α β : Type} (p : α → Bool) (f : α → β) (l : List α) (b : β) :
    l.foldl (fun r x => if p x then f x else r) b = ((l.reverse.find? p).map f).getD b := by
  induction l generalizing b with
  | nil => rfl
  | cons x l ih =>
    rw [List.foldl_cons, ih, List.reverse_cons, List.find?_append]
    cases l.reverse.find? p with
    | some y => rfl
    | none => cases hx : p x <;> simp [hx]

/-- A search from the end of a range finds the greatest hit. -/
theorem find_last {p : Nat → Bool} {n k : Nat} (h : (List.range n).reverse.find? p = some k) :
    p k = true ∧ ∀ j, k < j → j < n → p j = false := by
  induction n with
  | zero => cases h
  | succ n ih =>
    rw [List.range_succ, List.reverse_append, List.reverse_singleton, List.singleton_append] at h
    cases hn : p n with
    | true =>
      rw [List.find?_cons_of_pos hn, Option.some.injEq] at h
      subst h
      exact ⟨hn, fun j hj hlt => by omega⟩
    | false =>
      rw [List.find?_cons_of_neg (by simp [hn])] at h
      obtain ⟨hk, hlast⟩ := ih h
      refine ⟨hk, fun j hj hlt => ?_⟩
      rcases Nat.lt_succ_iff_lt_or_eq.1 hlt with hlt | rfl
      · exact hlast j hj hlt
      · exact hn

theorem onehotEnc_find [NeZero n] (v : Fin n → Bool) :
    onehotEnc v = ((List.finRange n).reverse.find? v).getD 0 := by
  have h := foldl_last v id (List.finRange n) 0
  rw [Option.map_id] at h
  exact h

/-- The index of the only set bit. -/
theorem onehotEnc_eq [NeZero n] {v : Fin n → Bool} {x : Fin n} (hv : v x = true)
    (honly : ∀ i, v i = true → i = x) : onehotEnc v = x := by
  rw [onehotEnc_find]
  cases hf : (List.finRange n).reverse.find? v with
  | some y => exact honly y (List.find?_some hf)
  | none =>
    have := List.find?_eq_none.1 hf x (by simp)
    exact absurd hv this

/-- The selected datum. -/
theorem muxOnehot_eq {α : Type} (zero : α) {v : Fin n → Bool} (data : Fin n → α) {x : Fin n}
    (hv : v x = true) (honly : ∀ i, v i = true → i = x) : muxOnehot zero v data = data x := by
  rw [muxOnehot, foldl_last]
  cases hf : (List.finRange n).reverse.find? fun i => decide (∀ j, v j = decide (j = i)) with
  | some y =>
    have hp : decide (∀ j, v j = decide (j = y)) = true :=
      List.find?_some (p := fun i => decide (∀ j, v j = decide (j = i))) hf
    have hy := of_decide_eq_true hp
    have hvy : v y = true := by rw [hy y, decide_eq_true rfl]
    rw [honly y hvy]
    rfl
  | none =>
    refine absurd (decide_eq_true fun j => ?_) (List.find?_eq_none.1 hf x (by simp))
    rw [Bool.eq_iff_iff, decide_eq_true_eq]
    exact ⟨honly j, fun h => h ▸ hv⟩

/-- With no bit set the zero datum comes out. -/
theorem muxOnehot_none {α : Type} (zero : α) {v : Fin n → Bool} (data : Fin n → α)
    (h : ∀ i, v i = false) : muxOnehot zero v data = zero := by
  rw [muxOnehot, foldl_last, List.find?_eq_none.2]
  · rfl
  · intro i _ hi
    have := of_decide_eq_true hi i
    rw [h i, decide_eq_true rfl] at this
    cases this

theorem granted_iff (g : Fin n → Bool) : granted g = true ↔ ∃ i, g i = true := by
  simp [granted]

/-! ### The selection as a matching -/

/-- Lanes matched with requests: every valid lane has a request of its own, and as many
lanes are valid as there can be, the first ones. -/
structure Matching (req : Fin n → Bool) (valid : Fin 4 → Bool) (index : Fin 4 → Fin n) : Prop where
  requested : ∀ l, valid l = true → req (index l) = true
  distinct : ∀ l m, valid l = true → valid m = true → index l = index m → l = m
  count : (Finset.univ.filter fun l => valid l = true).card =
    min 4 (Finset.univ.filter fun i => req i = true).card
  first : ∀ l, valid l = true ↔ l.val < (Finset.univ.filter fun i => req i = true).card

section
variable [NeZero n] {req : Fin n → Bool}

/-- A lane that grants is encoded as the bit it grants. -/
theorem gntBus_enc {l : Fin 4} (h : granted (gntBus req l) = true) :
    gntBus req l (onehotEnc (gntBus req l)) = true := by
  obtain ⟨i, hi⟩ := (granted_iff _).1 h
  rw [onehotEnc_eq hi fun j hj => gntBus_unique hj hi]
  exact hi

/-- The encoder gives the index of the granted bit. -/
theorem gntBus_iff (l : Fin 4) (i : Fin n) : gntBus req l i = true ↔
    granted (gntBus req l) = true ∧ onehotEnc (gntBus req l) = i := by
  constructor
  · intro hi
    have hg : granted (gntBus req l) = true := (granted_iff _).2 ⟨i, hi⟩
    exact ⟨hg, gntBus_unique (gntBus_enc hg) hi⟩
  · rintro ⟨hg, rfl⟩
    exact gntBus_enc hg

theorem enc_injOn : Set.InjOn (fun l => onehotEnc (gntBus req l))
    (Finset.univ.filter fun l => granted (gntBus req l) = true) := by
  intro l hl m hm he
  have hgl : granted (gntBus req l) = true := by simpa using hl
  have hgm : granted (gntBus req m) = true := by simpa using hm
  exact gntBus_disjoint (gntBus_enc hgl) ((gntBus_iff m _).2 ⟨hgm, he.symm⟩)

/-- The lanes that grant are the first ones, as many as there are requests. -/
theorem granted_lanes (req : Fin n → Bool) : (Finset.univ.filter fun l => granted (gntBus req l) = true) =
    Finset.univ.filter fun l : Fin 4 => l.val < (Finset.univ.filter fun i => req i = true).card := by
  have hfirst : (Finset.univ.filter fun l : Fin 4 =>
      l.val < (Finset.univ.filter fun i => req i = true).card) ⊆
      Finset.univ.filter fun l => granted (gntBus req l) = true := by
    intro l hl
    rw [Finset.mem_filter] at hl ⊢
    exact ⟨hl.1, (granted_iff _).2 (gntBus_exists_of_lt hl.2)⟩
  -- the bits granted are different requests, so no further lane grants
  have hcard : (Finset.univ.filter fun l => granted (gntBus req l) = true).card ≤
      (Finset.univ.filter fun i => req i = true).card := by
    refine Finset.card_le_card_of_injOn (fun l => onehotEnc (gntBus req l)) (fun l hl => ?_) enc_injOn
    have hg : granted (gntBus req l) = true := by simpa using hl
    simpa using gntBus_req (gntBus_enc hg)
  refine (Finset.eq_of_subset_of_card_le hfirst ?_).symm
  rw [Fin.card_filter_val_lt]
  exact le_min (card_finset_fin_le _) hcard

/-- **Four lanes make a matching of any request vector.** -/
theorem matching_gntBus (req : Fin n → Bool) : Matching req (fun l => granted (gntBus req l))
    (fun l => onehotEnc (gntBus req l)) where
  requested l hl := gntBus_req (gntBus_enc hl)
  distinct l m hl hm he := gntBus_disjoint (gntBus_enc hl) ((gntBus_iff m _).2 ⟨hm, he.symm⟩)
  count := by rw [granted_lanes, Fin.card_filter_val_lt]
  first l := by
    have := Finset.ext_iff.1 (granted_lanes req) l
    simpa using this

end

end R10K.Select
