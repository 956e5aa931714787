import Mathlib.Data.Finset.Card
import Mathlib.Tactic.Linarith
import R10K.Lib.Circular
import R10K.Rs.Sort

/-! What the comparator tree grants.

A node that sees two requests takes the older, and loses its position bit: the bit it
hands up is the latched one, whatever an earlier cycle left. Two requesters meet at one
node, with their own bits, so that the older is granted. Of three or more the winner of
two meets another under a bit that an earlier cycle has chosen, and some past makes the
oldest lose. So the tree grants the oldest whatever came before exactly if at most two
request. -/
namespace R10K.Sort
open Circular
variable {H w : Nat}

/-! ### The requesters below a node -/

/-- The requesters below node `k` at height `h`. -/
def below (req : Fin (2 ^ H) → Bool) (h k : Nat) : Finset (Fin (2 ^ H)) :=
  Finset.univ.filter fun i => req i = true ∧ i.val / 2 ^ h = k

/-- The node is one of the tree of height `H`. -/
def Inside (H h k : Nat) : Prop := (k + 1) * 2 ^ h ≤ 2 ^ H

section
variable {req : Fin (2 ^ H) → Bool} {h k : Nat}

theorem mem_below {i : Fin (2 ^ H)} : i ∈ below req h k ↔ req i = true ∧ i.val / 2 ^ h = k := by
  simp [below]

theorem div_succ (i h : Nat) : i / 2 ^ (h + 1) = i / 2 ^ h / 2 := by
  rw [Nat.pow_succ, Nat.div_div_eq_div_mul]

theorem Inside.left (hk : Inside H (h + 1) k) : Inside H h (2 * k) := by
  unfold Inside at hk ⊢
  rw [Nat.pow_succ] at hk
  have := Nat.two_pow_pos h
  nlinarith

theorem Inside.right (hk : Inside H (h + 1) k) : Inside H h (2 * k + 1) := by
  unfold Inside at hk ⊢
  rw [Nat.pow_succ] at hk
  linarith

/-- A node's requesters are those of its two children. -/
theorem below_succ : below req (h + 1) k = below req h (2 * k) ∪ below req h (2 * k + 1) := by
  ext i
  rw [Finset.mem_union, mem_below, mem_below, mem_below, div_succ, ← and_or_left]
  exact and_congr_right fun _ => by omega

theorem card_below_succ (req : Fin (2 ^ H) → Bool) (h k : Nat) : (below req (h + 1) k).card =
    (below req h (2 * k)).card + (below req h (2 * k + 1)).card := by
  rw [below_succ, Finset.card_union_of_disjoint]
  rw [Finset.disjoint_left]
  intro i hi hj
  rw [mem_below] at hi hj
  omega

end

/-! ### What a node carries -/

section
variable {L L' : Latch} {req : Fin (2 ^ H) → Bool} {data : Fin (2 ^ H) → BitVec w}
  {pos : Fin (2 ^ H) → Bool} {h k : Nat}

/-- A comparator requests if one of its children does. -/
theorem compare_req (latch : Bool) (a b : Node (2 ^ H) w) : (compare latch a b).req = (a.req || b.req) := by
  unfold compare
  cases a.req <;> cases b.req <;> simp only [Bool.or_self, Bool.or_true, Bool.or_false]
  split <;> split <;> rfl

theorem compare_left (latch : Bool) {a b : Node (2 ^ H) w} (ha : a.req = true) (hb : b.req = false) :
    compare latch a b = ⟨true, a.data, a.pos, a.idx⟩ := by
  simp only [compare, ha, hb]

theorem compare_right (latch : Bool) {a b : Node (2 ^ H) w} (ha : a.req = false) (hb : b.req = true) :
    compare latch a b = ⟨true, b.data, b.pos, b.idx⟩ := by
  simp only [compare, ha, hb]

/-- With two requests the older child is taken, by the bits the children carry, and the
node's own bit is the latch. -/
theorem compare_both (latch : Bool) {a b : Node (2 ^ H) w} (ha : a.req = true) (hb : b.req = true) :
    compare latch a b = if Ptr.older (⟨a.pos, a.data⟩ : Ptr w) ⟨b.pos, b.data⟩ then
      ⟨true, a.data, latch, a.idx⟩ else ⟨true, b.data, latch, b.idx⟩ := by
  simp only [compare, ha, hb, Ptr.older]
  by_cases hp : a.pos = b.pos
  · simp [hp]
  · simp [hp]

theorem leaf_below (hk : Inside H 0 k) : (Fin.ofNat (2 ^ H) k).val = k := by
  unfold Inside at hk
  rw [Nat.pow_zero, Nat.mul_one] at hk
  exact Nat.mod_eq_of_lt hk

/-- **A node requests exactly if there is a requester below it.** -/
theorem node_req_iff (L : Latch) (data : Fin (2 ^ H) → BitVec w) (pos : Fin (2 ^ H) → Bool)
    (hk : Inside H h k) : (node L (leaf req data pos) h k).req = true ↔ (below req h k).Nonempty := by
  induction h generalizing k with
  | zero =>
    have hval := leaf_below hk
    constructor
    · intro hr
      exact ⟨_, mem_below.2 ⟨hr, by rw [Nat.pow_zero, Nat.div_one, hval]⟩⟩
    · rintro ⟨i, hi⟩
      rw [mem_below, Nat.pow_zero, Nat.div_one] at hi
      have hik : Fin.ofNat (2 ^ H) k = i := Fin.ext (hval.trans hi.2.symm)
      simp only [node, leaf, hik, hi.1]
  | succ h ih =>
    rw [node, compare_req, Bool.or_eq_true, ih hk.left, ih hk.right, below_succ, Finset.union_nonempty]

theorem node_req_false (hk : Inside H h k) (he : below req h k = ∅) :
    (node L (leaf req data pos) h k).req = false := by
  rw [← Bool.not_eq_true, node_req_iff _ _ _ hk, he]
  exact Finset.not_nonempty_empty

/-- A requesting node carries a requester below it, with that requester's datum. -/
theorem node_idx (hk : Inside H h k) (hr : (node L (leaf req data pos) h k).req = true) :
    (node L (leaf req data pos) h k).idx ∈ below req h k ∧
      (node L (leaf req data pos) h k).data = data (node L (leaf req data pos) h k).idx := by
  induction h generalizing k with
  | zero =>
    refine ⟨mem_below.2 ⟨hr, ?_⟩, rfl⟩
    rw [Nat.pow_zero, Nat.div_one]
    exact leaf_below hk
  | succ h ih =>
    rw [below_succ, Finset.mem_union]
    rw [node] at hr ⊢
    cases ha : (node L (leaf req data pos) h (2 * k)).req <;>
      cases hb : (node L (leaf req data pos) h (2 * k + 1)).req
    · rw [compare_req, ha, hb] at hr
      cases hr
    · rw [compare_right _ ha hb]
      exact ⟨.inr (ih hk.right hb).1, (ih hk.right hb).2⟩
    · rw [compare_left _ ha hb]
      exact ⟨.inl (ih hk.left ha).1, (ih hk.left ha).2⟩
    · rw [compare_both _ ha hb]
      split
      · exact ⟨.inl (ih hk.left ha).1, (ih hk.left ha).2⟩
      · exact ⟨.inr (ih hk.right hb).1, (ih hk.right hb).2⟩

/-- Over one requester a node carries its position bit. -/
theorem node_pos (hk : Inside H h k) (hone : (below req h k).card ≤ 1)
    (hr : (node L (leaf req data pos) h k).req = true) :
    (node L (leaf req data pos) h k).pos = pos (node L (leaf req data pos) h k).idx := by
  induction h generalizing k with
  | zero => rfl
  | succ h ih =>
    rw [card_below_succ] at hone
    rw [node] at hr ⊢
    cases ha : (node L (leaf req data pos) h (2 * k)).req <;>
      cases hb : (node L (leaf req data pos) h (2 * k + 1)).req
    · rw [compare_req, ha, hb] at hr
      cases hr
    · rw [compare_right _ ha hb]
      exact ih hk.right (by omega) hb
    · rw [compare_left _ ha hb]
      exact ih hk.left (by omega) ha
    · have ha' := Finset.card_pos.2 ((node_req_iff _ _ _ hk.left).1 ha)
      have hb' := Finset.card_pos.2 ((node_req_iff _ _ _ hk.right).1 hb)
      omega

end

/-! ### At most two requesters -/

/-- The requester older than every other one. -/
structure Oldest (req : Fin (2 ^ H) → Bool) (count : Fin (2 ^ H) → Nat) (o : Fin (2 ^ H)) : Prop where
  requests : req o = true
  older : ∀ j, req j = true → j ≠ o → count o < count j

/-- Ages as ROB positions: the requesters' lie in one window. -/
def Window (w : Nat) (req : Fin (2 ^ H) → Bool) (count : Fin (2 ^ H) → Nat) (b : Nat) : Prop :=
  ∀ k, req k = true → b ≤ count k ∧ count k < b + 2 ^ w

/-- The datum and the position bit of an age. -/
def tagOf (w : Nat) (count : Fin (2 ^ H) → Nat) (k : Fin (2 ^ H)) : BitVec w := (Ptr.ofCount w (count k)).idx
def posOf (w : Nat) (count : Fin (2 ^ H) → Nat) (k : Fin (2 ^ H)) : Bool := (Ptr.ofCount w (count k)).pos

section
variable {L L' : Latch} {req : Fin (2 ^ H) → Bool} {count : Fin (2 ^ H) → Nat} {b h k : Nat}
  {o : Fin (2 ^ H)}

theorem Oldest.unique {o' : Fin (2 ^ H)} (h : Oldest req count o) (h' : Oldest req count o') : o = o' := by
  by_contra hne
  exact absurd (h.older o' h'.requests (Ne.symm hne)) (Nat.lt_asymm (h'.older o h.requests hne))

/-- With their own bits, two requesters are compared by age. -/
theorem older_node (hwin : Window w req count b) (hk : Inside H h k) {h' k' : Nat} (hk' : Inside H h' k')
    (hone : (below req h k).card ≤ 1) (hone' : (below req h' k').card ≤ 1)
    (ha : (node L (leaf req (tagOf w count) (posOf w count)) h k).req = true)
    (hb : (node L (leaf req (tagOf w count) (posOf w count)) h' k').req = true) :
    let x := node L (leaf req (tagOf w count) (posOf w count)) h k
    let y := node L (leaf req (tagOf w count) (posOf w count)) h' k'
    Ptr.older (⟨x.pos, x.data⟩ : Ptr w) ⟨y.pos, y.data⟩ = true ↔ count x.idx < count y.idx := by
  intro x y
  have hx := node_idx hk ha
  have hy := node_idx hk' hb
  have hpx := node_pos hk hone ha
  have hpy := node_pos hk' hone' hb
  have hxp : (⟨x.pos, x.data⟩ : Ptr w) = Ptr.ofCount w (count x.idx) := by
    rw [hpx, hx.2]
    rfl
  have hyp : (⟨y.pos, y.data⟩ : Ptr w) = Ptr.ofCount w (count y.idx) := by
    rw [hpy, hy.2]
    rfl
  rw [hxp, hyp]
  exact Ptr.older_iff (hwin _ (mem_below.1 hx.1).1) (hwin _ (mem_below.1 hy.1).1)

/-- **Over at most two requesters a node carries the oldest**, whatever the latches hold. -/
theorem node_oldest (hwin : Window w req count b) (hold : Oldest req count o) (hk : Inside H h k)
    (ho : o ∈ below req h k) (htwo : (below req h k).card ≤ 2) :
    (node L (leaf req (tagOf w count) (posOf w count)) h k).idx = o := by
  induction h generalizing k with
  | zero =>
    have hidx := mem_below.1 ho
    rw [Nat.pow_zero, Nat.div_one] at hidx
    exact Fin.ext ((leaf_below hk).trans hidx.2.symm)
  | succ h ih =>
    have hreq := (node_req_iff L (tagOf w count) (posOf w count) hk).2 ⟨o, ho⟩
    have hcard := card_below_succ req h k
    have hleft := (node_req_iff L (tagOf w count) (posOf w count) hk.left : _ ↔ (below req h _).Nonempty)
    have hright := (node_req_iff L (tagOf w count) (posOf w count) hk.right : _ ↔ (below req h _).Nonempty)
    rw [below_succ, Finset.mem_union] at ho
    rw [node] at hreq ⊢
    cases ha : (node L (leaf req (tagOf w count) (posOf w count)) h (2 * k)).req <;>
      cases hb : (node L (leaf req (tagOf w count) (posOf w count)) h (2 * k + 1)).req
    · rw [compare_req, ha, hb] at hreq
      cases hreq
    · rw [compare_right _ ha hb]
      rw [ha] at hleft
      have hmem := ho.resolve_left fun hl => absurd (hleft.2 ⟨o, hl⟩) Bool.false_ne_true
      exact ih hk.right hmem (by omega)
    · rw [compare_left _ ha hb]
      rw [hb] at hright
      have hmem := ho.resolve_right fun hr => absurd (hright.2 ⟨o, hr⟩) Bool.false_ne_true
      exact ih hk.left hmem (by omega)
    · -- one requester on each side
      have hla := Finset.card_pos.2 (hleft.1 ha)
      have hlb := Finset.card_pos.2 (hright.1 hb)
      have hx := node_idx hk.left ha
      have hy := node_idx hk.right hb
      have hiff := older_node hwin hk.left hk.right (by omega) (by omega) ha hb
      rw [compare_both _ ha hb]
      rcases ho with ho | ho
      · have hxo := Finset.card_le_one.1 (by omega) _ hx.1 _ ho
        have hne : (node L (leaf req (tagOf w count) (posOf w count)) h (2 * k + 1)).idx ≠ o := by
          intro he
          have h1 := mem_below.1 hy.1
          have h2 := mem_below.1 ho
          rw [he] at h1
          omega
        rw [if_pos (hiff.2 ?_)]
        · exact hxo
        · rw [hxo]
          exact hold.older _ (mem_below.1 hy.1).1 hne
      · have hyo := Finset.card_le_one.1 (by omega) _ hy.1 _ ho
        have hne : (node L (leaf req (tagOf w count) (posOf w count)) h (2 * k)).idx ≠ o := by
          intro he
          have h1 := mem_below.1 hx.1
          have h2 := mem_below.1 ho
          rw [he] at h1
          omega
        rw [if_neg fun hlt => ?_]
        · exact hyo
        · have := hiff.1 hlt
          rw [hyo] at this
          exact absurd this (Nat.lt_asymm (hold.older _ (mem_below.1 hx.1).1 hne))

end

/-! ### Three requesters -/

/-- The place of a node under another. -/
def Under (h k h' k' : Nat) : Prop := h' ≤ h ∧ k' / 2 ^ (h - h') = k

theorem Under.up {h k c h' k' : Nat} (hc : c / 2 = k) (hu : Under h c h' k') : Under (h + 1) k h' k' := by
  obtain ⟨hle, hdiv⟩ := hu
  refine ⟨by omega, ?_⟩
  rw [show h + 1 - h' = (h - h') + 1 by omega, div_succ, hdiv, hc]

/-- A node depends on the latches under it. -/
theorem node_congr {L L' : Latch} (lf : Nat → Node (2 ^ H) w) {h k : Nat}
    (hl : ∀ h' k', 0 < h' → Under h k h' k' → L h' k' = L' h' k') : node L lf h k = node L' lf h k := by
  induction h generalizing k with
  | zero => rfl
  | succ h ih =>
    have ha := ih fun h' k' hpos hu => hl h' k' hpos (hu.up (c := 2 * k) (by omega))
    have hb := ih fun h' k' hpos hu => hl h' k' hpos (hu.up (c := 2 * k + 1) (by omega))
    rw [node, node, ha, hb, hl (h + 1) k (by omega) ⟨Nat.le_refl _, by simp⟩]

section
variable {req : Fin (2 ^ H) → Bool} {data : Fin (2 ^ H) → BitVec w} {pos : Fin (2 ^ H) → Bool} {h k : Nat}

theorem card_below_zero (req : Fin (2 ^ H) → Bool) (k : Nat) : (below req 0 k).card ≤ 1 := by
  refine Finset.card_le_one.2 fun i hi j hj => ?_
  rw [mem_below, Nat.pow_zero, Nat.div_one] at hi hj
  exact Fin.ext (hi.2.trans hj.2.symm)

/-- **Over two requesters or more the latches under a node choose its position bit**, and
nothing else of it. -/
theorem node_free (data : Fin (2 ^ H) → BitVec w) (pos : Fin (2 ^ H) → Bool) (hk : Inside H h k) (htwo : 2 ≤ (below req h k).card) (L : Latch) (β : Bool) :
    ∃ L' : Latch, (∀ h' k', ¬Under h k h' k' → L' h' k' = L h' k') ∧
      node L' (leaf req data pos) h k = { node L (leaf req data pos) h k with pos := β } := by
  induction h generalizing k with
  | zero =>
    have := card_below_zero req k
    omega
  | succ h ih =>
    have hcard := card_below_succ req h k
    rcases Finset.eq_empty_or_nonempty (below req h (2 * k)) with hae | ha
    · have hpos : 2 ≤ (below req h (2 * k + 1)).card := by
        rw [hae, Finset.card_empty] at hcard
        omega
      obtain ⟨L', hout, hnode⟩ := ih hk.right hpos
      refine ⟨L', fun h' k' hu => hout h' k' fun hu' => hu (hu'.up (by omega)), ?_⟩
      have hb : ∀ L, (node L (leaf req data pos) h (2 * k + 1)).req = true := fun L =>
        (node_req_iff _ _ _ hk.right).2 (Finset.card_pos.1 (by omega))
      have ha : ∀ L, (node L (leaf req data pos) h (2 * k)).req = false := fun L => node_req_false hk.left hae
      rw [node, node, compare_right _ (ha L') (hb L'), compare_right _ (ha L) (hb L), hnode]
    · rcases Finset.eq_empty_or_nonempty (below req h (2 * k + 1)) with hbe | hb
      · have hpos : 2 ≤ (below req h (2 * k)).card := by
          rw [hbe, Finset.card_empty] at hcard
          omega
        obtain ⟨L', hout, hnode⟩ := ih hk.left hpos
        refine ⟨L', fun h' k' hu => hout h' k' fun hu' => hu (hu'.up (by omega)), ?_⟩
        have ha : ∀ L, (node L (leaf req data pos) h (2 * k)).req = true := fun L =>
          (node_req_iff _ _ _ hk.left).2 (Finset.card_pos.1 (by omega))
        have hb : ∀ L, (node L (leaf req data pos) h (2 * k + 1)).req = false := fun L =>
          node_req_false hk.right hbe
        rw [node, node, compare_left _ (ha L') (hb L'), compare_left _ (ha L) (hb L), hnode]
      · -- both children request: the node's own latch is its bit
        let L' : Latch := fun h' k' => if h' = h + 1 ∧ k' = k then β else L h' k'
        have hchild : ∀ c, node L' (leaf req data pos) h c = node L (leaf req data pos) h c := by
          intro c
          refine node_congr _ fun h' k' _ hu => if_neg ?_
          rintro ⟨he, _⟩
          have := hu.1
          omega
        refine ⟨L', fun h' k' hu => if_neg ?_, ?_⟩
        · rintro ⟨rfl, rfl⟩
          exact hu ⟨Nat.le_refl _, by simp⟩
        · have hβ : L' (h + 1) k = β := if_pos ⟨rfl, rfl⟩
          rw [node, node, hchild, hchild, hβ, compare_both _ ((node_req_iff _ _ _ hk.left).2 ha)
            ((node_req_iff _ _ _ hk.right).2 hb), compare_both _ ((node_req_iff _ _ _ hk.left).2 ha)
            ((node_req_iff _ _ _ hk.right).2 hb)]
          split <;> rfl

end

/-- A comparator takes the other child when one position bit turns, unless the data are equal. -/
theorem older_turn {p q : Bool} {x y : BitVec w} (hne : x ≠ y) :
    Ptr.older (⟨!p, x⟩ : Ptr w) ⟨q, y⟩ = (!Ptr.older (⟨p, x⟩ : Ptr w) ⟨q, y⟩) ∧
      Ptr.older (⟨p, x⟩ : Ptr w) ⟨!q, y⟩ = (!Ptr.older (⟨p, x⟩ : Ptr w) ⟨q, y⟩) := by
  have hlt : decide (y < x) = !decide (x < y) := by
    rw [Bool.eq_iff_iff, decide_eq_true_eq, Bool.not_eq_true', decide_eq_false_iff_not, BitVec.lt_def,
      BitVec.lt_def]
    have := mt BitVec.eq_of_toNat_eq hne
    omega
  simp only [Ptr.older, hlt]
  cases p <;> cases q <;> cases decide (x < y) <;> exact ⟨rfl, rfl⟩

theorem compare_turn {a b : Node (2 ^ H) w} (l l' : Bool) (ha : a.req = true) (hb : b.req = true)
    (hdata : a.data ≠ b.data) (hidx : a.idx ≠ b.idx) :
    (compare l { a with pos := !a.pos } b).idx ≠ (compare l' a b).idx ∧
      (compare l a { b with pos := !b.pos }).idx ≠ (compare l' a b).idx := by
  obtain ⟨hx, hy⟩ := older_turn (p := a.pos) (q := b.pos) hdata
  rw [compare_both l' ha hb, compare_both l (a := { a with pos := !a.pos }) ha hb,
    compare_both l (b := { b with pos := !b.pos }) ha hb]
  simp only [hx, hy]
  cases Ptr.older (⟨a.pos, a.data⟩ : Ptr w) ⟨b.pos, b.data⟩
  · exact ⟨hidx, hidx⟩
  · exact ⟨hidx.symm, hidx.symm⟩

section
variable {req : Fin (2 ^ H) → Bool} {count : Fin (2 ^ H) → Nat} {b h k : Nat} {o : Fin (2 ^ H)}

/-- The oldest of the window has a datum of its own. -/
theorem Oldest.tag_ne (hold : Oldest req count o) (hwin : Window w req count b) {j : Fin (2 ^ H)}
    (hj : req j = true) (hne : j ≠ o) : tagOf w count o ≠ tagOf w count j := by
  intro he
  have heq := Ptr.idx_inj_window (hwin o hold.requests) (hwin j hj) he
  have := hold.older j hj hne
  omega

/-- **Over three requesters or more some latches make the oldest lose.** -/
theorem node_loses (hwin : Window w req count b) (hold : Oldest req count o) (hk : Inside H h k)
    (ho : o ∈ below req h k) (hthree : 3 ≤ (below req h k).card) :
    ∃ L, (node L (leaf req (tagOf w count) (posOf w count)) h k).idx ≠ o := by
  induction h generalizing k with
  | zero =>
    have := card_below_zero req k
    omega
  | succ h ih =>
    have hcard := card_below_succ req h k
    rw [below_succ, Finset.mem_union] at ho
    rcases Finset.eq_empty_or_nonempty (below req h (2 * k)) with hae | ha
    · rw [hae, Finset.card_empty] at hcard
      obtain ⟨L, hL⟩ := ih hk.right (ho.resolve_left (by simp [hae])) (by omega)
      refine ⟨L, ?_⟩
      rw [node, compare_right _ (node_req_false hk.left hae)
        ((node_req_iff _ _ _ hk.right).2 (Finset.card_pos.1 (by omega)))]
      exact hL
    rcases Finset.eq_empty_or_nonempty (below req h (2 * k + 1)) with hbe | hb
    · rw [hbe, Finset.card_empty] at hcard
      obtain ⟨L, hL⟩ := ih hk.left (ho.resolve_right (by simp [hbe])) (by omega)
      refine ⟨L, ?_⟩
      rw [node, compare_left _ ((node_req_iff _ _ _ hk.left).2 (Finset.card_pos.1 (by omega)))
        (node_req_false hk.right hbe)]
      exact hL
    -- both children request: if the oldest wins under some latches, turn the bit of a child
    let L : Latch := fun _ _ => false
    by_cases hwon : (node L (leaf req (tagOf w count) (posOf w count)) (h + 1) k).idx = o
    · have hra := (node_req_iff L (tagOf w count) (posOf w count) hk.left).2 ha
      have hrb := (node_req_iff L (tagOf w count) (posOf w count) hk.right).2 hb
      have hx := node_idx hk.left hra
      have hy := node_idx hk.right hrb
      have hidx : (node L (leaf req (tagOf w count) (posOf w count)) h (2 * k)).idx ≠
          (node L (leaf req (tagOf w count) (posOf w count)) h (2 * k + 1)).idx := by
        intro he
        have h1 := mem_below.1 hx.1
        have h2 := mem_below.1 hy.1
        rw [he] at h1
        omega
      have hdata : (node L (leaf req (tagOf w count) (posOf w count)) h (2 * k)).data ≠
          (node L (leaf req (tagOf w count) (posOf w count)) h (2 * k + 1)).data := by
        rw [hx.2, hy.2]
        rw [node, compare_both _ hra hrb] at hwon
        split at hwon
        · rw [hwon] at hidx ⊢
          exact hold.tag_ne hwin (mem_below.1 hy.1).1 hidx.symm
        · rw [hwon] at hidx ⊢
          exact (hold.tag_ne hwin (mem_below.1 hx.1).1 hidx).symm
      have hapart : ∀ c c' h' k', c ≠ c' → Under h c h' k' → ¬Under h c' h' k' :=
        fun _ _ _ _ hne hu hu' => hne (hu.2.symm.trans hu'.2)
      by_cases htwo : 2 ≤ (below req h (2 * k)).card
      · obtain ⟨L', hout, hnode⟩ := node_free (tagOf w count) (posOf w count) hk.left htwo L
          (!(node L (leaf req (tagOf w count) (posOf w count)) h (2 * k)).pos)
        have hother := node_congr (leaf req (tagOf w count) (posOf w count)) fun h' k' _ hu =>
          hout h' k' (hapart (2 * k + 1) (2 * k) h' k' (by omega) hu)
        refine ⟨L', ?_⟩
        rw [node, hnode, hother, ← hwon]
        exact (compare_turn _ _ hra hrb hdata hidx).1
      · have htwo' : 2 ≤ (below req h (2 * k + 1)).card := by omega
        obtain ⟨L', hout, hnode⟩ := node_free (tagOf w count) (posOf w count) hk.right
          htwo' L (!(node L (leaf req (tagOf w count) (posOf w count)) h (2 * k + 1)).pos)
        have hother := node_congr (leaf req (tagOf w count) (posOf w count)) fun h' k' _ hu =>
          hout h' k' (hapart (2 * k) (2 * k + 1) h' k' (by omega) hu)
        refine ⟨L', ?_⟩
        rw [node, hnode, hother, ← hwon]
        exact (compare_turn _ _ hra hrb hdata hidx).2
    · exact ⟨L, hwon⟩

end

/-! ### What the past can leave -/

/-- What is presented to the tree in a cycle. -/
structure Cycle (H w : Nat) where
  req : Fin (2 ^ H) → Bool
  data : Fin (2 ^ H) → BitVec w
  pos : Fin (2 ^ H) → Bool

/-- What the latches hold after a cycle. -/
def leave (L : Latch) (c : Cycle H w) : Latch := nextLatch L c.req c.data c.pos

/-- What they hold after a past. -/
def after (L : Latch) (past : List (Cycle H w)) : Latch := past.foldl leave L

/-- A cycle with one requester under each node of height `h`, which has the bit wanted there. -/
def setting (T : Latch) (h : Nat) : Cycle H w where
  req := fun i => decide (i.val % 2 ^ h = 0)
  data := fun _ => 0
  pos := fun i => T h (i.val / 2 ^ h)

section
variable {h g k : Nat} (L T : Latch)

/-- The leftmost leaf under a node of that height or above requests. -/
theorem setting_req (w : Nat) (hk : Inside H g k) (hle : h ≤ g) :
    let c : Cycle H w := setting T h
    (node L (leaf c.req c.data c.pos) g k).req = true := by
  intro c
  have hpos := Nat.two_pow_pos g
  have hlt : k * 2 ^ g < 2 ^ H := by
    unfold Inside at hk
    nlinarith
  rw [node_req_iff L _ _ hk]
  refine ⟨⟨k * 2 ^ g, hlt⟩, mem_below.2 ⟨decide_eq_true ?_, Nat.mul_div_cancel _ hpos⟩⟩
  exact Nat.mod_eq_zero_of_dvd ((Nat.pow_dvd_pow 2 hle).mul_left k)

/-- The cycle sets the latches of its height, -/
theorem setting_at (hk : Inside H h k) : leave L (setting (H := H) (w := w) T h) h k = T h k := by
  have hr := setting_req L T w hk (Nat.le_refl h)
  have hone : (below (setting (H := H) (w := w) T h).req h k).card ≤ 1 := by
    refine Finset.card_le_one.2 fun i hi j hj => Fin.ext ?_
    obtain ⟨hi, hik⟩ := mem_below.1 hi
    obtain ⟨hj, hjk⟩ := mem_below.1 hj
    have hmi : i.val % 2 ^ h = 0 := of_decide_eq_true hi
    have hmj : j.val % 2 ^ h = 0 := of_decide_eq_true hj
    rw [← Nat.div_add_mod i.val (2 ^ h), ← Nat.div_add_mod j.val (2 ^ h), hmi, hmj, hik, hjk]
  rw [leave, nextLatch, node_pos hk hone hr]
  exact congrArg (T h) (mem_below.1 (node_idx hk hr).1).2

/-- and keeps those above. -/
theorem setting_above (hk : Inside H g k) (hlt : h < g) :
    leave L (setting (H := H) (w := w) T h) g k = L g k := by
  cases g with
  | zero => cases hlt
  | succ g =>
    have ha := setting_req L T w hk.left (Nat.le_of_lt_succ hlt)
    have hb := setting_req L T w hk.right (Nat.le_of_lt_succ hlt)
    rw [leave, nextLatch, node, compare_both _ ha hb]
    split <;> rfl

/-- **Some past leaves any latches**, set from the root down. -/
theorem after_any (H w : Nat) : ∃ past : List (Cycle H w),
    ∀ h k, 0 < h → h ≤ H → Inside H h k → after L past h k = T h k := by
  have hlevels : ∀ n, n ≤ H → ∃ past : List (Cycle H w),
      ∀ h k, H - n < h → h ≤ H → Inside H h k → after L past h k = T h k := by
    intro n
    induction n with
    | zero => exact fun _ => ⟨[], fun h k hlt hle => by omega⟩
    | succ n ih =>
      intro hn
      obtain ⟨past, hpast⟩ := ih (by omega)
      refine ⟨past ++ [setting T (H - n)], fun h k hlt hle hk => ?_⟩
      rw [after, List.foldl_append, List.foldl_cons, List.foldl_nil]
      rcases Nat.lt_or_ge (H - n) h with hab | hat
      · rw [setting_above _ T hk hab]
        exact hpast h k hab hle hk
      · obtain rfl : h = H - n := by omega
        exact setting_at _ T hk
  obtain ⟨past, hpast⟩ := hlevels H (Nat.le_refl H)
  exact ⟨past, fun h k hpos => hpast h k (by omega)⟩

end

/-! ### What is granted -/

theorem inside_root (H : Nat) : Inside H H 0 := by
  rw [Inside, Nat.zero_add, Nat.one_mul]

theorem inside_of_under {h k : Nat} (hu : Under H 0 h k) : Inside H h k := by
  obtain ⟨hle, hdiv⟩ := hu
  have hlt : k < 2 ^ (H - h) := (Nat.div_eq_zero_iff_lt (Nat.two_pow_pos _)).1 hdiv
  calc (k + 1) * 2 ^ h ≤ 2 ^ (H - h) * 2 ^ h := Nat.mul_le_mul_right _ hlt
    _ = 2 ^ H := by rw [← Nat.pow_add, Nat.sub_add_cancel hle]

theorem below_root (req : Fin (2 ^ H) → Bool) : below req H 0 = Finset.univ.filter fun i => req i = true := by
  ext i
  rw [mem_below, Finset.mem_filter, Nat.div_eq_of_lt i.isLt]
  simp

/-- A requester is granted if there is one. -/
theorem gnt_exists (L : Latch) {req : Fin (2 ^ H) → Bool} (data : Fin (2 ^ H) → BitVec w)
    (pos : Fin (2 ^ H) → Bool) {k : Fin (2 ^ H)} (hk : req k = true) : ∃ j, gnt H L req data pos j = true := by
  have hr := (node_req_iff L data pos (inside_root H)).2 ⟨k, mem_below.2 ⟨hk, Nat.div_eq_of_lt k.isLt⟩⟩
  exact ⟨_, by rw [gnt, Bool.and_eq_true, beq_iff_eq]; exact ⟨rfl, hr⟩⟩

/-- **The tree grants the oldest requester, whatever was presented to it before, exactly if
at most two request.** -/
theorem grants_oldest_iff (L : Latch) (req : Fin (2 ^ H) → Bool) (count : Fin (2 ^ H) → Nat) (b : Nat)
    (hwin : Window w req count b) (hold : ∀ k, req k = true → ∃ o, Oldest req count o) :
    (∀ (past : List (Cycle H w)) (i : Fin (2 ^ H)),
      gnt H (after L past) req (tagOf w count) (posOf w count) i = true ↔ Oldest req count i) ↔
    (Finset.univ.filter fun i => req i = true).card ≤ 2 := by
  have hgnt : ∀ L' i, gnt H L' req (tagOf w count) (posOf w count) i = true ↔
      i = (node L' (leaf req (tagOf w count) (posOf w count)) H 0).idx ∧
        (node L' (leaf req (tagOf w count) (posOf w count)) H 0).req = true := by
    intro L' i
    rw [gnt, Bool.and_eq_true, beq_iff_eq]
  rw [← below_root]
  constructor
  · intro hall
    by_contra hmany
    obtain ⟨k, hk⟩ : (below req H 0).Nonempty := Finset.card_pos.1 (by omega)
    obtain ⟨o, ho⟩ := hold k (mem_below.1 hk).1
    have hmem : o ∈ below req H 0 := mem_below.2 ⟨ho.requests, Nat.div_eq_of_lt o.isLt⟩
    obtain ⟨T, hT⟩ := node_loses hwin ho (inside_root H) hmem (by omega)
    obtain ⟨past, hpast⟩ := after_any L T H w
    have hnode := node_congr (leaf req (tagOf w count) (posOf w count)) fun h k hpos hu =>
      hpast h k hpos hu.1 (inside_of_under hu)
    have hg := (hgnt _ o).1 ((hall past o).2 ho)
    rw [hnode] at hg
    exact hT hg.1.symm
  · intro htwo past i
    rw [hgnt, node_req_iff _ _ _ (inside_root H)]
    constructor
    · rintro ⟨rfl, k, hk⟩
      obtain ⟨o, ho⟩ := hold k (mem_below.1 hk).1
      have hmem : o ∈ below req H 0 := mem_below.2 ⟨ho.requests, Nat.div_eq_of_lt o.isLt⟩
      rw [node_oldest hwin ho (inside_root H) hmem htwo]
      exact ho
    · intro ho
      have hmem : i ∈ below req H 0 := mem_below.2 ⟨ho.requests, Nat.div_eq_of_lt i.isLt⟩
      exact ⟨(node_oldest hwin ho (inside_root H) hmem htwo).symm, i, hmem⟩

/-- Two requesters of a tree of four, at ROB positions 63 and 64: the second has the larger
position bit and the smaller tag. -/
def two (k : Fin (2 ^ 2)) : Bool := decide (k.val < 2)

/-- Station 0 has requested alone, with position bit 1. -/
def stale : List (Cycle 2 6) := [⟨fun k => k == 0, fun _ => 63, fun _ => true⟩]

theorem grants_oldest_two :
    gnt 2 (after (fun _ _ => false) stale) two (tagOf 6 fun k => 63 + k.val) (posOf 6 fun k => 63 + k.val) 0 =
      true := by
  have hold : Oldest two (fun k => 63 + k.val) 0 := ⟨rfl, by decide⟩
  exact ((grants_oldest_iff _ two _ 63 (by unfold Window; decide) fun _ _ => ⟨0, hold⟩).2 (by decide) stale 0).2
    hold

/-- **The tree does not grant the oldest of three**, which request with position bit 0 after a
cycle that left the bit of an older turn of the ROB in the node over the first two. -/
theorem not_oldest_three : ¬ ∀ (past : List (Cycle 2 6)) (i : Fin (2 ^ 2)),
    gnt 2 (after (fun _ _ => false) past) (fun k => decide (k.val < 3)) (tagOf 6 fun k => 129 + k.val)
      (posOf 6 fun k => 129 + k.val) i = true ↔
    Oldest (fun k => decide (k.val < 3)) (fun k => 129 + k.val) i := by
  intro hall
  have hgnt := (hall stale 0).2 ⟨rfl, by decide⟩
  exact absurd hgnt (by decide)

end R10K.Sort
