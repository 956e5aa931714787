import R10K.Lib.Select

/-! The comparator tree (`sort.sv`).

A complete binary tree over the requesters. A node with one requesting child takes that
child; with two it takes the one with the smaller datum if their position bits agree and
the larger one otherwise. In the case of two requests the source assigns no position bit
to the node, so that the node's bit is a latch: it keeps the value of the last cycle in
which at most one child requested. The tree grants the requester that reaches its root. -/
namespace R10K.Sort
variable {n w : Nat}

/-- What a node of the tree carries up. -/
structure Node (n w : Nat) where
  req : Bool
  data : BitVec w
  pos : Bool
  idx : Fin n

/-- The position bits of the inner nodes, by height and number. -/
abbrev Latch := Nat → Nat → Bool

/-- One comparator, with its latched position bit. -/
def compare [NeZero n] (latch : Bool) (a b : Node n w) : Node n w :=
  match a.req, b.req with
  | false, false => ⟨false, 0, false, 0⟩
  | false, true => ⟨true, b.data, b.pos, b.idx⟩
  | true, false => ⟨true, a.data, a.pos, a.idx⟩
  | true, true =>
    if a.pos == b.pos then
      if a.data < b.data then ⟨true, a.data, latch, a.idx⟩ else ⟨true, b.data, latch, b.idx⟩
    else if b.data < a.data then ⟨true, a.data, latch, a.idx⟩
    else ⟨true, b.data, latch, b.idx⟩

/-- Node `k` at a height over the leaves. -/
def node [NeZero n] (latch : Latch) (leaf : Nat → Node n w) : Nat → Nat → Node n w
  | 0, k => leaf k
  | h + 1, k => compare (latch (h + 1) k) (node latch leaf h (2 * k)) (node latch leaf h (2 * k + 1))

/-- The input of requester `k`. -/
def leaf [NeZero n] (req : Fin n → Bool) (data : Fin n → BitVec w) (pos : Fin n → Bool) (k : Nat) :
    Node n w :=
  let i := Fin.ofNat n k
  ⟨req i, data i, pos i, i⟩

/-- `gnt`, of a tree of height `h`. -/
def gnt [NeZero n] (h : Nat) (latch : Latch) (req : Fin n → Bool) (data : Fin n → BitVec w)
    (pos : Fin n → Bool) (i : Fin n) : Bool :=
  let root := node latch (leaf req data pos) h 0
  i == root.idx && root.req

/-- What the latches hold after a cycle. -/
def nextLatch [NeZero n] (latch : Latch) (req : Fin n → Bool) (data : Fin n → BitVec w)
    (pos : Fin n → Bool) : Latch :=
  fun h k => (node latch (leaf req data pos) h k).pos

/-! ### What is granted -/

section
variable [NeZero n]

/-- A comparator hands on the index of a requesting child. -/
theorem compare_idx (latch : Bool) (a b : Node n w) (h : (compare latch a b).req = true) :
    (a.req = true ∧ (compare latch a b).idx = a.idx) ∨
      (b.req = true ∧ (compare latch a b).idx = b.idx) := by
  unfold compare at h ⊢
  cases ha : a.req <;> cases hb : b.req <;> simp only [ha, hb] at h ⊢
  · cases h
  · exact .inr ⟨trivial, trivial⟩
  · exact .inl ⟨trivial, trivial⟩
  · split <;> split
    · exact .inl ⟨trivial, rfl⟩
    · exact .inr ⟨trivial, rfl⟩
    · exact .inl ⟨trivial, rfl⟩
    · exact .inr ⟨trivial, rfl⟩

/-- A requesting node carries the index of a requester. -/
theorem node_req {latch : Latch} {req : Fin n → Bool} {data : Fin n → BitVec w} {pos : Fin n → Bool}
    (h k : Nat) (hr : (node latch (leaf req data pos) h k).req = true) :
    req (node latch (leaf req data pos) h k).idx = true := by
  induction h generalizing k with
  | zero => exact hr
  | succ h ih =>
    rw [node] at hr ⊢
    rcases compare_idx _ _ _ hr with ⟨ha, hi⟩ | ⟨hb, hi⟩
    · rw [hi]
      exact ih _ ha
    · rw [hi]
      exact ih _ hb

/-- Only a requester is granted. -/
theorem gnt_req {h : Nat} {latch : Latch} {req : Fin n → Bool} {data : Fin n → BitVec w}
    {pos : Fin n → Bool} {i : Fin n} (hg : gnt h latch req data pos i = true) : req i = true := by
  rw [gnt, Bool.and_eq_true, beq_iff_eq] at hg
  rw [hg.1]
  exact node_req h 0 hg.2

/-- One requester is granted. -/
theorem gnt_unique {h : Nat} {latch : Latch} {req : Fin n → Bool} {data : Fin n → BitVec w}
    {pos : Fin n → Bool} {i j : Fin n} (hi : gnt h latch req data pos i = true)
    (hj : gnt h latch req data pos j = true) : i = j := by
  rw [gnt, Bool.and_eq_true, beq_iff_eq] at hi hj
  rw [hi.1, hj.1]

end

end R10K.Sort
