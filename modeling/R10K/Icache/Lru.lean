import R10K.Cache.Lru
import R10K.Icache.Array
import R10K.Lib.Run

/-! What the instruction cache's tree protects.

The ways that hit are those of the set presented one cycle ago, but the tree they turn is
that of the set presented now. When the two sets differ the set that was hit is not turned
and the other one is; and a refill while another way hits turns neither. The way used last
is safe as long as this does no harm. -/
namespace R10K.Icache
open Cache
open LruTree (accessed victim accessed_iff accessed_none)

/-- A run of the array, with the accesses to its sets. -/
structure LruLog where
  array : ArrayState
  /-- The way of a set that was hit or filled last; none if several were at once. -/
  mru : Index → Option CacheWay
  /-- The victim of a set that was not accessed has changed. -/
  disturbed : Bool

/-- A set is accessed: it is filled, or hit by the address of the cycle before. -/
def Touched (i : ArrayInputs) (a : ArrayState) (x : Index) : Prop :=
  (i.wen = true ∧ x = addrIndex i.addr) ∨ (x = a.addrIndexPipe ∧ ∃ w, hitN a w = true)

instance (i : ArrayInputs) (a : ArrayState) (x : Index) : Decidable (Touched i a x) :=
  inferInstanceAs (Decidable (_ ∧ _ ∨ _ ∧ _))

namespace LruLog

def init (tagSram : CacheWay → Sram Tag) (dataSram : CacheWay → Sram Block) : LruLog where
  array := resetArray tagSram dataSram
  mru := fun _ => none
  disturbed := false

def next (i : ArrayInputs) (l : LruLog) : LruLog where
  array := nextArray i l.array
  mru := fun x =>
    if i.wen = true ∧ x = addrIndex i.addr then some (l.array.lru.victim x)
    else if x = l.array.addrIndexPipe ∧ ∃ w, hitN l.array w = true then accessed (hitN l.array)
    else l.mru x
  disturbed := l.disturbed || decide (∃ x, ¬ Touched i l.array x ∧
    (nextArray i l.array).lru.victim x ≠ l.array.lru.victim x)

/-- No way used last is to be replaced, and no access has changed another set's victim. -/
structure Kept (l : LruLog) : Prop where
  protects : ∀ x w, l.mru x = some w → l.array.lru.victim x ≠ w
  apart : l.disturbed = false

end LruLog

/-- The turn of the tree does no harm: nothing else hits while a line is filled, and when a
way hits in a set that is not presented any more, it is not the victim there, and the set
presented now is being filled or has its victim in the other half. -/
structure Aligned (i : ArrayInputs) (a : ArrayState) : Prop where
  fill : i.wen = true → ∀ w, hitN a w = true → w = a.lru.victim (addrIndex i.addr)
  hit : ∀ w, accessed (hitN a) = some w → a.addrIndexPipe ≠ addrIndex i.addr →
    a.lru.victim a.addrIndexPipe ≠ w ∧
      (i.wen = false → (a.lru.victim (addrIndex i.addr)).val / 2 ≠ w.val / 2)

instance (i : ArrayInputs) (a : ArrayState) : Decidable (Aligned i a) :=
  decidable_of_iff (_ ∧ _) ⟨fun h => ⟨h.1, h.2⟩, fun h => ⟨h.fill, h.hit⟩⟩

variable {i : ArrayInputs} {a : ArrayState} {l : LruLog} {x : Index} {w : CacheWay}

/-! ### One edge -/

/-- Without a refill the tree is turned by what hits. -/
theorem accessN_hit (h : i.wen = false) : accessN i a = hitN a := by
  funext v
  rw [accessN, wenN, h, Bool.false_and, Bool.or_false]

theorem accessN_fill (h : i.wen = true) (v : CacheWay) :
    accessN i a v = (hitN a v || decide (v = a.lru.victim (addrIndex i.addr))) := by
  rw [accessN, wenN, h, Bool.true_and, Bool.beq_comm]
  rfl

/-- A refill turns its set exactly when no other way hits. -/
theorem accessed_fill (h : i.wen = true) : accessed (accessN i a) =
    if ∀ w, hitN a w = true → w = a.lru.victim (addrIndex i.addr) then some (a.lru.victim (addrIndex i.addr))
    else none := by
  split
  · rename_i hall
    rw [accessed_iff]
    intro v
    rw [accessN_fill h]
    by_cases hv : v = a.lru.victim (addrIndex i.addr)
    · rw [decide_eq_true hv, Bool.or_true]
    · have hno : hitN a v = false := Bool.eq_false_iff.2 fun hv' => hv (hall v hv')
      rw [decide_eq_false hv, hno, Bool.or_false]
  · rename_i hsome
    cases ha : accessed (accessN i a) with
    | none => rfl
    | some u =>
      rw [accessed_iff] at ha
      refine absurd (fun w hw => ?_) hsome
      -- both the way that hits and the way filled are the one accessed
      have hfill := (ha (a.lru.victim (addrIndex i.addr))).symm.trans (accessN_fill h _)
      have hhit := (ha w).symm.trans (accessN_fill h w)
      rw [decide_eq_true (rfl : a.lru.victim (addrIndex i.addr) = _), Bool.or_true, decide_eq_true_eq] at hfill
      rw [hw, Bool.true_or, decide_eq_true_eq] at hhit
      exact hhit.trans hfill.symm

/-- Only the set presented is turned. -/
theorem victim_next_apart (h : x ≠ addrIndex i.addr) : (nextArray i a).lru.victim x = a.lru.victim x :=
  LruTree.victim_next_other h

/-- **What keeps the set presented apart**, if it is not accessed. -/
theorem victim_presented (hwen : i.wen = false) :
    (nextArray i a).lru.victim (addrIndex i.addr) = a.lru.victim (addrIndex i.addr) ↔
      ∀ w, accessed (hitN a) = some w → (a.lru.victim (addrIndex i.addr)).val / 2 ≠ w.val / 2 := by
  show (a.lru.next (addrIndex i.addr) (accessN i a)).victim _ = _ ↔ _
  rw [accessN_hit hwen]
  cases ha : accessed (hitN a) with
  | none => exact ⟨fun _ _ h => (nomatch h), fun _ => LruTree.victim_next_none ha⟩
  | some w =>
    rw [LruTree.victim_next_eq_iff ha]
    refine ⟨fun h v hv => ?_, fun h => h w rfl⟩
    rw [← Option.some.inj hv]
    exact h

theorem hits_of_accessed (h : accessed (hitN a) = some w) : hitN a w = true := by
  rw [accessed_iff.1 h w]
  exact decide_eq_true rfl

/-! ### The invariant -/

namespace LruLog

theorem mru_next : (l.next i).mru x =
    if i.wen = true ∧ x = addrIndex i.addr then some (l.array.lru.victim x)
    else if x = l.array.addrIndexPipe ∧ ∃ w, hitN l.array w = true then accessed (hitN l.array)
    else l.mru x := rfl

theorem mru_next_fill (h : i.wen = true) :
    (l.next i).mru (addrIndex i.addr) = some (l.array.lru.victim (addrIndex i.addr)) := if_pos ⟨h, rfl⟩

theorem mru_next_hit (hx : i.wen = true → l.array.addrIndexPipe ≠ addrIndex i.addr)
    (hw : hitN l.array w = true) : (l.next i).mru l.array.addrIndexPipe = accessed (hitN l.array) := by
  rw [mru_next, if_neg (fun h => hx h.1 h.2), if_pos ⟨rfl, w, hw⟩]

/-- A set that is not accessed keeps the way used last. -/
theorem mru_next_apart (h : ¬ Touched i l.array x) : (l.next i).mru x = l.mru x := by
  rw [Touched, not_or] at h
  rw [mru_next, if_neg h.1, if_neg h.2]

theorem disturbed_next (h : l.disturbed = false) : (l.next i).disturbed = false ↔
    ∀ x, ¬ Touched i l.array x → (nextArray i l.array).lru.victim x = l.array.lru.victim x := by
  rw [next, h, Bool.false_or, decide_eq_false_iff_not, not_exists]
  exact forall_congr' fun x => by rw [not_and, Classical.not_not]

namespace Kept

/-- **The edge is aligned if it keeps the ways used last.** -/
theorem aligned (h : Kept l) (hk : Kept (l.next i)) : Aligned i l.array where
  fill := fun hwen w hw => by
    by_contra hne
    -- the tree stays where it was, at the way just filled
    have hstay : (nextArray i l.array).lru.victim (addrIndex i.addr) = l.array.lru.victim (addrIndex i.addr) := by
      refine LruTree.victim_next_none ?_
      rw [accessed_fill hwen, if_neg fun hall => hne (hall w hw)]
    exact hk.protects _ _ (mru_next_fill hwen) hstay
  hit := fun w hw hpipe => by
    have hmru := (mru_next_hit (i := i) (fun _ => hpipe) (hits_of_accessed hw)).trans hw
    refine ⟨fun heq => hk.protects _ _ hmru ((victim_next_apart hpipe).trans heq), fun hwen => ?_⟩
    have hno : ¬ Touched i l.array (addrIndex i.addr) := by
      rintro (⟨hen, _⟩ | ⟨hsame, _⟩)
      · rw [hwen] at hen
        cases hen
      · exact hpipe hsame.symm
    exact (victim_presented hwen).1 ((disturbed_next h.apart).1 hk.apart _ hno) w hw

/-- An aligned edge changes the victim of no other set. -/
theorem apart_next (ok : Aligned i l.array) (hx : ¬ Touched i l.array x) :
    (nextArray i l.array).lru.victim x = l.array.lru.victim x := by
  by_cases hpres : x = addrIndex i.addr
  · rw [hpres] at hx ⊢
    rw [Touched, not_or] at hx
    have hwen : i.wen = false := Bool.eq_false_iff.2 fun hen => hx.1 ⟨hen, rfl⟩
    rw [victim_presented hwen]
    exact fun w hw => (ok.hit w hw fun hpipe => hx.2 ⟨hpipe.symm, w, hits_of_accessed hw⟩).2 hwen
  · exact victim_next_apart hpres

/-- **An aligned edge protects the ways used last.** -/
theorem protects_next (h : Kept l) (ok : Aligned i l.array) (hw : (l.next i).mru x = some w) :
    (nextArray i l.array).lru.victim x ≠ w := by
  by_cases hfill : i.wen = true ∧ x = addrIndex i.addr
  · obtain ⟨hwen, rfl⟩ := hfill
    rw [mru_next_fill hwen, Option.some.injEq] at hw
    rw [← hw]
    exact LruTree.victim_next_ne (by rw [accessed_fill hwen, if_pos (ok.fill hwen)])
  · by_cases hhit : x = l.array.addrIndexPipe ∧ ∃ v, hitN l.array v = true
    · obtain ⟨rfl, v, hv⟩ := hhit
      rw [mru_next_hit (fun hen hpipe => hfill ⟨hen, hpipe⟩) hv] at hw
      by_cases hpipe : l.array.addrIndexPipe = addrIndex i.addr
      · have hwen : i.wen = false := Bool.eq_false_iff.2 fun hen => hfill ⟨hen, hpipe⟩
        rw [hpipe]
        refine LruTree.victim_next_ne ?_
        rw [accessN_hit hwen]
        exact hw
      · rw [victim_next_apart hpipe]
        exact (ok.hit w hw hpipe).1
    · have hno : ¬ Touched i l.array x := fun ht => ht.elim hfill hhit
      rw [mru_next_apart hno] at hw
      rw [apart_next ok hno]
      exact h.protects x w hw

theorem next (h : Kept l) (ok : Aligned i l.array) : Kept (l.next i) where
  protects := fun _ _ hw => h.protects_next ok hw
  apart := (disturbed_next h.apart).2 fun _ hx => apart_next ok hx

theorem init (tagSram : CacheWay → Sram Tag) (dataSram : CacheWay → Sram Block) :
    Kept (LruLog.init tagSram dataSram) := ⟨nofun, rfl⟩

end Kept

end LruLog

/-- **The tree protects the way used last** in a run whose turns are aligned; and the next
edge does exactly when it is. -/
theorem lru_protects {tagSram : CacheWay → Sram Tag} {dataSram : CacheWay → Sram Block}
    (h : Run.Reach LruLog.next (fun i l => Aligned i l.array) (.init tagSram dataSram) l) :
    l.Kept ∧ ∀ i, (l.next i).Kept ↔ Aligned i l.array := by
  have hk := h.invariant LruLog.Kept (LruLog.Kept.init _ _) fun _ _ hk ok => hk.next ok
  exact ⟨hk, fun _ => ⟨hk.aligned, hk.next⟩⟩

/-! ### One set filled, and hit -/

def fillIn (addr : BitVec 32) : ArrayInputs := ⟨addr, fun _ => 0, true⟩
def lookIn (addr : BitVec 32) : ArrayInputs := ⟨addr, fun _ => 0, false⟩

/-- Four refills of set 0, into the ways 0, 2, 1 and 3, and a look at the first line. -/
def fillIns : List ArrayInputs := [fillIn 0x200, fillIn 0x400, fillIn 0x600, fillIn 0x800, lookIn 0x200]

def logged (is : List ArrayInputs) : LruLog :=
  is.foldl (fun l i => l.next i) (.init (fun _ => ⟨fun _ => 0, 0⟩) fun _ => ⟨fun _ => 0, 0⟩)

/-- The next look is at the same line: its way is safe. -/
def againIns : List ArrayInputs := fillIns ++ [lookIn 0x200]

theorem lru_protects_again : (logged againIns).Kept ∧ (logged againIns).mru 0 = some 0 :=
  ⟨(lru_protects (.of_keeps againIns .init (by decide +kernel))).1, by decide +kernel⟩

/-- The next look is at another set. -/
def awayIns : List ArrayInputs := fillIns ++ [lookIn 0x220]

/-- The way just hit is the victim, and the other set has turned. -/
theorem lru_unprotected : (logged awayIns).mru 0 = some 0 ∧ (logged awayIns).array.lru.victim 0 = 0 ∧
    (logged awayIns).disturbed = true ∧ ¬ (logged awayIns).Kept := by
  have hmru : (logged awayIns).mru 0 = some 0 := by decide +kernel
  have hvictim : (logged awayIns).array.lru.victim 0 = 0 := by decide +kernel
  exact ⟨hmru, hvictim, by decide +kernel, fun hk => hk.protects 0 0 hmru hvictim⟩

end R10K.Icache
