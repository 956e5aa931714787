import Mathlib.Data.List.ReduceOption
import Mathlib.Data.List.Nodup

/-! A queue that mirrors another one.

Some items of a queue have an entry in a second queue. What the entries show is, in order,
what those of the items that leave and of the items that stay give. Both queues take a step
of their own; they stay mirrored if what an item gives changes as its entry does. -/
namespace R10K.Mirror
universe u v w
variable {I : Type u} {E : Type v} {V : Type w}

/-- The entries show what has left the first queue and what its items give. -/
def Mirrors (view : E → V) (give : I → Option V) (left : List V) (entries : List E) (items : List I) : Prop :=
  entries.map view = left ++ (items.map give).reduceOption

/-- Items that give what has the same key are the same. -/
theorem eq_of_nodup {K : Type w} {give : I → Option K} {items : List I} (h : (items.map give).reduceOption.Nodup)
    {a b : I} (ha : a ∈ items) (hb : b ∈ items) {k : K} (hga : give a = some k) (hgb : give b = some k) : a = b := by
  induction items with
  | nil => cases ha
  | cons x xs ih =>
    have hmem : ∀ y ∈ xs, give y = some k → k ∈ (xs.map give).reduceOption := fun y hy hg =>
      List.reduceOption_mem_iff.2 (List.mem_map.2 ⟨y, hy, hg⟩)
    rw [List.map_cons] at h
    cases hx : give x with
    | none =>
      rw [hx, List.reduceOption_cons_of_none] at h
      have htail : ∀ y ∈ x :: xs, give y = some k → y ∈ xs := by
        intro y hy hg
        refine (List.mem_cons.1 hy).resolve_left ?_
        rintro rfl
        rw [hx] at hg
        cases hg
      exact ih h (htail a ha hga) (htail b hb hgb)
    | some y =>
      rw [hx, List.reduceOption_cons_of_some, List.nodup_cons] at h
      rcases List.mem_cons.1 ha with rfl | ha' <;> rcases List.mem_cons.1 hb with rfl | hb'
      · rfl
      · rw [hga, Option.some.injEq] at hx
        exact absurd (hx ▸ hmem b hb' hgb) h.1
      · rw [hgb, Option.some.injEq] at hx
        exact absurd (hx ▸ hmem a ha' hga) h.1
      · exact ih h.2 ha' hb'

namespace Mirrors
variable {view : E → V} {give : I → Option V} {left : List V} {entries : List E} {items : List I}

theorem nil : Mirrors view give [] [] [] := rfl

/-- What an item gives is shown. -/
theorem shown (h : Mirrors view give left entries items) {a : I} (ha : a ∈ items) {x : V} (hx : give a = some x) :
    ∃ e ∈ entries, view e = x := by
  have hmem : x ∈ entries.map view := by
    rw [h]
    exact List.mem_append_right _ (List.reduceOption_mem_iff.2 (List.mem_map.2 ⟨a, ha, hx⟩))
  exact List.mem_map.1 hmem

/-- What has left is shown first. -/
theorem shown_left (h : Mirrors view give left entries items) {j : Nat} {x : V} (hx : left[j]? = some x)
    {e : E} (he : entries[j]? = some e) : view e = x := by
  have hget : (entries.map view)[j]? = (left ++ (items.map give).reduceOption)[j]? := congrArg (fun l => l[j]?) h
  rw [List.getElem?_append_left (List.getElem?_eq_some_iff.1 hx).1, hx, List.getElem?_map, he] at hget
  exact Option.some.inj hget

/-- Every item has its entry, behind those of what has left and of the items before it. -/
theorem shown_at (h : Mirrors view give left entries items) {j : Nat} {a : I} (ha : items[j]? = some a) {x : V}
    (hx : give a = some x) : ∃ e,
      entries[left.length + ((items.take j).map give).reduceOption.length]? = some e ∧ view e = x := by
  have hsplit : items.take j ++ a :: items.drop (j + 1) = items := by
    obtain ⟨hj, rfl⟩ := List.getElem?_eq_some_iff.1 ha
    rw [List.getElem_cons_drop, List.take_append_drop]
  have hget : (entries.map view)[left.length + ((items.take j).map give).reduceOption.length]? = some x := by
    rw [h, List.getElem?_append_right (Nat.le_add_right _ _), Nat.add_sub_cancel_left]
    rw [← congrArg (fun l => (l.map give).reduceOption) hsplit, List.map_append, List.map_cons, hx,
      List.reduceOption_append, List.reduceOption_cons_of_some,
      List.getElem?_append_right (Nat.le_refl _), Nat.sub_self]
    rfl
  rw [List.getElem?_map] at hget
  exact Option.map_eq_some_iff.1 hget

/-- An entry behind those of what has left is an item's. -/
theorem item_of (h : Mirrors view give left entries items) {j : Nat} {e : E} (he : entries[j]? = some e)
    (hj : left.length ≤ j) : ∃ a ∈ items, give a = some (view e) := by
  have hget : (left ++ (items.map give).reduceOption)[j]? = some (view e) := by
    rw [← h, List.getElem?_map, he]
    rfl
  rw [List.getElem?_append_right hj] at hget
  exact List.mem_map.1 (List.reduceOption_mem_iff.1 (List.mem_of_getElem? hget))

/-- Two items with entries of one key are the same. -/
theorem unique {K : Type w} (h : Mirrors view give left entries items) {key : V → K}
    (hkeys : (entries.map fun e => key (view e)).Nodup) {a b : I} (ha : a ∈ items) (hb : b ∈ items) {x y : V}
    (hx : give a = some x) (hy : give b = some y) (hk : key x = key y) : a = b := by
  have hmap : entries.map (fun e => key (view e)) =
      left.map key ++ (items.map fun a => (give a).map key).reduceOption := by
    have hsplit : entries.map (fun e => key (view e)) = (entries.map view).map key := List.map_map.symm
    rw [hsplit, h, List.map_append, ← List.reduceOption_map, List.map_map]
    rfl
  rw [hmap, List.nodup_append] at hkeys
  refine eq_of_nodup hkeys.2.1 ha hb (k := key x) (by rw [hx]; rfl) ?_
  rw [hy, hk]
  rfl

/-- **Both queues take a step**: the items take theirs, some leave and some join; so do the
entries of what had left, and of what joins. -/
theorem step (h : Mirrors view give left entries items) {σ : V → V} {stepE : E → E} {stepI : I → I} {n : Nat}
    {newE : List E} {newI : List I} (hview : ∀ e, view (stepE e) = σ (view e))
    (hgive : ∀ a ∈ items, give (stepI a) = (give a).map σ)
    (hnew : newE.map view = (newI.map give).reduceOption) :
    Mirrors view give (((items.map stepI).take n).map give).reduceOption
      ((entries.map stepE).drop left.length ++ newE) ((items.map stepI).drop n ++ newI) := by
  have hent : (entries.map stepE).map view = (left ++ (items.map give).reduceOption).map σ := by
    rw [← h, List.map_map, List.map_map]
    exact List.map_congr_left fun e _ => hview e
  have hitems : (items.map stepI).map give = (items.map give).map (Option.map σ) := by
    rw [List.map_map, List.map_map]
    exact List.map_congr_left fun a ha => hgive a ha
  have hall : ((((items.map stepI).take n).map give).reduceOption ++
      (((items.map stepI).drop n).map give).reduceOption) = (items.map give).reduceOption.map σ := by
    rw [← List.reduceOption_append, ← List.map_append, List.take_append_drop, hitems, List.reduceOption_map]
  rw [Mirrors, List.map_append, List.map_drop, hent, hnew, List.map_append (f := give), List.reduceOption_append,
    ← List.append_assoc, hall, List.map_append, List.drop_left' (by rw [List.length_map])]

end Mirrors

end R10K.Mirror
