/-! A memory under writes.

A memory maps places to values, and a write gives new values to the places it touches.
Applied in order, the last write of a place decides it. A buffer that has sent its oldest
writes to the memory answers a read from the memory when none of the others touches the
place (`applyAll_sent`), and from the last one that does otherwise (`applyAll_last`). -/
namespace R10K.Memory
universe u v
variable {A : Type u} {V : Type v}

/-- A memory after a write. -/
def apply (m : A → V) (w : A → Option V) : A → V := fun a => (w a).getD (m a)

/-- A memory after a list of writes, oldest first. -/
def applyAll (m : A → V) (ws : List (A → Option V)) : A → V := ws.foldl apply m

variable {m : A → V} {ws vs : List (A → Option V)} {a : A}

theorem applyAll_append : applyAll m (ws ++ vs) = applyAll (applyAll m ws) vs := List.foldl_append

/-- One more write of a list is one more write to the memory. -/
theorem applyAll_take_succ {n : Nat} {w : A → Option V} (h : ws[n]? = some w) :
    applyAll m (ws.take (n + 1)) = apply (applyAll m (ws.take n)) w := by
  rw [List.take_add_one, h, applyAll_append]
  rfl

/-- A place sees what the writes say of it alone. -/
theorem applyAll_eq : applyAll m ws a = (ws.map (· a)).foldl (fun v o => o.getD v) (m a) := by
  induction ws generalizing m with
  | nil => rfl
  | cons w ws ih => exact ih (m := apply m w)

theorem applyAll_congr (h : ws.map (· a) = vs.map (· a)) : applyAll m ws a = applyAll m vs a := by
  rw [applyAll_eq, applyAll_eq, h]

/-- Writes elsewhere leave a place. -/
theorem applyAll_skip (h : ∀ w ∈ ws, w a = none) : applyAll m ws a = m a := by
  induction ws generalizing m with
  | nil => rfl
  | cons w ws ih =>
    have hw : apply m w a = m a := by rw [apply, h w (List.mem_cons_self ..), Option.getD_none]
    exact (ih (m := apply m w) fun u hu => h u (List.mem_cons_of_mem _ hu)).trans hw

/-- A write of a place decides it when no later one touches the place. -/
theorem applyAll_middle {w : A → Option V} {v : V} (hv : w a = some v) (hlater : ∀ u ∈ vs, u a = none) :
    applyAll m (ws ++ w :: vs) a = v := by
  rw [applyAll_append]
  show applyAll (apply (applyAll m ws) w) vs a = v
  rw [applyAll_skip hlater, apply, hv, Option.getD_some]

/-- The last write of a place decides it. -/
theorem applyAll_last {j : Nat} {w : A → Option V} {v : V} (hw : ws[j]? = some w) (hv : w a = some v)
    (hlater : ∀ k u, j < k → ws[k]? = some u → u a = none) : applyAll m ws a = v := by
  obtain ⟨hj, rfl⟩ := List.getElem?_eq_some_iff.1 hw
  have hsplit : ws = ws.take j ++ ws[j] :: ws.drop (j + 1) := by
    rw [List.getElem_cons_drop, List.take_append_drop]
  rw [hsplit]
  refine applyAll_middle hv fun u hu => ?_
  obtain ⟨k, hk⟩ := List.getElem?_of_mem hu
  rw [List.getElem?_drop] at hk
  exact hlater (j + 1 + k) u (by omega) hk

/-- A place that no unsent write touches is up to date in the memory. -/
theorem applyAll_sent {n k : Nat} (hn : n ≤ k)
    (h : ∀ j u, n ≤ j → j < k → ws[j]? = some u → u a = none) :
    applyAll m (ws.take k) a = applyAll m (ws.take n) a := by
  have hsplit : ws.take k = ws.take n ++ (ws.take k).drop n := by
    have h := (List.take_append_drop n (ws.take k)).symm
    rwa [List.take_take, Nat.min_eq_left hn] at h
  rw [hsplit, applyAll_append]
  apply applyAll_skip
  intro u hu
  obtain ⟨j, hj⟩ := List.getElem?_of_mem hu
  rw [List.getElem?_drop, List.getElem?_take] at hj
  split at hj
  · rename_i hlt
    exact h (n + j) u (by omega) hlt hj
  · cases hj

end R10K.Memory
