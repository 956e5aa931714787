import R10K.Mem.Served

/-! A burst of four loads.

Four loads asked for in consecutive cycles move through the memory side by side: `e` edges
after the first was asked for, the load of a place is `e` minus its place edges under way. -/
namespace R10K.Mem
open Cache DelayLine

variable {n : Nat} {place place' : Nat → BitVec 32} {e : Nat} {l : DelayLine Request} {out : Option Request}

/-- The latencies under which the answers to a burst come after its last request, and no
request is refused. -/
structure Suits (latency : BitVec 16) : Prop where
  low : 3 ≤ latency.toNat
  high : latency.toNat < 15

theorem Suits.ne_zero {latency : BitVec 16} (h : Suits latency) : latency ≠ 0 := by
  rintro rfl
  exact absurd h.low (by decide)

/-- The latency of the source's clock period. -/
theorem suits_seven : Suits 7 := ⟨by decide, by decide⟩

/-- What is `c` edges from the bus after `e` edges of the burst. -/
def burst (n : Nat) (place : Nat → BitVec 32) (e c : Nat) : Option (BitVec 32) :=
  if n + 1 ≤ c + e ∧ c + e < n + 5 ∧ c ≤ n then some (place (c + e - n - 1)) else none

/-- The line and the bus hold the burst and no other load. -/
structure Flows (n : Nat) (place : Nat → BitVec 32) (e : Nat) (l : DelayLine Request) (out : Option Request) :
    Prop where
  line : ∀ c, loadAddr (l c) = burst n place e (c + 1)
  bus : loadAddr out = burst n place e 0

/-- Before the first load and after the last nothing flows. -/
theorem burst_none {c : Nat} (he : e = 0 ∨ n + 5 ≤ e) : burst n place e c = none := if_neg (by omega)

namespace Flows

theorem empty : Flows n place 0 DelayLine.empty none where
  line := fun _ => (burst_none (.inl rfl)).symm
  bus := (burst_none (.inl rfl)).symm

/-- A burst that is over is like one that has not begun. -/
theorem rest (h : Flows n place e l out) {e' : Nat} (he : e = 0 ∨ n + 5 ≤ e) (he' : e' = 0 ∨ n + 5 ≤ e') :
    Flows n place' e' l out where
  line := fun c => by rw [h.line, burst_none he, burst_none he']
  bus := by rw [h.bus, burst_none he, burst_none he']

/-- An edge asks for the next place, as long as there is one. -/
theorem next (h : Flows n place e l out) (hn : 0 < n) {x : Option Request}
    (hx : loadAddr x = if e < 4 then some (place e) else none) :
    Flows n place (e + 1) (shift n x l) (l 0) where
  line := fun c => by
    rw [shift]
    by_cases hc : c + 1 = n
    · rw [if_pos hc, hx, burst]
      by_cases he : e < 4
      · rw [if_pos he, if_pos (by omega), show c + 1 + (e + 1) - n - 1 = e by omega]
      · rw [if_neg he, if_neg (by omega)]
    · rw [if_neg hc, h.line, burst, burst]
      by_cases hin : n + 1 ≤ c + 1 + 1 + e ∧ c + 1 + 1 + e < n + 5 ∧ c + 1 + 1 ≤ n
      · rw [if_pos hin, if_pos (by omega), show c + 1 + (e + 1) = c + 1 + 1 + e by omega]
      · rw [if_neg hin, if_neg (by omega)]
  bus := by
    rw [h.line, burst, burst]
    by_cases hin : n + 1 ≤ 0 + 1 + e ∧ 0 + 1 + e < n + 5 ∧ 0 + 1 ≤ n
    · rw [if_pos hin, if_pos (by omega), show 0 + (e + 1) = 0 + 1 + e by omega]
    · rw [if_neg hin, if_neg (by omega)]

/-- An edge without a burst. -/
theorem idle (h : Flows n place 0 l out) (hn : 0 < n) {x : Option Request} (hx : loadAddr x = none) :
    Flows n place' 0 (shift n x l) (l 0) := by
  have hover : Flows n place (n + 5) l out := h.rest (.inl rfl) (.inr (Nat.le_refl _))
  have hnext := hover.next hn (hx.trans (if_neg (by omega)).symm)
  exact hnext.rest (.inr (by omega)) (.inl rfl)

/-- What is on the bus. -/
theorem bus_eq (h : Flows n place e l out) :
    loadAddr out = if n + 1 ≤ e ∧ e < n + 5 then some (place (e - n - 1)) else none := by
  rw [h.bus, burst, Nat.zero_add]
  exact if_congr (by omega) rfl rfl

end Flows

end R10K.Mem
