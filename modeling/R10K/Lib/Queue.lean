import Mathlib.Data.List.Basic

/-! A bounded queue and what passed through it.

In a cycle the environment offers an item, takes one, or does both. The queue accepts
the offer while it is below its bound and the take while it holds something, both judged
as the cycle begins. A queue carries its bound, and a history carries that what was
accepted is what was taken followed by what is held: first in, first out. -/
namespace R10K.Queue
universe u
variable {α : Type u} {cap : Nat}

/-- A queue of at most `cap` items, the oldest first. -/
structure Bounded (α : Type u) (cap : Nat) where
  items : List α
  bound : items.length ≤ cap

namespace Bounded

def empty (α : Type u) (cap : Nat) : Bounded α cap := ⟨[], Nat.zero_le cap⟩

/-- What an offer adds. -/
def accepted (q : Bounded α cap) (offer : Option α) : List α :=
  if q.items.length < cap then offer.toList else []

/-- What a take yields. -/
def taken (q : Bounded α cap) (take : Bool) : Option α := if take then q.items.head? else none

/-- A queue after one cycle. -/
def next (q : Bounded α cap) (offer : Option α) (take : Bool) : Bounded α cap where
  items := (if take then q.items.tail else q.items) ++ q.accepted offer
  bound := by
    have htail : (if take then q.items.tail else q.items).length ≤ q.items.length := by
      split
      · rw [List.length_tail]
        exact Nat.sub_le _ _
      · exact Nat.le_refl _
    have hadd : q.items.length + (q.accepted offer).length ≤ cap := by
      rw [accepted]
      split
      · have := Option.length_toList_le (o := offer)
        omega
      · exact q.bound
    rw [List.length_append]
    omega

end Bounded

/-- A queue with all it accepted and all it gave. -/
structure History (α : Type u) (cap : Nat) where
  ins : List α
  outs : List α
  queue : Bounded α cap
  fifo : ins = outs ++ queue.items

namespace History

def init (α : Type u) (cap : Nat) : History α cap := ⟨[], [], .empty α cap, rfl⟩

/-- One cycle, with what it accepts and yields added to the history. -/
def next (h : History α cap) (offer : Option α) (take : Bool) : History α cap where
  ins := h.ins ++ h.queue.accepted offer
  outs := h.outs ++ (h.queue.taken take).toList
  queue := h.queue.next offer take
  fifo := by
    have htake : h.queue.items = (h.queue.taken take).toList ++
        (if take then h.queue.items.tail else h.queue.items) := by
      unfold Bounded.taken
      cases take with
      | false => rfl
      | true => cases h.queue.items <;> rfl
    rw [Bounded.next, List.append_assoc, ← List.append_assoc _ _ (h.queue.accepted offer), ← htake,
      h.fifo, List.append_assoc]

variable {h : History α cap}

/-- What is held is what was accepted less what was given. -/
theorem length_eq (h : History α cap) : h.ins.length = h.outs.length + h.queue.items.length := by
  rw [h.fifo, List.length_append]

/-- **The `i`-th item given is the `i`-th accepted.** -/
theorem outs_eq (h : History α cap) : h.outs = h.ins.take h.outs.length := by
  rw [h.fifo, List.take_left]

end History

end R10K.Queue
