/-! Runs of a clocked machine under a rule on its inputs.

A machine takes one input an edge. What its surroundings promise is a rule that may
look at the state: `Reach` holds of the states some run reaches all of whose inputs
keep the rule. Every result about runs is an invariant proved through `Reach.invariant`. -/
namespace R10K.Run
universe u v
variable {I : Type u} {S : Type v}

/-- The states reached from `init` by inputs that keep `ok`. -/
inductive Reach (next : I → S → S) (ok : I → S → Prop) (init : S) : S → Prop where
  | init : Reach next ok init init
  | step {s : S} (i : I) : Reach next ok init s → ok i s → Reach next ok init (next i s)

namespace Reach
variable {next : I → S → S} {ok : I → S → Prop} {init : S}

/-- The invariant rule: it holds at the start and every permitted edge keeps it. -/
theorem invariant (Inv : S → Prop) (hinit : Inv init)
    (hstep : ∀ i s, Inv s → ok i s → Inv (next i s)) {s : S} (h : Reach next ok init s) : Inv s := by
  induction h with
  | init => exact hinit
  | step i _ hok ih => exact hstep i _ ih hok

/-- A weaker rule reaches at least as much. -/
theorem mono {ok' : I → S → Prop} (hok : ∀ i s, ok i s → ok' i s) {s : S}
    (h : Reach next ok init s) : Reach next ok' init s := by
  induction h with
  | init => exact .init
  | step i _ hi ih => exact .step i ih (hok i _ hi)

end Reach

/-- Every input of a list keeps the rule when its turn comes. -/
def Keeps (next : I → S → S) (ok : I → S → Prop) : S → List I → Prop
  | _, [] => True
  | s, i :: is => ok i s ∧ Keeps next ok (next i s) is

instance (next : I → S → S) (ok : I → S → Prop) [∀ i s, Decidable (ok i s)] :
    (s : S) → (is : List I) → Decidable (Keeps next ok s is)
  | _, [] => isTrue trivial
  | s, i :: is =>
    have := instDecidableKeeps next ok (next i s) is
    inferInstanceAs (Decidable (_ ∧ _))

/-- A run by a list of inputs, one after the other. -/
theorem Reach.of_keeps {next : I → S → S} {ok : I → S → Prop} {init s : S} (is : List I)
    (h : Reach next ok init s) (hk : Keeps next ok s is) :
    Reach next ok init (is.foldl (fun s i => next i s) s) := by
  induction is generalizing s with
  | nil => exact h
  | cons i is ih => exact ih (.step i h hk.1) hk.2

end R10K.Run
