import Mathlib.Data.List.Nodup

/-! Tokens that move through places.

A place holds one token or none. In a step every token goes where its place sends it or
leaves, and new ones enter. The ledger lists the tokens inside: it loses those that leave
and gains those that enter, and so it keeps naming exactly what the places hold. -/
namespace R10K.Tokens
universe u v w
variable {P : Type u} {T : Type v} {K : Type w} {key : T → K} {held held' : P → Option T}
  {ledger entered : List T} {dest : P → Option P} {enter : P → Option T} {leaves : T → Bool}

/-- What a step does: a token afterwards has just entered, or was sent from another place. -/
def Moves (held held' : P → Option T) (dest : P → Option P) (enter : P → Option T) : Prop :=
  ∀ q t, held' q = some t ↔ enter q = some t ∨ ∃ p, held p = some t ∧ dest p = some q

/-- The ledger names what the places hold, every token once, and no key twice. -/
structure Tracks (key : T → K) (held : P → Option T) (ledger : List T) : Prop where
  keys : (ledger.map key).Nodup
  mem : ∀ t, t ∈ ledger ↔ ∃ p, held p = some t
  apart : ∀ p q t, held p = some t → held q = some t → p = q

/-- The ledger after a step. -/
def update (leaves : T → Bool) (entered ledger : List T) : List T :=
  (ledger.filter fun t => !leaves t) ++ entered

/-- What can be seen of the tokens moves with them. -/
theorem Moves.map {S : Type w} (h : Moves held held' dest enter) (g : T → S) :
    Moves (fun p => (held p).map g) (fun p => (held' p).map g) dest fun p => (enter p).map g := by
  intro q s
  simp only [Option.map_eq_some_iff]
  constructor
  · rintro ⟨t, ht, rfl⟩
    exact ((h q t).1 ht).imp (fun he => ⟨t, he, rfl⟩) fun ⟨p, hp, hd⟩ => ⟨p, ⟨t, hp, rfl⟩, hd⟩
  · rintro (⟨t, he, rfl⟩ | ⟨p, ⟨t, hp, rfl⟩, hd⟩)
    · exact ⟨t, (h q t).2 (.inl he), rfl⟩
    · exact ⟨t, (h q t).2 (.inr ⟨p, hp, hd⟩), rfl⟩

namespace Tracks

theorem empty (h : ∀ p, held p = none) : Tracks key held [] where
  keys := List.nodup_nil
  mem := by
    intro t
    constructor
    · intro ht
      cases ht
    · rintro ⟨p, hp⟩
      rw [h p] at hp
      cases hp
  apart := by
    intro p q t hp
    rw [h p] at hp
    cases hp

/-- Two held tokens with one key are the same token in the same place. -/
theorem eq_of_key (h : Tracks key held ledger) {p q : P} {t t' : T} (hp : held p = some t)
    (hq : held q = some t') (hk : key t = key t') : p = q ∧ t = t' := by
  have ht := (h.mem t).2 ⟨p, hp⟩
  have ht' := (h.mem t').2 ⟨q, hq⟩
  have heq : t = t' := List.inj_on_of_nodup_map h.keys ht ht' hk
  subst heq
  exact ⟨h.apart p q t hp hq, rfl⟩

/-- **One step keeps the ledger**, when what leaves is what its place sends nowhere and what
enters is new. -/
theorem next (h : Tracks key held ledger) (hm : Moves held held' dest enter)
    (hleave : ∀ p t, held p = some t → (leaves t = true ↔ dest p = none))
    (henter : ∀ t, t ∈ entered ↔ ∃ q, enter q = some t)
    (hkeys : (entered.map key).Nodup) (hnew : ∀ t ∈ ledger, ∀ t' ∈ entered, key t ≠ key t')
    (hown : ∀ q q' t, enter q = some t → enter q' = some t → q = q') :
    Tracks key held' (update leaves entered ledger) where
  keys := by
    rw [update, List.map_append, List.nodup_append]
    refine ⟨(List.filter_sublist.map key).nodup h.keys, hkeys, fun a ha b hb hab => ?_⟩
    obtain ⟨t, ht, rfl⟩ := List.mem_map.1 ha
    obtain ⟨t', ht', rfl⟩ := List.mem_map.1 hb
    exact hnew t (List.mem_filter.1 ht).1 t' ht' hab
  mem := by
    intro t
    rw [update, List.mem_append, List.mem_filter, Bool.not_eq_true', henter]
    constructor
    · rintro (⟨ht, hstay⟩ | ⟨q, hq⟩)
      · obtain ⟨p, hp⟩ := (h.mem t).1 ht
        cases hd : dest p with
        | none =>
          rw [(hleave p t hp).2 hd] at hstay
          cases hstay
        | some q => exact ⟨q, (hm q t).2 (.inr ⟨p, hp, hd⟩)⟩
      · exact ⟨q, (hm q t).2 (.inl hq)⟩
    · rintro ⟨q, hq⟩
      rcases (hm q t).1 hq with hq | ⟨p, hp, hd⟩
      · exact .inr ⟨q, hq⟩
      · refine .inl ⟨(h.mem t).2 ⟨p, hp⟩, Bool.eq_false_iff.2 fun hl => ?_⟩
        rw [(hleave p t hp).1 hl] at hd
        cases hd
  apart := by
    intro q q' t hq hq'
    rcases (hm q t).1 hq with he | ⟨p, hp, hd⟩ <;> rcases (hm q' t).1 hq' with he' | ⟨p', hp', hd'⟩
    · exact hown q q' t he he'
    · exact absurd rfl (hnew t ((h.mem t).2 ⟨p', hp'⟩) t ((henter t).2 ⟨q, he⟩))
    · exact absurd rfl (hnew t ((h.mem t).2 ⟨p, hp⟩) t ((henter t).2 ⟨q', he'⟩))
    · rw [h.apart p p' t hp hp', hd'] at hd
      exact (Option.some.inj hd).symm

end Tracks

end R10K.Tokens
