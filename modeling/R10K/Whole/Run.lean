import R10K.Whole.Rules

/-! Runs of the whole back end.

Every edge keeps the invariant, so in every cycle of a run the core and the load/store unit
are given what they rely on, and the buffer is the ledger of what is on its way. -/
namespace R10K.Whole
open Backend Lanes Renaming Dataflow

section
variable {c : Config} {i : Inputs} {t : Token} {p q : Place}

/-! ### Where the loads and stores are -/

/-- A place sends a load or a store to a place for them, and nothing else. -/
theorem dest_memory (hs : Sorted c) (hheld : c.held p = some t) (hd : c.dest i p = some q) :
    q.memory = p.memory := by
  have hway : ∀ {u : FuId}, u ≠ .agu0 → (u.way == 6) = false := fun hu =>
    beq_eq_false_iff_ne.2 fun he => by
      have := way_lt hu
      rw [he] at this
      exact absurd this (by decide)
  cases p with
  | stage s =>
    obtain ⟨x, hx, -⟩ := held_stage.1 hheld
    cases s with
    | int k =>
      have hu := hs.intUnit k (work_int.1 hx).1
      rw [Config.dest, Config.forth] at hd
      cases hen : Rs.issueEn c.state.core.rsInt k <;> rw [hen] at hd <;> cases hd
      · rfl
      · exact hway hu
    | mem k =>
      have hu := hs.memUnit k (work_mem.1 hx).1
      rw [Config.dest, Config.forth] at hd
      cases hen : Rs.issueEn c.state.core.rsMem k <;> rw [hen] at hd <;> cases hd
      · rfl
      · rw [hu]
        rfl
    | issue w =>
      cases hd
      rfl
    | read w =>
      rw [Config.dest, Config.forth] at hd
      by_cases hw : w = 4
      · subst hw
        cases hd
        rfl
      · rw [if_neg hw] at hd
        cases hd
        rfl
    | mult0 =>
      cases hd
      rfl
    | mult1 =>
      cases hd
      rfl
  | execute w =>
    rw [Config.dest] at hd
    split at hd
    · obtain ⟨u, -, rfl⟩ := Option.map_eq_some_iff.1 hd
      rename_i hw
      rw [hw]
      rfl
    · cases hd
  | load k =>
    rw [Config.dest] at hd
    split at hd
    · cases hd
    · cases hd
      rfl

/-- What is dispatched goes to the bank for it. -/
theorem enter_memory (hcore : Core.Inv c.core) (hdec : Core.Decoded c.core) {l : Lane}
    (hl : needsStation c.state l = true) : ((recordToken (c.record i l)).load.isSome ||
      (recordToken (c.record i l)).store.isSome) = (c.station l).memory := by
  obtain ⟨n, f, hw⟩ := Core.exists_waits (c := c.core) hcore.spine (needs_valid hl)
  have hpkt : f.pkt = c.state.core.spine.pipeRenamePkt l := (hcore.waits l n f hw).1
  have hagu := (hdec.made f (List.mem_of_getElem? hw.flight)).agu
  rw [hpkt] at hagu
  have htok : ((recordToken (c.record i l)).load.isSome || (recordToken (c.record i l)).store.isSome) =
      ((c.state.core.spine.pipeRenamePkt l).rdMem || (c.state.core.spine.pipeRenamePkt l).wrMem) := by
    show ((memTag (c.state.core.spine.pipeRenamePkt l).rdMem _).isSome ||
      (memTag (c.state.core.spine.pipeRenamePkt l).wrMem _).isSome) = _
    cases (c.state.core.spine.pipeRenamePkt l).rdMem <;>
      cases (c.state.core.spine.pipeRenamePkt l).wrMem <;> rfl
  rw [htok, Config.station]
  split
  · exact hagu.1 ‹_›
  · exact Bool.not_eq_true _ ▸ fun hm => ‹¬ _› (hagu.2 hm)

/-- No instruction is on its way to both queues. -/
theorem Follows.one (h : Follows c) (hs : Spine.Inv c.core.spine) (hdec : Core.Decoded c.core)
    (hheld : c.held p = some t) : t.load = none ∨ t.store = none := by
  obtain ⟨r, hr, -, rfl⟩ := h.record hheld
  obtain ⟨n, f, hat⟩ := Core.exists_at (c := c.core) hs hr
  have hcopy := hdec.copies r n f hat
  have hone := (hdec.made f (List.mem_of_getElem? hat.flight)).one
  rw [← hcopy.rdMem, ← hcopy.wrMem, Bool.and_eq_false_iff] at hone
  exact hone.imp (fun h => by rw [recordToken, h]; rfl) fun h => by rw [recordToken, h]; rfl

/-! ### What has issued -/

/-- An instruction that waits for its writeback keeps its number. -/
theorem stays_at (h : Core.Inv c.core) (hf : pipeFlush c.state = false) {r : Rob.Record} {n : Nat}
    {f : Core.Flight} (hat : c.core.At r n f) (hp : r.pending = true) :
    (c.next i).core.At (Rob.mark (c.robIn i) r) n (f.next (c.coreIn i) (c.core.issues n)) := by
  refine hat.next (i := c.coreIn i) h.spine hf ?_
  by_contra hlt
  rw [Rob.Record.pending] at hp
  rcases Core.retiring_finished h.rob hat (by omega) with hd | hc
  · rw [hd] at hp
    cases hp
  · rw [hc, Bool.not_true, Bool.and_false] at hp
    cases hp

/-- A station that issues puts its instruction's tag on a lane. -/
theorem issues_of {w : Way} {r : Rob.Record} {n : Nat} {f : Core.Flight} (hat : c.core.At r n f)
    (hv : (Core.issuePkt c.state.core w).packetValid = true)
    (ht : (Core.issuePkt c.state.core w).robEntry = r.tag) : c.core.issues n = true := by
  rw [Core.Config.issues, hat.live, Option.any_some, decide_eq_true hat.le, Bool.true_and, List.any_eq_true]
  exact ⟨w, List.mem_finRange w, Bool.and_eq_true_iff.2 ⟨hv, beq_iff_eq.2 ht⟩⟩

/-- What leaves a station issues. -/
theorem leaves_station (h : Inv c) (hheld : c.held p = some t) (hp : p.issued = false)
    (hd : c.dest i p = some q) (hq : q.issued = true) : ∃ r n f, c.core.At r n f ∧ r.pending = true ∧
      r.tag = t.robEntry ∧ c.core.issues n = true := by
  have hs := h.sorted
  obtain ⟨r, n, f, hat, hpend, htok⟩ := h.at_place hheld
  have htag : r.tag = t.robEntry := congrArg Token.robEntry htok
  refine ⟨r, n, f, hat, hpend, htag, ?_⟩
  cases p with
  | stage s =>
    obtain ⟨x, hx, rfl⟩ := held_stage.1 hheld
    cases s with
    | int k =>
      obtain ⟨huse, rfl⟩ := work_int.1 hx
      rw [Config.dest, Config.forth] at hd
      cases hen : Rs.issueEn c.state.core.rsInt k <;> rw [hen] at hd <;> cases hd
      · cases hq
      · have hlt := way_lt (hs.intUnit k huse)
        obtain ⟨hv, hpkt⟩ := (Rs.issued_iff hs.int).2 ⟨k, huse, hen, rfl, rfl⟩
        refine issues_of hat (w := (c.state.core.rsInt.entry k).pkt.fuId.way) ?_ ?_ <;>
          rw [Core.issuePkt, if_pos hlt]
        · exact hv
        · rw [hpkt, htag]
          rfl
    | mem k =>
      obtain ⟨huse, rfl⟩ := work_mem.1 hx
      rw [Config.dest, Config.forth] at hd
      cases hen : Rs.issueEn c.state.core.rsMem k <;> rw [hen] at hd <;> cases hd
      · cases hq
      · have hlt := way_ne (hs.memUnit k huse)
        obtain ⟨hv, hpkt⟩ := (Rs.issued_iff hs.mem).2 ⟨k, huse, hen, rfl, rfl⟩
        refine issues_of hat (w := (c.state.core.rsMem.entry k).pkt.fuId.way) ?_ ?_ <;>
          rw [Core.issuePkt, if_neg hlt]
        · exact hv
        · rw [hpkt, htag]
          rfl
    | issue w => cases hp
    | read w => cases hp
    | mult0 => cases hp
    | mult1 => cases hp
  | execute w => cases hp
  | load k => cases hp

/-! ### What has a result -/

/-- An instruction in flight is told by its register. -/
theorem same_register (hs : Spine.Inv c.core.spine) {n m : Nat} {f g : Core.Flight} (hn : c.core.base ≤ n)
    (hm : c.core.base ≤ m) (hf : c.core.trace[n]? = some f) (hg : c.core.trace[m]? = some g)
    (he : f.pkt.destPrn = g.pkt.destPrn) (hne : f.pkt.destPrn ≠ 0) : n = m := by
  have hget : ∀ {n : Nat} {f : Core.Flight}, c.core.base ≤ n → c.core.trace[n]? = some f →
      c.core.inFlight[n - c.core.committed]? = some f.op := by
    intro n f hn hf
    have hle : c.core.committed ≤ c.core.base := Nat.le_add_right _ _
    rw [Core.Config.inFlight, List.getElem?_drop, Nat.add_sub_cancel' (by omega), Core.Config.ops,
      List.getElem?_map, hf]
    rfl
  have hle : c.core.committed ≤ c.core.base := Nat.le_add_right _ _
  cases hr : c.core.state.spine.recovArchSt with
  | true =>
    have hn' := hget hn hf
    rw [Core.recov_empty hs hr] at hn'
    cases hn'
  | false =>
    have := live_place (Core.conserved hs hr) (hget hn hf) (hget hm hg) he hne
    omega

/-- What a register of a waiting instruction is not: broadcast, if its tag is not. -/
theorem silent (h : Core.Inv c.core) (ok : Core.Ok (c.coreIn i) c.core) {n : Nat} {f : Core.Flight}
    (hn : c.core.base ≤ n) (hf : c.core.trace[n]? = some f) (hne : f.pkt.destPrn ≠ 0)
    (hno : ∀ r, c.core.At r n f → Rob.hit (c.robIn i) r.tag = false) :
    Core.broadcast (c.coreIn i) f.pkt.destPrn = none := by
  cases hb : Core.broadcast (c.coreIn i) f.pkt.destPrn with
  | none => rfl
  | some x =>
    obtain ⟨w, hv, hprn⟩ := Core.broadcast_lane (i := c.coreIn i) (by rw [hb]; rfl)
    obtain ⟨r, m, g, hat, htag, -, hdest, -⟩ := ok.own w hv
    obtain rfl := same_register h.spine hn hat.le hf hat.flight (hprn.symm.trans hdest.symm) hne
    have heq := hat.flight
    rw [hf, Option.some.injEq] at heq
    subst heq
    have hhit := hno r hat
    rw [show Rob.hit (c.robIn i) r.tag = true from hit_iff.2 ⟨w, hv, htag.symm⟩] at hhit
    cases hhit

/-! ### One edge -/

theorem held_init (p : Place) : Config.init.held p = none := by
  cases p with
  | stage s => cases s <;> rfl
  | execute w => rfl
  | load k => rfl

theorem nothing_held {α : Prop} (h : Config.init.held p = some t) : α := by
  rw [held_init p] at h
  cases h

theorem ledger_flush (hb : Backend.Inv c.backend) (hf : pipeFlush c.state = true) : Follows (c.next i) := by
  have hledger : (c.next i).ledger = [] := by
    rw [Config.ledger, (flush_nothing (i := i) hb hf).1]
    rfl
  rw [Follows, hledger]
  exact .empty (held_flush hf)

theorem issued_next (h : Inv c) (ok : Ok i c) (hf : pipeFlush c.state = false)
    (hheld : (c.next i).held q = some t) (hq : q.issued = true) :
    ∃ r n f, (c.next i).core.At r n f ∧ r.tag = t.robEntry ∧ f.issued = true := by
  rcases ((h.unit ok).moves h.sorted h.parted hf q t).1 hheld with he | ⟨p, hp, hd⟩
  · obtain ⟨l, -, rfl, -⟩ := (enter_iff h.backend.toInv).1 he
    rw [Config.station] at hq
    split at hq <;> cases hq
  · cases hi : p.issued with
    | true =>
      obtain ⟨r, n, f, hat, htag, hissued⟩ := h.issued p t hp hi
      obtain ⟨r', n', f', hat', hpend, htok⟩ := h.at_place hp
      obtain ⟨rfl, rfl, rfl⟩ := hat.unique h.core.rob.toQueue hat'
        (htag.trans (congrArg Token.robEntry htok).symm)
      refine ⟨_, n, _, stays_at h.core hf hat hpend, (Rob.mark_eq_iff _ r).1.trans htag, ?_⟩
      show (f.issued || _) = true
      rw [hissued, Bool.true_or]
    | false =>
      obtain ⟨r, n, f, hat, hpend, htag, hissues⟩ := leaves_station h hp hi hd hq
      refine ⟨_, n, _, stays_at h.core hf hat hpend, (Rob.mark_eq_iff _ r).1.trans htag, ?_⟩
      show (f.issued || _) = true
      rw [hissues, Bool.or_true]

theorem fresh_next (h : Inv c) (ok : Ok i c) {r : Rob.Record} {n : Nat} {f : Core.Flight}
    (hat : (c.next i).core.At r n f) (hpend : r.pending = true) (hne : f.pkt.destPrn ≠ 0) :
    f.result = none := by
  have hcore := h.coreOk ok
  have hheard : ∀ {f : Core.Flight} {b : Bool}, f.result = none → f.pkt.destPrn ≠ 0 →
      Core.broadcast (c.coreIn i) f.pkt.destPrn = none → (f.next (c.coreIn i) b).result = none := by
    intro f b hres hne hb
    show f.result.or (if f.pkt.destPrn = 0 then none else Core.broadcast (c.coreIn i) f.pkt.destPrn) = none
    rw [hres, if_neg hne, hb]
    rfl
  obtain ⟨-, ⟨r₀, f₀, hat₀, -, rfl, rfl⟩ | ⟨l, f₀, hw, rfl, rfl⟩⟩ :=
    Core.Config.At.cases (c := c.core) (i := c.coreIn i) h.core.spine hat
  · have hpend' : (Rob.mark (c.robIn i) r₀).pending = true := hpend
    rw [mark_pending, Bool.and_eq_true, Bool.not_eq_true'] at hpend'
    refine hheard (h.fresh r₀ n f₀ hat₀ hpend'.1 hne) hne (silent h.core hcore hat₀.le hat₀.flight hne ?_)
    intro r hat'
    have heq := hat'.live
    rw [hat₀.live, Option.some.injEq] at heq
    rw [← heq]
    exact hpend'.2
  · -- what is dispatched is not in the buffer yet
    obtain ⟨j, hj, hn⟩ := hw.lane
    refine hheard (h.core.waits l n f₀ hw).2.2 hne (silent h.core hcore (by omega) hw.flight hne ?_)
    intro r hat'
    have hlt := (List.getElem?_eq_some_iff.1 hat'.live).1
    omega

namespace Inv

theorem next_follows (h : Inv c) (ok : Ok i c) : Follows (c.next i) := by
  cases hf : pipeFlush c.state with
  | true => exact ledger_flush h.backend.toInv hf
  | false =>
    exact tracks_next (h.unit ok) h.sorted h.parted h.backend.toInv h.core
      (h.core.next (h.coreOk ok)).rob.toQueue h.follows hf

theorem next_parted (h : Inv c) (ok : Ok i c) : Parted (c.next i) where
  memory := by
    intro q t hheld
    cases hf : pipeFlush c.state with
    | true =>
      rw [held_flush hf] at hheld
      cases hheld
    | false =>
      rcases ((h.unit ok).moves h.sorted h.parted hf q t).1 hheld with he | ⟨p, hp, hd⟩
      · obtain ⟨l, hl, rfl, rfl⟩ := (enter_iff h.backend.toInv).1 he
        exact enter_memory h.core h.decoded hl
      · rw [h.parted.memory p t hp, dest_memory h.sorted hp hd]
  one := fun _ _ hheld =>
    (h.next_follows ok).one (h.core.next (h.coreOk ok)).spine (h.decoded.next h.core) hheld

theorem next_linked (h : Inv c) (ok : Ok i c) : Linked (c.next i) := by
  cases hf : pipeFlush c.state with
  | true => exact Linked.flush h.backend.toInv hf
  | false =>
    exact h.linked.next (h.unit ok) h.parted h.follows h.backend.toInv h.core h.decoded hf

/-- **One edge keeps the back end.** -/
theorem next (h : Inv c) (ok : Ok i c) : Inv (c.next i) where
  backend := h.backend.next ok.fetch
  core := h.core.next (h.coreOk ok)
  operands := h.operands.next h.core (h.coreOk ok)
  stations := h.stations.next h.core h.operands (h.coreOk ok)
  decoded := h.decoded.next h.core
  lsq := h.lsq.next (h.lsqOk ok) (h.unit ok).fresh
  again := fun ha => ok.once ((h.lsq.again_iff (h.lsqOk ok) (h.unit ok).fresh).1 ha)
  follows := h.next_follows ok
  parted := h.next_parted ok
  linked := h.next_linked ok
  issued := by
    intro p t hheld hp
    cases hf : pipeFlush c.state with
    | true =>
      rw [held_flush hf] at hheld
      cases hheld
    | false => exact issued_next h ok hf hheld hp
  fresh := fun _ _ _ hat hpend hne => fresh_next h ok hat hpend hne

theorem init : Inv Config.init where
  backend := RecovInv.init
  core := Core.Inv.init
  operands := Core.Operands.init
  stations := Core.Stations.init
  decoded := Core.Decoded.init
  lsq := Lsq.Inv.init
  again := fun ha => by cases ha.1
  follows := .empty held_init
  parted := ⟨fun p t hheld => nothing_held hheld, fun p t hheld => nothing_held hheld⟩
  linked := Linked.init
  issued := fun p t hheld => nothing_held hheld
  fresh := fun _ _ _ hat => by cases hat.live

theorem of_reach (h : Reach c) : Inv c := Run.Reach.invariant Inv init (fun _ _ hinv ok => hinv.next ok) h

end Inv

/-! ### Nothing is lost on the way -/

/-- The buffer and the places: an instruction that waits for its writeback is in one place,
under its tag and with its register and its slot, and nothing else is anywhere. -/
structure Tracked (c : Config) : Prop where
  placed : ∀ r ∈ c.backend.robLog.live, r.pending = true → ∃ p, c.held p = some (recordToken r) ∧
    ∀ q t, c.held q = some t → t.robEntry = r.tag → q = p
  owned : ∀ p t, c.held p = some t → ∃ r ∈ c.backend.robLog.live, r.pending = true ∧ recordToken r = t

/-- What a cycle without a flush does to the instructions on their way: each goes on as it
is, or is on a lane of the bus and nowhere afterwards; and a lane carries nothing else. -/
structure Proceeds (i : Inputs) (c : Config) : Prop where
  goes : ∀ p t, c.held p = some t → (∃ q, c.dest i p = some q ∧ (c.next i).held q = some t) ∨
    ((∃ w, (cdbPkt i c.state w).packetValid = true ∧ (cdbPkt i c.state w).robEntry = t.robEntry ∧
      (cdbPkt i c.state w).destPrn = t.destPrn) ∧ ∀ q, (c.next i).held q ≠ some t)
  carried : ∀ w, (cdbPkt i c.state w).packetValid = true → ∃ p t, c.held p = some t ∧ c.dest i p = none ∧
    t.robEntry = (cdbPkt i c.state w).robEntry ∧ t.destPrn = (cdbPkt i c.state w).destPrn
  once : ∀ w w', (cdbPkt i c.state w).packetValid = true → (cdbPkt i c.state w').packetValid = true →
    (cdbPkt i c.state w).robEntry = (cdbPkt i c.state w').robEntry → w = w'

theorem Inv.tracked (h : Inv c) : Tracked c where
  placed := by
    intro r hr hpend
    obtain ⟨p, hp⟩ := h.follows.place hr hpend
    exact ⟨p, hp, fun q t hq ht => (h.follows.eq_of_key hq hp ht).1⟩
  owned := fun p t hheld => h.follows.record hheld

theorem Inv.proceeds (h : Inv c) (ok : Ok i c) (hf : pipeFlush c.state = false) : Proceeds i c where
  goes := by
    intro p t hheld
    have hmoves := (h.unit ok).moves h.sorted h.parted hf
    cases hd : c.dest i p with
    | some q => exact .inl ⟨q, rfl, (hmoves q t).2 (.inr ⟨p, hheld, hd⟩)⟩
    | none =>
      obtain ⟨w, hv, hrob⟩ := held_lane h.parted hheld hd
      obtain ⟨p', t', hheld', -, -, -, hrob', hprn⟩ := lane_held (h.unit ok) h.parted hv
      obtain ⟨rfl, rfl⟩ := h.follows.eq_of_key hheld' hheld (hrob'.trans hrob)
      refine .inr ⟨⟨w, hv, hrob, hprn.symm⟩, fun q hq => ?_⟩
      rcases (hmoves q t').1 hq with he | ⟨p'', hp'', hd''⟩
      · obtain ⟨l, hl, -, htok⟩ := (enter_iff h.backend.toInv).1 he
        exact entered_new h.core (h.core.next (h.coreOk ok)).rob.toQueue hf ((h.follows.mem t').2 ⟨p', hheld⟩)
          (mem_entered.2 ⟨l, hl, htok⟩) rfl
      · rw [h.follows.apart p'' p' t' hp'' hheld, hd] at hd''
        cases hd''
  carried := fun w hv => by
    obtain ⟨p, t, hheld, hd, -, -, hrob, hprn⟩ := lane_held (h.unit ok) h.parted hv
    exact ⟨p, t, hheld, hd, hrob, hprn⟩
  once := by
    intro w w' hv hv' he
    obtain ⟨p, t, hheld, -, -, hlane, hrob, -⟩ := lane_held (h.unit ok) h.parted hv
    obtain ⟨p', t', hheld', -, -, hlane', hrob', -⟩ := lane_held (h.unit ok) h.parted hv'
    obtain ⟨rfl, -⟩ := h.follows.eq_of_key hheld hheld' (hrob.trans (he.trans hrob'.symm))
    exact hlane.symm.trans hlane'

/-- **Nothing is lost on the way and nothing is copied**: in every cycle of a run each
instruction that waits for its writeback is in one place and goes on from there or is
broadcast; a flush, and nothing else, drops it. -/
theorem nothing_lost (h : Reach c) (ok : Ok i c) : Tracked c ∧
    (pipeFlush c.state = false → Proceeds i c) ∧
    (pipeFlush c.state = true → (c.next i).ledger = [] ∧ ∀ p, (c.next i).held p = none) := by
  have hinv := Inv.of_reach h
  refine ⟨hinv.tracked, hinv.proceeds ok, fun hf => ⟨?_, held_flush hf⟩⟩
  rw [Config.ledger, (flush_nothing (i := i) hinv.backend.toInv hf).1]
  rfl

theorem core_init : Core.Reach Config.init.core := by
  have he : Config.init.core = Core.Config.init := rfl
  rw [he]
  exact .init

theorem lsq_init : Lsq.ReachFresh Config.init.lsq := by
  have he : Config.init.lsq = Lsq.Config.init := rfl
  rw [he]
  exact .init

/-- **The core and the load/store unit keep each other's rules**: their runs in the back end
are the runs they were followed in. -/
theorem parts_keep_rules (h : Reach c) : Core.Reach c.core ∧ Lsq.ReachFresh c.lsq ∧
    ∀ i, Ok i c → Core.Ok (c.coreIn i) c.core ∧ Lsq.Ok (c.lsqIn i) c.lsq ∧ Lsq.Fresh (c.lsqIn i) c.lsq := by
  have hruns : Inv c ∧ Core.Reach c.core ∧ Lsq.ReachFresh c.lsq := by
    refine Run.Reach.invariant (fun c => Inv c ∧ Core.Reach c.core ∧ Lsq.ReachFresh c.lsq)
      ⟨Inv.init, core_init, lsq_init⟩ (fun i c hc ok => ?_) h
    obtain ⟨hinv, hcore, hlsq⟩ := hc
    rw [Config.next_core, Config.next_lsq]
    exact ⟨hinv.next ok, hcore.step (c.coreIn i) (hinv.coreOk ok),
      hlsq.step (c.lsqIn i) ⟨hinv.lsqOk ok, (hinv.unit ok).fresh⟩⟩
  obtain ⟨hinv, hcore, hlsq⟩ := hruns
  exact ⟨hcore, hlsq, fun i ok => ⟨hinv.coreOk ok, hinv.lsqOk ok, (hinv.unit ok).fresh⟩⟩

/-! A group of two, a load and an addition, and the cycle that dispatches it. -/

/-- A cycle without the data cache and without a forward. -/
theorem ok_alone {i : Inputs} {c : Config} (hfetch : OkRecov i c.backend) (hd : i.dcacheValid = false)
    (hf : c.state.lsq.stq.fwdValid = false) : Ok i c where
  fetch := hfetch
  answer := fun h => by
    rw [hd] at h
    cases h
  once := fun h => by
    have hv : c.state.lsq.stq.fwdValid = true := h.served.1
    rw [hf] at hv
    cases hv

theorem ok_quiet {c : Config} (hf : c.state.lsq.stq.fwdValid = false) : Ok quietIn c :=
  ok_alone ⟨fun _ _ _ _ _ h => (by cases h), fun _ _ => rfl⟩ rfl hf

def loadAdd : Config := Config.init.next loadAddIn

theorem loadAdd_reach : Reach loadAdd :=
  .step loadAddIn .init (ok_alone ⟨(show Contiguous _ by decide), fun h => by cases h⟩ rfl rfl)

theorem loadAdd_dispatched : Reach (loadAdd.next quietIn) :=
  .step quietIn loadAdd_reach (ok_quiet (by decide +kernel))

theorem nothing_lost_loadAdd : ((loadAdd.next quietIn).held (.stage (.mem 7))).isSome = true ∧
    Tracked (loadAdd.next quietIn) :=
  ⟨by decide +kernel, (nothing_lost loadAdd_dispatched (ok_quiet (by decide +kernel))).1⟩

theorem parts_keep_rules_loadAdd : (loadAdd.next quietIn).trace.length = 2 ∧
    Core.Reach (loadAdd.next quietIn).core ∧ Lsq.ReachFresh (loadAdd.next quietIn).lsq := by
  obtain ⟨hcore, hlsq, -⟩ := parts_keep_rules loadAdd_dispatched
  exact ⟨by decide +kernel, hcore, hlsq⟩

end

end R10K.Whole
