import R10K.Backend.Log
import R10K.Lsq.Resolved

/-! Lane 6 of the broadcast bus, shared by stores and loads.

A store that executes has the lane in its own cycle; the load queue has it in every other
one. A load's result may come in while the lane is taken, by a store or by a load of a
lower slot: it waits in its entry. The ledger says, slot by slot, what was accepted last
and has not been carried, and the entries agree with it. Rules on the other ports are
those of `Lsq.Ok`; `writeback_ready` is the back end's own. -/
namespace R10K.Backend

/-- Lane 6: the executing store, else what the load queue offers. -/
def lane6 (i : Lsq.Inputs) (s : Lsq.State) : ExecutePacket :=
  if Lsq.executeStqValid i then i.executePkt
  else
    let j := Lsq.ldqIn i s
    { pc := Ldq.writebackPc j s.ldq
      result := Ldq.writebackData j s.ldq
      destPrn := Ldq.writebackDestPrn j s.ldq
      robEntry := Ldq.writebackRobTag j s.ldq
      packetValid := Ldq.writebackValid j s.ldq }

/-- It is lane 6 of the back end's bus. -/
theorem cdbPkt_six (i : Inputs) (s : State) : cdbPkt i s 6 = lane6 (lsqIn i s) s.lsq := rfl

theorem lsqIn_ready (i : Inputs) (s : State) :
    (lsqIn i s).writebackReady = !Lsq.executeStqValid (lsqIn i s) := rfl

/-- A cycle of the load/store unit in the back end, with fresh answers. -/
structure OkLane (i : Lsq.Inputs) (c : Lsq.Config) : Prop where
  lsq : Lsq.Ok i c
  fresh : Lsq.Fresh i c
  ready : i.writebackReady = !Lsq.executeStqValid i

/-! ### What is owed -/

/-- The result accepted for a slot in this cycle. -/
def accepted (i : Lsq.Inputs) (c : Lsq.Config) (t : LdqTag) : Option (BitVec 32) :=
  if Ldq.fwdDataAccept (Lsq.ldqIn i c.state) c.ldq.ldq t then some c.stq.stq.fwdData
  else if Ldq.dcacheDataAccept (Lsq.ldqIn i c.state) c.ldq.ldq t then some i.dcacheData
  else none

/-- A run with the results that were accepted for loads not broadcast yet, the last one for
each slot. -/
structure Ledger where
  lsq : Lsq.Config
  owed : LdqTag → Option (BitVec 32)

namespace Ledger

def init : Ledger := ⟨Lsq.Config.init, fun _ => none⟩

/-- The last result accepted, this cycle included. -/
def latest (i : Lsq.Inputs) (s : Ledger) (t : LdqTag) : Option (BitVec 32) :=
  (accepted i s.lsq t).or (s.owed t)

/-- What discards a result: a flush, or a store that makes the load fail. -/
def discards (i : Lsq.Inputs) (s : Ledger) (t : LdqTag) : Bool :=
  i.pipeFlush || Ldq.stLdViolation (Lsq.ldqIn i s.lsq.state) s.lsq.ldq.ldq t

/-- The load of a slot is broadcast, now or before. -/
def broadcast (i : Lsq.Inputs) (s : Ledger) (t : LdqTag) : Bool :=
  Ldq.writebackAccept (Lsq.ldqIn i s.lsq.state) s.lsq.ldq.ldq t || (s.lsq.ldq.ldq.ldqEntry t).writebacked

def next (i : Lsq.Inputs) (s : Ledger) : Ledger where
  lsq := s.lsq.next i
  owed := fun t => if discards i s t || broadcast i s t then none else latest i s t

end Ledger

/-- The datum of an entry that is not written back. -/
def waiting (e : LdqEntry) : Option (BitVec 32) := if e.dataValid && !e.writebacked then some e.data else none

/-- Lane 6 carries the load of a slot, under its tag and register and with a datum. -/
structure Carries (i : Lsq.Inputs) (c : Lsq.Config) (t : LdqTag) (d : BitVec 32) : Prop where
  valid : (lane6 i c.state).packetValid = true
  load : ∃ r ∈ c.ldq.log.live, ∃ x, r.tag = t ∧ r.exec = some x ∧
    (lane6 i c.state).robEntry = x.robTag ∧ (lane6 i c.state).destPrn = x.destPrn
  result : (lane6 i c.state).result = d

/-- What lane 6 does in a cycle. -/
structure OnLane (i : Lsq.Inputs) (s : Ledger) : Prop where
  /-- What is owed is the datum of an entry that is not written back. -/
  held : ∀ t, s.owed t = waiting (s.lsq.ldq.ldq.ldqEntry t)
  /-- The last result accepted for a load not broadcast before is carried now, stays in its
  entry, or is discarded. -/
  kept : ∀ t d, (s.lsq.ldq.ldq.ldqEntry t).writebacked = false → s.latest i t = some d →
    Carries i s.lsq t d ∨ waiting ((s.lsq.next i).ldq.ldq.ldqEntry t) = some d ∨ s.discards i t = true
  /-- A load is carried with the last result accepted for it. -/
  carried : ∀ t, Ldq.writebackAccept (Lsq.ldqIn i s.lsq.state) s.lsq.ldq.ldq t = true →
    ∃ d, s.latest i t = some d ∧ Carries i s.lsq t d
  /-- An entry is written back in a cycle in which lane 6 carries its load. -/
  written : ∀ t, (s.lsq.ldq.ldq.ldqEntry t).writebacked = false →
    ((s.lsq.next i).ldq.ldq.ldqEntry t).writebacked = true → ∃ d, Carries i s.lsq t d
  /-- A store that executes is on lane 6. -/
  store : Lsq.executeStqValid i = true → lane6 i s.lsq.state = i.executePkt

section
variable {i : Lsq.Inputs} {s : Ledger}

/-- A result that is taken is on lane 6. -/
theorem lane6_load (ok : OkLane i s.lsq) {t : LdqTag}
    (ht : Ldq.writebackAccept (Lsq.ldqIn i s.lsq.state) s.lsq.ldq.ldq t = true) :
    Lsq.executeStqValid i = false ∧ t = Ldq.writebackLdqIdx (Lsq.ldqIn i s.lsq.state) s.lsq.ldq.ldq ∧
      Ldq.writebackValid (Lsq.ldqIn i s.lsq.state) s.lsq.ldq.ldq = true := by
  rw [Ldq.writebackAccept, Bool.and_eq_true, Bool.and_eq_true, beq_iff_eq] at ht
  have hready : i.writebackReady = true := ht.2
  rw [ok.ready, Bool.not_eq_true'] at hready
  exact ⟨hready, ht.1.1, ht.1.2⟩

/-- What is offered is the last result accepted for its slot. -/
theorem offered_latest (hp : Lsq.Passed s.lsq) (ok : OkLane i s.lsq)
    (hheld : ∀ t, s.owed t = waiting (s.lsq.ldq.ldq.ldqEntry t))
    (hv : Ldq.writebackValid (Lsq.ldqIn i s.lsq.state) s.lsq.ldq.ldq = true) :
    s.latest i (Ldq.writebackLdqIdx (Lsq.ldqIn i s.lsq.state) s.lsq.ldq.ldq) =
      some (Ldq.writebackData (Lsq.ldqIn i s.lsq.state) s.lsq.ldq.ldq) := by
  have ho := Ldq.writeback_slot hv
  have hpass := hp.hasDatum ok.lsq ok.fresh (Ldq.hasDatum_of_writeback ho)
  rw [Ldq.writebackData]
  generalize Ldq.writebackLdqIdx (Lsq.ldqIn i s.lsq.state) s.lsq.ldq.ldq = t at ho hpass ⊢
  rw [Ledger.latest, accepted, Ldq.fwdDataAccept, hpass, Bool.not_false, Bool.and_true]
  cases hfwd : t == (Lsq.ldqIn i s.lsq.state).fwdLdqTag && (Lsq.ldqIn i s.lsq.state).fwdValid with
  | true => rfl
  | false =>
    rw [if_neg Bool.false_ne_true, if_neg Bool.false_ne_true]
    cases hans : Ldq.dcacheDataAccept (Lsq.ldqIn i s.lsq.state) s.lsq.ldq.ldq t with
    | true =>
      rw [Ldq.dcacheDataAccept] at hans
      rw [hans]
      rfl
    | false =>
      -- nothing comes in, so the entry is offered for its own datum
      have hsel := hans
      rw [Ldq.dcacheDataAccept] at hsel
      rw [Ldq.ldWriteback, Ldq.fwdDataAccept, hfwd, hans, Bool.false_and, Bool.or_false, Bool.or_false,
        Bool.and_eq_true] at ho
      rw [hsel, hheld, waiting, ho.2]
      rfl

/-- A result that is taken is carried for the load in its slot. -/
theorem carries (hi : Lsq.Inv s.lsq) (ok : OkLane i s.lsq) {t : LdqTag}
    (ht : Ldq.writebackAccept (Lsq.ldqIn i s.lsq.state) s.lsq.ldq.ldq t = true) :
    Carries i s.lsq t (Ldq.writebackData (Lsq.ldqIn i s.lsq.state) s.lsq.ldq.ldq) := by
  obtain ⟨hst, hidx, hv⟩ := lane6_load ok ht
  obtain ⟨hvalid, haddr⟩ := hi.served ok.lsq ok.fresh (Ldq.hasDatum_of_writeback (Ldq.writeback_slot hv))
  obtain ⟨_, r, _, _, hlive, _, htag, hag⟩ := hi.live_at hvalid
  rw [hag.addr, Option.isSome_iff_exists] at haddr
  obtain ⟨x, hx⟩ := haddr
  obtain ⟨_, _, hprn, hrob⟩ := hag.exec x hx
  refine ⟨?_, ⟨r, hlive, x, htag.trans hidx.symm, hx, ?_, ?_⟩, ?_⟩
  · rw [lane6, hst]
    exact hv
  · rw [lane6, hst]
    exact hrob
  · rw [lane6, hst]
    exact hprn
  · rw [lane6, hst]
    rfl

/-- The entry of a load not broadcast before or now shows the last result accepted for it,
unless that is discarded. -/
theorem next_waiting (hi : Lsq.Inv s.lsq) (ok : OkLane i s.lsq) {t : LdqTag}
    (hheld : s.owed t = waiting (s.lsq.ldq.ldq.ldqEntry t)) (hdis : s.discards i t = false)
    (hbr : s.broadcast i t = false) : waiting ((s.lsq.next i).ldq.ldq.ldqEntry t) = s.latest i t := by
  rw [Ledger.discards, Bool.or_eq_false_iff] at hdis
  rw [Ledger.broadcast, Bool.or_eq_false_iff] at hbr
  have e := (Lsq.cycle_next s.lsq hdis.1).ldq
  have hret : Ldq.retires (Lsq.ldqIn i s.lsq.state) t = false := by
    rw [← Bool.not_eq_true]
    intro hr
    rw [hi.retires_written ok.lsq hr] at hbr
    exact Bool.noConfusion hbr.2
  rw [waiting, e.dataValid, e.writebacked, e.data _ hdis.2, hret, hdis.2, hbr.1, hbr.2, Ledger.latest, accepted,
    hheld, waiting, hbr.2, Ldq.hasDatum]
  cases Ldq.fwdDataAccept (Lsq.ldqIn i s.lsq.state) s.lsq.ldq.ldq t with
  | true => rfl
  | false =>
    cases Ldq.dcacheDataAccept (Lsq.ldqIn i s.lsq.state) s.lsq.ldq.ldq t with
    | true => rfl
    | false => cases (s.lsq.ldq.ldq.ldqEntry t).dataValid <;> rfl

/-- A discarded result, and one that was broadcast, leave nothing to wait. -/
theorem next_settled {t : LdqTag} (h : (s.discards i t || s.broadcast i t) = true) :
    waiting ((s.lsq.next i).ldq.ldq.ldqEntry t) = none := by
  cases hf : i.pipeFlush with
  | true =>
    rw [Lsq.flush_entry s.lsq hf]
    rfl
  | false =>
    have e := (Lsq.cycle_next s.lsq hf).ldq
    rw [Ledger.discards, hf, Bool.false_or, Ledger.broadcast] at h
    rw [waiting, e.dataValid, e.writebacked]
    cases Ldq.retires (Lsq.ldqIn i s.lsq.state) t with
    | true => rfl
    | false =>
      cases hviol : Ldq.stLdViolation (Lsq.ldqIn i s.lsq.state) s.lsq.ldq.ldq t with
      | true => rfl
      | false =>
        rw [hviol, Bool.false_or] at h
        rw [h, Bool.not_false, Bool.true_and, Bool.true_and, Bool.not_true, Bool.and_false]
        rfl

theorem next_held (hi : Lsq.Inv s.lsq) (ok : OkLane i s.lsq)
    (hheld : ∀ t, s.owed t = waiting (s.lsq.ldq.ldq.ldqEntry t)) (t : LdqTag) :
    (s.next i).owed t = waiting ((s.next i).lsq.ldq.ldq.ldqEntry t) := by
  show (if s.discards i t || s.broadcast i t then none else s.latest i t) =
    waiting ((s.lsq.next i).ldq.ldq.ldqEntry t)
  cases h : s.discards i t || s.broadcast i t with
  | true => rw [if_pos rfl, next_settled h]
  | false =>
    rw [Bool.or_eq_false_iff] at h
    rw [if_neg Bool.false_ne_true, next_waiting hi ok (hheld t) h.1 h.2]

end

/-- The invariants of a run on lane 6. -/
structure Held (s : Ledger) : Prop where
  inv : Lsq.Inv s.lsq
  passed : Lsq.Passed s.lsq
  held : ∀ t, s.owed t = waiting (s.lsq.ldq.ldq.ldqEntry t)

namespace Held
variable {i : Lsq.Inputs} {s : Ledger}

theorem next (h : Held s) (ok : OkLane i s.lsq) : Held (s.next i) where
  inv := h.inv.next ok.lsq ok.fresh
  passed := h.passed.next h.inv ok.lsq ok.fresh
  held := next_held h.inv ok h.held

theorem init : Held Ledger.init where
  inv := Lsq.Inv.init
  passed := Lsq.Passed.init
  held := fun _ => rfl

theorem of_reach (h : Run.Reach Ledger.next (fun i s => OkLane i s.lsq) Ledger.init s) : Held s :=
  h.invariant Held init fun _ _ hi ok => hi.next ok

/-- A result that is taken is carried, and is the last one accepted for its slot. -/
theorem carried (h : Held s) (ok : OkLane i s.lsq) {t : LdqTag}
    (ht : Ldq.writebackAccept (Lsq.ldqIn i s.lsq.state) s.lsq.ldq.ldq t = true) :
    ∃ d, s.latest i t = some d ∧ Carries i s.lsq t d := by
  obtain ⟨_, hidx, hv⟩ := lane6_load ok ht
  refine ⟨_, ?_, carries h.inv ok ht⟩
  rw [hidx]
  exact offered_latest h.passed ok h.held hv

theorem kept (h : Held s) (ok : OkLane i s.lsq) {t : LdqTag} {d : BitVec 32}
    (hw : (s.lsq.ldq.ldq.ldqEntry t).writebacked = false) (hd : s.latest i t = some d) :
    Carries i s.lsq t d ∨ waiting ((s.lsq.next i).ldq.ldq.ldqEntry t) = some d ∨ s.discards i t = true := by
  cases hdis : s.discards i t with
  | true => exact .inr (.inr rfl)
  | false =>
    cases ht : Ldq.writebackAccept (Lsq.ldqIn i s.lsq.state) s.lsq.ldq.ldq t with
    | true =>
      obtain ⟨d', hd', hc⟩ := h.carried ok ht
      rw [hd, Option.some.injEq] at hd'
      rw [hd']
      exact .inl hc
    | false =>
      have hbr : s.broadcast i t = false := by rw [Ledger.broadcast, ht, hw, Bool.or_false]
      exact .inr (.inl ((next_waiting h.inv ok (h.held t) hdis hbr).trans hd))

theorem written (h : Held s) (ok : OkLane i s.lsq) {t : LdqTag}
    (hw : (s.lsq.ldq.ldq.ldqEntry t).writebacked = false)
    (hw' : ((s.lsq.next i).ldq.ldq.ldqEntry t).writebacked = true) : ∃ d, Carries i s.lsq t d := by
  cases hf : i.pipeFlush with
  | true =>
    rw [Lsq.flush_entry s.lsq hf] at hw'
    cases hw'
  | false =>
    rw [(Lsq.cycle_next s.lsq hf).ldq.writebacked, hw, Bool.or_false, Bool.and_eq_true] at hw'
    obtain ⟨d, _, hc⟩ := h.carried ok hw'.2
    exact ⟨d, hc⟩

theorem onLane (h : Held s) (ok : OkLane i s.lsq) : OnLane i s where
  held := h.held
  kept := fun _ _ hw hd => h.kept ok hw hd
  carried := fun _ ht => h.carried ok ht
  written := fun _ hw hw' => h.written ok hw hw'
  store := fun hst => by rw [lane6, hst, if_pos rfl]

end Held

/-- **No load result is lost on the shared lane**, and every store has it in its own cycle. -/
theorem lane_keeps {s : Ledger} (h : Run.Reach Ledger.next (fun i s => OkLane i s.lsq) Ledger.init s)
    (i : Lsq.Inputs) (ok : OkLane i s.lsq) : OnLane i s :=
  (Held.of_reach h).onLane ok

/-! ### In the back end -/

/-- The back end with the ledger of its load/store unit. -/
structure Bus where
  backend : Config
  ledger : Ledger

namespace Bus

def init : Bus := ⟨Config.init, Ledger.init⟩

def next (i : Inputs) (b : Bus) : Bus := ⟨b.backend.next i, b.ledger.next (lsqIn i b.backend.state)⟩

/-- The rest of the back end and the data cache keep the rules of the load/store unit. -/
structure Ok (i : Inputs) (b : Bus) : Prop where
  lsq : Lsq.Ok (lsqIn i b.backend.state) b.ledger.lsq
  fresh : Lsq.Fresh (lsqIn i b.backend.state) b.ledger.lsq

theorem Ok.lane {i : Inputs} {b : Bus} (ok : Ok i b) : OkLane (lsqIn i b.backend.state) b.ledger.lsq :=
  ⟨ok.lsq, ok.fresh, lsqIn_ready i b.backend.state⟩

/-- The ledger's unit is the back end's. -/
structure Follows (b : Bus) : Prop where
  held : Held b.ledger
  stq : b.ledger.lsq.stq = b.backend.stq
  ldq : b.ledger.lsq.ldq = b.backend.ldq

theorem Follows.state {b : Bus} (h : Follows b) : b.ledger.lsq.state = b.backend.state.lsq := by
  rw [Lsq.Config.state, h.stq, h.ldq]
  rfl

theorem Follows.next {i : Inputs} {b : Bus} (h : Follows b) (ok : Ok i b) : Follows (b.next i) where
  held := h.held.next ok.lane
  stq := by
    show b.ledger.lsq.stq.next (Lsq.stqIn (lsqIn i b.backend.state) b.ledger.lsq.state) = (b.backend.next i).stq
    rw [Config.next_stq, h.state, h.stq]
    rfl
  ldq := by
    show b.ledger.lsq.ldq.next (Lsq.ldqIn (lsqIn i b.backend.state) b.ledger.lsq.state) = (b.backend.next i).ldq
    rw [Config.next_ldq, h.state, h.ldq]
    rfl

theorem follows {b : Bus} (h : Run.Reach next Ok init b) : Follows b :=
  h.invariant Follows ⟨Held.init, rfl, rfl⟩ fun _ _ hi ok => hi.next ok

/-- **In the back end** it is lane 6 of the bus that keeps the results. -/
theorem bus_keeps {b : Bus} (h : Run.Reach next Ok init b) (i : Inputs) (ok : Ok i b) :
    OnLane (lsqIn i b.backend.state) b.ledger ∧
      cdbPkt i b.backend.state 6 = lane6 (lsqIn i b.backend.state) b.ledger.lsq.state := by
  have hf := follows h
  refine ⟨hf.held.onLane ok.lane, ?_⟩
  rw [hf.state]
  exact cdbPkt_six i b.backend.state

end Bus

/-! ### A load that waits behind a store -/

/-- The lane is the load queue's when no store executes. -/
def sharing (i : Lsq.Inputs) : Lsq.Inputs := { i with writebackReady := !Lsq.executeStqValid i }

/-- A load and a store behind it. -/
def loadStore : Lsq.Inputs :=
  { Lsq.idle with dispatchPkt := fun l => { rdMem := l == 0, wrMem := l == 1, packetValid := decide (l ≤ 1) } }

/-- The load's answer comes in the cycle in which the store executes. -/
def answerStore : Lsq.Inputs :=
  { Lsq.loadAnswer with executePkt := { result := 0x200, wrMem := true, memSize := 2, packetValid := true } }

def behindStore : Ledger :=
  (((Ledger.init.next (sharing loadStore)).next (sharing Lsq.loadOut)).next (sharing Lsq.loadFire)).next
    (sharing answerStore)

/-- The load is carried in the cycle after. -/
theorem lane_keeps_behind : ∃ d, behindStore.latest (sharing Lsq.idle) 0 = some d ∧
    Carries (sharing Lsq.idle) behindStore.lsq 0 d := by
  refine (lane_keeps (.step (sharing answerStore) (.step (sharing Lsq.loadFire) (.step (sharing Lsq.loadOut)
    (.step (sharing loadStore) .init ⟨?_, ?_, rfl⟩) ⟨?_, ?_, rfl⟩) ⟨?_, ?_, rfl⟩) ⟨?_, ?_, rfl⟩)
    (sharing Lsq.idle) ⟨?_, ?_, rfl⟩).carried 0 (by decide +kernel)
  all_goals first
    | exact fun _ => by decide +kernel
    | refine Lsq.ok_of (fun _ => rfl) ?_ ?_ ?_ ?_ ?_ <;> decide +kernel

end R10K.Backend
