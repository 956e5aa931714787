import R10K.Lsq.Values

/-! The load/store unit and its memory through a flush.

A flush drops every load and every store that is not retired, so nothing is left of a load
whose value could be wrong; the memory takes the store sent in this cycle as in any other.
What was asked for a dropped load is forgotten: no answer comes for it. -/
namespace R10K.Lsq
open Circular Lanes Ldq Memory

/-- The requests from before a flush are left out. -/
def Config.cleared (c : Config) : Config := { c with stale := fun _ => 0 }

namespace Config
variable {c : Config} {i : Inputs}

theorem cleared_inv (h : Inv c) : Inv c.cleared where
  stq := h.stq
  ldq := h.ldq
  agrees := h.agrees
  clear := h.clear
  settled := h.settled
  fire := h.fire
  fwd := h.fwd
  pending := h.pending

/-- A request is one accepted since the last flush if none from before it is answered. -/
theorem cleared_next (hfresh : Fresh i c) (hf : i.pipeFlush = false) : c.cleared.next i = (c.next i).cleared := by
  have hpend : ∀ t, pendingNext i c.cleared t = pendingNext i c t := by
    intro t
    have hans : (answers i t && c.stale t == 0) = answers i t := by
      cases ha : answers i t with
      | false => rfl
      | true =>
        rw [answers, Bool.and_eq_true, beq_iff_eq] at ha
        rw [ha.2, hfresh ha.1]
        rfl
    have hans' : (answers i t && c.cleared.stale t == 0) = answers i t := Bool.and_true _
    rw [pendingNext, pendingNext, hans, hans']
    rfl
  have hstale : ∀ t, staleNext i c.cleared t = 0 := fun t => by
    rw [staleNext, show c.cleared.stale t = 0 from rfl, Nat.zero_sub, ite_self]
  show Config.mk _ _ _ _ = Config.mk _ _ _ _
  congr 1
  · funext t
    show (if i.pipeFlush then 0 else pendingNext i c.cleared t) = if i.pipeFlush then 0 else pendingNext i c t
    rw [hpend]
  · funext t
    rw [hf, if_neg Bool.false_ne_true, hstale]

theorem cleared_flush (hf : i.pipeFlush = true) : (c.cleared.next i).cleared = (c.next i).cleared := by
  show Config.mk _ _ _ _ = Config.mk _ _ _ _
  congr 1
  funext t
  show (if i.pipeFlush then 0 else pendingNext i c.cleared t) = if i.pipeFlush then 0 else pendingNext i c t
  rw [hf, if_pos rfl, if_pos rfl]

theorem cleared_ok (ok : Ok i c) (hfresh : Fresh i c) : Ok i c.cleared where
  stq := ok.stq
  ldq := ok.ldq
  answer := fun hv => by
    have := ok.answer hv
    rw [hfresh hv] at this
    exact this

end Config

/-- A cycle with a flush. -/
def System.flush (i : Inputs) (s : System) : System where
  lsq := (s.lsq.next i).cleared
  older := []
  mem := s.nextMem i
  request := (s.next i).request

/-- What is retired stays, and the memory has what is sent. -/
theorem sent_mem {s : System} {i : Inputs} {m : Mem} (h : Stq.Inv s.lsq.stq)
    (hmem : s.mem = programMem m (s.stores.take s.sent)) :
    s.nextMem i = programMem m ((s.lsq.next i).stq.log.stores.take (s.lsq.next i).stq.log.sent.length) := by
  have htake : ∀ {n : Nat}, n ≤ s.lsq.stq.log.retired → (s.lsq.next i).stq.log.stores.take n = s.stores.take n := by
    intro n hn
    apply List.ext_getElem?
    intro k
    by_cases hk : k < n
    · have hget := Stq.Log.next_get (stqIn i s.lsq.state) s.lsq.stq.stq s.lsq.stq.log h.retired_le k
      rw [if_pos (Nat.lt_of_lt_of_le hk hn)] at hget
      rw [List.getElem?_take_of_lt hk, List.getElem?_take_of_lt hk]
      exact hget
    · rw [List.getElem?_take_eq_none (Nat.le_of_not_lt hk), List.getElem?_take_eq_none (Nat.le_of_not_lt hk)]
  have hsl := h.sent_le
  have hsent : (s.lsq.next i).stq.log.sent.length =
      s.sent + (Stq.fireStAccept (stqIn i s.lsq.state) s.lsq.stq.stq).toNat :=
    Stq.Queue.next_sent s.lsq.stq (stqIn i s.lsq.state)
  rw [hsent, System.nextMem]
  cases hacc : Stq.fireStAccept (stqIn i s.lsq.state) s.lsq.stq.stq with
  | false =>
    rw [if_neg Bool.false_ne_true, hmem, htake (by simpa using hsl)]
    rfl
  | true =>
    obtain ⟨q, hq, hw⟩ := h.fire (Bool.and_eq_true_iff.1 hacc).1
    have hlt := h.accept_lt hacc
    have heff : writeBytes s.lsq.stq.stq.fireStAddr s.lsq.stq.stq.fireStData s.lsq.stq.stq.fireStDataSize =
        effect q := by rw [effect, hw]
    have hmap : (s.stores.map effect)[s.sent]? = some (effect q) := by
      rw [List.getElem?_map, show s.stores[s.sent]? = some q from hq]
      rfl
    rw [if_pos rfl, hmem, heff, Bool.toNat_true, htake (Nat.succ_le_of_lt hlt), programMem,
      programMem, List.map_take, List.map_take, applyAll_take_succ hmap]

namespace Right
variable {m : Mem} {s : System} {i : Inputs}

theorem flush_loads (s : System) (hf : i.pipeFlush = true) : (s.flush i).lsq.ldq.log = {} := by
  have hf' : (ldqIn i s.lsq.state).pipeFlush = true := hf
  show Ldq.Log.next _ _ _ = _
  rw [Ldq.Log.next, hf', if_pos rfl]

theorem flush_older (h : Right m s) (ok : Lsq.Ok i s.lsq) (hf : i.pipeFlush = true)
    (hquiet : Stq.dispatchCnt (stqIn i s.lsq.state) = 0) : Older (s.flush i) where
  unit := Config.cleared_inv (h.unit.next_flush ok hf)
  stale := fun _ => rfl
  vacant := h.unit.stq.next_vacant h.vacant ok.stq.toOkQueue fun _ => hquiet
  length := by
    rw [flush_loads s hf]
    rfl
  le := fun k n _ hn => by cases hn
  mask := fun k n j _ hn => by cases hn
  youngest := fun k n _ hn => by cases hn

/-- A store that is left is as it was, or executes in this cycle. -/
theorem flush_store (h : Right m s) (ok : Lsq.Ok i s.lsq) (hf : i.pipeFlush = true) {j : Nat} {q : Stq.Store}
    (hq : (s.flush i).stores[j]? = some q) : s.stores[j]? = some q ∨
      (executeStqValid i = true ∧ q.addr = some i.executePkt.result ∧
        q.data = some (i.executePkt.stData, i.executePkt.memSize)) := by
  rcases h.unit.stq.next_store ok.stq.toOkQueue j q hq with ⟨-, hold⟩ | ⟨-, -, q₀, hold, rfl⟩ | ⟨-, hno, -⟩
  · exact .inl hold
  · by_cases hhit : q₀.tag = i.executePkt.stqTag ∧ executeStqValid i = true
    · have hb : (q₀.tag == i.executePkt.stqTag && executeStqValid i) = true := by
        rw [Bool.and_eq_true, beq_iff_eq]
        exact hhit
      exact .inr ⟨hhit.2, if_pos hb, if_pos hb⟩
    · have hb : ¬ (q₀.tag == i.executePkt.stqTag && executeStqValid i) = true := by
        rw [Bool.and_eq_true, beq_iff_eq]
        exact hhit
      have hsame : q₀.execute (stqIn i s.lsq.state) = q₀ :=
        congr (congrArg (Stq.Store.mk q₀.tag) (if_neg hb)) (if_neg hb)
      rw [hsame]
      exact .inl hold
  · have hf' : (stqIn i s.lsq.state).pipeFlush = true := hf
    rw [hf'] at hno
    cases hno

theorem flush_accesses (h : Right m s) (ok : Lsq.Ok i s.lsq) (hf : i.pipeFlush = true)
    (haccess : executeStqValid i = true → Access i.executePkt.result i.executePkt.memSize) :
    Accesses m (s.flush i) where
  stores := by
    intro j q a d z hq hw
    rcases h.flush_store ok hf hq with hold | ⟨hx, h1, h2⟩
    · exact h.accesses.stores j q a d z hold hw
    · rw [Stq.Store.write, h1, h2, Option.some.injEq] at hw
      cases hw
      exact haccess hx
  both := by
    intro j q hq
    rcases h.flush_store ok hf hq with hold | ⟨-, h1, h2⟩
    · exact h.accesses.both j q hold
    · rw [h1, h2]
      rfl
  loads := by
    intro k r x hr
    rw [flush_loads s hf] at hr
    cases hr
  mem := sent_mem h.unit.stq h.accesses.mem

/-- **A flush leaves everything right**, if no store is dispatched in its cycle. -/
theorem flush (h : Right m s) (ok : Lsq.Ok i s.lsq) (hf : i.pipeFlush = true)
    (haccess : executeStqValid i = true → Access i.executePkt.result i.executePkt.memSize)
    (hquiet : Stq.dispatchCnt (stqIn i s.lsq.state) = 0) : Right m (s.flush i) where
  toOlder := h.flush_older ok hf hquiet
  accesses := h.flush_accesses ok hf haccess
  fireStage := fun hv => by
    have hf' : (ldqIn i s.lsq.state).pipeFlush = true := hf
    have hnone : (s.flush i).lsq.ldq.ldq.fireLdValid = false := by
      simp [System.flush, Config.cleared, Config.next, Ldq.Config.next, Ldq.next, hf']
    rw [hnone] at hv
    cases hv
  values := by
    have hnone : ∀ {k r n x}, ¬ (s.flush i).Load k r n x := fun hl => by cases hl.older
    exact ⟨fun hl => absurd hl hnone, fun hl => absurd hl hnone, fun hl => absurd hl hnone⟩

end Right

end R10K.Lsq
