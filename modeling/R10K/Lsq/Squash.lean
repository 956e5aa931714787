import R10K.Ldq.Queue
import R10K.Lsq.Cycle
import R10K.Stq.Drain
import R10K.Stq.Forward

/-! A squashed load completes nothing, as long as the data cache answers fresh requests.

An entry agrees with its load (`Agrees`), and an invalid entry is clear. The load in the
fire stage, the load that forwarding serves and a load with a request at the data cache
are in flight: their entries are valid and have their address, and the first and the last
have no datum yet. A load whose result was taken is settled: every store it waits for has
its address, so no store can make it fail any more. `fire_ld_kill` does not see a flush:
an answer to a request from before it finds the slot empty or with another load. -/
namespace R10K.Lsq
open Circular Lanes Ldq

/-- An entry agrees with the load it is for. -/
structure Agrees (e : LdqEntry) (r : Load) : Prop where
  addr : e.addrValid = r.exec.isSome
  exec : ∀ x, r.exec = some x →
    e.addr = x.addr ∧ e.dataSize = x.size ∧ e.destPrn = x.destPrn ∧ e.robTag = x.robTag
  data : e.dataValid = true → e.addrValid = true
  done : e.writebacked = r.done

/-- An entry without a load. -/
structure Clear (e : LdqEntry) : Prop where
  addr : e.addrValid = false
  fired : e.fired = false
  data : e.dataValid = false
  writebacked : e.writebacked = false
  mask : ∀ t, e.stMask t = false

/-- A store of the mask has its address. -/
def HasAddr (c : Config) (t : StqTag) : Prop :=
  (c.stq.stq.stqEntry t).addrValid = true ∧ (c.stq.stq.stqEntry t).entryValid = true

structure Inv (c : Config) : Prop where
  stq : Stq.Inv c.stq
  ldq : Queue c.ldq
  agrees : ∀ k (r : Load), c.ldq.log.retired ≤ k → c.ldq.log.loads[k]? = some r →
    Agrees (c.ldq.ldq.ldqEntry (Ptr.ofCount 4 k).idx) r
  clear : ∀ t, (c.ldq.ldq.ldqEntry t).entryValid = false → Clear (c.ldq.ldq.ldqEntry t)
  settled : ∀ t, (c.ldq.ldq.ldqEntry t).writebacked = true → (c.ldq.ldq.ldqEntry t).dataValid = true ∧
    ∀ u, (c.ldq.ldq.ldqEntry t).stMask u = true → HasAddr c u
  fire : c.ldq.ldq.fireLdValid = true →
    (c.ldq.ldq.ldqEntry c.ldq.ldq.fireLdLdqTag).entryValid = true ∧
    (c.ldq.ldq.ldqEntry c.ldq.ldq.fireLdLdqTag).addrValid = true ∧
    (c.ldq.ldq.ldqEntry c.ldq.ldq.fireLdLdqTag).fired = false ∧
    (c.ldq.ldq.ldqEntry c.ldq.ldq.fireLdLdqTag).dataValid = false
  fwd : (c.stq.stq.fwdValid || c.stq.stq.fwdSleep) = true →
    (c.ldq.ldq.ldqEntry c.stq.stq.fwdLdqTag).entryValid = true ∧
    (c.ldq.ldq.ldqEntry c.stq.stq.fwdLdqTag).addrValid = true
  pending : ∀ t, 0 < c.pending t → c.pending t = 1 ∧
    (c.ldq.ldq.ldqEntry t).entryValid = true ∧ (c.ldq.ldq.ldqEntry t).addrValid = true ∧
    (c.ldq.ldq.ldqEntry t).fired = true ∧ (c.ldq.ldq.ldqEntry t).dataValid = false

/-! ### What one cycle can do to a load -/

namespace Inv
variable {c : Config} {i : Inputs}

/-- A valid slot holds a load in flight. -/
theorem live_at (h : Inv c) {t : LdqTag} (hv : (c.ldq.ldq.ldqEntry t).entryValid = true) :
    ∃ k r, c.ldq.log.retired ≤ k ∧ c.ldq.log.loads[k]? = some r ∧ r ∈ c.ldq.log.live ∧
      t = (Ptr.ofCount 4 k).idx ∧ r.tag = t ∧ Agrees (c.ldq.ldq.ldqEntry t) r := by
  obtain ⟨k, hk, hlt, rfl⟩ := Ptr.idx_surj (w := 4) c.ldq.log.retired t
  by_cases hlive : k < c.ldq.log.loads.length
  · have hget := List.getElem?_eq_getElem hlive
    refine ⟨k, _, hk, hget, ?_, rfl, h.ldq.tag k _ hget, h.agrees k _ hk hget⟩
    have hdrop : c.ldq.log.live[k - c.ldq.log.retired]? = some c.ldq.log.loads[k] := by
      rw [Log.live, List.getElem?_drop, Nat.add_sub_cancel' hk, hget]
    exact List.mem_of_getElem? hdrop
  · rw [h.ldq.free k (Nat.le_of_not_lt hlive) hlt] at hv
    cases hv

/-- The executing store had no address before. -/
theorem store_once (h : Inv c) (ok : Ok i c) (hv : executeStqValid i = true) :
    (c.stq.stq.stqEntry i.executePkt.stqTag).addrValid = false := by
  obtain ⟨r, hr, ht, hnone⟩ := ok.stq.addr hv
  obtain ⟨m, hm, hget⟩ := List.getElem_of_mem hr
  simp only [Stq.Log.live, List.length_drop] at hm
  simp only [Stq.Log.live, List.getElem_drop] at hget
  have hk : c.stq.log.stores[c.stq.log.retired + m]? = some r := by
    rw [List.getElem?_eq_getElem (by omega), hget]
  have hsent := h.stq.sent_le
  have hholds := (h.stq.holds _ r (by omega) hk).addr.1
  rw [hnone] at hholds
  have htag : i.executePkt.stqTag = (Ptr.ofCount 4 (c.stq.log.retired + m)).idx :=
    ht.symm.trans (h.stq.tag _ r hk)
  rw [htag]
  exact hholds

/-- No store makes a load fail all of whose stores have their address. -/
theorem settled_safe (h : Inv c) (ok : Ok i c) {t : LdqTag}
    (hmask : ∀ u, (c.ldq.ldq.ldqEntry t).stMask u = true → HasAddr c u) :
    stLdViolation (ldqIn i c.state) c.ldq.ldq t = false := by
  cases hv : executeStqValid i with
  | false =>
    have hno : (ldqIn i c.state).executeStAddrValid = false := hv
    simp [stLdViolation, hno]
  | true =>
    cases hm : (c.ldq.ldq.ldqEntry t).stMask i.executePkt.stqTag with
    | false =>
      have hno : (c.ldq.ldq.ldqEntry t).stMask (ldqIn i c.state).executeStAddrStqTag = false := hm
      simp [stLdViolation, hno]
    | true =>
      have := (hmask _ hm).1
      rw [h.store_once ok hv] at this
      cases this

/-- The load an answer is for has its request at the data cache. -/
theorem answered (ok : Ok i c) (hfresh : Fresh i c) {t : LdqTag}
    (ha : dcacheDataAccept (ldqIn i c.state) c.ldq.ldq t = true) :
    t = i.dcacheLdqTag ∧ i.dcacheValid = true ∧ c.stale t = 0 ∧ 0 < c.pending t := by
  rw [dcacheDataAccept, Bool.and_eq_true, Bool.and_eq_true, beq_iff_eq] at ha
  obtain ⟨⟨ht, hv⟩, _⟩ := ha
  have ht' : t = i.dcacheLdqTag := ht
  have hst := hfresh hv
  have hans := ok.answer hv
  rw [hst, Nat.add_zero] at hans
  rw [ht']
  exact ⟨rfl, hv, hst, hans⟩

/-- A datum stands or comes in for a load in flight that has executed. -/
theorem served (h : Inv c) (ok : Ok i c) (hfresh : Fresh i c) {t : LdqTag}
    (hd : hasDatum (ldqIn i c.state) c.ldq.ldq t = true) :
    (c.ldq.ldq.ldqEntry t).entryValid = true ∧ (c.ldq.ldq.ldqEntry t).addrValid = true := by
  rw [hasDatum, Bool.or_eq_true, Bool.or_eq_true] at hd
  rcases hd with (hfwd | hans) | hdata
  · have ht : t = c.stq.stq.fwdLdqTag := (fwdDataAccept_iff.1 hfwd).1
    have hv : c.stq.stq.fwdValid = true := (fwdDataAccept_iff.1 hfwd).2.1
    rw [ht]
    exact h.fwd (by rw [hv, Bool.true_or])
  · have hp := (h.pending t (answered ok hfresh hans).2.2.2).2
    exact ⟨hp.1, hp.2.1⟩
  · have hv : (c.ldq.ldq.ldqEntry t).entryValid = true := by
      by_contra hno
      rw [(h.clear t (Bool.eq_false_iff.2 hno)).data] at hdata
      cases hdata
    obtain ⟨k, r, _, _, _, _, _, hag⟩ := h.live_at hv
    exact ⟨hv, hag.data hdata⟩

/-- A load that retires was broadcast. -/
theorem retires_written (h : Inv c) (ok : Ok i c) {t : LdqTag}
    (hr : retires (ldqIn i c.state) t = true) : (c.ldq.ldq.ldqEntry t).writebacked = true := by
  obtain ⟨l, _, hl⟩ := List.any_eq_true.1 hr
  rw [Bool.and_eq_true, beq_iff_eq] at hl
  obtain ⟨j, hj⟩ := List.getElem?_of_mem (mem_group.2 hl.2)
  obtain ⟨r, hget, htag⟩ := ok.ldq.retire j l hj
  have hdone := ok.ldq.done j l r hj hget
  rw [Log.live, List.getElem?_drop] at hget
  have hag := h.agrees _ r (Nat.le_add_right _ _) hget
  have ht : t = (Ptr.ofCount 4 (c.ldq.log.retired + j)).idx := (hl.1.trans htag).trans (h.ldq.tag _ r hget)
  rw [ht]
  exact hag.done.trans hdone

/-- A load that retires has its result, so it is neither fired again nor served. -/
theorem retires_done (h : Inv c) (ok : Ok i c) {t : LdqTag}
    (hr : retires (ldqIn i c.state) t = true) : (c.ldq.ldq.ldqEntry t).dataValid = true :=
  (h.settled t (h.retires_written ok hr)).1

/-- A load executes in a valid slot. -/
theorem exec_valid (h : Inv c) (ok : Ok i c) (hv : executeLdqValid i = true) :
    (c.ldq.ldq.ldqEntry i.executePkt.ldqTag).entryValid = true := by
  obtain ⟨r, hr, ht, _⟩ := ok.ldq.execute hv
  obtain ⟨k, hk, hget, htag⟩ := h.ldq.live_slot hr
  have ht' : i.executePkt.ldqTag = (Ptr.ofCount 4 k).idx := ht.symm.trans htag
  rw [ht']
  exact h.ldq.slot k hk (List.getElem?_eq_some_iff.1 hget).1

/-- Allocation goes to invalid slots. -/
theorem allocate_valid (h : Inv c) (ok : Ok i c) {t : LdqTag}
    (hv : (c.ldq.ldq.ldqEntry t).entryValid = true) (e : LdqEntry) :
    allocate (ldqIn i c.state) c.ldq.ldq t e = e := by
  obtain ⟨k, r, hk, hget, _, rfl, _⟩ := h.live_at hv
  have hlt := (List.getElem?_eq_some_iff.1 hget).1
  have hroom := h.ldq.room
  exact h.ldq.allocate_none ok.ldq.toOkQueue k ⟨hk, by omega⟩ (.inl hlt) e

/-! ### A cycle without a flush -/

section Cycle
variable {taken : LdqTag → Bool} {c' : Config}

/-- A valid slot that does not retire stays valid. -/
theorem next_valid (h : Inv c) (ok : Ok i c) (e : Cycle taken i c c') {t : LdqTag}
    (hv : (c.ldq.ldq.ldqEntry t).entryValid = true) (hr : retires (ldqIn i c.state) t = false) :
    (c'.ldq.ldq.ldqEntry t).entryValid = true := by
  rw [e.ldq.entryValid, hr, h.allocate_valid ok hv, hv]
  rfl

/-- Nothing but allocation reaches an invalid slot. -/
theorem next_clear (h : Inv c) (ok : Ok i c) (hfresh : Fresh i c) (e : Cycle taken i c c') {t : LdqTag}
    (hv : (c.ldq.ldq.ldqEntry t).entryValid = false) :
    (c'.ldq.ldq.ldqEntry t).addrValid = false ∧ (c'.ldq.ldq.ldqEntry t).fired = false ∧
      (c'.ldq.ldq.ldqEntry t).dataValid = false ∧ (c'.ldq.ldq.ldqEntry t).writebacked = false := by
  have hclear := h.clear t hv
  have hne : ∀ u, (c.ldq.ldq.ldqEntry u).entryValid = true → t ≠ u := by
    rintro u hu rfl
    rw [hv] at hu
    cases hu
  have hexec : (t == (ldqIn i c.state).executeLdLdqTag && (ldqIn i c.state).executeLdValid) = false := by
    cases hx : (ldqIn i c.state).executeLdValid with
    | false => rw [Bool.and_false]
    | true =>
      rw [Bool.and_true, beq_eq_false_iff_ne]
      exact hne _ (h.exec_valid ok hx)
  have hfire : (t == c.ldq.ldq.fireLdLdqTag && fireLdAccept (ldqIn i c.state) c.ldq.ldq) = false := by
    cases hx : fireLdAccept (ldqIn i c.state) c.ldq.ldq with
    | false => rw [Bool.and_false]
    | true =>
      rw [Bool.and_true, beq_eq_false_iff_ne]
      exact hne _ (h.fire (Bool.and_eq_true_iff.1 hx).1).1
  have hdatum : hasDatum (ldqIn i c.state) c.ldq.ldq t = false := by
    rw [← Bool.not_eq_true]
    intro hx
    exact hne t (h.served ok hfresh hx).1 rfl
  have htaken : taken t = false := by
    rw [← Bool.not_eq_true]
    intro hx
    rw [e.ldq.datum t hx] at hdatum
    cases hdatum
  rw [e.ldq.addrValid, e.ldq.fired, e.ldq.dataValid, e.ldq.writebacked, hexec, hfire, hdatum, htaken,
    hclear.addr, hclear.fired, hclear.writebacked]
  simp

/-- A load in flight agrees with its entry after the cycle. -/
theorem next_agrees_live (h : Inv c) (ok : Ok i c) (hfresh : Fresh i c) (e : Cycle taken i c c') {k : Nat}
    {r : Load} (hk : c.ldq.log.retired + retireCnt (ldqIn i c.state) ≤ k)
    (hr : c.ldq.log.loads[k]? = some r) :
    Agrees (c'.ldq.ldq.ldqEntry (Ptr.ofCount 4 k).idx) (r.stepWith taken (ldqIn i c.state)) := by
  have hag := h.agrees k r (by omega) hr
  have hlt := (List.getElem?_eq_some_iff.1 hr).1
  have hroom := h.ldq.room
  have htag := h.ldq.tag k r hr
  have hret : retires (ldqIn i c.state) (Ptr.ofCount 4 k).idx = false := by
    rw [h.ldq.retires_eq ok.ldq.toOkQueue k (by omega), decide_eq_false (by omega)]
  refine ⟨?_, ?_, ?_, ?_⟩
  · rw [e.ldq.addrValid, hret, Bool.not_false, Bool.true_and, hag.addr, Load.stepWith, htag]
    cases (Ptr.ofCount 4 k).idx == (ldqIn i c.state).executeLdLdqTag && (ldqIn i c.state).executeLdValid <;> simp
  · intro x hx
    obtain ⟨h1, h2, h3, h4⟩ := e.ldq.exec (Ptr.ofCount 4 k).idx
    rw [h1, h2, h3, h4]
    rw [Load.stepWith, htag] at hx
    cases hhit : (Ptr.ofCount 4 k).idx == (ldqIn i c.state).executeLdLdqTag &&
        (ldqIn i c.state).executeLdValid with
    | true =>
      rw [hhit] at hx
      cases hx
      exact ⟨rfl, rfl, rfl, rfl⟩
    | false =>
      rw [hhit] at hx
      exact hag.exec x hx
  · intro hd
    rw [e.ldq.dataValid, hret, Bool.not_false, Bool.true_and, Bool.and_eq_true] at hd
    rw [e.ldq.addrValid, hret, Bool.not_false, Bool.true_and, (h.served ok hfresh hd.2).2, Bool.or_true]
  · rw [e.ldq.writebacked, hret, Bool.not_false, Bool.true_and, hag.done, Load.stepWith, htag, Bool.or_comm]

theorem next_agrees (h : Inv c) (ok : Ok i c) (hfresh : Fresh i c) (e : Cycle taken i c c') (k : Nat)
    (r : Load) (hk : c'.ldq.log.retired ≤ k) (hr : c'.ldq.log.loads[k]? = some r) :
    Agrees (c'.ldq.ldq.ldqEntry (Ptr.ofCount 4 k).idx) r := by
  have hdl := e.ldq.loads_length h.ldq.le
  have hdis := h.ldq.dispatch_le ok.ldq.toOkQueue
  rw [e.ldq.retired h.ldq.le] at hk
  have hkt := (List.getElem?_eq_some_iff.1 hr).1
  rcases e.ldq.load h.ldq.le hr with ⟨hlt, _⟩ | ⟨_, r₀, h₀, rfl⟩ | ⟨hge, l, _, rfl⟩
  · omega
  · exact h.next_agrees_live ok hfresh e hk h₀
  · obtain ⟨h1, h2, h3, h4⟩ := h.next_clear ok hfresh e (h.ldq.free k hge (by omega))
    exact ⟨h1, fun _ hx => (nomatch hx), fun hd => absurd (h3.symm.trans hd) Bool.false_ne_true, h4⟩

theorem next_clears (h : Inv c) (ok : Ok i c) (hfresh : Fresh i c) (e : Cycle taken i c c') (t : LdqTag)
    (hv : (c'.ldq.ldq.ldqEntry t).entryValid = false) : Clear (c'.ldq.ldq.ldqEntry t) := by
  cases hret : retires (ldqIn i c.state) t with
  | true =>
    refine ⟨?_, ?_, ?_, ?_, fun u => ?_⟩
    · rw [e.ldq.addrValid, hret]
      rfl
    · rw [e.ldq.fired, hret]
      rfl
    · rw [e.ldq.dataValid, hret]
      rfl
    · rw [e.ldq.writebacked, hret]
      rfl
    · rw [e.ldq.stMask, hret]
      rfl
  | false =>
    rw [e.ldq.entryValid, hret, Bool.not_false, Bool.true_and] at hv
    have hsame : allocate (ldqIn i c.state) c.ldq.ldq t (c.ldq.ldq.ldqEntry t) = c.ldq.ldq.ldqEntry t := by
      unfold allocate at hv ⊢
      split
      · rename_i hfind
        rw [hfind] at hv
        cases hv
      · rfl
    rw [hsame] at hv
    obtain ⟨h1, h2, h3, h4⟩ := h.next_clear ok hfresh e hv
    refine ⟨h1, h2, h3, h4, fun u => ?_⟩
    rw [e.ldq.stMask, hsame, (h.clear t hv).mask, Bool.and_false]

/-- The stores a load in flight waits for keep their addresses. -/
theorem next_hasAddr (h : Inv c) (ok : Ok i c) (e : Cycle taken i c c') {t : LdqTag}
    (hv : (c.ldq.ldq.ldqEntry t).entryValid = true)
    (hm : ∀ u, (c.ldq.ldq.ldqEntry t).stMask u = true → HasAddr c u) (u : StqTag)
    (hu : (c'.ldq.ldq.ldqEntry t).stMask u = true) : HasAddr c' u := by
  rw [e.ldq.stMask, h.allocate_valid ok hv, Bool.and_eq_true, Bool.and_eq_true, Bool.not_eq_true'] at hu
  obtain ⟨⟨_, hkeep⟩, hu⟩ := hu
  rw [HasAddr, e.stq]
  refine Stq.nextEntry_addr (i := stqIn i c.state) e.ldq.noFlush (hm u hu).1 (hm u hu).2 ?_
  -- the head leaves its slot in the cycle that takes it out of the masks
  cases hacc : Stq.fireStAccept (stqIn i c.state) c.stq.stq with
  | false => rw [Bool.and_false]
  | true =>
    have hacc' : Ldq.fireStAccept (ldqIn i c.state) = true := hacc
    have hreq := (h.stq.request (Bool.and_eq_true_iff.1 hacc).1).2
    rw [hacc', Bool.true_and, Bool.not_eq_true'] at hkeep
    rw [Bool.and_true, ← hreq]
    exact hkeep

/-- A load whose result was taken keeps it, and its stores keep their addresses. -/
theorem next_settled (h : Inv c) (ok : Ok i c) (hfresh : Fresh i c) (e : Cycle taken i c c') (t : LdqTag)
    (hw : (c'.ldq.ldq.ldqEntry t).writebacked = true) : (c'.ldq.ldq.ldqEntry t).dataValid = true ∧
      ∀ u, (c'.ldq.ldq.ldqEntry t).stMask u = true → HasAddr c' u := by
  rw [e.ldq.writebacked, Bool.and_eq_true, Bool.not_eq_true', Bool.or_eq_true] at hw
  obtain ⟨hret, hdone⟩ := hw
  -- the load had a datum or gets one, and waited for no address
  have hnow : hasDatum (ldqIn i c.state) c.ldq.ldq t = true ∧
      ∀ u, (c.ldq.ldq.ldqEntry t).stMask u = true → HasAddr c u := by
    rcases hdone with htaken | hold
    · exact ⟨e.ldq.datum t htaken, fun u hu => Bool.and_eq_true_iff.1 (e.ldq.waits t htaken u hu)⟩
    · obtain ⟨hd, hm⟩ := h.settled t hold
      exact ⟨by rw [hasDatum, hd, Bool.or_true], hm⟩
  obtain ⟨hdatum, hm⟩ := hnow
  refine ⟨?_, h.next_hasAddr ok e (h.served ok hfresh hdatum).1 hm⟩
  rw [e.ldq.dataValid, hret, h.settled_safe ok hm, hdatum]
  rfl

/-- The load that enters the fire stage is in flight and has no datum. -/
theorem next_fire (h : Inv c) (ok : Ok i c) (hfresh : Fresh i c) (e : Cycle taken i c c')
    (hv : c'.ldq.ldq.fireLdValid = true) :
    (c'.ldq.ldq.ldqEntry c'.ldq.ldq.fireLdLdqTag).entryValid = true ∧
    (c'.ldq.ldq.ldqEntry c'.ldq.ldq.fireLdLdqTag).addrValid = true ∧
    (c'.ldq.ldq.ldqEntry c'.ldq.ldq.fireLdLdqTag).fired = false ∧
    (c'.ldq.ldq.ldqEntry c'.ldq.ldq.fireLdLdqTag).dataValid = false := by
  have hwake := (e.ldq.fire hv).wakeup
  generalize c'.ldq.ldq.fireLdLdqTag = t at hwake ⊢
  simp only [ldWakeup, Bool.and_eq_true, Bool.not_eq_true', Bool.or_eq_false_iff] at hwake
  obtain ⟨⟨⟨⟨haddr, hdata⟩, _⟩, hfired, haccept⟩, hserved⟩ := hwake
  have hvalid : (c.ldq.ldq.ldqEntry t).entryValid = true := by
    rcases Bool.or_eq_true_iff.1 haddr with ha | hx
    · by_contra hno
      rw [(h.clear t (Bool.eq_false_iff.2 hno)).addr] at ha
      cases ha
    · rw [Bool.and_eq_true, beq_iff_eq] at hx
      rw [hx.2]
      exact h.exec_valid ok hx.1
  have hret : retires (ldqIn i c.state) t = false := by
    rw [← Bool.not_eq_true]
    intro hr
    rw [h.retires_done ok hr] at hdata
    cases hdata
  have hans : dcacheDataAccept (ldqIn i c.state) c.ldq.ldq t = false := by
    rw [← Bool.not_eq_true]
    intro hx
    rw [(h.pending t (answered ok hfresh hx).2.2.2).2.2.2.1] at hfired
    cases hfired
  have hfwd : fwdDataAccept (ldqIn i c.state) c.ldq.ldq t = false := by
    rw [fwdDataAccept, Bool.and_comm (t == _)]
    exact hserved
  refine ⟨h.next_valid ok e hvalid hret, ?_, ?_, ?_⟩
  · rw [e.ldq.addrValid, hret, Bool.or_comm, Bool.and_comm (t == _), haddr]
    rfl
  · rw [e.ldq.fired, Bool.and_comm (t == _), haccept, hfired, if_neg Bool.false_ne_true, Bool.and_false,
      Bool.and_false]
  · rw [e.ldq.dataValid, hasDatum, hfwd, hans, hdata, Bool.or_false, Bool.or_false, Bool.and_false]

/-- The load in the fire stage does not retire, and has its address after the cycle. -/
theorem fire_stays (h : Inv c) (ok : Ok i c) (e : Cycle taken i c c') (hv : c.ldq.ldq.fireLdValid = true) :
    retires (ldqIn i c.state) c.ldq.ldq.fireLdLdqTag = false ∧
    (c'.ldq.ldq.ldqEntry c.ldq.ldq.fireLdLdqTag).entryValid = true ∧
    (c'.ldq.ldq.ldqEntry c.ldq.ldq.fireLdLdqTag).addrValid = true := by
  obtain ⟨hvalid, haddr, _, hdata⟩ := h.fire hv
  have hret : retires (ldqIn i c.state) c.ldq.ldq.fireLdLdqTag = false := by
    rw [← Bool.not_eq_true]
    intro hr
    rw [h.retires_done ok hr] at hdata
    cases hdata
  refine ⟨hret, h.next_valid ok e hvalid hret, ?_⟩
  rw [e.ldq.addrValid, hret, haddr, Bool.or_true]
  rfl

/-- A request that stands after the cycle was not killed in it. -/
theorem pending_unkilled {t : LdqTag} (hp : 0 < Config.pendingNext i c t) :
    fireLdKill (ldqIn i c.state) c.ldq.ldq t = false := by
  rw [← Bool.not_eq_true]
  intro hk
  have hk' : Config.kills i c t = true := hk
  rw [Config.pendingNext, if_pos hk'] at hp
  exact absurd hp (Nat.lt_irrefl 0)

/-- A request that stands after the cycle stood before it, or is taken in it. -/
theorem pending_cases {t : LdqTag} (hp : 0 < Config.pendingNext i c t) :
    0 < c.pending t ∨ Config.accepts i c t = true := by
  by_cases h0 : 0 < c.pending t
  · exact .inl h0
  · right
    have hkill : Config.kills i c t = false := pending_unkilled hp
    by_contra hno
    rw [Config.pendingNext, hkill, if_neg Bool.false_ne_true, Bool.eq_false_iff.2 hno, Bool.toNat_false] at hp
    omega

/-- What the data cache takes is the load in the fire stage. -/
theorem accepts_fire {t : LdqTag} (ha : Config.accepts i c t = true) :
    c.ldq.ldq.fireLdValid = true ∧ c.ldq.ldq.fireLdLdqTag = t := by
  rw [Config.accepts, Bool.and_eq_true, beq_iff_eq] at ha
  exact ⟨(Bool.and_eq_true_iff.1 ha.1).1, ha.2.symm⟩

/-- A load at the data cache is not taken again. -/
theorem pending_refuses (h : Inv c) {t : LdqTag} (hp : 0 < c.pending t) : Config.accepts i c t = false := by
  rw [← Bool.not_eq_true]
  intro ha
  obtain ⟨hv, ht⟩ := accepts_fire ha
  have hfired := (h.fire hv).2.2.1
  rw [ht, (h.pending t hp).2.2.2.1] at hfired
  cases hfired

/-- What a request that stands after the cycle is for, in the cycle. -/
structure Requested (i : Inputs) (c : Config) (t : LdqTag) : Prop where
  valid : (c.ldq.ldq.ldqEntry t).entryValid = true
  addr : (c.ldq.ldq.ldqEntry t).addrValid = true
  data : (c.ldq.ldq.ldqEntry t).dataValid = false
  answers : Config.answers i t = false
  one : c.pending t + (Config.accepts i c t).toNat = 1
  fired : (c.ldq.ldq.ldqEntry t).fired = true ∨ Config.accepts i c t = true

/-- A request that stands after the cycle was at the cache, or is accepted now; its load was in
flight with no datum. -/
theorem requested (h : Inv c) (ok : Ok i c) (hfresh : Fresh i c) {t : LdqTag}
    (hp : 0 < Config.pendingNext i c t) : Requested i c t := by
  have hkill : Config.kills i c t = false := pending_unkilled hp
  have hacc' := pending_cases hp
  rw [Config.pendingNext, hkill, if_neg Bool.false_ne_true] at hp
  by_cases h0 : 0 < c.pending t
  · obtain ⟨h1, hv, ha, hfd, hd⟩ := h.pending t h0
    have hacc := h.pending_refuses (i := i) h0
    refine ⟨hv, ha, hd, ?_, by rw [h1, hacc]; rfl, .inl hfd⟩
    rw [← Bool.not_eq_true]
    intro hx
    have hst : c.stale t = 0 := by
      rw [Config.answers, Bool.and_eq_true, beq_iff_eq] at hx
      rw [hx.2]
      exact hfresh hx.1
    rw [h1, hacc, hx, hst] at hp
    exact absurd hp (by decide)
  · have hacc := hacc'.resolve_left h0
    obtain ⟨hfire, htag⟩ := accepts_fire hacc
    obtain ⟨hv, ha, _, hd⟩ := h.fire hfire
    rw [htag] at hv ha hd
    refine ⟨hv, ha, hd, ?_, by rw [hacc, Bool.toNat_true]; omega, .inr hacc⟩
    rw [← Bool.not_eq_true]
    intro hy
    rw [Config.answers, Bool.and_eq_true, beq_iff_eq] at hy
    have hst := hfresh hy.1
    have := ok.answer hy.1
    rw [hst, ← hy.2] at this
    omega

namespace Requested
variable {t : LdqTag}

/-- The load does not fail, since a failing load without a datum is killed. -/
theorem unfailed (hr : Requested i c t) (hkill : fireLdKill (ldqIn i c.state) c.ldq.ldq t = false) :
    stLdViolation (ldqIn i c.state) c.ldq.ldq t = false := by
  rw [fireLdKill, hr.data, Bool.or_eq_false_iff, Bool.not_false, Bool.and_true] at hkill
  exact hkill.2

/-- The load has fired after the cycle. -/
theorem next_fired (hr : Requested i c t) (hkill : fireLdKill (ldqIn i c.state) c.ldq.ldq t = false)
    (hret : retires (ldqIn i c.state) t = false) (e : Cycle taken i c c') :
    (c'.ldq.ldq.ldqEntry t).fired = true := by
  rw [e.ldq.fired, hret, hr.unfailed hkill, Bool.not_false, Bool.true_and, Bool.true_and]
  split
  · rw [hkill]
    rfl
  · rename_i hno
    rcases hr.fired with hold | hacc
    · rw [hold, Bool.and_true]
      rw [fireLdKill, Bool.or_eq_false_iff, Bool.and_eq_false_iff, Bool.or_eq_false_iff] at hkill
      rcases hkill.1 with hx | hx
      · rw [hx]
        rfl
      · rw [hx.2, Bool.and_false]
        rfl
    · rw [Config.accepts, Bool.and_comm] at hacc
      exact absurd hacc hno

/-- No datum comes in for the load. -/
theorem next_dataValid (hr : Requested i c t) (hkill : fireLdKill (ldqIn i c.state) c.ldq.ldq t = false)
    (e : Cycle taken i c c') : (c'.ldq.ldq.ldqEntry t).dataValid = false := by
  have hfwd : fwdDataAccept (ldqIn i c.state) c.ldq.ldq t = false := by
    rw [fireLdKill, Bool.or_eq_false_iff, Bool.and_eq_false_iff, Bool.or_eq_false_iff] at hkill
    rw [fwdDataAccept]
    rcases hkill.1 with hx | hx
    · rw [hx]
      rfl
    · rw [hx.1, Bool.and_false]
      rfl
  have hans : dcacheDataAccept (ldqIn i c.state) c.ldq.ldq t = false := by
    have hno := hr.answers
    rw [Config.answers, Bool.and_comm] at hno
    have hno' : (t == (ldqIn i c.state).dcacheLdqTag && (ldqIn i c.state).dcacheValid) = false := hno
    rw [dcacheDataAccept, hno']
    rfl
  rw [e.ldq.dataValid, hasDatum, hfwd, hans, hr.data, Bool.or_false, Bool.or_false, Bool.and_false]

end Requested

/-- A request that stands after the cycle is its load's only one, and stands for it. -/
theorem next_pending (h : Inv c) (ok : Ok i c) (hfresh : Fresh i c) (e : Cycle taken i c c') (t : LdqTag)
    (hp : 0 < Config.pendingNext i c t) : Config.pendingNext i c t = 1 ∧
      (c'.ldq.ldq.ldqEntry t).entryValid = true ∧ (c'.ldq.ldq.ldqEntry t).addrValid = true ∧
      (c'.ldq.ldq.ldqEntry t).fired = true ∧ (c'.ldq.ldq.ldqEntry t).dataValid = false := by
  have hr := h.requested ok hfresh hp
  have hkill := pending_unkilled hp
  have hret : retires (ldqIn i c.state) t = false := by
    rw [← Bool.not_eq_true]
    intro hx
    exact Bool.false_ne_true (hr.data.symm.trans (h.retires_done ok hx))
  refine ⟨?_, h.next_valid ok e hr.valid hret, ?_, hr.next_fired hkill hret e, hr.next_dataValid hkill e⟩
  · rw [Config.pendingNext, show Config.kills i c t = false from hkill, if_neg Bool.false_ne_true, hr.one, hr.answers]
    rfl
  · rw [e.ldq.addrValid, hret, hr.addr, Bool.or_true]
    rfl

/-- **A cycle without a flush keeps the invariant**, whatever it wakes and takes. -/
theorem cycle (h : Inv c) (ok : Ok i c) (hfresh : Fresh i c) (e : Cycle taken i c c') : Inv c' where
  stq := by
    rw [e.stq]
    exact h.stq.next ok.stq
  ldq := h.ldq.cycle ok.ldq.toOkQueue e.ldq
  agrees := h.next_agrees ok hfresh e
  clear := h.next_clears ok hfresh e
  settled := h.next_settled ok hfresh e
  fire := h.next_fire ok hfresh e
  fwd := by
    intro hv
    rw [e.stq] at hv
    obtain ⟨_, hfire⟩ := Stq.next_fwd (i := stqIn i c.state) hv
    rw [e.fwdLdqTag]
    exact (h.fire_stays ok e hfire).2
  pending := by
    intro t hp
    rw [e.pending] at hp ⊢
    exact h.next_pending ok hfresh e t hp

end Cycle

/-! ### Runs -/

theorem next_noFlush (h : Inv c) (ok : Ok i c) (hfresh : Fresh i c) (hf : i.pipeFlush = false) :
    Inv (c.next i) :=
  h.cycle ok hfresh (cycle_next c hf)

theorem next_flush (h : Inv c) (ok : Ok i c) (hf : i.pipeFlush = true) : Inv (c.next i) := by
  have hf' : (ldqIn i c.state).pipeFlush = true := hf
  refine ⟨h.stq.next ok.stq, h.ldq.next ok.ldq.toOkQueue, ?_, ?_, ?_, ?_, ?_, ?_⟩
  · intro k r _ hr
    simp only [Config.next, Ldq.Config.next, Log.next, hf', if_true] at hr
    cases hr
  · intro t _
    rw [flush_entry c hf]
    exact ⟨rfl, rfl, rfl, rfl, fun _ => rfl⟩
  · intro t hw
    rw [flush_entry c hf] at hw
    cases hw
  · intro hv
    simp [Config.next, Ldq.Config.next, Ldq.next, hf'] at hv
  · intro hv
    have := (Stq.next_fwd (i := stqIn i c.state) hv).1
    have hf'' : (stqIn i c.state).pipeFlush = true := hf
    rw [this] at hf''
    cases hf''
  · intro t hp
    simp only [Config.next, hf, if_true] at hp
    exact absurd hp (Nat.lt_irrefl 0)

/-- **One edge keeps the invariant**, if its answer is fresh. -/
theorem next (h : Inv c) (ok : Ok i c) (hfresh : Fresh i c) : Inv (c.next i) := by
  cases hf : i.pipeFlush
  · exact h.next_noFlush ok hfresh hf
  · exact h.next_flush ok hf

theorem init : Inv Config.init where
  stq := Stq.Inv.init
  ldq := Queue.init
  agrees := fun k r _ hr => by cases hr
  clear := fun _ _ => ⟨rfl, rfl, rfl, rfl, fun _ => rfl⟩
  settled := fun _ hw => by cases hw
  fire := fun hv => by cases hv
  fwd := fun hv => by cases hv
  pending := fun _ hp => absurd hp (Nat.lt_irrefl 0)

theorem of_reach {c : Config} (h : ReachFresh c) : Inv c :=
  Run.Reach.invariant Inv init (fun _ _ hi ok => hi.next ok.1 ok.2) h

end Inv

/-! ### The result -/

/-- What the load queue completes in a cycle belongs to loads in flight. The log holds the
loads dispatched since the last flush, so its live ones are in flight. -/
structure Completes (i : Inputs) (c : Config) : Prop where
  /-- A datum taken from the cache goes to a valid entry that has fired. -/
  accept : ∀ t, dcacheDataAccept (ldqIn i c.state) c.ldq.ldq t = true →
    (c.ldq.ldq.ldqEntry t).entryValid = true ∧ (c.ldq.ldq.ldqEntry t).fired = true
  /-- A result is offered for a valid entry. -/
  valid : writebackValid (ldqIn i c.state) c.ldq.ldq = true →
    (c.ldq.ldq.ldqEntry (writebackLdqIdx (ldqIn i c.state) c.ldq.ldq)).entryValid = true
  /-- The result is broadcast under the tag and register of the load in that slot. -/
  inFlight : writebackValid (ldqIn i c.state) c.ldq.ldq = true →
    ∃ r ∈ c.ldq.log.live, ∃ x, r.exec = some x ∧
      r.tag = writebackLdqIdx (ldqIn i c.state) c.ldq.ldq ∧
      x.robTag = writebackRobTag (ldqIn i c.state) c.ldq.ldq ∧
      x.destPrn = writebackDestPrn (ldqIn i c.state) c.ldq.ldq

/-- **A squashed load completes nothing** in a run whose answers are all fresh. -/
theorem squashed_silent {c : Config} (h : ReachFresh c) (i : Inputs) (ok : Ok i c) (hfresh : Fresh i c) :
    Completes i c := by
  have hi := Inv.of_reach h
  refine ⟨fun t ht => ?_, fun hv => ?_, fun hv => ?_⟩
  · obtain ⟨_, hvalid, _, hfired, _⟩ := hi.pending t (Inv.answered ok hfresh ht).2.2.2
    exact ⟨hvalid, hfired⟩
  · exact (hi.served ok hfresh (hasDatum_of_writeback (writeback_slot hv))).1
  · obtain ⟨hvalid, haddr⟩ := hi.served ok hfresh (hasDatum_of_writeback (writeback_slot hv))
    obtain ⟨k, r, _, _, hlive, _, htag, hag⟩ := hi.live_at hvalid
    rw [hag.addr, Option.isSome_iff_exists] at haddr
    obtain ⟨x, hx⟩ := haddr
    obtain ⟨_, _, hprn, hrob⟩ := hag.exec x hx
    exact ⟨r, hlive, x, hx, htag, hrob.symm, hprn.symm⟩

/-! ### A load outstanding at a flush -/

/-- A cycle in which nothing comes in. -/
def idle : Inputs where
  pipeFlush := false
  dispatchPkt := fun _ => {}
  executePkt := {}
  retirePkt := fun _ => {}
  fireStReady := false
  fireLdReady := false
  dcacheData := 0
  dcacheLdqTag := 0
  dcacheValid := false
  writebackReady := false

/-- One load: dispatched, executed, accepted by the data cache, and answered. -/
def loadIn : Inputs :=
  { idle with dispatchPkt := fun l => { rdMem := true, packetValid := decide (l = 0) } }
def loadOut : Inputs :=
  { idle with executePkt := { result := 0x100, rdMem := true, memSize := 2, packetValid := true } }
def loadFire : Inputs := { idle with fireLdReady := true }
def loadAnswer : Inputs := { idle with dcacheData := 7, dcacheValid := true, writebackReady := true }
def flushIn : Inputs := { idle with pipeFlush := true }

/-- The load is at the data cache. -/
def fired : Config := ((Config.init.next loadIn).next loadOut).next loadFire

/-- A cycle without retirement keeps the rules if its dispatch and execution do. -/
theorem ok_of {i : Inputs} {c : Config} (hret : ∀ l, (i.retirePkt l).packetValid = false)
    (hst : executeStqValid i = true → ∃ r ∈ c.stq.log.live, r.tag = i.executePkt.stqTag ∧ r.addr = none ∧
      r.data = none)
    (hstq : 0 < Stq.dispatchCnt (stqIn i c.state) → c.stq.ready = true)
    (hldq : 0 < dispatchCnt (ldqIn i c.state) → c.ldq.ready = true)
    (hex : executeLdqValid i = true → ∃ r ∈ c.ldq.log.live, r.tag = i.executePkt.ldqTag ∧ r.exec = none)
    (hans : i.dcacheValid = true → 0 < c.pending i.dcacheLdqTag + c.stale i.dcacheLdqTag) : Ok i c := by
  have h1 : group (Stq.retiresStore (stqIn i c.state)) = [] := List.filter_eq_nil_iff.2 fun l _ => by
    have : (i.retirePkt l).packetValid = false := hret l
    simp [Stq.retiresStore, stqIn, this]
  have h2 : group (retiresLoad (ldqIn i c.state)) = [] := List.filter_eq_nil_iff.2 fun l _ => by
    have : (i.retirePkt l).packetValid = false := hret l
    simp [retiresLoad, ldqIn, this]
  refine ⟨⟨⟨hstq, fun j l hl => ?_⟩, fun hv => ?_, fun hv => ?_, fun j l r hl => ?_⟩,
    ⟨⟨hldq, fun j l hl => ?_⟩, hex, fun j l r hl => ?_⟩, hans⟩
  · rw [h1] at hl
    cases hl
  · obtain ⟨r, hr, ht, ha, _⟩ := hst hv
    exact ⟨r, hr, ht, ha⟩
  · obtain ⟨r, hr, ht, _, hd⟩ := hst hv
    exact ⟨r, hr, ht, hd⟩
  · rw [h1] at hl
    cases hl
  · rw [h2] at hl
    cases hl
  · rw [h2] at hl
    cases hl

theorem fired_reach : ReachFresh fired := by
  have h1 : Ok loadIn Config.init := ok_of (fun _ => rfl) (by decide) (by decide) (by decide) (by decide) (by decide)
  have h2 : Ok loadOut (Config.init.next loadIn) :=
    ok_of (fun _ => rfl) (by decide) (by decide) (by decide) (by decide) (by decide)
  have h3 : Ok loadFire ((Config.init.next loadIn).next loadOut) :=
    ok_of (fun _ => rfl) (by decide) (by decide) (by decide) (by decide) (by decide)
  exact .step loadFire (.step loadOut (.step loadIn .init ⟨h1, nofun⟩) ⟨h2, nofun⟩) ⟨h3, nofun⟩

theorem answer_ok : Ok loadAnswer fired :=
  ok_of (fun _ => rfl) (by decide) (by decide) (by decide) (by decide) (by decide)

/-- A flush squashes an executed load before the data cache has it; the slot goes to a new load. -/
def refired : Config :=
  (((((Config.init.next loadIn).next loadOut).next flushIn).next loadIn).next loadOut).next loadFire

theorem refired_reach : ReachFresh refired := by
  refine .step loadFire (.step loadOut (.step loadIn (.step flushIn (.step loadOut (.step loadIn .init
    ⟨?_, nofun⟩) ⟨?_, nofun⟩) ⟨?_, nofun⟩) ⟨?_, nofun⟩) ⟨?_, nofun⟩) ⟨?_, nofun⟩
  all_goals refine ok_of (fun _ => rfl) ?_ ?_ ?_ ?_ ?_ <;> decide +kernel

/-- The answer goes to the new load's entry. -/
theorem squashed_silent_refired : (refired.ldq.ldq.ldqEntry 0).entryValid = true ∧
    (refired.ldq.ldq.ldqEntry 0).fired = true := by
  have hok : Ok loadAnswer refired := by
    refine ok_of (fun _ => rfl) ?_ ?_ ?_ ?_ ?_ <;> decide +kernel
  exact (squashed_silent refired_reach loadAnswer hok fun _ => by decide +kernel).accept 0 (by decide +kernel)

/-- The same load with a flush before its answer: the answer is taken for an empty slot,
and broadcast. -/
theorem squashed_answered : ∃ c, Reach c ∧ Ok loadAnswer c ∧ ¬ Completes loadAnswer c := by
  have hmono : Reach fired := fired_reach.mono fun _ _ h => h.1
  have hflush : Ok flushIn fired := ok_of (fun _ => rfl) (by decide) (by decide) (by decide) (by decide) (by decide)
  refine ⟨fired.next flushIn, .step flushIn hmono hflush, ?_, fun h => ?_⟩
  · exact ok_of (fun _ => rfl) (by decide) (by decide) (by decide) (by decide) (by decide)
  · have := (h.accept 0 (by decide)).1
    exact absurd this (by decide)

end R10K.Lsq
