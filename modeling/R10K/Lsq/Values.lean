import R10K.Lsq.Forward
import R10K.Lsq.Lookup

/-! The values of loads that have their datum, or are on their way to it.

A load's value changes only when a store before it executes in its word. A load with its
datum, a datum on its way or an accepted request then fails, and so starts again. What is
left is a load that the data cache refuses in that very cycle while the lookup finds an
older store: `Missed`. In runs without it, every datum is the load's value (`Values`). -/
namespace R10K.Lsq
open Circular Lanes Ldq Memory

/-- No store before the load waits to be sent with its word. -/
def Clean (s : System) (n : Nat) (x : Exec) : Prop :=
  ∀ j (q : Stq.Store) a d z, s.sent ≤ j → j < n → s.stores[j]? = some q → q.write = some (a, d, z) →
    wordAddr x.addr ≠ wordAddr a

/-- Forwarding serves the load of a slot, or puts it to sleep. -/
def System.served (s : System) (k : Nat) : Bool :=
  (Ptr.ofCount 4 k).idx == s.lsq.stq.stq.fwdLdqTag && (s.lsq.stq.stq.fwdValid || s.lsq.stq.stq.fwdSleep)

structure Values (m : Mem) (s : System) : Prop where
  data : ∀ {k r n x}, s.Load k r n x → (s.entry k).dataValid = true →
    (s.entry k).orderFail = false ∧ (s.entry k).data = s.value m n x
  fwd : ∀ {k r n x}, s.Load k r n x → s.lsq.stq.stq.fwdValid = true →
    s.lsq.stq.stq.fwdLdqTag = (Ptr.ofCount 4 k).idx → (s.entry k).orderFail = false →
    s.lsq.stq.stq.fwdData = s.value m n x
  pending : ∀ {k r n x}, s.Load k r n x → 0 < s.lsq.pending (Ptr.ofCount 4 k).idx → s.served k = false →
    (s.entry k).orderFail = false ∧ s.request (Ptr.ofCount 4 k).idx = (x.addr, x.size) ∧ Clean s n x

/-- Everything a run keeps. -/
structure Right (m : Mem) (s : System) : Prop extends Older s where
  accesses : Accesses m s
  fireStage : s.lsq.ldq.ldq.fireLdValid = true → FireStage s
  values : Values m s

/-- The executing store is before the load and in its word. -/
def hits (i : Inputs) (s : System) (k : Nat) : Bool :=
  wordAddr (s.entry k).addr == wordAddr i.executePkt.result && (s.entry k).addrValid && executeStqValid i &&
    (s.entry k).stMask i.executePkt.stqTag

/-- A load fails when it is hit and has its datum or is on its way to it. -/
theorem violation_eq (i : Inputs) (s : System) (k : Nat) :
    stLdViolation (ldqIn i s.lsq.state) s.lsq.ldq.ldq (Ptr.ofCount 4 k).idx = (hits i s k &&
      ((s.entry k).dataValid || ((Ptr.ofCount 4 k).idx == s.lsq.stq.stq.fwdLdqTag && s.lsq.stq.stq.fwdValid) ||
        (s.entry k).fired || Config.accepts i s.lsq (Ptr.ofCount 4 k).idx)) := rfl

namespace Right
variable {m : Mem} {taken : LdqTag → Bool} {s s' : System} {i : Inputs} {k n : Nat} {r : Load} {x : Exec}

/-! ### A load from one cycle to the next -/

/-- A load of the next cycle that has executed had executed before, or it had no address. -/
theorem prev (h : Right m s) (ok : System.Rules i s) (e : System.Cycle taken i s s') (hl : s'.Load k r n x) :
    (∃ r₀, s.Load k r₀ n x) ∨ (s.entry k).addrValid = false := by
  have hk := hl.live
  rw [e.ldq.retired h.unit.ldq.le] at hk
  have hroom := h.unit.ldq.room
  rcases e.ldq.load h.unit.ldq.le hl.load with ⟨hlt, _⟩ | ⟨hge, r₀, h₀, rfl⟩ | ⟨_, l, _, hr⟩
  · omega
  · have hlt := (List.getElem?_eq_some_iff.1 h₀).1
    have hag := h.unit.agrees k r₀ hge h₀
    have hex := hl.exec
    cases hx : r₀.exec with
    | none =>
      refine .inr (hag.addr.trans ?_)
      rw [hx]
      rfl
    | some x₀ =>
      have hno : (r₀.tag == (ldqIn i s.lsq.state).executeLdLdqTag && (ldqIn i s.lsq.state).executeLdValid) =
          false := by
        rw [← Bool.not_eq_true, Bool.and_eq_true, beq_iff_eq, h.unit.ldq.tag k r₀ h₀]
        rintro ⟨ht, hv⟩
        have honce := h.unit.load_once ok.lsq hv
        rw [show i.executePkt.ldqTag = _ from ht.symm, hag.addr, hx] at honce
        cases honce
      rw [Load.stepWith, hno] at hex
      refine .inl ⟨r₀, hge, h₀, ?_, hex⟩
      rcases h.next_older e hl.older with hold | ⟨_, hge', _⟩
      · exact hold
      · omega
  · rw [hr] at hl
    cases hl.exec

/-- A load without an address has no datum, no request and no lookup, now or in the next cycle. -/
theorem idle (h : Right m s) (ok : System.Rules i s) (e : System.Cycle taken i s s')
    (hno : (s.entry k).addrValid = false) :
    (s'.entry k).dataValid = false ∧ s'.lsq.pending (Ptr.ofCount 4 k).idx = 0 ∧
      ¬ (s'.lsq.stq.stq.fwdValid = true ∧ s'.lsq.stq.stq.fwdLdqTag = (Ptr.ofCount 4 k).idx) := by
  have hfire : s.lsq.ldq.ldq.fireLdValid = true → s.lsq.ldq.ldq.fireLdLdqTag ≠ (Ptr.ofCount 4 k).idx := by
    intro hv he
    have haddr := (h.unit.fire hv).2.1
    rw [he] at haddr
    exact Bool.false_ne_true (hno.symm.trans haddr)
  have hpend : s.lsq.pending (Ptr.ofCount 4 k).idx = 0 := by
    by_contra hp
    exact Bool.false_ne_true (hno.symm.trans (h.unit.pending _ (Nat.pos_of_ne_zero hp)).2.2.1)
  refine ⟨?_, ?_, ?_⟩
  · rw [← Bool.not_eq_true]
    intro hd
    rw [e.ldq.dataValid, Bool.and_eq_true] at hd
    exact Bool.false_ne_true (hno.symm.trans (h.unit.served ok.lsq (h.fresh i) hd.2).2)
  · have hacc : Config.accepts i s.lsq (Ptr.ofCount 4 k).idx = false := by
      rw [← Bool.not_eq_true]
      intro ha
      exact hfire (Inv.accepts_fire ha).1 (Inv.accepts_fire ha).2
    rw [e.pending, Config.pendingNext, hpend, hacc, Bool.toNat_false, Nat.zero_add, Nat.zero_sub, ite_self]
  · rintro ⟨hv, ht⟩
    rw [e.fwdLdqTag] at ht
    rw [e.stq] at hv
    exact hfire (Stq.next_fwd (i := stqIn i s.lsq.state) (Bool.or_eq_true_iff.2 (.inl hv))).2 ht

/-! ### A load that is not hit -/

/-- The executing store before a load, in its word, hits the load. -/
theorem hits_of (h : Right m s) (hl : s.Load k r n x) {j : Nat} (hx : executeStqValid i = true)
    (hj : s.sent ≤ j) (hlt : j < n) (ht : (Ptr.ofCount 4 j).idx = i.executePkt.stqTag)
    (hw : wordAddr x.addr = wordAddr i.executePkt.result) : hits i s k = true := by
  obtain ⟨hav, haddr, _⟩ := h.entry_exec hl
  have hroom : s.stores.length ≤ s.sent + 16 := h.unit.stq.room
  have hle := (h.le k n hl.live hl.older).2
  have hmask := h.mask k n j hl.live hl.older hj (by omega)
  rw [hits, haddr, hw, beq_self_eq_true, hav, hx, ← ht, hmask, decide_eq_true hlt]
  rfl

/-- What a store of the next cycle does to the load's word, the load not being hit. -/
theorem unhit_store (h : Right m s) (ok : System.Rules i s) (e : System.Cycle taken i s s')
    (hl : s.Load k r n x) (hno : hits i s k = false) {j : Nat} {q : Stq.Store} {a d : BitVec 32} {z : BitVec 3}
    (hlt : j < n) (hq : s'.stores[j]? = some q) (hw : q.write = some (a, d, z))
    (hsame : wordAddr x.addr = wordAddr a) : s.stores[j]? = some q := by
  rcases h.next_store ok e hq with hold | ⟨hge, hx, ht, h1, h2, _⟩ | ⟨_, h1, _⟩
  · exact hold
  · rw [Stq.Store.write, h1, h2, Option.some.injEq] at hw
    cases hw
    have hsl := h.unit.stq.sent_le
    rw [h.hits_of hl hx (Nat.le_trans hsl hge) hlt ht hsame] at hno
    cases hno
  · rw [Stq.Store.write, h1] at hw
    cases hw

theorem unhit_clean (h : Right m s) (ok : System.Rules i s) (e : System.Cycle taken i s s')
    (hl : s.Load k r n x) (hno : hits i s k = false) (hc : Clean s n x) : Clean s' n x := by
  intro j q a d z hj hlt hq hw hsame
  rw [Older.next_sent e] at hj
  exact hc j q a d z (by omega) hlt (h.unhit_store ok e hl hno hlt hq hw hsame) hw hsame

/-- Each store before the load does to the load's bytes what it did. -/
theorem unhit_value (h : Right m s) (ok : System.Rules i s) (e : System.Cycle taken i s s')
    (hl : s.Load k r n x) (hno : hits i s k = false) : s'.value m n x = s.value m n x := by
  have hacc := h.accesses.loads k r x hl.load hl.exec
  have hle := (h.le k n hl.live hl.older).2
  have hlen := h.next_stores_length ok e
  apply readBytes_congr
  intro b hb
  apply applyAll_congr
  rw [List.map_map, List.map_map]
  apply List.ext_getElem?
  intro j
  rw [List.getElem?_map, List.getElem?_map]
  by_cases hlt : j < n
  · rw [List.getElem?_take_of_lt hlt, List.getElem?_take_of_lt hlt,
      List.getElem?_eq_getElem (by omega : j < s'.stores.length),
      List.getElem?_eq_getElem (by omega : j < s.stores.length)]
    have hq := List.getElem?_eq_getElem (by omega : j < s'.stores.length)
    have hq₀ := List.getElem?_eq_getElem (by omega : j < s.stores.length)
    refine congrArg some ?_
    rcases h.next_store ok e hq with hold | ⟨hge, hx, ht, h1, h2, q₀, hold, hw₀⟩ | ⟨hge, _⟩
    · rw [hq₀, Option.some.injEq] at hold
      show effect _ _ = effect _ _
      rw [hold]
    · rw [hq₀, Option.some.injEq] at hold
      show effect _ _ = effect _ _
      have hw : s'.stores[j].write =
          some (i.executePkt.result, i.executePkt.stData, i.executePkt.memSize) := by
        rw [Stq.Store.write, h1, h2]
      rw [hold, effect, effect, hw₀, hw]
      refine writeBytes_word hacc (ok.access (by rw [hx, Bool.true_or])) (fun hsame => ?_) hb
      have hsl := h.unit.stq.sent_le
      rw [h.hits_of hl hx (Nat.le_trans hsl hge) hlt ht hsame] at hno
      cases hno
    · omega
  · rw [List.getElem?_take_eq_none (Nat.le_of_not_lt hlt), List.getElem?_take_eq_none (Nat.le_of_not_lt hlt)]

/-! ### What comes in -/

/-- A store in another word writes none of the load's bytes. -/
theorem effect_word (h : Right m s) (hl : s.Load k r n x) {j : Nat} {q : Stq.Store}
    (hq : s.stores[j]? = some q)
    (hw : ∀ a d z, q.write = some (a, d, z) → wordAddr x.addr ≠ wordAddr a) {b : Nat} (hb : b < width x.size) :
    effect q (x.addr + BitVec.ofNat 32 b) = none := by
  have hacc := h.accesses.loads k r x hl.load hl.exec
  unfold effect
  cases hqw : q.write with
  | none => rfl
  | some w =>
    obtain ⟨a, d, z⟩ := w
    exact writeBytes_word hacc (h.accesses.stores j q a d z hq hqw) (hw a d z hqw) hb

/-- The memory has the load's word when no store before it waits with its word. -/
theorem clean_value (h : Right m s) (hl : s.Load k r n x) (hc : Clean s n x) {mem : Mem}
    (hmem : mem = s.mem ∨ mem = s.nextMem i) : readBytes mem x.addr x.size = s.value m n x := by
  have hsl := h.unit.stq.sent_le
  have hle := h.le k n hl.live hl.older
  apply readBytes_congr
  intro b hb
  have hnow : s.mem (x.addr + BitVec.ofNat 32 b) =
      programMem m (s.stores.take n) (x.addr + BitVec.ofNat 32 b) := by
    rw [h.accesses.mem, programMem, programMem, List.map_take, List.map_take]
    refine (applyAll_sent (Nat.le_trans hsl hle.1) fun j u hj hlt hu => ?_).symm
    rw [List.getElem?_map] at hu
    obtain ⟨q, hq, rfl⟩ := Option.map_eq_some_iff.1 hu
    exact h.effect_word hl hq (fun a d z hw => hc j q a d z hj hlt hq hw) hb
  rcases hmem with rfl | rfl
  · exact hnow
  · rw [System.nextMem]
    cases hacc : Stq.fireStAccept (stqIn i s.lsq.state) s.lsq.stq.stq with
    | false => exact hnow
    | true =>
      -- the store that goes to the memory is before the load, and in another word
      obtain ⟨q, hq, hw⟩ := h.unit.stq.fire (Bool.and_eq_true_iff.1 hacc).1
      have hlt := h.unit.stq.accept_lt hacc
      have hnone := h.effect_word hl hq (fun a d z hw =>
        hc s.sent q a d z (Nat.le_refl _) (Nat.lt_of_lt_of_le hlt hle.1) hq hw) hb
      have hsame : effect q =
          writeBytes s.lsq.stq.stq.fireStAddr s.lsq.stq.stq.fireStData s.lsq.stq.stq.fireStDataSize := by
        rw [effect, hw]
      rw [if_pos rfl, apply, ← hsame, hnone]
      exact hnow

/-- An answer that is taken is for a load that waits for it with a clean word. -/
theorem answered (h : Right m s) (ok : System.Rules i s)
    (ha : dcacheDataAccept (ldqIn i s.lsq.state) s.lsq.ldq.ldq (Ptr.ofCount 4 k).idx = true) :
    (Ptr.ofCount 4 k).idx = i.dcacheLdqTag ∧ i.dcacheValid = true ∧
      0 < s.lsq.pending (Ptr.ofCount 4 k).idx ∧ s.served k = false := by
  obtain ⟨ht, hv, _, hp⟩ := Inv.answered ok.lsq (h.fresh i) ha
  have hkill : fireLdKill (ldqIn i s.lsq.state) s.lsq.ldq.ldq i.dcacheLdqTag = false := by
    rw [dcacheDataAccept, Bool.and_eq_true, Bool.not_eq_true'] at ha
    exact ha.2
  rw [fireLdKill, Bool.or_eq_false_iff, ← ht] at hkill
  exact ⟨ht, hv, hp, hkill.1⟩

/-- What the data cache answers is the value of the load it answers. -/
def Answers (m : Mem) (i : Inputs) (s : System) : Prop :=
  ∀ {k r n x}, s.Load k r n x →
    dcacheDataAccept (ldqIn i s.lsq.state) s.lsq.ldq.ldq (Ptr.ofCount 4 k).idx = true →
    i.dcacheData = s.value m n x

/-- An answer read from the memory as it is is right. -/
theorem answers (h : Right m s) (ok : System.Ok i s) : Answers m i s := by
  intro k r n x hl ha
  obtain ⟨ht, hv, hp, hserve⟩ := h.answered ok.rules ha
  obtain ⟨_, hreq, hclean⟩ := h.values.pending hl hp hserve
  obtain ⟨mem, hmem, hdata⟩ := ok.answer hv
  rw [← ht, hreq] at hdata
  exact hdata.trans (h.clean_value hl hclean hmem)

/-- A datum that comes in or stands is the load's value, and if the load is hit it fails. -/
theorem data_value (h : Right m s) (ok : System.Rules i s) (hans : Answers m i s) (hl : s.Load k r n x)
    (hd : hasDatum (ldqIn i s.lsq.state) s.lsq.ldq.ldq (Ptr.ofCount 4 k).idx = true) :
    (s.entry k).orderFail = false ∧
    stLdViolation (ldqIn i s.lsq.state) s.lsq.ldq.ldq (Ptr.ofCount 4 k).idx = hits i s k ∧
    (if fwdDataAccept (ldqIn i s.lsq.state) s.lsq.ldq.ldq (Ptr.ofCount 4 k).idx then s.lsq.stq.stq.fwdData
      else if dcacheDataAccept (ldqIn i s.lsq.state) s.lsq.ldq.ldq (Ptr.ofCount 4 k).idx then i.dcacheData
      else (s.entry k).data) = s.value m n x := by
  rw [violation_eq]
  cases hfwd : fwdDataAccept (ldqIn i s.lsq.state) s.lsq.ldq.ldq (Ptr.ofCount 4 k).idx with
  | true =>
    rw [fwdDataAccept, Bool.and_eq_true, Bool.not_eq_true'] at hfwd
    obtain ⟨hserve, hfail⟩ := hfwd
    have hs : ((Ptr.ofCount 4 k).idx == s.lsq.stq.stq.fwdLdqTag && s.lsq.stq.stq.fwdValid) = true := hserve
    rw [Bool.and_eq_true, beq_iff_eq] at hserve
    refine ⟨hfail, by rw [hs, Bool.or_true, Bool.true_or, Bool.true_or, Bool.and_true], ?_⟩
    exact h.values.fwd hl hserve.2 hserve.1.symm hfail
  | false =>
    cases hcache : dcacheDataAccept (ldqIn i s.lsq.state) s.lsq.ldq.ldq (Ptr.ofCount 4 k).idx with
    | true =>
      obtain ⟨_, _, hp, hserve⟩ := h.answered ok hcache
      have hfired : (s.entry k).fired = true := (h.unit.pending _ hp).2.2.2.1
      exact ⟨(h.values.pending hl hp hserve).1, by rw [hfired, Bool.or_true, Bool.true_or, Bool.and_true],
        hans hl hcache⟩
    | false =>
      rw [hasDatum, hfwd, hcache, Bool.false_or, Bool.false_or] at hd
      obtain ⟨hfail, hval⟩ := h.values.data hl hd
      exact ⟨hfail, by rw [hd, Bool.true_or, Bool.true_or, Bool.true_or, Bool.and_true], hval⟩

/-! ### One cycle -/

theorem next_data (h : Right m s) (ok : System.Rules i s) (hans : Answers m i s) (e : System.Cycle taken i s s')
    (hl : s.Load k r n x) (hd : (s'.entry k).dataValid = true) :
    (s'.entry k).orderFail = false ∧ (s'.entry k).data = s'.value m n x := by
  rw [e.ldq.dataValid, Bool.and_eq_true, Bool.and_eq_true, Bool.not_eq_true', Bool.not_eq_true'] at hd
  obtain ⟨⟨_, hok⟩, hdatum⟩ := hd
  obtain ⟨hfail, hviol, hval⟩ := h.data_value ok hans hl hdatum
  have hno : hits i s k = false := hviol.symm.trans hok
  refine ⟨?_, ?_⟩
  · rw [e.ldq.orderFail, hok, show (s.lsq.ldq.ldq.ldqEntry _).orderFail = false from hfail, Bool.and_false]
    rfl
  · rw [h.unhit_value ok e hl hno, ← hval]
    exact e.ldq.data _ hok

/-- The age of two slots of the queue is their distance from its head. -/
theorem slot_lt (h : Right m s) {j l : Nat} (hj : s.sent ≤ j) (hjl : j < l) (hl : l < s.sent + 16) :
    (Ptr.ofCount 4 j).idx - s.lsq.stq.stq.headPtr < (Ptr.ofCount 4 l).idx - s.lsq.stq.stq.headPtr := by
  have hhead : s.lsq.stq.stq.headPtr = (Ptr.ofCount 4 s.sent).idx := by
    rw [show s.lsq.stq.stq.headPtr = s.lsq.stq.stq.head.idx from rfl, h.unit.stq.head]
  rw [hhead, BitVec.lt_def, BitVec.toNat_sub, BitVec.toNat_sub, Ptr.idx_toNat, Ptr.idx_toNat, Ptr.idx_toNat]
  omega

theorem fire_exec (h : Right m s) (hl : s.Load k r n x) (hfire : s.lsq.ldq.ldq.fireLdValid = true)
    (htag : s.lsq.ldq.ldq.fireLdLdqTag = (Ptr.ofCount 4 k).idx) :
    s.lsq.ldq.ldq.fireLdAddr = x.addr ∧ s.lsq.ldq.ldq.fireLdDataSize = x.size := by
  have hfs := h.fireStage hfire
  obtain ⟨_, haddr, hsize⟩ := h.entry_exec hl
  exact ⟨by rw [hfs.addr, htag, haddr], by rw [hfs.size, htag, hsize]⟩

/-- A store that has executed stays as it is. -/
theorem store_stays (h : Right m s) (ok : System.Rules i s) (e : System.Cycle taken i s s') {j : Nat}
    {q : Stq.Store} {w : BitVec 32 × BitVec 32 × BitVec 3} (hq : s.stores[j]? = some q)
    (hw : q.write = some w) : s'.stores[j]? = some q := by
  have hlt := (List.getElem?_eq_some_iff.1 hq).1
  have hlen := h.next_stores_length ok e
  have hget := List.getElem?_eq_getElem (l := s'.stores) (i := j) (by omega)
  rcases h.next_store ok e hget with hold | ⟨_, _, _, _, _, q₀, hold, hw₀⟩ | ⟨hge, _⟩
  · rw [hget, ← hold, hq]
  · rw [hq, Option.some.injEq] at hold
    rw [hold, hw₀] at hw
    cases hw
  · omega

/-- A load that had failed and does not fail now starts again: forwarding does not put it to sleep. -/
theorem unslept (hfire : s.lsq.ldq.ldq.fireLdValid = true)
    (htag : s.lsq.ldq.ldq.fireLdLdqTag = (Ptr.ofCount 4 k).idx)
    (hclear : (!((Ptr.ofCount 4 k).idx == s.lsq.ldq.ldq.fireLdLdqTag && s.lsq.ldq.ldq.fireLdValid &&
      !fireLdKill (ldqIn i s.lsq.state) s.lsq.ldq.ldq (Ptr.ofCount 4 k).idx) && (s.entry k).orderFail) = false) :
    ((s.entry k).orderFail && s.lsq.stq.stq.fwdSleep &&
      s.lsq.stq.stq.fwdLdqTag == (Ptr.ofCount 4 k).idx) = false := by
  cases hof : (s.entry k).orderFail with
  | false => rfl
  | true =>
    rw [hof, Bool.and_true, Bool.not_eq_false', htag, beq_self_eq_true, hfire, Bool.true_and, Bool.true_and,
      Bool.not_eq_true', fireLdKill, Bool.or_eq_false_iff] at hclear
    have hsleep : ((Ptr.ofCount 4 k).idx == s.lsq.stq.stq.fwdLdqTag &&
        (s.lsq.stq.stq.fwdValid || s.lsq.stq.stq.fwdSleep)) = false := hclear.1
    rw [Bool.true_and, Bool.and_comm, Bool.beq_comm]
    rcases Bool.and_eq_false_iff.1 hsleep with hne | hne
    · rw [hne]
      rfl
    · rw [(Bool.or_eq_false_iff.1 hne).2, Bool.and_false]

/-- A load that is hit, behind the store the lookup takes for it, fails or is missed. -/
theorem missed (h : Right m s) (e : System.Cycle taken i s s') (hl : s.Load k r n x)
    (hfire : s.lsq.ldq.ldq.fireLdValid = true) (htag : s.lsq.ldq.ldq.fireLdLdqTag = (Ptr.ofCount 4 k).idx)
    (hfail : (s'.entry k).orderFail = false) (hhit : hits i s k = true)
    (hover : overlap x.addr x.size i.executePkt.result i.executePkt.memSize = true)
    (hfound : (Stq.fwdSearch (stqIn i s.lsq.state) s.lsq.stq.stq).2 = true)
    (hcover : Stq.addrConflict (stqIn i s.lsq.state) s.lsq.stq.stq = false)
    (hstale : (Stq.fwdSearch (stqIn i s.lsq.state) s.lsq.stq.stq).1 - s.lsq.stq.stq.headPtr <
      i.executePkt.stqTag - s.lsq.stq.stq.headPtr) : Missed i s.lsq.state := by
  obtain ⟨hword, hsize⟩ := h.fire_exec hl hfire htag
  rw [e.ldq.orderFail, violation_eq, hhit, Bool.true_and, Bool.or_eq_false_iff, Bool.or_eq_false_iff,
    Bool.or_eq_false_iff, Bool.or_eq_false_iff] at hfail
  obtain ⟨⟨⟨⟨_, hserve⟩, _⟩, hrefuse⟩, hclear⟩ := hfail
  rw [hits, Bool.and_eq_true, Bool.and_eq_true] at hhit
  obtain ⟨⟨_, hexec⟩, hmask⟩ := hhit
  refine ⟨hfire, ?_, ?_, ?_, hexec, ?_, ?_, hfound, hcover, hstale⟩
  · rw [Config.accepts, htag, beq_self_eq_true, Bool.and_true, Ldq.fireLdAccept, hfire, Bool.true_and] at hrefuse
    exact hrefuse
  · show (s.lsq.stq.stq.fwdValid && s.lsq.stq.stq.fwdLdqTag == s.lsq.ldq.ldq.fireLdLdqTag) = false
    rw [htag, Bool.and_comm, Bool.beq_comm]
    exact hserve
  · show ((s.lsq.ldq.ldq.ldqEntry s.lsq.ldq.ldq.fireLdLdqTag).orderFail && s.lsq.stq.stq.fwdSleep &&
      s.lsq.stq.stq.fwdLdqTag == s.lsq.ldq.ldq.fireLdLdqTag) = false
    rw [htag]
    exact unslept hfire htag hclear
  · show (s.lsq.ldq.ldq.ldqEntry s.lsq.ldq.ldq.fireLdLdqTag).stMask i.executePkt.stqTag = true
    rw [htag]
    exact hmask
  · show overlap s.lsq.ldq.ldq.fireLdAddr s.lsq.ldq.ldq.fireLdDataSize _ _ = true
    rw [hword, hsize]
    exact hover

/-- No store behind the one the lookup takes writes the load's bytes, unless the load fails
or is missed. -/
theorem behind_apart (h : Right m s) (ok : System.Rules i s) (hmiss : ¬ Missed i s.lsq.state)
    (e : System.Cycle taken i s s') (hl : s.Load k r n x) (hfire : s.lsq.ldq.ldq.fireLdValid = true)
    (htag : s.lsq.ldq.ldq.fireLdLdqTag = (Ptr.ofCount 4 k).idx) (hfail : (s'.entry k).orderFail = false)
    (hfound : (Stq.fwdSearch (stqIn i s.lsq.state) s.lsq.stq.stq).2 = true)
    (hcover : Stq.addrConflict (stqIn i s.lsq.state) s.lsq.stq.stq = false) {j : Nat} (hj : s.sent ≤ j)
    (hslot : (Stq.fwdSearch (stqIn i s.lsq.state) s.lsq.stq.stq).1 = (Ptr.ofCount 4 j).idx)
    (hlater : ∀ j' q' a' d' z', j < j' → j' < n → s.stores[j']? = some q' → q'.write = some (a', d', z') →
      wordAddr x.addr ≠ wordAddr a')
    {j' : Nat} {q : Stq.Store} (hjj : j < j') (hjn : j' < n) (hq : s'.stores[j']? = some q) {b : Nat}
    (hb : b < width x.size) : effect q (x.addr + BitVec.ofNat 32 b) = none := by
  have hacc := h.accesses.loads k r x hl.load hl.exec
  have hroom : s.stores.length ≤ s.sent + 16 := h.unit.stq.room
  have hle := (h.le k n hl.live hl.older).2
  have hsl := h.unit.stq.sent_le
  rcases h.next_store ok e hq with hold | ⟨hge, hx, hxt, h1, h2, _⟩ | ⟨_, h1, _⟩
  · exact h.effect_word hl hold (fun a' d' z' hw' => hlater j' q a' d' z' hjj hjn hold hw') hb
  · -- the store executes now: it hits the load, which must fail, or is missed, or is apart from it
    have hw : q.write = some (i.executePkt.result, i.executePkt.stData, i.executePkt.memSize) := by
      rw [Stq.Store.write, h1, h2]
    rw [effect, hw]
    have hacc' := ok.access (by rw [hx, Bool.true_or])
    by_cases hword : wordAddr x.addr = wordAddr i.executePkt.result
    · have hhit := h.hits_of hl hx (Nat.le_trans hsl hge) hjn hxt hword
      refine writeBytes_apart hacc hacc' (fun hover => hmiss ?_) hb
      refine h.missed e hl hfire htag hfail hhit ?_ hfound hcover ?_
      · rw [overlap, hword, beq_self_eq_true, Bool.true_and, decide_eq_true hover.1, decide_eq_true hover.2]
        rfl
      · rw [hslot, ← hxt]
        exact h.slot_lt hj hjj (by omega)
    · exact writeBytes_word hacc hacc' hword hb
  · unfold effect Stq.Store.write
    rw [h1]

/-- What forwarding brings for the load is its value, unless the load fails or is missed. -/
theorem next_fwd (h : Right m s) (ok : System.Rules i s) (hmiss : ¬ Missed i s.lsq.state)
    (e : System.Cycle taken i s s') (hl : s.Load k r n x) (hv : s'.lsq.stq.stq.fwdValid = true)
    (ht : s'.lsq.stq.stq.fwdLdqTag = (Ptr.ofCount 4 k).idx) (hfail : (s'.entry k).orderFail = false) :
    s'.lsq.stq.stq.fwdData = s'.value m n x := by
  rw [e.stq] at hv
  have hfire : s.lsq.ldq.ldq.fireLdValid = true :=
    (Stq.next_fwd (i := stqIn i s.lsq.state) (Bool.or_eq_true_iff.2 (.inl hv))).2
  have htag : s.lsq.ldq.ldq.fireLdLdqTag = (Ptr.ofCount 4 k).idx := e.fwdLdqTag.symm.trans ht
  obtain ⟨hword, hsize⟩ := h.fire_exec hl hfire htag
  have hacc := h.accesses.loads k r x hl.load hl.exec
  -- the store found covers the load
  obtain ⟨_, _, hfound, hcover⟩ := Stq.fwdValid_iff.1 hv
  obtain ⟨_, hstart, hend⟩ := fwd_covers hv
  obtain ⟨j, q, a, d, z, hj, hlt, hq, hw, hsame, hslot, hlater⟩ :=
    fwdSearch_found h.toOlder h.accesses (h.fireStage hfire) hl hfire htag hfound
  obtain ⟨_, _, hea, hed, hez⟩ := h.store_entry hj hq hw
  rw [hslot, hea] at hstart hend
  rw [hez] at hend
  have hdata : s'.lsq.stq.stq.fwdData =
      Stq.loadBytes (offset x.addr) x.size (d <<< ((offset a).toNat * 8)) := by
    rw [e.stq]
    show Stq.loadBytes (offset s.lsq.ldq.ldq.fireLdAddr) s.lsq.ldq.ldq.fireLdDataSize
      (Stq.fwd4BAligned (stqIn i s.lsq.state) s.lsq.stq.stq) = _
    rw [hword, hsize, Stq.fwd4BAligned, hslot, hea, hed]
    rfl
  rw [hdata]
  refine loadBytes_eq hacc fun b hb => ?_
  have hlast : (((s'.stores.take n).map effect)[j]?) = some (effect q) := by
    rw [List.getElem?_map, List.getElem?_take_of_lt hlt, h.store_stays ok e hq hw]
    rfl
  refine applyAll_last hlast ?_ fun j' u hjj hu => ?_
  · rw [effect, hw]
    have hstart' : offset a ≤ offset x.addr := hword ▸ hstart
    have hend' : Stq.offsetEnd (offset x.addr) x.size ≤ Stq.offsetEnd (offset a) z := by
      rw [← hword, ← hsize]
      exact hend
    exact writeBytes_cover hacc (h.accesses.stores j q a d z hq hw) hsame hstart' hend' hb
  · rw [List.getElem?_map] at hu
    obtain ⟨q', hq', rfl⟩ := Option.map_eq_some_iff.1 hu
    obtain ⟨hlen, _⟩ := List.getElem?_eq_some_iff.1 hq'
    rw [List.length_take] at hlen
    have hjn : j' < n := by omega
    rw [List.getElem?_take_of_lt hjn] at hq'
    exact h.behind_apart ok hmiss e hl hfire htag hfail hfound hcover hj hslot hlater hjj hjn hq' hb

/-- A request that stood for the load still finds its word in the memory. -/
theorem pending_stays (h : Right m s) (ok : System.Rules i s) (e : System.Cycle taken i s s')
    (hl : s.Load k r n x) (hp : 0 < s.lsq.pending (Ptr.ofCount 4 k).idx)
    (hkill : Config.kills i s.lsq (Ptr.ofCount 4 k).idx = false) :
    (s'.entry k).orderFail = false ∧ s'.request (Ptr.ofCount 4 k).idx = (x.addr, x.size) ∧ Clean s' n x := by
  rw [Config.kills, fireLdKill, Bool.or_eq_false_iff] at hkill
  obtain ⟨hserve, hviol⟩ := hkill
  obtain ⟨_, _, _, hfired, hdata⟩ := h.unit.pending _ hp
  obtain ⟨hfail, hold, hclean⟩ := h.values.pending hl hp hserve
  rw [show (s.entry k).dataValid = false from hdata, Bool.not_false, Bool.and_true] at hviol
  have hno : hits i s k = false := by
    rw [violation_eq, show (s.entry k).fired = true from hfired, Bool.or_true, Bool.true_or, Bool.and_true] at hviol
    exact hviol
  have hacc := h.unit.pending_refuses (i := i) hp
  have hfail' : (s'.entry k).orderFail = _ := e.ldq.orderFail (Ptr.ofCount 4 k).idx
  rw [e.request, hfail', hviol, show (s.lsq.ldq.ldq.ldqEntry (Ptr.ofCount 4 k).idx).orderFail = false from hfail,
    Bool.and_false, hacc, if_neg Bool.false_ne_true]
  exact ⟨rfl, hold, h.unhit_clean ok e hl hno hclean⟩

/-- A lookup that neither serves the load nor puts it to sleep found no store, or one that
goes to the memory now. -/
theorem unserved_clean (h : Right m s) (ok : System.Rules i s) (e : System.Cycle taken i s s')
    (hl : s.Load k r n x) (hfire : s.lsq.ldq.ldq.fireLdValid = true)
    (htag : s.lsq.ldq.ldq.fireLdLdqTag = (Ptr.ofCount 4 k).idx) (hno : hits i s k = false)
    (hserve : (s'.lsq.stq.stq.fwdValid || s'.lsq.stq.stq.fwdSleep) = false) : Clean s' n x := by
  have hfs := h.fireStage hfire
  rw [e.stq, Bool.or_eq_false_iff] at hserve
  cases hfound : (Stq.fwdSearch (stqIn i s.lsq.state) s.lsq.stq.stq).2 with
  | false =>
    refine h.unhit_clean ok e hl hno fun j q a d z hj hlt hq hw => ?_
    exact fwdSearch_missing h.toOlder h.accesses hfs hl hfire htag hfound hj hlt hq hw
  | true =>
    obtain ⟨j, q, a, d, z, hj, hlt, hq, hw, hsame, hslot, hlater⟩ :=
      fwdSearch_found h.toOlder h.accesses hfs hl hfire htag hfound
    obtain ⟨_, hdv, _⟩ := h.store_entry hj hq hw
    simp only [Stq.Config.next, Stq.next, hfound, hslot, hdv,
      show (stqIn i s.lsq.state).pipeFlush = false from e.ldq.noFlush, Bool.not_false, Bool.true_and,
      Bool.and_true] at hserve
    obtain ⟨hconf, hsleep⟩ := hserve
    rw [Bool.not_eq_false'] at hconf
    rw [hconf, Bool.true_and, Bool.not_eq_false', Bool.and_eq_true, beq_iff_eq] at hsleep
    obtain ⟨hsend, hhead⟩ := hsleep
    have hroom : s.stores.length ≤ s.sent + 16 := h.unit.stq.room
    have hle := (h.le k n hl.live hl.older).2
    have hj0 : j = s.sent := by
      have hreqst := (h.unit.stq.request (Bool.and_eq_true_iff.1 hsend).1).2
      rw [hreqst, show s.lsq.stq.stq.headPtr = s.lsq.stq.stq.head.idx from rfl, h.unit.stq.head] at hhead
      exact (Ptr.idx_inj_window (b := s.sent) ⟨Nat.le_refl _, by omega⟩ ⟨hj, by omega⟩ hhead).symm
    intro j' q' a' d' z' hj' hlt' hq' hw' hsame'
    rw [Older.next_sent e, hsend, Bool.toNat_true] at hj'
    exact hlater j' q' a' d' z' (by omega) hlt' (h.unhit_store ok e hl hno hlt' hq' hw' hsame') hw' hsame'

/-- A request that the data cache takes now finds the load's word in the memory. -/
theorem pending_taken (h : Right m s) (ok : System.Rules i s) (e : System.Cycle taken i s s')
    (hl : s.Load k r n x) (hacc : Config.accepts i s.lsq (Ptr.ofCount 4 k).idx = true)
    (hkill : Config.kills i s.lsq (Ptr.ofCount 4 k).idx = false) (hserve : s'.served k = false) :
    (s'.entry k).orderFail = false ∧ s'.request (Ptr.ofCount 4 k).idx = (x.addr, x.size) ∧ Clean s' n x := by
  obtain ⟨hfire, htag⟩ := Inv.accepts_fire hacc
  obtain ⟨haddr, hsize⟩ := h.fire_exec hl hfire htag
  have hdata := (h.unit.fire hfire).2.2.2
  rw [htag] at hdata
  have hviol := hkill
  rw [Config.kills, fireLdKill, Bool.or_eq_false_iff] at hviol
  replace hviol := hviol.2
  rw [show (s.entry k).dataValid = false from hdata, Bool.not_false, Bool.and_true] at hviol
  have hno : hits i s k = false := by
    rw [violation_eq, hacc, Bool.or_true, Bool.and_true] at hviol
    exact hviol
  have hfail' : (s'.entry k).orderFail = _ := e.ldq.orderFail (Ptr.ofCount 4 k).idx
  rw [e.request, hfail', hviol,
    show fireLdKill (ldqIn i s.lsq.state) s.lsq.ldq.ldq (Ptr.ofCount 4 k).idx = false from hkill, htag,
    beq_self_eq_true, hfire, hacc, if_pos rfl, haddr, hsize]
  rw [System.served, e.fwdLdqTag, htag, beq_self_eq_true, Bool.true_and] at hserve
  exact ⟨rfl, rfl, h.unserved_clean ok e hl hfire htag hno hserve⟩

/-- A request that stands for the load will find its word in the memory. -/
theorem next_pending (h : Right m s) (ok : System.Rules i s) (e : System.Cycle taken i s s')
    (hl : s.Load k r n x) (hp : 0 < s'.lsq.pending (Ptr.ofCount 4 k).idx) (hserve : s'.served k = false) :
    (s'.entry k).orderFail = false ∧ s'.request (Ptr.ofCount 4 k).idx = (x.addr, x.size) ∧ Clean s' n x := by
  rw [e.pending] at hp
  have hkill := Inv.pending_unkilled hp
  rcases Inv.pending_cases hp with hstood | htaken
  · exact h.pending_stays ok e hl hstood hkill
  · exact h.pending_taken ok e hl htaken hkill hserve

/-- **One cycle keeps everything**, unless it misses a store. -/
theorem cycle (h : Right m s) (ok : System.Rules i s) (hans : Answers m i s) (hmiss : ¬ Missed i s.lsq.state)
    (e : System.Cycle taken i s s') : Right m s' where
  toOlder := h.toOlder.cycle ok e
  accesses := h.accesses.cycle h.toOlder ok e
  fireStage := FireStage.cycle h.toOlder ok e
  values := by
    -- a load that executes in this cycle has nothing yet
    refine ⟨fun hl hd => ?_, fun hl hv ht hfail => ?_, fun hl hp hserve => ?_⟩
    · rcases h.prev ok e hl with ⟨_, hl₀⟩ | hno
      · exact h.next_data ok hans e hl₀ hd
      · exact absurd ((h.idle ok e hno).1.symm.trans hd) Bool.false_ne_true
    · rcases h.prev ok e hl with ⟨_, hl₀⟩ | hno
      · exact h.next_fwd ok hmiss e hl₀ hv ht hfail
      · exact absurd ⟨hv, ht⟩ (h.idle ok e hno).2.2
    · rcases h.prev ok e hl with ⟨_, hl₀⟩ | hno
      · exact h.next_pending ok e hl₀ hp hserve
      · exact absurd hp (by rw [(h.idle ok e hno).2.1]; exact Nat.lt_irrefl 0)

theorem next (h : Right m s) (ok : System.Ok i s) (hmiss : ¬ Missed i s.lsq.state) : Right m (s.next i) :=
  h.cycle ok.rules (h.answers ok) hmiss (System.cycle_next s ok.noFlush)

theorem init (m : Mem) : Right m (System.init m) where
  toOlder := Older.init m
  accesses := Accesses.init m
  fireStage := fun hv => by cases hv
  values := by
    have hnone : ∀ {k r n x}, ¬ (System.init m).Load k r n x := fun hl => by cases hl.load
    exact ⟨fun hl => absurd hl hnone, fun hl => absurd hl hnone, fun hl => absurd hl hnone⟩

end Right

end R10K.Lsq
