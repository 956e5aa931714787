import R10K.Lsq.Older

/-! The lookup of the load in the fire stage.

The fire stage holds a copy of its load's entry, up to stores that have just gone to the
data cache, and the slots of those are empty. So the lookup sees exactly the stores before
the load that have executed and are not sent (`fwdMatch_iff`), and the last of them that
shares the load's word is the one it finds. -/
namespace R10K.Lsq
open Circular Lanes Memory

/-! ### Executed accesses -/

/-- The accesses of a run are aligned, a store has its address and its datum together, and
the memory has the stores sent. -/
structure Accesses (m : Mem) (s : System) : Prop where
  stores : ∀ (j : Nat) (q : Stq.Store) a d z, s.stores[j]? = some q → q.write = some (a, d, z) → Access a z
  both : ∀ (j : Nat) (q : Stq.Store), s.stores[j]? = some q → q.addr.isSome = q.data.isSome
  loads : ∀ (k : Nat) (r : Ldq.Load) x, s.lsq.ldq.log.loads[k]? = some r → r.exec = some x → Access x.addr x.size
  mem : s.mem = programMem m (s.stores.take s.sent)

/-- A store of the next cycle: as before, executed by this cycle, or new. -/
theorem Older.next_store {taken : LdqTag → Bool} {s s' : System} {i : Inputs} (h : Older s) (ok : System.Rules i s)
    (e : System.Cycle taken i s s') {j : Nat} {q : Stq.Store} (hq : s'.stores[j]? = some q) :
    s.stores[j]? = some q ∨
    (s.lsq.stq.log.retired ≤ j ∧ executeStqValid i = true ∧ (Ptr.ofCount 4 j).idx = i.executePkt.stqTag ∧
      q.addr = some i.executePkt.result ∧ q.data = some (i.executePkt.stData, i.executePkt.memSize) ∧
      ∃ q₀, s.stores[j]? = some q₀ ∧ q₀.write = none) ∨
    (s.stores.length ≤ j ∧ q.addr = none ∧ q.data = none) := by
  rw [System.stores, e.stq] at hq
  rcases h.unit.stq.next_store ok.lsq.stq.toOkQueue j q hq with ⟨_, hold⟩ | ⟨hge, _, q₀, hold, rfl⟩ | ⟨hge, _, l, _, rfl⟩
  · exact .inl hold
  · have htag := h.unit.stq.tag j q₀ hold
    cases hhit : (q₀.tag == i.executePkt.stqTag && executeStqValid i) with
    | false =>
      refine .inl (hold.trans (congrArg some ?_))
      have h1 : (q₀.tag == (stqIn i s.lsq.state).executeStAddrStqTag &&
        (stqIn i s.lsq.state).executeStAddrValid) = false := hhit
      have h2 : (q₀.tag == (stqIn i s.lsq.state).executeStDataStqTag &&
        (stqIn i s.lsq.state).executeStDataValid) = false := hhit
      rw [Stq.Store.execute, h1, h2]
      rfl
    | true =>
      have h1 : (q₀.tag == (stqIn i s.lsq.state).executeStAddrStqTag &&
        (stqIn i s.lsq.state).executeStAddrValid) = true := hhit
      have h2 : (q₀.tag == (stqIn i s.lsq.state).executeStDataStqTag &&
        (stqIn i s.lsq.state).executeStDataValid) = true := hhit
      rw [Bool.and_eq_true, beq_iff_eq] at hhit
      refine .inr (.inl ⟨hge, hhit.2, htag.symm.trans hhit.1, ?_, ?_, q₀, hold, ?_⟩)
      · rw [Stq.Store.execute, h1]
        rfl
      · rw [Stq.Store.execute, h2]
        rfl
      · have honce := h.unit.store_once ok.lsq hhit.2
        rw [← hhit.1, htag, (h.unit.stq.holds j q₀ (Nat.le_trans h.unit.stq.sent_le hge) hold).addr.1] at honce
        have hnone : q₀.addr = none := by simpa using honce
        rw [Stq.Store.write, hnone]
  · exact .inr (.inr ⟨hge, rfl, rfl⟩)

/-- What is retired does not change. -/
theorem Older.next_take {taken : LdqTag → Bool} {s s' : System} {i : Inputs} (h : Older s)
    (e : System.Cycle taken i s s') {n : Nat} (hn : n ≤ s.lsq.stq.log.retired) :
    s'.stores.take n = s.stores.take n := by
  rw [System.stores, e.stq]
  apply List.ext_getElem?
  intro k
  by_cases hk : k < n
  · have hget := Stq.Log.next_get (stqIn i s.lsq.state) s.lsq.stq.stq s.lsq.stq.log h.unit.stq.retired_le k
    rw [if_pos (Nat.lt_of_lt_of_le hk hn)] at hget
    rw [List.getElem?_take_of_lt hk, List.getElem?_take_of_lt hk]
    exact hget
  · rw [List.getElem?_take_eq_none (Nat.le_of_not_lt hk), List.getElem?_take_eq_none (Nat.le_of_not_lt hk)]

namespace Accesses
variable {m : Mem} {taken : LdqTag → Bool} {s s' : System} {i : Inputs}

theorem next_mem (ha : Accesses m s) (h : Older s) (e : System.Cycle taken i s s') :
    s'.mem = programMem m (s'.stores.take s'.sent) := by
  have hsl := h.unit.stq.sent_le
  rw [Older.next_sent e, e.mem, System.nextMem]
  cases hacc : Stq.fireStAccept (stqIn i s.lsq.state) s.lsq.stq.stq with
  | false =>
    rw [if_neg Bool.false_ne_true, ha.mem, h.next_take e (by simpa using hsl)]
    rfl
  | true =>
    obtain ⟨q, hq, hw⟩ := h.unit.stq.fire (Bool.and_eq_true_iff.1 hacc).1
    have hlt := h.unit.stq.accept_lt hacc
    have heff : writeBytes s.lsq.stq.stq.fireStAddr s.lsq.stq.stq.fireStData s.lsq.stq.stq.fireStDataSize =
        effect q := by rw [effect, hw]
    have hmap : (s.stores.map effect)[s.sent]? = some (effect q) := by
      rw [List.getElem?_map, show s.stores[s.sent]? = some q from hq]
      rfl
    rw [if_pos rfl, ha.mem, heff, Bool.toNat_true, h.next_take e (Nat.succ_le_of_lt hlt), programMem, programMem,
      List.map_take, List.map_take, applyAll_take_succ hmap]

/-- **Every cycle keeps the accesses.** -/
theorem cycle (ha : Accesses m s) (h : Older s) (ok : System.Rules i s) (e : System.Cycle taken i s s') :
    Accesses m s' where
  stores := by
    intro j q a d z hq hw
    rcases h.next_store ok e hq with hold | ⟨_, hx, _, h1, h2, _⟩ | ⟨_, h1, _⟩
    · exact ha.stores j q a d z hold hw
    · rw [Stq.Store.write, h1, h2, Option.some.injEq] at hw
      cases hw
      exact ok.access (by rw [hx, Bool.true_or])
    · rw [Stq.Store.write, h1] at hw
      cases hw
  both := by
    intro j q hq
    rcases h.next_store ok e hq with hold | ⟨_, _, _, h1, h2, _⟩ | ⟨_, h1, h2⟩
    · exact ha.both j q hold
    · rw [h1, h2]
      rfl
    · rw [h1, h2]
      rfl
  loads := by
    intro k r x hr hx
    rcases e.ldq.load h.unit.ldq.le hr with ⟨_, hold⟩ | ⟨_, r₀, hold, rfl⟩ | ⟨_, l, _, rfl⟩
    · exact ha.loads k r x hold hx
    · cases hhit : (r₀.tag == (ldqIn i s.lsq.state).executeLdLdqTag && (ldqIn i s.lsq.state).executeLdValid) with
      | false =>
        rw [Ldq.Load.stepWith, hhit] at hx
        exact ha.loads k r₀ x hold hx
      | true =>
        rw [Ldq.Load.stepWith, hhit] at hx
        cases hx
        have hv : executeLdqValid i = true := (Bool.and_eq_true_iff.1 hhit).2
        exact ok.access (by rw [hv, Bool.or_true])
    · cases hx
  mem := ha.next_mem h e

theorem init (m : Mem) : Accesses m (System.init m) where
  stores := fun j q a d z hq => by cases hq
  both := fun j q hq => by cases hq
  loads := fun k r x hr => by cases hr
  mem := rfl

end Accesses

/-! ### The fire stage -/

/-- The load in the fire stage and its entry. -/
structure FireStage (s : System) : Prop where
  addr : s.lsq.ldq.ldq.fireLdAddr = (s.lsq.ldq.ldq.ldqEntry s.lsq.ldq.ldq.fireLdLdqTag).addr
  size : s.lsq.ldq.ldq.fireLdDataSize = (s.lsq.ldq.ldq.ldqEntry s.lsq.ldq.ldq.fireLdLdqTag).dataSize
  youngest : s.lsq.ldq.ldq.fireLdStYoungest = (s.lsq.ldq.ldq.ldqEntry s.lsq.ldq.ldq.fireLdLdqTag).stYoungest
  mask : ∀ u, (s.lsq.stq.stq.stqEntry u).entryValid = true →
    s.lsq.ldq.ldq.fireLdStMask u = (s.lsq.ldq.ldq.ldqEntry s.lsq.ldq.ldq.fireLdLdqTag).stMask u

/-- The executing load had no address before. -/
theorem Inv.load_once {c : Config} {i : Inputs} (h : Inv c) (ok : Ok i c) (hv : executeLdqValid i = true) :
    (c.ldq.ldq.ldqEntry i.executePkt.ldqTag).addrValid = false := by
  obtain ⟨r, hr, ht, hnone⟩ := ok.ldq.execute hv
  obtain ⟨k, hk, hget, htag⟩ := h.ldq.live_slot hr
  have ht' : i.executePkt.ldqTag = (Ptr.ofCount 4 k).idx := ht.symm.trans htag
  rw [ht', (h.agrees k r hk hget).addr, hnone]
  rfl

/-- **The fire stage keeps a copy of its load.** -/
theorem FireStage.cycle {taken : LdqTag → Bool} {s s' : System} {i : Inputs} (h : Older s) (ok : System.Rules i s)
    (e : System.Cycle taken i s s') (hv : s'.lsq.ldq.ldq.fireLdValid = true) : FireStage s' := by
  obtain ⟨hstays, hhas, _⟩ := h.unit.next_fire ok.lsq (h.fresh i) e.toCycle hv
  obtain ⟨hwake, haddr, hsize, hmask, hyoung⟩ := e.ldq.fire hv
  generalize hslot : s'.lsq.ldq.ldq.fireLdLdqTag = t at hstays hhas hwake haddr hsize hmask hyoung
  obtain ⟨h1, h2, _⟩ := e.ldq.exec t
  -- the address comes from the entry or from the execution of this cycle, not from both
  have hexec : (t == (ldqIn i s.lsq.state).executeLdLdqTag && (ldqIn i s.lsq.state).executeLdValid) =
      !(s.lsq.ldq.ldq.ldqEntry t).addrValid := by
    cases ha : (s.lsq.ldq.ldq.ldqEntry t).addrValid with
    | true =>
      rw [Bool.not_true, ← Bool.not_eq_true, Bool.and_eq_true, beq_iff_eq]
      rintro ⟨rfl, hx⟩
      exact Bool.false_ne_true ((h.unit.load_once ok.lsq hx).symm.trans ha)
    | false =>
      simp only [Ldq.ldWakeup, ha, Bool.false_or, Bool.and_eq_true] at hwake
      rw [Bool.and_comm, hwake.1.1.1.1.1, hwake.1.1.1.1.2]
      rfl
  have hret : Ldq.retires (ldqIn i s.lsq.state) t = false := by
    rw [e.ldq.entryValid, Bool.and_eq_true, Bool.not_eq_true'] at hstays
    exact hstays.1
  have hvalid : (s.lsq.ldq.ldq.ldqEntry t).entryValid = true := by
    by_contra hno
    rw [(h.unit.next_clear ok.lsq (h.fresh i) e.toCycle (Bool.eq_false_iff.2 hno)).1] at hhas
    cases hhas
  have hsame := h.unit.allocate_valid ok.lsq hvalid
  refine ⟨?_, ?_, ?_, fun u hu => ?_⟩
  · rw [hslot, haddr, h1, hexec]
    cases (s.lsq.ldq.ldq.ldqEntry t).addrValid <;> rfl
  · rw [hslot, hsize, h2, hexec]
    cases (s.lsq.ldq.ldq.ldqEntry t).addrValid <;> rfl
  · rw [hslot, hyoung, e.ldq.stYoungest, hsame]
  · rw [hslot, hmask, e.ldq.stMask, hret, hsame]
    cases hacc : Ldq.fireStAccept (ldqIn i s.lsq.state) with
    | false => rfl
    | true =>
      -- the slot of the store that has just gone is empty
      have hne : (u == (ldqIn i s.lsq.state).fireStStqTag) = false := by
        rw [beq_eq_false_iff_ne]
        rintro rfl
        have hacc' : Stq.fireStAccept (stqIn i s.lsq.state) s.lsq.stq.stq = true := hacc
        have hreq := (h.unit.stq.request (Bool.and_eq_true_iff.1 hacc').1).2
        have hhead : (ldqIn i s.lsq.state).fireStStqTag = (Ptr.ofCount 4 (s.sent + 2 ^ 4)).idx := by
          rw [Ptr.idx_add_ring]
          show s.lsq.stq.stq.fireStStqTag = _
          rw [hreq, show s.lsq.stq.stq.headPtr = s.lsq.stq.stq.head.idx from rfl, h.unit.stq.head]
        have hroom : s'.stores.length ≤ s.sent + 16 := by
          rw [System.stores, e.stq]
          exact (h.unit.stq.next_bounds ok.lsq.stq.toOkQueue).2.2
        have hsent := Older.next_sent e
        rw [hacc', Bool.toNat_true] at hsent
        have hempty := (h.cycle ok e).vacant (s.sent + 16) hroom (by
          show _ < s'.sent + 16
          omega)
        rw [hhead] at hu
        exact Bool.false_ne_true (hempty.symm.trans hu)
      rw [hne]
      rfl

/-! ### The lookup -/

/-- The entry of a load in flight, and what it executed. -/
theorem Older.entry_exec {s : System} (h : Older s) {k n : Nat} {r : Ldq.Load} {x : Ldq.Exec}
    (hl : s.Load k r n x) : (s.entry k).addrValid = true ∧ (s.entry k).addr = x.addr ∧
      (s.entry k).dataSize = x.size := by
  have hag := h.unit.agrees k r hl.live hl.load
  obtain ⟨h1, h2, _⟩ := hag.exec x hl.exec
  refine ⟨?_, h1, h2⟩
  rw [hag.addr, hl.exec]
  rfl

section Lookup
variable {m : Mem} {s : System} {i : Inputs} {k n : Nat} {r : Ldq.Load} {x : Ldq.Exec}

/-- What an executed store that is not sent holds in its slot. -/
theorem Older.store_entry (h : Older s) {j : Nat} {q : Stq.Store} {a d : BitVec 32} {z : BitVec 3}
    (hj : s.sent ≤ j) (hq : s.stores[j]? = some q) (hw : q.write = some (a, d, z)) :
    (s.lsq.stq.stq.stqEntry (Ptr.ofCount 4 j).idx).addrValid = true ∧
    (s.lsq.stq.stq.stqEntry (Ptr.ofCount 4 j).idx).dataValid = true ∧
    (s.lsq.stq.stq.stqEntry (Ptr.ofCount 4 j).idx).addr = a ∧
    (s.lsq.stq.stq.stqEntry (Ptr.ofCount 4 j).idx).data = d ∧
    (s.lsq.stq.stq.stqEntry (Ptr.ofCount 4 j).idx).dataSize = z := by
  have hh := h.unit.stq.holds j q hj hq
  have hsome : q.write.isSome = true := by rw [hw]; rfl
  have hboth := hsome
  rw [Stq.write_isSome, Bool.and_eq_true] at hboth
  have hval := hh.write hsome
  rw [hw, Option.some.injEq, Prod.mk.injEq, Prod.mk.injEq] at hval
  exact ⟨hh.addr.1.trans hboth.1, hh.data.1.trans hboth.2, hval.1.symm, hval.2.1.symm, hval.2.2.symm⟩

/-- **The lookup matches the executed stores before the load that are not sent and share its
word.** -/
theorem fwdMatch_iff (h : Older s) (ha : Accesses m s) (hfs : FireStage s) (hl : s.Load k r n x)
    (hfire : s.lsq.ldq.ldq.fireLdValid = true) (htag : s.lsq.ldq.ldq.fireLdLdqTag = (Ptr.ofCount 4 k).idx)
    {j : Nat} (hj : s.sent ≤ j ∧ j < s.sent + 16) :
    Stq.fwdMatch (stqIn i s.lsq.state) s.lsq.stq.stq (Ptr.ofCount 4 j).idx = true ↔
      j < n ∧ ∃ q a d z, s.stores[j]? = some q ∧ q.write = some (a, d, z) ∧ wordAddr x.addr = wordAddr a := by
  obtain ⟨_, haddr, _⟩ := h.entry_exec hl
  have hword : s.lsq.ldq.ldq.fireLdAddr = x.addr := by rw [hfs.addr, htag, haddr]
  have hmask := h.mask k n j hl.live hl.older hj.1 hj.2
  have hunfold : Stq.fwdMatch (stqIn i s.lsq.state) s.lsq.stq.stq (Ptr.ofCount 4 j).idx = true ↔
      (wordAddr x.addr = wordAddr (s.lsq.stq.stq.stqEntry (Ptr.ofCount 4 j).idx).addr ∧
        s.lsq.ldq.ldq.fireLdStMask (Ptr.ofCount 4 j).idx = true) ∧
        (s.lsq.stq.stq.stqEntry (Ptr.ofCount 4 j).idx).addrValid = true ∧
        (s.lsq.stq.stq.stqEntry (Ptr.ofCount 4 j).idx).entryValid = true := by
    show ((((s.lsq.ldq.ldq.fireLdAddr.extractLsb' 2 30 == _ && _) && s.lsq.ldq.ldq.fireLdValid) && _) && _) = true ↔ _
    rw [hfire, hword, Bool.and_true, Bool.and_eq_true, Bool.and_eq_true, Bool.and_eq_true, beq_iff_eq, and_assoc]
    exact Iff.rfl
  rw [hunfold]
  constructor
  · rintro ⟨⟨hw, hm⟩, hav, hev⟩
    rw [hfs.mask _ hev, htag] at hm
    have hlt : j < n := of_decide_eq_true (hmask.symm.trans hm)
    have hlen : j < s.stores.length := Nat.lt_of_lt_of_le hlt (h.le k n hl.live hl.older).2
    have hq := List.getElem?_eq_getElem hlen
    have hh := h.unit.stq.holds j _ hj.1 hq
    have hsome : s.stores[j].write.isSome = true := by
      rw [Stq.write_isSome, ← ha.both j _ hq, Bool.and_self, ← hh.addr.1]
      exact hav
    exact ⟨hlt, _, _, _, _, hq, hh.write hsome, hw⟩
  · rintro ⟨hlt, q, a, d, z, hq, hw, hsame⟩
    obtain ⟨hav, _, hea, _⟩ := h.store_entry hj.1 hq hw
    have hev := (h.unit.stq.slot j hj.1 (List.getElem?_eq_some_iff.1 hq).1).1
    refine ⟨⟨by rw [hea]; exact hsame, ?_⟩, hav, hev⟩
    rw [hfs.mask _ hev, htag]
    exact hmask.trans (decide_eq_true hlt)

/-- The store found is the last one before the load that has executed in its word. -/
theorem fwdSearch_found (h : Older s) (ha : Accesses m s) (hfs : FireStage s) (hl : s.Load k r n x)
    (hfire : s.lsq.ldq.ldq.fireLdValid = true) (htag : s.lsq.ldq.ldq.fireLdLdqTag = (Ptr.ofCount 4 k).idx)
    (hfound : (Stq.fwdSearch (stqIn i s.lsq.state) s.lsq.stq.stq).2 = true) :
    ∃ j q a d z, s.sent ≤ j ∧ j < n ∧ s.stores[j]? = some q ∧ q.write = some (a, d, z) ∧
      wordAddr x.addr = wordAddr a ∧
      (Stq.fwdSearch (stqIn i s.lsq.state) s.lsq.stq.stq).1 = (Ptr.ofCount 4 j).idx ∧
      ∀ j' q' a' d' z', j < j' → j' < n → s.stores[j']? = some q' → q'.write = some (a', d', z') →
        wordAddr x.addr ≠ wordAddr a' := by
  have hroom := h.unit.stq.room
  have hle := (h.le k n hl.live hl.older).2
  have hstores : n ≤ s.sent + 16 := Nat.le_trans hle hroom
  have hmatch := Stq.fwdSearch_match hfound
  obtain ⟨j, hj1, hj2, hj⟩ := Ptr.idx_surj (w := 4) s.sent (Stq.fwdSearch (stqIn i s.lsq.state) s.lsq.stq.stq).1
  rw [← hj, fwdMatch_iff h ha hfs hl hfire htag ⟨hj1, hj2⟩] at hmatch
  obtain ⟨hlt, q, a, d, z, hq, hw, hsame⟩ := hmatch
  have hy : (stqIn i s.lsq.state).fireLdStYoungest = (Ptr.ofCount 4 (n - 1)).idx := by
    show s.lsq.ldq.ldq.fireLdStYoungest = _
    rw [hfs.youngest, htag]
    exact h.youngest k n hl.live hl.older (by omega)
  refine ⟨j, q, a, d, z, hj1, hlt, hq, hw, hsame, hj.symm, fun j' q' a' d' z' hjj hjn hq' hw' hsame' => ?_⟩
  have hno := Stq.fwdSearch_youngest hy hfound hj.symm hjj hjn (by omega)
  have hyes := (fwdMatch_iff (i := i) h ha hfs hl hfire htag ⟨by omega, by omega⟩).2
    ⟨hjn, q', a', d', z', hq', hw', hsame'⟩
  exact Bool.false_ne_true (hno.symm.trans hyes)

/-- Nothing is found when no store before the load waits with its word. -/
theorem fwdSearch_missing (h : Older s) (ha : Accesses m s) (hfs : FireStage s) (hl : s.Load k r n x)
    (hfire : s.lsq.ldq.ldq.fireLdValid = true) (htag : s.lsq.ldq.ldq.fireLdLdqTag = (Ptr.ofCount 4 k).idx)
    (hnone : (Stq.fwdSearch (stqIn i s.lsq.state) s.lsq.stq.stq).2 = false)
    {j : Nat} {q : Stq.Store} {a d : BitVec 32} {z : BitVec 3} (hj : s.sent ≤ j) (hlt : j < n)
    (hq : s.stores[j]? = some q) (hw : q.write = some (a, d, z)) : wordAddr x.addr ≠ wordAddr a := by
  intro hsame
  have hroom : s.stores.length ≤ s.sent + 16 := h.unit.stq.room
  have hlen := (List.getElem?_eq_some_iff.1 hq).1
  have hyes := (fwdMatch_iff (i := i) h ha hfs hl hfire htag ⟨hj, by omega⟩).2 ⟨hlt, q, a, d, z, hq, hw, hsame⟩
  exact Bool.false_ne_true ((Stq.fwdSearch_none hnone _).symm.trans hyes)

end Lookup

end R10K.Lsq
