import R10K.Lsq.Flush
import R10K.Lsq.Ordered
import R10K.Whole.Loads
import R10K.Whole.Stores

/-! The back end with the memory behind its data cache.

The load/store unit was followed with a memory in runs without a flush. Here it runs in the
back end, flushes included: the data cache applies what it is sent and answers from the
memory as it is. Every load of the program then gets what the stores before it in the program
leave. -/
namespace R10K.Whole
open Backend Lanes

structure Machine where
  whole : Config
  /-- The load/store unit with the memory, and how many stores are before each load. -/
  system : Lsq.System

namespace Machine

def init (m : Lsq.Mem) : Machine := ⟨Config.init, Lsq.System.init m⟩

def next (i : Inputs) (c : Machine) : Machine where
  whole := c.whole.next i
  system :=
    if pipeFlush c.whole.state then c.system.flush (c.whole.lsqIn i) else c.system.next (c.whole.lsqIn i)

/-- Besides the rules of the back end: what executes is naturally aligned, the data cache
answers from the memory before or after the store of the same cycle, and no check misses a
store. -/
structure Ok (i : Inputs) (c : Machine) : Prop where
  whole : Whole.Ok i c.whole
  access : (Lsq.executeStqValid (c.whole.lsqIn i) || Lsq.executeLdqValid (c.whole.lsqIn i)) = true →
    Lsq.Access (c.whole.state.pipeExecutePkt 6).result (c.whole.state.pipeExecutePkt 6).memSize
  answer : i.dcacheValid = true → ∃ m, (m = c.system.mem ∨ m = c.system.nextMem (c.whole.lsqIn i)) ∧
    i.dcacheData = Lsq.readBytes m (c.system.request i.dcacheLdqTag).1 (c.system.request i.dcacheLdqTag).2
  seen : ¬ Lsq.Missed (c.whole.lsqIn i) c.whole.state.lsq

def Reach (m : Lsq.Mem) : Machine → Prop := Run.Reach next Ok (init m)

end Machine

/-- The stores of the program before instruction `n`. -/
def Config.storesBefore (c : Config) (n : Nat) : List Stq.Store :=
  c.backend.stqLog.stores.take (c.rank RenamePacket.wrMem n)

/-- The memory the stores before instruction `n` leave. -/
def Config.memBefore (m : Lsq.Mem) (c : Config) (n : Nat) : Lsq.Mem := Lsq.programMem m (c.storesBefore n)

/-- What ties the unit with its memory to the back end. -/
structure Fits (m : Lsq.Mem) (c : Machine) : Prop where
  lsq : c.system.lsq = c.whole.lsq.cleared
  mem : c.system.mem = Lsq.programMem m (c.system.stores.take c.system.sent)
  right : c.whole.state.core.spine.sysException = false → Lsq.Right m c.system
  /-- Nothing runs after an exception. -/
  halted : c.whole.state.core.spine.sysException = true → c.whole.backend.robLog.live = []
  older : ∀ r n f k q, c.whole.LoadAt r n f k q →
    c.system.older[k]? = some (c.whole.rank RenamePacket.wrMem n)

section
variable {c : Machine} {i : Inputs} {m : Lsq.Mem} {n : Nat} {f : Core.Flight}

theorem Fits.state (h : Fits m c) : c.system.lsq.state = c.whole.state.lsq := by
  rw [h.lsq]
  rfl

theorem Fits.stores (h : Fits m c) : c.system.stores = c.whole.backend.stqLog.stores := by
  rw [Lsq.System.stores, h.lsq]
  rfl

theorem Fits.sent (h : Fits m c) : c.system.sent = c.whole.backend.stqLog.sent.length := by
  rw [Lsq.System.sent, h.lsq]
  rfl

/-! ### The rules of the unit -/

theorem Fits.system_lsq (h : Fits m c) (hinv : Inv c.whole) (ok : Whole.Ok i c.whole) :
    (c.next i).system.lsq = (c.whole.next i).lsq.cleared := by
  have hfresh := (hinv.unit ok).fresh
  rw [Config.next_lsq, Machine.next]
  cases hf : pipeFlush c.whole.state with
  | true =>
    rw [if_pos rfl, Lsq.System.flush, h.lsq]
    exact Lsq.Config.cleared_flush hf
  | false =>
    rw [if_neg Bool.false_ne_true, Lsq.System.next, h.lsq]
    exact Lsq.Config.cleared_next hfresh hf

/-- A load retires no later than the stores after it. -/
theorem Fits.inOrder (h : Fits m c) (hinv : Inv c.whole)
    (hs : c.whole.state.core.spine.sysException = false) (k n : Nat) (hk : c.whole.loadsTo ≤ k)
    (hn : c.system.older[k]? = some n) : c.whole.rank RenamePacket.wrMem c.whole.core.base ≤ n := by
  have hlength := (h.right hs).length
  rw [h.lsq] at hlength
  have hlength' : c.system.older.length = c.whole.backend.ldqLog.loads.length := hlength
  have hlt := (List.getElem?_eq_some_iff.1 hn).1
  have hto : c.whole.loadsTo = c.whole.backend.ldqLog.retired +
    (Spine.retireRead loadLeft c.whole.state.core.spine).reduceOption.length := rfl
  obtain ⟨q, hget⟩ : ∃ q, c.whole.backend.ldqLog.loads[k]? = some q := ⟨_, List.getElem?_eq_getElem (by omega)⟩
  have hlive : c.whole.backend.ldqLog.live[k - c.whole.backend.ldqLog.retired]? = some q := by
    rw [Ldq.Log.live, List.getElem?_drop, Nat.add_sub_cancel' (by omega)]
    exact hget
  obtain ⟨r, hr, hgives⟩ := hinv.linked.loads.item_of hlive (by omega)
  obtain ⟨hrd, hview⟩ := memTag_some hgives
  obtain ⟨n', f, hat⟩ := Core.exists_at (c := c.whole.core) hinv.core.spine hr
  have holder := h.older r n' f k _ ⟨hat, (hinv.decoded.copies r n' f hat).rdMem.symm.trans hrd, hk, hget,
    (congrArg Prod.fst hview).symm⟩
  rw [hn, Option.some.injEq] at holder
  rw [holder]
  exact rank_mono hat.le

theorem Fits.system_ok (h : Fits m c) (hinv : Inv c.whole) (hc : Counted c.whole) (ok : c.Ok i)
    (hs : c.whole.state.core.spine.sysException = false) (hf : pipeFlush c.whole.state = false) :
    Lsq.System.Ok (c.whole.lsqIn i) c.system where
  lsq := by
    rw [h.lsq]
    exact Lsq.Config.cleared_ok (hinv.lsqOk ok.whole) (hinv.unit ok.whole).fresh
  noFlush := hf
  access := ok.access
  inOrder := by
    intro k n hk hn
    rw [h.lsq] at hk ⊢
    have hload : c.whole.loadsTo ≤ k := by
      rw [Config.loadsTo, load_leaving i c.whole]
      exact hk
    have hle := h.inOrder hinv hs k n hload hn
    rw [← hc.leaving, store_leaving i c.whole] at hle
    exact hle
  answer := ok.answer

/-! ### One edge -/

/-- The queue gets no store in the cycle of a branch's flush. -/
theorem flush_quiet (hinv : Inv c.whole) (hf : pipeFlush c.whole.state = true)
    (hs : (c.next i).whole.state.core.spine.sysException = false) :
    Stq.dispatchCnt (c.whole.backend.stqIn i) = 0 := by
  have hs' : (c.whole.state.core.spine.sysException || Spine.retireException c.whole.state.core.spine) = false := hs
  rw [Bool.or_eq_false_iff] at hs'
  have hmisp : (Spine.retireBrMisp c.whole.state.core.spine ||
    Spine.retireException c.whole.state.core.spine) = true := hf
  rw [hs'.2, Bool.or_false] at hmisp
  have hquiet := hinv.backend.flow.quiet hmisp
  rw [Stq.dispatchCnt_eq, List.length_eq_zero_iff, List.eq_nil_iff_forall_not_mem]
  intro l hl
  have hv : ((c.whole.state.core.spine.pipeRenamePkt l).packetValid &&
    (c.whole.state.core.spine.pipeRenamePkt l).wrMem) = true := mem_group.1 hl
  rw [show c.whole.state.core.spine.pipeRenamePkt l = {} from hquiet l] at hv
  cases hv

theorem next_right (h : Fits m c) (hinv : Inv c.whole) (hc : Counted c.whole) (ok : c.Ok i)
    (hs : (c.next i).whole.state.core.spine.sysException = false) : Lsq.Right m (c.next i).system := by
  have hs₀ : c.whole.state.core.spine.sysException = false := by
    have hs' : (c.whole.state.core.spine.sysException || Spine.retireException c.whole.state.core.spine) = false := hs
    exact (Bool.or_eq_false_iff.1 hs').1
  have hright := h.right hs₀
  rw [Machine.next]
  cases hf : pipeFlush c.whole.state with
  | true =>
    rw [if_pos rfl]
    refine hright.flush ?_ hf (fun hx => ok.access (by rw [hx, Bool.true_or])) ?_
    · rw [h.lsq]
      exact Lsq.Config.cleared_ok (hinv.lsqOk ok.whole) (hinv.unit ok.whole).fresh
    · rw [h.state]
      exact flush_quiet hinv hf hs
  | false =>
    rw [if_neg Bool.false_ne_true]
    refine hright.next (h.system_ok hinv hc ok hs₀ hf) ?_
    rw [h.state]
    exact ok.seen

theorem next_halted (h : Fits m c) (hinv : Inv c.whole)
    (hs : (c.next i).whole.state.core.spine.sysException = true) : (c.next i).whole.backend.robLog.live = [] := by
  cases hf : pipeFlush c.whole.state with
  | true => exact (flush_nothing (i := i) hinv.backend.toInv hf).1
  | false =>
    have hs' : (c.whole.state.core.spine.sysException || Spine.retireException c.whole.state.core.spine) = true := hs
    have hf' : (Spine.retireBrMisp c.whole.state.core.spine ||
      Spine.retireException c.whole.state.core.spine) = false := hf
    rw [Bool.or_eq_false_iff] at hf'
    rw [hf'.2, Bool.or_false] at hs'
    have hstopped := hinv.backend.flow.stopped hs'
    have hnone : Rob.dispatching (c.whole.robIn i) c.whole.state.core.spine.rob = [] := by
      rw [Rob.dispatching, List.map_eq_nil_iff, List.eq_nil_iff_forall_not_mem]
      intro l hl
      have hv : (c.whole.state.core.spine.pipeRenamePkt l).packetValid = true := mem_group.1 hl
      rw [show c.whole.state.core.spine.pipeRenamePkt l = {} from hstopped l] at hv
      cases hv
    rw [Machine.next, live_next hinv.core hf, h.halted hs', hnone, List.map_nil, List.drop_nil, List.append_nil]

theorem next_older (h : Fits m c) (hinv : Inv c.whole) (hc : Counted c.whole) (ok : c.Ok i)
    {r : Rob.Record} {k : Nat} {q : Ldq.Load} (hl : (c.next i).whole.LoadAt r n f k q) :
    (c.next i).system.older[k]? = some ((c.next i).whole.rank RenamePacket.wrMem n) := by
  have hs : c.whole.state.core.spine.sysException = false := by
    cases hs : c.whole.state.core.spine.sysException with
    | false => rfl
    | true =>
      have hs' : (c.next i).whole.state.core.spine.sysException = true := by
        show (c.whole.state.core.spine.sysException || _) = true
        rw [hs, Bool.true_or]
      have hlive := hl.buffer.live
      rw [show (c.next i).whole.core.robLog.live = [] from next_halted h hinv hs'] at hlive
      cases hlive
  have hlength := (h.right hs).length
  rw [h.lsq] at hlength
  have hlength' : c.system.older.length = c.whole.backend.ldqLog.loads.length := hlength
  obtain ⟨hf, hcases⟩ := Config.LoadAt.cases (c := c.whole) hl hinv ok.whole
  have holder : (c.next i).system.older = c.system.older ++ c.system.dispatchingOlder (c.whole.lsqIn i) := by
    rw [Machine.next, hf, if_neg Bool.false_ne_true]
    rfl
  have hkeep : pipeFlush c.whole.state = true → n ≤ c.whole.core.base := fun hf' => by rw [hf] at hf'; cases hf'
  rw [holder]
  rcases hcases with ⟨r₀, f₀, q₀, hl₀, -⟩ | ⟨l, f₀, hw, hrd, -, rfl⟩
  · have hlt := (List.getElem?_eq_some_iff.1 hl₀.buffer.flight).1
    have hold := h.older r₀ n f₀ k q₀ hl₀
    rw [List.getElem?_append_left (List.getElem?_eq_some_iff.1 hold).1, hold]
    exact congrArg some (rank_next (Nat.le_of_lt hlt) hkeep).symm
  · have hlt := (List.getElem?_eq_some_iff.1 hw.flight).1
    have hpkt : f₀.pkt = c.whole.state.core.spine.pipeRenamePkt l := (hinv.core.waits l n f₀ hw).1
    have hv : Lsq.dispatchLdqValid (c.whole.lsqIn i) l = true := by
      obtain ⟨j, hj, -⟩ := hw.lane
      have hvalid : (c.whole.state.core.spine.pipeRenamePkt l).packetValid = true :=
        mem_group.1 (List.mem_of_getElem? hj)
      rw [hpkt] at hrd
      exact Bool.and_eq_true_iff.2 ⟨hvalid, hrd⟩
    rw [← hlength', List.getElem?_append_right (Nat.le_add_right _ _), Nat.add_sub_cancel_left,
      Lsq.System.dispatchingOlder, List.getElem?_map, group_rank hv, Option.map_some, h.stores,
      stores_length hinv hc]
    show _ = some ((c.whole.next i).rank RenamePacket.wrMem n)
    rw [rank_next (Nat.le_of_lt hlt) hkeep, waits_rank hinv.core hw]
    rfl

theorem Fits.next_mem (h : Fits m c) (hinv : Inv c.whole) :
    (c.next i).system.mem = Lsq.programMem m ((c.next i).system.stores.take (c.next i).system.sent) := by
  have hstq : Stq.Inv c.system.lsq.stq := by
    rw [h.lsq]
    exact hinv.lsq.stq
  have hsent := Lsq.sent_mem (i := c.whole.lsqIn i) hstq h.mem
  rw [Machine.next]
  split <;> exact hsent

/-- **One edge keeps the unit and its memory in the back end.** -/
theorem Fits.next (h : Fits m c) (hinv : Inv c.whole) (hc : Counted c.whole) (ok : c.Ok i) : Fits m (c.next i) where
  lsq := h.system_lsq hinv ok.whole
  mem := h.next_mem hinv
  right := next_right h hinv hc ok
  halted := next_halted h hinv
  older := fun _ _ _ _ _ hl => next_older h hinv hc ok hl

theorem Fits.init (m : Lsq.Mem) : Fits m (Machine.init m) where
  lsq := rfl
  mem := rfl
  right := fun _ => Lsq.Right.init m
  halted := fun hs => by cases hs
  older := fun _ _ _ _ _ hl => by cases hl.buffer.live

/-! ### What the loads get -/

/-- Stores that have their writes keep them, if no flush drops them. -/
theorem stores_stay (hinv : Inv c.whole) {k : Nat} (hk : k ≤ c.whole.backend.stqLog.stores.length)
    (hw : ∀ q ∈ c.whole.backend.stqLog.stores.take k, q.write.isSome = true)
    (hf : pipeFlush c.whole.state = true →
      k ≤ c.whole.backend.stqLog.retired + Stq.retireCnt (c.whole.backend.stqIn i)) :
    (c.next i).whole.backend.stqLog.stores.take k = c.whole.backend.stqLog.stores.take k := by
  have hle : c.whole.backend.stqLog.retired ≤ c.whole.backend.stqLog.stores.length := hinv.backend.stq.retired_le
  apply List.ext_getElem?
  intro j
  by_cases hj : j < k
  · have hnext := Stq.Log.next_get (c.whole.backend.stqIn i) c.whole.state.lsq.stq c.whole.backend.stqLog hle j
    rw [List.getElem?_take_of_lt hj, List.getElem?_take_of_lt hj]
    refine Eq.trans hnext ?_
    split
    · rfl
    · rename_i hret
      obtain ⟨q, hq⟩ : ∃ q, c.whole.backend.stqLog.stores[j]? = some q :=
        ⟨_, List.getElem?_eq_getElem (Nat.lt_of_lt_of_le hj hk)⟩
      have hwrite := hw q (List.mem_of_getElem? (by rw [List.getElem?_take_of_lt hj]; exact hq))
      rw [if_pos (Nat.lt_of_lt_of_le hj hk), if_neg (fun hd => by have := hf hd.1; omega), hq, Option.map_some]
      -- what executes has no write yet
      rw [execute_eq, if_neg]
      rintro ⟨ht, hst⟩
      obtain ⟨q', hq', ht', hnone, -⟩ := hinv.executing_store hst
      obtain ⟨k', hk'⟩ := List.getElem?_of_mem hq'
      rw [Stq.Log.live, List.getElem?_drop] at hk'
      obtain rfl := live_slot hinv (Nat.le_of_not_lt hret) (Nat.le_add_right _ _) hq hk' (ht.trans ht'.symm)
      rw [hq, Option.some.injEq] at hk'
      rw [Stq.write_isSome, hk', hnone] at hwrite
      cases hwrite
  · rw [List.getElem?_take_eq_none (Nat.le_of_not_lt hj), List.getElem?_take_eq_none (Nat.le_of_not_lt hj)]

/-- So do the stores before an instruction of the buffer. -/
theorem storesBefore_next (hinv : Inv c.whole) (hc : Counted c.whole) (hto : n ≤ c.whole.dispatchedTo)
    (hlen : n ≤ c.whole.core.trace.length) (hle : pipeFlush c.whole.state = true → n ≤ c.whole.core.base)
    (hw : ∀ q ∈ c.whole.storesBefore n, q.write.isSome = true) :
    (c.next i).whole.storesBefore n = c.whole.storesBefore n := by
  have hrank : (c.next i).whole.rank RenamePacket.wrMem n = c.whole.rank RenamePacket.wrMem n := rank_next hlen hle
  rw [Config.storesBefore, hrank]
  refine stores_stay hinv ?_ hw fun hf => ?_
  · rw [stores_length hinv hc]
    exact rank_mono hto
  · have hleaving := hc.leaving
    rw [store_leaving i c.whole] at hleaving
    rw [hleaving]
    exact rank_mono (hle hf)

/-- What is in the dispatch register has no result. -/
theorem result_dispatched (hinv : Inv c.whole) {v : BitVec 32} (hn : c.whole.core.trace[n]? = some f)
    (hv : f.result = some v) : n ≤ c.whole.dispatchedTo := by
  by_contra hto
  have hlt := (List.getElem?_eq_some_iff.1 hn).1
  have hlen := Core.base_length hinv.core.spine
  have hdis : c.whole.dispatchedTo = c.whole.core.base + c.whole.core.robLog.live.length := rfl
  have hgroup : (Spine.renameGroup c.whole.core.state.spine).length =
      (group fun l => (c.whole.state.core.spine.pipeRenamePkt l).packetValid).length := by
    rw [Spine.renameGroup, List.length_map]
    rfl
  have hj : n - c.whole.dispatchedTo <
    (group fun l => (c.whole.state.core.spine.pipeRenamePkt l).packetValid).length := by omega
  have hwait := (hinv.core.waits _ n f ⟨⟨_, List.getElem?_eq_getElem hj, by omega⟩, hn⟩).2.2
  rw [hv] at hwait
  cases hwait

/-- A load that has its result has the bytes the stores before it leave, and these have
executed. -/
def Gets (m : Lsq.Mem) (c : Config) : Prop := ∀ n f v, c.core.trace[n]? = some f → f.pkt.rdMem = true →
  f.result = some v → (∀ q ∈ c.storesBefore n, q.write.isSome = true) ∧ ∃ p, Packet c p n f ∧
    v = Lsq.readBytes (c.memBefore m n) (unitAnswer 6 p).result (p.inst.extractLsb' 12 3)

/-- The value that is broadcast for a load. -/
theorem broadcast_gets (h : Fits m c) (hinv : Inv c.whole) (hc : Counted c.whole) (hex : Executed c.whole)
    (ok : c.Ok i) (hf : pipeFlush c.whole.state = false) {w : Way} {r : Rob.Record}
    (hv : (cdbPkt i c.whole.state w).packetValid = true) (hat : c.whole.core.At r n f)
    (htag : r.tag = (cdbPkt i c.whole.state w).robEntry) (hload : f.pkt.rdMem = true) :
    (∀ q ∈ c.whole.storesBefore n, q.write.isSome = true) ∧ ∃ p, Packet c.whole p n f ∧
      (cdbPkt i c.whole.state w).result = Lsq.readBytes (c.whole.memBefore m n) (unitAnswer 6 p).result
        (p.inst.extractLsb' 12 3) := by
  have hs : c.whole.state.core.spine.sysException = false := by
    cases hs : c.whole.state.core.spine.sysException with
    | false => rfl
    | true =>
      have hlive := hat.live
      rw [show c.whole.core.robLog.live = [] from h.halted hs] at hlive
      cases hlive
  obtain ⟨htakes, hresult⟩ := lane_load hinv ok.whole hv hat htag hload
  have hsys := h.system_ok hinv hc ok hs hf
  have hldq : c.system.lsq.ldq = c.whole.backend.ldq := by
    rw [h.lsq]
    rfl
  obtain ⟨k, q, n', x, hl, hslot, hwritten, hdata⟩ := (h.right hs).ordered hsys r.pkt.ldqTag (by
    rw [h.state, hldq]
    exact htakes)
  have hlive := hl.live
  have hentry := hl.load
  rw [hldq] at hlive hentry
  -- the entry is the load's, and so is its place among the stores
  obtain ⟨k₀, q₀, hl₀⟩ := exists_loadAt hinv hat hload
  obtain rfl := hl₀.place hinv hlive hentry hslot
  obtain rfl : q = q₀ := Option.some.inj (hentry.symm.trans hl₀.entry)
  obtain rfl : n' = c.whole.rank RenamePacket.wrMem n :=
    Option.some.inj (hl.older.symm.trans (h.older r n f k q hl₀))
  obtain ⟨p, hp, haddr, hsize⟩ := hex r n f k q x hl₀ hl.exec
  rw [h.stores] at hwritten
  refine ⟨hwritten, p, hp, ?_⟩
  rw [h.state, hldq, Lsq.System.value, h.stores, haddr, hsize] at hdata
  exact hresult.trans hdata

/-- **One edge keeps what the loads got.** -/
theorem Gets.next (hg : Gets m c.whole) (h : Fits m c) (hinv : Inv c.whole) (hc : Counted c.whole)
    (hex : Executed c.whole) (ok : c.Ok i) : Gets m (c.next i).whole := by
  intro n f v hn hload hv
  rcases Core.next_get (c := c.whole.core) (i := c.whole.coreIn i) hn with ⟨f₀, hn₀, rfl, hkeep⟩ |
    ⟨-, -, j, l, -, -, rfl⟩
  · have hlt := (List.getElem?_eq_some_iff.1 hn₀).1
    have hle : pipeFlush c.whole.state = true → n ≤ c.whole.core.base := fun hf => Nat.le_of_lt (hkeep hf)
    -- the stores before it have executed, so they stay as they are
    have hgot : n ≤ c.whole.dispatchedTo → ((∀ q ∈ c.whole.storesBefore n, q.write.isSome = true) ∧
        ∃ p, Packet c.whole p n f₀ ∧ v = Lsq.readBytes (c.whole.memBefore m n) (unitAnswer 6 p).result
          (p.inst.extractLsb' 12 3)) → (∀ q ∈ (c.next i).whole.storesBefore n, q.write.isSome = true) ∧
        ∃ p, Packet (c.next i).whole p n (f₀.next (c.whole.coreIn i) (c.whole.core.issues n)) ∧
          v = Lsq.readBytes ((c.next i).whole.memBefore m n) (unitAnswer 6 p).result
            (p.inst.extractLsb' 12 3) := by
      rintro hto ⟨hw, p, hp, he⟩
      rw [Config.memBefore, storesBefore_next hinv hc hto (Nat.le_of_lt hlt) hle hw]
      exact ⟨hw, p, hp.next (Nat.le_of_lt hlt) hle _, he⟩
    have hv' : f₀.result.or (if f₀.pkt.destPrn = 0 then none else
        Core.broadcast (c.whole.coreIn i) f₀.pkt.destPrn) = some v := hv
    cases hres : f₀.result with
    | some y =>
      rw [hres, Option.some_or, Option.some.injEq] at hv'
      subst hv'
      exact hgot (result_dispatched hinv hn₀ hres) (hg n f₀ y hn₀ hload hres)
    | none =>
      rw [hres, Option.none_or] at hv'
      split at hv'
      · cases hv'
      · rename_i hne
        obtain ⟨w, r, hlane, hat, htag, hresult⟩ := heard_own hinv ok.whole hn₀ hres hne hv'
        have hf : pipeFlush c.whole.state = false := by
          cases hf : pipeFlush c.whole.state with
          | false => rfl
          | true => exact absurd (hkeep hf) (Nat.not_lt.2 hat.le)
        have hto : n ≤ c.whole.dispatchedTo := by
          have hlive := (List.getElem?_eq_some_iff.1 hat.live).1
          have hdis : c.whole.dispatchedTo = c.whole.core.base + c.whole.core.robLog.live.length := rfl
          omega
        obtain ⟨hw, p, hp, he⟩ := broadcast_gets h hinv hc hex ok hf hlane hat htag hload
        exact hgot hto ⟨hw, p, hp, hresult.symm.trans he⟩
  · cases hv

theorem Gets.init (m : Lsq.Mem) : Gets m Config.init := fun _ _ _ hn => by cases hn

end

end R10K.Whole
