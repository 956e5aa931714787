import R10K.Whole.Ranks
import R10K.Whole.Values

/-! The loads of the buffer and their entries in the load queue.

Every load of the buffer has one entry in the queue. What the entry got from the load's
execution is what the address unit makes of the program's values, and what the bus carries
for the load is what the queue offers for the entry. -/
namespace R10K.Whole
open Backend Lanes

/-- How many loads have left the buffer since the last flush. -/
def Config.loadsTo (c : Config) : Nat :=
  c.backend.ldqLog.retired + (Spine.retireRead loadLeft c.state.core.spine).reduceOption.length

/-- The entry at place `k` of the load queue is that of a load of the buffer. -/
structure Config.LoadAt (c : Config) (r : Rob.Record) (n : Nat) (f : Core.Flight) (k : Nat) (q : Ldq.Load) :
    Prop where
  buffer : c.core.At r n f
  load : f.pkt.rdMem = true
  live : c.loadsTo ≤ k
  entry : c.backend.ldqLog.loads[k]? = some q
  tag : q.tag = r.pkt.ldqTag

/-- What an entry got is what its load's unit makes of the program's values. -/
def Executed (c : Config) : Prop := ∀ r n f k q x, c.LoadAt r n f k q → q.exec = some x →
  ∃ p, Packet c p n f ∧ x.addr = (unitAnswer 6 p).result ∧ x.size = p.inst.extractLsb' 12 3

section
variable {c : Config} {i : Inputs} {n k : Nat} {f : Core.Flight} {r : Rob.Record} {q : Ldq.Load} {l : Lane}

/-! ### Entries -/

theorem load_gives (h : Core.Decoded c.core) (hat : c.core.At r n f) (hrd : f.pkt.rdMem = true) :
    loadGives r = some (r.pkt.ldqTag, !r.pending) := by
  rw [loadGives, (h.copies r n f hat).rdMem, hrd]
  rfl

/-- Every load of the buffer has its entry. -/
theorem exists_loadAt (h : Inv c) (hat : c.core.At r n f) (hrd : f.pkt.rdMem = true) : ∃ k q, c.LoadAt r n f k q := by
  obtain ⟨q, hq, hview⟩ := h.linked.loads.shown_at hat.live (load_gives h.decoded hat hrd)
  rw [Ldq.Log.live, List.getElem?_drop, ← Nat.add_assoc] at hq
  exact ⟨_, q, hat, hrd, Nat.le_add_right _ _, hq, congrArg Prod.fst hview⟩

/-- Entries that are not retired have slots of their own. -/
theorem live_load (h : Inv c) {k' : Nat} {q' : Ldq.Load} (hk : c.backend.ldqLog.retired ≤ k)
    (hk' : c.backend.ldqLog.retired ≤ k') (hq : c.backend.ldqLog.loads[k]? = some q)
    (hq' : c.backend.ldqLog.loads[k']? = some q') (ht : q.tag = q'.tag) : k = k' := by
  have hroom : c.backend.ldqLog.loads.length ≤ c.backend.ldqLog.retired + 16 := h.backend.ldq.room
  have hlt := (List.getElem?_eq_some_iff.1 hq).1
  have hlt' := (List.getElem?_eq_some_iff.1 hq').1
  refine Circular.Ptr.idx_inj_window (w := 4) (b := c.backend.ldqLog.retired) (by omega) (by omega) ?_
  rw [← h.backend.ldq.tag k q hq, ← h.backend.ldq.tag k' q' hq', ht]

/-- A slot names one entry. -/
theorem Config.LoadAt.place (hl : c.LoadAt r n f k q) (h : Inv c) {k' : Nat} {q' : Ldq.Load}
    (hk' : c.backend.ldqLog.retired ≤ k') (hq' : c.backend.ldqLog.loads[k']? = some q')
    (ht : q'.tag = r.pkt.ldqTag) : k' = k :=
  live_load h hk' (Nat.le_trans (Nat.le_add_right _ _) hl.live) hq' hl.entry (ht.trans hl.tag.symm)

/-! ### One edge of an entry -/

theorem loads_next (h : Inv c) (hf : pipeFlush c.state = false) (k : Nat) : (c.next i).backend.ldqLog.loads[k]? =
    if k < c.backend.ldqLog.retired then c.backend.ldqLog.loads[k]?
    else if k < c.backend.ldqLog.loads.length then
      c.backend.ldqLog.loads[k]?.map (Ldq.Load.step (c.backend.ldqIn i) c.state.lsq.ldq)
    else (Ldq.dispatching (c.backend.ldqIn i) c.state.lsq.ldq)[k - c.backend.ldqLog.loads.length]? := by
  have hle : c.backend.ldqLog.retired ≤ c.backend.ldqLog.loads.length := h.backend.ldq.le
  have hlog := (Ldq.cycle_next c.backend.ldq (i := c.backend.ldqIn i) hf).log
  exact (congrArg (fun l : Ldq.Log => l.loads[k]?) hlog).trans (Ldq.Log.nextWith_get hf hle k)

theorem retired_loads (h : Inv c) (hf : pipeFlush c.state = false) :
    (c.next i).backend.ldqLog.retired = c.loadsTo := by
  rw [Config.loadsTo, load_leaving i c]
  exact (Ldq.cycle_next c.backend.ldq (i := c.backend.ldqIn i) hf).retired h.backend.ldq.le

theorem loadsTo_le (h : Inv c) (i : Inputs) : c.loadsTo ≤ c.backend.ldqLog.loads.length := by
  rw [Config.loadsTo, load_leaving i c]
  exact h.backend.ldq.retire_le (h.backend.okLdq i)

/-- A load in the dispatch register gets the slot its record names. -/
theorem new_load (h : Inv c) (hf : pipeFlush c.state = false) (hw : c.core.Waits l n f)
    (hrd : f.pkt.rdMem = true) : (c.next i).backend.ldqLog.loads[c.backend.ldqLog.loads.length +
      Lanes.rank (Lsq.dispatchLdqValid (c.lsqIn i)) l]? = some { tag := (c.record i l).pkt.ldqTag } := by
  have hle : c.backend.ldqLog.retired ≤ c.backend.ldqLog.loads.length := h.backend.ldq.le
  have hpkt : f.pkt = c.state.core.spine.pipeRenamePkt l := (h.core.waits l n f hw).1
  have hv : Lsq.dispatchLdqValid (c.lsqIn i) l = true := by
    obtain ⟨j, hj, -⟩ := hw.lane
    have hvalid : (c.state.core.spine.pipeRenamePkt l).packetValid = true :=
      mem_group.1 (List.mem_of_getElem? hj)
    rw [hpkt] at hrd
    exact Bool.and_eq_true_iff.2 ⟨hvalid, hrd⟩
  rw [loads_next h hf, if_neg (by omega), if_neg (by omega), Nat.add_sub_cancel_left, Ldq.dispatching,
    List.getElem?_map]
  rw [show (group (c.backend.ldqIn i).dispatchValid)[Lanes.rank (Lsq.dispatchLdqValid (c.lsqIn i)) l]? = some l from
    group_rank hv]
  rfl

/-- **An entry of the next cycle** was its load's before, or its load has just been dispatched. -/
theorem Config.LoadAt.cases (hl : (c.next i).LoadAt r n f k q) (h : Inv c) (ok : Ok i c) :
    pipeFlush c.state = false ∧
      ((∃ r₀ f₀ q₀, c.LoadAt r₀ n f₀ k q₀ ∧ f = f₀.next (c.coreIn i) (c.core.issues n) ∧
        r = Rob.mark (c.robIn i) r₀ ∧ q = q₀.step (c.backend.ldqIn i) c.state.lsq.ldq) ∨
      (∃ l f₀, c.core.Waits l n f₀ ∧ f₀.pkt.rdMem = true ∧ q.exec = none ∧
        k = c.backend.ldqLog.loads.length + Lanes.rank (Lsq.dispatchLdqValid (c.lsqIn i)) l)) := by
  have hnext := h.next ok
  obtain ⟨hf, hcases⟩ := Core.Config.At.cases (c := c.core) (i := c.coreIn i) h.core.spine hl.buffer
  have hf' : pipeFlush c.state = false := hf
  have hret := retired_loads (i := i) h hf'
  have hto : c.backend.ldqLog.retired ≤ c.loadsTo := Nat.le_add_right _ _
  refine ⟨hf, ?_⟩
  rcases hcases with ⟨r₀, f₀, hat₀, -, rfl, rfl⟩ | ⟨l, f₀, hw, rfl, rfl⟩
  · obtain ⟨k₀, q₀, hl₀⟩ := exists_loadAt h hat₀ hl.load
    have hlive := hl₀.live
    have hlt := (List.getElem?_eq_some_iff.1 hl₀.entry).1
    have hentry : (c.next i).backend.ldqLog.loads[k₀]? = some (q₀.step (c.backend.ldqIn i) c.state.lsq.ldq) := by
      rw [loads_next h hf', if_neg (by omega), if_pos hlt, hl₀.entry]
      rfl
    have htag : (q₀.step (c.backend.ldqIn i) c.state.lsq.ldq).tag = (Rob.mark (c.robIn i) r₀).pkt.ldqTag := by
      rw [(Rob.mark_eq_iff (c.robIn i) r₀).2]
      exact hl₀.tag
    obtain rfl := hl.place hnext (by omega) hentry htag
    exact .inl ⟨r₀, f₀, q₀, hl₀, rfl, rfl, Option.some.inj (hl.entry.symm.trans hentry)⟩
  · have hentry := new_load (i := i) h hf' hw hl.load
    have hle := loadsTo_le h i
    obtain rfl := hl.place hnext (by omega) hentry rfl
    have hq := Option.some.inj (hl.entry.symm.trans hentry)
    exact .inr ⟨l, f₀, hw, hl.load, by rw [hq], rfl⟩

/-! ### What execution gives -/

/-- The load in the address unit's register and its address. -/
theorem executing_served (h : Inv c) (hval : Valued c) (hv : (c.state.pipeExecutePkt 6).packetValid = true)
    (hrd : (c.state.pipeExecutePkt 6).rdMem = true) : ∃ r n f p, c.core.At r n f ∧
      r.pkt.rdMem = true ∧ r.pkt.ldqTag = (c.state.pipeExecutePkt 6).ldqTag ∧ Packet c p n f ∧
      (c.state.pipeExecutePkt 6).result = (unitAnswer 6 p).result ∧
      (c.state.pipeExecutePkt 6).memSize = p.inst.extractLsb' 12 3 := by
  obtain ⟨p, hp, r, n, f, hat, htag, -, hpkt⟩ := hval.execute 6 hv
  obtain ⟨r', n', f', hat', -, htok⟩ := h.at_place (held_execute.2 ⟨hv, rfl⟩)
  have hrob : (c.state.pipeExecutePkt 6).robEntry = p.robEntry := by
    rw [hp]
    rfl
  obtain ⟨rfl, rfl, rfl⟩ := hat.unique h.core.rob.toQueue hat'
    (htag.trans (hrob.symm.trans (congrArg Token.robEntry htok).symm))
  have hload : (recordToken r).load = some (c.state.pipeExecutePkt 6).ldqTag := by
    rw [htok, executeToken, hrd]
    rfl
  obtain ⟨hw, hslot⟩ := memTag_some hload
  exact ⟨r, n, f, p, hat, hw, hslot, hpkt, by rw [hp], by rw [hp]; rfl⟩

/-- **One edge keeps what was executed.** -/
theorem Executed.next (he : Executed c) (h : Inv c) (hval : Valued c) (ok : Ok i c) : Executed (c.next i) := by
  intro r n f k q x hl hx
  obtain ⟨hf, ⟨r₀, f₀, q₀, hl₀, rfl, rfl, rfl⟩ | ⟨-, -, -, -, hnone, -⟩⟩ := hl.cases h ok
  · have hlt := (List.getElem?_eq_some_iff.1 hl₀.buffer.flight).1
    have hkeep : pipeFlush c.state = true → n ≤ c.core.base := fun hf' => by rw [hf] at hf'; cases hf'
    have hstep : (if q₀.tag = (c.state.pipeExecutePkt 6).ldqTag ∧ Lsq.executeLdqValid (c.lsqIn i) = true then
        some ⟨(c.state.pipeExecutePkt 6).result, (c.state.pipeExecutePkt 6).memSize,
          (c.state.pipeExecutePkt 6).destPrn, (c.state.pipeExecutePkt 6).robEntry⟩ else q₀.exec) = some x := by
      rw [← hx]
      show _ = if q₀.tag == (c.state.pipeExecutePkt 6).ldqTag && Lsq.executeLdqValid (c.lsqIn i) then _ else _
      simp only [Bool.and_eq_true, beq_iff_eq]
      rfl
    split at hstep
    · rename_i hhit
      obtain rfl := Option.some.inj hstep
      obtain ⟨hv, hrd⟩ := Bool.and_eq_true_iff.1 hhit.2
      obtain ⟨r', n', f', p, hat', hw, hslot, hpkt, hresult, hsize⟩ := executing_served h hval hv hrd
      -- the load that executes has the slot of this one
      have hrd₀ := (h.decoded.copies r₀ n f₀ hl₀.buffer).rdMem.trans hl₀.load
      obtain rfl := load_unique h.linked h.backend.ldq (List.mem_of_getElem? hl₀.buffer.live)
        (List.mem_of_getElem? hat'.live) hrd₀ hw (hl₀.tag.symm.trans (hhit.1.trans hslot.symm))
      obtain ⟨rfl, -, rfl⟩ := hl₀.buffer.unique h.core.rob.toQueue hat' rfl
      exact ⟨p, hpkt.next (Nat.le_of_lt hlt) hkeep _, hresult, hsize⟩
    · obtain ⟨p, hp, haddr, hsize⟩ := he r₀ n f₀ k q₀ x hl₀ hstep
      exact ⟨p, hp.next (Nat.le_of_lt hlt) hkeep _, haddr, hsize⟩
  · rw [hnone] at hx
    cases hx

theorem Executed.init : Executed Config.init := fun _ _ _ _ _ _ hl => by cases hl.buffer.live

/-! ### What is broadcast for a load -/

/-- **What a lane carries for a load is what the queue offers for its entry.** -/
theorem lane_load (h : Inv c) (ok : Ok i c) {w : Way} (hv : (cdbPkt i c.state w).packetValid = true)
    (hat : c.core.At r n f) (htag : r.tag = (cdbPkt i c.state w).robEntry) (hload : f.pkt.rdMem = true) :
    c.takes i r.pkt.ldqTag = true ∧ (cdbPkt i c.state w).result =
      Ldq.writebackData (c.backend.ldqIn i) c.state.lsq.ldq := by
  obtain ⟨q, t, hheld, hd, -, hlane, hrob, -⟩ := lane_held (h.unit ok) h.parted hv
  obtain ⟨r', n', f', hat', -, htok⟩ := h.at_place hheld
  obtain ⟨rfl, rfl, rfl⟩ := hat.unique h.core.rob.toQueue hat'
    (htag.trans (hrob.symm.trans (congrArg Token.robEntry htok).symm))
  have htl : t.load = some r.pkt.ldqTag := by
    rw [← htok]
    exact record_load ((h.decoded.copies r n f hat).rdMem.trans hload)
  have hmem := h.parted.memory _ _ hheld
  rw [htl, Option.isSome_some, Bool.true_or] at hmem
  cases q with
  | stage s =>
    rw [Config.dest] at hd
    split at hd <;> cases hd
  | execute v =>
    obtain rfl : v = 6 := beq_iff_eq.1 hmem.symm
    obtain ⟨-, rfl⟩ := held_execute.1 hheld
    rw [Config.dest, if_pos rfl, show memTag _ _ = _ from htl] at hd
    cases hd
  | load k =>
    obtain ⟨-, -, rfl⟩ := held_load.1 hheld
    rw [Config.dest] at hd
    split at hd
    · rename_i hk
      obtain rfl : k = r.pkt.ldqTag := Option.some.inj htl
      obtain rfl : (6 : Way) = w := hlane
      obtain ⟨-, -, hst⟩ := takes_iff.1 hk
      refine ⟨hk, ?_⟩
      rw [cdbPkt, if_pos rfl, hst, if_neg Bool.false_ne_true]
      rfl
    · cases hd

end

end R10K.Whole
