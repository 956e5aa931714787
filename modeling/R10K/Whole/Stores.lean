import R10K.Stq.Drain
import R10K.Whole.Ranks
import R10K.Whole.Sequential

/-! The stores of the committed program, in order.

A store that executes leaves its address and its datum in the entry that stands at its rank,
and they are what the address unit makes of the program's values. The retired entries are
sent in order, so what the data cache is given is the list of stores that the committed
words perform when they are executed one after the other. -/
namespace R10K.Whole
open Backend Lanes Rv32

/-- The write of store `n`: what its unit makes of the program's values. -/
def Wrote (c : Config) (n : Nat) (f : Core.Flight) (w : Write) : Prop :=
  ∃ p, Packet c p n f ∧ w = ((unitAnswer 6 p).result, p.op2Val, p.inst.extractLsb' 12 3)

/-- An entry with its write has that of the store that stands there. -/
def Stored (c : Config) : Prop := ∀ n f q w, c.core.trace[n]? = some f → f.pkt.wrMem = true →
  c.backend.stqLog.stores[c.rank RenamePacket.wrMem n]? = some q → q.write = some w → Wrote c n f w

section
variable {c : Config} {i : Inputs} {n : Nat} {f : Core.Flight}

/-! ### A store that executes -/

theorem Wrote.next {w : Write} (h : Wrote c n f w) (hn : n ≤ c.core.trace.length)
    (hf : pipeFlush c.state = true → n ≤ c.core.base) (issues : Bool) :
    Wrote (c.next i) n (f.next (c.coreIn i) issues) w := by
  obtain ⟨p, hp, rfl⟩ := h
  exact ⟨p, hp.next hn hf issues, rfl⟩

/-- The store on lane 6 of the bus and its write. -/
theorem executing_wrote (h : Inv c) (hval : Valued c) (hst : storeOnCdb c.state = true) :
    ∃ r n f, c.core.At r n f ∧ f.pkt.wrMem = true ∧ r.pkt.stqTag = (c.state.pipeExecutePkt 6).stqTag ∧
      Wrote c n f ((c.state.pipeExecutePkt 6).result, (c.state.pipeExecutePkt 6).stData,
        (c.state.pipeExecutePkt 6).memSize) := by
  obtain ⟨hv, hwr⟩ := Bool.and_eq_true_iff.1 hst
  obtain ⟨p, hp, r, n, f, hat, htag, -, hpkt⟩ := hval.execute 6 hv
  obtain ⟨r', n', f', hat', -, htok⟩ := h.at_place (held_execute.2 ⟨hv, rfl⟩)
  have hrob : (c.state.pipeExecutePkt 6).robEntry = p.robEntry := by
    rw [hp]
    rfl
  obtain ⟨rfl, rfl, rfl⟩ := hat.unique h.core.rob.toQueue hat'
    (htag.trans (hrob.symm.trans (congrArg Token.robEntry htok).symm))
  have hstore : (recordToken r).store = some (c.state.pipeExecutePkt 6).stqTag := by
    rw [htok, executeToken, hwr]
    rfl
  obtain ⟨hw, hslot⟩ := memTag_some hstore
  refine ⟨r, n, f, hat, (h.decoded.copies r n f hat).wrMem.symm.trans hw, hslot, p, hpkt, ?_⟩
  rw [hp]
  rfl

/-- What a cycle gives an entry. -/
theorem execute_eq (q : Stq.Store) : q.execute (c.backend.stqIn i) =
    if q.tag = (c.state.pipeExecutePkt 6).stqTag ∧ storeOnCdb c.state = true then
      ⟨q.tag, some (c.state.pipeExecutePkt 6).result,
        some ((c.state.pipeExecutePkt 6).stData, (c.state.pipeExecutePkt 6).memSize)⟩
    else q := by
  show Stq.Store.mk q.tag (if q.tag == (c.state.pipeExecutePkt 6).stqTag && storeOnCdb c.state then _ else _)
    (if q.tag == (c.state.pipeExecutePkt 6).stqTag && storeOnCdb c.state then _ else _) = _
  simp only [Bool.and_eq_true, beq_iff_eq]
  split <;> rfl

/-- Entries that are not retired have slots of their own. -/
theorem live_slot (h : Inv c) {k k' : Nat} {q q' : Stq.Store} (hk : c.backend.stqLog.retired ≤ k)
    (hk' : c.backend.stqLog.retired ≤ k') (hq : c.backend.stqLog.stores[k]? = some q)
    (hq' : c.backend.stqLog.stores[k']? = some q') (ht : q.tag = q'.tag) : k = k' := by
  have hroom : c.backend.stqLog.stores.length ≤ c.backend.stqLog.sent.length + 16 := h.backend.stq.room
  have hsent : c.backend.stqLog.sent.length ≤ c.backend.stqLog.retired := h.backend.stq.sent_le
  have hlt := (List.getElem?_eq_some_iff.1 hq).1
  have hlt' := (List.getElem?_eq_some_iff.1 hq').1
  refine Circular.Ptr.idx_inj_window (w := 4) (b := c.backend.stqLog.retired) (by omega) (by omega) ?_
  rw [← h.backend.stq.tag k q hq, ← h.backend.stq.tag k' q' hq', ht]

/-! ### One edge -/

/-- What is dispatched was in the dispatch register. -/
theorem dispatchedTo_next (h : Core.Inv c.core) (hf : pipeFlush c.state = false) :
    (c.next i).dispatchedTo ≤ c.core.trace.length := by
  have hlen := Core.base_length h.spine
  have hret := Core.retire_le_live h.spine
  have hbase : (c.next i).core.base = c.core.base + Rob.retireEnCnt c.state.core.spine.rob :=
    Core.next_base (c := c.core) (c.coreIn i) hf
  have hlive := congrArg List.length (live_next (i := i) h hf)
  have hdis : (Rob.dispatching (c.robIn i) c.state.core.spine.rob).length =
      (Spine.renameGroup c.core.state.spine).length := by
    rw [Rob.dispatching, Spine.renameGroup, List.length_map, List.length_map]
    rfl
  rw [List.length_append, List.length_drop, List.length_map, hdis] at hlive
  have hbuffer : c.core.robLog.live.length = c.backend.robLog.live.length := rfl
  have hret' : Rob.retireEnCnt c.state.core.spine.rob ≤ c.core.robLog.live.length := hret
  rw [Config.dispatchedTo, hbase, hlive]
  omega

/-- **One edge keeps the writes.** -/
theorem Stored.next (hs : Stored c) (h : Inv c) (hval : Valued c) (hc : Counted c) (ok : Ok i c) :
    Stored (c.next i) := by
  intro n f q w hn hw hq hwrite
  have hstq : (c.next i).backend.stqLog = c.backend.stqLog.next (c.backend.stqIn i) c.state.lsq.stq := rfl
  have hretired_le : c.backend.stqLog.retired ≤ c.backend.stqLog.stores.length := h.backend.stq.retired_le
  rcases Core.next_get (c := c.core) (i := c.coreIn i) hn with ⟨f₀, hn₀, rfl, hkeep⟩ | ⟨hf, -, j, l, -, rfl, rfl⟩
  · have hlt := (List.getElem?_eq_some_iff.1 hn₀).1
    have hle : pipeFlush c.state = true → n ≤ c.core.base := fun hf => Nat.le_of_lt (hkeep hf)
    rw [rank_next (Nat.le_of_lt hlt) hle, hstq, Stq.Log.next_get _ _ _ hretired_le] at hq
    have hold : ∀ q, c.backend.stqLog.stores[c.rank RenamePacket.wrMem n]? = some q → q.write = some w →
        Wrote (c.next i) n (f₀.next (c.coreIn i) (c.core.issues n)) w := fun q hq hwrite =>
      (hs n f₀ q w hn₀ hw hq hwrite).next (Nat.le_of_lt hlt) hle _
    split at hq
    · exact hold q hq hwrite
    · rename_i hretired
      split at hq
      · split at hq
        · cases hq
        · obtain ⟨q₀, hq₀, rfl⟩ := Option.map_eq_some_iff.1 hq
          rw [execute_eq] at hwrite
          split at hwrite
          · rename_i hhit
            obtain rfl := Option.some.inj hwrite
            -- the store that executes has the slot of this one
            obtain ⟨r, m, g, hat, hg, hslot, hwrote⟩ := executing_wrote h hval hhit.2
            obtain ⟨q', hq', hview⟩ := store_at h hc hat hg
            have hrank : c.rank RenamePacket.wrMem _ ≤ _ := rank_mono hat.le
            have hleaving := hc.leaving
            have hplace := live_slot h (Nat.le_of_not_lt hretired) (by omega) hq₀ hq'
              (hhit.1.trans (hslot.symm.trans (congrArg Prod.fst hview).symm))
            obtain rfl := rank_inj hn₀ hat.flight hw hg hplace
            obtain rfl : f₀ = g := Option.some.inj (hn₀.symm.trans hat.flight)
            exact hwrote.next (Nat.le_of_lt hlt) hle _
          · exact hold q₀ hq₀ hwrite
      · split at hq
        · cases hq
        · obtain ⟨l, -, rfl⟩ := List.mem_map.1 (List.mem_of_getElem? hq)
          cases hwrite
  · -- what is renamed now is not in the queue
    have hlt := (List.getElem?_eq_some_iff.1 hq).1
    rw [stores_length (h.next ok) (hc.next h)] at hlt
    have hrank : (c.next i).rank RenamePacket.wrMem _ ≤ _ := rank_mono
      (Nat.le_trans (dispatchedTo_next h.core (i := i) hf) (Nat.le_add_right c.core.trace.length j))
    omega

theorem Stored.init : Stored Config.init := fun _ _ _ _ hn => by cases hn

theorem Stored.of_reach (h : Reach c) : (Inv c ∧ Valued c ∧ Computed c) ∧ Counted c ∧ Stored c :=
  Run.Reach.invariant (fun c => (Inv c ∧ Valued c ∧ Computed c) ∧ Counted c ∧ Stored c)
    ⟨⟨Inv.init, Valued.init, Computed.init⟩, Counted.init, Stored.init⟩
    (fun _ _ hc ok => ⟨⟨hc.1.1.next ok, hc.1.2.1.next hc.1.1 ok, hc.1.2.2.next hc.1.1 hc.1.2.1 ok⟩,
      hc.2.1.next hc.1.1, hc.2.2.next hc.1.1 hc.1.2.1 hc.2.1 ok⟩) h

/-! ### The stores of the program -/

/-- The write of a committed store, as its entry has it. -/
def Config.asked (c : Config) (n : Nat) : Option Write :=
  if (c.core.trace[n]?).any fun f => f.pkt.wrMem then
    (c.backend.stqLog.stores[c.rank RenamePacket.wrMem n]?).bind Stq.Store.write
  else none

/-- The word of a store. -/
theorem store_of {i : Instr} (hm : Core.Made f) (hi : encode i = f.pkt.inst) (hst : f.pkt.wrMem = true) :
    ∃ op rs1 rs2 imm, i = .store op rs1 rs2 imm := by
  rw [hm.wrMem, control_of hi] at hst
  cases i with
  | store op rs1 rs2 imm => exact ⟨op, rs1, rs2, imm, rfl⟩
  | opImm op | shiftImm op | reg op | mul op => cases op <;> cases hst
  | _ => cases hst

/-- A word that encodes no instruction is no store. -/
theorem no_store (hm : Core.Made f) (hno : ∀ i, encode i ≠ f.pkt.inst) : f.pkt.wrMem = false := by
  cases hst : f.pkt.wrMem with
  | false => rfl
  | true =>
    have hill : (Decoder.control f.pkt.inst).illegal = true := (Decoder.illegal_iff _).2 hno
    have hfin := hm.proceeds (by rw [hst, Bool.or_true])
    rw [Core.finishes, hm.illegal, hill, Bool.or_true] at hfin
    cases hfin

/-- The address unit's answer is the instruction's address. -/
theorem agu_result {i : Instr} {p : RegReadPacket} {a : Word} (hm : Core.Made f) (hp : Packet c p n f)
    (hi : encode i = f.pkt.inst) (ha : i.address (c.regs n) = some a) : (unitAnswer 6 p).result = a := by
  have hrun : (Decoder.control f.pkt.inst).illegal = false ∧ (Decoder.control f.pkt.inst).halt = false := by
    rw [control_of hi]
    cases i with
    | load | store => exact ⟨rfl, rfl⟩
    | _ => cases ha
  obtain ⟨h1, h2⟩ := filled_muxes hm hp hrun
  have hway : ¬ (6 : Way) < 4 ∧ (6 : Way) ≠ 4 ∧ (6 : Way) ≠ 5 := by decide
  rw [unitAnswer, if_neg hway.2.1, Fu.executePkt, if_neg hway.1, if_neg hway.2.1, if_neg hway.2.2]
  show Fu.op1MuxOut p + Fu.op2MuxOut p = _
  rw [← h1, ← h2]
  exact Fu.agu_address rfl hi (carries hm hp 0) ha

/-- **A write is its store's**, on the registers the program gave it. -/
theorem wrote_instr {i : Instr} {w : Write} (hm : Core.Made f) (hw : Wrote c n f w) (hst : f.pkt.wrMem = true)
    (hi : encode i = f.pkt.inst) : some w = i.write (c.regs n) := by
  obtain ⟨p, hp, rfl⟩ := hw
  obtain ⟨op, rs1, rs2, imm, rfl⟩ := store_of hm hi hst
  have haddr : (unitAnswer 6 p).result = c.regs n rs1 + immWord imm := agu_result hm hp hi rfl
  have hdatum : p.op2Val = c.regs n rs2 := by
    rw [← op2_used hm hp]
    · show c.regs n (p.inst.extractLsb' 20 5) = _
      rw [hp.inst, ← hi, encode_rs2 rfl]
    · rw [hm.useOp2, control_of hi]
      rfl
  have hsize : p.inst.extractLsb' 12 3 = op.funct3 := by
    rw [hp.inst, ← hi]
    exact rType_funct3 ..
  rw [haddr, hdatum, hsize]
  rfl

/-- A committed store has retired with its write. -/
theorem committed_store (h : Inv c) (hc : Counted c) (hn : c.core.trace[n]? = some f) (hlt : n < c.core.committed)
    (hst : f.pkt.wrMem = true) : ∃ q w, c.backend.stqLog.stores[c.rank RenamePacket.wrMem n]? = some q ∧
      q.write = some w := by
  have hsucc : c.rank RenamePacket.wrMem (n + 1) = _ := rank_succ hn
  rw [hst, Bool.toNat_true] at hsucc
  have hmono : c.rank RenamePacket.wrMem (n + 1) ≤ c.rank RenamePacket.wrMem c.core.committed := rank_mono hlt
  have hretired := hc.retired
  have hle : c.backend.stqLog.retired ≤ c.backend.stqLog.stores.length := h.backend.stq.retired_le
  have hrank : c.rank RenamePacket.wrMem n < c.backend.stqLog.retired := by omega
  have hget := List.getElem?_eq_getElem (l := c.backend.stqLog.stores) (i := c.rank RenamePacket.wrMem n) (by omega)
  obtain ⟨w, hw⟩ := Option.isSome_iff_exists.1 (h.lsq.stq.written _ _ hrank hget)
  exact ⟨_, w, hget, hw⟩

theorem asked_store (hn : c.core.trace[n]? = some f) (hst : f.pkt.wrMem = true) :
    c.asked n = (c.backend.stqLog.stores[c.rank RenamePacket.wrMem n]?).bind Stq.Store.write := by
  rw [Config.asked, hn, Option.any_some, if_pos hst]

theorem asked_none (hn : c.core.trace[n]? = some f) (hst : f.pkt.wrMem = false) : c.asked n = none := by
  rw [Config.asked, hn, Option.any_some, hst, if_neg Bool.false_ne_true]

/-- A committed instruction asks for the write its word says, or for none. -/
theorem steps_ask (h : Inv c) (hc : Counted c) (hstored : Stored c) (n : Nat) (s : Step)
    (hn : c.steps[n]? = some s) : s.Asks (c.regs n) (c.asked n) := by
  obtain ⟨f, hf, hlt, rfl⟩ := steps_get hn
  have hm := h.decoded.made f (List.mem_of_getElem? hf)
  cases hst : f.pkt.wrMem with
  | true =>
    obtain ⟨q, w, hq, hw⟩ := committed_store h hc hf hlt hst
    rw [asked_store hf hst, hq, Option.bind_some, hw]
    refine ⟨fun i hi => wrote_instr hm (hstored n f q w hf hst hq hw) hst hi, fun hno => ?_⟩
    rw [no_store hm hno] at hst
    cases hst
  | false =>
    rw [asked_none hf hst]
    refine ⟨fun i hi => ?_, fun _ => rfl⟩
    rw [hm.wrMem, control_of hi] at hst
    cases i with
    | store => cases hst
    | _ => rfl

/-- The first stores of the queue are those of the first instructions. -/
theorem retired_writes (h : Inv c) (hc : Counted c) : ∀ n, n ≤ c.core.committed →
    (c.backend.stqLog.stores.take (c.rank RenamePacket.wrMem n)).map Stq.Store.write =
      ((List.range n).filterMap c.asked).map some := by
  have hle := committed_le h
  intro n
  induction n with
  | zero => exact fun _ => rfl
  | succ n ih =>
    intro hn
    have hget := List.getElem?_eq_getElem (l := c.core.trace) (i := n) (by omega)
    rw [rank_succ hget, List.range_succ, List.filterMap_append, List.map_append, ← ih (by omega)]
    cases hst : c.core.trace[n].pkt.wrMem with
    | true =>
      obtain ⟨q, w, hq, hw⟩ := committed_store h hc hget hn hst
      have hasked := asked_store hget hst
      rw [hq, Option.bind_some, hw] at hasked
      rw [Bool.toNat_true, List.take_add_one, hq, List.map_append, List.filterMap_cons, hasked]
      show _ ++ [q.write] = _
      rw [hw]
      rfl
    | false =>
      rw [Bool.toNat_false, Nat.add_zero, List.filterMap_cons, asked_none hget hst]
      exact (List.append_nil _).symm

/-- **The stores of the committed program reach the data cache in order**: what the store
queue has retired is the list of stores that the committed words perform when they are
executed one after the other, and what it has sent is the beginning of this list. -/
theorem stores_in_order (h : Reach c) (hs : Always Supported (fun _ => 0) c.steps) :
    ∃ ws, Runs (fun _ => 0) c.steps c.archRegs ws ∧
      (c.backend.stqLog.stores.take c.backend.stqLog.retired).map Stq.Store.write = ws.map some ∧
      c.backend.stqLog.sent <+: ws := by
  obtain ⟨⟨hinv, -, hcomp⟩, hc, hstored⟩ := Stored.of_reach h
  have hwrites := retired_writes hinv hc c.core.committed (Nat.le_refl _)
  rw [← hc.retired] at hwrites
  refine ⟨(List.range c.core.committed).filterMap c.asked, ?_, hwrites, ?_⟩
  · rw [archRegs_eq hinv, ← steps_length hinv]
    exact @Runs.of_steps Supported c.steps c.regs c.asked hs (steps_perform hinv hcomp) fun n s hn _ =>
      steps_ask hinv hc hstored n s hn
  · have hle : c.backend.stqLog.sent.length ≤ c.backend.stqLog.retired := hinv.backend.stq.sent_le
    have horder : c.backend.stqLog.sent.map some =
        (c.backend.stqLog.stores.take c.backend.stqLog.sent.length).map Stq.Store.write := hinv.lsq.stq.order
    have hfirst : (c.backend.stqLog.stores.take c.backend.stqLog.retired).take c.backend.stqLog.sent.length =
        c.backend.stqLog.stores.take c.backend.stqLog.sent.length := by
      rw [List.take_take, Nat.min_eq_left hle]
    have htake : c.backend.stqLog.sent.map some =
        (((List.range c.core.committed).filterMap c.asked).take c.backend.stqLog.sent.length).map some := by
      rw [horder, ← hfirst, List.map_take, hwrites, List.map_take]
    rw [List.map_injective_iff.2 (Option.some_injective _) htake]
    exact List.take_prefix _ _

/-! `addi x1, x0, 5` and `sw x1, 64(x0)`, in front of a data cache that is ready for stores. -/

def storeIn : Inputs :=
  { quietIn with fetchPkt := fun l =>
      if l = 0 then { inst := 0x00500093, packetValid := true }
      else if l = 1 then { inst := 0x04102023, pc := 4, packetValid := true }
      else {} }

def drainIn : Inputs := { quietIn with fireStReady := true }

def storeAfter : Nat → Config
  | 0 => Config.init.next storeIn
  | n + 1 => (storeAfter n).next drainIn

theorem storeAfter_alone : ∀ n, n < 14 → (storeAfter n).state.lsq.stq.fwdValid = false := by decide +kernel

theorem storeAfter_reach : ∀ n, n ≤ 14 → Reach (storeAfter n)
  | 0, _ => .step storeIn .init (ok_alone ⟨(show Contiguous _ by decide), fun h => by cases h⟩ rfl rfl)
  | n + 1, hn => .step drainIn (storeAfter_reach n (by omega))
      (ok_alone ⟨fun _ _ _ _ _ h => (by cases h), fun _ _ => rfl⟩ rfl (storeAfter_alone n (by omega)))

theorem storeAfter_words : ∀ s ∈ (storeAfter 14).steps,
    (Decoder.control s.word).csrOp = false ∧ (Decoder.control s.word).aluFunc ≠ .mulhsu := by decide +kernel

theorem stores_in_order_one : (storeAfter 14).backend.stqLog.sent = [(0x40, 5, 2)] ∧
    ∃ ws, Runs (fun _ => 0) (storeAfter 14).steps (storeAfter 14).archRegs ws ∧
      (storeAfter 14).backend.stqLog.sent <+: ws := by
  refine ⟨by decide +kernel, ?_⟩
  obtain ⟨ws, hruns, -, hsent⟩ := stores_in_order (storeAfter_reach 14 (Nat.le_refl _)) fun n r s i _ hn hi => by
    obtain ⟨hcsr, hmul⟩ := storeAfter_words s (List.mem_of_getElem? hn)
    exact supported_of hi hcsr hmul
  exact ⟨ws, hruns, hsent⟩

end

end R10K.Whole
