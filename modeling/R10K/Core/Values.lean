import R10K.Core.Trace

/-! The values of the core.

The register file is faithful to the trace, the busy table marks the destinations whose
value has not been broadcast, and everything that has left the buffer has its result.
One edge keeps it. -/
namespace R10K.Core
open Lanes Renaming Dataflow

/-- The values the committed instructions left, and the instructions in flight. -/
def Config.arch (c : Config) : Arn → Option (BitVec 32) := c.source c.committed
def Config.inFlight (c : Config) : List (Op Arn Prn (BitVec 32)) := c.ops.drop c.committed

/-- A NOP, a halt or an illegal instruction: complete when it is dispatched. -/
def finishes (p : RenamePacket) : Bool := p.inst == nop || p.halt || p.illegal

/-- The buffer and its instructions. -/
structure Records (c : Config) : Prop where
  done : ∀ r n f, c.At r n f → r.done = true →
    f.issued = true ∧ (f.pkt.destArn ≠ 0 → f.result.isSome = true)
  complete : ∀ r n f, c.At r n f → r.completeAtDispatch = true → f.pkt.destArn = 0
  waits : ∀ l n f, c.Waits l n f →
    f.pkt = c.state.spine.pipeRenamePkt l ∧ f.issued = false ∧ f.result = none
  plain : ∀ f ∈ c.trace, finishes f.pkt = true → f.pkt.destArn = 0
  settled : ∀ n f, n < c.base → c.trace[n]? = some f → f.pkt.destArn ≠ 0 → f.result.isSome = true

structure Inv (c : Config) : Prop extends Records c where
  spine : Spine.Inv c.spine
  rob : Rob.Inv c.spine.rob
  faithful : Faithful c.state.registers c.state.spine.archRat c.arch c.inFlight
  busy : c.state.spine.recovArchSt = false → Busy c.state.spine.rename.busyTable c.inFlight

section
variable {i : Inputs} {c : Config}

/-! ### Records -/

/-- A retiring record is finished. -/
theorem retiring_finished (hr : Rob.Inv c.spine.rob) {r : Rob.Record} {n : Nat} {f : Flight}
    (hat : c.At r n f) (hlt : n < c.base + Rob.retireEnCnt c.state.spine.rob) :
    r.done = true ∨ r.completeAtDispatch = true := by
  have h4 := Rob.retireEnCnt_le c.state.spine.rob
  have hle := hat.le
  obtain ⟨r', hr', hret⟩ := hr.retiring_record ⟨n - c.base, by omega⟩
    ((Rob.retireEn_iff c.state.spine.rob (n - c.base) (by omega)).2 (by omega))
  have hlive := hat.live
  rw [Rob.Log.live, List.getElem?_drop] at hlive
  have heq : some r = some r' := hlive.symm.trans hr'
  rw [Option.some.inj heq]
  exact hret.finished

/-- A writeback of a record's tag is its instruction's broadcast. -/
theorem hit_own (hq : Rob.Queue c.spine.rob) (ok : Ok i c) {r : Rob.Record} {n : Nat} {f : Flight}
    (hat : c.At r n f) (hhit : Rob.hit (c.robIn i) r.tag = true) :
    f.issued = true ∧ (broadcast i f.pkt.destPrn).isSome = true := by
  obtain ⟨w, _, hw⟩ := List.any_eq_true.1 hhit
  rw [Bool.and_eq_true, beq_iff_eq] at hw
  obtain ⟨r', n', f', hat', htag, hissued, hprn, _⟩ := ok.own w hw.1
  obtain ⟨_, _, rfl⟩ := hat.unique hq hat' (hw.2.symm.trans htag.symm)
  refine ⟨hissued, ?_⟩
  rw [broadcast_isSome, List.any_eq_true]
  exact ⟨w, List.mem_finRange w, Bool.and_eq_true_iff.2 ⟨hw.1, beq_iff_eq.2 hprn.symm⟩⟩

theorem okRob (hs : Spine.Inv c.spine) (ok : Ok i c) : Rob.Ok (c.robIn i) c.spine.rob where
  toOkDispatch := hs.okDispatch
  live := by
    intro w hw
    obtain ⟨r, n, f, hat, htag, _⟩ := ok.own w hw
    exact ⟨r, List.mem_of_getElem? hat.live, htag⟩

/-- A lane with a destination other than x0 is named. -/
theorem named (hs : Spine.Inv c.spine) {o : Op Arn Prn (BitVec 32)} (ho : o ∈ c.ops) :
    o.prn = 0 ↔ o.arn = 0 := hs.named o.toInstr (List.mem_map_of_mem ho)

theorem flight_named (hs : Spine.Inv c.spine) {f : Flight} (hf : f ∈ c.trace) :
    f.pkt.destPrn = 0 ↔ f.pkt.destArn = 0 := named hs (List.mem_map_of_mem hf)

/-! ### What an edge renames -/

/-- A group that is taken goes to the dispatch register. -/
theorem next_pipeRenamePkt (hf : Spine.pipeFlush c.state.spine = false)
    (ha : Rename.accept (c.renameIn i) = true) (l : Lane) :
    (c.next i).state.spine.pipeRenamePkt l = (c.flight i l).pkt := by
  have hreg : (c.next i).state.spine.pipeRenamePkt l =
      if Spine.pipeFlush c.state.spine then ({} : RenamePacket)
      else if Rename.accept (c.renameIn i) then (c.flight i l).pkt else {} := rfl
  rw [hreg, hf, ha, if_neg Bool.false_ne_true, if_pos rfl]

/-- An instruction in the next dispatch register is one renamed now. -/
theorem Config.Waits.new (hs : Spine.Inv c.spine) (ok : Ok i c) {l : Lane} {n : Nat} {f : Flight}
    (hw : (c.next i).Waits l n f) : Spine.pipeFlush c.state.spine = false ∧
      Rename.accept (c.renameIn i) = true ∧ f = c.flight i l ∧
      ∃ j, (group fun l => (c.flight i l).pkt.packetValid)[j]? = some l ∧ n = c.trace.length + j := by
  obtain ⟨⟨j, hj, hn⟩, hflight⟩ := hw
  have hv := mem_group.1 (List.mem_of_getElem? hj)
  have hspine := next_spine i c
  have hv' : ((c.spine.next (spineIn i c.state)).state.pipeRenamePkt l).packetValid = true := hv
  obtain ⟨hf, ha⟩ := Spine.next_taken l hv'
  have hf' : Spine.pipeFlush c.state.spine = false := hf
  have ha' : Rename.accept (c.renameIn i) = true := ha
  have hpkt := fun m => next_pipeRenamePkt (i := i) hf' ha' m
  simp only [hpkt] at hj
  have htrace : (c.next i).trace = c.marked i ++ c.renamed i := by
    show (if Spine.pipeFlush c.state.spine then _ else _) = _
    rw [hf', if_neg Bool.false_ne_true]
  have hren : c.renamed i = (group fun l => (c.flight i l).pkt.packetValid).map (c.flight i) := by
    rw [Config.renamed, ha', if_pos rfl]
  have hnum : n = c.trace.length + j := by
    have hs' : Spine.Inv (c.next i).spine := hspine ▸ hs.next ok.toOk
    have hlen := base_length hs'
    have hgroup : (Spine.renameGroup (c.next i).state.spine).length =
        (group fun l => (c.flight i l).pkt.packetValid).length := by
      simp only [Spine.renameGroup, hpkt, List.length_map]
    rw [htrace, List.length_append, marked_length, hren, List.length_map, hgroup] at hlen
    omega
  refine ⟨hf', ha', ?_, j, hj, hnum⟩
  rw [htrace, hnum, List.getElem?_append_right (by rw [marked_length]; omega), marked_length,
    Nat.add_sub_cancel_left, hren, List.getElem?_map, hj] at hflight
  exact (Option.some.inj hflight).symm

/-- An instruction of the next trace is an old one or one renamed now. -/
theorem next_get {n : Nat} {f : Flight} (hn : (c.next i).trace[n]? = some f) :
    (∃ f₀, c.trace[n]? = some f₀ ∧ f = f₀.next i (c.issues n) ∧
      (Spine.pipeFlush c.state.spine = true → n < c.base)) ∨
    (Spine.pipeFlush c.state.spine = false ∧ Rename.accept (c.renameIn i) = true ∧
      ∃ j l, (group fun l => (c.flight i l).pkt.packetValid)[j]? = some l ∧ n = c.trace.length + j ∧
        f = c.flight i l) := by
  have hn' : (if Spine.pipeFlush c.state.spine then (c.marked i).take c.base
    else c.marked i ++ c.renamed i)[n]? = some f := hn
  by_cases hlt : n < c.trace.length
  · have hget := List.getElem?_eq_getElem hlt
    refine .inl ⟨_, hget, ?_, ?_⟩
    · split at hn'
      · have hm : (c.marked i)[n]? = some f := by
          have hb := (List.getElem?_eq_some_iff.1 hn').1
          rw [List.length_take] at hb
          rwa [List.getElem?_take_of_lt (by omega)] at hn'
        rw [marked_get, hget] at hm
        exact (Option.some.inj hm).symm
      · rw [List.getElem?_append_left (by rwa [marked_length]), marked_get, hget] at hn'
        exact (Option.some.inj hn').symm
    · intro hf
      rw [hf, if_pos rfl] at hn'
      have hb := (List.getElem?_eq_some_iff.1 hn').1
      rw [List.length_take] at hb
      omega
  · cases hf : Spine.pipeFlush c.state.spine with
    | true =>
      rw [hf, if_pos rfl] at hn'
      have hb := (List.getElem?_eq_some_iff.1 hn').1
      rw [List.length_take, marked_length] at hb
      omega
    | false =>
      rw [hf, if_neg Bool.false_ne_true, List.getElem?_append_right (by rw [marked_length]; omega),
        marked_length, Config.renamed] at hn'
      cases ha : Rename.accept (c.renameIn i) with
      | false =>
        rw [ha, if_neg Bool.false_ne_true] at hn'
        cases hn'
      | true =>
        rw [ha, if_pos rfl, List.getElem?_map] at hn'
        obtain ⟨l, hl, rfl⟩ := Option.map_eq_some_iff.1 hn'
        exact .inr ⟨rfl, rfl, n - c.trace.length, l, hl, by omega, rfl⟩

/-! ### One edge of the records -/

/-- **One edge keeps the records.** -/
theorem Records.next (h : Records c) (hs : Spine.Inv c.spine) (hr : Rob.Inv c.spine.rob) (ok : Ok i c) :
    Records (c.next i) where
  done := by
    intro r n f hat hd
    obtain ⟨_, ⟨r₀, f₀, hat₀, _, rfl, rfl⟩ | ⟨l, f₀, _, rfl, _⟩⟩ := hat.cases hs
    · have hfin : r₀.done = true ∨ Rob.hit (c.robIn i) r₀.tag = true := by
        rw [Rob.mark] at hd
        split at hd
        · exact .inr (Bool.and_eq_true_iff.1 ‹_›).2
        · exact .inl hd
      rcases hfin with hd₀ | hhit
      · obtain ⟨hissued, hres⟩ := h.done r₀ n f₀ hat₀ hd₀
        refine ⟨Bool.or_eq_true_iff.2 (.inl hissued), fun harn => ?_⟩
        rw [Flight.next, Option.isSome_or, hres harn, Bool.true_or]
      · obtain ⟨hissued, hb⟩ := hit_own hr.toQueue ok hat₀ hhit
        refine ⟨Bool.or_eq_true_iff.2 (.inl hissued), fun harn => ?_⟩
        have hne := fun h0 => harn ((flight_named hs (List.mem_of_getElem? hat₀.flight)).1 h0)
        rw [Flight.next, if_neg hne, Option.isSome_or, hb, Bool.or_true]
    · cases hd
  complete := by
    intro r n f hat hc
    obtain ⟨_, ⟨r₀, f₀, hat₀, _, rfl, rfl⟩ | ⟨l, f₀, hw, rfl, rfl⟩⟩ := hat.cases hs
    · rw [Rob.Record.completeAtDispatch, (Rob.mark_eq_iff (c.robIn i) r₀).2] at hc
      exact h.complete r₀ n f₀ hat₀ hc
    · refine h.plain f₀ (List.mem_of_getElem? hw.flight) ?_
      rw [(h.waits l n f₀ hw).1]
      have hc' : ((c.state.spine.pipeRenamePkt l).inst == nop ||
          (if (c.state.spine.pipeRenamePkt l).halt then ExceptionCode.haltedOnWfi
            else if (c.state.spine.pipeRenamePkt l).illegal then .illegalInst else .noError) != .noError) = true := hc
      rw [finishes]
      cases hh : (c.state.spine.pipeRenamePkt l).halt <;>
        cases hi : (c.state.spine.pipeRenamePkt l).illegal <;> simp [hh, hi] at hc' ⊢
      exact hc'
  waits := by
    intro l n f hw
    obtain ⟨hf, ha, rfl, _⟩ := hw.new hs ok
    exact ⟨(next_pipeRenamePkt hf ha l).symm, rfl, rfl⟩
  plain := by
    intro f hf hfin
    obtain ⟨n, hn⟩ := List.getElem?_of_mem hf
    rcases next_get hn with ⟨f₀, h₀, rfl, _⟩ | ⟨_, _, _, l, _, _, rfl⟩
    · exact h.plain f₀ (List.mem_of_getElem? h₀) hfin
    · exact Decoder.decode_finishes ((c.renameIn i).fetchPkt l)
        (c.state.spine.rename.aluAllocHead + Decoder.validBefore (c.renameIn i).fetchPkt l) hfin
  settled := by
    intro n f hn hflight harn
    have hkeep : ∀ f₀, c.trace[n]? = some f₀ → (Spine.pipeFlush c.state.spine = true → n < c.base) →
        (f₀.pkt.destArn ≠ 0 → f₀.result.isSome = true) → f.result.isSome = true := by
      intro f₀ h₀ hlt hres
      rw [next_flight i h₀ hlt] at hflight
      cases hflight
      rw [Flight.next, Option.isSome_or, hres harn, Bool.true_or]
    cases hf : Spine.pipeFlush c.state.spine with
    | true =>
      have hempty : Spine.retireGroup (c.next i).state.spine = [] :=
        Spine.retireRead_flush (c := c.spine) (i := spineIn i c.state) Spine.retireInstr hf
      have hbase : (c.next i).base = c.base := by
        rw [Config.base, hempty]
        rfl
      rw [hbase] at hn
      have hlt : n < c.trace.length := by
        have := base_length hs
        omega
      exact hkeep _ (List.getElem?_eq_getElem hlt) (fun _ => hn) (h.settled n _ hn (List.getElem?_eq_getElem hlt))
    | false =>
      rw [next_base i c hf] at hn
      have hret := retire_le_live hs
      have hlen := base_length hs
      have hget := List.getElem?_eq_getElem (l := c.trace) (i := n) (by omega)
      refine hkeep _ hget (fun hf' => ?_) fun harn₀ => ?_
      · rw [hf] at hf'
        cases hf'
      · by_cases hlt : n < c.base
        · exact h.settled n _ hlt hget harn₀
        · -- an instruction that retires now is finished
          have hlive : n - c.base < c.robLog.live.length := by omega
          have hat : c.At (c.robLog.live.get ⟨n - c.base, hlive⟩) n _ :=
            ⟨by omega, List.getElem?_eq_getElem hlive, hget⟩
          rcases retiring_finished hr hat hn with hd | hc
          · exact (h.done _ n _ hat hd).2 harn₀
          · exact absurd (h.complete _ n _ hat hc) harn₀

/-! ### Sources -/

/-- Before an instruction that no flush drops, the program is the same and has heard what
is broadcast. -/
theorem next_take (i : Inputs) {n : Nat} (hn : n ≤ c.trace.length)
    (hkeep : Spine.pipeFlush c.state.spine = true → n ≤ c.base) :
    (c.next i).ops.take n = (c.ops.take n).map (hear (broadcast i)) := by
  have htake : (c.next i).trace.take n = (c.marked i).take n := by
    show (if Spine.pipeFlush c.state.spine then (c.marked i).take c.base
      else c.marked i ++ c.renamed i).take n = _
    cases hf : Spine.pipeFlush c.state.spine with
    | true => rw [if_pos rfl, List.take_take, Nat.min_eq_left (hkeep hf)]
    | false => rw [if_neg Bool.false_ne_true, List.take_append_of_le_length (by rwa [marked_length])]
  rw [Config.ops, ← List.map_take, htake, List.map_take, marked_ops, List.map_take]

theorem start_isSome (a : Arn) : ((fun _ => some 0 : Arn → Option (BitVec 32)) a).isSome = true := rfl

/-- An operand is there after an edge if it was there, or if its register is broadcast. -/
theorem source_next (hs : Spine.Inv c.spine) (i : Inputs) {n : Nat} (hn : n ≤ c.trace.length)
    (hkeep : Spine.pipeFlush c.state.spine = true → n ≤ c.base) (a : Arn) :
    ((c.next i).source n a).isSome = ((c.source n a).isSome ||
      (broadcast i (replay (fun _ => 0) (instrs (c.ops.take n)) a)).isSome) := by
  rw [Config.source, next_take i hn hkeep]
  exact values_hear (broadcast i) start_isSome
    (fun o ho => (named hs (List.mem_of_mem_take ho)).1) a

theorem source_stays (i : Inputs) {n : Nat} (hn : n ≤ c.trace.length)
    (hkeep : Spine.pipeFlush c.state.spine = true → n ≤ c.base) {a : Arn} {x : BitVec 32}
    (hx : c.source n a = some x) : (c.next i).source n a = some x := by
  rw [Config.source, next_take i hn hkeep]
  exact values_hear_some (broadcast i) hx

/-! ### What is broadcast -/

/-- Broadcasts are for instructions in flight without a result. -/
theorem fresh (ok : Ok i c) : Fresh (broadcast i) c.inFlight := by
  intro p hp hb
  obtain ⟨w, hw, rfl⟩ := broadcast_lane hb
  obtain ⟨r, n, f, hat, _, _, hprn, hnone⟩ := ok.own w hw
  have hle := hat.le
  have hbase : c.base = c.committed + (Spine.retireGroup c.state.spine).length := rfl
  refine ⟨f.op, ?_, hprn, hnone (hprn ▸ hp)⟩
  have hget : c.inFlight[n - c.committed]? = some f.op := by
    rw [Config.inFlight, List.getElem?_drop, Nat.add_sub_cancel' (by omega), Config.ops, List.getElem?_map,
      hat.flight]
    rfl
  exact List.mem_of_getElem? hget

/-- In the recovery cycle nothing is in flight, and nothing is broadcast. -/
theorem recov_empty (hs : Spine.Inv c.spine) (hr : c.state.spine.recovArchSt = true) : c.inFlight = [] := by
  have hempty : instrs c.inFlight = [] := by
    rw [Config.inFlight, instrs, List.map_drop]
    exact hs.program.trans (hs.recovering hr).inFlight
  exact List.map_eq_nil_iff.1 hempty

theorem recov_silent (hs : Spine.Inv c.spine) (ok : Ok i c) (hr : c.state.spine.recovArchSt = true)
    (p : Prn) (hp : p ≠ 0) : broadcast i p = none := by
  cases hb : broadcast i p with
  | none => rfl
  | some x =>
    obtain ⟨o, ho, _⟩ := fresh ok p hp (by rw [hb]; rfl)
    rw [recov_empty hs hr] at ho
    cases ho

/-- Between a recovery and the next flush every register is held once. -/
theorem conserved (hs : Spine.Inv c.spine) (hr : c.state.spine.recovArchSt = false) :
    Conserved c.state.spine.rename.freeList c.state.spine.archRat (instrs c.inFlight) := by
  rw [Config.inFlight, instrs, List.map_drop]
  have hprog : (instrs c.ops).drop c.committed = c.spine.inFlight := hs.program
  rw [instrs] at hprog
  rw [hprog]
  exact (hs.steady hr).conserved

theorem inFlight_mem {o : Op Arn Prn (BitVec 32)} (ho : o ∈ c.inFlight) : o ∈ c.ops := List.mem_of_mem_drop ho

/-- What is in flight after an edge. -/
theorem next_inFlight (hs : Spine.Inv c.spine) (i : Inputs) : (c.next i).inFlight =
    if Spine.pipeFlush c.state.spine then []
    else (c.inFlight.map (hear (broadcast i))).drop (Spine.retireGroup c.state.spine).length ++
      (c.renamed i).map Flight.op := by
  have hlen := base_length hs
  have hcom : (c.next i).committed = c.base := rfl
  rw [Config.inFlight, hcom, Config.ops]
  show ((if Spine.pipeFlush c.state.spine then (c.marked i).take c.base
    else c.marked i ++ c.renamed i).map Flight.op).drop c.base = _
  cases hf : Spine.pipeFlush c.state.spine with
  | true =>
    rw [if_pos rfl, if_pos rfl]
    exact List.drop_eq_nil_of_le (by rw [List.length_map]; exact List.length_take_le _ _)
  | false =>
    rw [if_neg Bool.false_ne_true, if_neg Bool.false_ne_true, List.map_append, marked_ops,
      List.drop_append_of_le_length (by rw [List.length_map, Config.ops, List.length_map]; omega),
      Config.inFlight, ← List.map_drop, ← List.map_drop, List.drop_drop]
    rfl

/-! ### One edge of the register file -/

/-- **One edge keeps the register file faithful.** -/
theorem Inv.next_faithful (h : Inv c) (ok : Ok i c) : Faithful (c.next i).state.registers
    (c.next i).state.spine.archRat (c.next i).arch (c.next i).inFlight := by
  have hs := h.spine
  have hlen := base_length hs
  have hbase : c.base = c.committed + (Spine.retireGroup c.state.spine).length := rfl
  have hregs : (c.next i).state.registers = write c.state.registers (broadcast i) :=
    nextRegisters_eq i c.state
  have hheard : Faithful (write c.state.registers (broadcast i)) c.state.spine.archRat c.arch
      (c.inFlight.map (hear (broadcast i))) := by
    cases hr : c.state.spine.recovArchSt with
    | false =>
      exact h.faithful.broadcast (conserved hs hr) (fresh ok)
        fun o ho harn hprn => harn ((named hs (inFlight_mem ho)).1 hprn)
    | true =>
      have hsame : write c.state.registers (broadcast i) = c.state.registers := by
        funext p
        rw [write]
        split
        · rfl
        · rw [recov_silent hs ok hr p ‹_›]
          rfl
      rw [hsame, recov_empty hs hr]
      exact ⟨h.faithful.arch, fun o ho => by cases ho⟩
  have hinstr : instrs ((c.inFlight.map (hear (broadcast i))).take (Spine.retireGroup c.state.spine).length) =
      Spine.retireGroup c.state.spine := by
    rw [instrs, List.map_take]
    show (instrs (c.inFlight.map (hear (broadcast i)))).take _ = _
    rw [instrs_hear, Config.inFlight, instrs, List.map_drop]
    show (c.spine.program.drop c.spine.committed).take _ = _
    rw [hs.program, Spine.Config.inFlight, List.append_assoc]
    exact List.take_left
  have harch : (c.next i).arch = values c.arch
      ((c.inFlight.map (hear (broadcast i))).take (Spine.retireGroup c.state.spine).length) := by
    have hold : values (fun _ => some 0) ((c.ops.take c.committed).map (hear (broadcast i))) = c.arch := by
      funext a
      rw [h.faithful.arch a]
      exact values_hear_some (broadcast i) (h.faithful.arch a)
    have hcom : (c.next i).committed = c.base := rfl
    rw [Config.arch, hcom, Config.source, next_take i (by omega) (fun _ => Nat.le_refl _), hbase,
      List.take_add, List.map_append, values_append, hold, List.map_take]
    rfl
  rw [← List.take_append_drop (Spine.retireGroup c.state.spine).length
    (c.inFlight.map (hear (broadcast i)))] at hheard
  have hdone := hheard.commit fun o ho harn => by
    rw [← List.map_take] at ho
    obtain ⟨o₀, ho₀, rfl⟩ := List.mem_map.1 ho
    obtain ⟨n, hn⟩ := List.getElem?_of_mem ho₀
    have hlt := (List.getElem?_eq_some_iff.1 hn).1
    rw [List.length_take] at hlt
    rw [List.getElem?_take_of_lt (by omega), Config.inFlight, List.getElem?_drop, Config.ops,
      List.getElem?_map] at hn
    obtain ⟨f, hf, rfl⟩ := Option.map_eq_some_iff.1 hn
    have hres := h.settled _ f (by omega) hf harn
    rw [hear, Option.isSome_or]
    exact Bool.or_eq_true_iff.2 (.inl hres)
  rw [hinstr, ← Spine.archRat_next (i := spineIn i c.state)] at hdone
  rw [next_inFlight hs, hregs, harch]
  cases Spine.pipeFlush c.state.spine with
  | true => exact ⟨hdone.arch, fun o ho => by cases ho⟩
  | false =>
    refine hdone.append fun o ho => ?_
    obtain ⟨f, hf, rfl⟩ := List.mem_map.1 ho
    rw [Config.renamed] at hf
    split at hf
    · obtain ⟨l, _, rfl⟩ := List.mem_map.1 hf
      rfl
    · cases hf

/-! ### One edge of the busy table -/

/-- A register is taken in this cycle for an instruction renamed in it. -/
theorem taken_iff (hs : Spine.Inv c.spine) (i : Inputs) {p : Prn} (hp : p ≠ 0) :
    ((List.finRange 4).any fun l => Rename.freePrnValid (c.renameIn i) c.state.spine.rename l &&
      Rename.freePrnReady (c.renameIn i) c.state.spine.rename l &&
        p == Rename.freePrn (c.renameIn i) c.state.spine.rename l) = true ↔
      ∃ f ∈ c.renamed i, f.pkt.destPrn = p := by
  have hprn : ∀ l, (c.flight i l).pkt.destPrn =
      if Rename.hasDest (Rename.decoded (c.renameIn i) c.state.spine.rename l) then
        Rename.freePrn (c.renameIn i) c.state.spine.rename l else 0 := fun _ => rfl
  have hv : ∀ l, Rename.freePrnValid (c.renameIn i) c.state.spine.rename l = true :=
    fun l => (hs.offered (spineIn i c.state) l).1
  rw [List.any_eq_true]
  cases ha : Rename.accept (c.renameIn i) with
  | false =>
    refine iff_of_false ?_ ?_
    · rintro ⟨l, _, hl⟩
      rw [Rename.freePrnReady_refused ha, Bool.and_false, Bool.false_and] at hl
      cases hl
    · rintro ⟨f, hf, _⟩
      rw [Config.renamed, ha, if_neg Bool.false_ne_true] at hf
      cases hf
  | true =>
    rw [Config.renamed, ha, if_pos rfl]
    constructor
    · rintro ⟨l, _, hl⟩
      rw [hv l, Rename.freePrnReady_eq ha, Bool.true_and, Bool.and_eq_true, beq_iff_eq] at hl
      refine ⟨c.flight i l, List.mem_map_of_mem (mem_group.2 (Rename.hasDest_valid hl.1)), ?_⟩
      rw [hprn, if_pos hl.1, hl.2]
    · rintro ⟨f, hf, rfl⟩
      obtain ⟨l, _, rfl⟩ := List.mem_map.1 hf
      refine ⟨l, List.mem_finRange l, ?_⟩
      rw [hprn] at hp ⊢
      rw [hv l, Rename.freePrnReady_eq ha, Bool.true_and]
      by_cases hd : Rename.hasDest (Rename.decoded (c.renameIn i) c.state.spine.rename l) = true
      · rw [if_pos hd, hd, Bool.true_and, beq_iff_eq]
      · rw [if_neg hd] at hp
        exact absurd rfl hp

/-- The busy table of the next cycle, when it is not cleared. -/
theorem nextBusyTable_iff (hs : Spine.Inv c.spine) (i : Inputs) (hr : c.state.spine.recovArchSt = false)
    {p : Prn} (hp : p ≠ 0) : (c.next i).state.spine.rename.busyTable p = true ↔
      broadcast i p = none ∧ ((∃ f ∈ c.renamed i, f.pkt.destPrn = p) ∨
        c.state.spine.rename.busyTable p = true) := by
  have hexec : ((List.finRange 7).any fun w => i.cdbValid w && p == i.cdbPrn w) =
      (broadcast i p).isSome := by
    rw [broadcast_isSome]
    congr 1
    funext w
    rw [Bool.beq_comm]
  have hbusy : (c.next i).state.spine.rename.busyTable p =
      Rename.nextBusyTable (c.renameIn i) c.state.spine.rename p := rfl
  have hrin : (c.renameIn i).recovArchSt = false := hr
  rw [hbusy, Rename.nextBusyTable, hrin, if_neg Bool.false_ne_true, ← taken_iff hs i hp]
  show (if ((List.finRange 7).any fun w => i.cdbValid w && p == i.cdbPrn w) = true then false else _) =
    true ↔ _
  rw [hexec]
  cases broadcast i p with
  | some x => simp
  | none =>
    rw [Option.isSome_none, if_neg Bool.false_ne_true]
    split
    · simp [*]
    · simp [*]

/-- What waits for its value does not retire. -/
theorem Inv.waiting_stays (h : Inv c) {o : Op Arn Prn (BitVec 32)} (ho : o ∈ c.inFlight) (hp : o.prn ≠ 0)
    (hnone : o.result = none) : hear (broadcast i) o ∈
      (c.inFlight.map (hear (broadcast i))).drop (Spine.retireGroup c.state.spine).length := by
  obtain ⟨n, hn⟩ := List.getElem?_of_mem ho
  have hge : (Spine.retireGroup c.state.spine).length ≤ n := by
    by_contra hlt
    have hget := hn
    rw [Config.inFlight, List.getElem?_drop, Config.ops, List.getElem?_map] at hget
    obtain ⟨f, hf, rfl⟩ := Option.map_eq_some_iff.1 hget
    have hbase : c.base = c.committed + (Spine.retireGroup c.state.spine).length := rfl
    have hres := h.settled _ f (by omega) hf fun h0 => hp ((named h.spine (inFlight_mem ho)).2 h0)
    rw [show f.result = none from hnone] at hres
    cases hres
  refine List.mem_of_getElem? (i := n - (Spine.retireGroup c.state.spine).length) ?_
  rw [List.getElem?_drop, Nat.add_sub_cancel' hge, List.getElem?_map, hn]
  rfl

/-- **One edge keeps the busy table.** -/
theorem Inv.next_busy (h : Inv c) (ok : Ok i c) (hr' : (c.next i).state.spine.recovArchSt = false) :
    Busy (c.next i).state.spine.rename.busyTable (c.next i).inFlight := by
  have hs := h.spine
  have hf : Spine.pipeFlush c.state.spine = false := hr'
  have hin := next_inFlight hs i
  rw [hf, if_neg Bool.false_ne_true] at hin
  have hs' : Spine.Inv (c.next i).spine := next_spine i c ▸ hs.next ok.toOk
  have hcons := conserved hs' hr'
  have hnew : ∀ o ∈ (c.renamed i).map Flight.op, o.result = none := by
    intro o ho
    obtain ⟨f, hf, rfl⟩ := List.mem_map.1 ho
    rw [Config.renamed] at hf
    split at hf
    · obtain ⟨l, _, rfl⟩ := List.mem_map.1 hf
      rfl
    · cases hf
  intro p
  cases hr : c.state.spine.recovArchSt with
  | true =>
    have hclear : (c.next i).state.spine.rename.busyTable p = false := by
      show Rename.nextBusyTable (c.renameIn i) c.state.spine.rename p = false
      rw [Rename.nextBusyTable, show (c.renameIn i).recovArchSt = true from hr, if_pos rfl]
    have hempty : (c.next i).inFlight = [] := by
      have hinstr : instrs (c.next i).inFlight = [] := by
        have hprog := (hs'.program).trans ((next_spine i c ▸ (hs.recovering_next ok.toOk hr).1))
        rw [Config.inFlight, instrs, List.map_drop]
        exact hprog
      exact List.map_eq_nil_iff.1 hinstr
    rw [hclear, hempty]
    refine iff_of_false Bool.false_ne_true fun hb => ?_
    obtain ⟨_, o, ho, _⟩ := hb
    cases ho
  | false =>
    by_cases hp : p = 0
    · refine iff_of_false (fun hb => ?_) fun hb => hb.1 hp
      have hclear : (c.next i).state.spine.rename.busyTable p =
          Rename.nextBusyTable (c.renameIn i) c.state.spine.rename p := rfl
      have h0 : c.state.spine.rename.busyTable p = false :=
        Bool.not_eq_true _ ▸ fun hb => ((h.busy hr p).1 hb).1 hp
      rw [hclear, Rename.nextBusyTable, show (c.renameIn i).recovArchSt = false from hr,
        if_neg Bool.false_ne_true, h0] at hb
      split at hb
      · cases hb
      · split at hb
        · obtain ⟨l, _, hl⟩ := List.any_eq_true.1 ‹_›
          rw [Bool.and_eq_true, beq_iff_eq] at hl
          exact (hs.offered (spineIn i c.state) l).2 (hl.2.symm.trans hp)
        · cases hb
    · rw [nextBusyTable_iff hs i hr hp, hin]
      constructor
      · rintro ⟨hb, ⟨f, hf, rfl⟩ | hbusy⟩
        · exact ⟨hp, f.op, List.mem_append_right _ (List.mem_map_of_mem hf), rfl,
            hnew _ (List.mem_map_of_mem hf)⟩
        · obtain ⟨_, o, ho, rfl, hnone⟩ := (h.busy hr p).1 hbusy
          refine ⟨hp, hear (broadcast i) o, List.mem_append_left _ ?_, rfl, ?_⟩
          · exact h.waiting_stays ho hp hnone
          · rw [hear, hnone, if_neg hp, hb]
            rfl
      · rintro ⟨_, o, ho, rfl, hnone⟩
        rcases List.mem_append.1 ho with ho' | ho'
        · obtain ⟨o₀, ho₀, rfl⟩ := List.mem_map.1 (List.mem_of_mem_drop ho')
          have hp₀ : ¬o₀.prn = 0 := hp
          rw [hear, if_neg hp₀, Option.or_eq_none_iff] at hnone
          exact ⟨hnone.2, .inr ((h.busy hr o₀.prn).2 ⟨hp₀, o₀, ho₀, rfl, hnone.1⟩)⟩
        · obtain ⟨f, hf, rfl⟩ := List.mem_map.1 ho'
          refine ⟨?_, .inl ⟨f, hf, rfl⟩⟩
          -- a broadcast of the register would be for an older instruction that holds it
          cases hb : broadcast i f.op.prn with
          | none => rfl
          | some x =>
            obtain ⟨o, ho, hprn, hno⟩ := fresh ok f.op.prn hp (by rw [hb]; rfl)
            have hstay := h.waiting_stays (i := i) ho (hprn ▸ hp) hno
            have hheard : (hear (broadcast i) o).result = some x := by
              rw [hear, hno, if_neg (hprn ▸ hp), hprn, hb]
              rfl
            have heq := live_unique hcons (o := hear (broadcast i) o) (q := f.op)
              (hin ▸ List.mem_append_left _ hstay) (hin ▸ List.mem_append_right _ ho') hprn (hprn ▸ hp)
            rw [heq, hnone] at hheard
            cases hheard

/-- **One edge keeps the values.** -/
theorem Inv.next (h : Inv c) (ok : Ok i c) : Inv (c.next i) where
  toRecords := h.toRecords.next h.spine h.rob ok
  spine := next_spine i c ▸ h.spine.next ok.toOk
  rob := by
    have hrob := h.rob.next (okRob h.spine ok)
    have heq : (c.next i).spine.rob = c.spine.rob.next (c.robIn i) := by
      rw [next_spine]
      rfl
    rw [heq]
    exact hrob
  faithful := h.next_faithful ok
  busy := h.next_busy ok

theorem Inv.init : Inv Config.init where
  done := fun _ _ _ hat => by cases hat.live
  complete := fun _ _ _ hat => by cases hat.live
  waits := fun _ _ _ hw => by cases hw.flight
  plain := fun _ hf => by cases hf
  settled := fun _ _ _ hf => by cases hf
  spine := Spine.Inv.init
  rob := Rob.Inv.init
  faithful := ⟨fun _ => rfl, fun _ ho => by cases ho⟩
  busy := fun _ _ => iff_of_false Bool.false_ne_true fun ⟨_, _, ho, _⟩ => by cases ho

end

end R10K.Core
