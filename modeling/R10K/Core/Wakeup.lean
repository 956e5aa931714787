import R10K.Core.Stations

/-! No operand is missed, none is early, and each is read right.

In the dispatch register and in both banks a ready bit is set exactly if the program has
the operand's value, so what its producer broadcasts is never missed; a station whose
operands are there asks to issue a cycle later; nothing issues before; and what the
register-read stage reads is the value its producer broadcast, or the committed one. -/
namespace R10K.Core
open Lanes Renaming Dataflow

/-- `n` is the number of the instruction that a packet with this tag belongs to. -/
def Config.tagged (c : Config) (t : RobTag) (n : Nat) (f : Flight) : Prop := ∃ r, c.At r n f ∧ r.tag = t

/-- The youngest instruction before `n` that writes the register. -/
structure Config.Producer (c : Config) (n : Nat) (a : Arn) (k : Nat) (f : Flight) : Prop where
  lt : k < n
  flight : c.trace[k]? = some f
  writes : f.pkt.destArn = a ∧ a ≠ 0
  last : ∀ j g, k < j → j < n → c.trace[j]? = some g → g.pkt.destArn ≠ a

/-- What holds of the operands in a cycle. -/
structure Wakes (i : Inputs) (c : Config) : Prop where
  /-- An operand is what its producer broadcast, from the next cycle on, ... -/
  produced : ∀ n a k f, c.Producer n a k f → c.source n a = f.result
  /-- ... and without a producer in flight it is the committed value. -/
  committed : ∀ n a, c.committed ≤ n →
    (a = 0 ∨ ∀ k f, c.committed ≤ k → k < n → c.trace[k]? = some f → f.pkt.destArn ≠ a) →
      c.source n a = some (readReg c.state.registers (c.state.spine.archRat a))
  /-- In the dispatch register ready bits miss no broadcast and are not early. -/
  renamed : ∀ l, (c.state.spine.pipeRenamePkt l).packetValid = true → ∃ n f, c.Waits l n f ∧
    f.pkt = c.state.spine.pipeRenamePkt l ∧
      ∀ o, f.pkt.useOp o = true → f.pkt.opReady o = (c.source n (f.arn o)).isSome
  /-- Nor do they in a station, ... -/
  int : ∀ k, (c.state.rsInt.entry k).inUse = true → ∃ n f, c.tagged (c.state.rsInt.entry k).pkt.robEntry n f ∧
    ∀ o, f.pkt.useOp o = true → (c.state.rsInt.entry k).pkt.opReady o = (c.source n (f.arn o)).isSome
  mem : ∀ k, (c.state.rsMem.entry k).inUse = true → ∃ n f, c.tagged (c.state.rsMem.entry k).pkt.robEntry n f ∧
    ∀ o, f.pkt.useOp o = true → (c.state.rsMem.entry k).pkt.opReady o = (c.source n (f.arn o)).isSome
  /-- ... which asks to issue a cycle after its operands are there. -/
  intAsks : ∀ k w, (c.state.rsInt.entry k).inUse = true → Rs.operandsReady (c.state.rsInt.entry k).pkt w = true →
    Spine.pipeFlush c.state.spine = false → Rs.issueEn c.state.rsInt k = false →
      Rs.rsIssueReq (c.next i).state.rsInt k w = true
  memAsks : ∀ k w, (c.state.rsMem.entry k).inUse = true → Rs.operandsReady (c.state.rsMem.entry k).pkt w = true →
    Spine.pipeFlush c.state.spine = false → Rs.issueEn c.state.rsMem k = false →
      Rs.rsIssueReq (c.next i).state.rsMem k w = true
  /-- An instruction issues only with its operands there. -/
  issues : ∀ w, (issuePkt c.state w).packetValid = true → ∃ n f, c.tagged (issuePkt c.state w).robEntry n f ∧
    ∀ o, f.pkt.useOp o = true → (c.source n (f.arn o)).isSome = true
  /-- The register-read stage reads the operands' values. -/
  reads : ∀ w, (regReadPkt i c.state w).packetValid = true →
    ∃ n f, c.tagged (regReadPkt i c.state w).robEntry n f ∧
      ∀ o, f.pkt.useOp o = true → c.source n (f.arn o) = some ((regReadPkt i c.state w).opVal o)
  /-- Register 0 reads as zero. -/
  zero : ∀ w o, (c.state.pipeIssuePkt w).opPrn o = 0 → (regReadPkt i c.state w).opVal o = 0

section
variable {i : Inputs} {c : Config}

/-- A station whose operands are ready asks to issue in the next cycle. -/
theorem asks {m : Nat} {s : Rs.State m} (hawake : Rs.Awake s) (j : Rs.Inputs) (hf : j.pipeFlush = false)
    {k : Fin (2 ^ m)} {w : Way} (huse : (s.entry k).inUse = true)
    (hready : Rs.operandsReady (s.entry k).pkt w = true) (hen : Rs.issueEn s k = false) :
    Rs.rsIssueReq (Rs.next j s) k w = true := by
  have htmp : Rs.wakeUpTmp (s.entry k) (Rs.dispatchPktN j s k) w = true := by
    rw [Rs.wakeUpTmp, huse, hready]
    rfl
  have hany : (List.finRange 7).any (Rs.wakeUpTmp (s.entry k) (Rs.dispatchPktN j s k)) = true :=
    List.any_eq_true.2 ⟨w, List.mem_finRange w, htmp⟩
  rw [Rs.rsIssueReq, (hawake.next j).issued k, if_neg Bool.false_ne_true]
  simp only [Rs.next, Rs.nextEntry, hf, hen, hany, Bool.false_eq_true, if_false, if_true]
  exact htmp

/-- The producer of an operand gives its value. -/
theorem source_produced {n k : Nat} {a : Arn} {f : Flight} (hp : c.Producer n a k f) :
    c.source n a = f.result := by
  have hlt := (List.getElem?_eq_some_iff.1 hp.flight).1
  have hk : c.ops[k]? = some f.op := by
    rw [Config.ops, List.getElem?_map, hp.flight]
    rfl
  have hsplit : c.ops.take n = c.ops.take k ++ [f.op] ++ (c.ops.take n).drop (k + 1) := by
    have hone : c.ops.take (k + 1) = c.ops.take k ++ [f.op] := by
      rw [List.take_add_one, hk]
      rfl
    rw [← hone, ← List.take_append_drop (k + 1) (c.ops.take n), List.take_take, Nat.min_eq_left hp.lt,
      List.drop_left' (by rw [List.length_take, Config.ops, List.length_map]; omega)]
  rw [Config.source, hsplit, values_append, values_append]
  have hown : values (values (fun _ => some 0) (c.ops.take k)) [f.op] a = f.result :=
    if_pos ⟨hp.writes.1.symm, hp.writes.2⟩
  rcases source_cases (fun _ => (0 : Prn)) (values (values (fun _ => some 0) (c.ops.take k)) [f.op])
    ((c.ops.take n).drop (k + 1)) a with ⟨o, ho, hao, _⟩ | ⟨_, _, hv⟩
  · -- no instruction after the producer writes the register
    obtain ⟨j, hj⟩ := List.getElem?_of_mem ho
    rw [List.getElem?_drop] at hj
    have hjn : k + 1 + j < n := by
      have := (List.getElem?_eq_some_iff.1 hj).1
      rw [List.length_take] at this
      omega
    rw [List.getElem?_take_of_lt hjn, Config.ops, List.getElem?_map] at hj
    obtain ⟨g, hg, rfl⟩ := Option.map_eq_some_iff.1 hj
    exact absurd hao.symm (hp.last _ g (by omega) hjn hg)
  · rw [hv, hown]

/-- The operand of an instruction in flight, from what the committed ones left. -/
theorem source_inFlight {n : Nat} (hn : c.committed ≤ n) :
    c.source n = values c.arch (c.inFlight.take (n - c.committed)) := by
  have hsplit : c.ops.take n = c.ops.take c.committed ++ c.inFlight.take (n - c.committed) := by
    conv_lhs => rw [← Nat.add_sub_cancel' hn, List.take_add]
    rfl
  rw [Config.source, hsplit, values_append]
  rfl

theorem source_committed (h : Inv c) {n : Nat} {a : Arn} (hn : c.committed ≤ n)
    (hno : a = 0 ∨ ∀ k f, c.committed ≤ k → k < n → c.trace[k]? = some f → f.pkt.destArn ≠ a) :
    c.source n a = some (readReg c.state.registers (c.state.spine.archRat a)) := by
  rw [source_inFlight hn, ← h.faithful.arch a]
  rcases source_cases (fun _ => (0 : Prn)) c.arch (c.inFlight.take (n - c.committed)) a with
    ⟨o, ho, hao, ha0, _⟩ | ⟨_, _, hv⟩
  · obtain ⟨j, hj⟩ := List.getElem?_of_mem ho
    have hlt := (List.getElem?_eq_some_iff.1 hj).1
    rw [List.length_take] at hlt
    rw [List.getElem?_take_of_lt (by omega), Config.inFlight, List.getElem?_drop, Config.ops,
      List.getElem?_map] at hj
    obtain ⟨f, hf, rfl⟩ := Option.map_eq_some_iff.1 hj
    exact absurd hao.symm (hno.resolve_left ha0 _ f (by omega) (by omega) hf)
  · exact hv

/-- **A read port gives the operand's value**: it has been broadcast in an earlier cycle,
so it stands in the register file and no lane carries its register now. -/
theorem read_value (h : Inv c) (hops : Operands c) (ok : Ok i c) {p : IssuePacket} {n : Nat} {f : Flight}
    (hi : Issued c p n f) {o : Operand} (huse : f.pkt.useOp o = true) (w : Way) :
    c.source n (f.arn o) = some (readPrf i c.state w (p.opPrn o)) := by
  obtain ⟨r, hat, _⟩ := hi.tag
  have hle := hat.le
  have hbase : c.base = c.committed + (Spine.retireGroup c.state.spine).length := rfl
  have hn : c.committed ≤ n := by omega
  obtain ⟨x, hx⟩ := Option.isSome_iff_exists.1 (hi.there o huse)
  have hvals := hx
  rw [source_inFlight hn] at hvals
  have hprn : p.opPrn o = replay c.state.spine.archRat (instrs (c.inFlight.take (n - c.committed))) (f.arn o) := by
    have hsplit : instrs (c.ops.take n) =
        instrs (c.ops.take c.committed) ++ instrs (c.inFlight.take (n - c.committed)) := by
      rw [← instrs_append]
      conv_lhs => rw [← Nat.add_sub_cancel' hn, List.take_add]
      rfl
    have harch : c.state.spine.archRat = replay (fun _ => 0) (instrs (c.ops.take c.committed)) := by
      rw [instrs, List.map_take]
      exact h.spine.archRat
    rw [hi.opPrn o, hops.mapped n f o hat.flight huse, hsplit, replay_append, ← harch]
  have hread := h.faithful.take (n - c.committed) |>.source hvals
  rw [← hprn] at hread
  rw [hx, ← hread, readReg, readPrf]
  by_cases hp0 : p.opPrn o = 0
  · rw [if_pos hp0, if_pos hp0]
  · rw [if_neg hp0, if_neg hp0]
    have hsilent : broadcast i (p.opPrn o) = none := by
      cases hr : c.state.spine.recovArchSt with
      | true => exact recov_silent h.spine ok hr _ hp0
      | false =>
        have hsome : (values c.arch (c.inFlight.take (n - c.committed)) (f.arn o)).isSome = true := by
          rw [hvals]
          rfl
        rw [hprn] at hp0 ⊢
        exact (fresh ok).source (conserved h.spine hr) hsome hp0
    have hno : (i.cdbValid w && i.cdbPrn w == p.opPrn o) = false := by
      refine Bool.eq_false_iff.2 fun hw => ?_
      have hb := broadcast_isSome i (p.opPrn o)
      rw [hsilent, eq_comm, Option.isSome_none, List.any_eq_false] at hb
      exact hb w (List.mem_finRange w) hw
    rw [hno, if_neg Bool.false_ne_true]

end

/-- Every reachable configuration keeps the values, the operands and the stations. -/
theorem reach_inv {c : Config} (h : Reach c) : Inv c ∧ Operands c ∧ Stations c :=
  Run.Reach.invariant (fun c => Inv c ∧ Operands c ∧ Stations c)
    ⟨Inv.init, Operands.init, Stations.init⟩
    (fun _ _ hc ok => ⟨hc.1.next ok, hc.2.1.next hc.1 ok, hc.2.2.next hc.1 hc.2.1 ok⟩) h

/-- **No lost and no early wakeup, and operands are the right values.** -/
theorem operands_right {i : Inputs} {c : Config} (h : Reach c) (ok : Ok i c) : Wakes i c := by
  obtain ⟨hinv, hops, hst⟩ := reach_inv h
  refine ⟨fun n a k f hp => source_produced hp, fun n a hn hno => source_committed hinv hn hno,
    fun l hv => ?_, fun k hu => ?_, fun k hu => ?_, fun k w hu hr hf hen => ?_, fun k w hu hr hf hen => ?_,
    fun w hv => ?_, fun w hv => ?_, fun w o hp => ?_⟩
  · obtain ⟨n, f, hw⟩ := exists_waits hinv.spine hv
    exact ⟨n, f, hw, (hinv.waits l n f hw).1, hops.ready l n f hw⟩
  · obtain ⟨n, f, hw, _⟩ := hst.int.waiting k hu
    obtain ⟨r, hat, ht, _⟩ := hw.pending
    exact ⟨n, f, ⟨r, hat, ht⟩, hw.opReady⟩
  · obtain ⟨n, f, hw, _⟩ := hst.mem.waiting k hu
    obtain ⟨r, hat, ht, _⟩ := hw.pending
    exact ⟨n, f, ⟨r, hat, ht⟩, hw.opReady⟩
  · exact asks hst.int.awake (rsIntIn i c.state) hf hu hr hen
  · exact asks hst.mem.awake (rsMemIn i c.state) hf hu hr hen
  · rw [issuePkt] at hv ⊢
    split at hv
    · rw [if_pos ‹_›]
      obtain ⟨k, n, f, _, _, _, _, _, hi⟩ := hst.int.issued hv
      exact ⟨n, f, hi.tag, hi.there⟩
    · rw [if_neg ‹_›]
      obtain ⟨k, n, f, _, _, _, _, _, hi⟩ := hst.mem.issued hv
      exact ⟨n, f, hi.tag, hi.there⟩
  · obtain ⟨n, f, hi⟩ := hst.issue w hv
    refine ⟨n, f, hi.tag, fun o ho => ?_⟩
    have hval : (regReadPkt i c.state w).opVal o = readPrf i c.state w ((c.state.pipeIssuePkt w).opPrn o) := by
      cases o <;> rfl
    rw [hval]
    exact read_value hinv hops ok hi ho w
  · have hval : (regReadPkt i c.state w).opVal o = readPrf i c.state w ((c.state.pipeIssuePkt w).opPrn o) := by
      cases o <;> rfl
    rw [hval, hp]
    rfl

/-- A cycle in which nothing comes in, and one that fetches `addi x1, x0, 5` and
`add x2, x1, x1`. -/
def idleIn : Inputs where
  fetchPkt := fun _ => {}
  ptabTag := fun _ => 0
  lsqReady := true
  stqResp := fun _ => 0
  ldqResp := fun _ => 0
  cdbValid := fun _ => false
  cdbPrn := fun _ => 0
  cdbRob := fun _ => ⟨false, 0⟩
  cdbResult := fun _ => 0
  cdbBranchMisp := false
  cdbRedirectPc := 0

def pairIn : Inputs :=
  { idleIn with fetchPkt := fun l =>
      { inst := if l = 0 then 0x00500093 else 0x00108133, packetValid := decide (l < 2) } }

theorem idleIn_ok (c : Config) : Ok idleIn c :=
  ⟨⟨⟨fun _ _ _ _ _ h => (by cases h)⟩, fun _ _ => rfl⟩, fun _ h => (by cases h)⟩

/-- The completion of the first instruction. -/
def addiOut : Inputs :=
  { idleIn with cdbValid := fun w => decide (w = 0), cdbPrn := fun _ => 99, cdbResult := fun _ => 5 }

theorem addiOut_ok {c : Config} (hbase : c.base = 0) (hlive : (c.robLog.live[0]?).map Rob.Record.tag = some ⟨false, 0⟩)
    (htrace : (c.trace[0]?).map (fun f => (f.issued, f.pkt.destPrn, f.result)) = some (true, 99, none)) :
    Ok addiOut c := by
  refine ⟨⟨⟨fun _ _ _ _ _ h => (by cases h)⟩, fun _ _ => rfl⟩, fun w _ => ?_⟩
  obtain ⟨r, hr, htag⟩ := Option.map_eq_some_iff.1 hlive
  obtain ⟨f, hf, hfate⟩ := Option.map_eq_some_iff.1 htrace
  rw [Prod.mk.injEq, Prod.mk.injEq] at hfate
  exact ⟨r, 0, f, ⟨Nat.le_of_eq hbase, by rw [hbase]; exact hr, hf⟩, htag, hfate.1, hfate.2.1, fun _ => hfate.2.2⟩

/-- Both are in stations two cycles later, the first issues and completes, and the second
hears it and issues. -/
def pairOut : Config :=
  [pairIn, idleIn, idleIn, addiOut, idleIn, idleIn].foldl (fun c i => c.next i) .init

theorem pairOut_reach : Reach pairOut := by
  refine .step idleIn (.step idleIn (.step addiOut (.step idleIn (.step idleIn (.step pairIn .init
    ⟨⟨⟨?_⟩, fun h => by cases h⟩, fun _ h => by cases h⟩) (idleIn_ok _)) (idleIn_ok _))
    (addiOut_ok ?_ ?_ ?_)) (idleIn_ok _)) (idleIn_ok _)
  · exact (show Contiguous _ by decide)
  all_goals decide +kernel

/-- The second instruction reads what was broadcast. -/
theorem operands_right_pair : (∃ w, (regReadPkt idleIn pairOut.state w).packetValid = true ∧
    (regReadPkt idleIn pairOut.state w).opVal .op1 = 5) ∧ Wakes idleIn pairOut :=
  ⟨by decide +kernel, operands_right pairOut_reach (idleIn_ok _)⟩

end R10K.Core
