import R10K.Core.Values

/-! The operands of a renamed instruction.

An operand is renamed to the physical register of its last writer, through the group
and the map, and its ready bit says whether the program has its value already: the busy
table is passed by what is broadcast in the rename cycle and by the older lanes. -/
namespace R10K.Core
open Lanes Renaming Dataflow

structure Operands (c : Config) : Prop where
  mapped : ∀ n f o, c.trace[n]? = some f → f.pkt.useOp o = true →
    f.pkt.opPrn o = replay (fun _ => 0) (instrs (c.ops.take n)) (f.arn o)
  ready : ∀ l n f, c.Waits l n f → ∀ o, f.pkt.useOp o = true →
    f.pkt.opReady o = (c.source n (f.arn o)).isSome

section
variable {i : Inputs} {c : Config}

/-! ### What a lane reads -/

/-- The map is that of the whole program. -/
theorem rat_program (hs : Spine.Inv c.spine) (hr : c.state.spine.recovArchSt = false) :
    c.state.spine.rename.rat = replay (fun _ => 0) (instrs c.ops) := by
  have hsplit : instrs c.ops = c.spine.program.take c.spine.committed ++ c.spine.inFlight := by
    rw [← hs.program, List.take_append_drop]
    rfl
  rw [hsplit, replay_append, ← hs.archRat]
  exact (hs.steady hr).rat

/-- A used operand is looked up. -/
theorem flight_opPrn (l : Lane) (o : Operand) (huse : (c.flight i l).pkt.useOp o = true) :
    (c.flight i l).pkt.opPrn o =
      Rename.lookup (c.renameIn i) c.state.spine.rename l ((c.flight i l).arn o) := by
  cases o with
  | op1 => exact if_pos huse
  | op2 => exact if_pos huse

theorem flight_opReady (l : Lane) (o : Operand) : (c.flight i l).pkt.opReady o =
    Rename.srcDataReady (c.renameIn i) c.state.spine.rename l ((c.flight i l).pkt.opPrn o) := by
  cases o <;> rfl

/-- The lanes before a lane, as instructions of the trace. -/
def before (i : Inputs) (c : Config) (l : Lane) : List (Op Arn Prn (BitVec 32)) :=
  (((Rename.lanesTo l.val).filter fun m => (c.flight i m).pkt.packetValid).map (c.flight i)).map Flight.op

theorem before_instrs (i : Inputs) (c : Config) (l : Lane) :
    instrs (before i c l) = Rename.groupTo (c.renameIn i) c.state.spine.rename l.val := by
  rw [before, instrs, List.map_map, List.map_map, Rename.groupTo]
  rfl

/-- What the program holds before an instruction renamed now. -/
theorem take_renamed (hf : Spine.pipeFlush c.state.spine = false)
    (ha : Rename.accept (c.renameIn i) = true) {l : Lane} {j : Nat}
    (hj : (group fun l => (c.flight i l).pkt.packetValid)[j]? = some l) :
    (c.next i).ops.take (c.trace.length + j) = c.ops.map (hear (broadcast i)) ++ before i c l := by
  have htrace : (c.next i).trace = c.marked i ++ c.renamed i := by
    show (if Spine.pipeFlush c.state.spine then (c.marked i).take c.base
      else c.marked i ++ c.renamed i) = _
    rw [hf, if_neg Bool.false_ne_true]
  rw [Config.ops, htrace, List.map_append, marked_ops, List.take_append, List.length_map, Config.ops,
    List.length_map, Nat.add_sub_cancel_left, List.take_of_length_le (by simp), before, Config.renamed, ha,
    if_pos rfl, ← List.map_take, ← List.map_take, group_take hj]
  rfl

/-! ### The ready bit -/

/-- No register offered to the group is one the map holds. -/
theorem rat_held (hs : Spine.Inv c.spine) (hr : c.state.spine.recovArchSt = false) (i : Inputs) (a : Arn) :
    Rename.freeListRetireFwd (c.renameIn i) c.state.spine.rename (c.state.spine.rename.rat a) = false := by
  have hcommit := hs.commit (i := spineIn i c.state) hr
  rw [← hs.drop_retire] at hcommit
  have hdrop : c.spine.program.drop (c.spine.committed + (Spine.retireGroup c.spine.state).length) =
      instrs (c.ops.drop c.base) := by
    rw [instrs, List.map_drop]
    rfl
  rw [hdrop] at hcommit
  have hrat : c.state.spine.rename.rat a = replay (Spine.next (spineIn i c.state) c.state.spine).archRat
      (instrs (c.ops.drop c.base)) a := by
    have harch : (Spine.next (spineIn i c.state) c.state.spine).archRat =
        replay c.state.spine.archRat (Spine.retireGroup c.state.spine) := Spine.archRat_next _
    have hall : c.spine.inFlight = Spine.retireGroup c.state.spine ++ instrs (c.ops.drop c.base) := by
      rw [← hdrop, hs.drop_retire, Spine.Config.inFlight, List.append_assoc]
      rfl
    rw [harch, ← replay_append, ← hall]
    exact congrFun (hs.steady hr).rat a
  rw [hrat]
  exact source_held hcommit a

/-- **The ready bit of an operand that no older lane writes**: its value is there, or is
broadcast now. -/
theorem srcDataReady_rat (hs : Spine.Inv c.spine) (hr : c.state.spine.recovArchSt = false) (l : Lane)
    (a : Arn) : Rename.srcDataReady (c.renameIn i) c.state.spine.rename l (c.state.spine.rename.rat a) =
      (!c.state.spine.rename.busyTable (c.state.spine.rename.rat a) ||
        (broadcast i (c.state.spine.rename.rat a)).isSome) := by
  have hheld := rat_held hs hr i a
  have hnone : (Rename.lanesTo l.val).all (fun m =>
      !(Rename.freePrnValid (c.renameIn i) c.state.spine.rename m &&
        Rename.freePrnReady (c.renameIn i) c.state.spine.rename m &&
          Rename.freePrn (c.renameIn i) c.state.spine.rename m == c.state.spine.rename.rat a)) = true := by
    rw [List.all_eq_true]
    intro m _
    rw [Bool.not_eq_true']
    refine Bool.eq_false_iff.2 fun hm => ?_
    rw [Bool.and_eq_true, Bool.and_eq_true, beq_iff_eq] at hm
    have hfree := Rename.freePrnOh_free ((Rename.freePrnOh_iff hm.1.1 _).2 rfl)
    rw [hm.2, hheld] at hfree
    cases hfree
  have hexec : ((List.finRange 7).any fun w => c.state.spine.rename.rat a == i.cdbPrn w && i.cdbValid w) =
      (broadcast i (c.state.spine.rename.rat a)).isSome := by
    rw [broadcast_isSome]
    congr 1
    funext w
    rw [Bool.and_comm, Bool.beq_comm]
  rw [Rename.srcDataReady]
  show ((!c.state.spine.rename.busyTable (c.state.spine.rename.rat a) ||
    (List.finRange 7).any fun w => c.state.spine.rename.rat a == i.cdbPrn w && i.cdbValid w) &&
      (Rename.lanesTo l.val).all _) = _
  rw [hnone, Bool.and_true, hexec]

/-- An operand that an older lane writes is not ready. -/
theorem srcDataReady_lane (hs : Spine.Inv c.spine) (ha : Rename.accept (c.renameIn i) = true) {l m : Lane}
    (hm : m ∈ Rename.lanesTo l.val) (hdest : (c.flight i m).pkt.destArn ≠ 0) :
    Rename.srcDataReady (c.renameIn i) c.state.spine.rename l (c.flight i m).pkt.destPrn = false := by
  have hd : Rename.hasDest (Rename.decoded (c.renameIn i) c.state.spine.rename m) = true :=
    Rename.hasDest_iff.2 hdest
  have hprn : (c.flight i m).pkt.destPrn = Rename.freePrn (c.renameIn i) c.state.spine.rename m := if_pos hd
  rw [Rename.srcDataReady, Bool.and_eq_false_iff]
  right
  rw [List.all_eq_false]
  have hv : Rename.freePrnValid (c.renameIn i) c.state.spine.rename m = true :=
    (hs.offered (spineIn i c.state) m).1
  refine ⟨m, hm, ?_⟩
  rw [hv, Rename.freePrnReady_eq ha, hd, hprn, beq_self_eq_true]
  exact Bool.false_ne_true

/-- The program's values now are known exactly for the registers that are not busy. -/
theorem source_busy (h : Inv c) (hr : c.state.spine.recovArchSt = false) (a : Arn) :
    (c.source c.trace.length a).isSome = !c.state.spine.rename.busyTable (c.state.spine.rename.rat a) := by
  have hval : ∀ b, (c.arch b).isSome = true := fun b => by rw [h.faithful.arch b]; rfl
  have hready := ready_iff (conserved h.spine hr) hval (h.busy hr)
    (fun o ho => (named h.spine (inFlight_mem ho)).1) a
  have hsplit : c.source c.trace.length = values c.arch c.inFlight := by
    rw [Config.source, List.take_of_length_le (by rw [Config.ops, List.length_map]),
      ← List.take_append_drop c.committed c.ops, values_append]
    rfl
  have hrat : c.state.spine.rename.rat = replay c.state.spine.archRat (instrs c.inFlight) := by
    rw [Config.inFlight, instrs, List.map_drop]
    show _ = replay _ (c.spine.program.drop c.spine.committed)
    rw [h.spine.program]
    exact (h.spine.steady hr).rat
  rw [hsplit, hrat]
  exact hready

/-! ### One edge -/

/-- Nothing is renamed in the recovery cycle. -/
theorem renames_steady (ok : Ok i c) {l : Lane} {j : Nat}
    (hj : (group fun l => (c.flight i l).pkt.packetValid)[j]? = some l) :
    c.state.spine.recovArchSt = false := by
  cases hr : c.state.spine.recovArchSt with
  | false => rfl
  | true =>
    have hempty : ((spineIn i c.state).fetchPkt l).packetValid = false := ok.recov hr l
    have hv : ((spineIn i c.state).fetchPkt l).packetValid = true :=
      mem_group.1 (List.mem_of_getElem? hj)
    rw [hempty] at hv
    cases hv

/-- **The ready bit of a lane says whether the program has the operand's value.** -/
theorem flight_ready (h : Inv c) (ok : Ok i c) (hf : Spine.pipeFlush c.state.spine = false)
    (ha : Rename.accept (c.renameIn i) = true) {l : Lane} {j : Nat}
    (hj : (group fun l => (c.flight i l).pkt.packetValid)[j]? = some l) (o : Operand)
    (huse : (c.flight i l).pkt.useOp o = true) : (c.flight i l).pkt.opReady o =
      ((c.next i).source (c.trace.length + j) ((c.flight i l).arn o)).isSome := by
  have hs := h.spine
  have hr := renames_steady ok hj
  have hrat0 : c.state.spine.rename.rat 0 = 0 := by rw [rat_program hs hr, replay_zero]
  rw [flight_opReady, flight_opPrn l o huse, Rename.lookup_eq hrat0, ← before_instrs, Config.source,
    take_renamed hf ha hj, values_append]
  rcases source_cases c.state.spine.rename.rat (values (fun _ => some 0) (c.ops.map (hear (broadcast i))))
    (before i c l) ((c.flight i l).arn o) with ⟨op, hop, hao, ha0, hp, hv⟩ | ⟨_, hp, hv⟩
  · -- an older lane of the group writes it
    obtain ⟨f, hfl, rfl⟩ := List.mem_map.1 hop
    obtain ⟨m, hm, rfl⟩ := List.mem_map.1 hfl
    rw [hp, hv]
    exact srcDataReady_lane hs ha (List.mem_filter.1 hm).1 fun h0 => ha0 (hao.trans h0)
  · have hsource := source_next hs i (Nat.le_refl c.trace.length)
      (fun hf' => by rw [hf] at hf'; cases hf') ((c.flight i l).arn o)
    have htake : (c.next i).source c.trace.length =
        values (fun _ => some 0) (c.ops.map (hear (broadcast i))) := by
      rw [Config.source, next_take i (Nat.le_refl _) (fun hf' => by rw [hf] at hf'; cases hf'),
        List.take_of_length_le (by rw [Config.ops, List.length_map])]
    rw [hp, hv, srcDataReady_rat hs hr, ← htake, hsource, source_busy h hr,
      List.take_of_length_le (by rw [Config.ops, List.length_map]), ← rat_program hs hr]

/-- An operand is renamed to the register of its last writer. -/
theorem flight_mapped (h : Inv c) (ok : Ok i c) (hf : Spine.pipeFlush c.state.spine = false)
    (ha : Rename.accept (c.renameIn i) = true) {l : Lane} {j : Nat}
    (hj : (group fun l => (c.flight i l).pkt.packetValid)[j]? = some l) (o : Operand)
    (huse : (c.flight i l).pkt.useOp o = true) : (c.flight i l).pkt.opPrn o =
      replay (fun _ => 0) (instrs ((c.next i).ops.take (c.trace.length + j))) ((c.flight i l).arn o) := by
  have hr := renames_steady ok hj
  have hrat0 : c.state.spine.rename.rat 0 = 0 := by rw [rat_program h.spine hr, replay_zero]
  rw [flight_opPrn l o huse, Rename.lookup_eq hrat0, ← before_instrs, take_renamed hf ha hj, instrs_append,
    instrs_hear, replay_append, ← rat_program h.spine hr]

/-- **One edge keeps the operands.** -/
theorem Operands.next (h : Operands c) (hinv : Inv c) (ok : Ok i c) : Operands (c.next i) where
  mapped := by
    intro n f o hn huse
    rcases next_get hn with ⟨f₀, h₀, rfl, hkeep⟩ | ⟨hf, ha, j, l, hj, rfl, rfl⟩
    · have hlt := (List.getElem?_eq_some_iff.1 h₀).1
      rw [next_take i (by omega) (fun hf => Nat.le_of_lt (hkeep hf)), instrs_hear]
      exact h.mapped n f₀ o h₀ huse
    · exact flight_mapped hinv ok hf ha hj o huse
  ready := by
    intro l n f hw o huse
    obtain ⟨hf, ha, rfl, j, hj, rfl⟩ := hw.new hinv.spine ok
    exact flight_ready hinv ok hf ha hj o huse

theorem Operands.init : Operands Config.init where
  mapped := fun _ _ _ hf => by cases hf
  ready := fun _ _ _ hw => by cases hw.flight

end

end R10K.Core
