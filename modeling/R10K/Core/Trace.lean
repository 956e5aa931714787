import R10K.Core.Log
import R10K.Rob.Order
import R10K.Spine.Conserve

/-! The trace of a run and the buffer.

The trace moves with the in-order part: an edge marks its instructions and adds the
group renamed, and a flush cuts it behind the retiring group. A record of the buffer is
its instruction's: finished only when the instruction has issued and its value has been
broadcast, so that every instruction that leaves the buffer has its result. -/
namespace R10K.Core
open Lanes Renaming Dataflow

section
variable {i : Inputs} {c : Config}

/-! ### Broadcasts -/

/-- What is broadcast is on a lane. -/
theorem broadcast_isSome (i : Inputs) (p : Prn) :
    (broadcast i p).isSome = (List.finRange 7).any fun w => i.cdbValid w && i.cdbPrn w == p := by
  have hfold := Select.foldl_last (fun w => i.cdbValid w && i.cdbPrn w == p)
    (fun w => some (i.cdbResult w)) (List.finRange 7) none
  rw [broadcast, hfold, Bool.eq_iff_iff, List.any_eq_true]
  cases hf : (List.finRange 7).reverse.find? fun w => i.cdbValid w && i.cdbPrn w == p with
  | some w =>
    have hw : (i.cdbValid w && i.cdbPrn w == p) = true :=
      List.find?_some (p := fun w => i.cdbValid w && i.cdbPrn w == p) hf
    exact iff_of_true rfl ⟨w, List.mem_finRange w, hw⟩
  | none =>
    refine iff_of_false (fun h => by cases h) ?_
    rintro ⟨w, _, hw⟩
    exact List.find?_eq_none.1 hf w (by simp) hw

theorem broadcast_lane {p : Prn} (h : (broadcast i p).isSome = true) :
    ∃ w, i.cdbValid w = true ∧ i.cdbPrn w = p := by
  rw [broadcast_isSome, List.any_eq_true] at h
  obtain ⟨w, _, hw⟩ := h
  rw [Bool.and_eq_true, beq_iff_eq] at hw
  exact ⟨w, hw⟩

/-- The register file takes what is broadcast. -/
theorem nextRegisters_eq (i : Inputs) (s : State) :
    nextRegisters i s = write s.registers (broadcast i) := by
  funext p
  have hregs := Select.foldl_last (fun w => i.cdbValid w && i.cdbPrn w != 0 && i.cdbPrn w == p)
    i.cdbResult (List.finRange 7) (s.registers p)
  rw [nextRegisters, hregs, write]
  by_cases hp : p = 0
  · rw [if_pos hp, List.find?_eq_none.2]
    · rfl
    · intro w _ hw
      simp only [Bool.and_eq_true, bne_iff_ne, beq_iff_eq] at hw
      exact hw.1.2 (hw.2.trans hp)
  · have hfold := Select.foldl_last (fun w => i.cdbValid w && i.cdbPrn w == p)
      (fun w => some (i.cdbResult w)) (List.finRange 7) none
    have hlane : (fun w => i.cdbValid w && i.cdbPrn w != 0 && i.cdbPrn w == p) =
        fun w => i.cdbValid w && i.cdbPrn w == p := by
      funext w
      rw [Bool.eq_iff_iff]
      simp only [Bool.and_eq_true, bne_iff_ne, beq_iff_eq]
      exact ⟨fun h => ⟨h.1.1, h.2⟩, fun h => ⟨⟨h.1, h.2 ▸ hp⟩, h.2⟩⟩
    rw [if_neg hp, broadcast, hfold, hlane]
    cases (List.finRange 7).reverse.find? fun w => i.cdbValid w && i.cdbPrn w == p <;> rfl

/-! ### One edge of the trace -/

theorem marked_get (i : Inputs) (c : Config) (n : Nat) :
    (c.marked i)[n]? = c.trace[n]?.map (Flight.next i (c.issues n)) := by
  rw [Config.marked, List.getElem?_mapIdx]

theorem marked_length (i : Inputs) (c : Config) : (c.marked i).length = c.trace.length := by
  rw [Config.marked, List.length_mapIdx]

/-- Every instruction hears what is broadcast. -/
theorem marked_ops (i : Inputs) (c : Config) :
    (c.marked i).map Flight.op = c.ops.map (hear (broadcast i)) := by
  apply List.ext_getElem?
  intro n
  rw [Config.ops, List.map_map, List.getElem?_map, List.getElem?_map, marked_get, Option.map_map]
  rfl

/-- The mappings renamed are those of the new instructions. -/
theorem renamed_instrs (i : Inputs) (c : Config) :
    instrs ((c.renamed i).map Flight.op) = Rename.renamed (c.renameIn i) c.state.spine.rename := by
  rw [Config.renamed, Rename.renamed]
  split
  · rw [instrs, List.map_map, List.map_map, Rename.groupTo]
    rfl
  · rfl

/-- The trace is the program of the in-order part. -/
theorem next_spine (i : Inputs) (c : Config) : (c.next i).spine = c.spine.next (spineIn i c.state) := by
  have hprog : instrs (c.next i).ops = (c.spine.next (spineIn i c.state)).program := by
    have hmark : instrs ((c.marked i).map Flight.op) = instrs c.ops := by
      rw [marked_ops, instrs_hear]
    show instrs ((if Spine.pipeFlush c.state.spine then (c.marked i).take c.base
      else c.marked i ++ c.renamed i).map Flight.op) =
      if Spine.pipeFlush c.state.spine then (instrs c.ops).take c.base
      else instrs c.ops ++ Rename.renamed (c.renameIn i) c.state.spine.rename
    cases Spine.pipeFlush c.state.spine with
    | true =>
      rw [if_pos rfl, if_pos rfl, ← hmark, List.map_take, instrs, List.map_take]
      rfl
    | false =>
      rw [if_neg Bool.false_ne_true, if_neg Bool.false_ne_true, List.map_append, instrs_append, hmark,
        renamed_instrs]
  show Spine.Config.mk _ _ _ (instrs (c.next i).ops) _ = _
  rw [hprog]
  rfl

/-! ### The numbers of the instructions in flight -/

theorem length_ops (c : Config) : c.spine.program.length = c.trace.length := by
  show (instrs c.ops).length = c.trace.length
  rw [instrs, List.length_map, Config.ops, List.length_map]

/-- The retiring group, the buffer and the dispatch register end the trace. -/
theorem base_length (h : Spine.Inv c.spine) :
    c.base + c.robLog.live.length + (Spine.renameGroup c.state.spine).length = c.trace.length := by
  have hlen := congrArg List.length h.program
  have hle : c.committed ≤ c.spine.program.length := h.committed
  rw [length_ops] at hle
  rw [List.length_drop, length_ops] at hlen
  simp only [Spine.Config.inFlight, List.length_append, List.length_map] at hlen
  have hlen' : c.trace.length - c.committed = (Spine.retireGroup c.state.spine).length +
    c.robLog.live.length + (Spine.renameGroup c.state.spine).length := hlen
  rw [Config.base]
  omega

/-- The next oldest instruction in the buffer. -/
theorem next_base (i : Inputs) (c : Config) (hf : Spine.pipeFlush c.state.spine = false) :
    (c.next i).base = c.base + Rob.retireEnCnt c.state.spine.rob := by
  have hret := congrArg List.length
    (Spine.retireRead_next (i := spineIn i c.state) (c := c.spine) Spine.retireInstr hf)
  rw [List.length_map, Rob.retiring_length, ← next_spine] at hret
  show c.base + (Spine.retireGroup (c.next i).state.spine).length = _
  rw [show (Spine.retireGroup (c.next i).state.spine).length = _ from hret]
  rfl

/-- The tag of a record names its instruction. -/
theorem Config.At.unique (hq : Rob.Queue c.spine.rob) {r r' : Rob.Record} {n n' : Nat} {f f' : Flight}
    (hat : c.At r n f) (hat' : c.At r' n' f') (ht : r.tag = r'.tag) : n = n' ∧ r = r' ∧ f = f' := by
  have hplace : ∀ {r : Rob.Record} {n : Nat} {f : Flight}, c.At r n f →
      c.robLog.dispatched[c.robLog.retired.length + (n - c.base)]? = some r := by
    intro r n f hat
    have := hat.live
    rwa [Rob.Log.live, List.getElem?_drop] at this
  have h := hplace hat
  have h' := hplace hat'
  have hlt := (List.getElem?_eq_some_iff.1 h).1
  have hlt' := (List.getElem?_eq_some_iff.1 h').1
  have hroom : c.robLog.dispatched.length ≤ c.robLog.retired.length + 64 := hq.room
  have htag := (hq.tag _ r h).1
  have htag' := (hq.tag _ r' h').1
  have hle := hat.le
  have hle' := hat'.le
  have hidx : n - c.base = n' - c.base := by
    have := Circular.Ptr.ofCount_inj_window (b := c.robLog.retired.length) (w := 6) (by omega) (by omega)
      (htag.symm.trans (ht.trans htag'))
    omega
  have hn : n = n' := by omega
  subst hn
  refine ⟨rfl, ?_, ?_⟩
  · rw [h] at h'
    exact Option.some.inj h'
  · have := hat.flight
    rw [hat'.flight] at this
    exact (Option.some.inj this).symm

/-! ### One edge of a record -/

/-- An instruction that no flush drops keeps its number. -/
theorem next_flight (i : Inputs) {n : Nat} {f : Flight} (hn : c.trace[n]? = some f)
    (hkeep : Spine.pipeFlush c.state.spine = true → n < c.base) :
    (c.next i).trace[n]? = some (f.next i (c.issues n)) := by
  have hlt := (List.getElem?_eq_some_iff.1 hn).1
  show (if Spine.pipeFlush c.state.spine then (c.marked i).take c.base
    else c.marked i ++ c.renamed i)[n]? = _
  cases hf : Spine.pipeFlush c.state.spine with
  | true =>
    rw [if_pos rfl, List.getElem?_take_of_lt (hkeep hf), marked_get, hn]
    rfl
  | false =>
    rw [if_neg Bool.false_ne_true, List.getElem?_append_left (by rwa [marked_length]), marked_get, hn]
    rfl

theorem next_live (h : Spine.Inv c.spine) (i : Inputs) (hf : Spine.pipeFlush c.state.spine = false) :
    (c.next i).robLog.live =
      (c.robLog.live.map (Rob.mark (c.robIn i))).drop (Rob.retireEnCnt c.state.spine.rob) ++
        Rob.dispatching (c.robIn i) c.state.spine.rob := Spine.live_next h.queue hf

theorem retire_le_live (h : Spine.Inv c.spine) :
    Rob.retireEnCnt c.state.spine.rob ≤ c.robLog.live.length := by
  have : c.robLog.retired.length + Rob.retireEnCnt c.state.spine.rob ≤ c.robLog.dispatched.length :=
    h.queue.retiring_le
  rw [Rob.Log.live, List.length_drop]
  omega

/-- Without a flush an instruction that does not retire keeps its place: its record takes
the writebacks, and it hears the broadcasts. -/
theorem Config.At.next (h : Spine.Inv c.spine) (hf : Spine.pipeFlush c.state.spine = false)
    {r : Rob.Record} {n : Nat} {f : Flight} (hat : c.At r n f)
    (hstay : c.base + Rob.retireEnCnt c.state.spine.rob ≤ n) :
    (c.next i).At (Rob.mark (c.robIn i) r) n (f.next i (c.issues n)) := by
  have hbase := next_base i c hf
  have hlt := (List.getElem?_eq_some_iff.1 hat.live).1
  have hidx : Rob.retireEnCnt c.state.spine.rob + (n - (c.next i).base) = n - c.base := by omega
  refine ⟨by omega, ?_, ?_⟩
  · rw [next_live h i hf, List.getElem?_append_left, List.getElem?_drop, hidx, List.getElem?_map, hat.live]
    · rfl
    · rw [List.length_drop, List.length_map]
      omega
  · exact next_flight i hat.flight fun hf' => by rw [hf] at hf'; cases hf'

/-- An instruction in the dispatch register: its lane and its number. -/
structure Config.Waits (c : Config) (l : Lane) (n : Nat) (f : Flight) : Prop where
  lane : ∃ j, (group fun l => (c.state.spine.pipeRenamePkt l).packetValid)[j]? = some l ∧
    n = c.base + c.robLog.live.length + j
  flight : c.trace[n]? = some f

/-- What a lane of the dispatch register becomes in the buffer. -/
def Config.record (c : Config) (i : Inputs) (l : Lane) : Rob.Record where
  pkt := Spine.dispatchRobPkt (spineIn i c.state) c.state.spine l
  tag := Rob.dispatchPktResp (c.robIn i) c.state.spine.rob l

/-- Without a flush the dispatch register goes to the buffer. -/
theorem Config.Waits.next (h : Spine.Inv c.spine) (hf : Spine.pipeFlush c.state.spine = false)
    {l : Lane} {n : Nat} {f : Flight} (hw : c.Waits l n f) :
    (c.next i).At (c.record i l) n (f.next i (c.issues n)) := by
  obtain ⟨⟨j, hj, hn⟩, hflight⟩ := hw
  have hbase := next_base i c hf
  have hle := retire_le_live h
  have hidx : n - (c.next i).base - (c.robLog.live.length - Rob.retireEnCnt c.state.spine.rob) = j := by
    omega
  refine ⟨by omega, ?_, ?_⟩
  · rw [next_live h i hf, List.getElem?_append_right, List.length_drop, List.length_map, hidx,
      Rob.dispatching, List.getElem?_map]
    · show Option.map _ ((group fun l => (c.state.spine.pipeRenamePkt l).packetValid)[j]?) = _
      rw [hj]
      rfl
    · rw [List.length_drop, List.length_map]
      omega
  · exact next_flight i hflight fun hf' => by rw [hf] at hf'; cases hf'

/-- Every record of the next buffer is one of these. -/
theorem Config.At.cases (h : Spine.Inv c.spine) {r : Rob.Record} {n : Nat} {f : Flight}
    (hat : (c.next i).At r n f) : Spine.pipeFlush c.state.spine = false ∧
      ((∃ r₀ f₀, c.At r₀ n f₀ ∧ c.base + Rob.retireEnCnt c.state.spine.rob ≤ n ∧
        r = Rob.mark (c.robIn i) r₀ ∧ f = f₀.next i (c.issues n)) ∨
      (∃ l f₀, c.Waits l n f₀ ∧ r = c.record i l ∧ f = f₀.next i (c.issues n))) := by
  cases hf : Spine.pipeFlush c.state.spine with
  | true =>
    have hnone : (c.next i).robLog.live = [] := Spine.live_flush hf
    have hlive := hat.live
    rw [hnone] at hlive
    cases hlive
  | false =>
    refine ⟨rfl, ?_⟩
    have hbase := next_base i c hf
    have hlen := base_length h
    have hle := hat.le
    have hret := retire_le_live h
    have hgroup : (Spine.renameGroup c.state.spine).length =
        (group fun l => (c.state.spine.pipeRenamePkt l).packetValid).length := by
      rw [Spine.renameGroup, List.length_map]
    have hdis : (Rob.dispatching (c.robIn i) c.state.spine.rob).length =
        (group fun l => (c.state.spine.pipeRenamePkt l).packetValid).length := by
      rw [Rob.dispatching, List.length_map]
      rfl
    have hlt : n < c.trace.length := by
      have hn := (List.getElem?_eq_some_iff.1 hat.live).1
      rw [next_live h i hf, List.length_append, List.length_drop, List.length_map] at hn
      omega
    have hold := List.getElem?_eq_getElem hlt
    have hat' := hat.flight
    by_cases hn : n < c.base + c.robLog.live.length
    · have hidx : n - c.base < c.robLog.live.length := by omega
      have hat₀ : c.At c.robLog.live[n - c.base] n c.trace[n] :=
        ⟨by omega, List.getElem?_eq_getElem hidx, hold⟩
      have hnext := hat₀.next (i := i) h hf (by omega)
      refine .inl ⟨_, _, hat₀, by omega, ?_, ?_⟩
      · exact Option.some.inj (hat.live.symm.trans hnext.live)
      · exact Option.some.inj (hat'.symm.trans hnext.flight)
    · have hj : n - (c.base + c.robLog.live.length) <
          (group fun l => (c.state.spine.pipeRenamePkt l).packetValid).length := by omega
      have hw : c.Waits _ n c.trace[n] :=
        ⟨⟨_, List.getElem?_eq_getElem hj, by omega⟩, hold⟩
      have hnext := hw.next (i := i) h hf
      refine .inr ⟨_, _, hw, ?_, ?_⟩
      · exact Option.some.inj (hat.live.symm.trans hnext.live)
      · exact Option.some.inj (hat'.symm.trans hnext.flight)

end

end R10K.Core
