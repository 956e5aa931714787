import R10K.Spine.Conserve

/-! Where the physical registers are.

A register is on the free list, in the architectural map, or the destination of an
instruction: in the rename/dispatch register, in a valid entry of the buffer, or in the
retire register. Out of recovery each register but 0 is in one place. Register 0 stands
for none: it is the destination of the instructions without one, and what the
architectural map holds where nothing was written yet. -/
namespace R10K.Spine
open Circular Lanes Renaming

inductive Place where
  | free
  | arch (a : Arn)
  | rename (l : Lane)
  | rob (k : BitVec 6)
  | retire (l : Lane)
deriving DecidableEq

/-- A place holds a register. -/
def Holds (s : State) (p : Prn) : Place → Prop
  | .free => s.rename.freeList p = true
  | .arch a => a ≠ 0 ∧ s.archRat a = p
  | .rename l => (s.pipeRenamePkt l).packetValid = true ∧ (s.pipeRenamePkt l).destPrn = p
  | .rob k => (s.rob.robEntry k).valid = true ∧ (s.rob.robEntry k).destPrn = p
  | .retire l => (s.pipeRetirePkt l).packetValid = true ∧ (s.pipeRetirePkt l).destPrn = p

/-! ### The places in flight -/

/-- The slots of the buffer that hold its live records. -/
def liveSlots (c : Config) : List (BitVec 6) :=
  (List.range c.robLog.live.length).map fun j => (Ptr.ofCount 6 (c.robLog.retired.length + j)).idx

/-- The places in flight, oldest first. -/
def inFlightPlaces (c : Config) : List Place :=
  (group fun l => (c.state.pipeRetirePkt l).packetValid).map .retire ++ (liveSlots c).map .rob ++
    (group fun l => (c.state.pipeRenamePkt l).packetValid).map .rename

/-- The destination at a place in flight. -/
def destAt (s : State) : Place → Prn
  | .rename l => (s.pipeRenamePkt l).destPrn
  | .rob k => (s.rob.robEntry k).destPrn
  | .retire l => (s.pipeRetirePkt l).destPrn
  | _ => 0

section
variable {c : Config}

/-- A slot of the buffer is valid exactly if it holds a live record. -/
theorem mem_liveSlots (hq : Rob.Queue c.rob) (k : BitVec 6) :
    k ∈ liveSlots c ↔ (c.state.rob.robEntry k).valid = true := by
  have hle : c.robLog.retired.length ≤ c.robLog.dispatched.length := hq.le
  have hlen : c.robLog.live.length = c.robLog.dispatched.length - c.robLog.retired.length :=
    List.length_drop
  obtain ⟨n, hn, hlt, rfl⟩ := Ptr.idx_surj (w := 6) c.robLog.retired.length k
  rw [liveSlots, List.mem_map]
  by_cases hlive : n < c.robLog.dispatched.length
  · have hslot := hq.slot n _ hn (List.getElem?_eq_getElem hlive)
    have hvalid := (hq.tag n _ (List.getElem?_eq_getElem hlive)).2
    refine iff_of_true ⟨n - c.robLog.retired.length, List.mem_range.2 (by omega), ?_⟩ ?_
    · rw [Nat.add_sub_cancel' hn]
    · have hkeep : c.state.rob.robEntry (Ptr.ofCount 6 n).idx = _ := hslot
      rw [hkeep]
      exact hvalid
  · have hfree : (c.state.rob.robEntry (Ptr.ofCount 6 n).idx).valid = false :=
      hq.free n (Nat.le_of_not_lt hlive) hlt
    refine iff_of_false ?_ (by rw [hfree]; exact Bool.false_ne_true)
    rintro ⟨j, hj, hslot⟩
    rw [List.mem_range] at hj
    have hroom : c.robLog.dispatched.length ≤ c.robLog.retired.length + 64 := hq.room
    have : c.robLog.retired.length + j = n :=
      Ptr.idx_inj_window (b := c.robLog.retired.length) (by omega) ⟨hn, hlt⟩ hslot
    omega

theorem liveSlots_dest (hq : Rob.Queue c.rob) :
    (liveSlots c).map (fun k => (c.state.rob.robEntry k).destPrn) =
      c.robLog.live.map fun r => r.pkt.destPrn := by
  apply List.ext_getElem
  · simp [liveSlots]
  · intro j hj hj'
    simp only [liveSlots, List.length_map, List.length_range] at hj
    have hlen : c.robLog.live.length = c.robLog.dispatched.length - c.robLog.retired.length :=
      List.length_drop
    have hget := List.getElem?_eq_getElem
      (show c.robLog.retired.length + j < c.robLog.dispatched.length by omega)
    have hslot : c.state.rob.robEntry (Ptr.ofCount 6 (c.robLog.retired.length + j)).idx = _ :=
      hq.slot _ _ (Nat.le_add_right _ _) hget
    simp only [liveSlots, List.getElem_map, List.getElem_range, Rob.Log.live, List.getElem_drop]
    rw [hslot]
    rfl

/-- The destinations of the instructions in flight are those at their places. -/
theorem inFlightPlaces_dest (hq : Rob.Queue c.rob) :
    (inFlightPlaces c).map (destAt c.state) = c.inFlight.map Instr.prn := by
  have hrob : (liveSlots c).map (fun k => destAt c.state (.rob k)) = _ := liveSlots_dest hq
  simp only [inFlightPlaces, Config.inFlight, retireGroup, renameGroup, List.map_append, List.map_map]
  congr 1
  exact congrArg _ hrob

/-! ### Every register has one place -/

/-- The places that hold a register, with multiplicity. -/
noncomputable def places (c : Config) (p : Prn) : List Place :=
  (if c.state.rename.freeList p then [.free] else []) ++
    (mapped c.state.archRat p).toList.map .arch ++
    (inFlightPlaces c).filter fun x => destAt c.state x == p

theorem places_length (hq : Rob.Queue c.rob) (p : Prn) : (places c p).length =
    holders c.state.rename.freeList c.state.archRat c.inFlight p := by
  rw [places, holders, List.length_append, List.length_append, List.length_map, Finset.length_toList,
    ← inFlightPlaces_dest hq, List.count_eq_countP, List.countP_map, List.countP_eq_length_filter]
  congr 2
  cases c.state.rename.freeList p <;> rfl

theorem mem_places (hq : Rob.Queue c.rob) (p : Prn) (x : Place) :
    x ∈ places c p ↔ Holds c.state p x := by
  have hslot := mem_liveSlots hq
  simp only [places, inFlightPlaces, List.mem_append, List.mem_filter, List.mem_map, Finset.mem_toList,
    mapped, Finset.mem_filter, Finset.mem_univ, true_and, mem_group, beq_iff_eq]
  cases x <;> simp [Holds, destAt, hslot]

end

/-- Out of recovery every register but 0 has one place. -/
theorem unique_place {c : Config} (h : Inv c) (hr : c.state.recovArchSt = false) {p : Prn} (hp : p ≠ 0) :
    ∃! x, Holds c.state p x := by
  have hone := (h.steady hr).conserved.once p hp
  rw [← places_length h.queue, List.length_eq_one_iff] at hone
  obtain ⟨x, hx⟩ := hone
  refine ⟨x, (mem_places h.queue p x).1 (by rw [hx]; exact List.mem_singleton_self x), fun y hy => ?_⟩
  have hmem := (mem_places h.queue p y).2 hy
  rw [hx] at hmem
  exact List.mem_singleton.1 hmem

/-! ### Register 0 -/

/-- An instruction in flight is one of the program. -/
theorem inFlight_named {c : Config} (h : Inv c) {r : Instr Arn Prn} (hr : r ∈ c.inFlight) :
    r.prn = 0 ↔ r.arn = 0 := by
  rw [← h.program] at hr
  exact h.named r (List.mem_of_mem_drop hr)

/-- Only the instructions without a destination carry register 0. -/
structure ZeroDest (s : State) : Prop where
  rename : ∀ l, (s.pipeRenamePkt l).packetValid = true →
    ((s.pipeRenamePkt l).destPrn = 0 ↔ (s.pipeRenamePkt l).destArn = 0)
  rob : ∀ k, (s.rob.robEntry k).valid = true →
    ((s.rob.robEntry k).destPrn = 0 ↔ (s.rob.robEntry k).destArn = 0)
  retire : ∀ l, (s.pipeRetirePkt l).packetValid = true →
    ((s.pipeRetirePkt l).destPrn = 0 ↔ (s.pipeRetirePkt l).destArn = 0)

theorem zeroDest {c : Config} (h : Inv c) : ZeroDest c.state where
  rename := fun l hl => inFlight_named h (r := Rename.renameInstr (c.state.pipeRenamePkt l)) <|
    List.mem_append_right _ (List.mem_map.2 ⟨l, mem_group.2 hl, rfl⟩)
  retire := fun l hl => inFlight_named h (r := retireInstr (c.state.pipeRetirePkt l)) <|
    List.mem_append_left _ (List.mem_append_left _ (List.mem_map.2 ⟨l, mem_group.2 hl, rfl⟩))
  rob := by
    intro k hk
    obtain ⟨j, hj, rfl⟩ := List.mem_map.1 ((mem_liveSlots h.queue k).2 hk)
    rw [List.mem_range] at hj
    have hlen : c.robLog.live.length = c.robLog.dispatched.length - c.robLog.retired.length :=
      List.length_drop
    have hget := List.getElem?_eq_getElem
      (show c.robLog.retired.length + j < c.robLog.dispatched.length by omega)
    have hslot : c.state.rob.robEntry (Ptr.ofCount 6 (c.robLog.retired.length + j)).idx = _ :=
      h.queue.slot _ _ (Nat.le_add_right _ _) hget
    have hmem : c.robLog.dispatched[c.robLog.retired.length + j] ∈ c.robLog.live := by
      rw [Rob.Log.live, ← List.getElem_drop (h := by rw [List.length_drop]; omega)]
      exact List.getElem_mem _
    rw [hslot]
    exact inFlight_named h (r := robInstr _) <| List.mem_append_left _ <|
      List.mem_append_right _ (List.mem_map.2 ⟨_, hmem, rfl⟩)

/-! ### The results -/

/-- **A renamed instruction gets a register**: in every cycle, so in one that takes a
group, four registers are free, those returned in the cycle included, every lane is
offered one, and no lane with a destination other than x0 carries register 0. -/
theorem renamed_register {c : Config} (h : Reach c) (i : Inputs) :
    4 ≤ (Finset.univ.filter fun p =>
      Rename.freeListRetireFwd (renameIn i c.state) c.state.rename p = true).card ∧
    (∀ l, Rename.freePrnValid (renameIn i c.state) c.state.rename l = true) ∧
    ∀ l, Rename.hasDest (Rename.decoded (renameIn i c.state) c.state.rename l) = true →
      (Rename.renamePkt (renameIn i c.state) c.state.rename l).destPrn ≠ 0 := by
  have hinv := reach_inv h
  refine ⟨hinv.free_card i, fun l => (hinv.offered i l).1, fun l hd h0 => ?_⟩
  exact Rename.hasDest_iff.1 hd ((hinv.renamed_zero i l).1 h0)

/-- The surroundings of a first group: one `addi` in lane 0, and every queue has room. -/
def addiIn : Inputs where
  fetchPkt := fun l => { inst := 0x00500093, packetValid := decide (l = 0) }
  intReady := fun _ => true
  memReady := fun _ => true
  lsqReady := true
  stqResp := fun _ => 0
  ldqResp := fun _ => 0
  cdbValid := fun _ => false
  cdbPrn := fun _ => 0
  cdbRob := fun _ => ⟨false, 0⟩
  cdbBranchMisp := false
  cdbRedirectPc := 0

theorem addiIn_ok : Ok addiIn Config.init := ⟨⟨by decide⟩, fun h => by cases h⟩

theorem renamed_register_addi : Rename.accept (renameIn addiIn reset) = true ∧
    (Rename.renamePkt (renameIn addiIn reset) Rename.reset 0).destPrn ≠ 0 :=
  ⟨by decide, (renamed_register .init addiIn).2.2 0 (by decide)⟩

/-- Every register is accounted for: the ones other than 0 by one place each, and
register 0 by those that use none. -/
structure Accounted (c : Config) : Prop where
  place : ∀ p, p ≠ 0 → ∃! x, Holds c.state p x
  apart : ∀ a b, c.state.archRat a ≠ 0 → c.state.archRat a = c.state.archRat b → a = b
  zeroFree : ¬ Holds c.state 0 .free
  zeroArch : ∀ a, c.state.archRat a = 0 ↔ a = 0 ∨ ∀ r ∈ c.program.take c.committed, r.arn ≠ a
  zeroDest : ZeroDest c.state

/-- **Physical registers are conserved**: they are accounted for in every cycle but the
recovery cycle, and after that cycle the free ones are those outside the architectural
map. -/
theorem prn_conserved {c : Config} (h : Reach c) :
    (c.state.recovArchSt = false → Accounted c) ∧
    ∀ i, Ok i c → c.state.recovArchSt = true →
      (c.next i).state.recovArchSt = false ∧
      ∀ p, (c.next i).state.rename.freeList p = true ↔ ∀ a, (c.next i).state.archRat a ≠ p := by
  have hinv := reach_inv h
  refine ⟨fun hr => ⟨fun p hp => unique_place hinv hr hp, ?_, ?_, ?_, zeroDest hinv⟩, ?_⟩
  · exact fun a b ha hab => (hinv.steady hr).conserved.injective.eq ha hab
  · exact fun hfree => by rw [Holds, hinv.zeroFree] at hfree; cases hfree
  · intro a
    rw [hinv.archRat]
    exact replay_eq_zero (fun r hr => hinv.named r (List.mem_of_mem_take hr)) a
  · intro i ok hr
    exact ⟨(hinv.recovering hr).noFlush, hinv.rebuilt ok hr⟩

theorem prn_conserved_addi : Accounted (Config.init.next addiIn) :=
  (prn_conserved (.step addiIn .init addiIn_ok)).1 rfl

/-- Register 0 is not outside the architectural map: after reset every mapping is to it. -/
theorem zero_held : ¬ ∀ c, Reach c → c.state.recovArchSt = false → ∀ x, ¬ Holds c.state 0 x :=
  fun h => h Config.init .init rfl (.arch 1) ⟨by decide, rfl⟩

end R10K.Spine
