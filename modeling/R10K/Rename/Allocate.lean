import R10K.Lib.Lanes
import R10K.Lib.Renaming
import R10K.Rename.Model

/-! What renaming a group does to the registers.

The lanes take their registers one after the other: after each lane the free list and
the map are those of a sequence of single allocations. So a group that is taken, with a
free register for every lane, keeps the registers `Conserved`. -/
namespace R10K.Rename
open Select Decoder Lanes Renaming

/-- The mapping a renamed instruction carries. -/
def renameInstr (p : RenamePacket) : Instr Arn Prn := ⟨p.destArn, p.destPrn, p.destPrnPrev⟩

/-- The lanes before a lane. -/
def lanesTo (k : Nat) : List Lane := (List.finRange 4).take k

/-- The instructions of the lanes before a lane. -/
def groupTo (i : Inputs) (s : State) (k : Nat) : List (Instr Arn Prn) :=
  ((lanesTo k).filter fun l => (renamePkt i s l).packetValid).map fun l => renameInstr (renamePkt i s l)

/-- The registers the lanes before a lane leave. -/
def freeTo (i : Inputs) (s : State) (k : Nat) (p : Prn) : Bool :=
  freeListRetireFwd i s p && !(lanesTo k).any fun l => freePrnOh i s l p && freePrnReady i s l

/-- The group that is renamed in this cycle, if it is taken. -/
def renamed (i : Inputs) (s : State) : List (Instr Arn Prn) := if accept i then groupTo i s 4 else []

theorem lanesTo_succ (l : Lane) : lanesTo (l.val + 1) = lanesTo l.val ++ [l] := by
  revert l
  decide

/-! ### The registers offered -/

theorem freePrnOh_free {i : Inputs} {s : State} {l : Lane} {p : Prn} (h : freePrnOh i s l p = true) :
    freeListRetireFwd i s p = true := gntBus_req h

theorem freePrnOh_iff {i : Inputs} {s : State} {l : Lane} (h : freePrnValid i s l = true) (p : Prn) :
    freePrnOh i s l p = true ↔ p = freePrn i s l := by
  rw [freePrnOh, gntBus_iff]
  exact ⟨fun hp => hp.2.symm, fun hp => ⟨h, hp.symm⟩⟩

theorem freePrn_ne_zero {i : Inputs} {s : State} {l : Lane} (h : freePrnValid i s l = true)
    (hz : s.freeList 0 = false) : freePrn i s l ≠ 0 := by
  intro h0
  have hfree := freePrnOh_free ((freePrnOh_iff h _).2 rfl)
  simp [h0, freeListRetireFwd, recycled, hz] at hfree

/-- Four free registers, those returned in this cycle included, serve every lane. -/
theorem freePrnValid_of_card {i : Inputs} {s : State}
    (h : 4 ≤ (Finset.univ.filter fun p => freeListRetireFwd i s p = true).card) (l : Lane) :
    freePrnValid i s l = true := (granted_iff _).2 (gntBus_exists h l)

/-! ### What a lane carries -/

section
variable {i : Inputs} {s : State} {l : Lane}

theorem decoded_rd_valid (h : (decoded i s l).destSelect = .rd) : (decoded i s l).packetValid = true := by
  cases hv : (i.fetchPkt l).packetValid with
  | true => exact hv
  | false =>
    have := (decode_invalid (s.aluAllocHead + validBefore i.fetchPkt l) hv).1
    rw [decoded, decodePkt, this] at h
    cases h

theorem hasDest_iff : hasDest (decoded i s l) = true ↔ (decoded i s l).destArn ≠ 0 := by
  rw [hasDest, Bool.and_eq_true, beq_iff_eq, bne_iff_ne]
  refine ⟨fun h => h.2, fun h => ⟨?_, h⟩⟩
  by_contra hno
  exact h (destArn_none _ _ hno)

theorem hasDest_valid (h : hasDest (decoded i s l) = true) : (decoded i s l).packetValid = true :=
  decoded_rd_valid (by simpa [hasDest] using ((Bool.and_eq_true_iff.1 h).1))

theorem freePrnReady_eq (ha : accept i = true) : freePrnReady i s l = hasDest (decoded i s l) := by
  rw [freePrnReady, ha, Bool.and_true]
  cases h : hasDest (decoded i s l) with
  | false => rfl
  | true => rw [hasDest_valid h, Bool.and_true]

theorem freePrnReady_refused (ha : accept i = false) : freePrnReady i s l = false := by
  rw [freePrnReady, ha, Bool.and_false]

end

/-! ### The map through the group -/

section
variable {i : Inputs} {s : State}

/-- What a lane does to the mapping of one architectural register. -/
theorem lane_apply (l : Lane) (a : Arn) (r : Prn) :
    (if (renamePkt i s l).packetValid = true ∧ a = (renameInstr (renamePkt i s l)).arn ∧ a ≠ 0 then
      (renameInstr (renamePkt i s l)).prn else r) =
    if a ≠ 0 ∧ a = (decoded i s l).destArn then freePrn i s l else r := by
  show (if (decoded i s l).packetValid = true ∧ a = (decoded i s l).destArn ∧ a ≠ 0 then
    prDest i s l else r) = _
  by_cases h : a ≠ 0 ∧ a = (decoded i s l).destArn
  · have hdest : hasDest (decoded i s l) = true := hasDest_iff.2 (h.2 ▸ h.1)
    rw [if_pos ⟨hasDest_valid hdest, h.2, h.1⟩, if_pos h, prDest, if_pos hdest]
  · rw [if_neg h, if_neg fun h' => h ⟨h'.2.2, h'.2.1⟩]

/-- The map after the lanes before a lane, as the loop of `rat` computes it. -/
theorem rat_group (ha : accept i = true) (hv : ∀ l, freePrnValid i s l = true) (k : Nat) (a : Arn) :
    (lanesTo k).foldl (fun r l =>
      if freePrnValid i s l && freePrnReady i s l && a == (decoded i s l).destArn then freePrn i s l else r)
      (s.rat a) = replay s.rat (groupTo i s k) a := by
  rw [groupTo, replay_filter]
  congr 1
  funext r l
  rw [lane_apply, hv l, freePrnReady_eq ha, Bool.true_and]
  congr 1
  rw [Bool.and_eq_true, hasDest_iff, beq_iff_eq, eq_iff_iff]
  exact ⟨fun h => ⟨h.2 ▸ h.1, h.2⟩, fun h => ⟨h.2 ▸ h.1, h.2⟩⟩

/-- No lane maps x0: a lane that writes it takes no register. -/
theorem lookup_zero (hz : s.rat 0 = 0) (l : Lane) : lookup i s l 0 = 0 := by
  rw [lookup]
  cases h : depLane i s l 0 with
  | none => exact hz
  | some m =>
    have hm := List.find?_some h
    rw [Bool.and_eq_true, beq_iff_eq, beq_iff_eq] at hm
    exact if_neg fun hd => hasDest_iff.1 hd hm.2.symm

/-- A lane sees the map that the lanes before it make. -/
theorem lookup_eq (hz : s.rat 0 = 0) (l : Lane) (a : Arn) :
    lookup i s l a = replay s.rat (groupTo i s l.val) a := by
  by_cases ha : a = 0
  · rw [ha, lookup_zero hz, replay_zero, hz]
  · have hdep : lookup i s l a = (lanesTo l.val).foldl (fun r m =>
        if (decoded i s m).destSelect == .rd && a == (decoded i s m).destArn then prDest i s m else r)
        (s.rat a) := by
      rw [foldl_last (fun m => (decoded i s m).destSelect == .rd && a == (decoded i s m).destArn)
        (prDest i s), lookup, depLane, lanesTo]
      split <;> rename_i h <;> rw [h] <;> rfl
    rw [hdep, groupTo, replay_filter]
    congr 1
    funext r m
    rw [lane_apply]
    by_cases hm : a = (decoded i s m).destArn
    · have hdest : hasDest (decoded i s m) = true := hasDest_iff.2 (hm ▸ ha)
      have hrd := (Bool.and_eq_true_iff.1 hdest).1
      have hboth : ((decoded i s m).destSelect == .rd && a == (decoded i s m).destArn) = true := by
        rw [hrd, Bool.true_and, beq_iff_eq]
        exact hm
      rw [if_pos hboth, if_pos ⟨ha, hm⟩, prDest, if_pos hdest]
    · rw [if_neg fun h => hm (beq_iff_eq.1 (Bool.and_eq_true_iff.1 h).2), if_neg fun h => hm h.2]

/-! ### The registers through the group -/

theorem freeTo_zero : freeTo i s 0 = freeListRetireFwd i s := by
  funext p
  exact Bool.and_true _

theorem freeTo_succ (l : Lane) (p : Prn) :
    freeTo i s (l.val + 1) p = (freeTo i s l.val p && !(freePrnOh i s l p && freePrnReady i s l)) := by
  simp [freeTo, lanesTo_succ, Bool.and_assoc]

/-- A lane's register is not one that the lanes before it took. -/
theorem freeTo_offered {l : Lane} (hv : freePrnValid i s l = true) :
    freeTo i s l.val (freePrn i s l) = true := by
  have hoh := (freePrnOh_iff hv _).2 rfl
  rw [freeTo, freePrnOh_free hoh, Bool.true_and, Bool.not_eq_true', List.any_eq_false]
  intro m hm hboth
  have hml : m = l := gntBus_disjoint (Bool.and_eq_true_iff.1 hboth).1 hoh
  obtain ⟨j, hj, hget⟩ := List.mem_iff_getElem.1 hm
  rw [lanesTo, List.length_take] at hj
  simp only [lanesTo, List.getElem_take, List.getElem_finRange] at hget
  have hval : m.val = j := by rw [← hget]; rfl
  rw [hml] at hval
  omega

theorem groupTo_succ (l : Lane) : groupTo i s (l.val + 1) =
    groupTo i s l.val ++ if (renamePkt i s l).packetValid then [renameInstr (renamePkt i s l)] else [] := by
  rw [groupTo, lanesTo_succ, List.filter_append, List.map_append]
  congr 1
  cases h : (renamePkt i s l).packetValid <;> simp [h]

/-- One lane: it takes its register, or it has no destination. -/
theorem allocate_lane {m : Arn → Prn} {live : List (Instr Arn Prn)} (ha : accept i = true)
    (hv : ∀ l, freePrnValid i s l = true) (hrat : s.rat = replay m live) (l : Lane)
    (h : Conserved (freeTo i s l.val) m (live ++ groupTo i s l.val)) :
    Conserved (freeTo i s (l.val + 1)) m (live ++ groupTo i s (l.val + 1)) := by
  have hz : s.rat 0 = 0 := by rw [hrat, replay_zero, h.zeroMap]
  have hvalid : (renamePkt i s l).packetValid = (decoded i s l).packetValid := rfl
  rw [groupTo_succ, hvalid]
  cases hd : hasDest (decoded i s l) with
  | true =>
    have hfree : freeTo i s (l.val + 1) = take (freeTo i s l.val) (freePrn i s l) := by
      funext p
      rw [freeTo_succ, freePrnReady_eq ha, hd, Bool.and_true, take]
      congr 1
      rw [Bool.eq_iff_iff, Bool.not_eq_true', decide_eq_true_eq, ← Bool.not_eq_true,
        freePrnOh_iff (hv l)]
    have hprn : (renameInstr (renamePkt i s l)).prn = freePrn i s l := if_pos hd
    have hrd := (Bool.and_eq_true_iff.1 hd).1
    rw [hasDest_valid hd, if_pos rfl, hfree, ← List.append_assoc, ← hprn]
    refine h.allocate (hasDest_iff.1 hd) (hprn ▸ freeTo_offered (hv l)) ?_
    rw [replay_append, ← hrat, ← lookup_eq hz]
    exact if_pos hrd
  | false =>
    have hfree : freeTo i s (l.val + 1) = freeTo i s l.val := by
      funext p
      rw [freeTo_succ, freePrnReady_eq ha, hd, Bool.and_false, Bool.not_false, Bool.and_true]
    have h0 : (decoded i s l).destArn = 0 := not_not.1 fun hne => by
      rw [hasDest_iff.2 hne] at hd
      cases hd
    rw [hfree]
    cases hvl : (decoded i s l).packetValid with
    | false => simpa using h
    | true =>
      rw [if_pos rfl, ← List.append_assoc]
      refine h.pass h0 (if_neg (Bool.eq_false_iff.1 hd)) ?_
      show prDestPrev i s l = 0
      rw [prDestPrev]
      split
      · rw [h0]
        exact lookup_zero hz l
      · rfl

/-- **The registers stay conserved over a group that is taken.** -/
theorem allocate_group {m : Arn → Prn} {live : List (Instr Arn Prn)} (ha : accept i = true)
    (hv : ∀ l, freePrnValid i s l = true) (hrat : s.rat = replay m live)
    (h : Conserved (freeListRetireFwd i s) m live) (k : Nat) (hk : k ≤ 4) :
    Conserved (freeTo i s k) m (live ++ groupTo i s k) := by
  induction k with
  | zero =>
    rw [freeTo_zero]
    simpa [groupTo, lanesTo] using h
  | succ k ih => exact allocate_lane ha hv hrat ⟨k, hk⟩ (ih (by omega))

/-! ### One cycle -/

/-- The free list of the next cycle, when it is not rebuilt. -/
theorem nextFreeList_eq (hr : i.recovArchSt = false) : nextFreeList i s = freeTo i s 4 := by
  funext p
  have h4 : lanesTo 4 = List.finRange 4 := rfl
  rw [nextFreeList, hr, if_neg Bool.false_ne_true, freeTo, h4, freeListRetireFwd]
  cases (List.finRange 4).any fun l => freePrnOh i s l p && freePrnReady i s l <;>
    cases recycled i p <;> simp

/-- When no lane takes a register the cycle depends on what is fetched no further. -/
theorem next_refused (hno : ∀ l, freePrnReady i s l = false) :
    (next i s).rat = (fun a => if i.recovArchSt then i.archRat a else s.rat a) ∧
    (next i s).freeList = (fun p => if i.recovArchSt then decide (∀ a, p ≠ i.archRat a)
      else if recycled i p then true else s.freeList p) ∧
    (next i s).busyTable = (fun p => if i.recovArchSt then false
      else if (List.finRange 7).any fun w => i.executeValid w && p == i.executePrn w then false
      else s.busyTable p) := by
  refine ⟨funext fun a => ?_, funext fun p => ?_, funext fun p => ?_⟩
  · show nextRat i s a = _
    simp [nextRat, hno]
  · show nextFreeList i s p = _
    simp [nextFreeList, hno]
  · show nextBusyTable i s p = _
    have hnone : ((List.finRange 4).any fun l => freePrnValid i s l && freePrnReady i s l &&
        p == freePrn i s l) = false := by simp [hno]
    rw [nextBusyTable, hnone, if_neg Bool.false_ne_true]

/-- **A cycle of renaming keeps the registers conserved**: the group it takes joins the
young end, and the map is that of all instructions in flight. -/
theorem next_conserved {m : Arn → Prn} {live : List (Instr Arn Prn)} (hr : i.recovArchSt = false)
    (hv : ∀ l, freePrnValid i s l = true) (hrat : s.rat = replay m live)
    (h : Conserved (freeListRetireFwd i s) m live) :
    Conserved (next i s).freeList m (live ++ renamed i s) ∧
      (next i s).rat = replay m (live ++ renamed i s) := by
  have hfree : (next i s).freeList = freeTo i s 4 := nextFreeList_eq hr
  rw [hfree, renamed, replay_append, ← hrat]
  cases ha : accept i with
  | true =>
    rw [if_pos rfl]
    refine ⟨allocate_group ha hv hrat h 4 (Nat.le_refl _), ?_⟩
    funext a
    have := rat_group ha hv 4 a
    rw [← this]
    show nextRat i s a = _
    rw [nextRat, hr, if_neg Bool.false_ne_true]
    rfl
  | false =>
    rw [if_neg Bool.false_ne_true, List.append_nil]
    have hnone : ∀ p, freeTo i s 4 p = freeListRetireFwd i s p := by
      intro p
      simp [freeTo, freePrnReady_refused ha]
    refine ⟨by rw [funext hnone]; exact h, ?_⟩
    funext a
    show nextRat i s a = _
    simp [nextRat, hr, freePrnReady_refused ha]

end

end R10K.Rename
