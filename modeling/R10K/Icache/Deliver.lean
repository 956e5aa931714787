import R10K.Icache.Refill

/-! When the instruction cache delivers each fetch once.

A fetch is in service from its acceptance until the controller is idle or accepts the next
one, and its group is to be taken once in between. Every state keeps to that but
`AFTER_WAIT_RDY`: it presents the group, and leaves by `fetch_pc_valid` alone. If the
consumer takes the group there and a fetch is offered, the group is presented again; if the
consumer does not take it and no fetch is offered, the controller goes idle and the group
is lost. -/
namespace R10K.Icache
open Cache
variable {mem : Mem} {i : Inputs}

/-- The consumer takes a group. -/
def grpTaken (i : Inputs) (c : State) : Bool := i.fetchGrpReady && (List.finRange 8).any (fetchGrpValid c)

/-- The fetch in service. -/
def service (c : State) : List (BitVec 32) := if c.currSt = .idle then [] else [c.currFetchPc]

/-- The cache with the fetches it accepted and the groups taken from it, with their masks. -/
structure Log where
  sys : System
  accepted : List (BitVec 32)
  taken : List (Block × (Fin 8 → Bool))

variable {s : Log}

namespace Log

def init (tagSram : CacheWay → Sram Tag) (dataSram : CacheWay → Sram Block) : Log :=
  ⟨.init tagSram dataSram, [], []⟩

def next (i : Inputs) (s : Log) : Log where
  sys := s.sys.next i
  accepted := s.accepted ++ (if fetchPcAccept i s.sys.ctrl then [i.fetchPc] else [])
  taken := s.taken ++ (if grpTaken i s.sys.ctrl then [(fetchGrp s.sys.ctrl, fetchGrpValid s.sys.ctrl)] else [])

end Log

/-- The group of a fetch: the memory's line, from the fetch on. -/
def deliver (mem : Mem) (pc : BitVec 32) : Block × (Fin 8 → Bool) :=
  (memLine mem pc, maskFrom (addrOffset pc))

/-- The groups taken are those of the fetches accepted, in order, less the one in service. -/
def Delivered (mem : Mem) (s : Log) : Prop :=
  ∃ done, s.accepted = done ++ service s.sys.ctrl ∧ s.taken = done.map (deliver mem)

/-- In `AFTER_WAIT_RDY` the consumer is ready exactly if no fetch is offered. -/
def Steady (i : Inputs) (c : State) : Prop :=
  c.currSt = .afterWaitRdy → (i.fetchGrpReady = true ↔ i.fetchPcValid = false)

instance (i : Inputs) (c : State) : Decidable (Steady i c) := inferInstanceAs (Decidable (_ → _))

/-! ### One edge -/

/-- A group is taken when the array hits in a state that presents it. -/
theorem grpTaken_eq (i : Inputs) (c : State) :
    grpTaken i c = (i.fetchGrpReady && !silentSt c.currSt && hit c) := by
  have hlast : maskFrom c.array.addrOffsetPipe 7 = true := by
    have h := (c.array.addrOffsetPipe.extractLsb' 2 3).isLt
    exact decide_eq_true (Nat.le_of_lt_succ h)
  have hany : (List.finRange 8).any (fetchGrpValid c) = (!silentSt c.currSt && hit c) := by
    rw [Bool.eq_iff_iff, List.any_eq_true]
    constructor
    · intro ⟨k, _, hk⟩
      rw [fetchGrpValid, rdBlockMask] at hk
      cases hs : silentSt c.currSt
      · rw [hs] at hk
        exact (Bool.and_eq_true_iff.1 hk).2
      · rw [hs] at hk
        cases hk
    · intro h
      rw [Bool.and_eq_true, Bool.not_eq_true'] at h
      refine ⟨7, List.mem_finRange 7, ?_⟩
      rw [fetchGrpValid, h.1, rdBlockMask, hlast, Bool.true_and]
      exact h.2
  rw [grpTaken, hany, Bool.and_assoc]

/-- A fetch that waited for the consumer hits when it is presented again. -/
theorem Inv.hit_after {s : System} (h : Inv mem s) (hst : s.ctrl.currSt = .afterWaitRdy) : hit s.ctrl = true := by
  rw [h.hit_eq (by rw [hst]; decide), h.shows.hit_iff (h.fresh (by rw [hst]; rfl)) (h.looked (by rw [hst]; rfl))]
  exact h.present (by rw [hst]; rfl)

/-- **A cycle serves what it takes**: the fetch in service, followed by the one accepted, is
the one whose group is taken followed by the one then in service. -/
theorem conserve {s : System} (h : Inv mem s) (ok : Steady i s.ctrl) :
    service s.ctrl ++ (if fetchPcAccept i s.ctrl then [i.fetchPc] else []) =
      (if grpTaken i s.ctrl then [s.ctrl.currFetchPc] else []) ++ service (next i s.ctrl) := by
  have he := edge i s.ctrl
  have hmiss : s.ctrl.currSt = .rdL2Req ∨ s.ctrl.currSt = .rdL2Ack → hit s.ctrl = false := h.hit_miss
  have hwr : s.ctrl.currSt = .wrL1 → hit s.ctrl = true := fun hst => by
    rw [hit, arrayHit, h.phase.wen_iff.2 hst, Bool.or_true]
  have hafter := h.hit_after
  have hpc : (next i s.ctrl).currFetchPc = if fetchPcAccept i s.ctrl then i.fetchPc
      else if nextSt i s.ctrl = .idle then 0 else s.ctrl.currFetchPc := rfl
  have hserve : service (next i s.ctrl) =
      if nextSt i s.ctrl = .idle then [] else [(next i s.ctrl).currFetchPc] := rfl
  rw [grpTaken_eq, hserve, hpc, service]
  unfold Steady at ok
  generalize s.ctrl.currSt = st, nextSt i s.ctrl = st', fetchPcAccept i s.ctrl = acc at he hmiss hwr hafter ok ⊢
  cases he <;> simp_all [silentSt]

theorem Delivered.next (hd : Delivered mem s) (h : Inv mem s.sys) (ok : Steady i s.sys.ctrl) :
    Delivered mem (s.next i) := by
  obtain ⟨done, hacc, htaken⟩ := hd
  refine ⟨done ++ (if grpTaken i s.sys.ctrl then [s.sys.ctrl.currFetchPc] else []), ?_, ?_⟩
  · calc (s.next i).accepted
        = (done ++ service s.sys.ctrl) ++ (if fetchPcAccept i s.sys.ctrl then [i.fetchPc] else []) := by
          rw [← hacc]
          rfl
      _ = _ := by
          rw [List.append_assoc, conserve h ok, ← List.append_assoc]
          rfl
  · rw [List.map_append, ← htaken]
    simp only [Log.next]
    congr 1
    by_cases htake : grpTaken i s.sys.ctrl = true
    · have hloud : silentSt s.sys.ctrl.currSt = false ∧ hit s.sys.ctrl = true := by
        rw [grpTaken_eq] at htake
        simp only [Bool.and_eq_true, Bool.not_eq_true'] at htake
        exact ⟨htake.1.2, htake.2⟩
      obtain ⟨hgrp, hmask⟩ := h.presented hloud.1 hloud.2
      rw [if_pos htake, if_pos htake, hgrp, hmask]
      rfl
    · rw [if_neg htake, if_neg htake]
      rfl

/-- **Each fetch is delivered once**, in a run that leaves `AFTER_WAIT_RDY` as it should. -/
theorem delivers_once {tagSram : CacheWay → Sram Tag} {dataSram : CacheWay → Sram Block}
    (h : Run.Reach Log.next (fun i s => (Serves mem i s.sys ∧ InOrder i s.sys) ∧ Steady i s.sys.ctrl)
      (Log.init tagSram dataSram) s) : Delivered mem s :=
  (h.invariant (fun s => Inv mem s.sys ∧ Delivered mem s) ⟨Inv.init tagSram dataSram, [], rfl, rfl⟩
    fun _ _ hi ok => ⟨hi.1.next ok.1.1 ok.1.2, hi.2.next hi.1 ok.2⟩).2

/-! ### A group kept waiting after a miss -/

/-- A fetch of 0x200, answered in order, whose group waits for the consumer and is then
presented in `AFTER_WAIT_RDY`. -/
def waitIns : List Inputs := inOrderIns ++ [({} : Inputs), { fetchGrpReady := true }]

/-- It is taken there with no fetch offered. -/
def takeIns : List Inputs := waitIns ++ [{ fetchGrpReady := true }]

/-- It is taken there with a fetch offered, and presented again. -/
def takeTwiceIns : List Inputs := waitIns ++ [{ fetchGrpReady := true, fetchPcValid := true }, { fetchGrpReady := true }]

def emptyLog : Log := ⟨cleared, [], []⟩

theorem delivers_once_wait : Delivered addresses (takeIns.foldl (fun s i => s.next i) emptyLog) ∧
    (takeIns.foldl (fun s i => s.next i) emptyLog).taken.length = 1 :=
  ⟨delivers_once (.of_keeps takeIns .init (by decide +kernel)), by decide +kernel⟩

/-- One fetch was accepted and two groups were taken. -/
theorem delivered_twice : ∃ s, Run.Reach Log.next (fun i s => Serves addresses i s.sys ∧ InOrder i s.sys) emptyLog s ∧
    ¬ Delivered addresses s := by
  refine ⟨takeTwiceIns.foldl (fun s i => s.next i) emptyLog, .of_keeps takeTwiceIns .init (by decide +kernel),
    fun ⟨done, hacc, htaken⟩ => ?_⟩
  have htwo : (takeTwiceIns.foldl (fun s i => s.next i) emptyLog).taken.length = 2 := by decide +kernel
  have hone : (takeTwiceIns.foldl (fun s i => s.next i) emptyLog).accepted.length = 1 := by decide +kernel
  rw [htaken, List.length_map] at htwo
  rw [hacc, List.length_append] at hone
  omega

end R10K.Icache
