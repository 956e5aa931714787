import R10K.Icache.Deliver
import R10K.Mem.Burst

/-! The instruction cache wired to the memory.

The memory of `mem.sv` behaves as a refill needs it to: with a latency of at least three
cycles and below the number of tags it accepts the four requests under tags of their own
and answers them in order and in consecutive cycles, after the last of them was made. So
nothing has to be promised of it: whatever is fetched, every group presented is the memory's. -/
namespace R10K.Icache
open Cache Mem

/-- What comes from outside. `unknown` is what `mem2proc_data` is taken for while no tag is shown. -/
structure WiredInputs where
  fetchPc : BitVec 32 := 0
  fetchPcValid : Bool := false
  fetchGrpReady : Bool := false
  unknown : BitVec 64 := 0

structure Wired where
  ctrl : State
  mem : Mem.State

/-- What the memory shows the controller. -/
def ctrlIn (i : WiredInputs) (w : Wired) : Inputs where
  imem2procResponse := w.mem.mem2procResponse
  imem2procData := w.mem.mem2procData.getD i.unknown
  imem2procTag := w.mem.mem2procTag
  fetchPc := i.fetchPc
  fetchPcValid := i.fetchPcValid
  fetchGrpReady := i.fetchGrpReady

/-- What the controller asks of the memory. -/
def memIn (c : State) : Mem.Inputs where
  proc2memAddr := proc2imemAddr c
  proc2memCommand := proc2imemCommand c

namespace Wired

def init (tagSram : CacheWay → Sram Tag) (dataSram : CacheWay → Sram Block) (memory : Line → BitVec 64)
    (loaded : MemTag → BitVec 64) : Wired := ⟨reset tagSram dataSram, Mem.init memory loaded⟩

def next (latency : BitVec 16) (i : WiredInputs) (w : Wired) : Wired :=
  ⟨Icache.next (ctrlIn i w) w.ctrl, Mem.next latency (memIn w.ctrl) w.mem⟩

end Wired

/-- Fetches stay inside the memory. -/
def InRange (i : WiredInputs) : Prop := i.fetchPcValid = true → i.fetchPc.toNat < 64 * 1024

variable {latency : BitVec 16} {mem : Mem} {i : WiredInputs} {w : Wired} {s : System}
  {l : DelayLine Request} {out : Option Request} {e : Nat}

/-- How many edges of the burst have passed, in each state of the controller. -/
def Stage (n : Nat) (s : System) (e : Nat) : Prop :=
  match s.ctrl.currSt with
  | .rdL2Req => e < 4 ∧ s.ctrl.proc2imemInstCnt.toNat = 2 * e ∧ s.got = []
  | .rdL2Ack => 4 ≤ e ∧ e ≤ n + 4 ∧ s.got.length = e - n - 1
  | .wrL1 => e = n + 5
  | _ => e = 0

/-- The wired cache, with what the memory knows of its requests and holds of them. -/
structure Linked (latency : BitVec 16) (mem : Mem) (w : Wired) (s : System) (l : DelayLine Request)
    (out : Option Request) (e : Nat) : Prop where
  ctrl : s.ctrl = w.ctrl
  inv : Inv mem s
  served : Served latency mem w.mem l out s.asked s.pending
  flows : Flows latency.toNat (doubleAddr s.ctrl.currFetchPc) e l out
  stage : Stage latency.toNat s e
  range : s.ctrl.currFetchPc.toNat < 64 * 1024

/-- The doublewords of a line inside the memory have valid addresses. -/
theorem doubleAddr_valid {addr : BitVec 32} {p : Nat} (haddr : addr.toNat < 64 * 1024) (hp : p < 4)
    (command : BusCommand) : validAddress { proc2memAddr := doubleAddr addr p, proc2memCommand := command } = true := by
  have hbase := lineBase_toNat addr
  have hnat : (doubleAddr addr p).toNat = addr.toNat / 32 * 32 + 8 * p := by
    rw [doubleAddr, BitVec.toNat_add, BitVec.toNat_ofNat, hbase]
    omega
  rw [validAddress, Bool.and_eq_true, beq_iff_eq, decide_eq_true_eq, hnat]
  refine ⟨?_, by omega⟩
  apply BitVec.eq_of_toNat_eq
  rw [BitVec.extractLsb'_toNat, hnat, Nat.shiftRight_eq_div_pow]
  show _ % 2 ^ 3 = 0
  omega

namespace Linked

/-- The load on the bus. -/
theorem bus (h : Linked latency mem w s l out e) {k : MemTag} {a : BitVec 32} {d : BitVec 64}
    (hout : out = some ⟨k, some (a, d)⟩) : latency.toNat + 1 ≤ e ∧
      a = doubleAddr s.ctrl.currFetchPc (e - latency.toNat - 1) := by
  have hbus := h.flows.bus_eq
  rw [hout, loadAddr, Option.bind_some, Option.map_some] at hbus
  split at hbus
  · rename_i he
    exact ⟨he.1, Option.some.inj hbus⟩
  · cases hbus

theorem serves (h : Linked latency mem w s l out e) (hlat : Suits latency) : Serves mem (ctrlIn i w) s where
  accept := h.served.accept
  answer := fun ht => by
    obtain ⟨k, a, d, hout⟩ := h.served.tag_iff.1 ht
    obtain ⟨_, hdata, hwait⟩ := h.served.answer hout
    refine ⟨a, hwait, ?_⟩
    rw [ctrlIn, hdata, Option.getD_some]
  late := fun ht hst => by
    obtain ⟨k, a, d, hout⟩ := h.served.tag_iff.1 ht
    have he := (h.bus hout).1
    have hlow := hlat.low
    have hstage := h.stage
    rw [Stage, hst] at hstage
    omega

/-- The load on the bus answers the next place. -/
theorem answer_eq (h : Linked latency mem w s l out e) : Icache.answer (ctrlIn i w) s =
    if latency.toNat + 1 ≤ e ∧ e < latency.toNat + 5 then
      some (doubleAddr s.ctrl.currFetchPc (e - latency.toNat - 1)) else none := by
  rw [← h.flows.bus_eq]
  by_cases ht : w.mem.mem2procTag = 0
  · have hnone : loadAddr out = none := by
      rw [Option.eq_none_iff_forall_ne_some]
      intro a ha
      obtain ⟨k, d, hout⟩ := Served.loadAddr_eq_some.1 ha
      exact h.served.tag_iff.2 ⟨k, a, d, hout⟩ ht
    rw [hnone]
    exact if_pos ht
  · obtain ⟨k, a, d, hout⟩ := h.served.tag_iff.1 ht
    have hwait := (h.served.answer hout).2.2
    rw [hout]
    exact (if_neg ht).trans hwait

theorem inOrder (h : Linked latency mem w s l out e) : InOrder (ctrlIn i w) s where
  order := fun hst a ha => by
    have hstage := h.stage
    rw [Stage, hst] at hstage
    rw [h.answer_eq] at ha
    split at ha
    · rw [hstage.2.2]
      exact (Option.some.inj ha).symm
    · cases ha
  last := fun hst hgot => by
    have hstage := h.stage
    rw [Stage, hst] at hstage
    have hbus := h.flows.bus_eq
    rw [if_pos (by omega)] at hbus
    obtain ⟨k, d, hout⟩ := Served.loadAddr_eq_some.1 hbus
    exact h.served.tag_iff.2 ⟨k, _, d, hout⟩

/-! ### One edge -/

/-- What the edge asks of the memory. -/
theorem asks (h : Linked latency mem w s l out e) (hlat : Suits latency) :
    Served latency mem (Mem.next latency (memIn w.ctrl) w.mem)
        (DelayLine.shift latency.toNat (request (memIn w.ctrl) w.mem) l) (l 0)
        (s.next (ctrlIn i w)).asked (s.next (ctrlIn i w)).pending ∧
      loadAddr (request (memIn w.ctrl) w.mem) = (s.next (ctrlIn i w)).asked := by
  have hcmd : proc2imemCommand s.ctrl = .busLoad → s.ctrl.currSt = .rdL2Req := fun hload => by
    rw [proc2imemCommand] at hload
    split at hload
    · assumption
    · cases hload
  have hserved := h.served.next (i := memIn s.ctrl) hlat.ne_zero hlat.high
    (by
      show proc2imemCommand s.ctrl ≠ .busStore
      rw [proc2imemCommand]
      split <;> decide)
    (fun hload => by
      have hst := hcmd hload
      have hstage := h.stage
      rw [Stage, hst] at hstage
      rw [memIn, proc2imemAddr_eq hst hstage.2.1]
      exact doubleAddr_valid h.range hstage.1 _)
  rw [← h.ctrl]
  refine ⟨hserved, ?_⟩
  have hlow := hlat.low
  have hlast : DelayLine.shift latency.toNat (request (memIn s.ctrl) w.mem) l (latency.toNat - 1) =
      request (memIn s.ctrl) w.mem := if_pos (by omega)
  rw [← hlast]
  exact hserved.asked.symm

theorem range_next (h : Linked latency mem w s l out e) (hin : InRange i) :
    (Icache.next (ctrlIn i w) s.ctrl).currFetchPc.toNat < 64 * 1024 := by
  simp only [Icache.next]
  split
  · rename_i hacc
    rw [fetchPcAccept, Bool.and_eq_true] at hacc
    exact hin hacc.1
  · split
    · decide
    · exact h.range

/-- The answers that have come. -/
theorem got_next (h : Linked latency mem w s l out e) (hst : s.ctrl.currSt ≠ .chkHit) :
    (s.next (ctrlIn i w)).got.length = s.got.length +
      if latency.toNat + 1 ≤ e ∧ e < latency.toNat + 5 then 1 else 0 := by
  rw [System.next, if_neg hst, List.length_append, h.answer_eq]
  split <;> rfl

/-- The counter of the answers goes by twos. -/
theorem imem2procInstCnt_eq (h : Linked latency mem w s l out e) (hst : s.ctrl.currSt = .rdL2Ack) :
    s.ctrl.imem2procInstCnt.toNat = 2 * s.got.length := by
  have hphase := h.inv.phase
  rw [Phase, hst] at hphase
  rcases hphase with ⟨_, ⟨_, hn⟩ | ⟨_, n, _, hn⟩⟩ <;>
    rw [hn.cnt, hn.got, List.length_map, List.length_range]

/-- The burst after an edge, and its stage. -/
structure Bursts (latency : BitVec 16) (i : WiredInputs) (w : Wired) (s : System) (l : DelayLine Request) (e : Nat) :
    Prop where
  flows : Flows latency.toNat (doubleAddr (Icache.next (ctrlIn i w) s.ctrl).currFetchPc) e
    (DelayLine.shift latency.toNat (request (memIn w.ctrl) w.mem) l) (l 0)
  stage : Stage latency.toNat (s.next (ctrlIn i w)) e

/-- A cycle of `RD_L2_REQ` puts in the next place. -/
theorem bursts_req (h : Linked latency mem w s l out e) (hlat : Suits latency) (hst : s.ctrl.currSt = .rdL2Req) :
    Bursts latency i w s l (e + 1) := by
  have hlow := hlat.low
  have hstage := h.stage
  rw [Stage, hst] at hstage
  obtain ⟨he, hcnt, hgot⟩ := hstage
  have hload : (s.next (ctrlIn i w)).asked = some (doubleAddr s.ctrl.currFetchPc e) := by
    rw [System.next, proc2imemCommand, if_pos hst, proc2imemAddr_eq hst hcnt]
    rfl
  have hgot' : (s.next (ctrlIn i w)).got = [] := by
    have hchk : s.ctrl.currSt ≠ .chkHit := by rw [hst]; decide
    simp only [System.next, if_neg hchk]
    rw [h.answer_eq, if_neg (by omega), hgot]
    rfl
  refine ⟨?_, ?_⟩
  · rw [currFetchPc_keep (.inl hst)]
    exact h.flows.next (by omega) (by rw [(h.asks hlat).2, hload, if_pos he])
  · by_cases hlast : s.ctrl.proc2imemInstCnt = 8 - 2
    · have hst' : (s.next (ctrlIn i w)).ctrl.currSt = .rdL2Ack := by
        show nextSt _ _ = _
        rw [nextSt, hst]
        exact if_pos hlast
      have he3 : e = 3 := by
        rw [hlast, show (8 - 2 : BitVec 5).toNat = 6 from rfl] at hcnt
        omega
      rw [Stage, hst']
      refine ⟨by omega, by omega, ?_⟩
      rw [hgot', List.length_nil]
      omega
    · have hst' : (s.next (ctrlIn i w)).ctrl.currSt = .rdL2Req := by
        show nextSt _ _ = _
        rw [nextSt, hst]
        exact if_neg hlast
      have he3 : e ≠ 3 := fun he3 => hlast (by
        apply BitVec.eq_of_toNat_eq
        rw [hcnt, he3]
        rfl)
      rw [Stage, hst']
      refine ⟨by omega, ?_, hgot'⟩
      simp only [System.next, Icache.next, if_pos hst]
      rw [BitVec.toNat_add, hcnt, show (2 : BitVec 5).toNat = 2 from rfl]
      omega

/-- Nothing is asked outside `RD_L2_REQ`. -/
theorem asked_none (hst : s.ctrl.currSt ≠ .rdL2Req) : (s.next (ctrlIn i w)).asked = none := by
  rw [System.next, proc2imemCommand, if_neg hst]
  rfl

/-- A cycle of `RD_L2_ACK` moves the burst on, and leaves it at its end. -/
theorem bursts_ack (h : Linked latency mem w s l out e) (hlat : Suits latency) (hst : s.ctrl.currSt = .rdL2Ack) :
    Bursts latency i w s l (e + 1) := by
  have hlow := hlat.low
  have hne : s.ctrl.currSt ≠ .rdL2Req := by rw [hst]; decide
  have hstage := h.stage
  rw [Stage, hst] at hstage
  obtain ⟨he, hle, hgot⟩ := hstage
  have hmove := h.flows.next (by omega) (by rw [(h.asks (i := i) hlat).2, asked_none hne, if_neg (by omega)])
  have hcnt := h.imem2procInstCnt_eq hst
  by_cases hlast : s.ctrl.imem2procInstCnt = 8 - 2
  · have hst' : (s.next (ctrlIn i w)).ctrl.currSt = .wrL1 := by
      show nextSt _ _ = _
      rw [nextSt, hst]
      exact if_pos hlast
    rw [hlast, hgot, show (8 - 2 : BitVec 5).toNat = 6 from rfl] at hcnt
    refine ⟨hmove.rest (.inr (by omega)) (.inr (by omega)), ?_⟩
    rw [Stage, hst']
    show e + 1 = latency.toNat + 5
    omega
  · have hst' : (s.next (ctrlIn i w)).ctrl.currSt = .rdL2Ack := by
      show nextSt _ _ = _
      rw [nextSt, hst]
      exact if_neg hlast
    have hend : e ≠ latency.toNat + 4 := fun he4 => hlast (by
      apply BitVec.eq_of_toNat_eq
      rw [hcnt, hgot, he4, show latency.toNat + 4 - latency.toNat - 1 = 3 by omega]
      rfl)
    refine ⟨?_, ?_⟩
    · rw [currFetchPc_keep (.inr hst)]
      exact hmove
    · rw [Stage, hst']
      refine ⟨by omega, by omega, ?_⟩
      rw [h.got_next (by rw [hst]; decide), hgot]
      split <;> omega

/-- Outside a refill nothing is under way, and a refill starts from the first place. -/
theorem bursts_rest (h : Linked latency mem w s l out e) (hlat : Suits latency) (hreq : s.ctrl.currSt ≠ .rdL2Req)
    (hack : s.ctrl.currSt ≠ .rdL2Ack) : Bursts latency i w s l 0 := by
  have hlow := hlat.low
  have he : e = 0 ∨ latency.toNat + 5 ≤ e := by
    have hstage := h.stage
    unfold Stage at hstage
    split at hstage
    · exact absurd (by assumption) hreq
    · exact absurd (by assumption) hack
    · exact .inr (Nat.le_of_eq hstage.symm)
    · exact .inl hstage
  have hflows : Flows latency.toNat (doubleAddr s.ctrl.currFetchPc) 0 l out := h.flows.rest he (.inl rfl)
  refine ⟨hflows.idle (by omega) (by rw [(h.asks (i := i) hlat).2, asked_none hreq]), ?_⟩
  unfold Stage
  split
  · rename_i hst
    rcases nextSt_rdL2Req hst with ⟨hchk, _⟩ | hold
    · refine ⟨by decide, ?_, ?_⟩
      · simp only [System.next, Icache.next, if_neg hreq]
        rfl
      · simp only [System.next, if_pos hchk]
    · exact absurd hold hreq
  · rename_i hst
    rcases nextSt_rdL2Ack hst with hold | hold
    · exact absurd hold hreq
    · exact absurd hold hack
  · exact absurd (nextSt_wrL1 (by assumption)) hack
  · rfl

/-- The edges of a refill are counted. -/
def stageNext (c : State) (e : Nat) : Nat := if c.currSt = .rdL2Req ∨ c.currSt = .rdL2Ack then e + 1 else 0

/-- **An edge keeps the link.** -/
theorem next (h : Linked latency mem w s l out e) (hlat : Suits latency) (hin : InRange i) :
    Linked latency mem (w.next latency i) (s.next (ctrlIn i w))
      (DelayLine.shift latency.toNat (request (memIn w.ctrl) w.mem) l) (l 0) (stageNext s.ctrl e) := by
  have hbursts : Bursts latency i w s l (stageNext s.ctrl e) := by
    rw [stageNext]
    split
    · rename_i hst
      rcases hst with hst | hst
      · exact h.bursts_req hlat hst
      · exact h.bursts_ack hlat hst
    · rename_i hst
      rw [not_or] at hst
      exact h.bursts_rest hlat hst.1 hst.2
  exact ⟨congrArg (Icache.next (ctrlIn i w)) h.ctrl, h.inv.next (h.serves hlat) h.inOrder, (h.asks hlat).1,
    hbursts.flows, hbursts.stage, h.range_next hin⟩

end Linked

/-! ### Runs -/

/-- Some record of its requests fits the wired cache. -/
def Fits (latency : BitVec 16) (mem : Mem) (w : Wired) : Prop := ∃ s l out e, Linked latency mem w s l out e

theorem Fits.init (tagSram : CacheWay → Sram Tag) (dataSram : CacheWay → Sram Block) (memory : Line → BitVec 64)
    (loaded : MemTag → BitVec 64) :
    Fits latency (words (Mem.init memory loaded)) (Wired.init tagSram dataSram memory loaded) :=
  ⟨System.init tagSram dataSram, .empty, none, 0, rfl, .init tagSram dataSram, .init memory loaded, .empty, rfl,
    (by decide : (0 : BitVec 32).toNat < 64 * 1024)⟩

theorem Fits.next (h : Fits latency mem w) (hlat : Suits latency) (hin : InRange i) :
    Fits latency mem (w.next latency i) := by
  obtain ⟨s, l, out, e, hl⟩ := h
  exact ⟨_, _, _, _, hl.next hlat hin⟩

section
variable {tagSram : CacheWay → Sram Tag} {dataSram : CacheWay → Sram Block} {memory : Line → BitVec 64}
  {loaded : MemTag → BitVec 64}

theorem reach_fits (hlat : Suits latency)
    (h : Run.Reach (Wired.next latency) (fun i _ => InRange i) (Wired.init tagSram dataSram memory loaded) w) :
    Fits latency (words (Mem.init memory loaded)) w :=
  h.invariant _ (.init tagSram dataSram memory loaded) fun _ _ hf hin => hf.next hlat hin

/-- **The instruction cache is transparent**: a group it presents is the memory's line of the
fetch in service, from the fetch on, in every run of the cache wired to the memory. -/
theorem wired_transparent (hlat : Suits latency)
    (h : Run.Reach (Wired.next latency) (fun i _ => InRange i) (Wired.init tagSram dataSram memory loaded) w)
    {k : Fin 8} (hk : fetchGrpValid w.ctrl k = true) :
    (fetchGrp w.ctrl, fetchGrpValid w.ctrl) = deliver (words (Mem.init memory loaded)) w.ctrl.currFetchPc := by
  obtain ⟨s, l, out, e, hl⟩ := reach_fits hlat h
  rw [← hl.ctrl] at hk ⊢
  have hloud : silentSt s.ctrl.currSt = false := by
    rw [← Bool.not_eq_true]
    intro hsilent
    rw [fetchGrpValid, if_pos hsilent] at hk
    cases hk
  have hhit : hit s.ctrl = true := by
    rw [fetchGrpValid, hloud, rdBlockMask] at hk
    exact (Bool.and_eq_true_iff.1 hk).2
  obtain ⟨hgrp, hmask⟩ := hl.inv.presented hloud hhit
  rw [hgrp, hmask]
  rfl

/-! ### How long a miss takes -/

/-- The wired cache after `t` edges. -/
def Wired.run (latency : BitVec 16) (w : Wired) (ins : Nat → WiredInputs) : Nat → Wired
  | 0 => w
  | t + 1 => (run latency w ins t).next latency (ins t)

/-- The edges of a refill, from the cycle in which the miss is found. -/
theorem Linked.refill (ins : Nat → WiredInputs) (hlat : Suits latency) (hin : ∀ t, InRange (ins t))
    (h : Linked latency mem w s l out e) (hst : s.ctrl.currSt = .chkHit) (hmiss : hit s.ctrl = false) {t : Nat}
    (ht : t ≤ latency.toNat + 5) : ∃ s' l' out', Linked latency mem (w.run latency ins (t + 1)) s' l' out' t ∧
      s'.ctrl.currFetchPc = s.ctrl.currFetchPc ∧ (t = 0 → s'.ctrl.currSt = .rdL2Req) := by
  induction t with
  | zero =>
    have hnext := h.next (i := ins 0) hlat (hin 0)
    have hreq : nextSt (ctrlIn (ins 0) w) s.ctrl = .rdL2Req := by simp [nextSt, hst, hmiss]
    rw [Linked.stageNext, if_neg (by rw [hst]; decide)] at hnext
    refine ⟨_, _, _, hnext, currFetchPc_stay ?_ (by rw [hreq]; decide), fun _ => hreq⟩
    exact fetchPcAccept_off (by rw [hst]; decide) (by rw [hst]; decide) fun _ => hmiss
  | succ t ih =>
    obtain ⟨s', l', out', hl, hpc, hzero⟩ := ih (by omega)
    have hst' : s'.ctrl.currSt = .rdL2Req ∨ s'.ctrl.currSt = .rdL2Ack := by
      have hstage := hl.stage
      unfold Stage at hstage
      split at hstage
      · exact .inl (by assumption)
      · exact .inr (by assumption)
      · omega
      · exact .inl (hzero hstage)
    have hnext := hl.next (i := ins (t + 1)) hlat (hin (t + 1))
    rw [Linked.stageNext, if_pos hst'] at hnext
    exact ⟨_, _, _, hnext, (currFetchPc_keep hst').trans hpc, fun h0 => absurd h0 (Nat.succ_ne_zero t)⟩

/-- Where the controller is when some edges of a refill have passed. -/
theorem Linked.refill_st (h : Linked latency mem w s l out e) (hzero : e = 0 → s.ctrl.currSt = .rdL2Req) :
    (e < latency.toNat + 5 → s.ctrl.currSt = .rdL2Req ∨ s.ctrl.currSt = .rdL2Ack) ∧
      (e = latency.toNat + 5 → s.ctrl.currSt = .wrL1) := by
  have hstage := h.stage
  unfold Stage at hstage
  split at hstage
  · exact ⟨fun _ => .inl (by assumption), fun _ => by omega⟩
  · exact ⟨fun _ => .inr (by assumption), fun _ => by omega⟩
  · exact ⟨fun _ => by omega, fun _ => by assumption⟩
  · exact ⟨fun _ => .inl (hzero hstage), fun _ => by omega⟩

/-- A miss ends in `WR_L1`, which presents the group. -/
theorem Linked.refilled (ins : Nat → WiredInputs) (hlat : Suits latency) (hin : ∀ t, InRange (ins t))
    (h : Linked latency mem w s l out e) (hst : s.ctrl.currSt = .chkHit) (hmiss : hit s.ctrl = false) :
    hit (w.run latency ins (latency.toNat + 6)).ctrl = true ∧
      (fetchGrp (w.run latency ins (latency.toNat + 6)).ctrl,
        fetchGrpValid (w.run latency ins (latency.toNat + 6)).ctrl) = deliver mem w.ctrl.currFetchPc := by
  obtain ⟨s', l', out', hl', hpc, hzero⟩ := h.refill ins (t := latency.toNat + 5) hlat hin hst hmiss (Nat.le_refl _)
  rw [← hl'.ctrl, ← h.ctrl, ← hpc]
  have hwr := (hl'.refill_st hzero).2 rfl
  have hhit : hit s'.ctrl = true := by
    rw [hit, arrayHit, hl'.inv.phase.wen_iff.2 hwr, Bool.or_true]
  obtain ⟨hgrp, hmask⟩ := hl'.inv.presented (by rw [hwr]; rfl) hhit
  rw [hgrp, hmask]
  exact ⟨hhit, rfl⟩

/-- **A miss is served in a constant time**: the group of a fetch that misses is presented, with
the memory's words, a latency and six cycles after the miss is found and not before, whatever
is offered to the cache meanwhile. -/
theorem miss_latency (hlat : Suits latency)
    (h : Run.Reach (Wired.next latency) (fun i _ => InRange i) (Wired.init tagSram dataSram memory loaded) w)
    {ins : Nat → WiredInputs} (hin : ∀ t, InRange (ins t)) (hst : w.ctrl.currSt = .chkHit)
    (hmiss : hit w.ctrl = false) :
    (∀ t, t < latency.toNat + 6 → ∀ k, fetchGrpValid (w.run latency ins t).ctrl k = false) ∧
      (fetchGrp (w.run latency ins (latency.toNat + 6)).ctrl,
        fetchGrpValid (w.run latency ins (latency.toNat + 6)).ctrl) =
        deliver (words (Mem.init memory loaded)) w.ctrl.currFetchPc := by
  obtain ⟨s, l, out, e, hl⟩ := reach_fits hlat h
  rw [← hl.ctrl] at hst hmiss
  have hquiet : ∀ {c : State}, hit c = false → ∀ k, fetchGrpValid c k = false := fun hc k => by
    rw [fetchGrpValid, rdBlockMask, show arrayHit _ _ = false from hc, Bool.and_false, ite_self]
  refine ⟨fun t ht => ?_, (hl.refilled ins hlat hin hst hmiss).2⟩
  cases t with
  | zero =>
    rw [Wired.run, ← hl.ctrl]
    exact hquiet hmiss
  | succ t =>
    obtain ⟨s', l', out', hl', _, hzero⟩ := hl.refill ins (t := t) hlat hin hst hmiss (by omega)
    rw [← hl'.ctrl]
    exact hquiet (hl'.inv.hit_miss ((hl'.refill_st hzero).1 (by omega)))

/-! ### Each fetch once -/

/-- The wired cache with the fetches it accepted and the groups taken from it. -/
structure WiredLog where
  wired : Wired
  accepted : List (BitVec 32)
  taken : List (Block × (Fin 8 → Bool))

/-- One edge, with what is accepted and taken in its cycle. -/
def WiredLog.next (latency : BitVec 16) (i : WiredInputs) (v : WiredLog) : WiredLog where
  wired := v.wired.next latency i
  accepted := v.accepted ++ (if fetchPcAccept (ctrlIn i v.wired) v.wired.ctrl then [i.fetchPc] else [])
  taken := v.taken ++ (if grpTaken (ctrlIn i v.wired) v.wired.ctrl then
    [(fetchGrp v.wired.ctrl, fetchGrpValid v.wired.ctrl)] else [])

/-- **Every fetch gets its group once and in order**: if the consumer takes what it is shown
in `AFTER_WAIT_RDY` exactly when no fetch is offered, the groups taken are the memory's
lines of the fetches accepted, less the one in service. -/
theorem wired_delivers (hlat : Suits latency) {v : WiredLog}
    (h : Run.Reach (WiredLog.next latency)
      (fun i v => InRange i ∧ Steady (ctrlIn i v.wired) v.wired.ctrl)
      ⟨.init tagSram dataSram memory loaded, [], []⟩ v) :
    ∃ done, v.accepted = done ++ service v.wired.ctrl ∧
      v.taken = done.map (deliver (words (Mem.init memory loaded))) := by
  suffices hinv : ∃ s l out e, Linked latency (words (Mem.init memory loaded)) v.wired s l out e ∧
      Delivered (words (Mem.init memory loaded)) ⟨s, v.accepted, v.taken⟩ by
    obtain ⟨s, l, out, e, hl, hd⟩ := hinv
    rw [← hl.ctrl]
    exact hd
  refine h.invariant (fun v => ∃ s l out e, Linked latency (words (Mem.init memory loaded)) v.wired s l out e ∧
    Delivered (words (Mem.init memory loaded)) ⟨s, v.accepted, v.taken⟩) ?_ ?_
  · have hfits : Fits latency _ (Wired.init tagSram dataSram memory loaded) := .init tagSram dataSram memory loaded
    obtain ⟨s, l, out, e, hl⟩ := hfits
    have hidle : service s.ctrl = [] := by
      rw [hl.ctrl]
      rfl
    exact ⟨s, l, out, e, hl, [], by rw [hidle]; rfl, rfl⟩
  · rintro i v ⟨s, l, out, e, hl, hd⟩ ⟨hin, hsteady⟩
    have hnext := hl.next hlat hin
    rw [← hl.ctrl] at hsteady
    have hdeliver := hd.next hl.inv hsteady
    rw [Log.next] at hdeliver
    simp only [hl.ctrl] at hdeliver
    exact ⟨_, _, _, _, hnext, hdeliver⟩

end

/-! ### One fetch, with the latency of the source's clock period -/

/-- A cache and a memory whose words hold their own indices. -/
def wiredStart : Wired :=
  .init (fun _ => ⟨fun _ => 0, 0⟩) (fun _ => ⟨fun _ => 0, 0⟩) (fun l => l.setWidth 64) fun _ => 0

def fetchIn : WiredInputs := { fetchPc := 0x208, fetchPcValid := true, fetchGrpReady := true }

/-- The fetch is looked up, and misses. -/
def wiredFetched : Wired := wiredStart.next 7 fetchIn

theorem fetchIn_inRange : InRange fetchIn := fun _ => by decide

theorem wiredFetched_reach : Run.Reach (Wired.next 7) (fun i _ => InRange i) wiredStart wiredFetched :=
  .step fetchIn .init fetchIn_inRange

theorem idle_inRange (t : Nat) : InRange ((fun _ => {} : Nat → WiredInputs) t) := nofun

theorem Wired.run_reach {init : Wired} {ins : Nat → WiredInputs} (hin : ∀ t, InRange (ins t))
    (h : Run.Reach (Wired.next latency) (fun i _ => InRange i) init w) (t : Nat) :
    Run.Reach (Wired.next latency) (fun i _ => InRange i) init (w.run latency ins t) := by
  induction t with
  | zero => exact h
  | succ t ih => exact .step (ins t) ih (hin t)

theorem miss_latency_thirteen :
    (∀ t, t < 13 → ∀ k, fetchGrpValid (wiredFetched.run 7 (fun _ => {}) t).ctrl k = false) ∧
      (fetchGrp (wiredFetched.run 7 (fun _ => {}) 13).ctrl, fetchGrpValid (wiredFetched.run 7 (fun _ => {}) 13).ctrl) =
        deliver (words wiredStart.mem) 0x208 :=
  miss_latency suits_seven wiredFetched_reach idle_inRange (by decide +kernel) (by decide +kernel)

theorem wired_transparent_line : (fetchGrp (wiredFetched.run 7 (fun _ => {}) 13).ctrl,
      fetchGrpValid (wiredFetched.run 7 (fun _ => {}) 13).ctrl) =
    deliver (words wiredStart.mem) (wiredFetched.run 7 (fun _ => {}) 13).ctrl.currFetchPc := by
  refine wired_transparent suits_seven (Wired.run_reach idle_inRange wiredFetched_reach 13) (k := 7) ?_
  obtain ⟨s, l, out, e, hl⟩ := reach_fits suits_seven wiredFetched_reach
  have hst : s.ctrl.currSt = .chkHit := by rw [hl.ctrl]; decide +kernel
  have hmiss : hit s.ctrl = false := by rw [hl.ctrl]; decide +kernel
  have hgrp : _ = deliver _ wiredFetched.ctrl.currFetchPc :=
    (hl.refilled (fun _ => {}) suits_seven idle_inRange hst hmiss).2
  have hmask : maskFrom (addrOffset wiredFetched.ctrl.currFetchPc) 7 = true := by decide +kernel
  exact (congrFun (Prod.mk.inj hgrp).2 7).trans hmask

instance (i : WiredInputs) : Decidable (InRange i) := inferInstanceAs (Decidable (_ → _))

/-- A fetch that misses and, when its group is taken, one of the same line; the consumer is
always ready. -/
def twoIns : List WiredInputs :=
  fetchIn :: List.replicate 16 { fetchGrpReady := true } ++
    ({ fetchIn with fetchPc := 0x210 } :: List.replicate 4 { fetchGrpReady := true })

def wiredTwo : WiredLog := twoIns.foldl (fun v i => WiredLog.next 7 i v) ⟨wiredStart, [], []⟩

theorem wired_delivers_two : wiredTwo.accepted = [0x208, 0x210] ∧
    wiredTwo.taken = [deliver (words wiredStart.mem) 0x208, deliver (words wiredStart.mem) 0x210] := by
  have hreach : Run.Reach (WiredLog.next 7) (fun i v => InRange i ∧ Steady (ctrlIn i v.wired) v.wired.ctrl)
      ⟨wiredStart, [], []⟩ wiredTwo := .of_keeps twoIns .init (by decide +kernel)
  have hacc : wiredTwo.accepted = [0x208, 0x210] := by decide +kernel
  have hserved : service wiredTwo.wired.ctrl = [] := by decide +kernel
  obtain ⟨done, hdone, htaken⟩ := wired_delivers suits_seven hreach
  rw [hserved, List.append_nil, hacc] at hdone
  exact ⟨hacc, by rw [htaken, ← hdone]; rfl⟩

end R10K.Icache
