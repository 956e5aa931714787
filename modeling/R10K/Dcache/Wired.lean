import R10K.Dcache.Refill
import R10K.Icache.Wired

/-! The data cache wired to the memory.

The memory accepts the four loads of a refill under tags of their own and answers them after
the last was asked for, so what a refill needs of the memory it has: every line fetched is the
memory's. The memory is written only from `DIRTY_WB`, which is never left, so it still holds
then what it held at the start. -/
namespace R10K.Dcache
open Cache Mem
open Icache (doubleAddr)

/-- What comes from outside. `unknown` is what `mem2proc_data` is taken for while no tag is
shown, and `writeData` what the memory takes for the data of a store: the controller has no
port for it. -/
structure WiredInputs where
  reqAddr : BitVec 32 := 0
  reqSize : BitVec 3 := 0
  reqStData : BitVec 32 := 0
  reqCommand : BusCommand := .busNone
  reqValid : Bool := false
  unknown : BitVec 64 := 0
  writeData : BitVec 64 := 0

structure Wired where
  ctrl : State
  mem : Mem.State

/-- What the memory shows the controller. -/
def ctrlIn (i : WiredInputs) (w : Wired) : Inputs where
  dmem2procResponse := w.mem.mem2procResponse
  dmem2procData := w.mem.mem2procData.getD i.unknown
  dmem2procTag := w.mem.mem2procTag
  reqAddr := i.reqAddr
  reqSize := i.reqSize
  reqStData := i.reqStData
  reqCommand := i.reqCommand
  reqValid := i.reqValid

/-- What the controller asks of the memory. -/
def memIn (i : WiredInputs) (c : State) : Mem.Inputs where
  proc2memAddr := proc2dmemAddr c
  proc2memData := i.writeData
  proc2memCommand := proc2dmemCommand c

namespace Wired

def init (tagSram : CacheWay → Sram Cache.Tag) (dataSram : CacheWay → Sram Block) (memory : Line → BitVec 64)
    (loaded : MemTag → BitVec 64) : Wired := ⟨reset tagSram dataSram, Mem.init memory loaded⟩

def next (latency : BitVec 16) (i : WiredInputs) (w : Wired) : Wired :=
  ⟨Dcache.next (ctrlIn i w) w.ctrl, Mem.next latency (memIn i w.ctrl) w.mem⟩

end Wired

/-- Requests stay inside the memory. -/
def InRange (i : WiredInputs) : Prop := i.reqValid = true → i.reqAddr.toNat < 64 * 1024

variable {latency : BitVec 16} {mem : Icache.Mem} {i : WiredInputs} {w : Wired} {s : System}
  {l : DelayLine Request} {out : Option Request} {e : Nat}

/-- How many edges of the burst have passed, in each state of the controller. -/
def Stage (n : Nat) (s : System) (e : Nat) : Prop :=
  match s.ctrl.currSt with
  | .rdL2Req => e < 4 ∧ s.ctrl.refillReqPtr.toNat = e ∧ ∀ k, s.ctrl.refillBufValid k = false
  | .rdL2Ack => 4 ≤ e ∧ e ≤ n + 5 ∧ (e ≤ n + 1 → ∀ k, s.ctrl.refillBufValid k = false)
  | .wrL1 => e = n + 6
  | _ => e = 0

/-- The wired cache while it only loads, with what the memory knows of its loads and holds of them. -/
structure Linked (latency : BitVec 16) (mem : Icache.Mem) (w : Wired) (s : System) (l : DelayLine Request)
    (out : Option Request) (e : Nat) : Prop where
  ctrl : s.ctrl = w.ctrl
  phase : Phase mem s
  served : Served latency mem w.mem l out s.asked s.pending
  flows : Flows latency.toNat (doubleAddr s.ctrl.currReqAddr) e l out
  stage : Stage latency.toNat s e
  range : s.ctrl.currReqAddr.toNat < 64 * 1024
  asked : w.mem.mem2procResponse ≠ 0 → s.ctrl.proc2dmemCommandPipe ≠ .busNone
  reads : s.ctrl.currSt ≠ .dirtyWb

/-- The wired cache in a writeback: it waits for no load. -/
structure Writes (latency : BitVec 16) (mem : Icache.Mem) (w : Wired) (s : System) : Prop where
  ctrl : s.ctrl = w.ctrl
  phase : Phase mem s
  st : s.ctrl.currSt = .dirtyWb
  holds : ∃ l, Holds latency w.mem l ∧ ∀ c, loadAddr (l c) = none
  tag : w.mem.mem2procTag = 0
  noted : s.asked = none ∧ s.pending = fun _ => none
  asked : w.mem.mem2procResponse ≠ 0 → s.ctrl.proc2dmemCommandPipe ≠ .busNone

namespace Linked

/-- The load on the bus. -/
theorem bus (h : Linked latency mem w s l out e) {k : MemTag} {a : BitVec 32} {d : BitVec 64}
    (hout : out = some ⟨k, some (a, d)⟩) : latency.toNat + 1 ≤ e := by
  have hbus := h.flows.bus_eq
  rw [hout, loadAddr, Option.bind_some, Option.map_some] at hbus
  split at hbus
  · rename_i he
    exact he.1
  · cases hbus

theorem accepts_eq (h : Linked latency mem w s l out e) : accepts (ctrlIn i w) s = s.asked := by
  cases ha : s.asked with
  | none => rw [accepts, ha, ite_self]
  | some a =>
    rw [accepts, ha]
    exact if_neg (h.served.accept (by rw [ha]; rfl)).1

theorem outstanding_eq (h : Linked latency mem w s l out e) (t : BitVec 4) :
    outstanding (ctrlIn i w) s t = Mem.outstanding s.asked s.pending w.mem.mem2procResponse t := by
  rw [outstanding, h.accepts_eq]
  rfl

theorem serves (h : Linked latency mem w s l out e) : Serves mem (ctrlIn i w) s where
  asked := h.asked
  free := fun hsome => by
    rw [h.accepts_eq] at hsome
    exact (h.served.accept hsome).2
  answer := fun ht => by
    obtain ⟨k, a, d, hout⟩ := h.served.tag_iff.1 ht
    obtain ⟨_, hdata, hwait⟩ := h.served.answer hout
    refine ⟨a, (h.outstanding_eq _).trans hwait, ?_⟩
    rw [ctrlIn, hdata, Option.getD_some]

/-- The last load was asked for at most four edges ago. -/
theorem asked_early (h : Linked latency mem w s l out e) (hlat : Suits latency) (hasked : s.asked.isSome = true) :
    e ≤ 4 := by
  have hlow := hlat.low
  rw [h.served.asked, h.flows.line, burst] at hasked
  split at hasked
  · omega
  · cases hasked

/-- While a load may still be asked for, no answer has come. -/
theorem early (h : Linked latency mem w s l out e) (hlat : Suits latency) (hasked : s.asked.isSome = true) :
    (∀ k, s.ctrl.refillBufValid k = false) ∧ ∃ m, Noted mem s m := by
  have hlow := hlat.low
  have he := h.asked_early hlat hasked
  have hphase := h.phase
  have hstage := h.stage
  have hquiet : ¬ Quiet s := fun hq => by rw [hq.asked] at hasked; cases hasked
  unfold Phase at hphase
  cases hst : s.ctrl.currSt <;> simp only [hst] at hphase <;> rw [Stage, hst] at hstage
  case rdL2Req =>
    rcases hphase with ⟨hc, _⟩ | ⟨m, _, _, _, hn⟩
    · exact absurd hc.toQuiet hquiet
    · exact ⟨hstage.2.2, m, hn⟩
  case rdL2Ack =>
    rcases hphase with ⟨_, hn⟩ | ⟨hq, _⟩
    · exact ⟨hstage.2.2 (by omega), 3, hn⟩
    · exact absurd hq hquiet
  all_goals exact absurd hphase.1.toQuiet hquiet

theorem prompt (h : Linked latency mem w s l out e) (hlat : Suits latency) : Prompt (ctrlIn i w) s where
  accepted := fun hasked => (h.served.accept hasked).1
  fresh := fun hasked k => by
    obtain ⟨hr, hfree⟩ := h.served.accept hasked
    obtain ⟨hempty, m, hn⟩ := h.early hlat hasked
    by_cases hk : k.val < m
    · exact hn.waiting.toNoted.fresh hfree hk (hempty k)
    · rw [hn.waiting.unset k (Nat.le_of_not_lt hk)]
      exact hr.symm
  later := fun hasked ht => by
    -- the load asked for is at the end of the line, the answered one has left it
    obtain ⟨k, a, d, hout⟩ := h.served.tag_iff.1 ht
    obtain ⟨b, hb⟩ := Option.isSome_iff_exists.1 hasked
    obtain ⟨j, d', hj⟩ := Served.loadAddr_eq_some.1 (h.served.asked.symm.trans hb)
    have hresp := h.served.response
    rw [hj, Option.elim_some] at hresp
    show w.mem.mem2procTag ≠ w.mem.mem2procResponse
    rw [(h.served.answer hout).1, hresp]
    exact fun heq => h.served.fresh _ hout _ _ hj (tagBus_inj heq).symm

/-! ### One edge -/

/-- Nothing comes before the latency is over. -/
theorem tag_zero (h : Linked latency mem w s l out e) (he : e ≤ latency.toNat) : w.mem.mem2procTag = 0 := by
  by_contra ht
  obtain ⟨k, a, d, hout⟩ := h.served.tag_iff.1 ht
  have := h.bus hout
  omega

/-- What the edge asks of the memory. -/
theorem asks (h : Linked latency mem w s l out e) (hlat : Suits latency) :
    Served latency mem (Mem.next latency (memIn i w.ctrl) w.mem)
        (DelayLine.shift latency.toNat (request (memIn i w.ctrl) w.mem) l) (l 0)
        (s.next (ctrlIn i w)).asked (s.next (ctrlIn i w)).pending ∧
      loadAddr (request (memIn i w.ctrl) w.mem) = (s.next (ctrlIn i w)).asked := by
  have hserved := h.served.next (i := memIn i s.ctrl) hlat.ne_zero hlat.high
    (by
      show proc2dmemCommand s.ctrl ≠ .busStore
      have := h.reads
      rw [proc2dmemCommand]
      cases hst : s.ctrl.currSt <;> simp_all)
    (fun hload => by
      have hst : s.ctrl.currSt = .rdL2Req := command_iff.1 hload
      have hstage := h.stage
      rw [Stage, hst] at hstage
      have hasked := asked_next (i := ctrlIn i w) hst
      rw [System.next, show proc2dmemCommand s.ctrl = .busLoad from hload, if_pos rfl, hstage.2.1] at hasked
      rw [memIn, Option.some.inj hasked]
      exact Icache.doubleAddr_valid h.range hstage.1 .busLoad)
  have hpending : (s.next (ctrlIn i w)).pending = fun t => if t = w.mem.mem2procTag then none else
      Mem.outstanding s.asked s.pending w.mem.mem2procResponse t := by
    funext t
    simp only [System.next, h.outstanding_eq]
    rfl
  rw [← h.ctrl, hpending]
  refine ⟨hserved, ?_⟩
  have hlow := hlat.low
  have hlast : DelayLine.shift latency.toNat (request (memIn i s.ctrl) w.mem) l (latency.toNat - 1) =
      request (memIn i s.ctrl) w.mem := if_pos (by omega)
  rw [← hlast]
  exact hserved.asked.symm

theorem range_next (h : Linked latency mem w s l out e) (hin : InRange i) :
    (Dcache.next (ctrlIn i w) s.ctrl).currReqAddr.toNat < 64 * 1024 := by
  simp only [Dcache.next]
  split
  · rename_i hacc
    rw [reqAccept, Bool.and_eq_true] at hacc
    exact hin hacc.1
  · split
    · decide
    · exact h.range

/-- The memory accepts commands only. -/
theorem asked_edge {c : State} (hresp : (Mem.next latency (memIn i c) w.mem).mem2procResponse ≠ 0) :
    (Dcache.next (ctrlIn i w) c).proc2dmemCommandPipe ≠ .busNone := by
  intro hnone
  refine hresp ?_
  rw [next_eq]
  have hcmd : (memIn i c).proc2memCommand = .busNone := hnone
  have hacq : acquires (memIn i c) = false := by rw [acquires, hcmd]; rfl
  cases hk : acquired (memIn i c) w.mem with
  | none => rfl
  | some k =>
    rw [(acquired_free hk).1] at hacq
    cases hacq

/-- A load of the burst waits until it has been answered. -/
theorem waits_place (h : Linked latency mem w s l out e) {p : Nat} (hp : p < 4) (hlo : p + 1 ≤ e)
    (hhi : e ≤ p + latency.toNat + 1) : ∃ t, outstanding (ctrlIn i w) s t = some (doubleAddr s.ctrl.currReqAddr p) := by
  have hburst : burst latency.toNat (doubleAddr s.ctrl.currReqAddr) e (p + latency.toNat + 1 - e) =
      some (doubleAddr s.ctrl.currReqAddr p) := by
    rw [burst, if_pos (by omega)]
    congr 2
    omega
  have hwaits : ∃ k, Waits l out k (doubleAddr s.ctrl.currReqAddr p) := by
    cases hc : p + latency.toNat + 1 - e with
    | zero =>
      rw [hc, ← h.flows.bus] at hburst
      obtain ⟨k, d, hout⟩ := Served.loadAddr_eq_some.1 hburst
      exact ⟨k, .inr ⟨d, hout⟩⟩
    | succ c =>
      rw [hc, ← h.flows.line] at hburst
      obtain ⟨k, d, hl⟩ := Served.loadAddr_eq_some.1 hburst
      exact ⟨k, .inl ⟨c, d, hl⟩⟩
  obtain ⟨k, hk⟩ := hwaits
  exact ⟨tagBus k, by rw [h.outstanding_eq, h.served.outstanding_iff]; exact ⟨k, rfl, hk⟩⟩

/-- Nothing waits when the burst is over. -/
theorem waits_none (h : Linked latency mem w s l out e) (he : latency.toNat + 5 ≤ e) (t : BitVec 4) :
    outstanding (ctrlIn i w) s t = none := by
  rw [Option.eq_none_iff_forall_ne_some]
  intro a ha
  rw [h.outstanding_eq, h.served.outstanding_iff] at ha
  obtain ⟨k, _, ⟨c, d, hl⟩ | ⟨d, hout⟩⟩ := ha
  · have hline := h.flows.line c
    rw [burst_none (.inr he), hl] at hline
    cases hline
  · have hbus := h.flows.bus
    rw [burst_none (.inr he), hout] at hbus
    cases hbus

/-- The buffer is full when the burst is over. -/
theorem full_iff (h : Linked latency mem w s l out e) (hlat : Suits latency) (hst : s.ctrl.currSt = .rdL2Ack) :
    refillFull s.ctrl = true ↔ e = latency.toNat + 5 := by
  have hlow := hlat.low
  have hphase := h.phase
  have hstage := h.stage
  rw [Phase, hst] at hphase
  rw [Stage, hst] at hstage
  constructor
  · intro hfull
    rcases hphase with ⟨_, hn⟩ | ⟨hq, hn⟩
    · rw [hn.notFull (by decide)] at hfull
      cases hfull
    · by_contra hne
      obtain ⟨t, ht⟩ := h.waits_place (i := {}) (p := 3) (by decide) (by omega) (by omega)
      rw [hq.outstanding_eq, Phase.full_pending hn hfull] at ht
      cases ht
  · intro he
    rcases hphase with ⟨ha, _⟩ | ⟨hq, hn⟩
    · have := h.asked_early hlat (by rw [ha.asked]; rfl)
      omega
    · rw [refillFull_iff]
      intro k
      by_contra hk
      rw [Bool.not_eq_true] at hk
      have hwait := h.waits_none (i := {}) (by omega) (s.ctrl.refillMemTag k)
      rw [hq.outstanding_eq, (hn.waiting.waits _ _).2 ⟨k, k.isLt, hk, rfl, rfl⟩] at hwait
      cases hwait

/-- The buffer takes nothing while the memory shows no tag. -/
theorem valid_next (h : Linked latency mem w s l out e) (he : e ≤ latency.toNat)
    (hv : ∀ k, s.ctrl.refillBufValid k = false) (k : Fin 4) :
    (Dcache.next (ctrlIn i w) s.ctrl).refillBufValid k = false := by
  have hhit : refillHit (ctrlIn i w) s.ctrl k = false := by
    rw [← Bool.not_eq_true, refillHit_iff]
    exact fun hk => hk.1 (h.tag_zero he)
  simp only [Dcache.next, hhit, hv k, Bool.false_eq_true, if_false, ite_self]

/-- The burst after an edge, and its stage. -/
structure Bursts (latency : BitVec 16) (i : WiredInputs) (w : Wired) (s : System) (l : DelayLine Request) (e : Nat) :
    Prop where
  flows : Flows latency.toNat (doubleAddr (Dcache.next (ctrlIn i w) s.ctrl).currReqAddr) e
    (DelayLine.shift latency.toNat (request (memIn i w.ctrl) w.mem) l) (l 0)
  stage : Stage latency.toNat (s.next (ctrlIn i w)) e

/-- A cycle of `RD_L2_REQ` puts in the next place. -/
theorem bursts_req (h : Linked latency mem w s l out e) (hlat : Suits latency) (hst : s.ctrl.currSt = .rdL2Req) :
    Bursts latency i w s l (e + 1) := by
  have hlow := hlat.low
  have hstage := h.stage
  rw [Stage, hst] at hstage
  obtain ⟨he, hptr, hv⟩ := hstage
  have hfull : refillFull s.ctrl = false := by
    rw [← Bool.not_eq_true, refillFull_iff]
    exact fun hall => absurd (hall 0) (by rw [hv 0]; decide)
  have hv' := h.valid_next (i := i) (by omega) hv
  refine ⟨?_, ?_⟩
  · rw [currReqAddr_keep (.inl hst)]
    exact h.flows.next (by omega) (by rw [(h.asks hlat).2, asked_next hst, hptr, if_pos he])
  · by_cases hlast : s.ctrl.refillReqPtr.toNat = 3
    · have hst' : (s.next (ctrlIn i w)).ctrl.currSt = .rdL2Ack := by
        show nextSt _ _ = _
        rw [nextSt, hst]
        exact if_pos hlast
      rw [Stage, hst']
      exact ⟨by omega, by omega, fun _ => hv'⟩
    · have hst' : (s.next (ctrlIn i w)).ctrl.currSt = .rdL2Req := by
        show nextSt _ _ = _
        rw [nextSt, hst]
        exact if_neg hlast
      rw [Stage, hst']
      refine ⟨by omega, ?_, hv'⟩
      rw [Phase.reqPtr_next hst hfull, BitVec.toNat_add, hptr, show (1 : BitVec 2).toNat = 1 from rfl]
      omega

/-- Nothing is loaded outside `RD_L2_REQ`. -/
theorem asked_none (hst : s.ctrl.currSt ≠ .rdL2Req) : (s.next (ctrlIn i w)).asked = none :=
  if_neg fun hload => hst (command_iff.1 hload)

/-- A cycle of `RD_L2_ACK` moves the burst on, and leaves it when the buffer is full. -/
theorem bursts_ack (h : Linked latency mem w s l out e) (hlat : Suits latency) (hst : s.ctrl.currSt = .rdL2Ack) :
    Bursts latency i w s l (e + 1) := by
  have hlow := hlat.low
  have hne : s.ctrl.currSt ≠ .rdL2Req := by rw [hst]; decide
  have hstage := h.stage
  rw [Stage, hst] at hstage
  obtain ⟨he, hle, hv⟩ := hstage
  have hmove := h.flows.next (by omega) (by rw [(h.asks (i := i) hlat).2, asked_none hne, if_neg (by omega)])
  refine ⟨by rw [currReqAddr_keep (.inr hst)]; exact hmove, ?_⟩
  have hfull := h.full_iff hlat hst
  by_cases hlast : e = latency.toNat + 5
  · have hst' : (s.next (ctrlIn i w)).ctrl.currSt = .wrL1 := by
      show nextSt _ _ = _
      rw [nextSt, hst]
      exact if_pos (hfull.2 hlast)
    rw [Stage, hst']
    show e + 1 = latency.toNat + 6
    omega
  · have hst' : (s.next (ctrlIn i w)).ctrl.currSt = .rdL2Ack := by
      show nextSt _ _ = _
      rw [nextSt, hst]
      exact if_neg fun hf => hlast (hfull.1 hf)
    rw [Stage, hst']
    exact ⟨by omega, by omega, fun _ => h.valid_next (by omega) (hv (by omega))⟩

/-- Outside a refill nothing is under way, and a refill starts from the first place. -/
theorem bursts_rest (h : Linked latency mem w s l out e) (hlat : Suits latency) (hreq : s.ctrl.currSt ≠ .rdL2Req)
    (hack : s.ctrl.currSt ≠ .rdL2Ack) : Bursts latency i w s l 0 := by
  have hlow := hlat.low
  have he : e = 0 ∨ latency.toNat + 5 ≤ e := by
    have hstage := h.stage
    unfold Stage at hstage
    split at hstage
    · exact absurd (by assumption) hreq
    · exact absurd (by assumption) hack
    · omega
    · exact .inl hstage
  have hflows : Flows latency.toNat (doubleAddr s.ctrl.currReqAddr) 0 l out := h.flows.rest he (.inl rfl)
  refine ⟨hflows.idle (by omega) (by rw [(h.asks (i := i) hlat).2, asked_none hreq]), ?_⟩
  have hnext := h.phase.next (h.serves (i := i)) (h.prompt hlat)
  have hfrom : refillSt (nextSt (ctrlIn i w) s.ctrl) = true → nextSt (ctrlIn i w) s.ctrl = .rdL2Req := fun hf => by
    rcases nextSt_refillSt hf with ⟨hchk, hmiss, hd⟩ | ⟨hold, hwr⟩
    · simp [nextSt, hchk, hmiss, hd]
    · cases hst : s.ctrl.currSt <;> simp_all [refillSt]
  unfold Stage
  split
  · rename_i hst
    rw [Phase, hst] at hnext
    rcases hnext with ⟨hc, _, hn⟩ | ⟨m, _, _, ha, _⟩
    · refine ⟨by decide, by rw [hc.req]; rfl, fun k => ?_⟩
      rw [← Bool.not_eq_true]
      exact fun hk => absurd (hn.waiting.early k hk) (Nat.not_lt_zero _)
    · have hasked := ha.asked
      rw [asked_none hreq] at hasked
      cases hasked
  · rename_i hst
    exact absurd (hst.symm.trans (hfrom (by rw [show nextSt _ _ = _ from hst]; rfl))) (by decide)
  · rename_i hst
    exact absurd (hst.symm.trans (hfrom (by rw [show nextSt _ _ = _ from hst]; rfl))) (by decide)
  · rfl

/-- The edges of a refill are counted. -/
def stageNext (c : State) (e : Nat) : Nat := if c.currSt = .rdL2Req ∨ c.currSt = .rdL2Ack then e + 1 else 0

/-- **An edge keeps the link**, unless a writeback starts. -/
theorem next (h : Linked latency mem w s l out e) (hlat : Suits latency) (hin : InRange i)
    (hreads : nextSt (ctrlIn i w) s.ctrl ≠ .dirtyWb) :
    Linked latency mem (w.next latency i) (s.next (ctrlIn i w))
      (DelayLine.shift latency.toNat (request (memIn i w.ctrl) w.mem) l) (l 0) (stageNext s.ctrl e) := by
  have hbursts : Bursts latency i w s l (stageNext s.ctrl e) := by
    rw [stageNext]
    split
    · rename_i hst
      rcases hst with hst | hst
      · exact h.bursts_req hlat hst
      · exact h.bursts_ack hlat hst
    · rename_i hst
      rw [not_or] at hst
      exact h.bursts_rest hlat hst.1 hst.2
  refine ⟨congrArg (Dcache.next (ctrlIn i w)) h.ctrl, h.phase.next h.serves (h.prompt hlat), (h.asks hlat).1,
    hbursts.flows, hbursts.stage, h.range_next hin, ?_, hreads⟩
  intro hresp
  rw [Wired.next, ← h.ctrl] at hresp
  exact asked_edge hresp

/-- A writeback starts with nothing under way. -/
theorem writes (h : Linked latency mem w s l out e) (hlat : Suits latency)
    (hnext : nextSt (ctrlIn i w) s.ctrl = .dirtyWb) :
    Writes latency mem (w.next latency i) (s.next (ctrlIn i w)) := by
  have hst : s.ctrl.currSt ≠ .rdL2Req ∧ s.ctrl.currSt ≠ .rdL2Ack := by
    constructor <;> intro hst <;> rw [nextSt, hst] at hnext <;> simp only at hnext <;> split at hnext <;> cases hnext
  have hflows := (h.bursts_rest (i := i) hlat hst.1 hst.2).flows
  have hserved := (h.asks (i := i) hlat).1
  have hline : ∀ c, loadAddr (DelayLine.shift latency.toNat (request (memIn i w.ctrl) w.mem) l c) = none :=
    fun c => (hflows.line c).trans (burst_none (.inl rfl))
  have hbus : loadAddr (l 0) = none := hflows.bus.trans (burst_none (.inl rfl))
  refine ⟨congrArg (Dcache.next (ctrlIn i w)) h.ctrl, h.phase.next h.serves (h.prompt hlat), hnext,
    ⟨_, hserved.holds, hline⟩, ?_, ⟨asked_none hst.1, ?_⟩, ?_⟩
  · by_contra ht
    obtain ⟨k, a, d, hout⟩ := hserved.tag_iff.1 ht
    rw [hout] at hbus
    cases hbus
  · funext t
    rw [Option.eq_none_iff_forall_ne_some]
    intro a ha
    obtain ⟨k, _, ⟨c, d, _, hc⟩ | ⟨d, hout⟩⟩ := (hserved.pending t a).1 ha
    · have := hline c
      rw [hc] at this
      cases this
    · rw [hout] at hbus
      cases hbus
  · intro hresp
    rw [Wired.next, ← h.ctrl] at hresp
    exact asked_edge hresp

end Linked

namespace Writes

theorem serves (h : Writes latency mem w s) : Serves mem (ctrlIn i w) s where
  asked := h.asked
  free := fun hsome => by
    rw [accepts, h.noted.1, ite_self] at hsome
    cases hsome
  answer := fun ht => absurd h.tag ht

theorem prompt (h : Writes latency mem w s) : Prompt (ctrlIn i w) s := by
  have hnone : s.asked.isSome ≠ true := by rw [h.noted.1]; decide
  exact ⟨fun ha => absurd ha hnone, fun ha => absurd ha hnone, fun ha => absurd ha hnone⟩

/-- A writeback goes on. -/
theorem next (h : Writes latency mem w s) (hlat : Suits latency) :
    Writes latency mem (w.next latency i) (s.next (ctrlIn i w)) := by
  obtain ⟨l, hl, hloads⟩ := h.holds
  have hnext : nextSt (ctrlIn i w) s.ctrl = .dirtyWb := by
    simp only [nextSt, h.st, if_neg (writebackPtr_ne s.ctrl)]
  have hcmd : (memIn i s.ctrl).proc2memCommand ≠ .busLoad := fun hload => by
    have hst : s.ctrl.currSt = .rdL2Req := command_iff.1 hload
    rw [h.st] at hst
    cases hst
  refine ⟨congrArg (Dcache.next (ctrlIn i w)) h.ctrl, h.phase.next h.serves h.prompt, hnext,
    ⟨_, hl.next (i := memIn i w.ctrl) hlat.ne_zero, fun c => ?_⟩, ?_, ⟨?_, ?_⟩, ?_⟩
  · rw [DelayLine.shift, ← h.ctrl]
    split
    · rw [request, if_neg hcmd]
      cases acquired (memIn i s.ctrl) w.mem <;> rfl
    · exact hloads _
  · rw [Wired.next, (hl.shows (i := memIn i w.ctrl) hlat.ne_zero).tag]
    have hhead := hloads 0
    rcases hr : l 0 with _ | ⟨k, _ | ⟨a, d⟩⟩
    · rfl
    · rfl
    · rw [hr] at hhead
      cases hhead
  · exact if_neg hcmd
  · funext t
    have hout : outstanding (ctrlIn i w) s t = none := by
      rw [outstanding, accepts, h.noted.1, h.noted.2, ite_self]
      rfl
    simp only [System.next, hout, ite_self]
  · intro hresp
    rw [Wired.next, ← h.ctrl] at hresp
    exact Linked.asked_edge hresp

end Writes

/-! ### Runs -/

/-- Some record of its loads fits the wired cache. -/
def Fits (latency : BitVec 16) (mem : Icache.Mem) (w : Wired) (s : System) : Prop :=
  (∃ l out e, Linked latency mem w s l out e) ∨ Writes latency mem w s

namespace Fits

theorem init (tagSram : CacheWay → Sram Cache.Tag) (dataSram : CacheWay → Sram Block) (memory : Line → BitVec 64)
    (loaded : MemTag → BitVec 64) : Fits latency (words (Mem.init memory loaded))
      (Wired.init tagSram dataSram memory loaded) (System.init tagSram dataSram) :=
  .inl ⟨.empty, none, 0, rfl, .init tagSram dataSram, .init memory loaded, .empty, rfl,
    (by decide : (0 : BitVec 32).toNat < 64 * 1024), fun h => absurd rfl h, nofun⟩

theorem ctrl (h : Fits latency mem w s) : s.ctrl = w.ctrl := by
  rcases h with ⟨l, out, e, h⟩ | h
  · exact h.ctrl
  · exact h.ctrl

theorem phase (h : Fits latency mem w s) : Phase mem s := by
  rcases h with ⟨l, out, e, h⟩ | h
  · exact h.phase
  · exact h.phase

/-- **The memory does what a refill relies on.** -/
theorem serves (h : Fits latency mem w s) (hlat : Suits latency) :
    Serves mem (ctrlIn i w) s ∧ Prompt (ctrlIn i w) s := by
  rcases h with ⟨l, out, e, h⟩ | h
  · exact ⟨h.serves, h.prompt hlat⟩
  · exact ⟨h.serves, h.prompt⟩

theorem next (h : Fits latency mem w s) (hlat : Suits latency) (hin : InRange i) :
    Fits latency mem (w.next latency i) (s.next (ctrlIn i w)) := by
  rcases h with ⟨l, out, e, h⟩ | h
  · by_cases hnext : nextSt (ctrlIn i w) s.ctrl = .dirtyWb
    · exact .inr (h.writes hlat hnext)
    · exact .inl ⟨_, _, _, h.next hlat hin hnext⟩
  · exact .inr (h.next hlat)

end Fits

section
variable {tagSram : CacheWay → Sram Cache.Tag} {dataSram : CacheWay → Sram Block} {memory : Line → BitVec 64}
  {loaded : MemTag → BitVec 64}

theorem reach_fits (hlat : Suits latency)
    (h : Run.Reach (Wired.next latency) (fun i _ => InRange i) (Wired.init tagSram dataSram memory loaded) w) :
    ∃ s, Fits latency (words (Mem.init memory loaded)) w s :=
  h.invariant (fun w => ∃ s, Fits latency (words (Mem.init memory loaded)) w s)
    ⟨_, .init tagSram dataSram memory loaded⟩ fun _ _ ⟨_, hf⟩ hin => ⟨_, hf.next hlat hin⟩

/-! ### How long a miss takes -/

/-- The wired cache after `t` edges. -/
def Wired.run (latency : BitVec 16) (w : Wired) (ins : Nat → WiredInputs) : Nat → Wired
  | 0 => w
  | t + 1 => (run latency w ins t).next latency (ins t)

/-- A refill is not turned into a writeback. -/
theorem nextSt_refill {i : Inputs} {c : State} (h : c.currSt = .rdL2Req ∨ c.currSt = .rdL2Ack) :
    nextSt i c ≠ .dirtyWb := by
  rcases h with h | h <;> simp only [nextSt, h] <;> split <;> decide

/-- A refill waits for its line until the time is over. -/
theorem Linked.waiting {t : Nat} (h : Linked latency mem w s l out t) (ht : t < latency.toNat + 6)
    (hzero : t = 0 → s.ctrl.currSt = .rdL2Req) : s.ctrl.currSt = .rdL2Req ∨ s.ctrl.currSt = .rdL2Ack := by
  have hstage := h.stage
  unfold Stage at hstage
  split at hstage
  · exact .inl (by assumption)
  · exact .inr (by assumption)
  · omega
  · exact .inl (hzero hstage)

/-- The edges of a refill, from the cycle in which the miss is found. -/
theorem Linked.refill (ins : Nat → WiredInputs) (hlat : Suits latency) (hin : ∀ t, InRange (ins t))
    (h : Linked latency mem w s l out e) (hst : s.ctrl.currSt = .chkHit) (hmiss : hit s.ctrl.array = false)
    (hclean : dirty (arrayIn s.ctrl) s.ctrl.array = false) {t : Nat} (ht : t ≤ latency.toNat + 6) :
    ∃ s' l' out', Linked latency mem (w.run latency ins (t + 1)) s' l' out' t ∧
      s'.ctrl.currReqAddr = s.ctrl.currReqAddr ∧ (t = 0 → s'.ctrl.currSt = .rdL2Req) := by
  induction t with
  | zero =>
    have hreq : nextSt (ctrlIn (ins 0) w) s.ctrl = .rdL2Req := by simp [nextSt, hst, hmiss, hclean]
    have hnext := h.next (i := ins 0) hlat (hin 0) (by rw [hreq]; decide)
    rw [Linked.stageNext, if_neg (by rw [hst]; decide)] at hnext
    have hacc : reqAccept (ctrlIn (ins 0) w) s.ctrl = false := by simp [reqAccept, reqReady, hst, hmiss]
    have hkeep : (Dcache.next (ctrlIn (ins 0) w) s.ctrl).currReqAddr = s.ctrl.currReqAddr := by
      simp only [Dcache.next, hacc, hreq, Bool.false_eq_true, if_false]
      rfl
    exact ⟨_, _, _, hnext, hkeep, fun _ => hreq⟩
  | succ t ih =>
    obtain ⟨s', l', out', hl, haddr, hzero⟩ := ih (by omega)
    have hst' := hl.waiting (by omega) hzero
    have hnext := hl.next (i := ins (t + 1)) hlat (hin (t + 1)) (nextSt_refill hst')
    rw [Linked.stageNext, if_pos hst'] at hnext
    exact ⟨_, _, _, hnext, (currReqAddr_keep hst').trans haddr, fun h0 => absurd h0 (Nat.succ_ne_zero t)⟩

/-- A request that has missed and waits for its line writes nothing, in the array or the memory. -/
theorem wait_quiet {c : State} (h : (c.currSt = .chkHit ∧ hit c.array = false) ∨ c.currSt = .rdL2Req ∨
    c.currSt = .rdL2Ack) : refillEn c = false ∧ stEn c = false ∧ proc2dmemCommand c ≠ .busStore := by
  rcases h with ⟨hst, hmiss⟩ | hst | hst
  · simp [refillEn, stEn, proc2dmemCommand, hst, hmiss]
  · simp [refillEn, stEn, proc2dmemCommand, hst]
  · simp [refillEn, stEn, proc2dmemCommand, hst]

/-- **A miss over a clean line is served in a constant time**, whatever is offered to the cache
meanwhile: a latency and seven cycles after it is found the line is written into the array,
and it is the memory's; nothing is written before. -/
theorem clean_miss_latency (hlat : Suits latency)
    (h : Run.Reach (Wired.next latency) (fun i _ => InRange i) (Wired.init tagSram dataSram memory loaded) w)
    {ins : Nat → WiredInputs} (hin : ∀ t, InRange (ins t)) (hst : w.ctrl.currSt = .chkHit)
    (hmiss : hit w.ctrl.array = false) (hclean : dirty (arrayIn w.ctrl) w.ctrl.array = false) :
    (∀ t, t < latency.toNat + 7 → refillEn (w.run latency ins t).ctrl = false ∧
        stEn (w.run latency ins t).ctrl = false ∧ proc2dmemCommand (w.run latency ins t).ctrl ≠ .busStore) ∧
      let c := (w.run latency ins (latency.toNat + 7)).ctrl
      refillEn c = true ∧ (arrayIn c).addr = w.ctrl.currReqAddr ∧
        (arrayIn c).refillLine = memLine (words (Mem.init memory loaded)) w.ctrl.currReqAddr := by
  obtain ⟨s, hf⟩ := reach_fits hlat h
  obtain ⟨l, out, e, hl⟩ := hf.resolve_right fun hw => by
    rw [← hf.ctrl, hw.st] at hst
    cases hst
  rw [← hl.ctrl] at hst hmiss hclean
  refine ⟨fun t ht => ?_, ?_⟩
  · cases t with
    | zero =>
      rw [Wired.run, ← hl.ctrl]
      exact wait_quiet (.inl ⟨hst, hmiss⟩)
    | succ t =>
      obtain ⟨s', l', out', hl', _, hzero⟩ := hl.refill ins (t := t) hlat hin hst hmiss hclean (by omega)
      rw [← hl'.ctrl]
      exact wait_quiet (.inr (hl'.waiting (by omega) hzero))
  · obtain ⟨s', l', out', hl', haddr, hzero⟩ :=
      hl.refill ins (t := latency.toNat + 6) hlat hin hst hmiss hclean (Nat.le_refl _)
    have hwr : s'.ctrl.currSt = .wrL1 := by
      have hstage := hl'.stage
      unfold Stage at hstage
      split at hstage
      · omega
      · omega
      · assumption
      · omega
    dsimp only
    rw [← hl.ctrl, ← hl'.ctrl, ← haddr]
    exact ⟨refillEn_iff.2 hwr, rfl, hl'.phase.written hwr⟩

end

/-! ### One load, with the latency of the source's clock period -/

/-- A cache, and a memory whose words hold their own indices. -/
def wiredStart : Wired :=
  .init (fun _ => ⟨fun _ => 0, 0⟩) (fun _ => ⟨fun _ => 0, 0⟩) (fun l => l.setWidth 64) fun _ => 0

def loadIn : WiredInputs := { reqAddr := 0x204, reqSize := 2, reqCommand := .busLoad, reqValid := true }

/-- The load is looked up, and misses. -/
def loadMissed : Wired := wiredStart.next 7 loadIn

theorem clean_miss_latency_fourteen :
    (∀ t, t < 14 → refillEn (loadMissed.run 7 (fun _ => {}) t).ctrl = false ∧
        stEn (loadMissed.run 7 (fun _ => {}) t).ctrl = false ∧
        proc2dmemCommand (loadMissed.run 7 (fun _ => {}) t).ctrl ≠ .busStore) ∧
      refillEn (loadMissed.run 7 (fun _ => {}) 14).ctrl = true := by
  have hreach : Run.Reach (Wired.next 7) (fun i _ => InRange i) wiredStart loadMissed :=
    .step loadIn .init fun _ => by decide
  have hidle : ∀ t, InRange ((fun _ => {} : Nat → WiredInputs) t) := fun _ => nofun
  have h := clean_miss_latency suits_seven hreach hidle (by decide +kernel) (by decide +kernel) (by decide +kernel)
  exact ⟨h.1, h.2.1⟩

end R10K.Dcache
