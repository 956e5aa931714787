import R10K.Core.Operands
import R10K.Rs.Bank

/-! The reservation stations and the instructions in them.

Every station in use holds an instruction of the buffer that has not issued, under its
tag and with its operands' registers; its ready bits say which of their values the
program has. No two stations hold the same instruction. What is in the issue register
came out of a station, with all its operands there. -/
namespace R10K.Core
open Lanes Renaming Dataflow

/-- A packet is instruction `n`, which waits to issue. -/
structure Waiting (c : Config) (p : DispatchRsPacket) (n : Nat) (f : Flight) : Prop where
  pending : ∃ r, c.At r n f ∧ r.tag = p.robEntry ∧ r.pending = true
  issued : f.issued = false
  useOp : ∀ o, p.useOp o = f.pkt.useOp o
  opPrn : ∀ o, p.opPrn o = f.pkt.opPrn o
  opReady : ∀ o, f.pkt.useOp o = true → p.opReady o = (c.source n (f.arn o)).isSome
  fuId : p.fuId = f.pkt.fuId

/-- The stations of a bank hold instructions for its units, each another one. -/
structure Bank (c : Config) (mine : FuId → Bool) {m : Nat} (s : Rs.State m) : Prop where
  awake : Rs.Awake s
  waiting : ∀ k, (s.entry k).inUse = true →
    ∃ n f, Waiting c (s.entry k).pkt n f ∧ mine f.pkt.fuId = true
  distinct : ∀ k k', (s.entry k).inUse = true → (s.entry k').inUse = true →
    (s.entry k).pkt.robEntry = (s.entry k').pkt.robEntry → k = k'

def intUnit (u : FuId) : Bool := u != .agu0
def memUnit (u : FuId) : Bool := u == .agu0

/-- A packet in the issue register is instruction `n`, with its operands there. -/
structure Issued (c : Config) (p : IssuePacket) (n : Nat) (f : Flight) : Prop where
  tag : ∃ r, c.At r n f ∧ r.tag = p.robEntry
  opPrn : ∀ o, p.opPrn o = f.pkt.opPrn o
  there : ∀ o, f.pkt.useOp o = true → (c.source n (f.arn o)).isSome = true

structure Stations (c : Config) : Prop where
  int : Bank c intUnit c.state.rsInt
  mem : Bank c memUnit c.state.rsMem
  issue : ∀ w, (c.state.pipeIssuePkt w).packetValid = true → ∃ n f, Issued c (c.state.pipeIssuePkt w) n f

section
variable {i : Inputs} {c : Config}

/-! ### Ready bits of one station -/

/-- A station hears what is broadcast. -/
theorem cdbMatch_eq (i : Inputs) (j : Rs.Inputs) (hv : j.cdbValid = i.cdbValid) (hp : j.cdbPrn = i.cdbPrn)
    (p : Prn) : Rs.cdbMatch j p = (broadcast i p).isSome := by
  rw [broadcast_isSome, Rs.cdbMatch, hv, hp]
  congr 1
  funext w
  rw [Bool.and_comm]

theorem loaded_opReady (j : Rs.Inputs) {e : Rs.Entry} (he : e.inUse = false) (p : DispatchRsPacket)
    {o : Operand} (huse : p.useOp o = true) :
    (Rs.loaded j e p).opReady o = (p.opReady o || Rs.cdbMatch j (p.opPrn o)) := by
  cases o with
  | op1 =>
    have huse1 : p.useOp1Prn = true := huse
    show (p.op1Ready || Rs.readyFwdCdb j e p.op1Prn p.op1Ready p.useOp1Prn) =
      (p.op1Ready || Rs.cdbMatch j p.op1Prn)
    rw [Rs.readyFwdCdb, he, huse1]
    cases p.op1Ready <;> simp
  | op2 =>
    have huse2 : p.useOp2Prn = true := huse
    show (p.op2Ready || Rs.readyFwdCdb j e p.op2Prn p.op2Ready p.useOp2Prn) =
      (p.op2Ready || Rs.cdbMatch j p.op2Prn)
    rw [Rs.readyFwdCdb, he, huse2]
    cases p.op2Ready <;> simp

theorem updated_opReady (j : Rs.Inputs) {e : Rs.Entry} (he : e.inUse = true) {o : Operand}
    (huse : e.pkt.useOp o = true) :
    (Rs.updated j e).opReady o = (e.pkt.opReady o || Rs.cdbMatch j (e.pkt.opPrn o)) := by
  cases o with
  | op1 =>
    have huse1 : e.pkt.useOp1Prn = true := huse
    show (e.pkt.op1Ready || Rs.loadFromPrf j e e.pkt.op1Prn e.pkt.op1Ready e.pkt.useOp1Prn) =
      (e.pkt.op1Ready || Rs.cdbMatch j e.pkt.op1Prn)
    rw [Rs.loadFromPrf, he, huse1]
    cases e.pkt.op1Ready <;> simp
  | op2 =>
    have huse2 : e.pkt.useOp2Prn = true := huse
    show (e.pkt.op2Ready || Rs.loadFromPrf j e e.pkt.op2Prn e.pkt.op2Ready e.pkt.useOp2Prn) =
      (e.pkt.op2Ready || Rs.cdbMatch j e.pkt.op2Prn)
    rw [Rs.loadFromPrf, he, huse2]
    cases e.pkt.op2Ready <;> simp

/-! ### One edge of a waiting instruction -/

/-- An instruction that has not issued stays in the buffer, unfinished. -/
theorem pending_next (h : Inv c) (ok : Ok i c) (hf : Spine.pipeFlush c.state.spine = false)
    {r : Rob.Record} {n : Nat} {f : Flight} (hat : c.At r n f) (hp : r.pending = true)
    (hissued : f.issued = false) : (c.next i).At r n (f.next i (c.issues n)) := by
  have hmark : Rob.mark (c.robIn i) r = r := by
    rw [Rob.mark]
    refine if_neg fun hhit => ?_
    rw [(hit_own h.rob.toQueue ok hat (Bool.and_eq_true_iff.1 hhit).2).1] at hissued
    cases hissued
  have hstay : c.base + Rob.retireEnCnt c.state.spine.rob ≤ n := by
    by_contra hlt
    rw [Rob.Record.pending] at hp
    rcases retiring_finished h.rob hat (by omega) with hd | hc
    · rw [hd] at hp
      cases hp
    · rw [hc, Bool.not_true, Bool.and_false] at hp
      cases hp
  have := hat.next (i := i) h.spine hf hstay
  rwa [hmark] at this

/-- An operand's ready bit after it has heard what is broadcast. -/
theorem heard_source (h : Inv c) (hops : Operands c) (hf : Spine.pipeFlush c.state.spine = false) {n : Nat}
    {f : Flight} (hn : c.trace[n]? = some f) {o : Operand} (huse : f.pkt.useOp o = true) :
    ((c.source n (f.arn o)).isSome || (broadcast i (f.pkt.opPrn o)).isSome) =
      ((c.next i).source n (f.arn o)).isSome := by
  have hlt := (List.getElem?_eq_some_iff.1 hn).1
  rw [source_next h.spine i (by omega) (fun hf' => by rw [hf] at hf'; cases hf'),
    ← hops.mapped n f o hn huse]

/-- A waiting packet that hears what is broadcast waits on. -/
theorem Waiting.next (h : Inv c) (hops : Operands c) (ok : Ok i c)
    (hf : Spine.pipeFlush c.state.spine = false) {p p' : DispatchRsPacket} {n : Nat} {f : Flight}
    (hw : Waiting c p n f) (hissues : c.issues n = false) (htag : p'.robEntry = p.robEntry)
    (huse : ∀ o, p'.useOp o = p.useOp o) (hprn : ∀ o, p'.opPrn o = p.opPrn o) (hfu : p'.fuId = p.fuId)
    (hready : ∀ o, p.useOp o = true → p'.opReady o = (p.opReady o || (broadcast i (p.opPrn o)).isSome)) :
    Waiting (c.next i) p' n (f.next i (c.issues n)) where
  pending := by
    obtain ⟨r, hat, ht, hp⟩ := hw.pending
    exact ⟨r, pending_next h ok hf hat hp hw.issued, ht.trans htag.symm, hp⟩
  issued := by
    show (f.issued || c.issues n) = false
    rw [hw.issued, hissues]
    rfl
  useOp := fun o => (huse o).trans (hw.useOp o)
  opPrn := fun o => (hprn o).trans (hw.opPrn o)
  opReady := by
    intro o ho
    obtain ⟨r, hat, _⟩ := hw.pending
    have ho' : f.pkt.useOp o = true := ho
    rw [hready o (by rw [hw.useOp o]; exact ho'), hw.opReady o ho', hw.opPrn o]
    exact heard_source h hops hf hat.flight ho'
  fuId := hfu.trans hw.fuId

/-! ### Dispatch -/

/-- An instruction is not in the buffer while it is in the dispatch register. -/
theorem Config.Waits.issues {l : Lane} {n : Nat} {f : Flight} (hw : c.Waits l n f) : c.issues n = false := by
  obtain ⟨⟨j, _, hn⟩, _⟩ := hw
  rw [Config.issues, List.getElem?_eq_none (by omega)]
  exact Bool.and_false _

/-- A dispatched packet that the buffer does not finish at once waits in its station. -/
theorem Config.Waits.loaded (h : Inv c) (hops : Operands c) (hf : Spine.pipeFlush c.state.spine = false)
    {l : Lane} {n : Nat} {f : Flight} (hw : c.Waits l n f) {p' : DispatchRsPacket}
    (hv : (dispatchRsPkt i c.state l).packetValid = true)
    (htag : p'.robEntry = (dispatchRsPkt i c.state l).robEntry)
    (huse : ∀ o, p'.useOp o = (dispatchRsPkt i c.state l).useOp o)
    (hprn : ∀ o, p'.opPrn o = (dispatchRsPkt i c.state l).opPrn o)
    (hfu : p'.fuId = (dispatchRsPkt i c.state l).fuId)
    (hready : ∀ o, (dispatchRsPkt i c.state l).useOp o = true → p'.opReady o =
      ((dispatchRsPkt i c.state l).opReady o || (broadcast i ((dispatchRsPkt i c.state l).opPrn o)).isSome)) :
    Waiting (c.next i) p' n (f.next i (c.issues n)) := by
  obtain ⟨hpkt, hissued, _⟩ := h.waits l n f hw
  have hfields : ∀ o, (dispatchRsPkt i c.state l).useOp o = f.pkt.useOp o ∧
      (dispatchRsPkt i c.state l).opPrn o = f.pkt.opPrn o ∧
        (dispatchRsPkt i c.state l).opReady o = f.pkt.opReady o := by
    intro o
    rw [hpkt]
    cases o <;> exact ⟨rfl, rfl, rfl⟩
  refine ⟨⟨_, hw.next (i := i) h.spine hf, htag.symm, ?_⟩, ?_, fun o => (huse o).trans (hfields o).1,
    fun o => (hprn o).trans (hfields o).2.1, ?_, ?_⟩
  · -- a packet for a station is neither NOP nor halt nor illegal
    have hv' : ((c.state.spine.pipeRenamePkt l).packetValid && !(c.state.spine.pipeRenamePkt l).halt &&
        !(c.state.spine.pipeRenamePkt l).illegal && (c.state.spine.pipeRenamePkt l).inst != nop) = true := hv
    have hcomp : (c.record i l).completeAtDispatch = ((c.state.spine.pipeRenamePkt l).inst == nop ||
        (if (c.state.spine.pipeRenamePkt l).halt then ExceptionCode.haltedOnWfi
          else if (c.state.spine.pipeRenamePkt l).illegal then .illegalInst else .noError) != .noError) := rfl
    simp only [Bool.and_eq_true, Bool.not_eq_true', bne_iff_ne] at hv'
    rw [Rob.Record.pending, hcomp, hv'.1.1.2, hv'.1.2, beq_eq_false_iff_ne.2 hv'.2]
    rfl
  · show (f.issued || c.issues n) = false
    rw [hissued, hw.issues]
    rfl
  · intro o ho
    have ho' : f.pkt.useOp o = true := ho
    obtain ⟨hu, hp, hr⟩ := hfields o
    rw [hready o (hu.trans ho'), hp, hr, hops.ready l n f hw o ho']
    exact heard_source h hops hf hw.flight ho'
  · rw [hfu]
    show (c.state.spine.pipeRenamePkt l).fuId = f.pkt.fuId
    rw [hpkt]

/-- A valid lane of the dispatch register holds an instruction. -/
theorem exists_waits (hs : Spine.Inv c.spine) {l : Lane}
    (hv : (c.state.spine.pipeRenamePkt l).packetValid = true) : ∃ n f, c.Waits l n f := by
  obtain ⟨j, hj⟩ := List.getElem?_of_mem (mem_group (v := fun l =>
    (c.state.spine.pipeRenamePkt l).packetValid).2 hv)
  have hlt := (List.getElem?_eq_some_iff.1 hj).1
  have hlen := base_length hs
  rw [Spine.renameGroup, List.length_map] at hlen
  exact ⟨_, _, ⟨⟨j, hj, rfl⟩, List.getElem?_eq_getElem (by omega)⟩⟩

/-- Two lanes hold different instructions. -/
theorem Config.Waits.lane_unique {l l' : Lane} {n : Nat} {f f' : Flight} (hw : c.Waits l n f)
    (hw' : c.Waits l' n f') : l = l' := by
  obtain ⟨⟨j, hj, hn⟩, _⟩ := hw
  obtain ⟨⟨j', hj', hn'⟩, _⟩ := hw'
  have : j = j' := by omega
  rw [this, hj'] at hj
  exact (Option.some.inj hj).symm

/-! ### Issue -/

/-- What an issue lane carries came out of a station of its bank. -/
theorem Bank.issued {mine : FuId → Bool} {m : Nat} {s : Rs.State m} (hb : Bank c mine s) {w : Way}
    (hv : (Rs.issuePkt s w).packetValid = true) : ∃ k n f, Rs.issueEn s k = true ∧
      (s.entry k).inUse = true ∧ (Rs.issuePkt s w).robEntry = (s.entry k).pkt.robEntry ∧
        Waiting c (s.entry k).pkt n f ∧ mine f.pkt.fuId = true ∧ Issued c (Rs.issuePkt s w) n f := by
  obtain ⟨k, hk, heq, huse, hready⟩ := Rs.issuePkt_valid hb.awake hv
  obtain ⟨n, f, hw, hmine⟩ := hb.waiting k huse
  have hen : Rs.issueEn s k = true := List.any_eq_true.2 ⟨w, List.mem_finRange w, hk⟩
  obtain ⟨r, hat, ht, _⟩ := hw.pending
  have htag : (Rs.issuePkt s w).robEntry = (s.entry k).pkt.robEntry := by
    rw [heq, Rs.issuePktN, if_pos hen]
  have hprn : ∀ o, (Rs.issuePkt s w).opPrn o = (s.entry k).pkt.opPrn o := by
    intro o
    rw [heq, Rs.issuePktN, if_pos hen]
    cases o <;> rfl
  refine ⟨k, n, f, hen, huse, htag, hw, hmine, ⟨r, hat, ht.trans htag.symm⟩,
    fun o => (hprn o).trans (hw.opPrn o), fun o ho => ?_⟩
  have hout : ∀ o, (s.entry k).pkt.useOp o = true → (s.entry k).pkt.opReady o = true := by
    simp only [Rs.operandsReady, Bool.and_eq_true, Bool.or_eq_true, Bool.not_eq_true'] at hready
    intro o ho
    cases o with
    | op1 => exact hready.1.1.resolve_right (Bool.not_eq_false _ ▸ ho)
    | op2 => exact hready.1.2.resolve_right (Bool.not_eq_false _ ▸ ho)
  rw [← hw.opReady o ho]
  exact hout o ((hw.useOp o).trans ho)

/-- A station that stays in use holds an instruction that does not issue. -/
theorem Stations.issues (h : Stations c) (hq : Rob.Queue c.spine.rob) {p : DispatchRsPacket} {n : Nat}
    {f : Flight} (hw : Waiting c p n f)
    (hint : intUnit f.pkt.fuId = true → ∀ k, (c.state.rsInt.entry k).inUse = true →
      (c.state.rsInt.entry k).pkt.robEntry = p.robEntry → Rs.issueEn c.state.rsInt k = false)
    (hmem : memUnit f.pkt.fuId = true → ∀ k, (c.state.rsMem.entry k).inUse = true →
      (c.state.rsMem.entry k).pkt.robEntry = p.robEntry → Rs.issueEn c.state.rsMem k = false) :
    c.issues n = false := by
  refine Bool.eq_false_iff.2 fun hi => ?_
  obtain ⟨r, hat, ht, _⟩ := hw.pending
  rw [Config.issues, hat.live, Option.any_some, Bool.and_eq_true, List.any_eq_true] at hi
  obtain ⟨_, w, _, hiw⟩ := hi
  rw [Bool.and_eq_true, beq_iff_eq, issuePkt] at hiw
  split at hiw
  · obtain ⟨k, n', f', hen, huse, htag, hw', hmine, _⟩ := h.int.issued hiw.1
    obtain ⟨r', hat', ht', _⟩ := hw'.pending
    obtain ⟨_, _, rfl⟩ := hat.unique hq hat' (hiw.2.symm.trans (htag.trans ht'.symm))
    rw [hint hmine k huse (htag.symm.trans (hiw.2.trans ht))] at hen
    cases hen
  · obtain ⟨k, n', f', hen, huse, htag, hw', hmine, _⟩ := h.mem.issued hiw.1
    obtain ⟨r', hat', ht', _⟩ := hw'.pending
    obtain ⟨_, _, rfl⟩ := hat.unique hq hat' (hiw.2.symm.trans (htag.trans ht'.symm))
    rw [hmem hmine k huse (htag.symm.trans (hiw.2.trans ht))] at hen
    cases hen

/-! ### One edge of a bank -/

/-- What a bank is given: the broadcasts, and of the dispatched packets those for its units. -/
structure Feeds (i : Inputs) (c : Config) (mine : FuId → Bool) (j : Rs.Inputs) : Prop where
  flush : j.pipeFlush = Spine.pipeFlush c.state.spine
  cdbValid : j.cdbValid = i.cdbValid
  cdbPrn : j.cdbPrn = i.cdbPrn
  dispatch : ∀ l, (j.dispatchPkt l).packetValid = true →
    j.dispatchPkt l = dispatchRsPkt i c.state l ∧ mine (dispatchRsPkt i c.state l).fuId = true

/-- Where the instruction of a station in use comes from. -/
theorem Bank.origin {mine : FuId → Bool} {m : Nat} {s : Rs.State m} {j : Rs.Inputs} (hb : Bank c mine s)
    (h : Inv c) (hops : Operands c) (ok : Ok i c) (hfeed : Feeds i c mine j)
    (hissues : ∀ k n f, (s.entry k).inUse = true → Rs.issueEn s k = false →
      Waiting c (s.entry k).pkt n f → c.issues n = false)
    {k : Fin (2 ^ m)} (hu : ((Rs.next j s).entry k).inUse = true) :
    ∃ n f, Waiting (c.next i) ((Rs.next j s).entry k).pkt n (f.next i (c.issues n)) ∧
      mine f.pkt.fuId = true ∧ ((∃ l, Rs.allocSel s k l = true ∧ c.Waits l n f) ∨
        ((s.entry k).inUse = true ∧ Waiting c (s.entry k).pkt n f)) := by
  obtain ⟨hjf, hen, ⟨l, hsel, hv, hfree, hpkt⟩ | ⟨huse, hpkt⟩⟩ := Rs.next_cases hu
  · have hf : Spine.pipeFlush c.state.spine = false := hfeed.flush ▸ hjf
    obtain ⟨hd, hmine⟩ := hfeed.dispatch l hv
    rw [hd] at hv hpkt
    have hren : (c.state.spine.pipeRenamePkt l).packetValid = true := by
      have hv' : ((c.state.spine.pipeRenamePkt l).packetValid && !(c.state.spine.pipeRenamePkt l).halt &&
        !(c.state.spine.pipeRenamePkt l).illegal && (c.state.spine.pipeRenamePkt l).inst != nop) = true := hv
      rw [Bool.and_eq_true, Bool.and_eq_true, Bool.and_eq_true] at hv'
      exact hv'.1.1.1
    obtain ⟨n, f, hw⟩ := exists_waits h.spine hren
    have hfu : (dispatchRsPkt i c.state l).fuId = f.pkt.fuId := by
      show (c.state.spine.pipeRenamePkt l).fuId = f.pkt.fuId
      rw [(h.waits l n f hw).1]
    refine ⟨n, f, ?_, hfu ▸ hmine, .inl ⟨l, hsel, hw⟩⟩
    rw [hpkt]
    refine hw.loaded h hops hf hv rfl (fun o => by cases o <;> rfl) (fun o => by cases o <;> rfl) rfl
      fun o ho => ?_
    rw [loaded_opReady j hfree _ ho, cdbMatch_eq i j hfeed.cdbValid hfeed.cdbPrn]
  · have hf : Spine.pipeFlush c.state.spine = false := hfeed.flush ▸ hjf
    obtain ⟨n, f, hw, hmine⟩ := hb.waiting k huse
    refine ⟨n, f, ?_, hmine, .inr ⟨huse, hw⟩⟩
    rw [hpkt]
    refine hw.next h hops ok hf (hissues k n f huse hen hw) rfl (fun o => by cases o <;> rfl)
      (fun o => by cases o <;> rfl) rfl fun o ho => ?_
    rw [updated_opReady j huse ho, cdbMatch_eq i j hfeed.cdbValid hfeed.cdbPrn]

/-- **One edge keeps a bank.** -/
theorem Bank.next {mine : FuId → Bool} {m : Nat} {s : Rs.State m} {j : Rs.Inputs} (hb : Bank c mine s)
    (h : Inv c) (hops : Operands c) (ok : Ok i c) (hfeed : Feeds i c mine j)
    (hissues : ∀ k n f, (s.entry k).inUse = true → Rs.issueEn s k = false →
      Waiting c (s.entry k).pkt n f → c.issues n = false) : Bank (c.next i) mine (Rs.next j s) where
  awake := hb.awake.next j
  waiting := by
    intro k hu
    obtain ⟨n, f, hw, hmine, _⟩ := hb.origin h hops ok hfeed hissues hu
    exact ⟨n, _, hw, hmine⟩
  distinct := by
    intro k k' hu hu' ht
    obtain ⟨n, f, hw, _, horig⟩ := hb.origin h hops ok hfeed hissues hu
    obtain ⟨n', f', hw', _, horig'⟩ := hb.origin h hops ok hfeed hissues hu'
    obtain ⟨r, hat, htr, _⟩ := hw.pending
    obtain ⟨r', hat', htr', _⟩ := hw'.pending
    obtain ⟨rfl, _, _⟩ := hat.unique (h.next ok).rob.toQueue hat' (htr.trans (ht.trans htr'.symm))
    have hold : ∀ {l : Lane} {f f' : Flight} {p : DispatchRsPacket}, c.Waits l n f → Waiting c p n f' →
        False := by
      intro l f f' p hw hw'
      obtain ⟨⟨_, _, hn⟩, _⟩ := hw
      obtain ⟨r, hat, _⟩ := hw'.pending
      have hlt := (List.getElem?_eq_some_iff.1 hat.live).1
      have hle := hat.le
      omega
    rcases horig with ⟨l, hsel, hl⟩ | ⟨huse, hk⟩ <;> rcases horig' with ⟨l', hsel', hl'⟩ | ⟨huse', hk'⟩
    · obtain rfl := hl.lane_unique hl'
      exact (Rs.allocSel_index hsel).1.trans (Rs.allocSel_index hsel').1.symm
    · exact (hold hl hk').elim
    · exact (hold hl' hk).elim
    · obtain ⟨r₀, hat₀, ht₀, _⟩ := hk.pending
      obtain ⟨r₁, hat₁, ht₁, _⟩ := hk'.pending
      have hlive := hat₀.live
      rw [hat₁.live] at hlive
      exact hb.distinct k k' huse huse' (ht₀.symm.trans ((congrArg Rob.Record.tag
        (Option.some.inj hlive).symm).trans ht₁))

theorem intFeeds (i : Inputs) (c : Config) : Feeds i c intUnit (rsIntIn i c.state) where
  flush := rfl
  cdbValid := rfl
  cdbPrn := rfl
  dispatch := by
    intro l hv
    have heq : (rsIntIn i c.state).dispatchPkt l = if (dispatchRsPkt i c.state l).fuId ≠ .agu0 then
      dispatchRsPkt i c.state l else {} := rfl
    rw [heq] at hv ⊢
    split
    · exact ⟨rfl, bne_iff_ne.2 ‹_›⟩
    · rw [if_neg ‹_›] at hv
      cases hv

theorem memFeeds (i : Inputs) (c : Config) : Feeds i c memUnit (rsMemIn i c.state) where
  flush := rfl
  cdbValid := rfl
  cdbPrn := rfl
  dispatch := by
    intro l hv
    have heq : (rsMemIn i c.state).dispatchPkt l = if (dispatchRsPkt i c.state l).fuId = .agu0 then
      dispatchRsPkt i c.state l else {} := rfl
    rw [heq] at hv ⊢
    split
    · exact ⟨rfl, beq_iff_eq.2 ‹_›⟩
    · rw [if_neg ‹_›] at hv
      cases hv

/-! ### One edge -/

/-- What issues is in the issue register a cycle later. -/
theorem Issued.next (h : Inv c) (ok : Ok i c) (hf : Spine.pipeFlush c.state.spine = false)
    {p : IssuePacket} {q : DispatchRsPacket} {n : Nat} {f : Flight} (hi : Issued c p n f)
    (hw : Waiting c q n f) (htag : p.robEntry = q.robEntry) :
    Issued (c.next i) p n (f.next i (c.issues n)) where
  tag := by
    obtain ⟨r, hat, ht, hp⟩ := hw.pending
    exact ⟨r, pending_next h ok hf hat hp hw.issued, ht.trans htag.symm⟩
  opPrn := hi.opPrn
  there := by
    intro o ho
    obtain ⟨r, hat, _⟩ := hi.tag
    have hlt := (List.getElem?_eq_some_iff.1 hat.flight).1
    have ho' : f.pkt.useOp o = true := ho
    obtain ⟨x, hx⟩ := Option.isSome_iff_exists.1 (hi.there o ho')
    have hstay := source_stays i (Nat.le_of_lt hlt) (fun hf' => by rw [hf] at hf'; cases hf') hx
    show ((c.next i).source n (f.arn o)).isSome = true
    rw [hstay]
    rfl

/-- **One edge keeps the stations.** -/
theorem Stations.next (h : Stations c) (hinv : Inv c) (hops : Operands c) (ok : Ok i c) :
    Stations (c.next i) where
  int := by
    refine h.int.next hinv hops ok (intFeeds i c) fun k n f huse hen hw => ?_
    refine h.issues hinv.rob.toQueue hw (fun _ k' huse' ht => ?_) fun hmem => ?_
    · rw [h.int.distinct k' k huse' huse ht]
      exact hen
    · obtain ⟨n', f', hw', hmine⟩ := h.int.waiting k huse
      obtain ⟨r, hat, ht, _⟩ := hw.pending
      obtain ⟨r', hat', ht', _⟩ := hw'.pending
      obtain ⟨_, _, rfl⟩ := hat.unique hinv.rob.toQueue hat' (ht.trans ht'.symm)
      rw [memUnit, beq_iff_eq] at hmem
      rw [intUnit, hmem] at hmine
      cases hmine
  mem := by
    refine h.mem.next hinv hops ok (memFeeds i c) fun k n f huse hen hw => ?_
    refine h.issues hinv.rob.toQueue hw (fun hint => ?_) fun _ k' huse' ht => ?_
    · obtain ⟨n', f', hw', hmine⟩ := h.mem.waiting k huse
      obtain ⟨r, hat, ht, _⟩ := hw.pending
      obtain ⟨r', hat', ht', _⟩ := hw'.pending
      obtain ⟨_, _, rfl⟩ := hat.unique hinv.rob.toQueue hat' (ht.trans ht'.symm)
      rw [memUnit, beq_iff_eq] at hmine
      rw [intUnit, hmine] at hint
      cases hint
    · rw [h.mem.distinct k' k huse' huse ht]
      exact hen
  issue := by
    intro w hv
    have hreg : (c.next i).state.pipeIssuePkt w =
        if Spine.pipeFlush c.state.spine then {} else issuePkt c.state w := rfl
    cases hf : Spine.pipeFlush c.state.spine with
    | true =>
      rw [hreg, hf, if_pos rfl] at hv
      cases hv
    | false =>
      rw [hreg, hf, if_neg Bool.false_ne_true] at hv ⊢
      rw [issuePkt] at hv ⊢
      split at hv
      · rw [if_pos ‹_›]
        obtain ⟨k, n, f, _, _, htag, hw, _, hi⟩ := h.int.issued hv
        exact ⟨n, _, hi.next hinv ok hf hw htag⟩
      · rw [if_neg ‹_›]
        obtain ⟨k, n, f, _, _, htag, hw, _, hi⟩ := h.mem.issued hv
        exact ⟨n, _, hi.next hinv ok hf hw htag⟩

theorem Stations.init : Stations Config.init where
  int := ⟨Rs.Awake.init, fun _ hu => (by cases hu), fun _ _ hu => (by cases hu)⟩
  mem := ⟨Rs.Awake.init, fun _ hu => (by cases hu), fun _ _ hu => (by cases hu)⟩
  issue := fun _ hv => by cases hv

end

end R10K.Core
