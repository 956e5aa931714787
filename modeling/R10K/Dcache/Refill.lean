import R10K.Dcache.Hit
import R10K.Icache.Refill

/-! When a refill of the data cache fetches its line.

The request pointer moves with every request, the response pointer with every acceptance: a
request that is refused is not made again, and the tags after it are noted one place early.
A tag that is given twice in a miss is noted in two places, and an answer that comes with
its acceptance finds no tag yet. When every request is accepted under a tag of its own and
answered later, in whatever order, the line written is the memory's. -/
namespace R10K.Dcache
open Cache
open Icache (Mem doubleAddr doubleAddr_inj Complete)

/-- The line of an address. -/
def memLine (mem : Mem) (addr : BitVec 32) : Block := fun k =>
  (mem (doubleAddr addr (k.toNat / 8))).extractLsb' (k.toNat % 8 * 8) 8

/-- The cache with what the memory knows of its loads: the one asked for in the cycle before,
those accepted and not answered, by their tags, and those accepted in this miss. -/
structure System where
  ctrl : State
  asked : Option (BitVec 32)
  pending : BitVec 4 → Option (BitVec 32)
  accepted : List (BitVec 32)

variable {mem : Mem} {i : Inputs} {s : System}

/-- The load that is accepted in this cycle. -/
def accepts (i : Inputs) (s : System) : Option (BitVec 32) :=
  if i.dmem2procResponse = 0 then none else s.asked

/-- The loads without an answer, with the one accepted in this cycle. -/
def outstanding (i : Inputs) (s : System) (t : BitVec 4) : Option (BitVec 32) :=
  if (accepts i s).isSome ∧ t = i.dmem2procResponse then accepts i s else s.pending t

/-- The address answered in this cycle. -/
def answer (i : Inputs) (s : System) : Option (BitVec 32) :=
  if i.dmem2procTag = 0 then none else outstanding i s i.dmem2procTag

/-- The loads of this miss accepted up to this cycle. -/
def acceptedNow (i : Inputs) (s : System) : List (BitVec 32) := s.accepted ++ (accepts i s).toList

namespace System

def init (tagSram : CacheWay → Sram Tag) (dataSram : CacheWay → Sram Block) : System where
  ctrl := reset tagSram dataSram
  asked := none
  pending := fun _ => none
  accepted := []

def next (i : Inputs) (s : System) : System where
  ctrl := Dcache.next i s.ctrl
  asked := if proc2dmemCommand s.ctrl = .busLoad then some (proc2dmemAddr s.ctrl) else none
  pending := fun t => if t = i.dmem2procTag then none else outstanding i s t
  accepted := if s.ctrl.currSt = .chkHit then [] else acceptedNow i s

end System

/-- What the memory promises: it accepts what was asked for in the cycle before, if it does,
under a tag that no load waits under; an answer is the doubleword of a load that waits for it. -/
structure Serves (mem : Mem) (i : Inputs) (s : System) : Prop where
  asked : i.dmem2procResponse ≠ 0 → s.ctrl.proc2dmemCommandPipe ≠ .busNone
  free : (accepts i s).isSome → s.pending i.dmem2procResponse = none
  answer : i.dmem2procTag ≠ 0 → ∃ a, outstanding i s i.dmem2procTag = some a ∧ i.dmem2procData = mem a

/-- A load is accepted when it is asked for, under a tag that this miss has not noted, and is
answered in a later cycle. -/
structure Prompt (i : Inputs) (s : System) : Prop where
  accepted : s.asked.isSome → i.dmem2procResponse ≠ 0
  fresh : s.asked.isSome → ∀ k, s.ctrl.refillMemTag k ≠ i.dmem2procResponse
  later : s.asked.isSome → i.dmem2procTag ≠ 0 → i.dmem2procTag ≠ i.dmem2procResponse

instance : Decidable (Serves mem i s) :=
  decidable_of_iff
    ((i.dmem2procResponse ≠ 0 → s.ctrl.proc2dmemCommandPipe ≠ .busNone) ∧
      ((accepts i s).isSome → s.pending i.dmem2procResponse = none) ∧
      (i.dmem2procTag ≠ 0 → (outstanding i s i.dmem2procTag).any fun a => i.dmem2procData == mem a))
    ⟨fun h => ⟨h.1, h.2.1, fun ht => by simpa [Option.any_eq_true] using h.2.2 ht⟩,
      fun h => ⟨h.asked, h.free, fun ht => by simpa [Option.any_eq_true] using h.answer ht⟩⟩

instance : Decidable (Prompt i s) :=
  decidable_of_iff (_ ∧ _ ∧ _) ⟨fun h => ⟨h.1, h.2.1, h.2.2⟩, fun h => ⟨h.accepted, h.fresh, h.later⟩⟩

/-- What a cycle does with a line is right. -/
structure Fetches (mem : Mem) (i : Inputs) (s : System) : Prop where
  /-- `RD_L2_ACK` waits when the memory has accepted all four doublewords. -/
  accepted : s.ctrl.currSt = .rdL2Ack → Complete s.ctrl.currReqAddr (acceptedNow i s)
  /-- An answer goes to the place of its address, and to no other. -/
  placed : ∀ a, answer i s = some a → ∃ k : Fin 4, a = doubleAddr s.ctrl.currReqAddr k.val ∧
    (s.next i).ctrl.refillBufValid k = true ∧
    ∀ j, (s.next i).ctrl.refillBuf j = if j = k then mem a else s.ctrl.refillBuf j
  /-- The line written is the memory's. -/
  written : refillEn s.ctrl = true → (arrayIn s.ctrl).addr = s.ctrl.currReqAddr ∧
    (arrayIn s.ctrl).refillLine = memLine mem s.ctrl.currReqAddr

/-! ### Tags and places -/

/-- The loads that wait are those of the first `m` places that have no data, under their tags. -/
structure Waiting (addr : BitVec 32) (out : BitVec 4 → Option (BitVec 32)) (tag : Fin 4 → BitVec 4)
    (valid : Fin 4 → Bool) (m : Nat) : Prop
    extends Requests.Noted (doubleAddr addr) (fun k => valid k = false) out tag 0 m where
  unset : ∀ k : Fin 4, m ≤ k.val → tag k = 0
  early : ∀ k : Fin 4, valid k = true → k.val < m

namespace Waiting
variable {addr : BitVec 32} {out : BitVec 4 → Option (BitVec 32)} {tag : Fin 4 → BitVec 4}
  {valid : Fin 4 → Bool} {m : Nat}

theorem start (htag : ∀ k, tag k = 0) (hvalid : ∀ k, valid k = false) :
    Waiting addr (fun _ => none) tag valid 0 where
  toNoted := .start ..
  unset := fun k _ => htag k
  early := fun k hk => by rw [hvalid k] at hk; cases hk

/-- The next place is given a tag that is not noted. -/
theorem accept (h : Waiting addr out tag valid m) (hm : m < 4) {r : BitVec 4} (hr : r ≠ 0)
    (hnew : ∀ k, tag k ≠ r) :
    Waiting addr (fun t => if t = r then some (doubleAddr addr m) else out t)
      (fun k => if k.val = m then r else tag k) valid (m + 1) where
  toNoted := by
    have hvm : valid ⟨m, hm⟩ = false := by
      rw [← Bool.not_eq_true]
      exact fun hv => absurd (h.early _ hv) (Nat.lt_irrefl m)
    exact h.toNoted.accept hm hvm hr fun k _ => hnew k
  unset := fun k hk => by
    rw [if_neg (by omega)]
    exact h.unset k (by omega)
  early := fun k hk => Nat.lt_succ_of_lt (h.early k hk)

/-- A cycle without an answer. Tag 0 names no load. -/
theorem silent (h : Waiting addr out tag valid m) :
    Waiting addr (fun t => if t = 0 then none else out t) tag valid m where
  toNoted := h.toNoted.silent
  unset := h.unset
  early := h.early

/-- The place that waits under a tag is filled. -/
theorem fill (h : Waiting addr out tag valid m) {k : Fin 4} (hk : k.val < m) :
    Waiting addr (fun t => if t = tag k then none else out t) tag (fun j => decide (j = k) || valid j) m where
  toNoted := (h.toNoted.answer hk).congr fun j _ => by
    rw [Bool.or_eq_false_iff, decide_eq_false_iff_not]
  unset := h.unset
  early := fun j hj => by
    rw [Bool.or_eq_true, decide_eq_true_eq] at hj
    rcases hj with rfl | hj
    · exact hk
    · exact h.early j hj

end Waiting

/-! ### The progress of a miss -/

/-- `m` tags are noted, and the answers that have come are in their places. -/
structure Noted (mem : Mem) (s : System) (m : Nat) : Prop where
  waiting : Waiting s.ctrl.currReqAddr s.pending s.ctrl.refillMemTag s.ctrl.refillBufValid m
  filled : ∀ k : Fin 4, s.ctrl.refillBufValid k = true →
    s.ctrl.refillBuf k = mem (doubleAddr s.ctrl.currReqAddr k.val)
  accepted : s.accepted = (List.range m).map (doubleAddr s.ctrl.currReqAddr)

/-- The load of place `m` was asked for in the cycle before. -/
structure Asked (s : System) (m : Nat) : Prop where
  asked : s.asked = some (doubleAddr s.ctrl.currReqAddr m)
  command : s.ctrl.proc2dmemCommandPipe = .busLoad
  rsp : s.ctrl.refillRspPtr.toNat = m

/-- No load was asked for in the cycle before. -/
structure Quiet (s : System) : Prop where
  asked : s.asked = none
  command : s.ctrl.proc2dmemCommandPipe ≠ .busLoad

/-- The pointers, the tags and the memory are clear. -/
structure Clear (s : System) : Prop extends Quiet s where
  req : s.ctrl.refillReqPtr = 0
  rsp : s.ctrl.refillRspPtr = 0
  tags : ∀ k, s.ctrl.refillMemTag k = 0
  pending : s.pending = fun _ => none

/-- How far a miss has come, in each state of the controller. -/
def Phase (mem : Mem) (s : System) : Prop :=
  match s.ctrl.currSt with
  | .rdL2Req => (Clear s ∧ s.ctrl.proc2dmemCommandPipe = .busNone ∧ Noted mem s 0) ∨
      ∃ m < 3, s.ctrl.refillReqPtr.toNat = m + 1 ∧ Asked s m ∧ Noted mem s m
  | .rdL2Ack => (Asked s 3 ∧ Noted mem s 3) ∨ (Quiet s ∧ Noted mem s 4)
  | .wrL1 => Clear s ∧ ∀ k : Fin 4, s.ctrl.refillBuf k = mem (doubleAddr s.ctrl.currReqAddr k.val)
  | _ => Clear s ∧ ∀ k, s.ctrl.refillBufValid k = false

/-- What a cycle leaves noted, before its answer. -/
structure Notes (i : Inputs) (s : System) (m : Nat) : Prop where
  waiting : Waiting s.ctrl.currReqAddr (outstanding i s) (next i s.ctrl).refillMemTag s.ctrl.refillBufValid m
  hits : ∀ k, refillHit i s.ctrl k = true ↔
    i.dmem2procTag ≠ 0 ∧ (next i s.ctrl).refillMemTag k = i.dmem2procTag
  accepted : acceptedNow i s = (List.range m).map (doubleAddr s.ctrl.currReqAddr)

theorem refillFull_iff {c : State} : refillFull c = true ↔ ∀ k, c.refillBufValid k = true := by
  simp [refillFull]

theorem refillHit_iff {c : State} {k : Fin 4} :
    refillHit i c k = true ↔ i.dmem2procTag ≠ 0 ∧ i.dmem2procTag = c.refillMemTag k := by
  simp [refillHit]

/-- Before the fourth tag is noted the buffer is not full. -/
theorem Noted.notFull {m : Nat} (h : Noted mem s m) (hm : m < 4) : refillFull s.ctrl = false := by
  rw [← Bool.not_eq_true, refillFull_iff]
  exact fun hall => absurd (h.waiting.early 3 (hall 3)) (by show ¬ 3 < m; omega)

theorem Asked.notes {m : Nat} (h : Asked s m) (hm : m < 4) (hn : Noted mem s m) (ok : Prompt i s) :
    Notes i s (m + 1) := by
  have hsome : s.asked.isSome = true := by rw [h.asked]; rfl
  have hr := ok.accepted hsome
  have hfresh := ok.fresh hsome
  have hacc : accepts i s = some (doubleAddr s.ctrl.currReqAddr m) := by rw [accepts, if_neg hr, h.asked]
  have hout : outstanding i s = fun t =>
      if t = i.dmem2procResponse then some (doubleAddr s.ctrl.currReqAddr m) else s.pending t := by
    funext t
    simp [outstanding, hacc]
  have htag : (next i s.ctrl).refillMemTag = fun k : Fin 4 =>
      if k.val = m then i.dmem2procResponse else s.ctrl.refillMemTag k := by
    funext k
    have hresp : (i.dmem2procResponse != 0) = true := bne_iff_ne.2 hr
    simp only [next, hn.notFull hm, h.command, h.rsp, hresp, beq_self_eq_true, Bool.and_true, beq_iff_eq,
      Bool.false_eq_true, if_false]
  refine ⟨?_, fun k => ?_, ?_⟩
  · rw [hout, htag]
    exact hn.waiting.accept hm hr hfresh
  · rw [refillHit_iff, htag]
    refine and_congr_right fun ht => ?_
    beta_reduce
    by_cases hkm : k.val = m
    · -- the tag noted in this cycle is not looked at yet
      rw [if_pos hkm, hn.waiting.unset k (by omega)]
      exact ⟨fun h0 => absurd h0 ht, fun hrt => absurd hrt.symm (ok.later hsome ht)⟩
    · rw [if_neg hkm]
      exact eq_comm
  · rw [acceptedNow, hacc, hn.accepted, Option.toList_some, List.range_succ, List.map_append, List.map_singleton]

theorem Quiet.accepts_eq (h : Quiet s) : accepts i s = none := by
  rw [accepts, h.asked, ite_self]

theorem Quiet.outstanding_eq (h : Quiet s) : outstanding i s = s.pending := by
  funext t
  simp [outstanding, h.accepts_eq]

theorem Quiet.tag_eq (h : Quiet s) (hfull : refillFull s.ctrl = false) :
    (next i s.ctrl).refillMemTag = s.ctrl.refillMemTag := by
  funext k
  simp [next, hfull, h.command]

theorem Quiet.notes {m : Nat} (h : Quiet s) (hfull : refillFull s.ctrl = false) (hn : Noted mem s m) :
    Notes i s m := by
  refine ⟨?_, fun k => ?_, ?_⟩
  · rw [h.outstanding_eq, h.tag_eq hfull]
    exact hn.waiting
  · rw [refillHit_iff, h.tag_eq hfull]
    exact and_congr_right fun _ => eq_comm
  · rw [acceptedNow, h.accepts_eq, hn.accepted, Option.toList_none, List.append_nil]

/-! ### One edge of a miss -/

/-- A miss keeps its request. -/
theorem currReqAddr_keep {c : State} (h : c.currSt = .rdL2Req ∨ c.currSt = .rdL2Ack) :
    (next i c).currReqAddr = c.currReqAddr := by
  have hacc : reqAccept i c = false := by
    rcases h with h | h <;> simp [reqAccept, reqReady, h]
  have hidle : nextSt i c ≠ .idle := by
    rcases h with h | h <;> rw [nextSt, h] <;> simp only <;> split <;> decide
  simp only [next, hacc, if_neg hidle, Bool.false_eq_true, if_false]

/-- The place an answer is for. -/
theorem Notes.place {m : Nat} (h : Notes i s m) (ht : i.dmem2procTag ≠ 0) {a : BitVec 32}
    (ha : outstanding i s i.dmem2procTag = some a) : ∃ k : Fin 4, k.val < m ∧
      a = doubleAddr s.ctrl.currReqAddr k.val ∧ (next i s.ctrl).refillMemTag k = i.dmem2procTag ∧
      ∀ j, refillHit i s.ctrl j = decide (j = k) := by
  obtain ⟨k, hk, _, haddr, htag⟩ := (h.waiting.waits _ _).1 ha
  refine ⟨k, hk, haddr, htag, fun j => ?_⟩
  rw [Bool.eq_iff_iff, h.hits, decide_eq_true_eq]
  constructor
  · intro ⟨_, hj⟩
    have hjm : j.val < m := by
      by_contra hge
      rw [h.waiting.unset j (Nat.le_of_not_lt hge)] at hj
      exact ht hj.symm
    exact h.waiting.distinct j k hjm hk (hj.trans htag.symm)
  · rintro rfl
    exact ⟨ht, htag⟩

/-- **A cycle of a miss puts its answer into its place** and notes the tag it is given. -/
theorem Noted.next {m m' : Nat} (h : Noted mem s m) (hnotes : Notes i s m') (ok : Serves mem i s)
    (hst : s.ctrl.currSt = .rdL2Req ∨ s.ctrl.currSt = .rdL2Ack) : Noted mem (s.next i) m' := by
  have haddr : (Dcache.next i s.ctrl).currReqAddr = s.ctrl.currReqAddr := currReqAddr_keep hst
  have hwr : s.ctrl.currSt ≠ .wrL1 := by rcases hst with hst | hst <;> rw [hst] <;> decide
  have hchk : s.ctrl.currSt ≠ .chkHit := by rcases hst with hst | hst <;> rw [hst] <;> decide
  have hvalid : (Dcache.next i s.ctrl).refillBufValid = fun k => refillHit i s.ctrl k || s.ctrl.refillBufValid k := by
    funext k
    cases hk : refillHit i s.ctrl k <;> simp [Dcache.next, hk, hwr]
  have hacc : (s.next i).accepted = (List.range m').map (doubleAddr s.ctrl.currReqAddr) :=
    (if_neg hchk).trans hnotes.accepted
  by_cases ht : i.dmem2procTag = 0
  · have hmiss : ∀ k, refillHit i s.ctrl k = false := fun k => by
      rw [← Bool.not_eq_true, refillHit_iff]
      exact fun hk => hk.1 ht
    refine ⟨?_, fun k hk => ?_, ?_⟩
    · simp only [System.next, haddr, hvalid, hmiss, Bool.false_or, ht]
      exact hnotes.waiting.silent
    · simp only [System.next, haddr, hvalid, hmiss, Bool.false_or] at hk ⊢
      simp only [Dcache.next, hmiss, hwr, Bool.false_eq_true, if_false]
      exact h.filled k hk
    · rw [hacc, show (s.next i).ctrl.currReqAddr = _ from haddr]
  · obtain ⟨a, ha, hdata⟩ := ok.answer ht
    obtain ⟨k, hk, hak, htag, hhit⟩ := hnotes.place ht ha
    refine ⟨?_, fun j hj => ?_, ?_⟩
    · simp only [System.next, haddr, hvalid, hhit, ← htag]
      exact hnotes.waiting.fill hk
    · simp only [System.next, haddr, hvalid, hhit] at hj ⊢
      simp only [Dcache.next, hhit, hwr, decide_eq_true_eq, if_false]
      by_cases hjk : j = k
      · rw [if_pos hjk, hdata, hak, hjk]
      · rw [if_neg hjk]
        rw [decide_eq_false hjk, Bool.false_or] at hj
        exact h.filled j hj
    · rw [hacc, show (s.next i).ctrl.currReqAddr = _ from haddr]

theorem command_iff {c : State} : proc2dmemCommand c = .busLoad ↔ c.currSt = .rdL2Req := by
  rw [proc2dmemCommand]
  cases c.currSt <;> simp

/-- The load asked for in a cycle of `RD_L2_REQ`. -/
theorem asked_next (hst : s.ctrl.currSt = .rdL2Req) :
    (s.next i).asked = some (doubleAddr s.ctrl.currReqAddr s.ctrl.refillReqPtr.toNat) := by
  have haddr : proc2dmemAddr s.ctrl = doubleAddr s.ctrl.currReqAddr s.ctrl.refillReqPtr.toNat := by
    have hlt := s.ctrl.refillReqPtr.isLt
    rw [proc2dmemAddr, hst]
    show _ + _ = _
    rw [doubleAddr, BitVec.add_right_inj]
    apply BitVec.eq_of_toNat_eq
    rw [BitVec.toNat_mul, BitVec.toNat_setWidth, BitVec.toNat_ofNat, show (8 : BitVec 32).toNat = 8 from rfl]
    omega
  simp only [System.next, command_iff.2 hst, if_true, haddr]

theorem Quiet.next (hst : s.ctrl.currSt ≠ .rdL2Req) : Quiet (s.next i) where
  asked := if_neg fun h => hst (command_iff.1 h)
  command := fun h => hst (command_iff.1 h)

namespace Clear

theorem refillHit_eq (h : Clear s) (k : Fin 4) : refillHit i s.ctrl k = false := by
  rw [← Bool.not_eq_true, refillHit_iff, h.tags k]
  exact fun hk => hk.1 hk.2

theorem next (h : Clear s) (hst : s.ctrl.currSt ≠ .rdL2Req) : Clear (s.next i) where
  toQuiet := .next hst
  req := by
    have hcmd : proc2dmemCommand s.ctrl ≠ .busLoad := fun hc => hst (command_iff.1 hc)
    simp only [System.next, Dcache.next, h.req, if_neg hcmd, ite_self]
  rsp := by
    simp [System.next, Dcache.next, h.rsp, hst]
  tags := fun k => by
    simp [System.next, Dcache.next, h.tags, h.command]
  pending := by
    simp only [System.next, h.outstanding_eq, h.pending, ite_self]

/-- Outside a miss the buffer stays empty. -/
theorem valid_next (h : Clear s) (hv : s.ctrl.currSt = .wrL1 ∨ ∀ k, s.ctrl.refillBufValid k = false)
    (k : Fin 4) : (Dcache.next i s.ctrl).refillBufValid k = false := by
  simp only [Dcache.next, h.refillHit_eq, Bool.false_eq_true, if_false]
  split
  · rfl
  · rename_i hst
    exact hv.resolve_left hst k

/-- No answer comes outside a miss. -/
theorem no_answer (h : Clear s) : answer i s = none := by
  rw [answer, h.outstanding_eq, h.pending, ite_self]

end Clear

/-! ### The invariant -/

/-- Outside a refill only `RD_L2_REQ` starts one. -/
theorem refillSt_next {c : State} (h : refillSt c.currSt = false) (hreq : nextSt i c ≠ .rdL2Req) :
    refillSt (nextSt i c) = false := by
  rw [← Bool.not_eq_true]
  intro hnext
  rcases nextSt_refillSt hnext with ⟨hst, hmiss, hd⟩ | ⟨hst, _⟩
  · refine hreq ?_
    simp [nextSt, hst, hmiss, hd]
  · rw [h] at hst
    cases hst

namespace Phase

theorem init (tagSram : CacheWay → Sram Tag) (dataSram : CacheWay → Sram Block) :
    Phase mem (System.init tagSram dataSram) :=
  ⟨⟨⟨rfl, nofun⟩, rfl, rfl, fun _ => rfl, rfl⟩, fun _ => rfl⟩

/-- A state outside a refill. -/
theorem of_clear (hc : Clear s) (hv : ∀ k, s.ctrl.refillBufValid k = false)
    (hst : refillSt s.ctrl.currSt = false) : Phase mem s := by
  unfold Phase
  cases h : s.ctrl.currSt <;> rw [h] at hst
  case rdL2Req | rdL2Ack | wrL1 => cases hst
  all_goals exact ⟨hc, hv⟩

/-- A refill starts with everything clear. -/
theorem next_outside (hc : Clear s) (hv : ∀ k, s.ctrl.refillBufValid k = false)
    (hst : refillSt s.ctrl.currSt = false) : Phase mem (s.next i) := by
  have hne : s.ctrl.currSt ≠ .rdL2Req := fun h => by rw [h] at hst; cases hst
  have hv' : ∀ k, (s.next i).ctrl.refillBufValid k = false := hc.valid_next (.inr hv)
  by_cases hreq : nextSt i s.ctrl = .rdL2Req
  · have hchk : s.ctrl.currSt = .chkHit := by
      rcases nextSt_refillSt (by rw [hreq]; rfl) with ⟨hchk, _⟩ | ⟨hold, _⟩
      · exact hchk
      · rw [hst] at hold
        cases hold
    have hcmd : (s.next i).ctrl.proc2dmemCommandPipe = .busNone := by
      simp [System.next, next, proc2dmemCommand, hchk]
    have hc' := hc.next (i := i) hne
    unfold Phase
    rw [show (s.next i).ctrl.currSt = .rdL2Req from hreq]
    refine .inl ⟨hc', hcmd, ?_, fun k hk => ?_, if_pos hchk⟩
    · rw [hc'.pending]
      exact .start hc'.tags hv'
    · rw [hv' k] at hk
      cases hk
  · exact of_clear (hc.next hne) hv' (refillSt_next hst hreq)

/-- The pointers move with a request, and with its acceptance. -/
theorem reqPtr_next (hst : s.ctrl.currSt = .rdL2Req) (hfull : refillFull s.ctrl = false) :
    (s.next i).ctrl.refillReqPtr = s.ctrl.refillReqPtr + 1 := by
  simp [System.next, next, hfull, command_iff.2 hst]

theorem rspPtr_next (hst : s.ctrl.currSt = .rdL2Req) (hfull : refillFull s.ctrl = false)
    (hr : i.dmem2procResponse ≠ 0) : (s.next i).ctrl.refillRspPtr = s.ctrl.refillRspPtr + 1 := by
  have hresp : (i.dmem2procResponse != 0) = true := bne_iff_ne.2 hr
  simp only [System.next, Dcache.next, hfull, hresp, hst, beq_self_eq_true, Bool.and_true,
    Bool.false_eq_true, if_false, if_true]

/-- The first cycle of `RD_L2_REQ` asks for the first place. -/
theorem next_req_first (hst : s.ctrl.currSt = .rdL2Req) (ok : Serves mem i s) (hc : Clear s)
    (hnone : s.ctrl.proc2dmemCommandPipe = .busNone) (hn : Noted mem s 0) : Phase mem (s.next i) := by
  have hfull := hn.notFull (by decide)
  have haddr : (s.next i).ctrl.currReqAddr = s.ctrl.currReqAddr := currReqAddr_keep (.inl hst)
  have hresp : i.dmem2procResponse = 0 := by
    by_contra hr
    exact ok.asked hr hnone
  have hnext : nextSt i s.ctrl = .rdL2Req := by simp [nextSt, hst, hc.req]
  have hreq : (s.next i).ctrl.refillReqPtr.toNat = 0 + 1 := by
    rw [reqPtr_next hst hfull, hc.req]
    rfl
  have hask : Asked (s.next i) 0 := by
    refine ⟨?_, command_iff.2 hst, ?_⟩
    · rw [asked_next hst, haddr, hc.req]
      rfl
    · simp [System.next, next, hfull, hresp, hc.rsp]
  unfold Phase
  rw [show (s.next i).ctrl.currSt = .rdL2Req from hnext]
  exact .inr ⟨0, by decide, hreq, hask, hn.next (hc.toQuiet.notes hfull hn) ok (.inl hst)⟩

/-- The following cycles ask for the next place while the one before is accepted. -/
theorem next_req_again {m : Nat} (hm : m < 3) (hst : s.ctrl.currSt = .rdL2Req) (ok : Serves mem i s)
    (hp : Prompt i s) (hreq : s.ctrl.refillReqPtr.toNat = m + 1) (ha : Asked s m) (hn : Noted mem s m) :
    Phase mem (s.next i) := by
  have hfull := hn.notFull (by omega)
  have haddr : (s.next i).ctrl.currReqAddr = s.ctrl.currReqAddr := currReqAddr_keep (.inl hst)
  have hnoted := hn.next (ha.notes (by omega) hn hp) ok (.inl hst)
  have hrsp : (s.next i).ctrl.refillRspPtr.toNat = m + 1 := by
    rw [rspPtr_next hst hfull (hp.accepted (by rw [ha.asked]; rfl)), BitVec.toNat_add, ha.rsp,
      show (1 : BitVec 2).toNat = 1 from rfl]
    omega
  have hask : Asked (s.next i) (m + 1) := ⟨by rw [asked_next hst, haddr, hreq], command_iff.2 hst, hrsp⟩
  unfold Phase
  by_cases hlast : m = 2
  · have hnext : nextSt i s.ctrl = .rdL2Ack := by simp [nextSt, hst, hreq, hlast]
    rw [show (s.next i).ctrl.currSt = .rdL2Ack from hnext]
    subst hlast
    exact .inl ⟨hask, hnoted⟩
  · have hnext : nextSt i s.ctrl = .rdL2Req := by
      rw [nextSt, hst]
      exact if_neg (by omega)
    have hreq' : (s.next i).ctrl.refillReqPtr.toNat = m + 1 + 1 := by
      rw [reqPtr_next hst hfull, BitVec.toNat_add, hreq, show (1 : BitVec 2).toNat = 1 from rfl]
      omega
    rw [show (s.next i).ctrl.currSt = .rdL2Req from hnext]
    exact .inr ⟨m + 1, by omega, hreq', hask, hnoted⟩

theorem next_req (h : Phase mem s) (hst : s.ctrl.currSt = .rdL2Req) (ok : Serves mem i s) (hp : Prompt i s) :
    Phase mem (s.next i) := by
  rw [Phase, hst] at h
  rcases h with ⟨hc, hnone, hn⟩ | ⟨m, hm, hreq, ha, hn⟩
  · exact next_req_first hst ok hc hnone hn
  · exact next_req_again hm hst ok hp hreq ha hn

/-- A full buffer waits for nothing. -/
theorem full_pending {m : Nat} (hn : Noted mem s m) (hfull : refillFull s.ctrl = true) :
    s.pending = fun _ => none := by
  funext t
  rw [← Option.not_isSome_iff_eq_none, Option.isSome_iff_exists]
  intro ⟨a, ha⟩
  obtain ⟨k, _, hv, _⟩ := (hn.waiting.waits t a).1 ha
  rw [refillFull_iff.1 hfull k] at hv
  cases hv

/-- A cycle of `RD_L2_ACK` takes an answer, or goes on with the full buffer. -/
theorem next_ack (h : Phase mem s) (hst : s.ctrl.currSt = .rdL2Ack) (ok : Serves mem i s) (hp : Prompt i s) :
    Phase mem (s.next i) := by
  have hne : s.ctrl.currSt ≠ .rdL2Req := by rw [hst]; decide
  have hquiet : Quiet (s.next i) := .next hne
  rw [Phase, hst] at h
  by_cases hfull : refillFull s.ctrl = true
  · have hnext : nextSt i s.ctrl = .wrL1 := by simp [nextSt, hst, hfull]
    rcases h with ⟨_, hn⟩ | ⟨hq, hn⟩
    · rw [hn.notFull (by decide)] at hfull
      cases hfull
    have hpending := full_pending hn hfull
    have hmiss : ∀ k, refillHit i s.ctrl k = false := fun k => by
      rw [← Bool.not_eq_true, refillHit_iff]
      intro hk
      obtain ⟨a, ha, _⟩ := ok.answer hk.1
      rw [hq.outstanding_eq, hpending] at ha
      cases ha
    unfold Phase
    rw [show (s.next i).ctrl.currSt = .wrL1 from hnext]
    refine ⟨⟨hquiet, ?_, ?_, fun k => ?_, ?_⟩, fun k => ?_⟩
    · simp [System.next, next, hfull]
    · simp [System.next, next, hfull]
    · simp [System.next, next, hfull]
    · simp only [System.next, hq.outstanding_eq, hpending, ite_self]
    · rw [show (s.next i).ctrl.currReqAddr = _ from currReqAddr_keep (.inr hst),
        ← hn.filled k (refillFull_iff.1 hfull k)]
      simp [System.next, next, hmiss, hst]
  · have hnext : nextSt i s.ctrl = .rdL2Ack := by simp [nextSt, hst, hfull]
    have hnotes : Notes i s 4 ∧ ∃ m, Noted mem s m := by
      rcases h with ⟨ha, hn⟩ | ⟨hq, hn⟩
      · exact ⟨ha.notes (by decide) hn hp, 3, hn⟩
      · exact ⟨hq.notes (Bool.eq_false_iff.2 hfull) hn, 4, hn⟩
    obtain ⟨hnotes, m, hn⟩ := hnotes
    unfold Phase
    rw [show (s.next i).ctrl.currSt = .rdL2Ack from hnext]
    exact .inr ⟨hquiet, hn.next hnotes ok (.inr hst)⟩

/-- **An edge keeps the progress.** -/
theorem next (h : Phase mem s) (ok : Serves mem i s) (hp : Prompt i s) : Phase mem (s.next i) := by
  cases hst : s.ctrl.currSt
  case rdL2Req => exact h.next_req hst ok hp
  case rdL2Ack => exact h.next_ack hst ok hp
  case wrL1 =>
    rw [Phase, hst] at h
    have hne : s.ctrl.currSt ≠ .rdL2Req := by rw [hst]; decide
    refine of_clear (h.1.next hne) (h.1.valid_next (.inl hst)) ?_
    show refillSt (nextSt i s.ctrl) = false
    simp only [nextSt, hst]
    split <;> rfl
  all_goals
    rw [Phase, hst] at h
    exact next_outside h.1 h.2 (by rw [hst]; rfl)

end Phase

/-! ### What a cycle does with a line -/

namespace Phase

/-- A cycle of a miss that still waits. -/
theorem notes (h : Phase mem s) (hst : s.ctrl.currSt = .rdL2Req ∨ s.ctrl.currSt = .rdL2Ack)
    (hfull : refillFull s.ctrl = false) (hp : Prompt i s) :
    ∃ m, Notes i s m ∧ (s.ctrl.currSt = .rdL2Ack → m = 4) := by
  rcases hst with hst | hst
  · have hne : s.ctrl.currSt ≠ .rdL2Ack := by rw [hst]; decide
    rw [Phase, hst] at h
    rcases h with ⟨hc, _, hn⟩ | ⟨m, hm, _, ha, hn⟩
    · exact ⟨0, hc.toQuiet.notes hfull hn, fun hack => absurd hack hne⟩
    · exact ⟨m + 1, ha.notes (by omega) hn hp, fun hack => absurd hack hne⟩
  · rw [Phase, hst] at h
    rcases h with ⟨ha, hn⟩ | ⟨hq, hn⟩
    · exact ⟨4, ha.notes (by decide) hn hp, fun _ => rfl⟩
    · exact ⟨4, hq.notes hfull hn, fun _ => rfl⟩

/-- All four loads have been accepted once the controller waits. -/
theorem accepted_ack (h : Phase mem s) (hst : s.ctrl.currSt = .rdL2Ack) (hp : Prompt i s) :
    acceptedNow i s = (List.range 4).map (doubleAddr s.ctrl.currReqAddr) := by
  rw [Phase, hst] at h
  rcases h with ⟨ha, hn⟩ | ⟨hq, hn⟩
  · exact (ha.notes (by decide) hn hp).accepted
  · rw [acceptedNow, hq.accepts_eq, hn.accepted, Option.toList_none, List.append_nil]

/-- An answer comes to a miss that still waits. -/
theorem answer_waits (h : Phase mem s) {a : BitVec 32} (ha : answer i s = some a) :
    (s.ctrl.currSt = .rdL2Req ∨ s.ctrl.currSt = .rdL2Ack) ∧ refillFull s.ctrl = false := by
  cases hst : s.ctrl.currSt <;> rw [Phase, hst] at h
  case rdL2Req =>
    refine ⟨.inl rfl, ?_⟩
    rcases h with ⟨_, _, hn⟩ | ⟨m, hm, _, _, hn⟩
    · exact hn.notFull (by decide)
    · exact hn.notFull (by omega)
  case rdL2Ack =>
    refine ⟨.inr rfl, ?_⟩
    rcases h with ⟨_, hn⟩ | ⟨hq, hn⟩
    · exact hn.notFull (by decide)
    · rw [← Bool.not_eq_true]
      intro hfull
      rw [answer, hq.outstanding_eq, full_pending hn hfull, ite_self] at ha
      cases ha
  all_goals
    rw [h.1.no_answer] at ha
    cases ha

theorem placed (h : Phase mem s) (ok : Serves mem i s) (hp : Prompt i s) {a : BitVec 32}
    (ha : answer i s = some a) : ∃ k : Fin 4, a = doubleAddr s.ctrl.currReqAddr k.val ∧
      (s.next i).ctrl.refillBufValid k = true ∧
      ∀ j, (s.next i).ctrl.refillBuf j = if j = k then mem a else s.ctrl.refillBuf j := by
  obtain ⟨hst, hfull⟩ := h.answer_waits ha
  obtain ⟨m, hnotes, _⟩ := h.notes hst hfull hp
  have hwr : s.ctrl.currSt ≠ .wrL1 := by rcases hst with hst | hst <;> rw [hst] <;> decide
  have ht : i.dmem2procTag ≠ 0 := fun h0 => by
    rw [answer, if_pos h0] at ha
    cases ha
  obtain ⟨a', hout, hdata⟩ := ok.answer ht
  have haa : a' = a := by
    rw [answer, if_neg ht, hout] at ha
    exact Option.some.inj ha
  subst haa
  obtain ⟨k, _, hak, _, hhit⟩ := hnotes.place ht hout
  refine ⟨k, hak, ?_, fun j => ?_⟩
  · simp [System.next, Dcache.next, hhit]
  · simp only [System.next, Dcache.next, hhit, hwr, decide_eq_true_eq, hdata, if_false]

theorem written (h : Phase mem s) (hst : s.ctrl.currSt = .wrL1) :
    refillLine s.ctrl = memLine mem s.ctrl.currReqAddr := by
  rw [Phase, hst] at h
  funext k
  have hk := k.isLt
  have hidx : (Fin.ofNat 4 (k.toNat / 8)).val = k.toNat / 8 := Nat.mod_eq_of_lt (by omega)
  rw [refillLine, memLine, h.2, hidx]

end Phase

/-- **A refill fetches its line** in a run whose loads are all accepted, under tags of their
own, and answered later. -/
theorem refill_fetches {tagSram : CacheWay → Sram Tag} {dataSram : CacheWay → Sram Block}
    (h : Run.Reach System.next (fun i s => Serves mem i s ∧ Prompt i s) (System.init tagSram dataSram) s)
    (i : Inputs) (ok : Serves mem i s) (hp : Prompt i s) : Fetches mem i s := by
  have hphase := h.invariant (Phase mem) (Phase.init tagSram dataSram) fun _ _ hs hok => hs.next hok.1 hok.2
  exact
    { accepted := fun hst p hp4 => by
        rw [hphase.accepted_ack hst hp]
        exact List.mem_map_of_mem (List.mem_range.2 hp4)
      placed := fun _ ha => hphase.placed ok hp ha
      written := fun hwr => ⟨rfl, hphase.written (refillEn_iff.1 hwr)⟩ }

/-! ### One line, with every load accepted and with one refused -/

/-- After reset, with cleared memories. -/
def clearedSystem : System := System.init (fun _ => ⟨fun _ => 0, 0⟩) (fun _ => ⟨fun _ => 0, 0⟩)

/-- A response, and an answer for the line at 0x200. -/
def answerIn (response tag : BitVec 4) (addr : BitVec 32) : Inputs :=
  { dmem2procResponse := response, dmem2procTag := tag, dmem2procData := Icache.addresses addr }

/-- A load that misses, accepted under the tags 1 to 4, and answered last to first. -/
def reverseIns : List Inputs :=
  [loadWord 0x200, {}, {}, answerIn 1 0 0, answerIn 2 0 0, answerIn 3 0 0, answerIn 4 3 0x210, answerIn 0 4 0x218,
    answerIn 0 2 0x208, answerIn 0 1 0x200, {}]

theorem refill_fetches_reverse : Fetches Icache.addresses {} (reverseIns.foldl (fun s i => s.next i) clearedSystem) ∧
    refillEn (reverseIns.foldl (fun s i => s.next i) clearedSystem).ctrl = true :=
  ⟨refill_fetches (.of_keeps reverseIns .init (by decide +kernel)) {} (by decide +kernel) (by decide +kernel),
    by decide +kernel⟩

/-- The second load is refused. -/
def refusedIns : List Inputs :=
  [loadWord 0x200, {}, {}, answerIn 1 0 0, {}, answerIn 2 0 0, answerIn 3 0 0]

/-- The controller waits though the memory has not accepted 0x208, and the answer for 0x210
goes into its place. -/
theorem refill_refused : ∃ s i, Run.Reach System.next (Serves Icache.addresses) clearedSystem s ∧
    Serves Icache.addresses i s ∧ s.ctrl.currSt = .rdL2Ack ∧
    ¬ Complete s.ctrl.currReqAddr (acceptedNow i s) ∧ (s.next i).ctrl.refillBuf 1 = Icache.addresses 0x210 := by
  refine ⟨refusedIns.foldl (fun s i => s.next i) clearedSystem, answerIn 0 2 0x210,
    .of_keeps refusedIns .init (by decide +kernel), by decide +kernel, by decide +kernel, fun h => ?_,
    by decide +kernel⟩
  exact absurd (h 1 (by decide)) (by decide +kernel)

end R10K.Dcache
