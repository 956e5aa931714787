import R10K.Rob.Order

/-! The redirect of a mispredicted branch.

One register pair serves every branch in flight. While it is set it names the oldest
mispredicted branch since the last flush and holds that branch's own address
(`Oldest`), whatever the order in which the branches resolve; so the first
mispredicted branch to retire finds its own address there. -/
namespace R10K.Rob
open Circular Lanes

/-- The surroundings of the redirect registers, on top of `Ok`: a misprediction comes
from lane 5 under the tag of a record still waiting for its writeback, and a retired
misprediction flushes in the next cycle. -/
structure OkBranch (i : Inputs) (c : Config) : Prop extends Ok i c where
  once : i.writebackBrMisp = true → i.writebackValid 5 = true ∧
    ∃ r ∈ c.log.live, r.tag = i.writebackRobTag 5 ∧ r.pending = true
  flush : (∃ p ∈ c.log.retired, p.branchMisp = true) → i.pipeFlush = true

def ReachBranch : Config → Prop := Run.Reach Config.next OkBranch Config.init

theorem ReachBranch.reach {c : Config} (h : ReachBranch c) : Reach c :=
  Run.Reach.mono (fun _ _ ok => ok.toOk) h

/-- The registers hold the program-order oldest mispredicted branch written back since
the last flush, with its own address; clear, there is none. -/
structure Oldest (c : Config) : Prop where
  clear : c.rob.branchMisp = false → ∀ r ∈ c.log.dispatched, r.redirect = none
  set : c.rob.branchMisp = true → ∃ (m : Nat) (r : Record), c.log.dispatched[m]? = some r ∧
    c.rob.mispRob = r.tag ∧ r.redirect = some c.rob.redirectPc ∧
    ∀ (k : Nat) (r' : Record), c.log.dispatched[k]? = some r' → r'.redirect.isSome = true → m ≤ k

namespace Oldest
variable {c : Config} {i : Inputs}

theorem init : Oldest Config.init := by
  refine ⟨fun _ r hr => ?_, fun h => ?_⟩
  · cases hr
  · cases h

/-- Retired records carry no redirect, unless a flush is due. -/
theorem retired_none (hi : Inv c) (ok : OkBranch i c) (hf : i.pipeFlush = false) (k : Nat)
    (hk : k < c.log.retired.length) (r : Record) (hr : c.log.dispatched[k]? = some r) :
    r.redirect = none := by
  have hret := hi.order k r _ hr (List.getElem?_eq_getElem hk)
  cases hred : r.redirect with
  | none => rfl
  | some a =>
    have hmisp : (c.log.retired[k]).branchMisp = true := by
      rw [hret.misp, hred]
      rfl
    have := ok.flush ⟨_, List.getElem_mem hk, hmisp⟩
    rw [hf] at this
    cases this

/-- The age comparison of the source is the order of the ring. -/
theorem misp_older (a b : RobTag) :
    ((a.pos == b.pos && decide (b.idx < a.idx)) || (a.pos != b.pos && decide (a.idx < b.idx))) =
      Ptr.older b a := by
  rw [Ptr.older, Bool.beq_comm (a := b.pos), show (b.pos != a.pos) = (a.pos != b.pos) from by
    cases a.pos <;> cases b.pos <;> rfl]

/-- A record marked by a cycle keeps its redirect, or gets its own address under its own tag. -/
theorem mark_redirect (i : Inputs) (r : Record) : (mark i r).redirect = r.redirect ∨
    (r.pending = true ∧ (mark i r).redirect =
      if hitMisp i r.tag then some i.writebackRedirectPc else none) := by
  unfold mark
  split
  · rename_i h
    exact .inr ⟨(Bool.and_eq_true_iff.1 h).1, rfl⟩
  · exact .inl rfl

/-- The branch lane names one live record, and its tag no other. -/
theorem lane_record (hi : Inv c) (ok : OkBranch i c) (hm : i.writebackBrMisp = true) :
    ∃ (m : Nat) (r : Record), c.log.retired.length ≤ m ∧ c.log.dispatched[m]? = some r ∧ r.pending = true ∧
      ∀ (k : Nat) (r' : Record), c.log.retired.length ≤ k → c.log.dispatched[k]? = some r' →
        hitMisp i r'.tag = decide (k = m) := by
  obtain ⟨hv, r, hr, htag, hpend⟩ := ok.once hm
  obtain ⟨j, hj, hget⟩ := List.getElem_of_mem hr
  simp only [Log.live, List.length_drop] at hj
  simp only [Log.live, List.getElem_drop] at hget
  have hroom := hi.room
  have hrj : c.log.dispatched[c.log.retired.length + j]? = some r := by
    rw [List.getElem?_eq_getElem (by omega), hget]
  refine ⟨_, r, Nat.le_add_right _ j, hrj, hpend, fun k r' hk hr' => ?_⟩
  have hkt := (List.getElem?_eq_some_iff.1 hr').1
  rw [hitMisp, hv, hm, ← htag, (hi.tag _ _ hrj).1, (hi.tag _ _ hr').1, Bool.true_and, Bool.and_true,
    Bool.eq_iff_iff, beq_iff_eq, decide_eq_true_eq]
  constructor
  · exact fun h => (Ptr.ofCount_inj_window (b := c.log.retired.length) (by omega) (by omega) h).symm
  · exact fun h => by rw [h]

/-- A redirect of the next log is an old one or the branch lane's of this cycle. -/
theorem next_redirect (hi : Inv c) (hf : i.pipeFlush = false) (k : Nat) (r : Record)
    (hr : (c.log.next i c.rob).dispatched[k]? = some r) (hsome : r.redirect.isSome = true) :
    ∃ r₀, c.log.dispatched[k]? = some r₀ ∧ r.tag = r₀.tag ∧ (r.redirect = r₀.redirect ∨
      (c.log.retired.length ≤ k ∧ hitMisp i r₀.tag = true ∧ r.redirect = some i.writebackRedirectPc)) := by
  rcases hi.next_record hf k r hr with ⟨_, h⟩ | ⟨hk, r₀, h, rfl⟩ | ⟨_, l, _, rfl⟩
  · exact ⟨r, h, rfl, .inl rfl⟩
  · refine ⟨r₀, h, (mark_eq_iff i r₀).1, ?_⟩
    rcases mark_redirect i r₀ with hm | ⟨_, hm⟩
    · exact .inl hm
    · rw [hm] at hsome ⊢
      cases hh : hitMisp i r₀.tag
      · simp [hh] at hsome
      · exact .inr ⟨hk, rfl, rfl⟩
  · cases hsome

/-- A record with a redirect stays as it is. -/
theorem redirect_stays (hi : Inv c) (hf : i.pipeFlush = false) (k : Nat) (r : Record)
    (hr : c.log.dispatched[k]? = some r) (hsome : r.redirect.isSome = true) :
    (c.log.next i c.rob).dispatched[k]? = some r := by
  have hkt := (List.getElem?_eq_some_iff.1 hr).1
  have hdone : r.done = true := by
    cases hd : r.done with
    | true => rfl
    | false =>
      rw [hi.fresh r (List.mem_of_getElem? hr) hd] at hsome
      cases hsome
  rw [Log.next_get i c.rob c.log hf hi.le]
  split
  · exact hr
  · rw [hr, Option.map_some, mark_finished i (.inl hdone)]

/-- The branch lane's record gets the branch lane's address. -/
theorem redirect_set (hi : Inv c) (hf : i.pipeFlush = false) (k : Nat) (r : Record)
    (hk : c.log.retired.length ≤ k) (hr : c.log.dispatched[k]? = some r) (hpend : r.pending = true)
    (hhit : hitMisp i r.tag = true) :
    (c.log.next i c.rob).dispatched[k]? =
      some { r with done := true, redirect := some i.writebackRedirectPc } := by
  have hkt := (List.getElem?_eq_some_iff.1 hr).1
  have hany : hit i r.tag = true := by
    simp only [hitMisp, Bool.and_eq_true] at hhit
    exact List.any_eq_true.2 ⟨5, List.mem_finRange _, Bool.and_eq_true_iff.2 hhit.1⟩
  rw [Log.next_get i c.rob c.log hf hi.le, if_neg (by omega), if_pos hkt, hr, Option.map_some, mark,
    hpend, hany, if_pos (by decide), if_pos hhit]

/-- A cycle without a misprediction. -/
theorem next_quiet (ho : Oldest c) (hi : Inv c) (hf : i.pipeFlush = false)
    (hm : i.writebackBrMisp = false) : Oldest (c.next i) := by
  have hreg : misp i c.rob = (c.rob.mispRob, c.rob.branchMisp, c.rob.redirectPc) := by
    simp [misp, hf, hm]
  have hold : ∀ (k : Nat) (r : Record), (c.log.next i c.rob).dispatched[k]? = some r →
      r.redirect.isSome = true →
      ∃ r₀, c.log.dispatched[k]? = some r₀ ∧ r.redirect = r₀.redirect := by
    intro k r hr hsome
    obtain ⟨r₀, h₀, _, h | ⟨_, h, _⟩⟩ := next_redirect hi hf k r hr hsome
    · exact ⟨r₀, h₀, h⟩
    · simp [hitMisp, hm] at h
  refine ⟨fun hclear r hr => ?_, fun hset => ?_⟩
  · simp only [Config.next, Rob.next, hreg] at hclear
    obtain ⟨k, hk⟩ := List.getElem?_of_mem hr
    by_contra hne
    obtain ⟨r₀, h₀, heq⟩ := hold k r hk (Option.isSome_iff_ne_none.2 hne)
    exact hne (heq.trans (ho.clear hclear r₀ (List.mem_of_getElem? h₀)))
  · simp only [Config.next, Rob.next, hreg] at hset ⊢
    obtain ⟨m, r, hr, htag, hred, hmin⟩ := ho.set hset
    refine ⟨m, r, redirect_stays hi hf m r hr (by simp [hred]), htag, hred, fun k r' hr' hsome => ?_⟩
    obtain ⟨r₀, h₀, heq⟩ := hold k r' hr' hsome
    exact hmin k r₀ h₀ (heq ▸ hsome)

/-- A cycle with a misprediction on lane 5. -/
theorem next_misp (ho : Oldest c) (hi : Inv c) (ok : OkBranch i c) (hf : i.pipeFlush = false)
    (hm : i.writebackBrMisp = true) : Oldest (c.next i) := by
  obtain ⟨n, rn, hn, hrn, hpend, honly⟩ := lane_record hi ok hm
  have hhit : hitMisp i rn.tag = true := by rw [honly n rn hn hrn, decide_eq_true rfl]
  have hlane : i.writebackRobTag 5 = rn.tag := by
    simp only [hitMisp, Bool.and_eq_true, beq_iff_eq] at hhit
    exact hhit.1.2
  have hset := redirect_set hi hf n rn hn hrn hpend hhit
  have hany : (List.finRange 7).any i.writebackValid = true :=
    List.any_eq_true.2 ⟨5, List.mem_finRange _, (ok.once hm).1⟩
  have hroom := hi.room
  have hnt := (List.getElem?_eq_some_iff.1 hrn).1
  -- every redirect of the next log is an old one or record `n`'s
  have hold : ∀ (k : Nat) (r : Record), (c.log.next i c.rob).dispatched[k]? = some r →
      r.redirect.isSome = true →
      k = n ∨ ∃ r₀, c.log.dispatched[k]? = some r₀ ∧ r₀.redirect.isSome = true := by
    intro k r hr hsome
    obtain ⟨r₀, h₀, _, h | ⟨hk, h, _⟩⟩ := next_redirect hi hf k r hr hsome
    · exact .inr ⟨r₀, h₀, h ▸ hsome⟩
    · rw [honly k r₀ hk h₀, decide_eq_true_eq] at h
      exact .inl h
  cases hb : c.rob.branchMisp
  · -- the first misprediction since the flush
    have hreg : misp i c.rob = (i.writebackRobTag 5, true, i.writebackRedirectPc) := by
      simp [misp, hf, hm, hany, hb]
    refine ⟨fun h => ?_, fun _ => ⟨n, _, hset, ?_, ?_, fun k r hr hsome => ?_⟩⟩
    · simp [Config.next, Rob.next, hreg] at h
    · simp [Config.next, Rob.next, hreg, hlane]
    · simp [Config.next, Rob.next, hreg]
    · rcases hold k r hr hsome with rfl | ⟨r₀, h₀, hs⟩
      · exact Nat.le_refl _
      · rw [ho.clear hb r₀ (List.mem_of_getElem? h₀)] at hs
        cases hs
  · obtain ⟨m, r, hr, htag, hred, hmin⟩ := ho.set hb
    have hmt := (List.getElem?_eq_some_iff.1 hr).1
    have hmh : c.log.retired.length ≤ m := by
      by_contra hlt
      rw [retired_none hi ok hf m (by omega) r hr] at hred
      cases hred
    have hage : Ptr.older (i.writebackRobTag 5) c.rob.mispRob = true ↔ n < m := by
      rw [hlane, htag, (hi.tag n rn hrn).1, (hi.tag m r hr).1]
      exact Ptr.older_iff (b := c.log.retired.length) (by omega) (by omega)
    have hreg : misp i c.rob = if n < m then (i.writebackRobTag 5, true, i.writebackRedirectPc)
        else (c.rob.mispRob, true, c.rob.redirectPc) := by
      simp only [misp, hf, hm, hany, hb, misp_older, Bool.and_true, Bool.not_true, Bool.false_eq_true,
        if_false, if_true, hage]
    by_cases hlt : n < m
    · rw [if_pos hlt] at hreg
      refine ⟨fun h => ?_, fun _ => ⟨n, _, hset, ?_, ?_, fun k r' hr' hsome => ?_⟩⟩
      · simp [Config.next, Rob.next, hreg] at h
      · simp [Config.next, Rob.next, hreg, hlane]
      · simp [Config.next, Rob.next, hreg]
      · rcases hold k r' hr' hsome with rfl | ⟨r₀, h₀, hs⟩
        · exact Nat.le_refl _
        · exact Nat.le_trans (Nat.le_of_lt hlt) (hmin k r₀ h₀ hs)
    · rw [if_neg hlt] at hreg
      refine ⟨fun h => ?_, fun _ => ⟨m, r, redirect_stays hi hf m r hr (by simp [hred]), ?_, ?_,
        fun k r' hr' hsome => ?_⟩⟩
      · simp [Config.next, Rob.next, hreg] at h
      · simp [Config.next, Rob.next, hreg, htag]
      · simp [Config.next, Rob.next, hreg, hred]
      · rcases hold k r' hr' hsome with rfl | ⟨r₀, h₀, hs⟩
        · omega
        · exact hmin k r₀ h₀ hs

theorem next (ho : Oldest c) (hi : Inv c) (ok : OkBranch i c) : Oldest (c.next i) := by
  cases hf : i.pipeFlush
  · cases hm : i.writebackBrMisp
    · exact ho.next_quiet hi hf hm
    · exact ho.next_misp hi ok hf hm
  · refine ⟨fun _ r hr => ?_, fun h => ?_⟩
    · simp [Config.next, Log.next, hf] at hr
    · simp [Config.next, Rob.next, misp, hf] at h

theorem of_reach {c : Config} (h : ReachBranch c) : Oldest c :=
  (Run.Reach.invariant (fun c => Inv c ∧ Oldest c) ⟨Inv.init, init⟩
    (fun _ _ hs ok => ⟨hs.1.next ok.toOk, hs.2.next hs.1 ok⟩) h).2

end Oldest

/-- **The first mispredicted branch to retire carries its own redirect.** Its packet
is its record's, and the address is the one of that record's own writeback; at every
configuration the registers name the oldest mispredicted branch since the last flush. -/
theorem first_misp_redirect {c : Config} (h : ReachBranch c) :
    Oldest c ∧ ∀ l : Lane, (retirePkt c.rob l).packetValid = true →
      (retirePkt c.rob l).branchMisp = true → (∀ p ∈ c.log.retired, p.branchMisp = false) →
      ∃ r, c.log.dispatched[c.log.retired.length + l.val]? = some r ∧ Retires r (retirePkt c.rob l) ∧
        r.redirect = some (retirePkt c.rob l).redirectPc := by
  have ho := Oldest.of_reach h
  have hi := Inv.of_reach h.reach
  refine ⟨ho, fun l hv hmisp hfirst => ?_⟩
  obtain ⟨r, hr, hret⟩ := hi.retiring_record l hv
  have hsome : r.redirect.isSome = true := by
    rw [← hret.misp]
    exact hmisp
  cases hb : c.rob.branchMisp
  · rw [ho.clear hb r (List.mem_of_getElem? hr)] at hsome
    cases hsome
  · obtain ⟨m, rm, hrm, _, hred, hmin⟩ := ho.set hb
    have hle := hmin _ r hr hsome
    have hmt := (List.getElem?_eq_some_iff.1 hrm).1
    -- an older mispredicted branch would have retired before, or stopped this lane
    have hge : c.log.retired.length + l.val ≤ m := by
      by_contra hlt
      by_cases hmr : m < c.log.retired.length
      · have hret' := hi.order m rm _ hrm (List.getElem?_eq_getElem hmr)
        have hno := hfirst _ (List.getElem_mem hmr)
        rw [hret'.misp, hred] at hno
        cases hno
      · have hflush : flushes (headEntry c.rob (m - c.log.retired.length)) = true := by
          rw [hi.headEntry_record (m - c.log.retired.length) rm (by rwa [Nat.add_sub_cancel' (by omega)])]
          simp [flushes, Record.entry, hred]
        have hstop := retire_stops c.rob _ l.val (by omega) hflush
        exact absurd (hstop.symm.trans hv) (by decide)
    have hml : m = c.log.retired.length + l.val := by omega
    subst hml
    rw [hr] at hrm
    cases hrm
    exact ⟨r, hr, hret, hred⟩

/-- The writeback of the branch: mispredicted, redirect to `0x40`. -/
def branchOut : Inputs :=
  { idle with
    writebackValid := fun w => decide (w = 5)
    writebackBrMisp := true
    writebackRedirectPc := 0x40 }

theorem branchOut_reach : ReachBranch ((Config.init.next branchIn).next branchOut) := by
  refine .step branchOut (.step branchIn .init ⟨⟨⟨?_, ?_⟩, ?_⟩, ?_, ?_⟩) ⟨⟨⟨?_, ?_⟩, ?_⟩, ?_, ?_⟩
  · decide
  · decide
  · decide
  · decide
  · decide
  · decide
  · decide
  · decide
  · decide
  · decide

theorem first_misp_redirect_one :
    ∃ r, ((Config.init.next branchIn).next branchOut).log.dispatched[0]? = some r ∧
      r.redirect = some 0x40 := by
  obtain ⟨r, hr, _, hred⟩ := (first_misp_redirect branchOut_reach).2 0 (by decide) (by decide) (by decide)
  exact ⟨r, hr, hred⟩

end R10K.Rob
