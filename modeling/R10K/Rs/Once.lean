import R10K.Rs.Bank
import R10K.Rs.Log
import R10K.Rs.Oldest

/-! Every dispatched instruction issues once, on its own unit.

What a station holds was dispatched under the station's number and has not issued, no two
stations hold the same instruction, and nothing dispatched since the last flush is
elsewhere: it has issued or stands in a station. A station wakes for its own unit only,
and a unit with an awake station issues. -/
namespace R10K.Rs
open Lanes Select
variable {m : Nat} {i : Inputs} {s : Log m} {b : State m}

/-! ### Issue -/

/-- A station is granted by the unit of what it holds. -/
theorem Awake.way (h : Awake b) {w : Way} {k : Fin (2 ^ m)} (hen : issueEnN b w k = true) :
    (b.entry k).inUse = true ∧ (b.entry k).pkt.fuId.way = w := by
  obtain ⟨huse, hops⟩ := h.ready k w (issueEnN_wakeUp hen)
  rw [operandsReady, Bool.and_eq_true, beq_iff_eq] at hops
  exact ⟨huse, hops.2.symm⟩

theorem issueEn_iff {k : Fin (2 ^ m)} : issueEn b k = true ↔ ∃ w, issueEnN b w k = true := by
  simp [issueEn]

/-- The granted station of a unit. -/
theorem issueIdx_eq {w : Way} {k : Fin (2 ^ m)} (hen : issueEnN b w k = true) :
    onehotEnc (issueEnN b w) = k :=
  onehotEnc_eq hen fun _ hj => Sort.gnt_unique hj hen

/-- A lane carries what the granted station holds. -/
theorem issuePkt_eq {w : Way} {k : Fin (2 ^ m)} (hen : issueEnN b w k = true) :
    issuePkt b w = toIssue (b.entry k).pkt := by
  rw [issuePkt, muxOnehot_eq _ _ hen fun _ hj => Sort.gnt_unique hj hen, issuePktN,
    if_pos (issueEn_iff.2 ⟨w, hen⟩)]
  rfl

/-- **A unit with an awake station issues.** -/
theorem Awake.issues (h : Awake b) {w : Way} {k : Fin (2 ^ m)} (hk : (b.entry k).wakeUp w = true) :
    ∃ j, issueEnN b w j = true := by
  refine Sort.gnt_exists _ _ _ (k := k) ?_
  rw [rsIssueReq, h.issued k, if_neg Bool.false_ne_true, hk]

theorem mem_issuesNow (h : Awake s.bank) {e : Issue} : e ∈ s.issuesNow ↔
    ∃ w k, issueEnN s.bank w k = true ∧ e = ⟨s.number k, w, toIssue (s.bank.entry k).pkt⟩ := by
  rw [Log.issuesNow, List.mem_map]
  constructor
  · rintro ⟨w, hw, rfl⟩
    obtain ⟨k, hk, -, -⟩ := issuePkt_valid h (List.mem_filter.1 hw).2
    exact ⟨w, k, hk, by rw [issueIdx_eq hk, issuePkt_eq hk]⟩
  · rintro ⟨w, k, hk, rfl⟩
    refine ⟨w, List.mem_filter.2 ⟨List.mem_finRange w, ?_⟩, by rw [issueIdx_eq hk, issuePkt_eq hk]⟩
    rw [issuePkt_eq hk]
    rfl

/-! ### Allocation on any credit -/

/-- The free stations cover the credit. -/
def Covers (ready : Lane → Bool) (s : State m) : Prop := ∀ l : Lane, ready l = true → l.val < availCnt s

theorem Covers.dispatch_le (h : Covers s.ready s.bank) (ok : Log.Ok i s) :
    validInstCnt i ≤ availCnt s.bank := by
  have hlane : ∀ l : Lane, (i.dispatchPkt l).packetValid.toNat ≤ 1 ∧
      ((i.dispatchPkt l).packetValid.toNat = 0 ∨ l.val < availCnt s.bank) := by
    intro l
    cases hv : (i.dispatchPkt l).packetValid with
    | false => exact ⟨Nat.zero_le _, .inl rfl⟩
    | true => exact ⟨Nat.le_refl _, .inr (h l (ok l hv))⟩
  have h0 := hlane 0
  have h1 := hlane 1
  have h2 := hlane 2
  have h3 := hlane 3
  unfold validInstCnt
  simp only [show (0 : Lane).val = 0 from rfl, show (1 : Lane).val = 1 from rfl,
    show (2 : Lane).val = 2 from rfl, show (3 : Lane).val = 3 from rfl] at h0 h1 h2 h3
  omega

/-- **One edge keeps the credit covered.** -/
theorem Covers.next (h : Covers s.ready s.bank) (ok : Log.Ok i s) :
    Covers (Log.next i s).ready (Log.next i s).bank := by
  intro l hl
  have hle := h.dispatch_le ok
  have hcnt : l.val < (rsAvailCnt i s.bank).toNat := of_decide_eq_true hl
  rw [rsAvailCnt_eq hle] at hcnt
  have hnext := availCnt_next i s.bank
  show l.val < availCnt (Rs.next i s.bank)
  omega

/-- A dispatching lane loads a station of its own. -/
theorem Covers.slot (h : Covers s.ready s.bank) (ok : Log.Ok i s) {l : Lane}
    (hv : (i.dispatchPkt l).packetValid = true) :
    allocSel s.bank (allocIndex s.bank l) l = true ∧
      dispatchPktN i s.bank (allocIndex s.bank l) = i.dispatchPkt l := by
  have hself := allocSel_self (allocIndexValid_of_lt (h l (ok l hv)))
  exact ⟨hself, dispatchPktN_eq hself⟩

theorem loadLane_eq {k : Fin (2 ^ m)} {l : Lane} (hl : allocSel b k l = true) :
    onehotEnc (allocSel b k) = l :=
  onehotEnc_eq hl fun _ hj => allocSel_unique hj hl

/-- The number a valid lane's packet gets is its place in the log. -/
theorem dispatched_rank (i : Inputs) (s : Log m) {l : Lane} (hv : (i.dispatchPkt l).packetValid = true) :
    (Log.next i s).dispatched[s.dispatched.length +
      rank (fun l => (i.dispatchPkt l).packetValid) l]? = some (i.dispatchPkt l) := by
  have hget := group_rank (v := fun l => (i.dispatchPkt l).packetValid) hv
  show (s.dispatched ++ (lanes i).map i.dispatchPkt)[_]? = _
  rw [List.getElem?_append_right (Nat.le_add_right _ _), Nat.add_sub_cancel_left, List.getElem?_map, lanes,
    hget]
  rfl

theorem dispatched_old {n : Nat} {p : DispatchRsPacket} (hp : s.dispatched[n]? = some p) :
    (Log.next i s).dispatched[n]? = some p :=
  (List.getElem?_append_left (List.getElem?_eq_some_iff.1 hp).1).trans hp

/-! ### What stands in the stations -/

/-- What a station holds after an edge: what is dispatched to it now, or what it held and
did not issue. -/
theorem next_holds {k : Fin (2 ^ m)} (hk : ((Rs.next i b).entry k).inUse = true) :
    i.pipeFlush = false ∧
    ((∃ l, (i.dispatchPkt l).packetValid = true ∧ allocSel b k l = true ∧
        toIssue ((Rs.next i b).entry k).pkt = toIssue (i.dispatchPkt l)) ∨
      ((b.entry k).inUse = true ∧ issueEn b k = false ∧
        toIssue ((Rs.next i b).entry k).pkt = toIssue (b.entry k).pkt)) := by
  obtain ⟨hf, hen, ⟨l, hl, hv, -, hpkt⟩ | ⟨huse, hpkt⟩⟩ := next_cases hk
  · exact ⟨hf, .inl ⟨l, hv, hl, by rw [hpkt]; rfl⟩⟩
  · exact ⟨hf, .inr ⟨huse, hen, by rw [hpkt]; rfl⟩⟩

/-- A load without a flush. -/
theorem next_load (h : Awake b) {k : Fin (2 ^ m)} {l : Lane} (hf : i.pipeFlush = false)
    (hl : allocSel b k l = true) (hv : (i.dispatchPkt l).packetValid = true) :
    ((Rs.next i b).entry k).inUse = true ∧
      toIssue ((Rs.next i b).entry k).pkt = toIssue (i.dispatchPkt l) := by
  have hen := h.issueEn_free (allocSel_free hl)
  have hload := dispatchPktN_eq (i := i) hl
  simp only [Rs.next, nextEntry, hf, hen, hload, hv, Bool.false_eq_true, if_false, if_true]
  exact ⟨rfl, rfl⟩

/-- A station that does not issue keeps what it holds without a flush. -/
theorem next_keep {k : Fin (2 ^ m)} (hf : i.pipeFlush = false) (huse : (b.entry k).inUse = true)
    (hen : issueEn b k = false) : ((Rs.next i b).entry k).inUse = true ∧
      toIssue ((Rs.next i b).entry k).pkt = toIssue (b.entry k).pkt := by
  have hload := inUse_unloaded (i := i) huse
  simp only [Rs.next, nextEntry, hf, hen, hload, huse, Bool.false_eq_true, if_false]
  exact ⟨rfl, rfl⟩

theorem next_number {k : Fin (2 ^ m)} (huse : (s.bank.entry k).inUse = true) :
    (Log.next i s).number k = s.number k :=
  if_neg (by rw [inUse_unloaded huse]; exact Bool.false_ne_true)

/-- **What stands in a station after an edge**: what is dispatched now, or what stood there
and did not issue. -/
theorem next_stands {k : Fin (2 ^ m)} (hk : ((Log.next i s).bank.entry k).inUse = true) :
    i.pipeFlush = false ∧
    ((∃ l, (i.dispatchPkt l).packetValid = true ∧ allocSel s.bank k l = true ∧
        (Log.next i s).number k = s.dispatched.length + rank (fun l => (i.dispatchPkt l).packetValid) l ∧
        toIssue ((Log.next i s).bank.entry k).pkt = toIssue (i.dispatchPkt l)) ∨
      ((s.bank.entry k).inUse = true ∧ issueEn s.bank k = false ∧ (Log.next i s).number k = s.number k ∧
        toIssue ((Log.next i s).bank.entry k).pkt = toIssue (s.bank.entry k).pkt)) := by
  obtain ⟨hf, ⟨l, hv, hl, hpkt⟩ | ⟨huse, hen, hpkt⟩⟩ := next_holds (i := i) (b := s.bank) hk
  · refine ⟨hf, .inl ⟨l, hv, hl, ?_, hpkt⟩⟩
    show (if (dispatchPktN i s.bank k).packetValid then _ else _) = _
    rw [dispatchPktN_eq hl, hv, if_pos rfl, loadLane_eq hl]
  · exact ⟨hf, .inr ⟨huse, hen, next_number huse, hpkt⟩⟩

/-- Instruction `n` stands in station `k`, as it was dispatched. -/
structure Stands (s : Log m) (n : Nat) (k : Fin (2 ^ m)) : Prop where
  inUse : (s.bank.entry k).inUse = true
  number : s.number k = n
  pkt : ∃ p, s.dispatched[n]? = some p ∧ toIssue (s.bank.entry k).pkt = toIssue p

structure Held (s : Log m) : Prop where
  awake : Awake s.bank
  covers : Covers s.ready s.bank
  mark : s.flushMark ≤ s.dispatched.length
  stands : ∀ k, (s.bank.entry k).inUse = true → Stands s (s.number k) k
  since : ∀ k, (s.bank.entry k).inUse = true → s.flushMark ≤ s.number k
  apart : ∀ k k', (s.bank.entry k).inUse = true → (s.bank.entry k').inUse = true →
    s.number k = s.number k' → k = k'
  waits : ∀ k, (s.bank.entry k).inUse = true → ∀ e ∈ s.issues, e.number ≠ s.number k
  all : ∀ n, s.flushMark ≤ n → n < s.dispatched.length →
    (∃ e ∈ s.issues, e.number = n) ∨ ∃ k, (s.bank.entry k).inUse = true ∧ s.number k = n
  once : (s.issues.map Issue.number).Nodup
  own : ∀ e ∈ s.issues, ∃ p, s.dispatched[e.number]? = some p ∧ p.fuId.way = e.way ∧ e.pkt = toIssue p

namespace Held

theorem number_lt (h : Held s) {k : Fin (2 ^ m)} (hk : (s.bank.entry k).inUse = true) :
    s.number k < s.dispatched.length := by
  obtain ⟨p, hp, -⟩ := (h.stands k hk).pkt
  exact (List.getElem?_eq_some_iff.1 hp).1

/-- The instructions issued now stand in stations, each in its own. -/
theorem issuesNow_once (h : Held s) : (s.issuesNow.map Issue.number).Nodup := by
  rw [Log.issuesNow, List.map_map]
  refine List.Nodup.map_on (fun w hw w' hw' he => ?_) ((List.nodup_finRange 7).filter _)
  obtain ⟨k, hk, -, -⟩ := issuePkt_valid h.awake (List.mem_filter.1 hw).2
  obtain ⟨k', hk', -, -⟩ := issuePkt_valid h.awake (List.mem_filter.1 hw').2
  simp only [Function.comp_apply, issueIdx_eq hk, issueIdx_eq hk'] at he
  have hkk := h.apart k k' (h.awake.way hk).1 (h.awake.way hk').1 he
  rw [← (h.awake.way hk).2, ← (h.awake.way hk').2, hkk]

theorem next_mark (h : Held s) : (Log.next i s).flushMark ≤ (Log.next i s).dispatched.length := by
  have hlen : (Log.next i s).dispatched.length = s.dispatched.length + (lanes i).length := by
    simp [Log.next]
  rw [hlen]
  show (if i.pipeFlush then _ else _) ≤ _
  have := h.mark
  split <;> omega

theorem stands_next (h : Held s) {k : Fin (2 ^ m)} (hk : ((Log.next i s).bank.entry k).inUse = true) :
    Stands (Log.next i s) ((Log.next i s).number k) k := by
  refine ⟨hk, rfl, ?_⟩
  obtain ⟨-, ⟨l, hv, hl, hn, hpkt⟩ | ⟨huse, -, hn, hpkt⟩⟩ := next_stands hk
  · exact ⟨_, hn ▸ dispatched_rank i s hv, hpkt⟩
  · obtain ⟨p, hp, hsame⟩ := (h.stands k huse).pkt
    exact ⟨p, hn ▸ dispatched_old hp, hpkt.trans hsame⟩

theorem next_since (h : Held s) {k : Fin (2 ^ m)} (hk : ((Log.next i s).bank.entry k).inUse = true) :
    (Log.next i s).flushMark ≤ (Log.next i s).number k := by
  obtain ⟨hf, ⟨l, hv, hl, hn, -⟩ | ⟨huse, -, hn, -⟩⟩ := next_stands hk
  · rw [hn, Log.next, hf, if_neg Bool.false_ne_true]
    exact h.mark.trans (Nat.le_add_right _ _)
  · rw [hn, Log.next, hf, if_neg Bool.false_ne_true]
    exact h.since k huse

/-- Two stations never hold one instruction: two lanes get two numbers, and the number of
a lane is past every number that stands. -/
theorem next_apart (h : Held s) {k k' : Fin (2 ^ m)}
    (hk : ((Log.next i s).bank.entry k).inUse = true) (hk' : ((Log.next i s).bank.entry k').inUse = true)
    (he : (Log.next i s).number k = (Log.next i s).number k') : k = k' := by
  obtain ⟨-, ⟨l, hv, hl, hn, -⟩ | ⟨huse, -, hn, -⟩⟩ := next_stands hk <;>
    obtain ⟨-, ⟨l', hv', hl', hn', -⟩ | ⟨huse', -, hn', -⟩⟩ := next_stands hk'
  · have hll : l = l' := rank_inj (v := fun l => (i.dispatchPkt l).packetValid) hv hv' (by omega)
    rw [(allocSel_index hl).1, (allocSel_index hl').1, hll]
  · have := h.number_lt huse'
    omega
  · have := h.number_lt huse
    omega
  · exact h.apart k k' huse huse' (by omega)

/-- What is issued, now or before, was dispatched before. -/
theorem issued_lt (h : Held s) {e : Issue} (he : e ∈ s.issues ++ s.issuesNow) :
    e.number < s.dispatched.length := by
  rcases List.mem_append.1 he with he | he
  · obtain ⟨p, hp, -⟩ := h.own e he
    exact (List.getElem?_eq_some_iff.1 hp).1
  · obtain ⟨w, j, hj, rfl⟩ := (mem_issuesNow h.awake).1 he
    exact h.number_lt (h.awake.way hj).1

/-- An instruction that stands after the edge was not issued. -/
theorem next_waits (h : Held s) {k : Fin (2 ^ m)} (hk : ((Log.next i s).bank.entry k).inUse = true)
    {e : Issue} (he : e ∈ s.issues ++ s.issuesNow) : e.number ≠ (Log.next i s).number k := by
  obtain ⟨-, ⟨l, -, -, hn, -⟩ | ⟨huse, hen, hn, -⟩⟩ := next_stands hk
  · have := h.issued_lt he
    omega
  · rw [hn]
    rcases List.mem_append.1 he with he | he
    · exact h.waits k huse e he
    · obtain ⟨w, j, hj, rfl⟩ := (mem_issuesNow h.awake).1 he
      intro hjk
      have := h.apart j k (h.awake.way hj).1 huse hjk
      subst this
      rw [issueEn_iff.2 ⟨w, hj⟩] at hen
      cases hen

/-- An instruction that stood is issued now or still stands. -/
theorem stood (h : Held s) {k : Fin (2 ^ m)} (hf : i.pipeFlush = false)
    (hk : (s.bank.entry k).inUse = true) :
    (∃ e ∈ (Log.next i s).issues, e.number = s.number k) ∨
      ∃ j, ((Log.next i s).bank.entry j).inUse = true ∧ (Log.next i s).number j = s.number k := by
  cases hen : issueEn s.bank k with
  | true =>
    obtain ⟨w, hw⟩ := issueEn_iff.1 hen
    exact .inl ⟨_, List.mem_append_right _ ((mem_issuesNow h.awake).2 ⟨w, k, hw, rfl⟩), rfl⟩
  | false => exact .inr ⟨k, (next_keep hf hk hen).1, next_number hk⟩

/-- An instruction dispatched now gets a station. -/
theorem lands (h : Held s) (ok : Log.Ok i s) {n : Nat} (hf : i.pipeFlush = false)
    (hn : s.dispatched.length ≤ n) (hlt : n < (Log.next i s).dispatched.length) :
    ∃ j, ((Log.next i s).bank.entry j).inUse = true ∧ (Log.next i s).number j = n := by
  have hidx : n - s.dispatched.length < (lanes i).length := by
    simp only [Log.next, List.length_append, List.length_map] at hlt
    omega
  have hget := List.getElem?_eq_getElem hidx
  have hv := mem_group.1 (List.getElem_mem hidx)
  obtain ⟨hself, hpkt⟩ := h.covers.slot ok hv
  refine ⟨allocIndex s.bank ((lanes i).get ⟨_, hidx⟩), (next_load h.awake hf hself hv).1, ?_⟩
  show (if (dispatchPktN i s.bank _).packetValid then _ else _) = n
  rw [List.get_eq_getElem, hpkt, hv, if_pos rfl, loadLane_eq hself, rank_eq hget]
  omega

/-- Nothing dispatched since the last flush is lost. -/
theorem next_all (h : Held s) (ok : Log.Ok i s) {n : Nat} (hmark : (Log.next i s).flushMark ≤ n)
    (hlt : n < (Log.next i s).dispatched.length) :
    (∃ e ∈ (Log.next i s).issues, e.number = n) ∨
      ∃ k, ((Log.next i s).bank.entry k).inUse = true ∧ (Log.next i s).number k = n := by
  cases hf : i.pipeFlush with
  | true =>
    -- the mark is past everything dispatched
    simp only [Log.next, hf, if_true, List.length_append, List.length_map] at hmark hlt
    omega
  | false =>
    simp only [Log.next, hf, Bool.false_eq_true, if_false] at hmark
    rcases Nat.lt_or_ge n s.dispatched.length with hn | hn
    · rcases h.all n hmark hn with ⟨e, he, rfl⟩ | ⟨k, hk, rfl⟩
      · exact .inl ⟨e, List.mem_append_left _ he, rfl⟩
      · exact h.stood hf hk
    · exact .inr (h.lands ok hf hn hlt)

theorem next_once (h : Held s) : ((Log.next i s).issues.map Issue.number).Nodup := by
  rw [Log.next, List.map_append, List.nodup_append]
  refine ⟨h.once, h.issuesNow_once, fun a ha b hb hab => ?_⟩
  obtain ⟨e, he, rfl⟩ := List.mem_map.1 ha
  obtain ⟨e', he', rfl⟩ := List.mem_map.1 hb
  obtain ⟨w, k, hk, rfl⟩ := (mem_issuesNow h.awake).1 he'
  exact h.waits k (h.awake.way hk).1 e he hab

/-- An issue carries what was dispatched under its number. -/
theorem next_carries (h : Held s) {e : Issue} (he : e ∈ (Log.next i s).issues) :
    ∃ p, (Log.next i s).dispatched[e.number]? = some p ∧ p.fuId.way = e.way ∧ e.pkt = toIssue p := by
  rcases List.mem_append.1 he with he | he
  · obtain ⟨p, hp, hown⟩ := h.own e he
    exact ⟨p, dispatched_old hp, hown⟩
  · obtain ⟨w, k, hk, rfl⟩ := (mem_issuesNow h.awake).1 he
    obtain ⟨p, hp, hsame⟩ := (h.stands k (h.awake.way hk).1).pkt
    refine ⟨p, dispatched_old hp, ?_, hsame⟩
    rw [← (h.awake.way hk).2]
    exact congrArg (fun q => q.fuId.way) hsame.symm

/-- **One edge.** -/
theorem next (h : Held s) (ok : Log.Ok i s) : Held (Log.next i s) where
  awake := h.awake.next i
  covers := h.covers.next ok
  mark := h.next_mark
  stands := fun _ hk => h.stands_next hk
  since := fun _ hk => h.next_since hk
  apart := fun _ _ hk hk' he => h.next_apart hk hk' he
  waits := fun _ hk _ he => h.next_waits hk he
  all := fun _ hmark hlt => h.next_all ok hmark hlt
  once := h.next_once
  own := fun _ he => h.next_carries he

theorem init (m : Nat) : Held (Log.init m) where
  awake := .init
  covers := by
    intro l hl
    show l.val < availCnt (reset m)
    rw [availCnt_reset]
    exact of_decide_eq_true hl
  mark := Nat.le_refl _
  stands := fun _ hk => by cases hk
  since := fun _ hk => by cases hk
  apart := fun _ _ hk => by cases hk
  waits := fun _ hk => by cases hk
  all := fun n _ hlt => by cases hlt
  once := List.nodup_nil
  own := fun _ he => by cases he

end Held

/-- A cycle in which nothing happens outside the bank. -/
def idle : Inputs where
  pipeFlush := false
  dispatchPkt := fun _ => {}
  cdbValid := fun _ => false
  cdbPrn := fun _ => 0

theorem idle_ok : Log.Ok idle s := fun _ hv => by cases hv

theorem idle_dispatched : (Log.next idle s).dispatched = s.dispatched := List.append_nil _

/-- What has issued and what issues now, in a bank of stations. -/
structure IssuesOnce (s : Log m) : Prop where
  lane : ∀ w k k', issueEnN s.bank w k = true → issueEnN s.bank w k' = true → k = k'
  once : ((s.issues ++ s.issuesNow).map Issue.number).Nodup
  own : ∀ e ∈ s.issues ++ s.issuesNow,
    ∃ p, s.dispatched[e.number]? = some p ∧ p.fuId.way = e.way ∧ e.pkt = toIssue p
  stays : ∀ n, s.flushMark ≤ n → n < s.dispatched.length →
    (∃ e ∈ s.issues, e.number = n) ∨ ∃ k, Stands s n k
  waits : ∀ n k, Stands s n k → ∀ e ∈ s.issues, e.number ≠ n
  issue : ∀ w k, (s.bank.entry k).wakeUp w = true →
    ∃ j, (s.bank.entry j).inUse = true ∧ (s.bank.entry j).pkt.fuId.way = w ∧ issueEnN s.bank w j = true ∧
      issuePkt s.bank w = toIssue (s.bank.entry j).pkt
  awake : ∀ k w, (s.bank.entry k).wakeUp w = true → (s.bank.entry k).inUse = true ∧
    ((s.bank.entry k).pkt.useOp1Prn = true → (s.bank.entry k).pkt.op1Ready = true) ∧
    ((s.bank.entry k).pkt.useOp2Prn = true → (s.bank.entry k).pkt.op2Ready = true)

theorem Held.issuesOnce (h : Held s) : IssuesOnce s where
  lane := fun _ _ _ => Sort.gnt_unique
  once := (h.next (i := idle) idle_ok).once
  own := by
    intro e he
    obtain ⟨p, hp, hown⟩ := (h.next (i := idle) idle_ok).own e he
    rw [idle_dispatched] at hp
    exact ⟨p, hp, hown⟩
  stays := by
    intro n hmark hlt
    rcases h.all n hmark hlt with he | ⟨k, hk, rfl⟩
    · exact .inl he
    · exact .inr ⟨k, h.stands k hk⟩
  waits := fun n k hs e he hn => h.waits k hs.inUse e he (hn.trans hs.number.symm)
  issue := by
    intro w k hk
    obtain ⟨j, hj⟩ := h.awake.issues hk
    exact ⟨j, (h.awake.way hj).1, (h.awake.way hj).2, hj, issuePkt_eq hj⟩
  awake := by
    intro k w hk
    obtain ⟨huse, hops⟩ := h.awake.ready k w hk
    simp only [operandsReady, Bool.and_eq_true, Bool.or_eq_true, Bool.not_eq_true'] at hops
    refine ⟨huse, fun hu => hops.1.1.resolve_right ?_, fun hu => hops.1.2.resolve_right ?_⟩
    · rw [hu]
      exact Bool.noConfusion
    · rw [hu]
      exact Bool.noConfusion

/-- **Each dispatched instruction issues once, to its own unit**, in every run on the
bank's credit. -/
theorem issues_once (h : Log.Reach s) : IssuesOnce s :=
  Held.issuesOnce (h.invariant Held (.init m) fun _ _ hs hok => hs.next hok)

/-- A branch that waits for register 1, one without operands and an addition. -/
def groupIn : Inputs where
  pipeFlush := false
  dispatchPkt := fun l =>
    if l = 0 then { fuId := .bru0, op1Prn := 1, useOp1Prn := true, packetValid := true }
    else if l = 1 then { fuId := .bru0, packetValid := true }
    else if l = 2 then { fuId := .alu2, packetValid := true }
    else {}
  cdbValid := fun _ => false
  cdbPrn := fun _ => 0

/-- Register 1 is broadcast. -/
def wakeIn : Inputs := { idle with cdbValid := fun w => decide (w = 0), cdbPrn := fun _ => 1 }

instance {m : Nat} (i : Inputs) (s : Log m) : Decidable (Log.Ok i s) := inferInstanceAs (Decidable (∀ _, _ → _))

def groupRun : Log 3 := [groupIn, wakeIn, idle, idle].foldl (fun s i => s.next i) (.init 3)

/-- The addition and the second branch issue in the cycle after they were dispatched, the
first branch once its operand is there. -/
theorem issues_once_group : groupRun.issues.map Issue.number = [2, 1, 0] ∧ groupRun.issues.map Issue.way = [2, 5, 5] ∧
    IssuesOnce groupRun :=
  ⟨by decide +kernel, by decide +kernel, issues_once (.of_keeps _ .init (by decide +kernel))⟩

end R10K.Rs
