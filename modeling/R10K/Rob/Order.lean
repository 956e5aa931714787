import R10K.Rob.Queue

/-! The reorder buffer is an in-order queue.

On top of the queue, with writebacks of live entries only: an entry's `complete` and
`branch_misp` bits are what its own writeback said (`Inv`), so what retires was written
back under its own tag or was complete when it was dispatched. -/
namespace R10K.Rob
open Circular Lanes

/-- A retired packet is its record's, and the record is finished. -/
structure Retires (r : Record) (p : RetireRobPacket) : Prop where
  shows : Shows r p
  misp : p.branchMisp = r.redirect.isSome
  finished : r.done = true ∨ r.completeAtDispatch = true

/-- The queue with the bits its writebacks set. -/
structure Inv (c : Config) : Prop extends Queue c where
  fresh : ∀ r ∈ c.log.dispatched, r.done = false → r.redirect = none
  entry : ∀ (k : Nat) (r : Record), c.log.retired.length ≤ k → c.log.dispatched[k]? = some r →
    c.rob.robEntry (Ptr.ofCount 6 k).idx = r.entry
  order : ∀ (k : Nat) (r : Record) (p : RetireRobPacket), c.log.dispatched[k]? = some r →
    c.log.retired[k]? = some p → Retires r p

namespace Inv
variable {c : Config} {i : Inputs}

/-- A valid writeback lane that names a live record's slot names the record. -/
theorem lane_slot (hi : Inv c) (ok : Ok i c) (k : Nat) (hk : c.log.retired.length ≤ k)
    (hkt : k < c.log.dispatched.length) (w : Way) (hw : i.writebackValid w = true) :
    ((Ptr.ofCount 6 k).idx == (i.writebackRobTag w).idx) = (i.writebackRobTag w == Ptr.ofCount 6 k) := by
  obtain ⟨r, hr, htag⟩ := ok.live w hw
  have hroom := hi.room
  obtain ⟨m, hm, hget⟩ := List.getElem_of_mem hr
  simp only [Log.live, List.length_drop] at hm
  simp only [Log.live, List.getElem_drop] at hget
  have hcount := (hi.tag (c.log.retired.length + m) r (by rw [List.getElem?_eq_getElem (by omega), hget])).1
  rw [← htag, hcount, Bool.eq_iff_iff, beq_iff_eq, beq_iff_eq]
  constructor
  · intro h
    rw [Ptr.idx_inj_window (b := c.log.retired.length) (by omega) (by omega) h]
  · exact fun h => by rw [h]

/-- One cycle of writeback on a live slot is one cycle of writeback on its record. -/
theorem writeback_record (hi : Inv c) (ok : Ok i c) (k : Nat) (r : Record)
    (hk : c.log.retired.length ≤ k) (hr : c.log.dispatched[k]? = some r) :
    writeback i (Ptr.ofCount 6 k).idx r.entry = (mark i r).entry := by
  obtain ⟨hkt, hget⟩ := List.getElem?_eq_some_iff.1 hr
  obtain ⟨htag, hvalid⟩ := hi.tag k r hr
  have hfresh := hi.fresh r (hget ▸ List.getElem_mem hkt)
  have hlane := fun w => hi.lane_slot ok k hk hkt w
  have hhit : ((List.finRange 7).any fun w =>
      (Ptr.ofCount 6 k).idx == (i.writebackRobTag w).idx && i.writebackValid w) = hit i r.tag := by
    rw [hit, htag]
    congr 1
    funext w
    cases hw : i.writebackValid w
    · simp
    · simp [hlane w hw]
  have hmisp : ((Ptr.ofCount 6 k).idx == (i.writebackRobTag 5).idx && i.writebackValid 5 &&
      i.writebackBrMisp) = hitMisp i r.tag := by
    rw [hitMisp, htag]
    cases hw : i.writebackValid 5
    · simp
    · simp [hlane 5 hw]
  have hsub : hitMisp i r.tag = true → hit i r.tag = true := by
    intro h
    simp only [hitMisp, Bool.and_eq_true] at h
    simp only [hit, List.any_eq_true, Bool.and_eq_true]
    exact ⟨5, List.mem_finRange _, h.1⟩
  have hev : r.entry.valid = true := hvalid
  have hdv : (dispatch2Rob r.pkt).valid = true := hvalid
  have hec : r.entry.complete = (r.completeAtDispatch || r.done) := rfl
  rw [writeback, hev, hec, Bool.true_and, hhit, hmisp]
  by_cases hp : r.pending = true
  · have hp' : r.done = false ∧ r.completeAtDispatch = false := by simpa [Record.pending] using hp
    rw [if_pos (by simp [hp'])]
    by_cases hh : hit i r.tag = true
    · rw [mark, if_pos (by simp [hp, hh])]
      cases hm : hitMisp i r.tag <;> simp [Record.entry, hh, hdv, Record.completeAtDispatch]
    · have hm : hitMisp i r.tag = false := by
        cases h : hitMisp i r.tag
        · rfl
        · exact absurd (hsub h) hh
      rw [mark, if_neg (by simp [hh])]
      simp [Record.entry, hm, hfresh hp'.1, hp', hh, hdv]
  · have hp' : (!(r.completeAtDispatch || r.done)) = false := by
      simp only [Record.pending] at hp
      cases h1 : r.completeAtDispatch <;> cases h2 : r.done <;> simp [h1, h2] at hp ⊢
    rw [hp', if_neg (by decide), mark, if_neg (by simp [hp])]

/-- The entry `j` slots after the head is the record's `j` places after the retired. -/
theorem headEntry_record (hi : Inv c) (j : Nat) (r : Record)
    (hr : c.log.dispatched[c.log.retired.length + j]? = some r) : headEntry c.rob j = r.entry := by
  have hs := hi.slot_head (c.log.retired.length + j) (Nat.le_add_right _ _)
  rw [Nat.add_sub_cancel_left] at hs
  rw [headEntry, ← hs]
  exact hi.entry _ r (Nat.le_add_right _ _) hr

theorem retiring_record (hi : Inv c) (l : Lane) (h : retireEn c.rob l.val = true) :
    ∃ r, c.log.dispatched[c.log.retired.length + l.val]? = some r ∧ Retires r (retirePkt c.rob l) := by
  obtain ⟨r, hr, hs⟩ := hi.retiring_shows l h
  have he := hi.headEntry_record l.val r hr
  have hcomp := (retireEn_entry c.rob l.val h).2
  rw [he] at hcomp
  refine ⟨r, hr, hs, ?_, ?_⟩
  · simp only [retirePkt, he, Record.entry]
  · simpa [Record.entry, or_comm] using hcomp

/-- A retired packet, this cycle's included, is the record of its place. -/
theorem order_retiring (hi : Inv c) (k : Nat) (r : Record) (p : RetireRobPacket)
    (hr : c.log.dispatched[k]? = some r) (hp : (c.log.retired ++ retiring c.rob)[k]? = some p) :
    Retires r p := by
  by_cases hk : k < c.log.retired.length
  · rw [List.getElem?_append_left hk] at hp
    exact hi.order k r p hr hp
  · rw [List.getElem?_append_right (by omega)] at hp
    obtain ⟨hlt, rfl⟩ := List.getElem?_eq_some_iff.1 hp
    have hj := hlt
    rw [retiring_length] at hj
    have h4 := retireEnCnt_le c.rob
    obtain ⟨r₁, h₁, hs⟩ := hi.retiring_record ⟨k - c.log.retired.length, by omega⟩
      ((retireEn_iff c.rob (k - c.log.retired.length) (by omega)).2 hj)
    simp only [Nat.add_sub_cancel' (Nat.le_of_not_lt hk)] at h₁
    rw [hr] at h₁
    cases h₁
    rw [retiring_get]
    exact hs

theorem next_noFlush (hi : Inv c) (ok : Ok i c) (hf : i.pipeFlush = false) : Inv (c.next i) := by
  have hle := hi.le
  have hret := hi.retiring_le
  have hdis := hi.dispatching_le ok.toOkDispatch
  have hnew := hi.next_record hf
  obtain ⟨hdl, hrl⟩ := Log.next_length i c.rob c.log hf hle
  refine ⟨hi.toQueue.next ok.toOkDispatch, ?_, ?_, ?_⟩
  · intro r hr hd
    obtain ⟨k, hk⟩ := List.getElem?_of_mem hr
    rcases hnew k r hk with ⟨_, h⟩ | ⟨_, r₀, h, rfl⟩ | ⟨_, l, _, rfl⟩
    · exact hi.fresh r (List.mem_of_getElem? h) hd
    · unfold mark at hd ⊢
      split at hd
      · cases hd
      · rw [if_neg ‹_›]
        exact hi.fresh r₀ (List.mem_of_getElem? h) hd
    · rfl
  · intro k r hk hr
    have hkt := (List.getElem?_eq_some_iff.1 hr).1
    simp only [Config.next, hdl, hrl] at hk hkt
    simp only [Config.next, Rob.next, hf, Bool.false_eq_true, if_false]
    rw [hi.retire_window k (by omega) (by omega), if_neg (by omega)]
    rcases hnew k r hr with ⟨h, _⟩ | ⟨_, r₀, h, rfl⟩ | ⟨hkt', l, hl, rfl⟩
    · omega
    · rw [hi.allocate_live ok.toOkDispatch k (by omega) (List.getElem?_eq_some_iff.1 h).1,
        hi.entry k r₀ (by omega) h, hi.writeback_record ok k r₀ (by omega) h]
    · rw [hi.allocate_free ok.toOkDispatch k hkt' (by omega), hl]
      simp [Record.entry, Record.completeAtDispatch, dispatch2Rob]
  · intro k r p hr hp
    simp only [Config.next, Log.next, hf, Bool.false_eq_true, if_false] at hp
    rcases hnew k r hr with ⟨_, h⟩ | ⟨_, r₀, h, rfl⟩ | ⟨hk, _, _, _⟩
    · exact hi.order_retiring k r p h hp
    · -- a record that retires is finished already
      have hs := hi.order_retiring k r₀ p h hp
      rw [mark_finished i hs.finished]
      exact hs
    · have := (List.getElem?_eq_some_iff.1 hp).1
      rw [List.length_append, retiring_length] at this
      omega

theorem init : Inv Config.init := by
  refine ⟨Queue.init, ?_, ?_, ?_⟩ <;> simp [Config.init]

theorem next_flush (i : Inputs) (c : Config) (hf : i.pipeFlush = true) : Inv (c.next i) := by
  refine ⟨Queue.next_flush i c hf, ?_, ?_, ?_⟩ <;> simp [Config.next, Log.next, hf]

/-- Every cycle keeps the invariant. -/
theorem next (hi : Inv c) (ok : Ok i c) : Inv (c.next i) := by
  cases hf : i.pipeFlush
  · exact hi.next_noFlush ok hf
  · exact next_flush i c hf

/-- The invariant holds of every reachable configuration. -/
theorem of_reach {c : Config} (h : Reach c) : Inv c :=
  Run.Reach.invariant Inv init (fun _ _ hi ok => next hi ok) h

end Inv

/-- What the buffer guarantees at a configuration, its outputs included. -/
structure InOrder (c : Config) : Prop where
  /-- The valid entries are the circular window from head to tail. -/
  window : ∀ k, (c.rob.robEntry k).valid = Ptr.inWindow c.rob.head c.rob.tail k
  /-- Dispatch writes no valid entry. -/
  noOverwrite : ∀ i, Ok i c → ∀ k e, allocate i c.rob k e ≠ e → (c.rob.robEntry k).valid = false
  /-- The packets retired since the last flush, this cycle's included, are the oldest dispatched. -/
  order : List.Forall₂ Retires
    (c.log.dispatched.take (c.log.retired ++ retiring c.rob).length) (c.log.retired ++ retiring c.rob)
  /-- The retired lanes are a prefix. -/
  lanes : ∀ j k : Lane, j ≤ k → (retirePkt c.rob k).packetValid = true →
    (retirePkt c.rob j).packetValid = true
  /-- One retired branch at most. -/
  oneBranch : ∀ j k : Lane, (retirePkt c.rob j).packetValid = true →
    (retirePkt c.rob k).packetValid = true → (headEntry c.rob j.val).branch = true →
    (headEntry c.rob k.val).branch = true → j = k
  /-- Nothing retires past a packet with `branch_misp` or an exception. -/
  stops : ∀ j k : Lane, j < k → ((retirePkt c.rob j).branchMisp = true ∨
    (retirePkt c.rob j).exception ≠ .noError) → (retirePkt c.rob k).packetValid = false

/-- **The reorder buffer is an in-order queue.** -/
theorem rob_inOrder {c : Config} (h : Reach c) : InOrder c := by
  have hi := Inv.of_reach h
  have hle := hi.le
  have hroom := hi.room
  refine ⟨fun k => ?_, fun i ok k e hne => ?_, ?_, fun j k hjk hk => ?_,
    fun j k hj hk bj bk => ?_, fun j k hjk hj => ?_⟩
  · obtain ⟨n, hn1, hn2, rfl⟩ := Ptr.idx_surj (w := 6) c.log.retired.length k
    rw [hi.head, hi.tail, Bool.eq_iff_iff, Ptr.inWindow_iff hle (by omega) n ⟨hn1, hn2⟩]
    constructor
    · intro hv
      by_contra hge
      rw [hi.free n (by omega) hn2] at hv
      cases hv
    · intro hlt
      have hr := List.getElem?_eq_getElem hlt
      rw [hi.entry n _ hn1 hr]
      exact (hi.tag n _ hr).2
  · obtain ⟨n, hn1, hn2, rfl⟩ := Ptr.idx_surj (w := 6) c.log.retired.length k
    by_cases hlt : n < c.log.dispatched.length
    · exact absurd (hi.allocate_live ok.toOkDispatch n hn1 hlt e) hne
    · exact hi.free n (by omega) hn2
  · have hret := hi.retiring_le
    rw [List.forall₂_iff_get]
    refine ⟨?_, fun k h1 h2 => ?_⟩
    · rw [List.length_take, List.length_append, retiring_length]
      omega
    · rw [List.length_take] at h1
      exact hi.order_retiring k _ _
        (by rw [List.get_eq_getElem, List.getElem_take]; exact List.getElem?_eq_getElem (by omega))
        (List.getElem?_eq_getElem h2)
  · exact retireEn_of_le c.rob hjk hk
  · rcases Nat.lt_trichotomy j.val k.val with hlt | heq | hlt
    · have hno := retire_branch_lt c.rob hlt bj bk
      exact absurd (hno.symm.trans hk) (by decide)
    · exact Fin.ext heq
    · have hno := retire_branch_lt c.rob hlt bk bj
      exact absurd (hno.symm.trans hj) (by decide)
  · refine retire_stops c.rob j.val k.val hjk ?_
    rcases hj with hj | hj
    · exact Bool.or_eq_true_iff.2 (.inl hj)
    · refine Bool.or_eq_true_iff.2 (.inr ?_)
      simpa [retirePkt] using hj

/-! A group of three, a branch in the middle, written back from its end. -/

instance (i : Inputs) (c : Config) : Decidable (Ok i c) :=
  @decidable_of_iff _ ((Contiguous (fun l => (i.dispatchPkt l).packetValid) ∧
      ∀ l : Lane, l.val + 1 = dispatchPktCnt i → c.ready l = true) ∧
      ∀ w, i.writebackValid w = true → ∃ r ∈ c.log.live, r.tag = i.writebackRobTag w)
    ⟨fun h => ⟨⟨h.1.1, h.1.2⟩, h.2⟩, fun h => ⟨⟨h.contiguous, h.credit⟩, h.live⟩⟩ inferInstance

def groupIn : Inputs :=
  { idle with dispatchPkt := fun l => { condBranch := decide (l = 1), packetValid := decide (l < 3) } }

/-- The lane of a unit writes back an entry of the first round. -/
def writebackIn (way : Way) (k : BitVec 6) : Inputs :=
  { idle with writebackValid := fun w => decide (w = way), writebackRobTag := fun _ => ⟨false, k⟩ }

def groupRun : Config := [groupIn, writebackIn 0 2, writebackIn 5 1, writebackIn 1 0, idle, branchIn].foldl
  (fun c i => c.next i) .init

theorem rob_inOrder_group : groupRun.log.dispatched.length = 4 ∧ groupRun.log.retired.length = 3 ∧
    InOrder groupRun :=
  ⟨by decide +kernel, by decide +kernel, rob_inOrder (.of_keeps _ .init (by decide +kernel))⟩

end R10K.Rob
