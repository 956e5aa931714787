import R10K.Lib.Slots
import R10K.Rob.Pointers

/-! The reorder buffer as a queue, whatever is written back.

`Queue` ties the buffer to its log: pointers stand at the counts, the slot of every
live record holds what was dispatched, the other slots are invalid, and a retired
packet shows its record. None of this depends on the writeback lanes: they change the
`complete` and `branch_misp` bits only. One cycle keeps it (`Queue.next`). -/
namespace R10K.Rob
open Circular Lanes

/-- An entry holds a dispatched packet; writeback may have set its two bits. -/
def Keeps (e : RobEntry) (p : DispatchRobPacket) : Prop :=
  e = { dispatch2Rob p with complete := e.complete, branchMisp := e.branchMisp }

/-- A retired packet shows a record: its fields as dispatched, and the slot of its tag. -/
def Shows (r : Record) (p : RetireRobPacket) : Prop :=
  p = { pc := r.pkt.pc, destArn := r.pkt.destArn, destPrn := r.pkt.destPrn
        destPrnPrev := r.pkt.destPrnPrev, stqTag := r.pkt.stqTag, ldqTag := r.pkt.ldqTag
        rdMem := r.pkt.rdMem, wrMem := r.pkt.wrMem, branchMisp := p.branchMisp
        redirectPc := p.redirectPc, exception := (dispatch2Rob r.pkt).exception
        robTag := ⟨p.robTag.pos, r.tag.idx⟩, packetValid := true }

/-- What ties the buffer to its log. -/
structure Queue (c : Config) : Prop where
  head : c.rob.head = Ptr.ofCount 6 c.log.retired.length
  tail : c.rob.tail = Ptr.ofCount 6 c.log.dispatched.length
  le : c.log.retired.length ≤ c.log.dispatched.length
  room : c.log.dispatched.length ≤ c.log.retired.length + 64
  credit : ∀ l : Lane, c.ready l = true → c.log.dispatched.length + l.val + 1 ≤ c.log.retired.length + 64
  tag : ∀ (k : Nat) (r : Record), c.log.dispatched[k]? = some r →
    r.tag = Ptr.ofCount 6 k ∧ r.pkt.packetValid = true
  slot : ∀ (k : Nat) (r : Record), c.log.retired.length ≤ k → c.log.dispatched[k]? = some r →
    Keeps (c.rob.robEntry (Ptr.ofCount 6 k).idx) r.pkt
  free : ∀ k, c.log.dispatched.length ≤ k → k < c.log.retired.length + 64 →
    (c.rob.robEntry (Ptr.ofCount 6 k).idx).valid = false
  shows : ∀ (k : Nat) (r : Record) (p : RetireRobPacket), c.log.dispatched[k]? = some r →
    c.log.retired[k]? = some p → Shows r p

/-! ### Retirement -/

/-- The retiring lanes, in order, are the first `retire_en_cnt`. -/
theorem group_retireEn (s : State) :
    (group fun l => retireEn s l.val) = (List.finRange 4).take (retireEnCnt s) := by
  have h1 := retireEn_prev s 0
  have h2 := retireEn_prev s 1
  have h3 := retireEn_prev s 2
  have hf : List.finRange 4 = [0, 1, 2, 3] := rfl
  rw [group_eq, hf]
  simp only [retireEnCnt]
  cases h0 : retireEn s 0 <;> cases h1' : retireEn s 1 <;> cases h2' : retireEn s 2 <;>
    cases h3' : retireEn s 3 <;> simp_all

theorem retiring_length (s : State) : (retiring s).length = retireEnCnt s := by
  have := retireEnCnt_le s
  rw [retiring, group_retireEn, List.length_map, List.length_take, List.length_finRange]
  omega

theorem retiring_get (s : State) (j : Nat) (hj : j < (retiring s).length) :
    (retiring s)[j] = retirePkt s ⟨j, by rw [retiring_length] at hj; have := retireEnCnt_le s; omega⟩ := by
  simp only [retiring, group_retireEn, List.getElem_map, List.getElem_take, List.getElem_finRange]
  rfl

theorem retire_slot (s : State) (j : Nat) (hj : j < 64) (e : RobEntry) :
    retire s (s.headPtr + BitVec.ofNat 6 j) e =
      if j < retireEnCnt s then { e with valid := false } else e := by
  have hiff : ((List.range 4).any fun m =>
      retireEn s m && s.headPtr + BitVec.ofNat 6 j == s.headPtr + BitVec.ofNat 6 m) = true ↔
      j < retireEnCnt s := by
    simp only [List.any_eq_true, List.mem_range, Bool.and_eq_true]
    constructor
    · rintro ⟨m, hm, hen, hslot⟩
      rw [slot_beq _ hj (by omega), decide_eq_true_eq] at hslot
      rw [hslot]
      exact (retireEn_iff s m hm).1 hen
    · intro h
      have := retireEnCnt_le s
      have hj4 : j < 4 := by omega
      exact ⟨j, hj4, (retireEn_iff s j hj4).2 h, by simp⟩
  rw [retire]
  by_cases h : j < retireEnCnt s
  · rw [if_pos (hiff.2 h), if_pos h]
  · rw [if_neg (fun hn => h (hiff.1 hn)), if_neg h]

namespace Queue
variable {c : Config} {i : Inputs}

/-- The slot of a count is reached from the head pointer. -/
theorem slot_head (hq : Queue c) (k : Nat) (hk : c.log.retired.length ≤ k) :
    (Ptr.ofCount 6 k).idx = c.rob.headPtr + BitVec.ofNat 6 (k - c.log.retired.length) := by
  have hp : c.rob.headPtr = (Ptr.ofCount 6 c.log.retired.length).idx := by rw [← hq.head]; rfl
  rw [hp, ← Ptr.idx_add, Nat.add_sub_cancel' hk]

theorem slot_tail (hq : Queue c) (k : Nat) (hk : c.log.dispatched.length ≤ k) :
    (Ptr.ofCount 6 k).idx = c.rob.tailPtr + BitVec.ofNat 6 (k - c.log.dispatched.length) := by
  have hp : c.rob.tailPtr = (Ptr.ofCount 6 c.log.dispatched.length).idx := by rw [← hq.tail]; rfl
  rw [hp, ← Ptr.idx_add, Nat.add_sub_cancel' hk]

/-- What retires was dispatched. -/
theorem retiring_le (hq : Queue c) :
    c.log.retired.length + retireEnCnt c.rob ≤ c.log.dispatched.length := by
  have hle := hq.le
  have h4 := retireEnCnt_le c.rob
  by_contra hgt
  have hj : c.log.dispatched.length - c.log.retired.length < 4 := by omega
  have hen := (retireEn_iff c.rob _ hj).2 (by omega)
  have hv := (retireEn_entry c.rob _ hen).1
  have hs := hq.slot_head c.log.dispatched.length hle
  have hf := hq.free c.log.dispatched.length (Nat.le_refl _) (by omega)
  rw [hs] at hf
  rw [headEntry, hf] at hv
  cases hv

/-- What is dispatched has room. -/
theorem dispatching_le (hq : Queue c) (ok : OkDispatch i c) :
    c.log.dispatched.length + dispatchPktCnt i ≤ c.log.retired.length + 64 := by
  have h4 := dispatchPktCnt_le i
  have hroom := hq.room
  rcases Nat.eq_zero_or_pos (dispatchPktCnt i) with h0 | hpos
  · omega
  · have hl : dispatchPktCnt i - 1 < 4 := by omega
    have := hq.credit ⟨_, hl⟩ (ok.credit ⟨_, hl⟩ (by simp only; omega))
    simp only at this
    omega

/-- The entry `j` slots after the head holds the record `j` places after the retired. -/
theorem headEntry_keeps (hq : Queue c) (j : Nat) (r : Record)
    (hr : c.log.dispatched[c.log.retired.length + j]? = some r) : Keeps (headEntry c.rob j) r.pkt := by
  have hs := hq.slot_head (c.log.retired.length + j) (Nat.le_add_right _ _)
  rw [Nat.add_sub_cancel_left] at hs
  rw [headEntry, ← hs]
  exact hq.slot _ r (Nat.le_add_right _ _) hr

/-- The packet a retiring lane shows is its record's. -/
theorem retiring_shows (hq : Queue c) (l : Lane) (h : retireEn c.rob l.val = true) :
    ∃ r, c.log.dispatched[c.log.retired.length + l.val]? = some r ∧ Shows r (retirePkt c.rob l) := by
  have hlt := (retireEn_iff c.rob l.val l.isLt).1 h
  have hle := hq.retiring_le
  have hget := List.getElem?_eq_getElem (show c.log.retired.length + l.val < c.log.dispatched.length by omega)
  refine ⟨_, hget, ?_⟩
  have he := hq.headEntry_keeps l.val _ hget
  have ht := (hq.tag _ _ hget).1
  have hs := hq.slot_head (c.log.retired.length + l.val) (Nat.le_add_right _ _)
  rw [Nat.add_sub_cancel_left] at hs
  rw [Keeps] at he
  rw [Shows]
  simp only [retirePkt, h, ht, hs]
  rw [he]
  rfl

end Queue

/-! ### The log after a cycle -/

theorem mark_eq_iff (i : Inputs) (r : Record) : (mark i r).tag = r.tag ∧ (mark i r).pkt = r.pkt := by
  unfold mark
  split <;> exact ⟨rfl, rfl⟩

theorem mark_finished (i : Inputs) {r : Record} (h : r.done = true ∨ r.completeAtDispatch = true) :
    mark i r = r := by
  have hp : r.pending = false := by
    rcases h with h | h <;> simp [Record.pending, h]
  rw [mark, hp, Bool.false_and, if_neg (by decide)]

theorem Log.next_get (i : Inputs) (s : State) (l : Log) (hf : i.pipeFlush = false)
    (hle : l.retired.length ≤ l.dispatched.length) (k : Nat) :
    (l.next i s).dispatched[k]? =
      if k < l.retired.length then l.dispatched[k]?
      else if k < l.dispatched.length then l.dispatched[k]?.map (mark i)
      else (dispatching i s)[k - l.dispatched.length]? := by
  have hd : (l.next i s).dispatched =
      l.dispatched.take l.retired.length ++ (l.dispatched.drop l.retired.length).map (mark i) ++
        dispatching i s := by
    simp only [Log.next, hf, Bool.false_eq_true, if_false, Log.live]
  have hlen : (l.dispatched.take l.retired.length).length = l.retired.length := by
    rw [List.length_take]
    omega
  rw [hd, List.append_assoc]
  by_cases h1 : k < l.retired.length
  · rw [if_pos h1, List.getElem?_append_left (by omega), List.getElem?_take_of_lt h1]
  · rw [if_neg h1, List.getElem?_append_right (by omega), hlen]
    by_cases h2 : k < l.dispatched.length
    · rw [if_pos h2, List.getElem?_append_left (by simp only [List.length_map, List.length_drop]; omega),
        List.getElem?_map, List.getElem?_drop, Nat.add_sub_cancel' (by omega)]
    · rw [if_neg h2, List.getElem?_append_right (by simp only [List.length_map, List.length_drop]; omega)]
      congr 1
      simp only [List.length_map, List.length_drop]
      omega

theorem Log.next_length (i : Inputs) (s : State) (l : Log) (hf : i.pipeFlush = false)
    (hle : l.retired.length ≤ l.dispatched.length) :
    (l.next i s).dispatched.length = l.dispatched.length + dispatchPktCnt i ∧
      (l.next i s).retired.length = l.retired.length + retireEnCnt s := by
  constructor
  · simp only [Log.next, hf, Bool.false_eq_true, if_false, Log.live, List.length_append,
      List.length_take, List.length_map, List.length_drop, dispatching, dispatchPktCnt_eq]
    omega
  · simp only [Log.next, hf, Bool.false_eq_true, if_false, List.length_append, retiring_length]

/-! ### One cycle -/

/-- Writeback keeps what was dispatched, and changes no invalid entry. -/
theorem writeback_keeps (i : Inputs) (k : BitVec 6) {e : RobEntry} {p : DispatchRobPacket}
    (h : Keeps e p) : Keeps (writeback i k e) p := by
  rw [Keeps] at h ⊢
  unfold writeback
  split
  · rw [h]
  · exact h

namespace Queue
variable {c : Config} {i : Inputs}

theorem retire_window (hq : Queue c) (k : Nat) (hk : c.log.retired.length ≤ k)
    (hlt : k < c.log.retired.length + 64) (e : RobEntry) :
    retire c.rob (Ptr.ofCount 6 k).idx e =
      if k < c.log.retired.length + retireEnCnt c.rob then { e with valid := false } else e := by
  rw [hq.slot_head k hk, retire_slot _ _ (by omega)]
  by_cases h : k < c.log.retired.length + retireEnCnt c.rob
  · rw [if_pos (by omega), if_pos h]
  · rw [if_neg (by omega), if_neg h]

/-- Allocation leaves the live slots alone: they are a whole ring before its reach. -/
theorem allocate_live (hq : Queue c) (ok : OkDispatch i c) (k : Nat) (hk : c.log.retired.length ≤ k)
    (hkt : k < c.log.dispatched.length) (e : RobEntry) :
    allocate i c.rob (Ptr.ofCount 6 k).idx e = e := by
  have hroom := hq.dispatching_le ok
  have hgl := dispatchPktCnt_eq i
  rw [← Ptr.idx_add_ring, hq.slot_tail (k + 2 ^ 6) (by have := hq.room; omega),
    allocate_slot _ _ ok.contiguous _ (by omega), List.getElem?_eq_none (by omega)]
  rfl

theorem allocate_free (hq : Queue c) (ok : OkDispatch i c) (k : Nat) (hk : c.log.dispatched.length ≤ k)
    (hlt : k < c.log.dispatched.length + 64) (e : RobEntry) :
    allocate i c.rob (Ptr.ofCount 6 k).idx e =
      ((group fun l => (i.dispatchPkt l).packetValid)[k - c.log.dispatched.length]?.map
        fun l => dispatch2Rob (i.dispatchPkt l)).getD e := by
  rw [hq.slot_tail k hk, allocate_slot _ _ ok.contiguous _ (by omega)]

theorem writeback_invalid (i : Inputs) (k : BitVec 6) (e : RobEntry) (h : e.valid = false) :
    writeback i k e = e := by
  rw [writeback, h, Bool.false_and, if_neg (by decide)]

/-- A record of the next log is a retired one, a live one after its cycle of writeback,
or one of this cycle's group. -/
theorem next_record (hq : Queue c) (hf : i.pipeFlush = false) (k : Nat) (r : Record)
    (hr : (c.log.next i c.rob).dispatched[k]? = some r) :
    (k < c.log.retired.length ∧ c.log.dispatched[k]? = some r) ∨
    (c.log.retired.length ≤ k ∧ ∃ r₀, c.log.dispatched[k]? = some r₀ ∧ r = mark i r₀) ∨
    (c.log.dispatched.length ≤ k ∧ ∃ l,
      (group fun l => (i.dispatchPkt l).packetValid)[k - c.log.dispatched.length]? = some l ∧
        r = { pkt := i.dispatchPkt l, tag := dispatchPktResp i c.rob l }) := by
  rw [Log.next_get i c.rob c.log hf hq.le] at hr
  split at hr
  · exact .inl ⟨‹_›, hr⟩
  · split at hr
    · obtain ⟨r₀, h₀, rfl⟩ := Option.map_eq_some_iff.1 hr
      exact .inr (.inl ⟨by omega, r₀, h₀, rfl⟩)
    · rw [dispatching, List.getElem?_map] at hr
      obtain ⟨l, hl, rfl⟩ := Option.map_eq_some_iff.1 hr
      exact .inr (.inr ⟨by omega, l, hl, rfl⟩)

/-- A lane gets credit when its packet and those of the lanes before it have room. -/
theorem next_credit (hq : Queue c) (ok : OkDispatch i c) (hf : i.pipeFlush = false) (l : Lane)
    (hl : (c.next i).ready l = true) :
    (c.next i).log.dispatched.length + l.val + 1 ≤ (c.next i).log.retired.length + 64 := by
  have hle := hq.le
  have hret := hq.retiring_le
  have hdis := hq.dispatching_le ok
  obtain ⟨hdl, hrl⟩ := Log.next_length i c.rob c.log hf hle
  have hhead := next_head c.rob _ hq.head
  have htail := next_tail i c.rob _ hq.tail
  have hgl := dispatchPktCnt_eq i
  simp only [Config.next, hdl, hrl] at hl ⊢
  rw [dispatchPktReady] at hl
  have hp1 : nextHeadPositionBit c.rob = _ := congrArg Ptr.pos hhead
  have hp2 : nextTailPositionBit i c.rob = _ := congrArg Ptr.pos htail
  have hx1 : nextHeadPtr c.rob = _ := congrArg Ptr.idx hhead
  have hx2 : nextTailPtr i c.rob = _ := congrArg Ptr.idx htail
  rw [hp1, hp2, hx1, hx2] at hl
  split at hl
  · cases hl
  · exact (credit_iff (by omega) (by omega) l).1 hl

theorem next_tag (hq : Queue c) (ok : OkDispatch i c) (hf : i.pipeFlush = false) {k : Nat} {r : Record}
    (hr : (c.next i).log.dispatched[k]? = some r) : r.tag = Ptr.ofCount 6 k ∧ r.pkt.packetValid = true := by
  rcases hq.next_record hf k r hr with ⟨_, h⟩ | ⟨_, r₀, h, rfl⟩ | ⟨hk, l, hl, rfl⟩
  · exact hq.tag k r h
  · rw [(mark_eq_iff i r₀).1, (mark_eq_iff i r₀).2]
    exact hq.tag k r₀ h
  · have hv := mem_group.1 (List.mem_of_getElem? hl)
    refine ⟨?_, hv⟩
    have := dispatchPktResp_group i c.rob _ hq.tail ok.contiguous _ l hl
    simpa [Nat.add_sub_cancel' hk] using this

/-- A slot between the pointers holds its record, written back or dispatched now. -/
theorem next_slot (hq : Queue c) (ok : OkDispatch i c) (hf : i.pipeFlush = false) {k : Nat} {r : Record}
    (hk : (c.next i).log.retired.length ≤ k) (hr : (c.next i).log.dispatched[k]? = some r) :
    Keeps ((c.next i).rob.robEntry (Ptr.ofCount 6 k).idx) r.pkt := by
  have hle := hq.le
  have hret := hq.retiring_le
  have hdis := hq.dispatching_le ok
  have hgl := dispatchPktCnt_eq i
  obtain ⟨hdl, hrl⟩ := Log.next_length i c.rob c.log hf hle
  have hkt := (List.getElem?_eq_some_iff.1 hr).1
  simp only [Config.next, hdl, hrl] at hk hkt
  simp only [Config.next, Rob.next, hf, Bool.false_eq_true, if_false]
  rw [hq.retire_window k (by omega) (by omega), if_neg (by omega)]
  rcases hq.next_record hf k r hr with ⟨h, _⟩ | ⟨_, r₀, h, rfl⟩ | ⟨hkt', l, hl, rfl⟩
  · omega
  · rw [hq.allocate_live ok k (by omega) (List.getElem?_eq_some_iff.1 h).1, (mark_eq_iff i r₀).2]
    exact writeback_keeps i _ (hq.slot k r₀ (by omega) h)
  · rw [hq.allocate_free ok k hkt' (by omega), hl]
    rfl

/-- A slot past the new tail was free, or has just retired. -/
theorem next_free (hq : Queue c) (ok : OkDispatch i c) (hf : i.pipeFlush = false) {k : Nat}
    (hk : (c.next i).log.dispatched.length ≤ k) (hlt : k < (c.next i).log.retired.length + 64) :
    ((c.next i).rob.robEntry (Ptr.ofCount 6 k).idx).valid = false := by
  have hle := hq.le
  have hret := hq.retiring_le
  have hdis := hq.dispatching_le ok
  have hgl := dispatchPktCnt_eq i
  obtain ⟨hdl, hrl⟩ := Log.next_length i c.rob c.log hf hle
  simp only [Config.next, hdl, hrl] at hk hlt
  simp only [Config.next, Rob.next, hf, Bool.false_eq_true, if_false]
  by_cases hw : k < c.log.retired.length + 64
  · have hfree := hq.free k (by omega) hw
    rw [hq.retire_window k (by omega) hw, if_neg (by omega),
      hq.allocate_free ok k (by omega) (by omega), List.getElem?_eq_none (by omega),
      writeback_invalid _ _ _ hfree]
    exact hfree
  · obtain ⟨m, rfl⟩ : ∃ m, k = m + 2 ^ 6 := ⟨k - 2 ^ 6, by omega⟩
    rw [Ptr.idx_add_ring, hq.retire_window m (by omega) (by omega), if_pos (by omega),
      hq.allocate_live ok m (by omega) (by omega)]

/-- What has retired, now or before, shows what was dispatched. -/
theorem next_shows (hq : Queue c) (hf : i.pipeFlush = false) {k : Nat} {r : Record} {p : RetireRobPacket}
    (hr : (c.next i).log.dispatched[k]? = some r) (hp : (c.next i).log.retired[k]? = some p) :
    Shows r p := by
  have hle := hq.le
  have hret := hq.retiring_le
  simp only [Config.next, Log.next, hf, Bool.false_eq_true, if_false] at hp
  have hpkt : ∃ r₀, c.log.dispatched[k]? = some r₀ ∧ r.tag = r₀.tag ∧ r.pkt = r₀.pkt := by
    rcases hq.next_record hf k r hr with ⟨_, h⟩ | ⟨_, r₀, h, rfl⟩ | ⟨hk, _, _, _⟩
    · exact ⟨r, h, rfl, rfl⟩
    · exact ⟨r₀, h, mark_eq_iff i r₀⟩
    · have := (List.getElem?_eq_some_iff.1 hp).1
      rw [List.length_append, retiring_length] at this
      omega
  obtain ⟨r₀, h, ht, hpk⟩ := hpkt
  rw [Shows, ht, hpk]
  by_cases hk : k < c.log.retired.length
  · rw [List.getElem?_append_left hk] at hp
    exact hq.shows k r₀ p h hp
  · rw [List.getElem?_append_right (by omega)] at hp
    obtain ⟨hlt, rfl⟩ := List.getElem?_eq_some_iff.1 hp
    have hj := hlt
    rw [retiring_length] at hj
    have h4 := retireEnCnt_le c.rob
    obtain ⟨r₁, h₁, hs⟩ := hq.retiring_shows ⟨k - c.log.retired.length, by omega⟩
      ((retireEn_iff c.rob (k - c.log.retired.length) (by omega)).2 hj)
    simp only [Nat.add_sub_cancel' (Nat.le_of_not_lt hk)] at h₁
    rw [h] at h₁
    cases h₁
    rw [retiring_get]
    exact hs

/-- A cycle without a flush keeps the queue. -/
theorem next_noFlush (hq : Queue c) (ok : OkDispatch i c) (hf : i.pipeFlush = false) :
    Queue (c.next i) := by
  have hle := hq.le
  have hret := hq.retiring_le
  have hdis := hq.dispatching_le ok
  have hgl := dispatchPktCnt_eq i
  obtain ⟨hdl, hrl⟩ := Log.next_length i c.rob c.log hf hle
  exact
    { head := by simpa [Config.next, Rob.next, hf, State.head, hrl] using next_head c.rob _ hq.head
      tail := by simpa [Config.next, Rob.next, hf, State.tail, hdl] using next_tail i c.rob _ hq.tail
      le := by
        simp only [Config.next, hdl, hrl]
        omega
      room := by
        simp only [Config.next, hdl, hrl]
        omega
      credit := hq.next_credit ok hf
      tag := fun _ _ hr => hq.next_tag ok hf hr
      slot := fun _ _ hk hr => hq.next_slot ok hf hk hr
      free := fun _ hk hlt => hq.next_free ok hf hk hlt
      shows := fun _ _ _ hr hp => hq.next_shows hf hr hp }

theorem init : Queue Config.init := by
  refine ⟨rfl, rfl, Nat.le_refl _, by decide, fun l _ => ?_, ?_, ?_, fun _ _ _ => rfl, ?_⟩
  · simp only [Config.init, List.length_nil]
    omega
  all_goals simp [Config.init]

theorem next_flush (i : Inputs) (c : Config) (hf : i.pipeFlush = true) : Queue (c.next i) := by
  refine ⟨?_, ?_, ?_, ?_, ?_, ?_, ?_, ?_, ?_⟩ <;>
    simp [Config.next, Rob.next, Log.next, hf, State.head, State.tail, Ptr.ofCount]
  exact fun l _ => by omega

/-- Every cycle keeps the queue. -/
theorem next (hq : Queue c) (ok : OkDispatch i c) : Queue (c.next i) := by
  cases hf : i.pipeFlush
  · exact hq.next_noFlush ok hf
  · exact next_flush i c hf

end Queue

/-! ### The order of retirement -/

theorem branchCnt_pos (s : State) {j m : Nat} (hj : j ≤ m) (h : (headEntry s j).branch = true) :
    1 ≤ branchCnt s m := by
  induction hj with
  | refl => cases j <;> simp [branchCnt, h]
  | step _ ih =>
    simp only [branchCnt]
    omega

/-- Two branches among the head entries are counted as two. -/
theorem branchCnt_two (s : State) {j k : Nat} (hjk : j < k) (hj : (headEntry s j).branch = true)
    (hk : (headEntry s k).branch = true) : 2 ≤ branchCnt s k := by
  obtain ⟨m, rfl⟩ : ∃ m, k = m + 1 := ⟨k - 1, by omega⟩
  have := branchCnt_pos s (Nat.le_of_lt_succ hjk) hj
  simp only [branchCnt, hk, Bool.toNat_true]
  omega

/-- A lane after a retiring branch retires no branch. -/
theorem retire_branch_lt (s : State) {j k : Nat} (hjk : j < k) (hj : (headEntry s j).branch = true)
    (hk : (headEntry s k).branch = true) : retireEn s k = false := by
  obtain ⟨m, rfl⟩ : ∃ m, k = m + 1 := ⟨k - 1, by omega⟩
  have := branchCnt_two s hjk hj hk
  have hmask : brMask s (m + 1) = false := by
    rw [brMask]
    simp
    omega
  rw [retireEn, hmask, Bool.and_false]

/-- No lane retires past one that flushes. -/
theorem retire_stops (s : State) (j k : Nat) (hjk : j < k) (hj : flushes (headEntry s j) = true) :
    retireEn s k = false := by
  cases h : retireEn s k with
  | false => rfl
  | true =>
    have h' := retireEn_of_le s hjk h
    have h0 := retireEn_prev s j h'
    simp only [retireEn, h0, hj, Bool.and_true, Bool.not_true, Bool.and_false, Bool.false_and] at h'
    cases h'

/-! ### Where a group goes -/

namespace Queue
variable {c : Config} {i : Inputs}

/-- Every dispatched packet has a free slot of its own. -/
theorem ownSlots (hq : Queue c) (ok : OkDispatch i c) :
    OwnSlots (fun l => (i.dispatchPkt l).packetValid) (fun l => (dispatchPktResp i c.rob l).idx)
      fun k => (c.rob.robEntry k).valid := by
  have hle := hq.dispatching_le ok
  have h4 := dispatchPktCnt_le i
  rw [dispatchPktCnt_eq] at hle h4
  refine OwnSlots.ring (t := c.log.dispatched.length) (fun j l hl => ?_) (by omega) fun j hj => ?_
  · rw [dispatchPktResp_group i c.rob _ hq.tail ok.contiguous j l hl]
  · exact hq.free _ (by omega) (by omega)

/-- No valid entry is overwritten. -/
theorem allocate_valid (hq : Queue c) (ok : OkDispatch i c) {k : BitVec 6}
    (hv : (c.rob.robEntry k).valid = true) (e : RobEntry) : allocate i c.rob k e = e := by
  obtain ⟨m, hm1, hm2, rfl⟩ := Ptr.idx_surj (w := 6) c.log.retired.length k
  refine hq.allocate_live ok m hm1 (Nat.lt_of_not_le fun hge => ?_) e
  rw [hq.free m hge hm2] at hv
  cases hv

/-- Without a flush every dispatched packet is in its slot in the next cycle. -/
theorem dispatched (hq : Queue c) (ok : OkDispatch i c) (hf : i.pipeFlush = false) (l : Lane)
    (hv : (i.dispatchPkt l).packetValid = true) :
    (Rob.next i c.rob).robEntry (dispatchPktResp i c.rob l).idx = dispatch2Rob (i.dispatchPkt l) := by
  obtain ⟨j, hj⟩ := List.getElem?_of_mem (mem_group (v := fun l => (i.dispatchPkt l).packetValid).2 hv)
  rw [dispatchPktResp_group i c.rob _ hq.tail ok.contiguous j l hj]
  have hlt := (List.getElem?_eq_some_iff.1 hj).1
  have h4 := group_length_le fun l => (i.dispatchPkt l).packetValid
  simp only [Rob.next, hf, Bool.false_eq_true, if_false]
  rw [hq.allocate_free ok _ (by omega) (by omega), Nat.add_sub_cancel_left, hj]
  rfl

end Queue

/-! ### Mispredictions -/

/-- While an entry is marked mispredicted, `branch_misp` is set. -/
def Flagged (s : State) : Prop := ∀ k, (s.robEntry k).branchMisp = true → s.branchMisp = true

theorem allocate_misp {i : Inputs} {s : State} {k : BitVec 6} {e : RobEntry}
    (h : (allocate i s k e).branchMisp = true) : e.branchMisp = true := by
  have hd : ∀ p, (dispatch2Rob p).branchMisp = false := fun _ => rfl
  unfold allocate at h
  simp only at h
  split_ifs at h <;> first | exact h | (rw [hd] at h; cases h)

theorem retire_misp (s : State) (k : BitVec 6) (e : RobEntry) :
    (retire s k e).branchMisp = e.branchMisp := by
  unfold retire
  split <;> rfl

/-- `branch_misp` after a cycle. -/
theorem misp_flag (i : Inputs) (s : State) : (misp i s).2.1 =
    (!i.pipeFlush && (s.branchMisp || (List.finRange 7).any i.writebackValid && i.writebackBrMisp)) := by
  unfold misp
  cases i.pipeFlush <;> cases (List.finRange 7).any i.writebackValid <;> cases i.writebackBrMisp <;>
    cases s.branchMisp <;> simp
  split <;> rfl

theorem Flagged.next {s : State} (h : Flagged s) (i : Inputs) : Flagged (Rob.next i s) := by
  intro k hk
  simp only [Rob.next] at hk ⊢
  rw [misp_flag]
  cases hf : i.pipeFlush
  · rw [hf, if_neg Bool.false_ne_true] at hk
    have hw := allocate_misp hk
    rw [retire_misp, writeback] at hw
    rw [Bool.not_false, Bool.true_and, Bool.or_eq_true]
    split at hw
    · -- the branch lane marks the entry in the cycle it sets the register
      simp only [Bool.and_eq_true] at hw
      refine .inr (Bool.and_eq_true_iff.2 ⟨?_, hw.2⟩)
      exact List.any_eq_true.2 ⟨5, List.mem_finRange _, hw.1.2⟩
    · exact .inl (h k hw)
  · rw [hf, if_pos rfl] at hk
    cases hk

theorem Flagged.init : Flagged reset := fun _ h => by cases h

end R10K.Rob
