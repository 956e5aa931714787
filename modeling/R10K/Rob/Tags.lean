import R10K.Rob.Queue

/-! The tags of the reorder buffer.

A tag is the pointer of its packet's place in the order of dispatch, position bit and all:
tags of live packets differ, and the age comparison orders them. A retiring packet shows
the slot of its tag, but every lane shows the position bit of the head, which is wrong for
the lanes of a group past the wrap. -/
namespace R10K.Rob
open Circular Lanes

/-- What holds of the tags given. -/
structure Given (c : Config) : Prop where
  /-- A packet goes to the entry of its tag. -/
  stored : ∀ i, OkDispatch i c → i.pipeFlush = false → ∀ l, (i.dispatchPkt l).packetValid = true →
    (Rob.next i c.rob).robEntry (dispatchPktResp i c.rob l).idx = dispatch2Rob (i.dispatchPkt l)
  distinct : ∀ (j k : Nat) (r r' : Record), c.log.live[j]? = some r → c.log.live[k]? = some r' →
    r.tag = r'.tag → j = k
  ordered : ∀ (j k : Nat) (r r' : Record), c.log.live[j]? = some r → c.log.live[k]? = some r' →
    (Ptr.older r.tag r'.tag = true ↔ j < k)

/-- Every retiring lane shows the tag its packet was given. -/
def Returns (c : Config) : Prop := ∀ l : Lane, retireEn c.rob l.val = true →
  ∃ r, c.log.live[l.val]? = some r ∧ (retirePkt c.rob l).robTag = r.tag

/-- The retiring group goes past index 63. -/
def Straddles (s : State) : Prop := ∃ l : Lane, retireEn s l.val = true ∧ 64 ≤ s.headPtr.toNat + l.val

instance (s : State) : Decidable (Straddles s) := inferInstanceAs (Decidable (∃ _, _))

namespace Queue
variable {c : Config}

theorem live_tag (hq : Queue c) {k : Nat} {r : Record} (hr : c.log.live[k]? = some r) :
    r.tag = Ptr.ofCount 6 (c.log.retired.length + k) ∧ k < 64 := by
  rw [Log.live, List.getElem?_drop] at hr
  have hlt := (List.getElem?_eq_some_iff.1 hr).1
  have hroom := hq.room
  exact ⟨(hq.tag _ r hr).1, by omega⟩

theorem given (hq : Queue c) : Given c where
  stored := fun _ ok hf l hv => hq.dispatched ok hf l hv
  distinct := fun j k r r' hr hr' htag => by
    obtain ⟨hj, hj64⟩ := hq.live_tag hr
    obtain ⟨hk, hk64⟩ := hq.live_tag hr'
    rw [hj, hk] at htag
    have hsame := Ptr.ofCount_inj_window (b := c.log.retired.length) (by omega) (by omega) htag
    omega
  ordered := fun j k r r' hr hr' => by
    obtain ⟨hj, hj64⟩ := hq.live_tag hr
    obtain ⟨hk, hk64⟩ := hq.live_tag hr'
    rw [hj, hk, Ptr.older_iff (b := c.log.retired.length) (by omega) (by omega)]
    omega

/-- A retiring lane shows its packet's tag unless its slot is past the wrap. -/
theorem returns_lane (hq : Queue c) (l : Lane) (hl : retireEn c.rob l.val = true) :
    ∃ r, c.log.live[l.val]? = some r ∧
      ((retirePkt c.rob l).robTag = r.tag ↔ c.rob.headPtr.toNat + l.val < 64) := by
  obtain ⟨r, hr, _⟩ := hq.retiring_shows l hl
  have hlive : c.log.live[l.val]? = some r := by
    rw [Log.live, List.getElem?_drop]
    exact hr
  have hlane := l.isLt
  have hhead : c.rob.headPtr.toNat = c.log.retired.length % 2 ^ 6 := by
    rw [show c.rob.headPtr = (Ptr.ofCount 6 c.log.retired.length).idx from congrArg Ptr.idx hq.head, Ptr.idx_toNat]
  have hpos : c.rob.headPositionBit = (Ptr.ofCount 6 c.log.retired.length).pos := congrArg Ptr.pos hq.head
  have hidx : c.rob.headPtr + BitVec.ofNat 6 l.val = (Ptr.ofCount 6 (c.log.retired.length + l.val)).idx := by
    rw [Ptr.idx_add, ← congrArg Ptr.idx hq.head]
    rfl
  refine ⟨r, hlive, ?_⟩
  rw [(hq.live_tag hlive).1, hhead, retirePkt, hpos, hidx, Ptr.ext_iff, and_iff_left rfl,
    Ptr.pos_add _ _ (by omega)]
  cases (Ptr.ofCount 6 c.log.retired.length).pos <;> simp

end Queue

/-- **Tags round-trip when the retiring group does not go past index 63**, and only then;
the tags given are distinct and ordered in any case. -/
theorem tags_round_trip {c : Config} (h : Run.Reach Config.next OkDispatch Config.init c) :
    Given c ∧ (Returns c ↔ ¬ Straddles c.rob) := by
  have hq := h.invariant Queue Queue.init fun _ _ hq ok => hq.next ok
  refine ⟨hq.given, fun hret ⟨l, hl, hpast⟩ => ?_, fun hno l hl => ?_⟩
  · obtain ⟨r, hr, htag⟩ := hret l hl
    obtain ⟨r', hr', hiff⟩ := hq.returns_lane l hl
    rw [hr] at hr'
    cases hr'
    exact absurd (hiff.1 htag) (by omega)
  · obtain ⟨r, hr, hiff⟩ := hq.returns_lane l hl
    exact ⟨r, hr, hiff.2 (Nat.lt_of_not_le fun hpast => hno ⟨l, hl, hpast⟩)⟩

/-! ### A group across the wrap -/

instance (i : Inputs) (c : Config) : Decidable (OkDispatch i c) :=
  decidable_of_iff (_ ∧ _) ⟨fun h => ⟨h.1, h.2⟩, fun h => ⟨h.contiguous, h.credit⟩⟩

/-- The first `n` lanes dispatch instructions that are complete at once. -/
def nops (n : Nat) : Inputs :=
  { idle with dispatchPkt := fun l => { inst := nop, packetValid := decide (l.val < n) } }

/-- Two instructions, and then groups of four: the seventeenth group has the slots 62 to 1. -/
def nopIns : List Inputs := nops 2 :: List.replicate 16 (nops 4)

theorem tags_round_trip_two : Returns (Config.init.next (nops 2)) ∧
    (retirePkt (Config.init.next (nops 2)).rob 1).packetValid = true :=
  ⟨(tags_round_trip (.step (nops 2) .init ⟨by decide, by decide⟩)).2.2 (by decide), by decide⟩

/-- Its last two lanes retire under tags they were not given. -/
theorem tags_lost : ∃ c, Run.Reach Config.next OkDispatch Config.init c ∧ ¬ Returns c := by
  refine ⟨nopIns.foldl (fun c i => c.next i) Config.init, .of_keeps nopIns .init (by decide +kernel), fun h => ?_⟩
  obtain ⟨r, hr, htag⟩ := h 2 (by decide +kernel)
  have hgiven : (nopIns.foldl (fun c i => c.next i) Config.init).log.live[(2 : Lane).val]?.map Record.tag =
      some (Ptr.ofCount 6 64) := by decide +kernel
  have hshown : (retirePkt (nopIns.foldl (fun c i => c.next i) Config.init).rob 2).robTag = ⟨false, 0⟩ := by
    decide +kernel
  rw [hr, Option.map_some, ← htag, hshown] at hgiven
  exact absurd hgiven (by decide)

end R10K.Rob
