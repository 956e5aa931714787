import R10K.Lib.Lanes
import R10K.Lib.Tokens
import R10K.Ptab.Model

/-! The branch table as a ledger of branches.

With four entries free the selector offers every lane a free entry of its own, so a group
records its branches apart from each other and from those already there. As long as the
branch unit names the entry of a branch in the ledger, the valid entries are those of the
ledger, each with what was recorded. -/
namespace R10K.Ptab
open Select Lanes
variable {i : Inputs} {s : State}

/-! ### Allocation -/

theorem ptabAvailCnt_card (s : State) :
    ptabAvailCnt s = (Finset.univ.filter fun k => ptabAvail s k = true).card := by
  rw [ptabAvailCnt, List.countP_eq_length_filter, ← List.toFinset_card_of_nodup
    ((List.nodup_finRange _).filter _)]
  congr 1
  ext k
  simp

/-- With room for four, every lane is granted the entry it is offered. -/
theorem ptabTag_granted (h : fetchPktReady s = true) (l : Lane) :
    gntBus (ptabAvail s) l (ptabTag s l) = true := by
  have hcnt : 4 ≤ ptabAvailCnt s := of_decide_eq_true h
  rw [ptabAvailCnt_card] at hcnt
  exact gntBus_enc ((granted_iff _).2 (gntBus_exists hcnt l))

theorem ptabTag_free (h : fetchPktReady s = true) (l : Lane) : (s.ptabEntry (ptabTag s l)).valid = false := by
  have := gntBus_req (ptabTag_granted h l)
  simpa [ptabAvail] using this

theorem ptabTag_inj (h : fetchPktReady s = true) {l m : Lane} (he : ptabTag s l = ptabTag s m) : l = m := by
  have hl := ptabTag_granted h l
  rw [he] at hl
  exact gntBus_disjoint hl (ptabTag_granted h m)

/-! ### One edge -/

/-- What the table keeps of a fetched branch. -/
def recorded (p : FetchPacket) : Entry where
  valid := true
  predictDir := p.branchDir
  predictPc := p.branchAddr
  nextPc := p.pc + 4

/-- A lane's branch is recorded in this cycle. -/
def records (i : Inputs) (s : State) (l : Lane) : Bool :=
  fetchPktReady s && (i.fetchPkt l).packetValid && (i.fetchPkt l).branchMask

/-- The branch unit clears the entry. -/
def clears (i : Inputs) (k : Fin 16) : Bool := i.bruValid && k == i.bruPtabTag.toFin

theorem nextEntry_flush (hf : i.pipeFlush = true) (k : Fin 16) : (nextEntry i s k).valid = false := by
  rw [nextEntry, if_pos hf]

theorem nextEntry_cleared (k : Fin 16) (hc : clears i k = true) : (nextEntry i s k).valid = false := by
  rw [nextEntry]
  split
  · rfl
  · rw [if_pos (show (i.bruValid && k == i.bruPtabTag.toFin) = true from hc)]

/-- An entry offered to a lane with a branch records that branch. -/
theorem nextEntry_recorded (hf : i.pipeFlush = false) {l : Lane} (hr : records i s l = true)
    (hc : clears i (ptabTag s l) = false) : nextEntry i s (ptabTag s l) = recorded (i.fetchPkt l) := by
  rw [records, Bool.and_eq_true, Bool.and_eq_true] at hr
  obtain ⟨⟨hready, hv⟩, hb⟩ := hr
  have hself : allocates i s (ptabTag s l) l = true := by simp [allocates, hv, hb]
  have hfind : (List.finRange 4).find? (allocates i s (ptabTag s l)) = some l := by
    cases hs : (List.finRange 4).find? (allocates i s (ptabTag s l)) with
    | none => exact absurd hself (List.find?_eq_none.1 hs l (List.mem_finRange l))
    | some m =>
      have hm := List.find?_some hs
      rw [allocates, Bool.and_eq_true, Bool.and_eq_true, beq_iff_eq] at hm
      rw [ptabTag_inj hready hm.1.1]
  rw [nextEntry, if_neg (by rw [hf]; exact Bool.false_ne_true),
    if_neg (by rw [show (i.bruValid && _) = false from hc]; exact Bool.false_ne_true), if_pos hready, hfind]
  rfl

/-- Any other entry stays as it is. -/
theorem nextEntry_kept (hf : i.pipeFlush = false) {k : Fin 16} (hc : clears i k = false)
    (hno : ∀ l, records i s l = true → k ≠ ptabTag s l) : nextEntry i s k = s.ptabEntry k := by
  rw [nextEntry, if_neg (by rw [hf]; exact Bool.false_ne_true),
    if_neg (by rw [show (i.bruValid && _) = false from hc]; exact Bool.false_ne_true)]
  split
  · rename_i hready
    have hfind : (List.finRange 4).find? (allocates i s k) = none := by
      rw [List.find?_eq_none]
      intro l _ hl
      rw [allocates, Bool.and_eq_true, Bool.and_eq_true, beq_iff_eq] at hl
      exact hno l (by rw [records, hready, hl.1.2, hl.2]; rfl) hl.1.1
    rw [hfind]
  · rfl

/-- Without a branch to record the table only loses entries. -/
theorem nextEntry_idle (hno : ∀ l, records i s l = false) (k : Fin 16) : nextEntry i s k =
    if i.pipeFlush || clears i k then { s.ptabEntry k with valid := false } else s.ptabEntry k := by
  cases hf : i.pipeFlush with
  | true => rw [nextEntry, if_pos hf, Bool.true_or, if_pos rfl]
  | false =>
    cases hc : clears i k with
    | true =>
      rw [nextEntry, hf, if_neg Bool.false_ne_true,
        if_pos (show (i.bruValid && k == i.bruPtabTag.toFin) = true from hc), Bool.or_true, if_pos rfl]
    | false =>
      refine nextEntry_kept hf hc fun l hl => ?_
      rw [hno l] at hl
      cases hl

/-! ### The ledger -/

/-- The valid entries are those of the ledger, one a branch, as they were recorded. -/
structure Stands {α : Type} (tag : α → Fin 16) (entry : α → Entry) (ledger : List α) (s : State) :
    Prop where
  tags : (ledger.map tag).Nodup
  holds : ∀ x ∈ ledger, s.ptabEntry (tag x) = entry x
  valid : ∀ k, (s.ptabEntry k).valid = true → ∃ x ∈ ledger, tag x = k
  marked : ∀ x ∈ ledger, (entry x).valid = true

namespace Stands
variable {α : Type} {tag : α → Fin 16} {entry : α → Entry} {ledger : List α} {leaves : α → Bool}
  {new : Lane → α}

theorem flush (hf : i.pipeFlush = true) : Stands tag entry [] (next i s) where
  tags := List.nodup_nil
  holds := fun _ hx => by cases hx
  valid := by
    intro k hk
    have hk' : (nextEntry i s k).valid = true := hk
    rw [nextEntry_flush hf] at hk'
    cases hk'
  marked := fun _ hx => by cases hx

/-- What a group records is apart from the ledger. -/
theorem fresh (h : Stands tag entry ledger s) {l : Lane} (hr : records i s l = true) {x : α}
    (hx : x ∈ ledger) : tag x ≠ ptabTag s l := by
  intro he
  rw [records, Bool.and_eq_true, Bool.and_eq_true] at hr
  have hv := h.marked x hx
  rw [← h.holds x hx, he, ptabTag_free hr.1.1] at hv
  cases hv

/-- **One edge keeps the ledger**: the branch the branch unit reads leaves, the branches of
the group enter. -/
theorem next (h : Stands tag entry ledger s) (hf : i.pipeFlush = false)
    (hbru : i.bruValid = true → ∃ x ∈ ledger, tag x = i.bruPtabTag.toFin)
    (hleave : ∀ x ∈ ledger, leaves x = clears i (tag x))
    (htag : ∀ l, tag (new l) = ptabTag s l)
    (hentry : ∀ l, records i s l = true → entry (new l) = Ptab.recorded (i.fetchPkt l)) :
    Stands tag entry (Tokens.update leaves ((group (records i s)).map new) ledger) (Ptab.next i s) where
  tags := by
    rw [Tokens.update, List.map_append, List.nodup_append]
    refine ⟨(List.filter_sublist.map tag).nodup h.tags, ?_, fun a ha b hb hab => ?_⟩
    · rw [List.map_map]
      refine List.Nodup.map_on (fun l hl m _ he => ?_) ((List.nodup_finRange 4).filter _)
      have hr : records i s l = true := mem_group.1 hl
      rw [records, Bool.and_eq_true, Bool.and_eq_true] at hr
      rw [Function.comp_apply, Function.comp_apply, htag, htag] at he
      exact ptabTag_inj hr.1.1 he
    · obtain ⟨x, hx, rfl⟩ := List.mem_map.1 ha
      obtain ⟨y, hy, rfl⟩ := List.mem_map.1 hb
      obtain ⟨l, hl, rfl⟩ := List.mem_map.1 hy
      rw [htag] at hab
      exact h.fresh (mem_group.1 hl) (List.mem_filter.1 hx).1 hab
  holds := by
    intro x hx
    show nextEntry i s (tag x) = entry x
    rw [Tokens.update, List.mem_append, List.mem_filter, Bool.not_eq_true'] at hx
    rcases hx with ⟨hx, hstay⟩ | hx
    · rw [nextEntry_kept hf ((hleave x hx).symm.trans hstay) fun l hl => h.fresh hl hx]
      exact h.holds x hx
    · obtain ⟨l, hl, rfl⟩ := List.mem_map.1 hx
      have hr : records i s l = true := mem_group.1 hl
      rw [htag, hentry l hr]
      refine nextEntry_recorded hf hr (Bool.eq_false_iff.2 fun hc => ?_)
      rw [clears, Bool.and_eq_true, beq_iff_eq] at hc
      obtain ⟨y, hy, hty⟩ := hbru hc.1
      exact h.fresh hr hy (hty.trans hc.2.symm)
  valid := by
    intro k hk
    have hk' : (nextEntry i s k).valid = true := hk
    by_cases hrec : ∃ l, records i s l = true ∧ k = ptabTag s l
    · obtain ⟨l, hl, rfl⟩ := hrec
      exact ⟨new l, List.mem_append_right _ (List.mem_map_of_mem (mem_group.2 hl)), htag l⟩
    · have hc : clears i k = false := by
        rw [Bool.eq_false_iff]
        intro hc
        rw [nextEntry_cleared k hc] at hk'
        cases hk'
      rw [nextEntry_kept hf hc fun l hl he => hrec ⟨l, hl, he⟩] at hk'
      obtain ⟨x, hx, rfl⟩ := h.valid k hk'
      refine ⟨x, List.mem_append_left _ (List.mem_filter.2 ⟨hx, ?_⟩), rfl⟩
      rw [hleave x hx, hc]
      rfl
  marked := by
    intro x hx
    rw [Tokens.update, List.mem_append, List.mem_filter] at hx
    rcases hx with ⟨hx, -⟩ | hx
    · exact h.marked x hx
    · obtain ⟨l, hl, rfl⟩ := List.mem_map.1 hx
      rw [hentry l (mem_group.1 hl)]
      rfl

theorem init : Stands tag entry [] reset where
  tags := List.nodup_nil
  holds := fun _ hx => by cases hx
  valid := fun _ hk => by cases hk
  marked := fun _ hx => by cases hx

/-- No branch in flight leaves all sixteen entries free. -/
theorem refilled (h : Stands tag entry [] s) : ptabAvailCnt s = 16 := by
  rw [ptabAvailCnt, List.countP_eq_length.2, List.length_finRange]
  intro k _
  cases hv : (s.ptabEntry k).valid with
  | false => rw [ptabAvail, hv]; rfl
  | true =>
    obtain ⟨x, hx, -⟩ := h.valid k hv
    cases hx

end Stands

/-! ### The verdict -/

/-- The program counter after a branch, as predicted and as computed. -/
def predictedPc (p : FetchPacket) : BitVec 32 := if p.branchDir then p.branchAddr else p.pc + 4

def actualPc (i : Inputs) (pc : BitVec 32) : BitVec 32 := if i.bruBranchDir then i.bruTargetPc else pc + 4

/-- **The branch unit finds out a wrong prediction**: without `bru_branch_misp` the predicted
program counter is the actual one, and with it `bru_next_pc` is. -/
theorem bruResult_correct {p : FetchPacket} (hv : i.bruValid = true)
    (he : s.ptabEntry i.bruPtabTag.toFin = recorded p) :
    ((bruResult i s).1 = false → predictedPc p = actualPc i p.pc) ∧
      ((bruResult i s).1 = true → (bruResult i s).2 = actualPc i p.pc) := by
  simp only [bruResult, he, hv, recorded, predictedPc, actualPc, Bool.true_and]
  cases i.bruBranchDir <;> cases p.branchDir
  · simp
  · simp
  · simp
  · by_cases hpc : p.branchAddr = i.bruTargetPc <;> simp [hpc]

end R10K.Ptab
