import R10K.Cache.Lru
import R10K.Dcache.Hit

/-! The dirty marks of the data cache.

A refill without a store clears the dirty bits of its whole way, where it should clear one:
the marks of the other sets survive only when that way has none. A mark that is set is also
shown only if the array looked up the line that is decided: after a stale lookup a store goes
over another line, or a refill over a line that was shown clean for another set. Runs free of
both keep every modified line marked until it is replaced, and warn before they replace it. -/
namespace R10K.Dcache
open Cache Assoc

/-- The sets other than the addressed one are as they were. -/
structure Apart (i : ArrayInputs) (a : ArrayState) : Prop where
  valid : ∀ w x, x ≠ addrIndex i.addr → (nextArray i a).blockValid w x = a.blockValid w x
  dirty : ∀ w x, x ≠ addrIndex i.addr → (nextArray i a).blockDirty w x = a.blockDirty w x
  tag : ∀ w x, x ≠ addrIndex i.addr → ((nextArray i a).tagSram w).ram x = (a.tagSram w).ram x
  data : ∀ w x, x ≠ addrIndex i.addr → ((nextArray i a).dataSram w).ram x = (a.dataSram w).ram x

/-- A write that is no store goes to a way without dirty blocks in other sets. -/
def Spares (i : ArrayInputs) (a : ArrayState) : Prop :=
  ∀ w, wenN i a w = true → i.stEn = false → ∀ x, x ≠ addrIndex i.addr → a.blockDirty w x = false

instance (i : ArrayInputs) (a : ArrayState) : Decidable (Spares i a) := inferInstanceAs (Decidable (∀ _, _))

section
variable {i : ArrayInputs} {a : ArrayState} {w : CacheWay} {x : Index}

theorem wenN_enabled (h : wenN i a w = true) : i.stEn = true ∨ i.refillEn = true := by
  rw [← Bool.or_eq_true]
  rw [wenN] at h
  split at h <;> exact (Bool.and_eq_true_iff.1 h).1

/-- What an edge does to a dirty bit. -/
theorem blockDirty_next : (nextArray i a).blockDirty w x =
    if wenN i a w = true then
      if i.stEn = true then decide (x = addrIndex i.addr) || a.blockDirty w x else false
    else a.blockDirty w x := by
  by_cases hw : wenN i a w = true
  · rcases hst : i.stEn with _ | _
    · have hre : i.refillEn = true := (wenN_enabled hw).resolve_left (by rw [hst]; decide)
      simp [nextArray, hw, hst, hre]
    · by_cases hx : x = addrIndex i.addr <;> simp [nextArray, hw, hst, hx]
  · simp [nextArray, hw]

/-- A dirty bit is registered as it is, or as set by a write. -/
theorem rdDirty_next (h : (nextArray i a).rdDirty w = false) :
    (nextArray i a).blockDirty w (nextArray i a).addrIndexPipe = false := by
  have hw : wenN i a w ≠ true := by
    intro hw
    simp [nextArray, hw] at h
  rw [blockDirty_next, if_neg hw]
  simpa [nextArray, hw] using h

/-- **The sets are apart exactly when no other set loses its dirty bits.** -/
theorem apart_iff : Apart i a ↔ Spares i a := by
  constructor
  · intro h w hw hst x hx
    rw [← h.dirty w x hx, blockDirty_next, if_pos hw, hst]
    rfl
  · intro h
    have hother : ∀ {x w}, x ≠ addrIndex i.addr → (wenN i a w && x == addrIndex i.addr) = false := by
      intro x w hx
      rw [beq_false_of_ne hx, Bool.and_false]
    refine ⟨fun w x hx => ?_, fun w x hx => ?_, fun w x hx => ?_, fun w x hx => ?_⟩
    · simp only [nextArray, hother hx, Bool.false_eq_true, if_false]
    · rw [blockDirty_next]
      by_cases hw : wenN i a w = true
      · rw [if_pos hw, decide_eq_false hx, Bool.false_or]
        split
        · rfl
        · rename_i hst
          rw [Bool.not_eq_true] at hst
          exact (h w hw hst x hx).symm
      · rw [if_neg hw]
    · simp only [nextArray, Sram.next, hother hx, Bool.false_eq_true, if_false]
    · simp only [nextArray, Sram.next, hother hx, Bool.false_eq_true, if_false]

end

/-! ### Runs -/

/-- A run, with what stores did to the places of the array. -/
structure Log where
  ctrl : State
  /-- The places a store has written since they were refilled. -/
  modified : CacheWay → Index → Bool
  /-- The miss that is served was shown dirty. -/
  warned : Bool
  /-- A modified line was replaced and the miss was not shown dirty. -/
  lost : Bool

/-- The place of the request in a way. -/
def reqTag (s : State) (w : CacheWay) : Tag := (s.array.tagSram w).ram (addrIndex s.currReqAddr)

/-- The write of this edge replaces the line in a way: by a refill, or by a line with another tag. -/
def replaces (s : State) (w : CacheWay) : Bool :=
  wenN (arrayIn s) s.array w && (refillEn s || reqTag s w != addrTag s.currReqAddr)

namespace Log

def init (tagSram : CacheWay → Sram Tag) (dataSram : CacheWay → Sram Block) : Log where
  ctrl := reset tagSram dataSram
  modified := fun _ _ => false
  warned := false
  lost := false

def next (i : Inputs) (l : Log) : Log where
  ctrl := Dcache.next i l.ctrl
  modified := fun w x =>
    if wenN (arrayIn l.ctrl) l.ctrl.array w && x == addrIndex l.ctrl.currReqAddr then stEn l.ctrl
    else l.modified w x
  warned :=
    match l.ctrl.currSt with
    | .chkHit => !hit l.ctrl.array && dirty (arrayIn l.ctrl) l.ctrl.array
    | .dirtyWb | .rdL2Req | .rdL2Ack => l.warned
    | .idle | .wrL1 | .fetchAfterMiss => false
  lost := l.lost || (List.finRange 4).any fun w =>
    replaces l.ctrl w && l.modified w (addrIndex l.ctrl.currReqAddr) && !l.warned

/-- Modified lines are marked. -/
def Marked (l : Log) : Prop := ∀ w x, l.modified w x = true → l.ctrl.array.blockDirty w x = true

/-- Modified lines are marked, and none was replaced without a warning. -/
structure Kept (l : Log) : Prop where
  marked : l.Marked
  warned : l.lost = false

end Log

/-- The ways a refill of the line of an address will go to. -/
def Refills (a : ArrayState) (addr : BitVec 32) (w : CacheWay) : Prop :=
  if Held a (lineOf addr) then (lines a).Holds w (addrIndex addr) (addrTag addr)
  else w = a.lru.victim (addrIndex addr)

instance (a : ArrayState) (addr : BitVec 32) (w : CacheWay) : Decidable (Refills a addr w) :=
  inferInstanceAs (Decidable (if Held a (lineOf addr) then _ ∧ _ else _ = _))

/-- The ways a request decided in `CHK_HIT` will go over unseen: as a store under a hit of
another line, or as a refill that was not shown dirty. -/
def Overwrites (s : State) (w : CacheWay) : Prop :=
  if hit s.array = true then
    s.currReqCommand = .busStore ∧ hitN s.array w = true ∧ reqTag s w ≠ addrTag s.currReqAddr
  else dirty (arrayIn s) s.array = false ∧ Refills s.array s.currReqAddr w

instance (s : State) (w : CacheWay) : Decidable (Overwrites s w) :=
  inferInstanceAs (Decidable (if hit s.array = true then _ ∧ _ ∧ _ else _ ∧ _))

/-- What keeps the marks: a refill spares the other sets, and a request that is decided by the
lookup of another line goes over clean blocks only. -/
structure Careful (s : State) : Prop where
  spares : Spares (arrayIn s) s.array
  looked : s.currSt = .chkHit → pipeLine s.array ≠ lineOf s.currReqAddr → ∀ w, Overwrites s w →
    s.array.blockDirty w (addrIndex s.currReqAddr) = false

instance (s : State) : Decidable (Careful s) :=
  decidable_of_iff (_ ∧ _) ⟨fun h => ⟨h.1, h.2⟩, fun h => ⟨h.spares, h.looked⟩⟩

/-! ### Edges without a write -/

section
variable {s : State} {i : Inputs} {w : CacheWay}

theorem wenN_quiet (hst : stEn s = false) (hre : refillEn s = false) (v : CacheWay) :
    wenN (arrayIn s) s.array v = false := wenN_idle (i := arrayIn s) hst hre v

/-- A line that is absent leaves the tree alone when it is looked up. -/
theorem lru_next_miss (hw : ∀ v, wenN (arrayIn s) s.array v = false) (hmiss : hit s.array = false) :
    (next i s).array.lru = s.array.lru := by
  refine LruTree.next_none (LruTree.accessed_none fun v => ?_)
  have hv : hitN s.array v = false := by
    rw [hit, List.any_eq_false] at hmiss
    exact Bool.eq_false_iff.2 (hmiss v (List.mem_finRange v))
  rw [accessN, hv, hw v, Bool.or_self]

/-- While nothing is written a refill goes to the same ways. -/
theorem refills_next (hst : stEn s = false) (hre : refillEn s = false)
    (hmiss : ¬ Held s.array (lineOf s.currReqAddr) → hit s.array = false) :
    Refills (next i s).array s.currReqAddr w ↔ Refills s.array s.currReqAddr w := by
  have hlines := lines_next_quiet (i := i) hst hre
  have hheld : Held (next i s).array (lineOf s.currReqAddr) ↔ Held s.array (lineOf s.currReqAddr) := by
    rw [Held, hlines]
    rfl
  unfold Refills
  by_cases hl : Held s.array (lineOf s.currReqAddr)
  · rw [if_pos hl, if_pos (hheld.2 hl), hlines]
  · rw [if_neg hl, if_neg (fun h => hl (hheld.1 h)), lru_next_miss (wenN_quiet hst hre) (hmiss hl)]

/-- The dirty bits after an edge of the controller. -/
theorem blockDirty_edge {x : Index} : (next i s).array.blockDirty w x =
    if wenN (arrayIn s) s.array w = true then
      if stEn s = true then decide (x = addrIndex s.currReqAddr) || s.array.blockDirty w x else false
    else s.array.blockDirty w x := blockDirty_next

theorem blockDirty_quiet (hst : stEn s = false) (hre : refillEn s = false) :
    (next i s).array.blockDirty = s.array.blockDirty := by
  funext v x
  rw [blockDirty_edge, wenN_quiet hst hre v]
  rfl

end

/-! ### The invariant -/

namespace Log

structure Inv (l : Log) : Prop where
  shows : Shows l.ctrl.array
  /-- A dirty bit that is shown clear is clear. -/
  shown : ∀ w, l.ctrl.array.rdDirty w = false →
    l.ctrl.array.blockDirty w l.ctrl.array.addrIndexPipe = false
  marked : ∀ w x, l.ctrl.array.blockDirty w x = l.modified w x
  warned : l.lost = false
  looked : refillSt l.ctrl.currSt = true → pipeLine l.ctrl.array = lineOf l.ctrl.currReqAddr
  /-- A line is fetched over a clean block. -/
  clean : refillSt l.ctrl.currSt = true → ∀ w, Refills l.ctrl.array l.ctrl.currReqAddr w →
    l.ctrl.array.blockDirty w (addrIndex l.ctrl.currReqAddr) = false

theorem Inv.init (tagSram : CacheWay → Sram Tag) (dataSram : CacheWay → Sram Block) :
    Inv (init tagSram dataSram) where
  shows := .reset tagSram dataSram
  shown := fun _ _ => rfl
  marked := fun _ _ => rfl
  warned := rfl
  looked := nofun
  clean := nofun

namespace Inv
variable {l : Log} {i : Inputs} {w : CacheWay}

theorem modified_next {x : Index} : (Log.next i l).modified w x =
    if wenN (arrayIn l.ctrl) l.ctrl.array w = true then
      if x = addrIndex l.ctrl.currReqAddr then stEn l.ctrl else l.modified w x
    else l.modified w x := by
  cases hw : wenN (arrayIn l.ctrl) l.ctrl.array w <;> simp [Log.next, hw]

/-- While the other sets are spared, the marks are the modified lines. -/
theorem marked_next (h : Inv l) (hs : Spares (arrayIn l.ctrl) l.ctrl.array) (w : CacheWay) (x : Index) :
    (Log.next i l).ctrl.array.blockDirty w x = (Log.next i l).modified w x := by
  refine blockDirty_edge.trans ?_
  rw [modified_next, h.marked]
  by_cases hw : wenN (arrayIn l.ctrl) l.ctrl.array w = true
  · rw [if_pos hw, if_pos hw]
    by_cases hx : x = addrIndex l.ctrl.currReqAddr
    · rw [if_pos hx, decide_eq_true hx, Bool.true_or]
      cases stEn l.ctrl <;> rfl
    · rw [if_neg hx, decide_eq_false hx, Bool.false_or]
      cases hst : stEn l.ctrl with
      | true => rfl
      | false => rw [← h.marked, hs w hw hst x hx]; rfl
  · rw [if_neg hw, if_neg hw]

/-- **Marks follow the stores exactly when the refill spares the other sets.** -/
theorem marked_iff (h : Inv l) : (Log.next i l).Marked ↔ Spares (arrayIn l.ctrl) l.ctrl.array := by
  constructor
  · intro hm w hw hst x hx
    by_contra hne
    rw [Bool.not_eq_false, h.marked] at hne
    have hkept : (Log.next i l).modified w x = true := by
      have hother : x ≠ addrIndex l.ctrl.currReqAddr := hx
      rw [modified_next, if_pos hw, if_neg hother, hne]
    have hclear : (Log.next i l).ctrl.array.blockDirty w x = false := by
      refine blockDirty_edge.trans ?_
      rw [if_pos hw, if_neg (by rw [show stEn l.ctrl = false from hst]; decide)]
    rw [hm w x hkept] at hclear
    cases hclear
  · intro hs w x hm
    exact (h.marked_next hs w x).trans hm

/-- The line a way that hits holds. -/
theorem hit_tag (h : Inv l) (hline : pipeLine l.ctrl.array = lineOf l.ctrl.currReqAddr)
    (hw : hitN l.ctrl.array w = true) :
    (lines l.ctrl.array).Holds w (addrIndex l.ctrl.currReqAddr) (addrTag l.ctrl.currReqAddr) := by
  have hheld := h.shows.hitN_iff.1 hw
  rw [hline] at hheld
  exact hheld

/-- **What a write replaces is clean.** -/
theorem replaces_clean (h : Inv l) (ok : Careful l.ctrl) (hr : replaces l.ctrl w = true) :
    l.modified w (addrIndex l.ctrl.currReqAddr) = false := by
  rw [← h.marked]
  rw [replaces, Bool.and_eq_true] at hr
  obtain ⟨hw, hwhy⟩ := hr
  by_cases hst : l.ctrl.currSt = .wrL1
  · have hf : refillSt l.ctrl.currSt = true := by rw [hst]; rfl
    refine h.clean hf w ?_
    have hline := h.looked hf
    have hhit := h.shows.hit_iff
    rw [hline] at hhit
    unfold Refills
    rw [wenN] at hw
    by_cases hh : hit l.ctrl.array = true
    · rw [if_pos hh, Bool.and_eq_true] at hw
      rw [if_pos (hhit.1 hh)]
      exact h.hit_tag hline hw.2
    · rw [if_neg hh, Bool.and_eq_true, beq_iff_eq] at hw
      rw [if_neg (fun hl => hh (hhit.2 hl))]
      exact hw.2
  · have hre : refillEn l.ctrl = false := by
      rw [← Bool.not_eq_true, refillEn_iff]
      exact hst
    have hen : stEn l.ctrl = true :=
      (wenN_enabled hw).resolve_right (by rw [show (arrayIn l.ctrl).refillEn = false from hre]; decide)
    obtain ⟨hchk, hhit, hcmd⟩ := (stEn_iff hst).1 hen
    have htag : reqTag l.ctrl w ≠ addrTag l.ctrl.currReqAddr := by
      rw [hre, Bool.false_or, bne_iff_ne] at hwhy
      exact hwhy
    have hhw : hitN l.ctrl.array w = true := by
      rw [wenN, if_pos hhit, Bool.and_eq_true] at hw
      exact hw.2
    by_cases hline : pipeLine l.ctrl.array = lineOf l.ctrl.currReqAddr
    · exact absurd (h.hit_tag hline hhw).2 htag
    · refine ok.looked hchk hline w ?_
      rw [Overwrites, if_pos hhit]
      exact ⟨hcmd, hhw, htag⟩

/-- A miss that is shown clean goes over a clean block. -/
theorem clean_chkHit (h : Inv l) (ok : Careful l.ctrl) (hchk : l.ctrl.currSt = .chkHit)
    (hmiss : hit l.ctrl.array = false) (hd : dirty (arrayIn l.ctrl) l.ctrl.array = false)
    (hr : Refills l.ctrl.array l.ctrl.currReqAddr w) :
    l.ctrl.array.blockDirty w (addrIndex l.ctrl.currReqAddr) = false := by
  have hno : ¬ hit l.ctrl.array = true := by rw [hmiss]; decide
  by_cases hline : pipeLine l.ctrl.array = lineOf l.ctrl.currReqAddr
  · have habsent : ¬ Held l.ctrl.array (lineOf l.ctrl.currReqAddr) := by
      rw [← hline, ← h.shows.hit_iff]
      exact hno
    have hidx : l.ctrl.array.addrIndexPipe = addrIndex l.ctrl.currReqAddr := congrArg Prod.fst hline
    rw [Refills, if_neg habsent] at hr
    have hshown := h.shown w (by
      rw [dirty, victimPipe, hidx] at hd
      rw [hr]
      exact hd)
    rwa [hidx] at hshown
  · refine ok.looked hchk hline w ?_
    rw [Overwrites, if_neg hno]
    exact ⟨hd, hr⟩

theorem clean_next (h : Inv l) (ok : Careful l.ctrl) (hf : refillSt (Dcache.next i l.ctrl).currSt = true)
    (hr : Refills (Dcache.next i l.ctrl).array l.ctrl.currReqAddr w) :
    (Dcache.next i l.ctrl).array.blockDirty w (addrIndex l.ctrl.currReqAddr) = false := by
  rcases nextSt_refillSt hf with ⟨hchk, hmiss, hd⟩ | ⟨hold, hwr⟩
  · have hst : stEn l.ctrl = false := by simp [stEn, hchk, hmiss]
    have hre : refillEn l.ctrl = false := by simp [refillEn, hchk]
    rw [refills_next hst hre (fun _ => hmiss)] at hr
    rw [blockDirty_quiet hst hre]
    exact h.clean_chkHit ok hchk hmiss hd hr
  · have hchk : l.ctrl.currSt ≠ .chkHit := fun hc => by
      rw [hc] at hold
      cases hold
    have hst : stEn l.ctrl = false := by simp [stEn, hchk, hwr]
    have hre : refillEn l.ctrl = false := by simp [refillEn, hwr]
    have hmiss : ¬ Held l.ctrl.array (lineOf l.ctrl.currReqAddr) → hit l.ctrl.array = false := by
      rw [← h.looked hold, ← h.shows.hit_iff, Bool.not_eq_true]
      exact id
    rw [refills_next hst hre hmiss] at hr
    rw [blockDirty_quiet hst hre]
    exact h.clean hold w hr

theorem next (h : Inv l) (ok : Careful l.ctrl) : Inv (Log.next i l) := by
  have hkeep : refillSt (Dcache.next i l.ctrl).currSt = true →
      (Dcache.next i l.ctrl).currReqAddr = l.ctrl.currReqAddr := by
    intro hf
    have hacc : reqAccept i l.ctrl = false := reqAccept_miss (missSt_of_refillSt hf)
    have hidle : nextSt i l.ctrl ≠ .idle := fun hid => by
      rw [show (Dcache.next i l.ctrl).currSt = .idle from hid] at hf
      cases hf
    simp only [Dcache.next, hacc, if_neg hidle, Bool.false_eq_true, if_false]
  exact
    { shows := .next ..
      shown := fun _ hd => rdDirty_next hd
      marked := h.marked_next ok.spares
      warned := by
        rw [Log.next, h.warned, Bool.false_or, List.any_eq_false]
        intro w _
        rw [Bool.and_eq_true, Bool.and_eq_true]
        intro hl
        rw [h.replaces_clean ok hl.1.1] at hl
        cases hl.1.2
      looked := fun hf => by
        rw [show (Log.next i l).ctrl.currReqAddr = l.ctrl.currReqAddr from hkeep hf]
        rfl
      clean := fun hf w hr => by
        have haddr : (Log.next i l).ctrl.currReqAddr = l.ctrl.currReqAddr := hkeep hf
        rw [haddr] at hr ⊢
        exact h.clean_next ok hf hr }

end Inv

end Log

/-- **When dirty marks hold.** In a run whose decisions are careful, modified lines are marked
until they are replaced, none is replaced without a warning, and the next edge keeps the marks
exactly when its refill spares the other sets' dirty bits; so it is whether an edge of the
array leaves the other sets alone. -/
theorem marks_kept {tagSram : CacheWay → Sram Tag} {dataSram : CacheWay → Sram Block} {l : Log}
    (hl : Run.Reach Log.next (fun _ l => Careful l.ctrl) (Log.init tagSram dataSram) l) :
    l.Kept ∧ (∀ i, (Log.next i l).Marked ↔ Spares (arrayIn l.ctrl) l.ctrl.array) ∧
      ∀ i a, Apart i a ↔ Spares i a := by
  have h := hl.invariant Log.Inv (Log.Inv.init _ _) fun _ _ hi ok => hi.next ok
  exact ⟨⟨fun w x hm => (h.marked w x).trans hm, h.warned⟩, fun _ => h.marked_iff, fun _ _ => apart_iff⟩

/-! ### A mark kept and a mark dropped -/

/-- A run from reset with cleared memories. -/
def logged (is : List Inputs) : Log :=
  is.foldl (fun l i => l.next i) (.init (fun _ => ⟨fun _ => 0, 0⟩) fun _ => ⟨fun _ => 0, 0⟩)

/-- A store that misses, and the refill of its line. -/
def storedIns : List Inputs := storeWord 0x220 7 :: missIns.tail ++ [({} : Inputs)]

/-- Then a load that misses in the same set, and its refill into another way. -/
def spareIns : List Inputs := storedIns ++ loadWord 0x420 :: missIns.tail ++ [({} : Inputs)]

theorem marks_kept_spare : (logged spareIns).Kept ∧ (logged spareIns).modified 0 1 = true ∧
    (lines (logged spareIns).ctrl.array).valid 2 1 = true :=
  ⟨(marks_kept (.of_keeps spareIns .init (by decide +kernel))).1, by decide +kernel, by decide +kernel⟩

/-- Then a load that misses in the next set, up to the refill of its line into the same way. -/
def loadMissIns : List Inputs := storedIns ++ loadWord 0x240 :: missIns.tail

def loadedIns : List Inputs := loadMissIns ++ [({} : Inputs)]

/-- Or a second store that misses, and a store to a line that is not there, taken while a load
of the second line hits. -/
def staleIns : List Inputs :=
  storedIns ++ storeWord 0x240 7 :: missIns.tail ++ [loadWord 0x240, {}, storeWord 0x420 7, {}]

/-- The refill clears the mark of the modified line in the other set; the store under a stale
hit replaces it. -/
theorem marks_dropped : (∃ i a, ¬ Apart i a) ∧
    (∃ is, (logged is).modified 0 1 = true ∧ (logged is).ctrl.array.blockDirty 0 1 = false) ∧
    ∃ is, (logged is).lost = true := by
  refine ⟨⟨arrayIn (logged loadMissIns).ctrl, (logged loadMissIns).ctrl.array, fun h => ?_⟩,
    ⟨loadedIns, by decide +kernel, by decide +kernel⟩, staleIns, by decide +kernel⟩
  have hspares := apart_iff.1 h
  exact absurd hspares (by decide +kernel)

end R10K.Dcache
