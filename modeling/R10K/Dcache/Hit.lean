import R10K.Dcache.Lines
import R10K.Lib.Run

/-! When the data cache decides a hit for the request it serves.

A request is decided in the cycle after it is registered, by an array that was addressed
with the request before it (with line 0, if the controller was idle). So the decision is
right when both are of one line; otherwise it is right by chance, when the cache holds both
lines or neither, and a store then still goes wrong on a hit. Only after a refill is the
next request presented for a cycle of its own before it is decided. -/
namespace R10K.Dcache
open Cache Assoc
variable {i : Inputs} {s : State}

/-- A request accepted outside `WR_L1` is for the line of the registered address, or its line
is in the cache exactly if that one is, and it is no store when they are. A store that will find
its line is aligned. -/
structure Aims (i : Inputs) (s : State) : Prop where
  line : reqAccept i s = true → s.currSt ≠ .wrL1 → lineOf i.reqAddr ≠ lineOf s.currReqAddr →
    (Held s.array (lineOf i.reqAddr) ↔ Held s.array (lineOf s.currReqAddr)) ∧
      (i.reqCommand = .busStore → ¬ Held s.array (lineOf i.reqAddr))
  access : reqAccept i s = true → i.reqCommand = .busStore →
    Held (next i s).array (lineOf i.reqAddr) → Lsq.Access i.reqAddr i.reqSize

instance : Decidable (Aims i s) :=
  @decidable_of_iff _ (_ ∧ _) ⟨fun h => ⟨h.1, h.2⟩, fun h => ⟨h.line, h.access⟩⟩
    (@instDecidableAnd _ _ inferInstance inferInstance)

/-- In `CHK_HIT`, what the controller does suits the request. -/
structure Decides (i : Inputs) (s : State) : Prop where
  held : s.currSt = .chkHit → hit s.array = true → Held s.array (lineOf s.currReqAddr)
  store : s.currSt = .chkHit → stEn s = true →
    Stores (lines s.array) (lines (next i s).array) s.currReqAddr s.currReqStData s.currReqSize
  present : s.currSt = .chkHit → Held s.array (lineOf s.currReqAddr) →
    hit s.array = true ∧ (nextSt i s = .chkHit ∨ nextSt i s = .idle)

/-! ### The invariant -/

/-- The states that serve a miss. -/
def missSt : CtrlSt → Bool
  | .dirtyWb | .rdL2Req | .rdL2Ack | .wrL1 => true
  | .idle | .chkHit | .fetchAfterMiss => false

/-- The states that fetch a line. -/
def refillSt : CtrlSt → Bool
  | .rdL2Req | .rdL2Ack | .wrL1 => true
  | .idle | .chkHit | .dirtyWb | .fetchAfterMiss => false

structure Inv (s : State) : Prop where
  shows : Shows s.array
  unique : (lines s.array).Unique
  /-- The request under decision and the line the array looked up are both held or both not. -/
  check : s.currSt = .chkHit → (Held s.array (lineOf s.currReqAddr) ↔ Held s.array (pipeLine s.array))
  /-- A store that hits was looked up itself. -/
  store : s.currSt = .chkHit → s.currReqCommand = .busStore → Held s.array (pipeLine s.array) →
    pipeLine s.array = lineOf s.currReqAddr
  /-- A line that is being fetched is not in the cache. -/
  absent : missSt s.currSt = true → ¬ Held s.array (lineOf s.currReqAddr)
  /-- From the second cycle of a miss on the array looks up the request itself. -/
  looked : missSt s.currSt = true → pipeLine s.array = lineOf s.currReqAddr
  access : s.currSt = .chkHit ∨ s.currSt = .fetchAfterMiss → s.currReqCommand = .busStore →
    Held s.array (lineOf s.currReqAddr) → Lsq.Access s.currReqAddr s.currReqSize

theorem Inv.reset (tagSram : CacheWay → Sram Tag) (dataSram : CacheWay → Sram Block) :
    Inv (reset tagSram dataSram) where
  shows := .reset tagSram dataSram
  unique := Store.unique_of_empty fun _ _ => rfl
  check := nofun
  store := nofun
  absent := nofun
  looked := nofun
  access := fun h => by rcases h with h | h <;> cases h

/-! ### What one edge does to the array -/

theorem reqReady_iff : reqReady s = true ↔
    s.currSt = .idle ∨ s.currSt = .wrL1 ∨ (s.currSt = .chkHit ∧ hit s.array = true) := by
  simp [reqReady, or_assoc]

theorem refillEn_iff : refillEn s = true ↔ s.currSt = .wrL1 := beq_iff_eq

/-- A store outside `WR_L1` is one that hits in `CHK_HIT`. -/
theorem stEn_iff (hst : s.currSt ≠ .wrL1) : stEn s = true ↔
    s.currSt = .chkHit ∧ hit s.array = true ∧ s.currReqCommand = .busStore := by
  simp [stEn, hst, and_assoc]

/-- A request is decided next when it is accepted outside `WR_L1`, or after it was presented
for a cycle. -/
theorem nextSt_chkHit (h : nextSt i s = .chkHit) :
    (reqAccept i s = true ∧ s.currSt ≠ .wrL1) ∨ s.currSt = .fetchAfterMiss := by
  rw [nextSt] at h
  cases hst : s.currSt <;> simp only [hst] at h
  case fetchAfterMiss => exact .inr rfl
  case idle =>
    split at h
    · rename_i hacc
      exact .inl ⟨hacc, nofun⟩
    · cases h
  case chkHit =>
    split at h
    · split at h
      · rename_i hacc
        exact .inl ⟨hacc, nofun⟩
      · cases h
    · split at h <;> cases h
  all_goals split at h <;> cases h

/-- A miss starts in `CHK_HIT` and goes on until `WR_L1`. -/
theorem nextSt_miss (h : missSt (nextSt i s) = true) :
    (s.currSt = .chkHit ∧ hit s.array = false) ∨ (missSt s.currSt = true ∧ s.currSt ≠ .wrL1) := by
  rw [nextSt] at h
  cases hst : s.currSt <;> simp only [hst] at h
  case chkHit =>
    refine .inl ⟨rfl, ?_⟩
    rw [← Bool.not_eq_true]
    intro hh
    rw [if_pos hh] at h
    split at h <;> cases h
  case dirtyWb | rdL2Req | rdL2Ack => exact .inr ⟨rfl, nofun⟩
  case idle | wrL1 => split at h <;> cases h
  case fetchAfterMiss => cases h

/-- Two bits do not reach the four of `writeback_ptr==4`. -/
theorem writebackPtr_ne (s : State) : s.writebackPtr.toNat ≠ 4 := by omega

theorem missSt_of_refillSt {st : CtrlSt} (h : refillSt st = true) : missSt st = true := by
  cases st <;> first | rfl | cases h

/-- A refill starts in `CHK_HIT`, under a victim shown clean: the writeback does not end. -/
theorem nextSt_refillSt (h : refillSt (nextSt i s) = true) :
    (s.currSt = .chkHit ∧ hit s.array = false ∧ dirty (arrayIn s) s.array = false) ∨
      (refillSt s.currSt = true ∧ s.currSt ≠ .wrL1) := by
  rcases nextSt_miss (missSt_of_refillSt h) with ⟨hst, hmiss⟩ | ⟨hst, hwr⟩
  · refine .inl ⟨hst, hmiss, ?_⟩
    rw [nextSt, hst] at h
    simp only [hmiss, Bool.false_eq_true, if_false] at h
    rw [← Bool.not_eq_true]
    intro hd
    rw [if_pos hd] at h
    cases h
  · refine .inr ⟨?_, hwr⟩
    cases hs : s.currSt <;> rw [hs] at hst
    case dirtyWb =>
      rw [nextSt, hs] at h
      simp only [if_neg (writebackPtr_ne s)] at h
      cases h
    case rdL2Req | rdL2Ack | wrL1 => rfl
    all_goals cases hst

/-- A miss accepts no request on its way. -/
theorem reqAccept_miss (h : missSt (nextSt i s) = true) : reqAccept i s = false := by
  have hready : reqReady s = false := by
    rw [← Bool.not_eq_true, reqReady_iff]
    rcases nextSt_miss h with ⟨hst, hh⟩ | ⟨hm, hwr⟩
    · rw [hst, hh]
      decide
    · cases hst : s.currSt <;> simp_all [missSt]
  rw [reqAccept, hready, Bool.and_false]

/-- The request to be decided, or presented, next was accepted just now or presented just now. -/
theorem accept_or_keep (h : (next i s).currSt = .chkHit ∨ (next i s).currSt = .fetchAfterMiss) :
    reqAccept i s = true ∨ (s.currSt = .fetchAfterMiss ∧ (next i s).currReqAddr = s.currReqAddr ∧
      (next i s).currReqSize = s.currReqSize ∧ (next i s).currReqCommand = s.currReqCommand) := by
  rcases h with hchk | hfetch
  · rcases nextSt_chkHit hchk with ⟨hacc, _⟩ | hst
    · exact .inl hacc
    · have hacc : reqAccept i s = false := by simp [reqAccept, reqReady, hst]
      have hidle : nextSt i s ≠ .idle := fun hid => by
        rw [show nextSt i s = .chkHit from hchk] at hid
        cases hid
      refine .inr ⟨hst, ?_, ?_, ?_⟩ <;>
        simp only [next, hacc, if_neg hidle, Bool.false_eq_true, if_false]
  · have hwr : s.currSt = .wrL1 ∧ i.reqValid = true := by
      have hnext : nextSt i s = .fetchAfterMiss := hfetch
      rw [nextSt] at hnext
      cases hst : s.currSt <;> simp only [hst] at hnext
      case wrL1 =>
        split at hnext
        · exact ⟨rfl, by assumption⟩
        · cases hnext
      case chkHit =>
        split at hnext
        · split at hnext <;> cases hnext
        · split at hnext <;> cases hnext
      case fetchAfterMiss => cases hnext
      all_goals split at hnext <;> cases hnext
    left
    rw [reqAccept, hwr.2, reqReady_iff.2 (.inr (.inl hwr.1))]
    rfl

/-- Without a store or a refill the lines stay. -/
theorem lines_next_quiet (hst : stEn s = false) (hre : refillEn s = false) :
    lines (next i s).array = lines s.array :=
  lines_next_none fun v => wenN_idle (i := arrayIn s) hst hre v

namespace Inv

theorem hit_iff (h : Inv s) : hit s.array = true ↔ Held s.array (pipeLine s.array) := h.shows.hit_iff

/-- **A store that hits changes its own bytes of its own line.** -/
theorem stores (h : Inv s) (hchk : s.currSt = .chkHit) (hst : stEn s = true) :
    Stores (lines s.array) (lines (next i s).array) s.currReqAddr s.currReqStData s.currReqSize := by
  obtain ⟨_, hhit, hcmd⟩ := (stEn_iff (by rw [hchk]; decide)).1 hst
  have hpipe := h.store hchk hcmd (h.hit_iff.1 hhit)
  obtain ⟨w, hw⟩ := h.hit_iff.1 hhit
  have hwN := h.shows.hitN_iff.2 hw
  have hheld : (lines s.array).Holds w (addrIndex s.currReqAddr) (addrTag s.currReqAddr) := by
    rw [hpipe] at hw
    exact hw
  have hfill : lines (next i s).array = (lines s.array).fill w (addrIndex s.currReqAddr)
      (addrTag s.currReqAddr) (wrBlock (arrayIn s) s.array) :=
    lines_next_fill (i := arrayIn s) (h.shows.wenN_hit h.unique
      (by rw [show (arrayIn s).stEn = true from hst, Bool.true_or]) hwN)
  have hblock : wrBlock (arrayIn s) s.array =
      merge ((lines s.array).block w (addrIndex s.currReqAddr)) s.currReqSize
        (addrOffset s.currReqAddr) s.currReqStData := by
    have hre : (arrayIn s).refillEn = false := by
      rw [← Bool.not_eq_true]
      exact fun hre => absurd (hchk.symm.trans (refillEn_iff.1 hre)) (by decide)
    rw [wrBlock, hre, h.shows.rdBlock_eq h.unique hwN, hpipe]
    rfl
  refine ⟨?_, ?_, w, hheld, fun v x k => ?_⟩
  · funext v x
    simp only [hfill, Store.fill]
    split
    · rename_i heq
      rw [heq.1, heq.2]
      exact hheld.1.symm
    · rfl
  · funext v x
    simp only [hfill, Store.fill]
    split
    · rename_i heq
      rw [heq.1, heq.2]
      exact hheld.2.symm
    · rfl
  · simp only [hfill, Store.fill]
    by_cases heq : v = w ∧ x = addrIndex s.currReqAddr
    · rw [if_pos heq, if_pos heq, hblock, heq.1, heq.2]
      exact merge_eq (h.access (.inl hchk) hcmd ⟨w, hheld⟩)
    · rw [if_neg heq, if_neg heq]

/-- Outside `WR_L1` the lines held stay the same. -/
theorem held_next (h : Inv s) (hst : s.currSt ≠ .wrL1) (l : Index × Tag) :
    Held (next i s).array l ↔ Held s.array l := by
  have hre : refillEn s = false := by
    rw [← Bool.not_eq_true, refillEn_iff]
    exact hst
  by_cases hen : stEn s = true
  · have hs := h.stores (i := i) ((stEn_iff hst).1 hen).1 hen
    exact exists_congr fun w => by rw [Store.Holds, Store.Holds, hs.valid, hs.tag]
  · rw [Bool.not_eq_true] at hen
    rw [Held, lines_next_quiet hen hre]
    rfl

/-- **An edge keeps the lines apart.** A refill writes a line that is nowhere else. -/
theorem unique_next (h : Inv s) : (lines (next i s).array).Unique := by
  by_cases hst : s.currSt = .wrL1
  · have hmiss : missSt s.currSt = true := by rw [hst]; rfl
    have hno := h.absent hmiss
    have hhit : hit s.array = false := by
      rw [← Bool.not_eq_true, h.hit_iff, h.looked hmiss]
      exact hno
    have hen : ((arrayIn s).stEn || (arrayIn s).refillEn) = true := by
      rw [show (arrayIn s).refillEn = true from refillEn_iff.2 hst, Bool.or_true]
    have hfill : lines (next i s).array = _ := lines_next_fill (wenN_miss (i := arrayIn s) hen hhit)
    rw [hfill]
    exact h.unique.fill fun v hv => absurd ⟨v, hv⟩ hno
  · intro x t v v' hv hv'
    have hre : refillEn s = false := by
      rw [← Bool.not_eq_true, refillEn_iff]
      exact hst
    by_cases hen : stEn s = true
    · have hs := h.stores (i := i) ((stEn_iff hst).1 hen).1 hen
      rw [Store.Holds, hs.valid, hs.tag] at hv hv'
      exact h.unique x t v v' hv hv'
    · rw [Bool.not_eq_true] at hen
      rw [lines_next_quiet hen hre] at hv hv'
      exact h.unique x t v v' hv hv'

/-- What an edge leaves to be decided next: the request accepted, looked up under the line
registered before it. -/
theorem check_next (h : Inv s) (ok : Aims i s) (hchk : (next i s).currSt = .chkHit) :
    (Held (next i s).array (lineOf (next i s).currReqAddr) ↔ Held (next i s).array (pipeLine (next i s).array)) ∧
      ((next i s).currReqCommand = .busStore → Held (next i s).array (pipeLine (next i s).array) →
        pipeLine (next i s).array = lineOf (next i s).currReqAddr) := by
  have hpipe : pipeLine (next i s).array = lineOf s.currReqAddr := rfl
  rw [hpipe]
  by_cases hacc : reqAccept i s = true
  · have haddr : (next i s).currReqAddr = i.reqAddr := if_pos hacc
    have hcmd : (next i s).currReqCommand = i.reqCommand := if_pos hacc
    have hwr : s.currSt ≠ .wrL1 := by
      rcases nextSt_chkHit hchk with ⟨_, hwr⟩ | hfetch
      · exact hwr
      · rw [hfetch]
        decide
    rw [haddr, hcmd, h.held_next hwr, h.held_next hwr]
    by_cases hline : lineOf i.reqAddr = lineOf s.currReqAddr
    · exact ⟨by rw [hline], fun _ _ => hline.symm⟩
    · obtain ⟨hsame, hstore⟩ := ok.line hacc hwr hline
      exact ⟨hsame, fun hc hheld => absurd (hsame.2 hheld) (hstore hc)⟩
  · have hidle : nextSt i s ≠ .idle := fun hid => by
      rw [show nextSt i s = .chkHit from hchk] at hid
      cases hid
    have haddr : (next i s).currReqAddr = s.currReqAddr := by
      simp only [Dcache.next, if_neg hacc, if_neg hidle]
    rw [haddr]
    exact ⟨Iff.rfl, fun _ _ => rfl⟩

/-- A miss keeps its request, and its line stays away until `WR_L1` has written it. -/
theorem miss_next (h : Inv s) (hmiss : missSt (next i s).currSt = true) :
    (next i s).currReqAddr = s.currReqAddr ∧ ¬ Held (next i s).array (lineOf s.currReqAddr) := by
  have hacc : reqAccept i s = false := reqAccept_miss hmiss
  have hidle : nextSt i s ≠ .idle := fun hid => by
    rw [show (next i s).currSt = .idle from hid] at hmiss
    cases hmiss
  refine ⟨?_, ?_⟩
  · simp only [Dcache.next, hacc, if_neg hidle, Bool.false_eq_true, if_false]
  · rcases nextSt_miss hmiss with ⟨hst, hh⟩ | ⟨hm, hwr⟩
    · rw [h.held_next (by rw [hst]; decide), h.check hst, ← h.hit_iff, hh]
      decide
    · rw [h.held_next hwr]
      exact h.absent hm

theorem next (h : Inv s) (ok : Aims i s) : Inv (next i s) where
  shows := .next ..
  unique := h.unique_next
  check := fun hchk => (h.check_next ok hchk).1
  store := fun hchk => (h.check_next ok hchk).2
  absent := fun hmiss => by
    rw [(h.miss_next hmiss).1]
    exact (h.miss_next hmiss).2
  looked := fun hmiss => by
    rw [(h.miss_next hmiss).1]
    rfl
  access := fun hst hcmd hheld => by
    rcases accept_or_keep hst with hacc | ⟨hfetch, haddr, hsize, hc⟩
    · have haddr : (Dcache.next i s).currReqAddr = i.reqAddr := if_pos hacc
      have hsize : (Dcache.next i s).currReqSize = i.reqSize := if_pos hacc
      have hc : (Dcache.next i s).currReqCommand = i.reqCommand := if_pos hacc
      rw [haddr, hsize]
      rw [haddr] at hheld
      exact ok.access hacc (hc.symm.trans hcmd) hheld
    · rw [haddr, hsize]
      rw [haddr, h.held_next (by rw [hfetch]; decide)] at hheld
      exact h.access (.inr hfetch) (hc.symm.trans hcmd) hheld

theorem decides (h : Inv s) (i : Inputs) : Decides i s where
  held := fun hchk hh => (h.check hchk).2 (h.hit_iff.1 hh)
  store := h.stores
  present := fun hchk hheld => by
    have hh : hit s.array = true := h.hit_iff.2 ((h.check hchk).1 hheld)
    refine ⟨hh, ?_⟩
    rw [nextSt, hchk]
    simp only [if_pos hh]
    split
    · exact .inl rfl
    · exact .inr rfl

end Inv

/-- **The decision is for the request**, in a run whose requests are all aimed. -/
theorem decides_served {tagSram : CacheWay → Sram Tag} {dataSram : CacheWay → Sram Block}
    (h : Run.Reach next Aims (reset tagSram dataSram) s) (i : Inputs) : Decides i s :=
  (h.invariant Inv (Inv.reset tagSram dataSram) fun _ _ hi ok => hi.next ok).decides i

/-! ### One line, fetched and asked for again -/

/-- After reset, with cleared memories. -/
def cleared : State := reset (fun _ => ⟨fun _ => 0, 0⟩) (fun _ => ⟨fun _ => 0, 0⟩)

def loadWord (addr : BitVec 32) : Inputs :=
  { reqAddr := addr, reqSize := 2, reqCommand := .busLoad, reqValid := true }
def storeWord (addr data : BitVec 32) : Inputs :=
  { reqAddr := addr, reqSize := 2, reqStData := data, reqCommand := .busStore, reqValid := true }

/-- A load that misses, and its refill up to `WR_L1`: four requests, accepted under the tags
1 to 4, and their answers. -/
def missIns : List Inputs :=
  [loadWord 0x200, {}, {}, { dmem2procResponse := 1 }, { dmem2procResponse := 2, dmem2procTag := 1 },
    { dmem2procResponse := 3, dmem2procTag := 2 }, { dmem2procResponse := 4, dmem2procTag := 3 },
    { dmem2procTag := 4 }, {}]

/-- A store to the line, taken as it is written into the array and presented before it is decided. -/
def storeIns : List Inputs := missIns ++ [storeWord 0x204 7, {}]

theorem decides_served_store :
    Decides {} (storeIns.foldl (fun s i => next i s) cleared) ∧
      stEn (storeIns.foldl (fun s i => next i s) cleared) = true :=
  ⟨decides_served (.of_keeps storeIns .init (by decide +kernel)) {}, by decide +kernel⟩

/-- A load of the line, one cycle after the controller went idle. -/
def reloadIns : List Inputs := missIns ++ [{}, loadWord 0x200]

/-- The line is in the cache, but the array was asked for line 0. -/
theorem present_missed : ∃ s i, Run.Reach next (fun _ _ => True) cleared s ∧ ¬ Decides i s := by
  refine ⟨reloadIns.foldl (fun s i => next i s) cleared, {}, .of_keeps reloadIns .init (by decide +kernel),
    fun h => ?_⟩
  have hhit := (h.present (by decide +kernel) (by decide +kernel)).1
  exact absurd hhit (by decide +kernel)

end R10K.Dcache
