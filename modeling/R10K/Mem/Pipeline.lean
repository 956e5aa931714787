import Mathlib.Data.Fintype.Card
import R10K.Lib.DelayLine
import R10K.Lib.Memory
import R10K.Mem.Loop

/-! The memory is a delay line.

A tag that is taken counts down from the latency, one command is taken an edge, so no two
counters ever show the same. The counters are therefore the places of a delay line: a load
is answered exactly `latency` edges after it was taken, with what the memory held then, and
the bus is never wanted by two. -/
namespace R10K.Mem
open Cache DelayLine

/-- A command that was taken: its tag, and for a load its address and what it read. -/
structure Request where
  tag : MemTag
  load : Option (BitVec 32 × BitVec 64)

/-- The command that an edge takes. -/
def request (i : Inputs) (s : State) : Option Request := (acquired i s).map fun k =>
  ⟨k, if i.proc2memCommand = .busLoad then
    some (i.proc2memAddr, s.unifiedMemory (lineAt i.proc2memAddr)) else none⟩

/-- The counters are the places of the line. -/
structure Holds (latency : BitVec 16) (s : State) (l : DelayLine Request) : Prop where
  short : Short latency.toNat l
  busy : ∀ c r, l c = some r → (s.cyclesLeft r.tag).toNat = c + 1 ∧ s.waitingForBus r.tag = r.load.isSome ∧
    ∀ x ∈ r.load, s.loadedData r.tag = x.2
  held : ∀ k, s.cyclesLeft k ≠ 0 → ∃ r, l ((s.cyclesLeft k).toNat - 1) = some r ∧ r.tag = k
  rest : ∀ k, s.cyclesLeft k = 0 → s.waitingForBus k = false

/-- The load that leaves the line, with its tag. -/
def leaving (r : Option Request) : Option (MemTag × BitVec 32 × BitVec 64) :=
  r.bind fun r => r.load.map fun x => (r.tag, x)

/-- The bus shows the load that left the line. -/
structure Shows (s : State) (out : Option Request) : Prop where
  tag : s.mem2procTag = (leaving out).elim 0 fun x => tagBus x.1
  data : s.mem2procData = (leaving out).map fun x => x.2.2

variable {latency : BitVec 16} {i : Inputs} {s : State} {l : DelayLine Request}

theorem Holds.init (memory : Line → BitVec 64) (loaded : MemTag → BitVec 64) :
    Holds latency (Mem.init memory loaded) empty where
  short := short_empty
  busy := nofun
  held := fun _ h => absurd rfl h
  rest := fun _ _ => rfl

namespace Holds

/-- A request in the line holds its tag. -/
theorem not_free (h : Holds latency s l) {c : Nat} {r : Request} (hr : l c = some r) : free s r.tag = false := by
  have hc := (h.busy c r hr).1
  rw [free, Bool.and_eq_false_iff]
  left
  rw [beq_eq_false_iff_ne]
  intro h0
  rw [h0] at hc
  cases hc

theorem not_acquired (h : Holds latency s l) {c : Nat} {r : Request} (hr : l c = some r) :
    acquired i s ≠ some r.tag := fun ha => by
  have hfree := (Fin.find?_eq_some_iff.1 ha).1
  rw [h.not_free hr, Bool.and_false] at hfree
  cases hfree

/-- The counter of a request in the line counts down. -/
theorem counted_toNat (h : Holds latency s l) {c : Nat} {r : Request} (hr : l c = some r) :
    (counted latency i s r.tag).toNat = c := by
  have hc := (h.busy c r hr).1
  have hle : (1 : BitVec 16) ≤ s.cyclesLeft r.tag := by
    rw [BitVec.le_def, hc]
    exact Nat.succ_pos c
  have hpos : s.cyclesLeft r.tag > 0 := by
    rw [gt_iff_lt, BitVec.lt_def, hc]
    exact Nat.succ_pos c
  rw [counted, if_pos hpos, BitVec.toNat_sub_of_le hle, hc]
  rfl

/-- A load that is not the command's own still waits. -/
theorem waits_eq (h : Holds latency s l) {c : Nat} {r : Request} (hr : l c = some r) :
    waits i s r.tag = r.load.isSome := by
  rw [waits, beq_eq_false_iff_ne.2 (acquiredLoad_ne (h.not_acquired hr)), Bool.or_false, (h.busy c r hr).2.1]

theorem loads_eq (h : Holds latency s l) {c : Nat} {r : Request} (hr : l c = some r) :
    ∀ x ∈ r.load, loads i s r.tag = x.2 := fun x hx => by
  rw [loads, if_neg (acquiredLoad_ne (h.not_acquired hr))]
  exact (h.busy c r hr).2.2 x hx

end Holds

theorem acquired_free {k : MemTag} (h : acquired i s = some k) :
    acquires i = true ∧ s.cyclesLeft k = 0 ∧ s.waitingForBus k = false := by
  have hp := (Fin.find?_eq_some_iff.1 h).1
  rwa [free, Bool.and_eq_true, Bool.and_eq_true, beq_iff_eq, Bool.not_eq_true'] at hp

/-- The tag that is taken starts from the latency. -/
theorem counted_acquired {k : MemTag} (h : acquired i s = some k) : counted latency i s k = latency := by
  rw [counted, (acquired_free h).2.1, if_neg (by decide), if_pos h]

/-- A load is due when it is the head of the line. -/
theorem Holds.due_iff (h : Holds latency s l) (hlat : latency ≠ 0) {k : MemTag} :
    counted latency i s k = 0 ∧ waits i s k = true ↔ ∃ r, l 0 = some r ∧ r.load.isSome = true ∧ r.tag = k := by
  constructor
  · intro ⟨hcount, hwait⟩
    have hne : acquired i s ≠ some k := fun ha => hlat ((counted_acquired ha).symm.trans hcount)
    rw [waits, beq_eq_false_iff_ne.2 (acquiredLoad_ne hne), Bool.or_false] at hwait
    have hbusy : s.cyclesLeft k ≠ 0 := fun h0 => by
      rw [h.rest k h0] at hwait
      cases hwait
    obtain ⟨r, hr, rfl⟩ := h.held k hbusy
    have hzero := h.counted_toNat (i := i) hr
    rw [hcount] at hzero
    rw [← hzero] at hr
    exact ⟨r, hr, (h.busy _ r hr).2.1.symm.trans hwait, rfl⟩
  · rintro ⟨r, hr, hload, rfl⟩
    exact ⟨BitVec.eq_of_toNat_eq (h.counted_toNat hr), (h.waits_eq hr).trans hload⟩

/-- The bus is never wanted by two loads: it goes to the head of the line. -/
theorem Holds.answered_eq (h : Holds latency s l) (hlat : latency ≠ 0) :
    answered latency i s = (leaving (l 0)).map (·.1) := by
  ext k
  have hhead : (leaving (l 0)).map (·.1) = some k ↔ ∃ r, l 0 = some r ∧ r.load.isSome = true ∧ r.tag = k := by
    cases hr : l 0 with
    | none => simp [leaving]
    | some r => cases hload : r.load <;> simp [leaving, hload]
  rw [hhead, answered, Fin.find?_eq_some_iff]
  simp only [Bool.and_eq_true, beq_iff_eq]
  rw [h.due_iff hlat]
  refine and_iff_left_of_imp fun hdue j hj => ?_
  obtain ⟨r, hr, _, hk⟩ := hdue
  rw [← Bool.not_eq_true, Bool.and_eq_true, beq_iff_eq, h.due_iff hlat]
  rintro ⟨r', hr', _, hj'⟩
  rw [hr, Option.some.injEq] at hr'
  rw [← hk, ← hj', hr'] at hj
  exact lt_irrefl _ hj

/-! ### One edge -/

theorem request_eq_some {r : Request} : request i s = some r ↔ ∃ k, acquired i s = some k ∧ r = ⟨k,
    if i.proc2memCommand = .busLoad then some (i.proc2memAddr, s.unifiedMemory (lineAt i.proc2memAddr))
    else none⟩ := by
  rw [request, Option.map_eq_some_iff]
  exact exists_congr fun k => and_congr_right fun _ => eq_comm

/-- **An edge of the memory is an edge of the line.** -/
theorem Holds.next (h : Holds latency s l) (hlat : latency ≠ 0) :
    Holds latency (next latency i s) (shift latency.toNat (request i s) l) := by
  have hpos : 0 < latency.toNat := Nat.pos_of_ne_zero fun h0 => hlat (BitVec.eq_of_toNat_eq h0)
  rw [next_eq]
  refine ⟨h.short.shift _, fun c r hr => ?_, fun k hk => ?_, fun k hk => ?_⟩
  · dsimp only
    rcases shift_eq_some.1 hr with ⟨hc, hnew⟩ | ⟨hc, hold⟩
    · -- the command of this edge is put in at the end
      obtain ⟨k, ha, rfl⟩ := request_eq_some.1 hnew
      have hans : answered latency i s ≠ some k := fun hk => by
        have := (Fin.find?_eq_some_iff.1 hk).1
        rw [counted_acquired ha, Bool.and_eq_true, beq_iff_eq] at this
        exact hlat this.1
      refine ⟨by rw [counted_acquired ha, hc], ?_, ?_⟩
      · rw [bne_iff_ne.2 hans, Bool.and_true, waits, (acquired_free ha).2.2, Bool.false_or, acquiredLoad]
        split <;> simp [ha]
      · intro x hx
        split at hx
        · rename_i hload
          rw [Option.mem_some_iff] at hx
          rw [loads, acquiredLoad, if_pos hload, if_pos ha, ← hx]
        · cases hx
    · have hans : answered latency i s ≠ some r.tag := by
        rw [h.answered_eq hlat]
        intro hk
        obtain ⟨x, hx, hxt⟩ := Option.map_eq_some_iff.1 hk
        obtain ⟨r', hr', hx'⟩ := Option.bind_eq_some_iff.1 hx
        obtain ⟨y, _, hy⟩ := Option.map_eq_some_iff.1 hx'
        -- the head of the line and this request would show the same counter
        have hhead := (h.busy 0 r' hr').1
        rw [show r'.tag = r.tag by rw [← hxt, ← hy], (h.busy _ r hold).1] at hhead
        omega
      refine ⟨h.counted_toNat hold, ?_, h.loads_eq hold⟩
      rw [bne_iff_ne.2 hans, Bool.and_true, h.waits_eq hold]
  · dsimp only at hk ⊢
    by_cases ha : acquired i s = some k
    · rw [counted_acquired ha]
      refine ⟨_, shift_eq_some.2 (.inl ⟨Nat.sub_add_cancel hpos, request_eq_some.2 ⟨k, ha, rfl⟩⟩), rfl⟩
    · have hbusy : s.cyclesLeft k ≠ 0 := fun h0 => hk (by rw [counted, h0, if_neg (by decide), if_neg ha])
      obtain ⟨r, hr, rfl⟩ := h.held k hbusy
      have hc := h.counted_toNat (i := i) hr
      have hcpos : (counted latency i s r.tag).toNat ≠ 0 := fun h0 => hk (BitVec.eq_of_toNat_eq h0)
      refine ⟨r, shift_eq_some.2 (.inr ⟨?_, ?_⟩), rfl⟩
      · intro heq
        rw [Nat.sub_add_cancel (Nat.pos_of_ne_zero hcpos), hc] at heq
        rw [heq, h.short _ (Nat.le_refl _)] at hr
        cases hr
      · rw [Nat.sub_add_cancel (Nat.pos_of_ne_zero hcpos), hc, hr]
  · dsimp only at hk ⊢
    rw [Bool.and_eq_false_iff]
    cases hw : waits i s k with
    | false => exact .inl rfl
    | true =>
      right
      have hdue := (h.due_iff hlat).1 ⟨hk, hw⟩
      obtain ⟨r, hr, hload, rfl⟩ := hdue
      rw [h.answered_eq hlat, bne_eq_false_iff_eq, leaving, hr]
      obtain ⟨x, hx⟩ := Option.isSome_iff_exists.1 hload
      simp [hx]

/-- The bus shows what leaves the line. -/
theorem Holds.shows (h : Holds latency s l) (hlat : latency ≠ 0) : Shows (Mem.next latency i s) (l 0) := by
  rw [next_eq]
  constructor
  · dsimp only
    rw [h.answered_eq hlat]
    cases leaving (l 0) <;> rfl
  · dsimp only
    rw [h.answered_eq hlat]
    cases hr : l 0 with
    | none => rfl
    | some r =>
      cases hload : r.load with
      | none => simp [leaving, hload]
      | some x => simp [leaving, hload, h.loads_eq hr x hload]

/-! ### Free tags -/

theorem tagBus_ne_zero (k : MemTag) : tagBus k ≠ 0 := by
  revert k
  decide

theorem tagBus_inj {j k : MemTag} (h : tagBus j = tagBus k) : j = k := by
  have hnat := congrArg BitVec.toNat h
  rw [tagBus, tagBus, BitVec.toNat_ofNat, BitVec.toNat_ofNat, Nat.mod_eq_of_lt (by omega),
    Nat.mod_eq_of_lt (by omega)] at hnat
  exact Fin.ext (Nat.succ_injective hnat)

/-- The counters of the tags that are held are distinct and bounded by the latency, so with a
latency below the number of tags one is always free. -/
theorem Holds.exists_free (h : Holds latency s l) (hlat : latency.toNat < 15) : ∃ k, free s k = true := by
  by_contra hnone
  have hbusy : ∀ k, s.cyclesLeft k ≠ 0 := fun k h0 => hnone ⟨k, by rw [free, h.rest k h0, h0]; rfl⟩
  choose r hr htag using fun k => h.held k (hbusy k)
  have hlt : ∀ k, (s.cyclesLeft k).toNat - 1 < latency.toNat := fun k => by
    by_contra hge
    have := hr k
    rw [h.short _ (Nat.le_of_not_lt hge)] at this
    cases this
  have hinj : Function.Injective fun k : MemTag => (⟨(s.cyclesLeft k).toNat - 1, hlt k⟩ : Fin latency.toNat) := by
    intro j k hjk
    have hsame := hr j
    rw [Fin.mk.inj hjk, hr k, Option.some.injEq] at hsame
    rw [← htag j, ← htag k, hsame]
  have hcard := Fintype.card_le_of_injective _ hinj
  rw [Fintype.card_fin, Fintype.card_fin] at hcard
  omega

/-- Every command with a valid address is then taken. -/
theorem Holds.acquired_isSome (h : Holds latency s l) (hlat : latency.toNat < 15) :
    (acquired i s).isSome = acquires i := by
  rw [Bool.eq_iff_iff, acquired, Fin.isSome_find?_iff]
  obtain ⟨k, hk⟩ := h.exists_free hlat
  constructor
  · rintro ⟨j, hj⟩
    exact (Bool.and_eq_true_iff.1 hj).1
  · intro ha
    exact ⟨k, by rw [ha, hk]; rfl⟩

/-! ### Runs -/

/-- The memory after the first `t` edges. -/
def run (latency : BitVec 16) (s : State) (ins : Nat → Inputs) : Nat → State
  | 0 => s
  | t + 1 => next latency (ins t) (run latency s ins t)

section
variable (memory : Line → BitVec 64) (loaded : MemTag → BitVec 64) (ins : Nat → Inputs)

/-- What each edge of a run takes. -/
def taken (latency : BitVec 16) (t : Nat) : Option Request :=
  request (ins t) (run latency (init memory loaded) ins t)

/-- A run of the memory is a run of the line. -/
theorem run_holds (hlat : latency ≠ 0) (t : Nat) : Holds latency (run latency (init memory loaded) ins t)
    (DelayLine.run latency.toNat (taken memory loaded ins latency) t) := by
  induction t with
  | zero => exact .init memory loaded
  | succ t ih => exact ih.next hlat

/-- The bus shows what was taken a latency before. -/
theorem run_shows (hlat : latency ≠ 0) (t : Nat) : Shows (run latency (init memory loaded) ins (t + latency.toNat + 1))
    (taken memory loaded ins latency t) := by
  have hpos : 0 < latency.toNat := Nat.pos_of_ne_zero fun h0 => hlat (BitVec.eq_of_toNat_eq h0)
  have h := (run_holds memory loaded ins hlat (t + latency.toNat)).shows (i := ins (t + latency.toNat)) hlat
  rw [DelayLine.run_apply, if_pos ⟨hpos, by omega⟩, Nat.add_zero, Nat.add_sub_cancel] at h
  exact h

theorem response_eq (t : Nat) : (run latency (init memory loaded) ins (t + 1)).mem2procResponse =
    (acquired (ins t) (run latency (init memory loaded) ins t)).elim 0 tagBus := by
  rw [run, next_eq]

/-- The tag that the load of an edge is given; 0 when it is given none. -/
def given (latency : BitVec 16) (t : Nat) : BitVec 4 :=
  if (ins t).proc2memCommand = .busLoad then (run latency (init memory loaded) ins (t + 1)).mem2procResponse else 0

/-- **The memory is pipelined with a constant latency**: in every run of it the bus shows, a
latency after a load was given its tag, that tag and what the memory held then, and it shows
nothing else. -/
theorem answers_after_latency (hlat : latency ≠ 0) :
    (∀ t ≤ latency.toNat, (run latency (init memory loaded) ins t).mem2procTag = 0) ∧
      ∀ t, (run latency (init memory loaded) ins (t + latency.toNat + 1)).mem2procTag =
          given memory loaded ins latency t ∧
        (run latency (init memory loaded) ins (t + latency.toNat + 1)).mem2procData =
          if given memory loaded ins latency t = 0 then none
          else some ((run latency (init memory loaded) ins t).unifiedMemory (lineAt (ins t).proc2memAddr)) := by
  refine ⟨fun t ht => ?_, fun t => ?_⟩
  · cases t with
    | zero => rfl
    | succ t =>
      have h := (run_holds memory loaded ins hlat t).shows (i := ins t) hlat
      rw [DelayLine.run_apply, if_neg (by omega)] at h
      exact h.tag
  · have h := run_shows memory loaded ins hlat t
    rw [h.tag, h.data, taken, request, given, response_eq]
    cases ha : acquired (ins t) (run latency (init memory loaded) ins t) with
    | none => simp [leaving]
    | some k =>
      have hk : ¬ tagBus k = 0#4 := tagBus_ne_zero k
      by_cases hload : (ins t).proc2memCommand = .busLoad
      · simp [leaving, hload, hk]
      · simp [leaving, hload]

/-- A tag is not given again while the command it was given to is under way. -/
theorem response_fresh (hlat : latency ≠ 0) {u t : Nat} (hut : u < t) (htu : t ≤ u + latency.toNat)
    (hu : (run latency (init memory loaded) ins (u + 1)).mem2procResponse ≠ 0) :
    (run latency (init memory loaded) ins (t + 1)).mem2procResponse ≠
      (run latency (init memory loaded) ins (u + 1)).mem2procResponse := by
  have hhold := run_holds memory loaded ins hlat t
  rw [response_eq] at hu
  rw [response_eq, response_eq]
  cases hj : acquired (ins u) (run latency (init memory loaded) ins u) with
  | none =>
    rw [hj] at hu
    exact absurd rfl hu
  | some j =>
    -- the earlier command is still in the line
    have hline : DelayLine.run latency.toNat (taken memory loaded ins latency) t (u + latency.toNat - t) =
        taken memory loaded ins latency u := by
      rw [DelayLine.run_apply, if_pos (by omega)]
      congr 1
      omega
    rw [taken, request, hj, Option.map_some] at hline
    cases hk : acquired (ins t) (run latency (init memory loaded) ins t) with
    | none => exact (tagBus_ne_zero j).symm
    | some k =>
      intro heq
      rw [Option.elim_some, Option.elim_some] at heq
      have hnot := hhold.not_acquired (i := ins t) hline
      rw [hk, tagBus_inj heq] at hnot
      exact hnot rfl

/-- What a command writes. -/
def stores (i : Inputs) (l : Line) : Option (BitVec 64) :=
  if i.proc2memCommand = .busStore ∧ validAddress i = true ∧ l = lineAt i.proc2memAddr then some i.proc2memData
  else none

theorem store_next (h : Holds latency s l) (hlt : latency.toNat < 15) :
    (next latency i s).unifiedMemory = Memory.apply s.unifiedMemory (stores i) := by
  rw [next_eq]
  dsimp only
  rw [h.acquired_isSome hlt]
  funext x
  rw [Memory.apply, stores, acquires]
  cases i.proc2memCommand <;> cases validAddress i <;> by_cases hx : x = lineAt i.proc2memAddr <;> simp [hx]

/-- **A latency below the number of tags serves every command**: each command with a valid
address is given a tag, none that is under way has it, and the memory holds what the stores
before wrote. -/
theorem serves_every_command (hlat : latency ≠ 0) (hlt : latency.toNat < 15) (t : Nat) :
    ((run latency (init memory loaded) ins (t + 1)).mem2procResponse ≠ 0 ↔ acquires (ins t) = true) ∧
      (∀ u < t, t ≤ u + latency.toNat → acquires (ins u) = true →
        (run latency (init memory loaded) ins (t + 1)).mem2procResponse ≠
          (run latency (init memory loaded) ins (u + 1)).mem2procResponse) ∧
      (run latency (init memory loaded) ins t).unifiedMemory =
        Memory.applyAll memory ((List.range t).map fun u => stores (ins u)) := by
  have hgiven : ∀ t, (run latency (init memory loaded) ins (t + 1)).mem2procResponse ≠ 0 ↔
      acquires (ins t) = true := fun t => by
    rw [response_eq, ← (run_holds memory loaded ins hlat t).acquired_isSome hlt]
    cases acquired (ins t) (run latency (init memory loaded) ins t) with
    | none => exact ⟨fun h => absurd rfl h, nofun⟩
    | some k => exact ⟨fun _ => rfl, fun _ => tagBus_ne_zero k⟩
  refine ⟨hgiven t, fun u hut htu hu => response_fresh memory loaded ins hlat hut htu ((hgiven u).2 hu), ?_⟩
  induction t with
  | zero => rfl
  | succ t ih =>
    rw [List.range_succ, List.map_append, Memory.applyAll_append, ← ih, run,
      store_next (run_holds memory loaded ins hlat t) hlt]
    rfl

end

/-- A store and a load of the same word. -/
def storeThenLoad (t : Nat) : Inputs :=
  if t = 0 then ⟨0x30, 5, .busStore⟩ else if t = 1 then ⟨0x30, 0, .busLoad⟩ else {}

/-- With the latency of the source's clock period. -/
theorem answers_after_latency_seven : (run 7 (init (fun _ => 0) fun _ => 0) storeThenLoad 9).mem2procTag =
    (run 7 (init (fun _ => 0) fun _ => 0) storeThenLoad 2).mem2procResponse :=
  ((answers_after_latency (fun _ => 0) (fun _ => 0) storeThenLoad (by decide)).2 1).1

theorem serves_every_command_seven :
    (run 7 (init (fun _ => 0) fun _ => 0) storeThenLoad 2).mem2procResponse ≠ 0 ∧
      (run 7 (init (fun _ => 0) fun _ => 0) storeThenLoad 1).unifiedMemory 6 = 5 := by
  obtain ⟨hgiven, _, hmemory⟩ := serves_every_command (fun _ => 0) (fun _ => 0) storeThenLoad
    (show (7 : BitVec 16) ≠ 0 by decide) (by decide) 1
  exact ⟨hgiven.2 (by decide), by rw [hmemory]; rfl⟩

end R10K.Mem
