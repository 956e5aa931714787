import R10K.Lib.Loop
import R10K.Mem.Model

/-! What an edge of the memory comes to.

The loop reads and writes the same variables tag by tag. A tag's turn changes that tag alone,
and two flags pass from turn to turn: the command still wants a tag, the bus is taken. So the
edge gives the command the first free tag and the bus to the first load that is due. -/
namespace R10K.Mem
open Cache

section
variable (latency : BitVec 16) (i : Inputs) (s : State)

/-- No command holds the tag. -/
def free (k : MemTag) : Bool := s.cyclesLeft k == 0 && !s.waitingForBus k

/-- The tag the command is given. -/
def acquired : Option MemTag := Fin.find? fun k => acquires i && free s k

/-- The tag the command is given, if it is a load. -/
def acquiredLoad : Option MemTag := if i.proc2memCommand = .busLoad then acquired i s else none

def counted (k : MemTag) : BitVec 16 :=
  if s.cyclesLeft k > 0 then s.cyclesLeft k - 1 else if acquired i s = some k then latency else 0

def waits (k : MemTag) : Bool := s.waitingForBus k || acquiredLoad i s == some k

def loads (k : MemTag) : BitVec 64 :=
  if acquiredLoad i s = some k then s.unifiedMemory (lineAt i.proc2memAddr) else s.loadedData k

/-- The tag that gets the bus. -/
def answered : Option MemTag := Fin.find? fun k => counted latency i s k == 0 && waits i s k

end

/-- The variables after the loop has visited the tags below `n`. -/
structure Visited (latency : BitVec 16) (i : Inputs) (s : State) (n : Nat) (v : Vars) : Prop where
  memory : v.unifiedMemory = if (Loop.upTo (acquired i s) n).isSome ∧ i.proc2memCommand ≠ .busLoad then
    fun l => if l = lineAt i.proc2memAddr then i.proc2memData else s.unifiedMemory l
  else s.unifiedMemory
  loaded : ∀ k, v.loadedData k = if k.val < n then loads i s k else s.loadedData k
  cycles : ∀ k, v.cyclesLeft k = if k.val < n then counted latency i s k else s.cyclesLeft k
  waiting : ∀ k, v.waitingForBus k =
    if k.val < n then waits i s k && answered latency i s != some k else s.waitingForBus k
  acquire : v.acquireTag = (acquires i && (Loop.upTo (acquired i s) n).isNone)
  response : v.response = (Loop.upTo (acquired i s) n).elim 0 tagBus
  bus : v.busFilled = (Loop.upTo (answered latency i s) n).isSome
  tag : v.tag = (Loop.upTo (answered latency i s) n).elim 0 tagBus
  data : v.data = (Loop.upTo (answered latency i s) n).map (loads i s)

namespace Visited
variable {latency : BitVec 16} {i : Inputs} {s : State} {v : Vars}

theorem start : Visited latency i s 0 (Mem.start i s) where
  memory := by simp [Mem.start]
  loaded := fun k => by simp [Mem.start]
  cycles := fun k => by simp [Mem.start]
  waiting := fun k => by simp [Mem.start]
  acquire := by simp [Mem.start]
  response := by simp [Mem.start]
  bus := by simp [Mem.start]
  tag := by simp [Mem.start]
  data := by simp [Mem.start]

/-- The command takes a tag on its turn, when nothing holds it and no tag before it was taken. -/
theorem takes_iff {k : MemTag} (h : Visited latency i s k.val v) :
    acquired i s = some k ↔ v.cyclesLeft k = 0 ∧ v.acquireTag = true ∧ v.waitingForBus k = false := by
  have hcycles := h.cycles k
  have hwaiting := h.waiting k
  rw [if_neg (Nat.lt_irrefl _)] at hcycles hwaiting
  rw [h.acquire, hcycles, hwaiting, acquired, Loop.takes_iff, free]
  simp only [Bool.and_eq_true, beq_iff_eq, Bool.not_eq_true', Option.isNone_iff_eq_none]
  tauto

end Visited

/-- The variables after the tag `k` has counted down or been taken. -/
structure Counted (latency : BitVec 16) (i : Inputs) (s : State) (k : MemTag) (v : Vars) : Prop where
  memory : v.unifiedMemory = if (Loop.upTo (acquired i s) (k.val + 1)).isSome ∧ i.proc2memCommand ≠ .busLoad then
    fun l => if l = lineAt i.proc2memAddr then i.proc2memData else s.unifiedMemory l
  else s.unifiedMemory
  loaded : ∀ j, v.loadedData j = if j.val < k.val + 1 then loads i s j else s.loadedData j
  cycles : ∀ j, v.cyclesLeft j = if j.val < k.val + 1 then counted latency i s j else s.cyclesLeft j
  waiting : ∀ j, v.waitingForBus j =
    if j.val < k.val then waits i s j && answered latency i s != some j
    else if j = k then waits i s k else s.waitingForBus j
  acquire : v.acquireTag = (acquires i && (Loop.upTo (acquired i s) (k.val + 1)).isNone)
  response : v.response = (Loop.upTo (acquired i s) (k.val + 1)).elim 0 tagBus
  bus : v.busFilled = (Loop.upTo (answered latency i s) k.val).isSome
  tag : v.tag = (Loop.upTo (answered latency i s) k.val).elim 0 tagBus
  data : v.data = (Loop.upTo (answered latency i s) k.val).map (loads i s)

section
variable {latency : BitVec 16} {i : Inputs} {s : State} {v : Vars} {k : MemTag}

theorem acquiredLoad_ne (h : acquired i s ≠ some k) : acquiredLoad i s ≠ some k := by
  rw [acquiredLoad]
  split
  · exact h
  · nofun

/-- A function changed at one index, by how far the loop is. -/
theorem visited_at {α : Type} {f g old : MemTag → α} {a : α} (hf : ∀ j, f j = if j.val < k.val then g j else old j)
    (ha : a = g k) (j : MemTag) : (if j = k then a else f j) = if j.val < k.val + 1 then g j else old j := by
  by_cases hjk : j = k
  · rw [if_pos hjk, hjk, if_pos (Nat.lt_succ_self _), ha]
  · have hne := Fin.val_ne_of_ne hjk
    rw [if_neg hjk, hf]
    by_cases hlt : j.val < k.val
    · rw [if_pos hlt, if_pos (by omega)]
    · rw [if_neg hlt, if_neg (by omega)]

/-- An index that is left alone. -/
theorem visited_same {α : Type} {f g old : MemTag → α} (hf : ∀ j, f j = if j.val < k.val then g j else old j)
    (hk : g k = old k) (j : MemTag) : f j = if j.val < k.val + 1 then g j else old j := by
  rw [← visited_at hf (a := f k) (by rw [hf k, if_neg (Nat.lt_irrefl _), hk]) j]
  split
  · rename_i hjk
    rw [hjk]
  · rfl

namespace Visited

/-- A tag that the command does not take. -/
theorem acquire_skip (h : Visited latency i s k.val v) (hne : acquired i s ≠ some k) {c : MemTag → BitVec 16}
    (hc : ∀ j, c j = if j.val < k.val + 1 then counted latency i s j else s.cyclesLeft j) :
    Counted latency i s k { v with cyclesLeft := c } where
  memory := by rw [Loop.upTo_skip hne]; exact h.memory
  loaded := visited_same h.loaded (by rw [loads, if_neg (acquiredLoad_ne hne)])
  cycles := hc
  waiting := fun j => by
    show v.waitingForBus j = _
    rw [h.waiting]
    by_cases hjk : j = k
    · subst hjk
      rw [if_neg (Nat.lt_irrefl _), if_neg (Nat.lt_irrefl _), if_pos rfl, waits,
        beq_eq_false_iff_ne.2 (acquiredLoad_ne hne), Bool.or_false]
    · rw [if_neg hjk]
  acquire := by rw [Loop.upTo_skip hne]; exact h.acquire
  response := by rw [Loop.upTo_skip hne]; exact h.response
  bus := h.bus
  tag := h.tag
  data := h.data

/-- The tag counts down, or is taken by the command. -/
theorem acquire_counted (h : Visited latency i s k.val v) : Counted latency i s k (Mem.acquire latency i v k) := by
  have hcycles := h.cycles k
  rw [if_neg (Nat.lt_irrefl _)] at hcycles
  rw [Mem.acquire]
  split
  · -- it is still held
    rename_i hpos
    have hne : acquired i s ≠ some k := fun ha => by
      rw [(h.takes_iff.1 ha).1] at hpos
      exact absurd hpos (by decide)
    refine h.acquire_skip hne (visited_at h.cycles ?_)
    rw [counted, ← hcycles, if_pos hpos]
  · rename_i hzero
    have hzero : v.cyclesLeft k = 0 := by
      apply BitVec.eq_of_toNat_eq
      have := BitVec.lt_def.not.1 hzero
      simpa using this
    split
    · -- the command takes it
      rename_i htake
      rw [Bool.and_eq_true, Bool.not_eq_true'] at htake
      have ha := h.takes_iff.2 ⟨hzero, htake.1, htake.2⟩
      have hturn := Loop.upTo_turn ha
      have hmemory : v.unifiedMemory = s.unifiedMemory := by
        rw [h.memory, hturn]
        rfl
      have hcount : latency = counted latency i s k := by
        rw [counted, ← hcycles, hzero, if_neg (by decide), if_pos ha]
      split
      · -- a load reads the memory
        rename_i hload
        have hal : acquiredLoad i s = some k := by rw [acquiredLoad, if_pos hload, ha]
        refine ⟨?_, visited_at h.loaded ?_, visited_at h.cycles hcount, fun j => ?_, ?_, ?_, h.bus, h.tag, h.data⟩
        · show v.unifiedMemory = _
          rw [if_neg (fun hm => hm.2 hload), hmemory]
        · rw [hmemory, loads, if_pos hal]
        · show (if j = k then true else v.waitingForBus j) = _
          rw [h.waiting]
          by_cases hjk : j = k
          · subst hjk
            rw [if_pos rfl, if_neg (Nat.lt_irrefl _), if_pos rfl, waits, hal, beq_self_eq_true, Bool.or_true]
          · rw [if_neg hjk, if_neg hjk]
        · rw [Loop.upTo_take ha]
          exact (Bool.and_false _).symm
        · rw [Loop.upTo_take ha]
          rfl
      · -- a store writes it
        rename_i hload
        have hal : acquiredLoad i s ≠ some k := by rw [acquiredLoad, if_neg hload]; nofun
        refine ⟨?_, visited_same h.loaded ?_, visited_at h.cycles hcount, fun j => ?_, ?_, ?_, h.bus, h.tag, h.data⟩
        · rw [Loop.upTo_take ha, if_pos ⟨rfl, hload⟩, hmemory]
        · rw [loads, if_neg hal]
        · show v.waitingForBus j = _
          rw [h.waiting]
          by_cases hjk : j = k
          · subst hjk
            rw [if_neg (Nat.lt_irrefl _), if_neg (Nat.lt_irrefl _), if_pos rfl, waits,
              beq_eq_false_iff_ne.2 hal, Bool.or_false]
          · rw [if_neg hjk]
        · rw [Loop.upTo_take ha]
          exact (Bool.and_false _).symm
        · rw [Loop.upTo_take ha]
          rfl
    · -- it stays free
      rename_i hleave
      have hne : acquired i s ≠ some k := fun ha => by
        obtain ⟨-, hacq, hwait⟩ := h.takes_iff.1 ha
        exact hleave (by rw [hacq, hwait]; rfl)
      refine h.acquire_skip hne (visited_same h.cycles ?_)
      rw [counted, ← hcycles, hzero, if_neg (by decide), if_neg hne]

end Visited

/-- The tag takes the bus on its turn. -/
theorem Counted.fillBus (h : Counted latency i s k v) : Visited latency i s (k.val + 1) (Mem.fillBus v k) := by
  have hcycles := h.cycles k
  have hwaiting := h.waiting k
  rw [if_pos (Nat.lt_succ_self _)] at hcycles
  rw [if_neg (Nat.lt_irrefl _), if_pos rfl] at hwaiting
  have htakes : answered latency i s = some k ↔
      v.cyclesLeft k = 0 ∧ v.waitingForBus k = true ∧ v.busFilled = false := by
    rw [hcycles, hwaiting, h.bus, answered, Loop.takes_iff]
    simp only [Bool.and_eq_true, beq_iff_eq, Option.isSome_eq_false_iff, Option.isNone_iff_eq_none, and_assoc]
  rw [Mem.fillBus]
  split
  · rename_i htake
    have ha := htakes.2 htake
    refine ⟨h.memory, h.loaded, h.cycles, fun j => ?_, h.acquire, h.response, ?_, ?_, ?_⟩
    · show (if j = k then false else v.waitingForBus j) = _
      by_cases hjk : j = k
      · subst hjk
        rw [if_pos rfl, if_pos (Nat.lt_succ_self _), ha, bne_self_eq_false, Bool.and_false]
      · have hne := Fin.val_ne_of_ne hjk
        rw [if_neg hjk, h.waiting, if_neg hjk]
        by_cases hlt : j.val < k.val
        · rw [if_pos hlt, if_pos (by omega)]
        · rw [if_neg hlt, if_neg (by omega)]
    · rw [Loop.upTo_take ha]
      rfl
    · rw [Loop.upTo_take ha]
      rfl
    · rw [Loop.upTo_take ha, h.loaded, if_pos (Nat.lt_succ_self _)]
      rfl
  · rename_i hleave
    have hne : answered latency i s ≠ some k := fun ha => hleave (htakes.1 ha)
    refine ⟨h.memory, h.loaded, h.cycles, fun j => ?_, h.acquire, h.response, ?_, ?_, ?_⟩
    · rw [h.waiting]
      by_cases hjk : j = k
      · subst hjk
        rw [if_neg (Nat.lt_irrefl _), if_pos rfl, if_pos (Nat.lt_succ_self _), bne_iff_ne.2 hne, Bool.and_true]
      · have hval := Fin.val_ne_of_ne hjk
        rw [if_neg hjk]
        by_cases hlt : j.val < k.val
        · rw [if_pos hlt, if_pos (by omega)]
        · rw [if_neg hlt, if_neg (by omega)]
    · rw [Loop.upTo_skip hne]
      exact h.bus
    · rw [Loop.upTo_skip hne]
      exact h.tag
    · rw [Loop.upTo_skip hne]
      exact h.data

end

/-- **What the loop leaves.** -/
theorem loop_visited (latency : BitVec 16) (i : Inputs) (s : State) :
    Visited latency i s 15 (loop latency i s) :=
  Loop.foldl_finRange (Visited latency i s) .start fun _ _ h => h.acquire_counted.fillBus

/-- What an edge does, tag by tag. -/
theorem next_eq (latency : BitVec 16) (i : Inputs) (s : State) : next latency i s =
    { unifiedMemory := if (acquired i s).isSome ∧ i.proc2memCommand ≠ .busLoad then
        fun l => if l = lineAt i.proc2memAddr then i.proc2memData else s.unifiedMemory l
      else s.unifiedMemory
      loadedData := loads i s
      cyclesLeft := counted latency i s
      waitingForBus := fun k => waits i s k && answered latency i s != some k
      mem2procResponse := (acquired i s).elim 0 tagBus
      mem2procData := (answered latency i s).map (loads i s)
      mem2procTag := (answered latency i s).elim 0 tagBus } := by
  have h := loop_visited latency i s
  rw [next, State.mk.injEq, h.memory, h.response, h.tag, h.data, Loop.upTo_all, Loop.upTo_all]
  refine ⟨rfl, ?_, ?_, ?_, rfl, rfl, rfl⟩
  · funext k
    rw [h.loaded, if_pos k.isLt]
  · funext k
    rw [h.cycles, if_pos k.isLt]
  · funext k
    rw [h.waiting, if_pos k.isLt]

end R10K.Mem
