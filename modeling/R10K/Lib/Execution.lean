import R10K.Lib.Rv32

/-! RV32 instructions executed one after the other.

A step names the word that ran, its address and, for a load, what memory gave it. The
registers are the zero of the start and what the steps left in them; a word that encodes
no instruction of the list leaves them as they are. The stores of the steps are listed in
order. -/
namespace R10K.Rv32

/-- What an instruction leaves in its register. -/
def Instr.result (pc loaded : Word) (r : Reg → Word) : Instr → Option Word
  | .load _ _ _ _ => some loaded
  | .mul op _ rs1 rs2 => some (op.eval (r rs1) (r rs2))
  | .jal _ _ | .jalr _ _ _ => some (pc + 4)
  | i => i.value pc r

/-- The registers after an instruction. -/
def Instr.exec (pc loaded : Word) (r : Reg → Word) (i : Instr) : Reg → Word :=
  match i.rd, i.result pc loaded r with
  | some rd, some v => fun a => if a = rd ∧ a ≠ 0 then v else r a
  | _, _ => r

structure Step where
  word : Word
  pc : Word
  loaded : Word

def Step.Performs (s : Step) (r r' : Reg → Word) : Prop :=
  (∀ i, encode i = s.word → r' = i.exec s.pc s.loaded r) ∧ ((∀ i, encode i ≠ s.word) → r' = r)

/-- The registers before and after a list of steps. -/
inductive Executes : (Reg → Word) → List Step → (Reg → Word) → Prop
  | nil (r : Reg → Word) : Executes r [] r
  | snoc {r r' r'' : Reg → Word} {l : List Step} {s : Step} (h : Executes r l r') (hs : s.Performs r' r'') :
      Executes r (l ++ [s]) r''

/-- The instructions of a list of steps are what they should be on the registers they run on. -/
def Always (P : (Reg → Word) → Instr → Prop) (start : Reg → Word) (l : List Step) : Prop :=
  ∀ n r s i, Executes start (l.take n) r → l[n]? = some s → encode i = s.word → P r i

/-- Each step runs on the registers the ones before it left. -/
theorem Executes.take_of_steps {P : (Reg → Word) → Instr → Prop} {l : List Step} {regs : Nat → Reg → Word}
    (hP : Always P (regs 0) l)
    (hstep : ∀ n s, l[n]? = some s → (∀ i, encode i = s.word → P (regs n) i) → s.Performs (regs n) (regs (n + 1))) :
    ∀ n, n ≤ l.length → Executes (regs 0) (l.take n) (regs n) := by
  intro n
  induction n with
  | zero =>
    intro _
    exact .nil _
  | succ n ih =>
    intro hn
    have hget := List.getElem?_eq_getElem (l := l) (i := n) (by omega)
    have hrun := ih (by omega)
    rw [List.take_add_one, hget]
    exact .snoc hrun (hstep n _ hget fun i hi => hP n _ _ i hrun hget hi)

/-- **A list of steps is executed** if each of them is performed on the registers the ones
before left. -/
theorem Executes.of_steps {P : (Reg → Word) → Instr → Prop} {l : List Step} {regs : Nat → Reg → Word}
    (hP : Always P (regs 0) l)
    (hstep : ∀ n s, l[n]? = some s → (∀ i, encode i = s.word → P (regs n) i) → s.Performs (regs n) (regs (n + 1))) :
    Executes (regs 0) l (regs l.length) := by
  simpa using Executes.take_of_steps hP hstep l.length (Nat.le_refl _)

/-! ### Stores -/

/-- What a store asks of memory: its address, its datum and its size. -/
abbrev Write := Word × Word × BitVec 3

def Instr.write (r : Reg → Word) : Instr → Option Write
  | .store op rs1 rs2 imm => some (r rs1 + immWord imm, r rs2, op.funct3)
  | _ => none

def Step.Asks (s : Step) (r : Reg → Word) (w : Option Write) : Prop :=
  (∀ i, encode i = s.word → w = i.write r) ∧ ((∀ i, encode i ≠ s.word) → w = none)

/-- The registers before and after a list of steps, and its stores in order. -/
inductive Runs : (Reg → Word) → List Step → (Reg → Word) → List Write → Prop
  | nil (r : Reg → Word) : Runs r [] r []
  | snoc {r r' r'' : Reg → Word} {l : List Step} {s : Step} {ws : List Write} {w : Option Write}
      (h : Runs r l r' ws) (hs : s.Performs r' r'') (hw : s.Asks r' w) : Runs r (l ++ [s]) r'' (ws ++ w.toList)

/-- **A list of steps runs** if each of them is performed, and asks for its store, on the
registers the ones before left. -/
theorem Runs.of_steps {P : (Reg → Word) → Instr → Prop} {l : List Step} {regs : Nat → Reg → Word}
    {asked : Nat → Option Write} (hP : Always P (regs 0) l)
    (hstep : ∀ n s, l[n]? = some s → (∀ i, encode i = s.word → P (regs n) i) → s.Performs (regs n) (regs (n + 1)))
    (hask : ∀ n s, l[n]? = some s → (∀ i, encode i = s.word → P (regs n) i) → s.Asks (regs n) (asked n)) :
    Runs (regs 0) l (regs l.length) ((List.range l.length).filterMap asked) := by
  have htake : ∀ n, n ≤ l.length → Runs (regs 0) (l.take n) (regs n) ((List.range n).filterMap asked) := by
    intro n
    induction n with
    | zero =>
      intro _
      exact .nil _
    | succ n ih =>
      intro hn
      have hget := List.getElem?_eq_getElem (l := l) (i := n) (by omega)
      have hrun := Executes.take_of_steps hP hstep n (by omega)
      have hall : ∀ i, encode i = l[n].word → P (regs n) i := fun i hi => hP n _ _ i hrun hget hi
      rw [List.take_add_one, hget, List.range_succ, List.filterMap_append]
      have hlast : [n].filterMap asked = (asked n).toList := by
        rw [List.filterMap_cons, List.filterMap_nil]
        cases asked n <;> rfl
      rw [hlast]
      exact .snoc (ih (by omega)) (hstep n _ hget hall) (hask n _ hget hall)
  simpa using htake l.length (Nat.le_refl _)

/-! ### Memory -/

abbrev Bytes := Word → BitVec 8

/-- What a load reads, the low byte first. -/
def LoadOp.read (mem : Bytes) (a : Word) : LoadOp → Word
  | .lb => (mem a).signExtend 32
  | .lbu => (mem a).setWidth 32
  | .lh => (mem (a + 1) ++ mem a).signExtend 32
  | .lhu => (mem (a + 1) ++ mem a).setWidth 32
  | .lw => mem (a + 3) ++ mem (a + 2) ++ mem (a + 1) ++ mem a

def StoreOp.bytes : StoreOp → Nat
  | .sb => 1 | .sh => 2 | .sw => 4

/-- What a store leaves. -/
def StoreOp.put (op : StoreOp) (mem : Bytes) (a d : Word) : Bytes := fun b =>
  if (b - a).toNat < op.bytes then d.extractLsb' ((b - a).toNat * 8) 8 else mem b

structure Arch where
  regs : Reg → Word
  mem : Bytes

/-- What a load gets from memory. -/
def Instr.loaded (s : Arch) : Instr → Word
  | .load op _ rs1 imm => op.read s.mem (s.regs rs1 + immWord imm)
  | _ => 0

/-- The memory after an instruction. -/
def Instr.memory (s : Arch) : Instr → Bytes
  | .store op rs1 rs2 imm => op.put s.mem (s.regs rs1 + immWord imm) (s.regs rs2)
  | _ => s.mem

/-- An instruction at an address takes the registers and the memory one step further. -/
def Instr.step (pc : Word) (s : Arch) (i : Instr) : Arch := ⟨i.exec pc (i.loaded s) s.regs, i.memory s⟩

/-- A word and its address; a word that encodes no instruction changes nothing. -/
def Steps (x : Word × Word) (s s' : Arch) : Prop :=
  (∀ i, encode i = x.1 → s' = i.step x.2 s) ∧ ((∀ i, encode i ≠ x.1) → s' = s)

/-- The registers and the memory before and after the words of a program. -/
inductive Computes : Arch → List (Word × Word) → Arch → Prop
  | nil (s : Arch) : Computes s [] s
  | snoc {s s' s'' : Arch} {l : List (Word × Word)} {x : Word × Word} (h : Computes s l s') (hx : Steps x s' s'') :
      Computes s (l ++ [x]) s''

/-- The instructions of a program are what they should be on the registers they run on. -/
def Throughout (P : (Reg → Word) → Instr → Prop) (start : Arch) (l : List (Word × Word)) : Prop :=
  ∀ n s x i, Computes start (l.take n) s → l[n]? = some x → encode i = x.1 → P s.regs i

/-- **A program is computed** if each of its words takes what the ones before left one step
further. -/
theorem Computes.of_steps {P : (Reg → Word) → Instr → Prop} {l : List (Word × Word)} {states : Nat → Arch}
    (hP : Throughout P (states 0) l)
    (hstep : ∀ n x, l[n]? = some x → (∀ i, encode i = x.1 → P (states n).regs i) → Steps x (states n) (states (n + 1))) :
    ∀ n, n ≤ l.length → Computes (states 0) (l.take n) (states n) := by
  intro n
  induction n with
  | zero =>
    intro _
    exact .nil _
  | succ n ih =>
    intro hn
    have hget := List.getElem?_eq_getElem (l := l) (i := n) (by omega)
    have hrun := ih (by omega)
    rw [List.take_add_one, hget]
    exact .snoc hrun (hstep n _ hget fun i hi => hP n _ _ i hrun hget hi)

/-- What a load gets matters if it has a register to go to. -/
theorem Instr.exec_congr {pc v w : Word} {r : Reg → Word} {i : Instr}
    (h : ∀ op rd rs1 imm, i = .load op rd rs1 imm → rd ≠ 0 → v = w) : i.exec pc v r = i.exec pc w r := by
  cases i with
  | load op rd rs1 imm =>
    by_cases hrd : rd = 0
    · funext a
      have hno : ¬ (a = rd ∧ a ≠ 0) := fun ha => ha.2 (ha.1.trans hrd)
      exact (if_neg hno).trans (if_neg hno).symm
    · rw [h op rd rs1 imm rfl hrd]
  | _ => rfl

end R10K.Rv32
