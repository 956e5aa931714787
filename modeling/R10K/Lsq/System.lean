import R10K.Lsq.Bytes
import R10K.Lsq.Log

/-! The load/store unit with the memory behind its data cache.

Besides the logs, a `System` knows for each load how many stores were dispatched before
it, what the data cache was asked for, and the memory: the data cache applies an accepted
store at once and answers a load from the memory as it is. `Ordered` is what a load is for:
its result is read from the memory that the stores before it in the program leave. -/
namespace R10K.Lsq
open Lanes Memory

/-- What a store does to the memory once it has executed. -/
def effect (r : Stq.Store) : BitVec 32 → Option (BitVec 8) :=
  match r.write with
  | some (addr, data, size) => writeBytes addr data size
  | none => fun _ => none

/-- The memory after the stores of a program, in order. -/
def programMem (m : Mem) (stores : List Stq.Store) : Mem := applyAll m (stores.map effect)

structure System where
  lsq : Config
  /-- The number of stores before each load. -/
  older : List Nat
  mem : Mem
  /-- The address and size of the last request accepted for a slot. -/
  request : LdqTag → BitVec 32 × BitVec 3

namespace System

def init (m : Mem) : System := ⟨Config.init, [], m, fun _ => (0, 0)⟩

/-- The stores of the program so far, and how many of them are in the memory. -/
abbrev stores (s : System) : List Stq.Store := s.lsq.stq.log.stores
abbrev sent (s : System) : Nat := s.lsq.stq.log.sent.length

/-- The loads of this cycle's group see the stores in the queue and those of the lanes before. -/
def dispatchingOlder (i : Inputs) (s : System) : List Nat :=
  (group (dispatchLdqValid i)).map fun l => s.stores.length + rank (dispatchStqValid i) l

def nextMem (i : Inputs) (s : System) : Mem :=
  if Stq.fireStAccept (stqIn i s.lsq.state) s.lsq.stq.stq then
    apply s.mem (writeBytes s.lsq.stq.stq.fireStAddr s.lsq.stq.stq.fireStData s.lsq.stq.stq.fireStDataSize)
  else s.mem

def next (i : Inputs) (s : System) : System where
  lsq := s.lsq.next i
  older := s.older ++ s.dispatchingOlder i
  mem := s.nextMem i
  request := fun t =>
    if Config.accepts i s.lsq t then (s.lsq.ldq.ldq.fireLdAddr, s.lsq.ldq.ldq.fireLdDataSize) else s.request t

/-- The rules of a run without a flush. -/
structure Ok (i : Inputs) (s : System) : Prop where
  lsq : Lsq.Ok i s.lsq
  noFlush : i.pipeFlush = false
  /-- Accesses are bytes, halves and words, naturally aligned. -/
  access : (executeStqValid i || executeLdqValid i) = true →
    Access i.executePkt.result i.executePkt.memSize
  /-- Retirement in program order: a load retires no later than the stores after it. -/
  inOrder : ∀ k n, s.lsq.ldq.log.retired + Ldq.retireCnt (ldqIn i s.lsq.state) ≤ k → s.older[k]? = some n →
    s.lsq.stq.log.retired + Stq.retireCnt (stqIn i s.lsq.state) ≤ n
  /-- An answer is read from the memory before or after the store of the same cycle. -/
  answer : i.dcacheValid = true → ∃ m, (m = s.mem ∨ m = s.nextMem i) ∧
    i.dcacheData = readBytes m (s.request i.dcacheLdqTag).1 (s.request i.dcacheLdqTag).2

def Reach (m : Mem) : System → Prop := Run.Reach next Ok (init m)

/-- The load at place `k` of the program has executed, has `n` stores before it, and is in flight. -/
structure Load (s : System) (k : Nat) (r : Ldq.Load) (n : Nat) (x : Ldq.Exec) : Prop where
  live : s.lsq.ldq.log.retired ≤ k
  load : s.lsq.ldq.log.loads[k]? = some r
  older : s.older[k]? = some n
  exec : r.exec = some x

/-- The bytes of a load in the memory after the stores before it that have executed. -/
def value (m : Mem) (s : System) (n : Nat) (x : Ldq.Exec) : BitVec 32 :=
  readBytes (programMem m (s.stores.take n)) x.addr x.size

/-- A result that is taken is its load's, every store before the load has executed, and the
result is the load's bytes of the memory they leave. -/
def Ordered (m : Mem) (i : Inputs) (s : System) : Prop :=
  ∀ t, Ldq.writebackAccept (ldqIn i s.lsq.state) s.lsq.ldq.ldq t = true → ∃ k r n x, s.Load k r n x ∧ r.tag = t ∧
    (∀ q ∈ s.stores.take n, q.write.isSome = true) ∧
    Ldq.writebackData (ldqIn i s.lsq.state) s.lsq.ldq.ldq = s.value m n x

end System

/-! ### The store that no check sees -/

/-- Two accesses of one word share a byte. -/
def overlap (a : BitVec 32) (z : BitVec 3) (a' : BitVec 32) (z' : BitVec 3) : Bool :=
  wordAddr a == wordAddr a' &&
    (decide (offset a' ≤ Stq.offsetEnd (offset a) z) && decide (offset a ≤ Stq.offsetEnd (offset a') z'))

/-- A load waits in the fire stage, refused by the data cache and with no datum on its way,
while a store before it executes bytes of it; and the lookup of the same cycle takes the
load's bytes from a store before that one. -/
structure Missed (i : Inputs) (s : State) : Prop where
  fire : s.ldq.fireLdValid = true
  refused : i.fireLdReady = false
  unserved : (s.stq.fwdValid && s.stq.fwdLdqTag == s.ldq.fireLdLdqTag) = false
  clears : ((s.ldq.ldqEntry s.ldq.fireLdLdqTag).orderFail && s.stq.fwdSleep &&
    s.stq.fwdLdqTag == s.ldq.fireLdLdqTag) = false
  executes : executeStqValid i = true
  older : (s.ldq.ldqEntry s.ldq.fireLdLdqTag).stMask i.executePkt.stqTag = true
  overlaps : overlap s.ldq.fireLdAddr s.ldq.fireLdDataSize i.executePkt.result i.executePkt.memSize = true
  forwards : (Stq.fwdSearch (stqIn i s) s.stq).2 = true
  covers : Stq.addrConflict (stqIn i s) s.stq = false
  stale : (Stq.fwdSearch (stqIn i s) s.stq).1 - s.stq.headPtr < i.executePkt.stqTag - s.stq.headPtr

end R10K.Lsq
