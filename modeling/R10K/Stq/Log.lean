import R10K.Lib.Circular
import R10K.Lib.Run
import R10K.Stq.Model

/-! What a run of the store queue did.

The log lists the stores of the program in order: every store dispatched and not
squashed by a flush, each with its slot and with what execution gave it. The first of
them are retired, and the first of those were sent to the data cache; a flush drops
what is not retired. -/
namespace R10K.Stq
open Circular Lanes

/-- A store and what it executed: its address, its datum and size. -/
structure Store where
  tag : StqTag
  addr : Option (BitVec 32) := none
  data : Option (BitVec 32 × BitVec 3) := none
deriving DecidableEq

namespace Store

/-- The write an executed store asks of the data cache. -/
def write (r : Store) : Option (BitVec 32 × BitVec 32 × BitVec 3) :=
  match r.addr, r.data with
  | some a, some d => some (a, d.1, d.2)
  | _, _ => none

/-- One cycle of execution on a store that is not retired. -/
def execute (i : Inputs) (r : Store) : Store :=
  { r with
    addr := if r.tag == i.executeStAddrStqTag && i.executeStAddrValid then some i.executeStAddr else r.addr
    data := if r.tag == i.executeStDataStqTag && i.executeStDataValid then
        some (i.executeStData, i.executeStDataSize)
      else r.data }

end Store

structure Log where
  stores : List Store := []
  retired : Nat := 0
  sent : List (BitVec 32 × BitVec 32 × BitVec 3) := []

/-- The stores not retired yet. -/
def Log.live (l : Log) : List Store := l.stores.drop l.retired

/-- The stores of this cycle's group, in the slots answered. -/
def dispatching (i : Inputs) (s : State) : List Store :=
  (group i.dispatchValid).map fun l => { tag := dispatchResp i s l }

def Log.next (i : Inputs) (s : State) (l : Log) : Log where
  stores :=
    if i.pipeFlush then l.stores.take l.retired ++ (l.live.map (Store.execute i)).take (retireCnt i)
    else l.stores.take l.retired ++ l.live.map (Store.execute i) ++ dispatching i s
  retired := l.retired + retireCnt i
  sent :=
    if fireStAccept i s then l.sent ++ [(s.fireStAddr, s.fireStData, s.fireStDataSize)] else l.sent

structure Config where
  stq : State
  /-- `dispatch_ready` of the previous cycle. -/
  ready : Bool
  log : Log

def Config.init : Config := ⟨reset, true, {}⟩

def Config.next (i : Inputs) (c : Config) : Config :=
  ⟨Stq.next i c.stq, dispatchReady i c.stq, c.log.next i c.stq⟩

/-- Dispatch within `dispatch_ready`, and retirement in order under the slots the
stores were given. -/
structure OkQueue (i : Inputs) (c : Config) : Prop where
  ready : 0 < dispatchCnt i → c.ready = true
  retire : ∀ (j : Nat) (l : Lane), (group (retiresStore i))[j]? = some l →
    ∃ r : Store, c.log.live[j]? = some r ∧ (i.retirePkt l).stqTag = r.tag

/-- Besides, each store executes once, and before it retires. -/
structure Ok (i : Inputs) (c : Config) : Prop extends OkQueue i c where
  addr : i.executeStAddrValid = true → ∃ r ∈ c.log.live, r.tag = i.executeStAddrStqTag ∧ r.addr = none
  data : i.executeStDataValid = true → ∃ r ∈ c.log.live, r.tag = i.executeStDataStqTag ∧ r.data = none
  executed : ∀ (j : Nat) (l : Lane) (r : Store), (group (retiresStore i))[j]? = some l →
    c.log.live[j]? = some r → r.write.isSome = true

def Reach : Config → Prop := Run.Reach Config.next Ok Config.init

/-- A place of the retiring group is one of four. -/
theorem retiring_lt {i : Inputs} {j : Nat} {l : Lane} (h : (group (retiresStore i))[j]? = some l) : j < 4 :=
  Nat.lt_of_lt_of_le (List.getElem?_eq_some_iff.1 h).1 (group_length_le _)

instance (i : Inputs) (c : Config) : Decidable (OkQueue i c) :=
  decidable_of_iff ((0 < dispatchCnt i → c.ready = true) ∧ ∀ (j : Fin 4) (l : Lane),
      (group (retiresStore i))[j.val]? = some l → ∃ r ∈ c.log.live[j.val]?, (i.retirePkt l).stqTag = r.tag)
    ⟨fun h => ⟨h.1, fun j l hl => h.2 ⟨j, retiring_lt hl⟩ l hl⟩, fun h => ⟨h.ready, fun j l hl => h.retire j l hl⟩⟩

instance (i : Inputs) (c : Config) : Decidable (Ok i c) :=
  decidable_of_iff (OkQueue i c ∧
      (i.executeStAddrValid = true → ∃ r ∈ c.log.live, r.tag = i.executeStAddrStqTag ∧ r.addr = none) ∧
      (i.executeStDataValid = true → ∃ r ∈ c.log.live, r.tag = i.executeStDataStqTag ∧ r.data = none) ∧
      ∀ (j : Fin 4) (l : Lane), (group (retiresStore i))[j.val]? = some l → ∀ r ∈ c.log.live[j.val]?,
        r.write.isSome = true)
    ⟨fun h => ⟨h.1, h.2.1, h.2.2.1, fun j l r hl hr => h.2.2.2 ⟨j, retiring_lt hl⟩ l hl r hr⟩,
      fun h => ⟨h.toOkQueue, h.addr, h.data, fun j l hl r hr => h.executed j l r hl hr⟩⟩

/-- A cycle in which nothing comes in. -/
def idle : Inputs where
  pipeFlush := false
  dispatchValid := fun _ => false
  executeStAddr := 0
  executeStAddrStqTag := 0
  executeStAddrValid := false
  executeStData := 0
  executeStDataSize := 0
  executeStDataStqTag := 0
  executeStDataValid := false
  retirePkt := fun _ => {}
  fireStReady := false
  fireLdAddr := 0
  fireLdDataSize := 0
  fireLdLdqTag := 0
  fireLdStMask := fun _ => false
  fireLdStYoungest := 0
  fireLdValid := false

end R10K.Stq
