import Mathlib.Data.List.ReduceOption
import R10K.Backend.Log
import R10K.Ldq.Queue
import R10K.Spine.Flow
import R10K.Stq.Queue

/-! The queues of the back end together.

A group enters the dispatch register only when the reorder buffer, both banks, the store
queue and the load queue have each promised room for four. The slots the stores and the
loads were given stand in the retire register and the reorder buffer in the order of the
store and the load queue, so these retire what they should. One edge keeps all of it. -/
namespace R10K.Backend
open Lanes

/-! ### Slots in flight -/

/-- The slot of a memory operation of one kind. -/
def memTag {T : Type} (mem : Bool) (tag : T) : Option T := if mem then some tag else none

/-- The slots of a group's memory operations. -/
theorem group_memTag {T : Type} (v mem : Lane → Bool) (tag : Lane → T) :
    ((group v).map fun l => memTag (mem l) (tag l)).reduceOption =
      (group fun l => v l && mem l).map tag := by
  have hlist : ∀ ls : List Lane, ((ls.filter v).map fun l => memTag (mem l) (tag l)).reduceOption =
      (ls.filter fun l => v l && mem l).map tag := by
    intro ls
    induction ls with
    | nil => rfl
    | cons l ls ih =>
      simp only [memTag] at ih ⊢
      cases hv : v l <;> cases hm : mem l <;> simp [hv, hm, ih]
  exact hlist _

/-- The slots in the retire register and in the buffer, in order. -/
def slotsInFlight {T : Type} (f : RetireRobPacket → Option T) (g : DispatchRobPacket → Option T)
    (c : Spine.Config) : List T :=
  (Spine.retireRead f c.state).reduceOption ++
    (c.robLog.live.map fun r => g r.pkt).reduceOption

section
variable {T : Type} {f : RetireRobPacket → Option T} {g : DispatchRobPacket → Option T}
  {c : Spine.Config} {i : Spine.Inputs}

/-- Without a flush the retiring slots leave and the dispatched ones join. -/
theorem slotsInFlight_next (hq : Rob.Queue c.rob) (hf : Spine.pipeFlush c.state = false)
    (hfg : ∀ r p, Rob.Shows r p → f p = g r.pkt) :
    slotsInFlight f g (c.next i) =
      (slotsInFlight f g c).drop (Spine.retireRead f c.state).reduceOption.length ++
        ((group fun l => (c.state.pipeRenamePkt l).packetValid).map fun l =>
          g (Spine.dispatchRobPkt i c.state l)).reduceOption := by
  have hmoves := congrArg List.reduceOption (Spine.moves (i := i) hq hf hfg)
  rw [List.reduceOption_append, List.reduceOption_append] at hmoves
  rw [slotsInFlight, hmoves, slotsInFlight, List.drop_left]

/-- After a flush there are none. -/
theorem slotsInFlight_flush (hf : Spine.pipeFlush c.state = true) : slotsInFlight f g (c.next i) = [] := by
  rw [slotsInFlight, Spine.retireRead_flush f hf, Spine.live_flush hf]
  rfl

end

def storeRetired (p : RetireRobPacket) : Option StqTag := memTag p.wrMem p.stqTag
def storeDispatched (p : DispatchRobPacket) : Option StqTag := memTag p.wrMem p.stqTag
def loadRetired (p : RetireRobPacket) : Option LdqTag := memTag p.rdMem p.ldqTag
def loadDispatched (p : DispatchRobPacket) : Option LdqTag := memTag p.rdMem p.ldqTag

/-! ### The invariant -/

structure Inv (c : Config) : Prop where
  flow : Spine.Flow c.spine
  int : Rs.Credit c.intReady c.state.core.rsInt
  mem : Rs.Credit c.memReady c.state.core.rsMem
  intAwake : Rs.Awake c.state.core.rsInt
  memAwake : Rs.Awake c.state.core.rsMem
  stq : Stq.Queue c.stq
  ldq : Ldq.Queue c.ldq
  promised : ∀ l, (c.state.core.spine.pipeRenamePkt l).packetValid = true →
    (∀ m, c.intReady m = true) ∧ (∀ m, c.memReady m = true) ∧ c.stqReady = true ∧ c.ldqReady = true
  stores : c.stqLog.live.map Stq.Store.tag = slotsInFlight storeRetired storeDispatched c.spine
  loads : c.ldqLog.live.map Ldq.Load.tag = slotsInFlight loadRetired loadDispatched c.spine
  vacant : c.state.core.spine.sysException = false → Stq.Vacant c.stq

/-- A group is accepted when the branch table and the rename stage take it. -/
theorem takes_iff {i : Inputs} {s : State} : takes i s = (Ptab.fetchPktReady s.ptab && accept i s) := by
  have hlane : ∀ l, fetchPktReady i s l = (Ptab.fetchPktReady s.ptab && renamePktReady i s l) := by
    intro l
    rw [fetchPktReady]
    cases Ptab.fetchPktReady s.ptab <;> rfl
  unfold takes accept
  rw [funext hlane]
  cases Ptab.fetchPktReady s.ptab <;> rfl

/-- The core takes fetched groups without holes. -/
theorem okFetch {c : Config} {i : Inputs} (ok : Ok i c) : Spine.OkFetch (spineIn i c.state) where
  contiguous := by
    have hv : ∀ l, (decodeRenameFetchPkt i c.state l).packetValid =
        ((i.fetchPkt l).packetValid && Ptab.fetchPktReady c.state.ptab) := by
      intro l
      unfold decodeRenameFetchPkt
      cases hp : (i.fetchPkt l).packetValid <;> cases Ptab.fetchPktReady c.state.ptab <;> simp [hp]
    intro a b d hab hbd ha hd
    show (decodeRenameFetchPkt i c.state b).packetValid = true
    have ha' : (decodeRenameFetchPkt i c.state a).packetValid = true := ha
    have hd' : (decodeRenameFetchPkt i c.state d).packetValid = true := hd
    rw [hv, Bool.and_eq_true] at ha' hd' ⊢
    exact ⟨ok a b d hab hbd ha'.1 hd'.1, ha'.2⟩

namespace Inv
variable {c : Config} {i : Inputs}

/-! ### What each queue is promised -/

theorem retiring_stores (c : Config) (i : Inputs) :
    (Spine.retireRead storeRetired c.spine.state).reduceOption =
      (group (Stq.retiresStore (c.stqIn i))).map fun l => (c.state.core.spine.pipeRetirePkt l).stqTag :=
  group_memTag _ _ _

theorem retiring_loads (c : Config) (i : Inputs) :
    (Spine.retireRead loadRetired c.spine.state).reduceOption =
      (group (Ldq.retiresLoad (c.ldqIn i))).map fun l => (c.state.core.spine.pipeRetirePkt l).ldqTag :=
  group_memTag _ _ _

theorem okStq (h : Inv c) (i : Inputs) : Stq.OkQueue (c.stqIn i) c.stq where
  ready := by
    intro hpos
    rw [Stq.dispatchCnt_eq] at hpos
    obtain ⟨l, hl⟩ := List.exists_mem_of_length_pos hpos
    exact (h.promised l (Bool.and_eq_true_iff.1 (mem_group.1 hl)).1).2.2.1
  retire := by
    intro j l hl
    have htag := congrArg (fun ts => ts[j]?) h.stores
    have hlt := (List.getElem?_eq_some_iff.1 hl).1
    rw [slotsInFlight, retiring_stores c i, List.getElem?_append_left (by rwa [List.length_map]),
      List.getElem?_map, List.getElem?_map, hl] at htag
    obtain ⟨r, hr, ht⟩ := Option.map_eq_some_iff.1 htag
    exact ⟨r, hr, ht.symm⟩

theorem okLdq (h : Inv c) (i : Inputs) : Ldq.OkQueue (c.ldqIn i) c.ldq where
  ready := by
    intro hpos
    rw [Ldq.dispatchCnt_eq] at hpos
    obtain ⟨l, hl⟩ := List.exists_mem_of_length_pos hpos
    exact (h.promised l (Bool.and_eq_true_iff.1 (mem_group.1 hl)).1).2.2.2
  retire := by
    intro j l hl
    have htag := congrArg (fun ts => ts[j]?) h.loads
    have hlt := (List.getElem?_eq_some_iff.1 hl).1
    rw [slotsInFlight, retiring_loads c i, List.getElem?_append_left (by rwa [List.length_map]),
      List.getElem?_map, List.getElem?_map, hl] at htag
    obtain ⟨r, hr, ht⟩ := Option.map_eq_some_iff.1 htag
    exact ⟨r, hr, ht.symm⟩

theorem rsPkt_valid {p : RenamePacket} {t : RobTag} {b : BitVec 4} {st : StqTag} {ld : LdqTag}
    (h : (Core.rsPkt p t b st ld).packetValid = true) : p.packetValid = true := by
  simp only [Core.rsPkt, Bool.and_eq_true] at h
  exact h.1.1.1

theorem okInt (h : Inv c) (i : Inputs) : Rs.OkDispatch (c.intIn i) c.intReady := by
  intro l hl
  have hl' : (Core.intDispatchPkt (coreIn i c.state) c.state.core l).packetValid = true := hl
  rw [Core.intDispatchPkt] at hl'
  split at hl'
  · exact (h.promised l (rsPkt_valid hl')).1
  · cases hl'

theorem okMem (h : Inv c) (i : Inputs) : Rs.OkDispatch (c.memIn i) c.memReady := by
  intro l hl
  have hl' : (Core.memDispatchPkt (coreIn i c.state) c.state.core l).packetValid = true := hl
  rw [Core.memDispatchPkt] at hl'
  split at hl'
  · exact (h.promised l (rsPkt_valid hl')).2.1
  · cases hl'

theorem okRob (h : Inv c) (i : Inputs) : Rob.OkDispatch (c.robIn i) c.spine.rob := h.flow.okDispatch

/-! ### One edge -/

/-- The store queue's slots follow the buffer's. -/
theorem next_stores (h : Inv c) (i : Inputs) : (c.next i).stqLog.live.map Stq.Store.tag =
    slotsInFlight storeRetired storeDispatched (c.next i).spine := by
  have hlive := Stq.Log.live_next (c.stqIn i) c.state.lsq.stq c.stqLog (h.stq.retire_le (h.okStq i))
  have hcnt : (Spine.retireRead storeRetired c.spine.state).reduceOption.length =
      Stq.retireCnt (c.stqIn i) := by
    rw [retiring_stores c i, List.length_map, Stq.retireCnt_eq]
  rw [Config.next_spine]
  cases hf : Spine.pipeFlush c.spine.state with
  | true =>
    rw [slotsInFlight_flush hf]
    rw [if_pos (show (c.stqIn i).pipeFlush = true from hf)] at hlive
    exact hlive
  | false =>
    rw [slotsInFlight_next h.flow.queue hf fun r p hs => by rw [hs]; rfl, hcnt, ← h.stores]
    rw [if_neg (by rw [show (c.stqIn i).pipeFlush = false from hf]; exact Bool.false_ne_true)] at hlive
    refine hlive.trans (congrArg _ ?_)
    exact (group_memTag _ _ _).symm

theorem next_loads (h : Inv c) (i : Inputs) : (c.next i).ldqLog.live.map Ldq.Load.tag =
    slotsInFlight loadRetired loadDispatched (c.next i).spine := by
  have hlive := h.ldq.live_next (h.okLdq i)
  have hcnt : (Spine.retireRead loadRetired c.spine.state).reduceOption.length =
      Ldq.retireCnt (c.ldqIn i) := by
    rw [retiring_loads c i, List.length_map, Ldq.retireCnt_eq]
  rw [Config.next_spine]
  cases hf : Spine.pipeFlush c.spine.state with
  | true =>
    rw [slotsInFlight_flush hf]
    rw [if_pos (show (c.ldqIn i).pipeFlush = true from hf)] at hlive
    exact hlive
  | false =>
    rw [slotsInFlight_next h.flow.queue hf fun r p hs => by rw [hs]; rfl, hcnt, ← h.loads]
    rw [if_neg (by rw [show (c.ldqIn i).pipeFlush = false from hf]; exact Bool.false_ne_true)] at hlive
    refine hlive.trans (congrArg _ ?_)
    exact (group_memTag _ _ _).symm

/-- A branch's flush meets no store in the dispatch register, and after an exception's
nothing is dispatched. -/
theorem next_vacant (h : Inv c) (i : Inputs) (hs : (c.next i).state.core.spine.sysException = false) :
    Stq.Vacant (c.next i).stq := by
  have hs' : (c.state.core.spine.sysException || Spine.retireException c.state.core.spine) = false := hs
  rw [Bool.or_eq_false_iff] at hs'
  refine h.stq.next_vacant (h.vacant hs'.1) (h.okStq i) fun hf => ?_
  have hf' : (Spine.retireBrMisp c.state.core.spine || Spine.retireException c.state.core.spine) = true := hf
  rw [hs'.2, Bool.or_false] at hf'
  have hquiet := h.flow.quiet hf'
  have hnone : ∀ l, Lsq.dispatchStqValid (lsqIn i c.state) l = false := by
    intro l
    show ((c.spine.state.pipeRenamePkt l).packetValid && (c.spine.state.pipeRenamePkt l).wrMem) = false
    rw [hquiet l]
    rfl
  show (Lsq.dispatchStqValid (lsqIn i c.state) 3).toNat + (Lsq.dispatchStqValid (lsqIn i c.state) 2).toNat +
    (Lsq.dispatchStqValid (lsqIn i c.state) 1).toNat + (Lsq.dispatchStqValid (lsqIn i c.state) 0).toNat = 0
  rw [hnone, hnone, hnone, hnone]
  rfl

/-- **One edge keeps the queues.** -/
theorem next (h : Inv c) (ok : Ok i c) : Inv (c.next i) where
  flow := h.flow.next (okFetch ok)
  int := h.int.next (h.okInt i)
  mem := h.mem.next (h.okMem i)
  intAwake := h.intAwake.next _
  memAwake := h.memAwake.next _
  stq := h.stq.next (h.okStq i)
  ldq := h.ldq.next (h.okLdq i)
  promised := by
    intro l hl
    obtain ⟨_, _, hlsq, hall⟩ := Spine.accept_ready (Spine.next_taken (c := c.spine) l hl).2
    have hlsq' : (Stq.dispatchReady (c.stqIn i) c.state.lsq.stq &&
        Ldq.dispatchReady (c.ldqIn i) c.state.lsq.ldq) = true := hlsq
    rw [Bool.and_eq_true] at hlsq'
    exact ⟨fun m => (hall m).1, fun m => (hall m).2.1, hlsq'⟩
  stores := h.next_stores i
  loads := h.next_loads i
  vacant := h.next_vacant i

theorem init : Inv Config.init where
  flow := Spine.Flow.init
  int := Rs.Credit.init (by decide)
  mem := Rs.Credit.init (by decide)
  intAwake := Rs.Awake.init
  memAwake := Rs.Awake.init
  stq := Stq.Queue.init
  ldq := Ldq.Queue.init
  promised := fun _ h => by cases h
  stores := rfl
  loads := rfl
  vacant := fun _ => Stq.Vacant.init

end Inv

/-- Every reachable configuration keeps the invariant. -/
theorem reach_inv {c : Config} (h : Reach c) : Inv c :=
  Run.Reach.invariant Inv Inv.init (fun _ _ hinv ok => hinv.next ok) h

end R10K.Backend
