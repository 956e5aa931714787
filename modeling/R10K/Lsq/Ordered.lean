import R10K.Lsq.Values

/-! Loads see the stores before them.

A result is offered once every store of the load's mask has its address; the others are in
the memory. So all stores before the load have executed, and the load's value is that of
the memory they leave. In a run that never misses a store every result taken is right
(`load_ordered`). One that does can give a load the datum of an older store
(`load_missed`). -/
namespace R10K.Lsq
open Circular Lanes Ldq

/-- Every store before a load has executed when those of its mask have their address. -/
theorem Right.written {m : Mem} {s : System} (h : Right m s) {k n : Nat} {r : Load} {x : Exec}
    (hl : s.Load k r n x) (hwait : ∀ t, (s.entry k).stMask t = true → HasAddr s.lsq t) :
    ∀ q ∈ s.stores.take n, q.write.isSome = true := by
  intro q hq
  obtain ⟨j, hj⟩ := List.getElem?_of_mem hq
  have hlt : j < n := by
    have := (List.getElem?_eq_some_iff.1 hj).1
    rw [List.length_take] at this
    omega
  rw [List.getElem?_take_of_lt hlt] at hj
  have hsl : s.sent ≤ s.lsq.stq.log.retired := h.unit.stq.sent_le
  have hroom : s.stores.length ≤ s.sent + 16 := h.unit.stq.room
  have hlen := (List.getElem?_eq_some_iff.1 hj).1
  by_cases hret : j < s.lsq.stq.log.retired
  · exact h.unit.stq.written j q hret hj
  · have hsent : s.sent ≤ j := by omega
    have hmask := (h.mask k n j hl.live hl.older hsent (by omega)).trans (decide_eq_true hlt)
    have haddr := (hwait _ hmask).1
    rw [(h.unit.stq.holds j q hsent hj).addr.1] at haddr
    rw [Stq.write_isSome, ← h.accesses.both j q hj, haddr]
    rfl

/-- What is offered is the value of its load. -/
theorem Right.ordered {m : Mem} {s : System} {i : Inputs} (h : Right m s) (ok : System.Ok i s) :
    s.Ordered m i := by
  intro t ht
  have hslot := accept_slot ht
  rw [writebackAccept, Bool.and_eq_true, Bool.and_eq_true, beq_iff_eq] at ht
  obtain ⟨⟨ht, _⟩, _⟩ := ht
  have hdatum := hasDatum_of_writeback hslot
  obtain ⟨hvalid, haddr⟩ := h.unit.served ok.lsq (h.fresh i) hdatum
  obtain ⟨k, r, hk, hr, _, rfl, htag, hag⟩ := h.unit.live_at hvalid
  rw [hag.addr, Option.isSome_iff_exists] at haddr
  obtain ⟨x, hx⟩ := haddr
  have hlt := (List.getElem?_eq_some_iff.1 hr).1
  rw [← h.length] at hlt
  have hl : s.Load k r s.older[k] x := ⟨hk, hr, List.getElem?_eq_getElem hlt, hx⟩
  rw [ldWriteback, Bool.and_eq_true, decide_eq_true_eq] at hslot
  obtain ⟨hwait, _⟩ := hslot
  obtain ⟨hfail, _, hval⟩ := h.data_value ok.rules (h.answers ok) hl hdatum
  refine ⟨k, r, _, x, hl, htag, h.written hl fun u hu => Bool.and_eq_true_iff.1 (hwait u hu), ?_⟩
  have hserve : ((Ptr.ofCount 4 k).idx == (ldqIn i s.lsq.state).fwdLdqTag && (ldqIn i s.lsq.state).fwdValid) =
      fwdDataAccept (ldqIn i s.lsq.state) s.lsq.ldq.ldq (Ptr.ofCount 4 k).idx := by
    rw [fwdDataAccept, show (s.lsq.ldq.ldq.ldqEntry (Ptr.ofCount 4 k).idx).orderFail = false from hfail,
      Bool.not_false, Bool.and_true]
  rw [writebackData, ← ht, hserve]
  exact hval

/-- **A load's result is that of the stores before it**, in a run that misses no store. -/
theorem load_ordered {m : Mem} {s : System}
    (h : Run.Reach System.next (fun i s => System.Ok i s ∧ ¬ Missed i s.lsq.state) (System.init m) s)
    (i : Inputs) (ok : System.Ok i s) : s.Ordered m i :=
  (h.invariant (Right m) (Right.init m) fun _ _ hi hok => hi.next hok.1 hok.2).ordered ok

/-! ### Two stores and a load -/

def zeros : Mem := fun _ => 0

/-- Two stores and a load, dispatched as one group. -/
def groupIn : Inputs :=
  { idle with dispatchPkt := fun l => { wrMem := decide (l < 2), rdMem := decide (l = 2), packetValid := decide (l < 3) } }

/-- A store of a word executes. -/
def storeWord (t : StqTag) (data : BitVec 32) : Inputs :=
  { idle with executePkt := { result := 0x100, wrMem := true, stData := data, stqTag := t, memSize := 2, packetValid := true } }

/-- The result is taken. -/
def takeIn : Inputs := { idle with writebackReady := true }

/-- A cycle that retires nothing keeps the rules if its dispatch and execution do. -/
theorem System.ok_of {i : Inputs} {s : System} (hret : ∀ l, (i.retirePkt l).packetValid = false)
    (hlsq : Lsq.Ok i s.lsq) (hf : i.pipeFlush = false) (hans : i.dcacheValid = false)
    (hacc : (executeStqValid i || executeLdqValid i) = true → Access i.executePkt.result i.executePkt.memSize)
    (hzero : s.lsq.stq.log.retired = 0) : System.Ok i s := by
  refine ⟨hlsq, hf, hacc, fun k n _ _ => ?_, fun hv => absurd (hans.symm.trans hv) Bool.false_ne_true⟩
  have hcnt : Stq.retireCnt (stqIn i s.lsq.state) = 0 := by
    have hno : ∀ l, Stq.retiresStore (stqIn i s.lsq.state) l = false := fun l => by
      rw [Stq.retiresStore, show ((stqIn i s.lsq.state).retirePkt l).packetValid = false from hret l]
      rfl
    rw [Stq.retireCnt, hno, hno, hno, hno]
    rfl
  rw [hzero, hcnt]
  exact Nat.zero_le n

/-- Both stores execute before the load does. -/
def inOrder : System :=
  ((((System.init zeros).next groupIn).next (storeWord 0 1)).next (storeWord 1 2)).next loadOut

theorem inOrder_reach : Run.Reach System.next (fun i s => System.Ok i s ∧ ¬ Missed i s.lsq.state)
    (System.init zeros) (inOrder.next idle) := by
  refine .step idle (.step loadOut (.step (storeWord 1 2) (.step (storeWord 0 1) (.step groupIn .init
    ⟨?_, fun h => absurd h.fire (by decide)⟩) ⟨?_, fun h => absurd h.fire (by decide)⟩)
    ⟨?_, fun h => absurd h.fire (by decide)⟩) ⟨?_, fun h => absurd h.fire (by decide)⟩)
    ⟨?_, fun h => absurd h.executes (by decide)⟩
  all_goals
    refine System.ok_of (fun _ => rfl) (ok_of (fun _ => rfl) ?_ ?_ ?_ ?_ ?_) rfl rfl ?_ ?_ <;> decide +kernel

/-- The load is served from the second store. -/
theorem load_ordered_pair : (inOrder.next idle).Ordered zeros takeIn :=
  load_ordered inOrder_reach takeIn
    (System.ok_of (fun _ => rfl) (ok_of (fun _ => rfl) (by decide) (by decide) (by decide) (by decide) (by decide))
      rfl rfl (by decide) (by decide +kernel))

/-- The second store executes while the load is in the fire stage, and the data cache refuses
the load. -/
def overtaken : System :=
  ((((System.init zeros).next groupIn).next (storeWord 0 1)).next loadOut).next (storeWord 1 2)

/-- The load's result is the datum of the first store. -/
theorem load_missed : ∃ s i, System.Reach zeros s ∧ System.Ok i s ∧ ¬ s.Ordered zeros i := by
  refine ⟨overtaken, takeIn, ?_, ?_, fun h => ?_⟩
  · refine .step (storeWord 1 2) (.step loadOut (.step (storeWord 0 1) (.step groupIn .init ?_) ?_) ?_) ?_
    all_goals
      refine System.ok_of (fun _ => rfl) (ok_of (fun _ => rfl) ?_ ?_ ?_ ?_ ?_) rfl rfl ?_ ?_ <;> decide +kernel
  · exact System.ok_of (fun _ => rfl) (ok_of (fun _ => rfl) (by decide) (by decide) (by decide) (by decide)
      (by decide)) rfl rfl (by decide) (by decide +kernel)
  · obtain ⟨k, r, n, x, hl, _, _, hval⟩ := h 0 (by decide +kernel)
    have hlen : overtaken.lsq.ldq.log.loads.length = 1 := by decide +kernel
    have hk : k = 0 := by
      have := (List.getElem?_eq_some_iff.1 hl.load).1
      omega
    subst hk
    have holder : overtaken.older[0]? = some 2 := by decide +kernel
    have hload : (overtaken.lsq.ldq.log.loads[0]?).bind Load.exec = some ⟨0x100, 2, 0, ⟨false, 0⟩⟩ := by
      decide +kernel
    rw [hl.load, Option.bind_some, hl.exec, Option.some.injEq] at hload
    have hn := hl.older.symm.trans holder
    rw [Option.some.injEq] at hn
    subst hn hload
    have hne : Ldq.writebackData (ldqIn takeIn overtaken.lsq.state) overtaken.lsq.ldq.ldq ≠
        overtaken.value zeros 2 ⟨0x100, 2, 0, ⟨false, 0⟩⟩ := by decide +kernel
    exact hne hval

end R10K.Lsq
