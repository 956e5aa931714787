import R10K.LdqConservative.Waits
import R10K.Lsq.Ordered

/-! Loads that wait see the stores before them.

What the load/store unit keeps, it keeps in each cycle of the conservative queue, since that
is a cycle of `ldq.sv` in which no store is missed: the executing store would be one that a
load in the fire stage has waited for. A load at the data cache has a clean word, so every
memory since its request gives its value (`Kept.seen`). So every result broadcast is its
load's value (`conservative_ordered`). -/
namespace R10K.LdqConservative
open Circular Lsq Ldq Memory

/-- Everything a run keeps. -/
structure Kept (m : Mem) (s : System) : Prop extends Right m s.toSystem where
  waits : Waits s.lsq
  seen : ∀ {k r n x}, s.Load k r n x → 0 < s.lsq.pending (Ptr.ofCount 4 k).idx → s.served k = false →
    ∀ m' ∈ s.seen (Ptr.ofCount 4 k).idx, readBytes m' x.addr x.size = s.value m n x

namespace Kept
variable {m : Mem} {s : System} {i : Lsq.Inputs} {k n : Nat} {r : Ldq.Load} {x : Exec}

theorem cycle (h : Kept m s) (ok : System.Ok i s) : Lsq.System.Cycle
    (writebackAccept (ldqIn i s.lsq.state) s.lsq.ldq.ldq) i s.toSystem (s.next i).toSystem where
  toCycle := h.waits.cycle h.unit ok.lsq (h.fresh i) ok.noFlush
  older := rfl
  mem := rfl
  request := fun _ => rfl

/-- No store before a load that has started executes. -/
theorem unhit (h : Kept m s) (ok : System.Ok i s) (hs : Started s.lsq (Ptr.ofCount 4 k).idx) :
    hits i s.toSystem k = false := by
  rw [← Bool.not_eq_true]
  intro hhit
  rw [hits, Bool.and_eq_true, Bool.and_eq_true] at hhit
  exact Bool.false_ne_true ((h.waits.unhit h.unit ok.lsq hs hhit.1.2).symm.trans hhit.2)

/-- The store that no check sees does not arise: its load has waited for it. -/
theorem no_miss (h : Kept m s) (ok : System.Ok i s) : ¬ Missed i s.lsq.state := by
  intro hmiss
  have hno := h.waits.unhit h.unit ok.lsq (.fire hmiss.fire rfl) hmiss.executes
  exact Bool.false_ne_true (hno.symm.trans hmiss.older)

/-- The answer for a load that waits for one is its value, whichever memory it was read from. -/
theorem answers (h : Kept m s) (ok : System.Ok i s) : Right.Answers m i s.toSystem := by
  intro k r n x hl ha
  obtain ⟨ht, hv, hp, hserve⟩ := h.toRight.answered ok.toRules ha
  obtain ⟨_, hreq, hclean⟩ := h.values.pending hl hp hserve
  obtain ⟨m', hm', hdata⟩ := ok.answer hv
  rw [← ht] at hm' hdata
  rw [hreq] at hdata
  rcases List.mem_cons.1 hm' with rfl | hold
  · exact hdata.trans (h.toRight.clean_value hl hclean (.inr rfl))
  · exact hdata.trans (h.seen hl hp hserve m' hold)

theorem next_right (h : Kept m s) (ok : System.Ok i s) : Right m (s.next i).toSystem :=
  h.toRight.cycle ok.toRules (h.answers ok) (h.no_miss ok) (h.cycle ok)

/-- A request that stands and was not accepted in this cycle stood before, and nothing killed it. -/
theorem stood (h : Kept m s) (ok : System.Ok i s) (hacc : Config.accepts i s.lsq (Ptr.ofCount 4 k).idx = false)
    (hp : 0 < (s.next i).lsq.pending (Ptr.ofCount 4 k).idx) :
    0 < s.lsq.pending (Ptr.ofCount 4 k).idx ∧ s.served k = false := by
  rw [(h.cycle ok).pending, Config.pendingNext, hacc] at hp
  cases hkill : Config.kills i s.lsq (Ptr.ofCount 4 k).idx with
  | true =>
    rw [hkill, if_pos rfl] at hp
    exact absurd hp (Nat.lt_irrefl 0)
  | false =>
    rw [hkill, if_neg Bool.false_ne_true, Bool.toNat_false] at hp
    exact ⟨by omega, (h.waits.kill_eq h.unit ok.lsq _).symm.trans hkill⟩

/-- The memory after this cycle gives the value of a load at the data cache, and those before it
give what they gave. -/
theorem next_seen (h : Kept m s) (ok : System.Ok i s) (hl : (s.next i).Load k r n x)
    (hp : 0 < (s.next i).lsq.pending (Ptr.ofCount 4 k).idx) (hserve : (s.next i).served k = false)
    (m' : Mem) (hm' : m' ∈ (s.next i).seen (Ptr.ofCount 4 k).idx) :
    readBytes m' x.addr x.size = (s.next i).value m n x := by
  have hright := h.next_right ok
  have hnew : readBytes (s.nextMem i) x.addr x.size = (s.next i).value m n x :=
    hright.clean_value (i := i) hl (hright.values.pending hl hp hserve).2.2 (.inl rfl)
  have hseen : (s.next i).seen (Ptr.ofCount 4 k).idx = if Config.accepts i s.lsq (Ptr.ofCount 4 k).idx then
      [s.nextMem i] else s.nextMem i :: s.seen (Ptr.ofCount 4 k).idx := rfl
  rw [hseen] at hm'
  cases hacc : Config.accepts i s.lsq (Ptr.ofCount 4 k).idx with
  | true =>
    rw [hacc, if_pos rfl, List.mem_singleton] at hm'
    rw [hm']
    exact hnew
  | false =>
    rw [hacc, if_neg Bool.false_ne_true] at hm'
    rcases List.mem_cons.1 hm' with rfl | hold
    · exact hnew
    · have e := h.cycle ok
      obtain ⟨hp₀, hserve₀⟩ := h.stood ok hacc hp
      rcases h.toRight.prev ok.toRules e hl with ⟨_, hl₀⟩ | hno
      · rw [h.seen hl₀ hp₀ hserve₀ m' hold]
        have hfired := (h.unit.pending _ hp₀).2.2.2.1
        exact (h.toRight.unhit_value ok.toRules e hl₀ (h.unhit ok (.fired hfired))).symm
      · rw [(h.toRight.idle ok.toRules e hno).2.1] at hp
        exact absurd hp (Nat.lt_irrefl 0)

/-- **Every cycle keeps everything.** -/
theorem next (h : Kept m s) (ok : System.Ok i s) : Kept m (s.next i) where
  toRight := h.next_right ok
  waits := h.waits.next h.unit ok.lsq (h.fresh i) ok.noFlush
  seen := fun hl hp hserve => h.next_seen ok hl hp hserve

theorem init (m : Mem) : Kept m (System.init m) where
  toRight := Right.init m
  waits := Waits.init
  seen := fun hl => by cases hl.load

theorem of_reach (h : System.Reach m s) : Kept m s :=
  h.invariant (Kept m) (init m) fun _ _ hi ok => hi.next ok

/-- What is broadcast is the value of its load. -/
theorem ordered (h : Kept m s) (ok : System.Ok i s) : s.Ordered m i := by
  intro hv
  rw [writebackValid, decide_eq_true_eq] at hv
  have hslot : ldWriteback (ldqIn i s.lsq.state) s.lsq.ldq.ldq (s.slot i) = true := lowest_of_exists hv
  have hdatum := h.waits.hasDatum_of_writeback h.unit ok.lsq hslot
  have hstarted := h.waits.started h.unit ok.lsq (h.fresh i) hdatum
  obtain ⟨hvalid, haddr⟩ := h.unit.served ok.lsq (h.fresh i) hdatum
  obtain ⟨k, r, hk, hr, _, hidx, htag, hag⟩ := h.unit.live_at hvalid
  rw [hag.addr, Option.isSome_iff_exists] at haddr
  obtain ⟨x, hx⟩ := haddr
  obtain ⟨_, _, hprn, hrob⟩ := hag.exec x hx
  have hlt := (List.getElem?_eq_some_iff.1 hr).1
  rw [← h.length] at hlt
  have hl : s.Load k r s.older[k] x := ⟨hk, hr, List.getElem?_eq_getElem hlt, hx⟩
  rw [hidx] at hdatum hstarted
  obtain ⟨_, _, hval⟩ := h.toRight.data_value ok.toRules (h.answers ok) hl hdatum
  rw [h.waits.fwd_eq, h.waits.dcache_eq h.unit ok.lsq] at hval
  have hdata : writebackData (ldqIn i s.lsq.state) s.lsq.ldq.ldq = s.value m s.older[k] x := by
    show (if fwdDataAccept (ldqIn i s.lsq.state) (s.slot i) then s.lsq.stq.stq.fwdData
      else if dcacheDataAccept (ldqIn i s.lsq.state) (s.slot i) then i.dcacheData
      else (s.lsq.ldq.ldq.ldqEntry (s.slot i)).data) = _
    rw [hidx]
    exact hval
  exact ⟨k, r, _, x, hl, htag, hprn.symm, hrob.symm, h.toRight.written hl (h.waits.addrs _ hstarted), hdata⟩

end Kept

/-- **A broadcast load's result is that of the stores before it.** -/
theorem conservative_ordered {m : Mem} {s : System} (h : System.Reach m s) (i : Lsq.Inputs) (ok : System.Ok i s) :
    s.Ordered m i :=
  (Kept.of_reach h).ordered ok

/-! ### Two stores and a load -/

/-- Both stores execute, then the load, which is woken, looked up and served. -/
def served : System :=
  (((((((System.init zeros).next groupIn).next (storeWord 0 1)).next (storeWord 1 2)).next loadOut).next idle).next
    idle)

/-- A cycle with no answer keeps the rules if it does under `ldq.sv`. -/
theorem System.ok_of {i : Lsq.Inputs} {s : System} (ok : Lsq.System.Ok i s.toSystem) (hans : i.dcacheValid = false) :
    System.Ok i s :=
  ⟨ok.rules, ok.noFlush, fun hv => absurd (hans.symm.trans hv) Bool.false_ne_true⟩

theorem served_reach : System.Reach zeros served := by
  refine .step idle (.step idle (.step loadOut (.step (storeWord 1 2) (.step (storeWord 0 1) (.step groupIn .init
    ?_) ?_) ?_) ?_) ?_) ?_
  all_goals
    refine System.ok_of (Lsq.System.ok_of (fun _ => rfl) (Lsq.ok_of (fun _ => rfl) ?_ ?_ ?_ ?_ ?_) rfl rfl ?_ ?_) rfl <;>
      decide +kernel

/-- The load takes its word from the second store. -/
theorem conservative_ordered_pair : served.Ordered zeros takeIn ∧
    writebackValid (ldqIn takeIn served.lsq.state) served.lsq.ldq.ldq = true ∧
    writebackData (ldqIn takeIn served.lsq.state) served.lsq.ldq.ldq = 2 := by
  refine ⟨conservative_ordered served_reach takeIn ?_, by decide +kernel⟩
  refine System.ok_of (Lsq.System.ok_of (fun _ => rfl) (Lsq.ok_of (fun _ => rfl) ?_ ?_ ?_ ?_ ?_) rfl rfl ?_ ?_) rfl <;>
    decide +kernel

end R10K.LdqConservative
