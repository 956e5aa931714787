import R10K.Mem.Pipeline

/-! What a client of the memory sees.

A client asks for a load, learns its tag in the next cycle and its data under that tag later.
It knows the load it asked for in the cycle before and those that wait under their tags. In a
run without stores that is what the delay line holds: every load is accepted under a tag
that nothing waits under, and every answer is the word of a load that waits for it. -/
namespace R10K.Mem
open Cache DelayLine

/-- The words of the memory, by the addresses of their first bytes. -/
def words (s : State) (a : BitVec 32) : BitVec 64 := s.unifiedMemory (lineAt a)

/-- The address of a load. -/
def loadAddr (r : Option Request) : Option (BitVec 32) := r.bind fun r => r.load.map (·.1)

/-- The loads without an answer, with the one whose tag comes in this cycle. -/
def outstanding (asked : Option (BitVec 32)) (pending : BitVec 4 → Option (BitVec 32)) (response t : BitVec 4) :
    Option (BitVec 32) := if asked.isSome ∧ t = response then asked else pending t

/-- A load is in the line, or on the bus. -/
def Waits (l : DelayLine Request) (out : Option Request) (k : MemTag) (a : BitVec 32) : Prop :=
  (∃ c d, l c = some ⟨k, some (a, d)⟩) ∨ ∃ d, out = some ⟨k, some (a, d)⟩

/-- The client's record is what the line and the bus hold. -/
structure Served (latency : BitVec 16) (mem : BitVec 32 → BitVec 64) (s : State) (l : DelayLine Request)
    (out : Option Request) (asked : Option (BitVec 32)) (pending : BitVec 4 → Option (BitVec 32)) : Prop where
  holds : Holds latency s l
  shows : Shows s out
  /-- The tag on the bus has not been given again. -/
  fresh : ∀ r ∈ out, ∀ c r', l c = some r' → r'.tag ≠ r.tag
  /-- What was read is what the memory holds. -/
  contents : words s = mem
  reads : ∀ k a d, (∃ c, l c = some ⟨k, some (a, d)⟩) ∨ out = some ⟨k, some (a, d)⟩ → d = mem a
  response : s.mem2procResponse = (l (latency.toNat - 1)).elim 0 fun r => tagBus r.tag
  asked : asked = loadAddr (l (latency.toNat - 1))
  pending : ∀ t a, pending t = some a ↔ ∃ k, tagBus k = t ∧
    ((∃ c d, c ≠ latency.toNat - 1 ∧ l c = some ⟨k, some (a, d)⟩) ∨ ∃ d, out = some ⟨k, some (a, d)⟩)

variable {latency : BitVec 16} {mem : BitVec 32 → BitVec 64} {i : Inputs} {s : State} {l : DelayLine Request}
  {out : Option Request} {asked : Option (BitVec 32)} {pending : BitVec 4 → Option (BitVec 32)}

namespace Served

theorem init (memory : Line → BitVec 64) (loaded : MemTag → BitVec 64) :
    Served latency (words (init memory loaded)) (Mem.init memory loaded) empty none none fun _ => none where
  holds := .init memory loaded
  shows := ⟨rfl, rfl⟩
  fresh := nofun
  contents := rfl
  reads := by rintro k a d (⟨c, h⟩ | h) <;> cases h
  response := rfl
  asked := rfl
  pending := fun t a => ⟨nofun, by rintro ⟨k, -, ⟨c, d, -, h⟩ | ⟨d, h⟩⟩ <;> cases h⟩

theorem loadAddr_eq_some {r : Option Request} {a : BitVec 32} :
    loadAddr r = some a ↔ ∃ k d, r = some ⟨k, some (a, d)⟩ := by
  rcases r with _ | ⟨k, _ | ⟨b, d⟩⟩
  · exact ⟨nofun, nofun⟩
  · exact ⟨nofun, nofun⟩
  · simp [loadAddr]

/-- Two loads of the line under one tag are one. -/
theorem line_inj (h : Holds latency s l) {c c' : Nat} {r r' : Request} (hr : l c = some r) (hr' : l c' = some r')
    (htag : r.tag = r'.tag) : c = c' ∧ r = r' := by
  have hc := (h.busy c r hr).1
  rw [htag, (h.busy c' r' hr').1] at hc
  have hcc : c = c' := by omega
  subst hcc
  rw [hr, Option.some.injEq] at hr'
  exact ⟨rfl, hr'⟩

/-- What the client waits for. -/
theorem outstanding_iff (h : Served latency mem s l out asked pending) {t : BitVec 4} {a : BitVec 32} :
    outstanding asked pending s.mem2procResponse t = some a ↔ ∃ k, tagBus k = t ∧ Waits l out k a := by
  rw [outstanding]
  split
  · -- the load asked for before, at the end of the line
    rename_i hnew
    obtain ⟨hsome, rfl⟩ := hnew
    obtain ⟨b, hb⟩ := Option.isSome_iff_exists.1 hsome
    obtain ⟨j, d, hj⟩ := loadAddr_eq_some.1 (h.asked.symm.trans hb)
    have hresp := h.response
    rw [hj, Option.elim_some] at hresp
    rw [hb, Option.some.injEq]
    constructor
    · rintro rfl
      exact ⟨j, hresp.symm, .inl ⟨_, d, hj⟩⟩
    · rintro ⟨k, hk, ⟨c, d', hc⟩ | ⟨d', hout⟩⟩
      · have hkj : k = j := tagBus_inj (hk.trans hresp)
        have := (line_inj h.holds hc hj hkj).2
        simp only [Request.mk.injEq, Option.some.injEq, Prod.mk.injEq] at this
        exact this.2.1.symm
      · have hkj : k = j := tagBus_inj (hk.trans hresp)
        exact absurd hkj.symm (h.fresh _ hout _ _ hj)
  · rename_i hold
    rw [h.pending]
    refine exists_congr fun k => and_congr_right fun hk => ?_
    constructor
    · rintro (⟨c, d, -, hc⟩ | hout)
      · exact .inl ⟨c, d, hc⟩
      · exact .inr hout
    · rintro (⟨c, d, hc⟩ | hout)
      · refine .inl ⟨c, d, fun hlast => hold ?_, hc⟩
        subst hlast
        rw [h.asked, h.response, hc]
        exact ⟨rfl, hk.symm⟩
      · exact .inr hout

/-- **A load asked for is accepted**, under a tag that nothing waits under. -/
theorem accept (h : Served latency mem s l out asked pending) (hasked : asked.isSome = true) :
    s.mem2procResponse ≠ 0 ∧ pending s.mem2procResponse = none := by
  obtain ⟨a, ha⟩ := Option.isSome_iff_exists.1 hasked
  obtain ⟨j, d, hj⟩ := loadAddr_eq_some.1 (h.asked.symm.trans ha)
  have hresp := h.response
  rw [hj, Option.elim_some] at hresp
  rw [hresp]
  refine ⟨tagBus_ne_zero j, ?_⟩
  rw [Option.eq_none_iff_forall_ne_some]
  intro b hb
  obtain ⟨k, hk, ⟨c, d', hc, hl⟩ | ⟨d', hout⟩⟩ := (h.pending _ _).1 hb
  · exact hc (line_inj h.holds hl hj (tagBus_inj hk)).1
  · exact h.fresh _ hout _ _ hj (tagBus_inj hk).symm

/-- The load on the bus. -/
theorem tag_iff (h : Served latency mem s l out asked pending) :
    s.mem2procTag ≠ 0 ↔ ∃ k a d, out = some ⟨k, some (a, d)⟩ := by
  rw [h.shows.tag]
  rcases out with _ | ⟨k, _ | ⟨a, d⟩⟩
  · exact ⟨fun h => absurd rfl h, nofun⟩
  · exact ⟨fun h => absurd rfl h, nofun⟩
  · exact ⟨fun _ => ⟨k, a, d, rfl⟩, fun _ => tagBus_ne_zero k⟩

/-- **An answer is the word of a load that waits for it.** -/
theorem answer (h : Served latency mem s l out asked pending) {k : MemTag} {a : BitVec 32} {d : BitVec 64}
    (hout : out = some ⟨k, some (a, d)⟩) : s.mem2procTag = tagBus k ∧ s.mem2procData = some (mem a) ∧
      outstanding asked pending s.mem2procResponse s.mem2procTag = some a := by
  have htag : s.mem2procTag = tagBus k := by
    rw [h.shows.tag, hout]
    rfl
  refine ⟨htag, ?_, ?_⟩
  · rw [h.shows.data, hout, ← h.reads k a d (.inr hout)]
    rfl
  · rw [htag, h.outstanding_iff]
    exact ⟨k, rfl, .inr ⟨d, hout⟩⟩

/-- What waits when the load on the bus has been taken is in the line. -/
theorem pending_next (h : Served latency mem s l out asked pending) {t : BitVec 4} {a : BitVec 32} :
    (if t = s.mem2procTag then none else outstanding asked pending s.mem2procResponse t) = some a ↔
      ∃ k, tagBus k = t ∧ ∃ c d, l c = some ⟨k, some (a, d)⟩ := by
  constructor
  · intro hp
    split at hp
    · cases hp
    · rename_i ht
      obtain ⟨k, hk, hline | ⟨d, hout⟩⟩ := h.outstanding_iff.1 hp
      · exact ⟨k, hk, hline⟩
      · exact absurd (hk.symm.trans (h.answer hout).1.symm) ht
  · rintro ⟨k, rfl, c, d, hc⟩
    rw [if_neg, h.outstanding_iff]
    · exact ⟨k, rfl, .inl ⟨c, d, hc⟩⟩
    · intro htag
      obtain ⟨j, b, e, hout⟩ := h.tag_iff.1 (htag ▸ tagBus_ne_zero k)
      exact h.fresh _ hout _ _ hc (tagBus_inj (htag.trans (h.answer hout).1))

/-- **An edge whose command, if any, is a load with a valid address.** -/
theorem next (h : Served latency mem s l out asked pending) (hlat : latency ≠ 0) (hlt : latency.toNat < 15)
    (hstore : i.proc2memCommand ≠ .busStore) (hvalid : i.proc2memCommand = .busLoad → validAddress i = true) :
    Served latency mem (Mem.next latency i s) (shift latency.toNat (request i s) l) (l 0)
      (if i.proc2memCommand = .busLoad then some i.proc2memAddr else none)
      (fun t => if t = s.mem2procTag then none else outstanding asked pending s.mem2procResponse t) := by
  have hpos : 0 < latency.toNat := Nat.pos_of_ne_zero fun h0 => hlat (BitVec.eq_of_toNat_eq h0)
  have hlast : shift latency.toNat (request i s) l (latency.toNat - 1) = request i s :=
    if_pos (Nat.sub_add_cancel hpos)
  refine ⟨h.holds.next hlat, h.holds.shows hlat, fun r hr c r' hr' => ?_, ?_, ?_, ?_, ?_, fun t a => ?_⟩
  · rcases shift_eq_some.1 hr' with ⟨_, hnew⟩ | ⟨_, hold⟩
    · obtain ⟨k, hk, rfl⟩ := request_eq_some.1 hnew
      intro htag
      exact h.holds.not_acquired hr (hk.trans (congrArg some htag))
    · intro htag
      exact Nat.succ_ne_zero c (line_inj h.holds hold hr htag).1
  · funext a
    rw [← h.contents, words, store_next h.holds hlt, Memory.apply, stores, if_neg fun hs => hstore hs.1]
    rfl
  · rintro k a d (⟨c, hc⟩ | hout)
    · rcases shift_eq_some.1 hc with ⟨_, hnew⟩ | ⟨_, hold⟩
      · obtain ⟨j, _, hr⟩ := request_eq_some.1 hnew
        split at hr
        · simp only [Request.mk.injEq, Option.some.injEq, Prod.mk.injEq] at hr
          rw [hr.2.2, hr.2.1, ← h.contents]
          rfl
        · cases hr
      · exact h.reads k a d (.inl ⟨_, hold⟩)
    · exact h.reads k a d (.inl ⟨_, hout⟩)
  · rw [hlast, next_eq, request]
    cases acquired i s <;> rfl
  · rw [hlast]
    split
    · rename_i hload
      have hsome : (acquired i s).isSome = true := by
        rw [h.holds.acquired_isSome hlt, acquires, hload, hvalid hload]
        rfl
      obtain ⟨k, hk⟩ := Option.isSome_iff_exists.1 hsome
      rw [request, hk, if_pos hload]
      rfl
    · rename_i hload
      rw [request, if_neg hload]
      cases acquired i s <;> rfl
  · rw [h.pending_next]
    refine exists_congr fun k => and_congr_right fun _ => ?_
    constructor
    · rintro ⟨c, d, hc⟩
      cases c with
      | zero => exact .inr ⟨d, hc⟩
      | succ c =>
        have hlt : c + 1 < latency.toNat := by
          by_contra hge
          rw [h.holds.short _ (Nat.le_of_not_lt hge)] at hc
          cases hc
        exact .inl ⟨c, d, by omega, shift_eq_some.2 (.inr ⟨by omega, hc⟩)⟩
    · rintro (⟨c, d, hne, hc⟩ | ⟨d, hout⟩)
      · rcases shift_eq_some.1 hc with ⟨heq, _⟩ | ⟨_, hold⟩
        · exact absurd (by omega) hne
        · exact ⟨c + 1, d, hold⟩
      · exact ⟨0, d, hout⟩

end Served

end R10K.Mem
