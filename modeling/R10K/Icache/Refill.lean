import R10K.Icache.Lines
import R10K.Lib.Requests
import R10K.Lib.Run

/-! When a refill assembles its line.

The tags of the four requests are noted by position, but an answer is put into the buffer
by how many came before it, the buffer is taken for complete when the fourth tag is
answered, and the controller goes on to write one cycle after the third answer. All three
agree with the positions when the answers come in order and the fourth right after the
third. Then the line written is the memory's line, so every line held and every group
presented is. -/
namespace R10K.Icache
open Cache Assoc

/-- The memory, by the addresses of its doublewords. -/
abbrev Mem := BitVec 32 → BitVec 64

/-- The address of a doubleword of the line of an address. -/
def doubleAddr (addr : BitVec 32) (p : Nat) : BitVec 32 := lineBase addr + BitVec.ofNat 32 (8 * p)

/-- The line of an address. -/
def memLine (mem : Mem) (addr : BitVec 32) : Block := fun k =>
  (mem (doubleAddr addr (k.val / 2))).extractLsb' (k.val % 2 * 32) 32

/-- The cache with what the memory knows of its requests: the one made in the cycle before,
those accepted and not answered, by their tags, and the addresses answered in this miss. -/
structure System where
  ctrl : State
  asked : Option (BitVec 32)
  pending : BitVec 4 → Option (BitVec 32)
  got : List (BitVec 32)

variable {mem : Mem} {i : Inputs} {s : System}

/-- The requests without an answer, with the one whose tag comes in this cycle. -/
def outstanding (i : Inputs) (s : System) (t : BitVec 4) : Option (BitVec 32) :=
  if s.asked.isSome ∧ t = i.imem2procResponse then s.asked else s.pending t

/-- The address answered in this cycle. -/
def answer (i : Inputs) (s : System) : Option (BitVec 32) :=
  if i.imem2procTag = 0 then none else outstanding i s i.imem2procTag

namespace System

def init (tagSram : CacheWay → Sram Tag) (dataSram : CacheWay → Sram Block) : System where
  ctrl := reset tagSram dataSram
  asked := none
  pending := fun _ => none
  got := []

def next (i : Inputs) (s : System) : System where
  ctrl := Icache.next i s.ctrl
  asked := if proc2imemCommand s.ctrl = .busLoad then some (proc2imemAddr s.ctrl) else none
  pending := fun t => if t = i.imem2procTag then none else outstanding i s t
  got := if s.ctrl.currSt = .chkHit then [] else s.got ++ (answer i s).toList

end System

/-- What the memory promises: a request is accepted in the next cycle, under a tag that is
not in use; an answer is the doubleword of a request that waits for it, and comes when the
controller has made its requests. -/
structure Serves (mem : Mem) (i : Inputs) (s : System) : Prop where
  accept : s.asked.isSome → i.imem2procResponse ≠ 0 ∧ s.pending i.imem2procResponse = none
  answer : i.imem2procTag ≠ 0 → ∃ a, outstanding i s i.imem2procTag = some a ∧ i.imem2procData = mem a
  late : i.imem2procTag ≠ 0 → s.ctrl.currSt ≠ .rdL2Req

/-- The answers come in the order of their addresses, the fourth in the cycle after the third. -/
structure InOrder (i : Inputs) (s : System) : Prop where
  order : s.ctrl.currSt = .rdL2Ack → ∀ a, answer i s = some a → a = doubleAddr s.ctrl.currFetchPc s.got.length
  last : s.ctrl.currSt = .rdL2Ack → s.got.length = 3 → i.imem2procTag ≠ 0

instance : Decidable (Serves mem i s) :=
  decidable_of_iff
    ((s.asked.isSome → i.imem2procResponse ≠ 0 ∧ s.pending i.imem2procResponse = none) ∧
      (i.imem2procTag ≠ 0 → (outstanding i s i.imem2procTag).any fun a => i.imem2procData == mem a) ∧
      (i.imem2procTag ≠ 0 → s.ctrl.currSt ≠ .rdL2Req))
    ⟨fun h => ⟨h.1, fun ht => by simpa [Option.any_eq_true] using h.2.1 ht, h.2.2⟩,
      fun h => ⟨h.accept, fun ht => by simpa [Option.any_eq_true] using h.answer ht, h.late⟩⟩

instance : Decidable (InOrder i s) :=
  decidable_of_iff
    ((s.ctrl.currSt = .rdL2Ack →
      (answer i s).all fun a => a == doubleAddr s.ctrl.currFetchPc s.got.length) ∧
      (s.ctrl.currSt = .rdL2Ack → s.got.length = 3 → i.imem2procTag ≠ 0))
    ⟨fun h => ⟨fun hst => by simpa [Option.all_eq_true] using h.1 hst, h.2⟩,
      fun h => ⟨fun hst => by simpa [Option.all_eq_true] using h.order hst, h.last⟩⟩

/-- All four doublewords of the line have arrived. -/
def Complete (addr : BitVec 32) (got : List (BitVec 32)) : Prop := ∀ p < 4, doubleAddr addr p ∈ got

/-- What a cycle does with a line is right. -/
structure Refills (mem : Mem) (i : Inputs) (s : System) : Prop where
  /-- `RD_L2_ACK` is left when all four have arrived. -/
  leaves : s.ctrl.currSt = .rdL2Ack → nextSt i s.ctrl ≠ .rdL2Ack →
    Complete s.ctrl.currFetchPc (s.next i).got
  /-- A line is written and made valid when all four have arrived, -/
  marks : (arrayIn i s.ctrl).wen = true → Complete s.ctrl.currFetchPc s.got
  /-- under its own address and with the memory's doublewords. -/
  written : (arrayIn i s.ctrl).wen = true → (arrayIn i s.ctrl).addr = s.ctrl.currFetchPc ∧
    (arrayIn i s.ctrl).wrBlock = memLine mem s.ctrl.currFetchPc
  /-- A group presented is the memory's line of the fetch in service. -/
  delivered : (∃ k, fetchGrpValid s.ctrl k = true) → fetchGrp s.ctrl = memLine mem s.ctrl.currFetchPc

/-! ### Tags and positions -/

theorem doubleAddr_inj {addr : BitVec 32} {p q : Nat} (hp : p < 4) (hq : q < 4)
    (h : doubleAddr addr p = doubleAddr addr q) : p = q := by
  have hnat := congrArg BitVec.toNat ((BitVec.add_right_inj _).1 h)
  rw [BitVec.toNat_ofNat, BitVec.toNat_ofNat] at hnat
  omega

/-- The requests that wait are those of the positions from `n` up to `m`, under their tags. -/
structure Tagged (addr : BitVec 32) (out : BitVec 4 → Option (BitVec 32)) (tag : Fin 4 → BitVec 4)
    (m n : Nat) : Prop where
  waits : ∀ t a, out t = some a ↔ ∃ k : Fin 4, n ≤ k.val ∧ k.val < m ∧ a = doubleAddr addr k.val ∧ tag k = t
  distinct : ∀ j k : Fin 4, j.val < m → k.val < m → tag j = tag k → j = k
  nonzero : ∀ k : Fin 4, k.val < m → tag k ≠ 0

namespace Tagged
variable {addr : BitVec 32} {out : BitVec 4 → Option (BitVec 32)} {tag : Fin 4 → BitVec 4} {m n : Nat}

/-- The places from `n` on wait. -/
theorem noted_iff : Tagged addr out tag m n ↔
    Requests.Noted (doubleAddr addr) (fun k : Fin 4 => n ≤ k.val) out tag 0 m := by
  have hcomm : ∀ t a, (∃ k : Fin 4, n ≤ k.val ∧ k.val < m ∧ a = doubleAddr addr k.val ∧ tag k = t) ↔
      ∃ k : Fin 4, k.val < m ∧ n ≤ k.val ∧ a = doubleAddr addr k.val ∧ tag k = t := fun t a =>
    exists_congr fun k => and_left_comm
  constructor
  · intro h
    exact ⟨fun t a => (h.waits t a).trans (hcomm t a), h.distinct, h.nonzero⟩
  · intro h
    exact ⟨fun t a => (h.waits t a).trans (hcomm t a).symm, h.distinct, h.named⟩

theorem start (tag : Fin 4 → BitVec 4) : Tagged addr (fun _ => none) tag 0 0 := noted_iff.2 (.start ..)

/-- One more request is given a tag that is not in use. -/
theorem accept (h : Tagged addr out tag m 0) (hm : m < 4) {r : BitVec 4} (hr : r ≠ 0) (hfree : out r = none) :
    Tagged addr (fun t => if t = r then some (doubleAddr addr m) else out t)
      (fun k => if k.val = m then r else tag k) (m + 1) 0 := by
  have hn := noted_iff.1 h
  exact noted_iff.2 (hn.accept hm (Nat.zero_le _) hr fun k hk => hn.fresh hfree hk (Nat.zero_le _))

/-- A cycle without an answer. Tag 0 names no request. -/
theorem silent (h : Tagged addr out tag m n) : Tagged addr (fun t => if t = 0 then none else out t) tag m n :=
  noted_iff.2 (noted_iff.1 h).silent

/-- The next position is answered. -/
theorem take (h : Tagged addr out tag m n) {t : BitVec 4} (ht : out t = some (doubleAddr addr n)) :
    (∃ k : Fin 4, k.val = n ∧ n < m ∧ tag k = t) ∧
      Tagged addr (fun t' => if t' = t then none else out t') tag m (n + 1) := by
  obtain ⟨k, hk, hkm, ha, rfl⟩ := (h.waits t _).1 ht
  have hkn : k.val = n := (doubleAddr_inj (by omega) (by omega) ha).symm
  refine ⟨⟨k, hkn, by omega, rfl⟩, noted_iff.2 (((noted_iff.1 h).answer hkm).congr fun j _ => ?_)⟩
  rw [ne_eq, Fin.ext_iff]
  omega

end Tagged

/-! ### The progress of a miss -/

/-- `m` tags are noted and `n` answers have come, all into their places. -/
structure Noted (mem : Mem) (s : System) (m n : Nat) : Prop where
  tagged : Tagged s.ctrl.currFetchPc s.pending s.ctrl.outstandingTag m n
  got : s.got = (List.range n).map (doubleAddr s.ctrl.currFetchPc)
  cnt : s.ctrl.imem2procInstCnt.toNat = 2 * n
  buf : ∀ k : Fin 8, k.val < 2 * n → s.ctrl.cacheLineBuf k = memLine mem s.ctrl.currFetchPc k

/-- The request of position `m` was made in the cycle before. -/
structure Asked (s : System) (m : Nat) : Prop where
  asked : s.asked = some (doubleAddr s.ctrl.currFetchPc m)
  command : s.ctrl.proc2imemCommandPipe = .busLoad
  cnt : s.ctrl.proc2imemInstCntPipe.toNat = 2 * m

/-- No request was made in the cycle before. -/
structure Quiet (s : System) : Prop where
  asked : s.asked = none
  command : s.ctrl.proc2imemCommandPipe = .busNone

/-- Nothing is asked of the memory and nothing is collected. -/
structure Resting (s : System) : Prop extends Quiet s where
  valid : s.ctrl.cacheLineBufValid = false
  requests : s.ctrl.proc2imemInstCnt = 0
  answers : s.ctrl.imem2procInstCnt = 0
  pending : s.pending = fun _ => none

/-- How far a miss has come, in each state of the controller. -/
def Phase (mem : Mem) (s : System) : Prop :=
  match s.ctrl.currSt with
  | .rdL2Req => s.ctrl.cacheLineBufValid = false ∧
      ((s.ctrl.proc2imemInstCnt.toNat = 0 ∧ Quiet s ∧ Noted mem s 0 0) ∨
        ∃ m < 3, s.ctrl.proc2imemInstCnt.toNat = 2 * (m + 1) ∧ Asked s m ∧ Noted mem s m 0)
  | .rdL2Ack => s.ctrl.cacheLineBufValid = false ∧
      ((Asked s 3 ∧ Noted mem s 3 0) ∨ (Quiet s ∧ ∃ n ≤ 3, Noted mem s 4 n))
  | .wrL1 => s.ctrl.cacheLineBufValid = true ∧ Quiet s ∧ Noted mem s 4 4
  | _ => Resting s

theorem Asked.tagged {m : Nat} (h : Asked s m) (hm : m < 4)
    (ht : Tagged s.ctrl.currFetchPc s.pending s.ctrl.outstandingTag m 0) (ok : Serves mem i s) :
    Tagged s.ctrl.currFetchPc (outstanding i s) (next i s.ctrl).outstandingTag (m + 1) 0 := by
  have hsome : s.asked.isSome = true := by rw [h.asked]; rfl
  obtain ⟨hr, hfree⟩ := ok.accept hsome
  have hout : outstanding i s = fun t =>
      if t = i.imem2procResponse then some (doubleAddr s.ctrl.currFetchPc m) else s.pending t := by
    funext t
    simp [outstanding, h.asked]
  have htag : (next i s.ctrl).outstandingTag = fun k : Fin 4 =>
      if k.val = m then i.imem2procResponse else s.ctrl.outstandingTag k := by
    funext k
    have hidx : s.ctrl.proc2imemInstCntPipe.toNat / 2 = m := by rw [h.cnt]; omega
    simp only [next, h.command, hidx, if_true]
  rw [hout, htag]
  exact ht.accept hm hr hfree

theorem Quiet.outstanding_eq (h : Quiet s) : outstanding i s = s.pending := by
  funext t
  simp [outstanding, h.asked]

theorem Quiet.tag_eq (h : Quiet s) (hh : hit s.ctrl = false) :
    (next i s.ctrl).outstandingTag = s.ctrl.outstandingTag := by
  funext k
  simp [next, h.command, hh]

/-- The first tag that matches is the one answered. -/
theorem answered_eq {c : State} {k : Fin 4} (ht : i.imem2procTag ≠ 0) (hk : c.outstandingTag k = i.imem2procTag)
    (hfirst : ∀ j < k, c.outstandingTag j ≠ i.imem2procTag) : answered i c = some k := by
  rw [answered, if_neg ht, List.find?_eq_some_iff_getElem]
  refine ⟨by simp [hk], k.val, by simp, by simp, fun j hj => ?_⟩
  have hjlt : j < 4 := by omega
  have := hfirst ⟨j, hjlt⟩ hj
  simpa using fun h => this h.symm

theorem putDouble_memLine {addr : BitVec 32} {b : Block} {cnt : BitVec 5} {n : Nat}
    (hcnt : cnt.toNat = 2 * n) (hb : ∀ k : Fin 8, k.val < 2 * n → b k = memLine mem addr k) (k : Fin 8)
    (hk : k.val < 2 * (n + 1)) : putDouble b cnt (mem (doubleAddr addr n)) k = memLine mem addr k := by
  unfold putDouble
  rw [hcnt]
  by_cases h0 : k.val = 2 * n
  · rw [if_pos h0, memLine, h0, show 2 * n / 2 = n by omega, show 2 * n % 2 * 32 = 0 by omega]
  · rw [if_neg h0]
    by_cases h1 : k.val = 2 * n + 1
    · rw [if_pos h1, memLine, h1, show (2 * n + 1) / 2 = n by omega, show (2 * n + 1) % 2 * 32 = 32 by omega]
    · rw [if_neg h1]
      exact hb k (by omega)

/-! ### One edge of a miss -/

/-- A miss keeps its fetch. -/
theorem currFetchPc_keep {c : State} (h : c.currSt = .rdL2Req ∨ c.currSt = .rdL2Ack) :
    (next i c).currFetchPc = c.currFetchPc := by
  have hacc : fetchPcAccept i c = false := by
    rcases h with h | h <;> simp [fetchPcAccept, fetchPcReady, h]
  have hidle : nextSt i c ≠ .idle := by
    rcases h with h | h <;> rw [nextSt, h] <;> simp only <;> split <;> decide
  simp only [next, hacc, if_neg hidle, Bool.false_eq_true, if_false]

/-- A request is made for the position the counter shows. -/
theorem proc2imemAddr_eq {c : State} {j : Nat} (h : c.currSt = .rdL2Req)
    (hj : c.proc2imemInstCnt.toNat = 2 * j) : proc2imemAddr c = doubleAddr c.currFetchPc j := by
  have hlt := c.proc2imemInstCnt.isLt
  rw [proc2imemAddr, if_pos h, doubleAddr, BitVec.add_right_inj]
  apply BitVec.eq_of_toNat_eq
  rw [BitVec.toNat_mul, BitVec.toNat_setWidth, hj, BitVec.toNat_ofNat, show (4 : BitVec 32).toNat = 4 from rfl]
  omega

/-- Outside `RD_L2_ACK` the buffer waits. -/
theorem nextBuf_wait {c : State} (hv : c.cacheLineBufValid = false) (h : c.currSt ≠ .rdL2Ack) :
    nextBuf i c = (c.imem2procInstCnt, c.cacheLineBuf, false) := by
  simp [nextBuf, hv, h]

/-- A cycle of a miss without an answer only notes the tag of the request before it. -/
theorem Noted.silent {m m' n : Nat} (h : Noted mem s m n) (hst : s.ctrl.currSt = .rdL2Req ∨ s.ctrl.currSt = .rdL2Ack)
    (hv : s.ctrl.cacheLineBufValid = false) (htag : i.imem2procTag = 0)
    (ht : Tagged s.ctrl.currFetchPc (outstanding i s) (next i s.ctrl).outstandingTag m' n) :
    Noted mem (s.next i) m' n ∧ (next i s.ctrl).cacheLineBufValid = false := by
  have hpc : (next i s.ctrl).currFetchPc = s.ctrl.currFetchPc := currFetchPc_keep hst
  have hchk : s.ctrl.currSt ≠ .chkHit := by rcases hst with hst | hst <;> rw [hst] <;> decide
  have hans : answered i s.ctrl = none := by rw [answered, if_pos htag]
  have hbuf : nextBuf i s.ctrl = (s.ctrl.imem2procInstCnt, s.ctrl.cacheLineBuf, false) := by
    simp [nextBuf, hv, hans]
  refine ⟨⟨?_, ?_, ?_, ?_⟩, ?_⟩
  · simp only [System.next, hpc, htag]
    exact ht.silent
  · simp only [System.next, if_neg hchk, answer, if_pos htag, hpc, Option.toList_none, List.append_nil]
    exact h.got
  · simp only [System.next, next, hbuf]
    exact h.cnt
  · intro k hk
    simp only [System.next, hpc]
    simp only [next, hbuf]
    exact h.buf k hk
  · simp only [next, hbuf]

/-- A cycle of `RD_L2_ACK` takes at most the next answer and puts it into its place. -/
theorem Noted.ack {m m' n : Nat} (h : Noted mem s m n) (hst : s.ctrl.currSt = .rdL2Ack)
    (hv : s.ctrl.cacheLineBufValid = false) (hn : n ≤ 3) (hnm : n < m)
    (ht : Tagged s.ctrl.currFetchPc (outstanding i s) (next i s.ctrl).outstandingTag m' n)
    (hold : ∀ k : Fin 4, k.val < m → (next i s.ctrl).outstandingTag k = s.ctrl.outstandingTag k)
    (ok : Serves mem i s) (ord : InOrder i s) :
    (n < 3 ∧ Noted mem (s.next i) m' n ∧ (next i s.ctrl).cacheLineBufValid = false) ∨
      (Noted mem (s.next i) m' (n + 1) ∧ (next i s.ctrl).cacheLineBufValid = decide (n = 3)) := by
  have hpc : (next i s.ctrl).currFetchPc = s.ctrl.currFetchPc := currFetchPc_keep (.inr hst)
  have hlen : s.got.length = n := by rw [h.got, List.length_map, List.length_range]
  have hchk : s.ctrl.currSt ≠ .chkHit := by rw [hst]; decide
  by_cases htag : i.imem2procTag = 0
  · left
    have hne : n ≠ 3 := fun h3 => ord.last hst (hlen.trans h3) htag
    exact ⟨by omega, h.silent (.inr hst) hv htag ht⟩
  · right
    obtain ⟨a, ha, hdata⟩ := ok.answer htag
    have hanswer : answer i s = some a := by rw [answer, if_neg htag, ha]
    have haddr : a = doubleAddr s.ctrl.currFetchPc n := by
      rw [ord.order hst a hanswer, hlen]
    subst haddr
    obtain ⟨⟨k, hk, _, hkt⟩, htake⟩ := ht.take ha
    have hanswered : answered i s.ctrl = some k := by
      have hkold : s.ctrl.outstandingTag k = i.imem2procTag := (hold k (by omega)).symm.trans hkt
      refine answered_eq htag hkold fun j hj heq => ?_
      have hjlt : j.val < k.val := hj
      have := h.tagged.distinct j k (by omega) (by omega) (heq.trans hkold.symm)
      omega
    have hbuf : nextBuf i s.ctrl = (s.ctrl.imem2procInstCnt + 2,
        putDouble s.ctrl.cacheLineBuf s.ctrl.imem2procInstCnt i.imem2procData, decide (n = 3)) := by
      have hk3 : k = 3 ↔ n = 3 := by rw [Fin.ext_iff, hk]; rfl
      simp [nextBuf, hv, hst, hanswered, hk3]
    refine ⟨⟨?_, ?_, ?_, ?_⟩, ?_⟩
    · simp only [System.next, hpc]
      exact htake
    · simp only [System.next, if_neg hchk, hanswer, hpc, Option.toList_some, h.got, List.range_succ,
        List.map_append, List.map_cons, List.map_nil]
    · simp only [System.next, next, hbuf]
      have hcnt := h.cnt
      rw [BitVec.toNat_add, show (2 : BitVec 5).toNat = 2 from rfl]
      omega
    · intro j hj
      simp only [System.next, hpc]
      simp only [next, hbuf, hdata]
      exact putDouble_memLine h.cnt h.buf j hj
    · simp only [next, hbuf]

/-! ### The invariant -/

/-- The states in which the array was presented the fetch in service. -/
def lookSt : CtrlSt → Bool
  | .chkHit | .rdL2Req | .rdL2Ack | .wrL1 | .afterWaitRdy => true
  | _ => false

/-- The states that serve a miss. -/
def missSt : CtrlSt → Bool
  | .rdL2Req | .rdL2Ack | .wrL1 => true
  | _ => false

/-- The states that wait for the consumer. -/
def waitSt : CtrlSt → Bool
  | .hitL1WaitRdy | .missL1WaitRdy | .afterWaitRdy => true
  | _ => false

/-- The states that no edge of `WR_L1` enters. -/
def freshSt : CtrlSt → Bool
  | .chkHit | .hitL1WaitRdy | .afterWaitRdy => true
  | _ => false

structure Inv (mem : Mem) (s : System) : Prop where
  shows : Shows s.ctrl.array
  unique : (lines s.ctrl.array).Unique
  contents : ∀ w x t, (lines s.ctrl.array).Holds w x t →
    (lines s.ctrl.array).block w x = memLine mem (byteAddr t x 0)
  fresh : freshSt s.ctrl.currSt = true → Fresh s.ctrl.array
  looked : lookSt s.ctrl.currSt = true → Looked s.ctrl.array s.ctrl.currFetchPc
  absent : missSt s.ctrl.currSt = true → ¬ Held s.ctrl.array s.ctrl.currFetchPc
  present : waitSt s.ctrl.currSt = true → Held s.ctrl.array s.ctrl.currFetchPc
  phase : Phase mem s

theorem Inv.init (tagSram : CacheWay → Sram Tag) (dataSram : CacheWay → Sram Block) :
    Inv mem (System.init tagSram dataSram) where
  shows := .reset tagSram dataSram
  unique := Store.unique_of_empty fun _ _ => rfl
  contents := fun _ _ _ h => absurd h.1 Bool.false_ne_true
  fresh := nofun
  looked := nofun
  absent := nofun
  present := nofun
  phase := ⟨⟨rfl, rfl⟩, rfl, rfl, rfl, rfl⟩

/-- A state that looks up the fetch in service was presented it. -/
theorem addrCacheArray_look {c : State} (h : lookSt (nextSt i c) = true) :
    addrCacheArray i c = (next i c).currFetchPc := by
  have he := edge i c
  simp only [addrCacheArray, next]
  generalize c.currSt = st, nextSt i c = st', fetchPcAccept i c = acc at he h ⊢
  cases he <;> simp_all [lookSt]

/-- What the write enable says of the state. -/
theorem Phase.wen_iff (h : Phase mem s) : s.ctrl.cacheLineBufValid = true ↔ s.ctrl.currSt = .wrL1 := by
  unfold Phase at h
  cases hst : s.ctrl.currSt <;> simp only [hst] at h
  case rdL2Req | rdL2Ack => simp [h.1]
  case wrL1 => simp [h.1]
  all_goals simp [h.valid]

/-- Nothing waits at the memory but the requests of a miss. -/
theorem Phase.answer_ack (h : Phase mem s) (ok : Serves mem i s) (ht : i.imem2procTag ≠ 0) :
    s.ctrl.currSt = .rdL2Ack := by
  obtain ⟨a, ha, _⟩ := ok.answer ht
  have hlate := ok.late ht
  unfold Phase at h
  cases hst : s.ctrl.currSt <;> simp only [hst] at h hlate
  case rdL2Ack => rfl
  case rdL2Req => exact absurd rfl hlate
  case wrL1 =>
    rw [h.2.1.outstanding_eq, h.2.2.tagged.waits] at ha
    obtain ⟨k, hk, hk4, _⟩ := ha
    omega
  all_goals
    rw [h.toQuiet.outstanding_eq, h.pending] at ha
    cases ha

/-- An edge that accepts nothing and does not go idle keeps the fetch in service. -/
theorem currFetchPc_stay {c : State} (hacc : fetchPcAccept i c = false) (hidle : nextSt i c ≠ .idle) :
    (next i c).currFetchPc = c.currFetchPc := by
  simp only [next, hacc, if_neg hidle, Bool.false_eq_true, if_false]

theorem memLine_line (addr : BitVec 32) :
    memLine mem (byteAddr (addrTag addr) (addrIndex addr) 0) = memLine mem addr := by
  funext k
  rw [memLine, memLine, doubleAddr, doubleAddr, lineBase_line]

/-- The request made in a cycle of `RD_L2_REQ`. -/
theorem asked_next {j : Nat} (hst : s.ctrl.currSt = .rdL2Req) (hj : s.ctrl.proc2imemInstCnt.toNat = 2 * j) :
    Asked (s.next i) j := by
  have hcmd : proc2imemCommand s.ctrl = .busLoad := if_pos hst
  refine ⟨?_, hcmd, hj⟩
  simp only [System.next, hcmd, if_true, proc2imemAddr_eq hst hj, currFetchPc_keep (.inl hst)]

/-- The last request is that of position 3, and the last answer the third. -/
theorem nextSt_req {c : State} {j : Nat} (hst : c.currSt = .rdL2Req) (hj : c.proc2imemInstCnt.toNat = 2 * j) :
    nextSt i c = if j = 3 then .rdL2Ack else .rdL2Req := by
  have hlast : c.proc2imemInstCnt = 8 - 2 ↔ j = 3 := by
    rw [BitVec.toNat_inj.symm, hj, show (8 - 2 : BitVec 5).toNat = 6 from rfl]
    omega
  simp only [nextSt, hst, hlast]

theorem nextSt_ack {c : State} {n : Nat} (hst : c.currSt = .rdL2Ack) (hn : c.imem2procInstCnt.toNat = 2 * n) :
    nextSt i c = if n = 3 then .wrL1 else .rdL2Ack := by
  have hlast : c.imem2procInstCnt = 8 - 2 ↔ n = 3 := by
    rw [BitVec.toNat_inj.symm, hn, show (8 - 2 : BitVec 5).toNat = 6 from rfl]
    omega
  simp only [nextSt, hst, hlast]

namespace Inv

theorem hit_eq (h : Inv mem s) (hst : s.ctrl.currSt ≠ .wrL1) : hit s.ctrl = arrayHit s.ctrl.array false := by
  have hv : s.ctrl.cacheLineBufValid = false := by
    rw [← Bool.not_eq_true, h.phase.wen_iff]
    exact hst
  rw [hit, hv]

/-- A miss does not hit before its line is written. -/
theorem hit_miss (h : Inv mem s) (hst : s.ctrl.currSt = .rdL2Req ∨ s.ctrl.currSt = .rdL2Ack) :
    hit s.ctrl = false := by
  have hmiss : missSt s.ctrl.currSt = true := by rcases hst with hst | hst <;> rw [hst] <;> rfl
  have hlook : lookSt s.ctrl.currSt = true := by rcases hst with hst | hst <;> rw [hst] <;> rfl
  rw [h.hit_eq (by rcases hst with hst | hst <;> rw [hst] <;> decide), ← Bool.not_eq_true]
  exact fun hh => h.absent hmiss (h.shows.held (h.looked hlook) hh)

theorem lines_next (h : Inv mem s) (hst : s.ctrl.currSt ≠ .wrL1) :
    lines (next i s.ctrl).array = lines s.ctrl.array := by
  apply lines_next_none
  show s.ctrl.cacheLineBufValid = false
  rw [← Bool.not_eq_true, h.phase.wen_iff]
  exact hst

/-- What `WR_L1` writes is the memory's line of the fetch in service. -/
theorem buf_eq (h : Inv mem s) (hst : s.ctrl.currSt = .wrL1) : s.ctrl.cacheLineBuf = memLine mem s.ctrl.currFetchPc := by
  have hp := h.phase
  rw [Phase, hst] at hp
  funext k
  exact hp.2.2.buf k (by omega)

theorem lines_next_wrL1 (h : Inv mem s) (hst : s.ctrl.currSt = .wrL1) : ∃ w,
    lines (next i s.ctrl).array = (lines s.ctrl.array).fill w (addrIndex s.ctrl.currFetchPc)
      (addrTag s.ctrl.currFetchPc) (memLine mem s.ctrl.currFetchPc) := by
  have haddr : addrCacheArray i s.ctrl = s.ctrl.currFetchPc := by simp [addrCacheArray, hst]
  have hwen : (arrayIn i s.ctrl).wen = true := h.phase.wen_iff.2 hst
  have hfill := lines_next_fill (i := arrayIn i s.ctrl) (a := s.ctrl.array) hwen
  rw [show (arrayIn i s.ctrl).addr = _ from haddr, show (arrayIn i s.ctrl).wrBlock = _ from h.buf_eq hst] at hfill
  exact ⟨_, hfill⟩

/-- The lines stay apart and the memory's. -/
theorem lines_keep (h : Inv mem s) : (lines (next i s.ctrl).array).Unique ∧
    ∀ w x t, (lines (next i s.ctrl).array).Holds w x t →
      (lines (next i s.ctrl).array).block w x = memLine mem (byteAddr t x 0) := by
  by_cases hst : s.ctrl.currSt = .wrL1
  · obtain ⟨w, hw⟩ := h.lines_next_wrL1 (i := i) hst
    have hno := h.absent (by rw [hst]; rfl)
    rw [hw]
    refine ⟨h.unique.fill fun v hv => absurd ⟨v, hv⟩ hno, fun v x t hv => ?_⟩
    rw [Store.holds_fill] at hv
    simp only [Store.fill]
    split at hv
    · rename_i heq
      rw [if_pos heq, heq.2, ← hv, memLine_line]
    · rename_i hne
      rw [if_neg hne]
      exact h.contents v x t hv
  · rw [h.lines_next hst]
    exact ⟨h.unique, h.contents⟩

/-- From a state that asks nothing, nothing is asked or collected. -/
theorem resting_next (h : Inv mem s) (ok : Serves mem i s) (hreq : s.ctrl.currSt ≠ .rdL2Req)
    (hack : s.ctrl.currSt ≠ .rdL2Ack) : Resting (s.next i) := by
  have htag : i.imem2procTag = 0 := by
    by_contra htag
    exact hack (h.phase.answer_ack ok htag)
  have hcmd : proc2imemCommand s.ctrl = .busNone := if_neg hreq
  have hp := h.phase
  have hquiet : Quiet s ∧ (∀ t, s.pending t = none) ∧ (nextBuf i s.ctrl).1 = 0 ∧ (nextBuf i s.ctrl).2.2 = false := by
    unfold Phase at hp
    cases hst : s.ctrl.currSt <;> simp only [hst] at hp
    case rdL2Req => exact absurd hst hreq
    case rdL2Ack => exact absurd hst hack
    case wrL1 =>
      refine ⟨hp.2.1, fun t => ?_, by simp [nextBuf, hp.1], by simp [nextBuf, hp.1]⟩
      rw [Option.eq_none_iff_forall_ne_some]
      intro a ha
      obtain ⟨k, hk, hk4, _⟩ := (hp.2.2.tagged.waits t a).1 ha
      omega
    all_goals
      refine ⟨hp.toQuiet, fun t => by rw [hp.pending], ?_, ?_⟩ <;>
        rw [nextBuf_wait hp.valid hack]
      exact hp.answers
  obtain ⟨hq, hpend, hcnt, hval⟩ := hquiet
  refine ⟨⟨?_, hcmd⟩, hval, if_neg hreq, hcnt, ?_⟩
  · simp [System.next, hcmd]
  · funext t
    simp only [System.next, htag, hq.outstanding_eq, hpend, ite_self]

theorem phase_req (h : Inv mem s) (ok : Serves mem i s) (hst : s.ctrl.currSt = .rdL2Req) :
    Phase mem (s.next i) := by
  have htag : i.imem2procTag = 0 := by
    by_contra htag
    exact ok.late htag hst
  have hp := h.phase
  simp only [Phase, hst] at hp
  obtain ⟨hv, hp⟩ := hp
  have hcnt : ∀ j < 4, s.ctrl.proc2imemInstCnt.toNat = 2 * j →
      (next i s.ctrl).proc2imemInstCnt.toNat = 2 * (j + 1) := by
    intro j hj hc
    simp only [next, if_pos hst, BitVec.toNat_add, hc, show (2 : BitVec 5).toNat = 2 from rfl]
    omega
  rcases hp with ⟨hc, hq, hn⟩ | ⟨m, hm, hc, ha, hn⟩
  · have ht := hn.tagged
    rw [← hq.outstanding_eq (i := i), ← hq.tag_eq (i := i) (h.hit_miss (.inl hst))] at ht
    obtain ⟨hn', hv'⟩ := hn.silent (.inl hst) hv htag ht
    have hnext : (s.next i).ctrl.currSt = .rdL2Req := nextSt_req (j := 0) hst hc
    simp only [Phase, hnext]
    exact ⟨hv', .inr ⟨0, by omega, hcnt 0 (by omega) hc, asked_next (j := 0) hst hc, hn'⟩⟩
  · have ht := ha.tagged (i := i) (by omega) hn.tagged ok
    obtain ⟨hn', hv'⟩ := hn.silent (.inl hst) hv htag ht
    by_cases h2 : m = 2
    · subst h2
      have hnext : (s.next i).ctrl.currSt = .rdL2Ack := nextSt_req hst hc
      simp only [Phase, hnext]
      exact ⟨hv', .inl ⟨asked_next hst hc, hn'⟩⟩
    · have hnext : (s.next i).ctrl.currSt = .rdL2Req := (nextSt_req hst hc).trans (if_neg (by omega))
      simp only [Phase, hnext]
      exact ⟨hv', .inr ⟨m + 1, by omega, hcnt (m + 1) (by omega) hc, asked_next hst hc, hn'⟩⟩

theorem phase_ack (h : Inv mem s) (ok : Serves mem i s) (ord : InOrder i s) (hst : s.ctrl.currSt = .rdL2Ack) :
    Phase mem (s.next i) := by
  have hp := h.phase
  simp only [Phase, hst] at hp
  obtain ⟨hv, hp⟩ := hp
  have hq' : Quiet (s.next i) := by
    have hcmd : proc2imemCommand s.ctrl = .busNone := if_neg (by rw [hst]; decide)
    exact ⟨by simp [System.next, hcmd], hcmd⟩
  rcases hp with ⟨ha, hn⟩ | ⟨hq, n, hn3, hn⟩
  · have ht := ha.tagged (i := i) (by omega) hn.tagged ok
    have hnext : (s.next i).ctrl.currSt = .rdL2Ack := nextSt_ack hst hn.cnt
    have hold : ∀ k : Fin 4, k.val < 3 → (next i s.ctrl).outstandingTag k = s.ctrl.outstandingTag k := fun k hk => by
      have hidx : k.val ≠ s.ctrl.proc2imemInstCntPipe.toNat / 2 := by rw [ha.cnt]; omega
      simp only [next, ha.command, if_true, if_neg hidx]
    simp only [Phase, hnext]
    rcases hn.ack hst hv (by omega) (by omega) ht hold ok ord with ⟨_, hn', hv'⟩ | ⟨hn', hv'⟩
    · exact ⟨hv', .inr ⟨hq', 0, by omega, hn'⟩⟩
    · exact ⟨hv', .inr ⟨hq', 1, by omega, hn'⟩⟩
  · have htags := hq.tag_eq (i := i) (h.hit_miss (.inr hst))
    have ht := hn.tagged
    rw [← hq.outstanding_eq (i := i), ← htags] at ht
    have hres := hn.ack hst hv hn3 (by omega) ht (fun k _ => by rw [htags]) ok ord
    by_cases h3 : n = 3
    · subst h3
      have hnext : (s.next i).ctrl.currSt = .wrL1 := nextSt_ack hst hn.cnt
      simp only [Phase, hnext]
      rcases hres with ⟨hlt, _⟩ | ⟨hn', hv'⟩
      · omega
      · exact ⟨hv', hq', hn'⟩
    · have hnext : (s.next i).ctrl.currSt = .rdL2Ack := (nextSt_ack hst hn.cnt).trans (if_neg h3)
      simp only [Phase, hnext]
      rcases hres with ⟨_, hn', hv'⟩ | ⟨hn', hv'⟩
      · exact ⟨hv', .inr ⟨hq', n, hn3, hn'⟩⟩
      · rw [decide_eq_false h3] at hv'
        exact ⟨hv', .inr ⟨hq', n + 1, by omega, hn'⟩⟩

theorem phase_next (h : Inv mem s) (ok : Serves mem i s) (ord : InOrder i s) : Phase mem (s.next i) := by
  by_cases hreq : s.ctrl.currSt = .rdL2Req
  · exact h.phase_req ok hreq
  by_cases hack : s.ctrl.currSt = .rdL2Ack
  · exact h.phase_ack ok ord hack
  have hrest := h.resting_next ok hreq hack
  unfold Phase
  cases hnext : (s.next i).ctrl.currSt <;> simp only
  case rdL2Req =>
    have hchk : s.ctrl.currSt = .chkHit := ((nextSt_rdL2Req hnext).resolve_right hreq).1
    refine ⟨hrest.valid, .inl ⟨by rw [hrest.requests]; rfl, hrest.toQuiet, ?_, ?_, ?_, fun k hk => ?_⟩⟩
    · rw [hrest.pending]
      exact .start _
    · simp [System.next, hchk]
    · rw [hrest.answers]
      rfl
    · omega
  case rdL2Ack => exact ((nextSt_rdL2Ack hnext).elim hreq hack).elim
  case wrL1 => exact absurd (nextSt_wrL1 hnext) hack
  all_goals exact hrest

/-- A line that is fetched is not in the array until `WR_L1` has written it. -/
theorem absent_next (h : Inv mem s) (hmiss : missSt (nextSt i s.ctrl) = true) :
    ¬ Held (next i s.ctrl).array (next i s.ctrl).currFetchPc := by
  have he := edge i s.ctrl
  have hfrom : ((s.ctrl.currSt = .chkHit ∧ hit s.ctrl = false) ∨ s.ctrl.currSt = .rdL2Req ∨
      s.ctrl.currSt = .rdL2Ack) ∧ fetchPcAccept i s.ctrl = false ∧ nextSt i s.ctrl ≠ .idle := by
    generalize s.ctrl.currSt = st, nextSt i s.ctrl = st', fetchPcAccept i s.ctrl = acc at he hmiss ⊢
    cases he <;> simp_all [missSt]
  obtain ⟨hst, hacc, hidle⟩ := hfrom
  have hwr : s.ctrl.currSt ≠ .wrL1 := by rcases hst with ⟨hst, _⟩ | hst | hst <;> rw [hst] <;> decide
  rw [currFetchPc_stay hacc hidle, Held, h.lines_next hwr]
  rcases hst with ⟨hst, hh⟩ | hst
  · rw [h.hit_eq hwr, ← Bool.not_eq_true,
      h.shows.hit_iff (h.fresh (by rw [hst]; rfl)) (h.looked (by rw [hst]; rfl))] at hh
    exact hh
  · exact h.absent (by rcases hst with hst | hst <;> rw [hst] <;> rfl)

/-- The line of a fetch that waits for the consumer is in the array. -/
theorem present_next (h : Inv mem s) (hwait : waitSt (nextSt i s.ctrl) = true) :
    Held (next i s.ctrl).array (next i s.ctrl).currFetchPc := by
  have he := edge i s.ctrl
  have hfrom : ((s.ctrl.currSt = .chkHit ∧ hit s.ctrl = true) ∨ s.ctrl.currSt = .wrL1 ∨
      (waitSt s.ctrl.currSt = true ∧ s.ctrl.currSt ≠ .wrL1)) ∧ fetchPcAccept i s.ctrl = false ∧
      nextSt i s.ctrl ≠ .idle := by
    generalize s.ctrl.currSt = st, nextSt i s.ctrl = st', fetchPcAccept i s.ctrl = acc at he hwait ⊢
    cases he <;> simp_all [waitSt]
  obtain ⟨hst, hacc, hidle⟩ := hfrom
  rw [currFetchPc_stay hacc hidle]
  rcases hst with ⟨hst, hh⟩ | hst | ⟨hst, hwr⟩
  · have hwr : s.ctrl.currSt ≠ .wrL1 := by rw [hst]; decide
    rw [h.hit_eq hwr] at hh
    rw [Held, h.lines_next hwr]
    exact h.shows.held (h.looked (by rw [hst]; rfl)) hh
  · obtain ⟨w, hw⟩ := h.lines_next_wrL1 (i := i) hst
    rw [Held, hw]
    exact Store.present_fill_self
  · rw [Held, h.lines_next hwr]
    exact h.present hst

/-- **An edge keeps the invariant** if the memory serves and answers in order. -/
theorem next (h : Inv mem s) (ok : Serves mem i s) (ord : InOrder i s) : Inv mem (s.next i) where
  shows := .next ..
  unique := h.lines_keep.1
  contents := h.lines_keep.2
  fresh := fun hst => by
    refine Fresh.next (i := arrayIn i s.ctrl) ?_
    show s.ctrl.cacheLineBufValid = false
    rw [← Bool.not_eq_true, h.phase.wen_iff]
    have he := edge i s.ctrl
    have hnext : freshSt (nextSt i s.ctrl) = true := hst
    generalize s.ctrl.currSt = st, nextSt i s.ctrl = st', fetchPcAccept i s.ctrl = acc at he hnext ⊢
    cases he <;> simp_all [freshSt]
  looked := fun hst => by
    have haddr : (arrayIn i s.ctrl).addr = (Icache.next i s.ctrl).currFetchPc := addrCacheArray_look hst
    show Looked (nextArray (arrayIn i s.ctrl) s.ctrl.array) (Icache.next i s.ctrl).currFetchPc
    rw [← haddr]
    exact .next ..
  absent := h.absent_next
  present := h.present_next
  phase := h.phase_next ok ord

/-- **A group presented is the memory's line**, from the offset of its fetch on. -/
theorem presented (h : Inv mem s) (hloud : silentSt s.ctrl.currSt = false) (hh : hit s.ctrl = true) :
    fetchGrp s.ctrl = memLine mem s.ctrl.currFetchPc ∧
      fetchGrpValid s.ctrl = maskFrom (addrOffset s.ctrl.currFetchPc) := by
  have hlook : lookSt s.ctrl.currSt = true := by
    revert hloud
    cases s.ctrl.currSt <;> decide
  have hidle : s.ctrl.currSt ≠ .idle := fun hst => by
    rw [hst] at hloud
    cases hloud
  have hl := h.looked hlook
  refine ⟨?_, ?_⟩
  · rw [fetchGrp, if_neg hidle]
    by_cases hwr : s.ctrl.currSt = .wrL1
    · rw [rdBlock, if_pos (h.phase.wen_iff.2 hwr), h.buf_eq hwr]
    · have hv : s.ctrl.cacheLineBufValid = false := by
        rw [← Bool.not_eq_true, h.phase.wen_iff]
        exact hwr
      rw [h.hit_eq hwr] at hh
      obtain ⟨w, hw, hblock⟩ := h.shows.rdBlock_eq h.unique hl hh s.ctrl.cacheLineBuf
      rw [hv, hblock, h.contents w _ _ hw, memLine_line]
  · funext k
    rw [fetchGrpValid, hloud, rdBlockMask, hl.offset, show arrayHit _ _ = true from hh, Bool.and_true]
    rfl

theorem refills (h : Inv mem s) (ok : Serves mem i s) (ord : InOrder i s) : Refills mem i s where
  leaves := fun hst hleave p hp => by
    have hnext : (s.next i).ctrl.currSt = .wrL1 := by
      show nextSt i s.ctrl = .wrL1
      simp only [nextSt, hst] at hleave ⊢
      split
      · rfl
      · rename_i hne
        rw [if_neg hne] at hleave
        exact absurd rfl hleave
    have hphase := h.phase_next ok ord
    simp only [Phase, hnext] at hphase
    rw [hphase.2.2.got, show (s.next i).ctrl.currFetchPc = _ from currFetchPc_keep (.inr hst)]
    exact List.mem_map.2 ⟨p, List.mem_range.2 hp, rfl⟩
  marks := fun hwen p hp => by
    have hphase := h.phase
    simp only [Phase, h.phase.wen_iff.1 hwen] at hphase
    rw [hphase.2.2.got]
    exact List.mem_map.2 ⟨p, List.mem_range.2 hp, rfl⟩
  written := fun hwen => by
    have hst := h.phase.wen_iff.1 hwen
    exact ⟨by simp [arrayIn, addrCacheArray, hst], h.buf_eq hst⟩
  delivered := fun ⟨k, hk⟩ => by
    have hloud : silentSt s.ctrl.currSt = false := by
      rw [← Bool.not_eq_true]
      intro hsilent
      rw [fetchGrpValid, if_pos hsilent] at hk
      cases hk
    rw [fetchGrpValid, hloud, rdBlockMask] at hk
    exact (h.presented hloud (Bool.and_eq_true_iff.1 hk).2).1

end Inv

/-- **A refill assembles its line** in a run whose answers come in order, the fourth right
after the third. -/
theorem refill_assembles {tagSram : CacheWay → Sram Tag} {dataSram : CacheWay → Sram Block}
    (h : Run.Reach System.next (fun i s => Serves mem i s ∧ InOrder i s) (System.init tagSram dataSram) s)
    (i : Inputs) (ok : Serves mem i s) (ord : InOrder i s) : Refills mem i s :=
  (h.invariant (Inv mem) (Inv.init tagSram dataSram) fun _ _ hi hok => hi.next hok.1 hok.2).refills ok ord

/-! ### One line, answered in order and not -/

/-- After reset, with cleared memories. -/
def cleared : System := System.init (fun _ => ⟨fun _ => 0, 0⟩) (fun _ => ⟨fun _ => 0, 0⟩)

/-- A memory whose doublewords hold their own addresses. -/
def addresses : Mem := fun a => a.setWidth 64

/-- An answer for the line at 0x200. -/
def answerIn (response tag : BitVec 4) (addr : BitVec 32) : Inputs :=
  { imem2procResponse := response, imem2procTag := tag, imem2procData := addresses addr }

/-- A fetch of 0x200 that misses, and its requests, accepted under the tags 1 to 3 so far. -/
def requestIns : List Inputs :=
  [{ fetchPc := 0x200, fetchPcValid := true, fetchGrpReady := true }, {}, {},
    { imem2procResponse := 1 }, { imem2procResponse := 2 }, { imem2procResponse := 3 }]

def inOrderIns : List Inputs :=
  requestIns ++ [answerIn 4 1 0x200, answerIn 0 2 0x208, answerIn 0 3 0x210, answerIn 0 4 0x218]

/-- The line is written, and presented, as the memory has it. -/
theorem refill_assembles_line : Refills addresses {} (inOrderIns.foldl (fun s i => s.next i) cleared) ∧
    (∃ k, fetchGrpValid (inOrderIns.foldl (fun s i => s.next i) cleared).ctrl k = true) :=
  ⟨refill_assembles (.of_keeps inOrderIns .init (by decide +kernel)) {} (by decide +kernel) (by decide +kernel),
    0, by decide +kernel⟩

/-- The answers to the first two requests change places. -/
def outOfOrderIns : List Inputs :=
  requestIns ++ [answerIn 4 2 0x208, answerIn 0 1 0x200, answerIn 0 3 0x210, answerIn 0 4 0x218]

/-- Their doublewords change places in the line that is written. -/
theorem refill_misplaced : ∃ s i, Run.Reach System.next (Serves addresses) cleared s ∧ Serves addresses i s ∧
    ¬ Refills addresses i s := by
  refine ⟨outOfOrderIns.foldl (fun s i => s.next i) cleared, {}, .of_keeps outOfOrderIns .init (by decide +kernel),
    by decide +kernel, fun h => ?_⟩
  have hline := (h.written (by decide +kernel)).2
  exact absurd (congrFun hline 0) (by decide +kernel)

end R10K.Icache
