import R10K.Icache.Array

/-! The controller of the instruction cache (`icache_ctrl.sv`).

It serves one fetch at a time. A miss asks the memory for the four doublewords of the line,
a request a cycle, notes the tag each request is given in the cycle after it, and collects
the answers in a buffer that is then written into the array. -/
namespace R10K.Icache
open Cache

inductive CtrlSt where
  | idle | chkHit | hitL1WaitRdy | rdL2Req | rdL2Ack | wrL1 | fetchAfterMiss | missL1WaitRdy
  | afterWaitRdy
deriving DecidableEq, Repr

structure Inputs where
  imem2procResponse : BitVec 4 := 0
  imem2procData : BitVec 64 := 0
  imem2procTag : BitVec 4 := 0
  fetchPc : BitVec 32 := 0
  fetchPcValid : Bool := false
  fetchGrpReady : Bool := false

/-- The registers. The two counters count instructions, so they go by twos. -/
structure State where
  cacheLineBuf : Block
  cacheLineBufValid : Bool
  proc2imemInstCnt : BitVec 5
  imem2procInstCnt : BitVec 5
  proc2imemCommandPipe : BusCommand
  proc2imemInstCntPipe : BitVec 5
  outstandingTag : Fin 4 → BitVec 4
  currFetchPc : BitVec 32
  currSt : CtrlSt
  array : ArrayState

def reset (tagSram : CacheWay → Sram Tag) (dataSram : CacheWay → Sram Block) : State where
  cacheLineBuf := 0
  cacheLineBufValid := false
  proc2imemInstCnt := 0
  imem2procInstCnt := 0
  proc2imemCommandPipe := .busNone
  proc2imemInstCntPipe := 0
  outstandingTag := fun _ => 0
  currFetchPc := 0
  currSt := .idle
  array := resetArray tagSram dataSram

variable (i : Inputs) (s : State)

/-! ### The fetch and the array -/

def hit : Bool := arrayHit s.array s.cacheLineBufValid

def fetchPcReady : Bool :=
  i.fetchGrpReady && (s.currSt == .idle || s.currSt == .wrL1 || (s.currSt == .chkHit && hit s))

def fetchPcAccept : Bool := i.fetchPcValid && fetchPcReady i s

def addrCacheArray : BitVec 32 :=
  if s.currSt = .idle then if fetchPcAccept i s then i.fetchPc else s.currFetchPc
  else if s.currSt = .chkHit ∧ hit s = true then i.fetchPc
  else s.currFetchPc

/-- The states that present no group. -/
def silentSt : CtrlSt → Bool
  | .idle | .hitL1WaitRdy | .missL1WaitRdy | .fetchAfterMiss => true
  | _ => false

def fetchGrpValid (k : Fin 8) : Bool :=
  if silentSt s.currSt then false else rdBlockMask s.array s.cacheLineBufValid k

def fetchGrp : Block :=
  if s.currSt = .idle then 0 else rdBlock s.array s.cacheLineBufValid s.cacheLineBuf

/-- The ports of `u_icache_array`. -/
def arrayIn : ArrayInputs where
  addr := addrCacheArray i s
  wrBlock := s.cacheLineBuf
  wen := s.cacheLineBufValid

/-! ### The memory -/

def proc2imemCommand : BusCommand := if s.currSt = .rdL2Req then .busLoad else .busNone

def proc2imemAddr : BitVec 32 :=
  if s.currSt = .rdL2Req then lineBase s.currFetchPc + s.proc2imemInstCnt.setWidth 32 * 4 else 0

/-- The first doubleword whose tag the memory answers. -/
def answered : Option (Fin 4) :=
  if i.imem2procTag = 0 then none
  else (List.finRange 4).find? fun k => i.imem2procTag == s.outstandingTag k

/-! ### The clock edge -/

def nextSt : CtrlSt :=
  match s.currSt with
  | .idle => if fetchPcAccept i s then .chkHit else .idle
  | .chkHit =>
    if hit s then
      if i.fetchGrpReady then if fetchPcAccept i s then .chkHit else .idle
      else .hitL1WaitRdy
    else .rdL2Req
  | .hitL1WaitRdy =>
    if i.fetchGrpReady then if i.fetchPcValid then .chkHit else .afterWaitRdy
    else .hitL1WaitRdy
  | .rdL2Req => if s.proc2imemInstCnt = 8 - 2 then .rdL2Ack else .rdL2Req
  | .rdL2Ack => if s.imem2procInstCnt = 8 - 2 then .wrL1 else .rdL2Ack
  | .wrL1 =>
    if i.fetchGrpReady then if i.fetchPcValid then .fetchAfterMiss else .idle
    else .missL1WaitRdy
  | .missL1WaitRdy =>
    if i.fetchGrpReady then if i.fetchPcValid then .fetchAfterMiss else .afterWaitRdy
    else .missL1WaitRdy
  | .fetchAfterMiss => .chkHit
  | .afterWaitRdy => if i.fetchPcValid then .chkHit else .idle

/-- `cache_line_buf[cnt*32+:64] <= data`: the two instructions from `cnt` on. -/
def putDouble (b : Block) (cnt : BitVec 5) (d : BitVec 64) : Block := fun k =>
  if k.val = cnt.toNat then d.extractLsb' 0 32
  else if k.val = cnt.toNat + 1 then d.extractLsb' 32 32
  else b k

/-- The counter of the answers, the buffer and its valid bit. -/
def nextBuf : BitVec 5 × Block × Bool :=
  if s.cacheLineBufValid then (0, 0, false)
  else if s.currSt = .rdL2Ack then
    match answered i s with
    | some k =>
      (s.imem2procInstCnt + 2, putDouble s.cacheLineBuf s.imem2procInstCnt i.imem2procData,
        if k = 3 then true else s.cacheLineBufValid)
    | none => (s.imem2procInstCnt, s.cacheLineBuf, s.cacheLineBufValid)
  else (s.imem2procInstCnt, s.cacheLineBuf, s.cacheLineBufValid)

def next : State where
  cacheLineBuf := (nextBuf i s).2.1
  cacheLineBufValid := (nextBuf i s).2.2
  proc2imemInstCnt := if s.currSt = .rdL2Req then s.proc2imemInstCnt + 2 else 0
  imem2procInstCnt := (nextBuf i s).1
  proc2imemCommandPipe := proc2imemCommand s
  proc2imemInstCntPipe := s.proc2imemInstCnt
  outstandingTag := fun k =>
    if s.proc2imemCommandPipe = .busLoad then
      if k.val = s.proc2imemInstCntPipe.toNat / 2 then i.imem2procResponse else s.outstandingTag k
    else if hit s then 0
    else s.outstandingTag k
  currFetchPc :=
    if fetchPcAccept i s then i.fetchPc
    else if nextSt i s = .idle then 0
    else s.currFetchPc
  currSt := nextSt i s
  array := nextArray (arrayIn i s) s.array

/-! ### The edges of the controller -/

/-- The edges of the controller, with what takes them and whether they accept a fetch. -/
inductive Edge (i : Inputs) (c : State) : CtrlSt → CtrlSt → Bool → Prop where
  | rest : fetchPcAccept i c = false → Edge i c .idle .idle false
  | start : Edge i c .idle .chkHit true
  | miss : hit c = false → Edge i c .chkHit .rdL2Req false
  | serve : hit c = true → i.fetchGrpReady = true → Edge i c .chkHit .chkHit true
  | serveLast : hit c = true → i.fetchGrpReady = true → Edge i c .chkHit .idle false
  | hitStall : hit c = true → i.fetchGrpReady = false → Edge i c .chkHit .hitL1WaitRdy false
  | hitWait : Edge i c .hitL1WaitRdy .hitL1WaitRdy false
  | hitAgain : Edge i c .hitL1WaitRdy .chkHit false
  | hitAfter : Edge i c .hitL1WaitRdy .afterWaitRdy false
  | request : c.proc2imemInstCnt ≠ 8 - 2 → Edge i c .rdL2Req .rdL2Req false
  | requested : c.proc2imemInstCnt = 8 - 2 → Edge i c .rdL2Req .rdL2Ack false
  | await : c.imem2procInstCnt ≠ 8 - 2 → Edge i c .rdL2Ack .rdL2Ack false
  | answered : c.imem2procInstCnt = 8 - 2 → Edge i c .rdL2Ack .wrL1 false
  | missServe : i.fetchGrpReady = true → Edge i c .wrL1 .fetchAfterMiss true
  | missServeLast : i.fetchGrpReady = true → Edge i c .wrL1 .idle false
  | missStall : i.fetchGrpReady = false → Edge i c .wrL1 .missL1WaitRdy false
  | missWait : Edge i c .missL1WaitRdy .missL1WaitRdy false
  | missAgain : Edge i c .missL1WaitRdy .fetchAfterMiss false
  | missAfter : Edge i c .missL1WaitRdy .afterWaitRdy false
  | present : Edge i c .fetchAfterMiss .chkHit false
  | again : i.fetchPcValid = true → Edge i c .afterWaitRdy .chkHit false
  | leave : i.fetchPcValid = false → Edge i c .afterWaitRdy .idle false

/-- A fetch is accepted in three states only. -/
theorem fetchPcAccept_off {i : Inputs} {c : State} (hidle : c.currSt ≠ .idle) (hwr : c.currSt ≠ .wrL1)
    (hchk : c.currSt = .chkHit → hit c = false) : fetchPcAccept i c = false := by
  cases hst : c.currSt <;> simp_all [fetchPcAccept, fetchPcReady]

/-- **What one clock edge does to the controller's state.** -/
theorem edge (i : Inputs) (c : State) : Edge i c c.currSt (nextSt i c) (fetchPcAccept i c) := by
  cases hst : c.currSt
  case idle =>
    cases h : fetchPcAccept i c
    · simpa [nextSt, hst, h] using Edge.rest h
    · simpa [nextSt, hst, h] using Edge.start
  case chkHit =>
    cases hh : hit c
    · rw [fetchPcAccept_off (by simp [hst]) (by simp [hst]) fun _ => hh]
      simpa [nextSt, hst, hh] using Edge.miss hh
    · cases hr : i.fetchGrpReady
      · simpa [nextSt, fetchPcAccept, fetchPcReady, hst, hh, hr] using Edge.hitStall hh hr
      · cases hv : i.fetchPcValid
        · simpa [nextSt, fetchPcAccept, fetchPcReady, hst, hh, hr, hv] using Edge.serveLast hh hr
        · simpa [nextSt, fetchPcAccept, fetchPcReady, hst, hh, hr, hv] using Edge.serve hh hr
  case wrL1 =>
    cases hr : i.fetchGrpReady
    · simpa [nextSt, fetchPcAccept, fetchPcReady, hst, hr] using Edge.missStall hr
    · cases hv : i.fetchPcValid
      · simpa [nextSt, fetchPcAccept, fetchPcReady, hst, hr, hv] using Edge.missServeLast hr
      · simpa [nextSt, fetchPcAccept, fetchPcReady, hst, hr, hv] using Edge.missServe hr
  all_goals rw [fetchPcAccept_off (by simp [hst]) (by simp [hst]) (by simp [hst])]
  case hitL1WaitRdy =>
    cases hr : i.fetchGrpReady
    · simpa [nextSt, hst, hr] using Edge.hitWait
    · cases hv : i.fetchPcValid
      · simpa [nextSt, hst, hr, hv] using Edge.hitAfter
      · simpa [nextSt, hst, hr, hv] using Edge.hitAgain
  case rdL2Req =>
    rw [nextSt, hst]
    dsimp only
    split
    · exact .requested (by assumption)
    · exact .request (by assumption)
  case rdL2Ack =>
    rw [nextSt, hst]
    dsimp only
    split
    · exact .answered (by assumption)
    · exact .await (by assumption)
  case fetchAfterMiss => simpa [nextSt, hst] using Edge.present
  case missL1WaitRdy =>
    cases hr : i.fetchGrpReady
    · simpa [nextSt, hst, hr] using Edge.missWait
    · cases hv : i.fetchPcValid
      · simpa [nextSt, hst, hr, hv] using Edge.missAfter
      · simpa [nextSt, hst, hr, hv] using Edge.missAgain
  case afterWaitRdy =>
    cases hv : i.fetchPcValid
    · simpa [nextSt, hst, hv] using Edge.leave hv
    · simpa [nextSt, hst, hv] using Edge.again hv

/-! ### Where an edge to a state comes from -/

section
variable {i : Inputs} {c : State}

theorem nextSt_chkHit (h : nextSt i c = .chkHit) : c.currSt ≠ .rdL2Ack ∧ c.currSt ≠ .wrL1 := by
  have he := edge i c
  rw [h] at he
  generalize c.currSt = st, fetchPcAccept i c = acc at he
  cases he <;> exact ⟨nofun, nofun⟩

theorem nextSt_rdL2Req (h : nextSt i c = .rdL2Req) :
    (c.currSt = .chkHit ∧ hit c = false) ∨ c.currSt = .rdL2Req := by
  have he := edge i c
  rw [h] at he
  generalize hst : c.currSt = st, fetchPcAccept i c = acc at he
  cases he with
  | miss hh => exact .inl ⟨rfl, hh⟩
  | request => exact .inr rfl

theorem nextSt_rdL2Ack (h : nextSt i c = .rdL2Ack) : c.currSt = .rdL2Req ∨ c.currSt = .rdL2Ack := by
  have he := edge i c
  rw [h] at he
  generalize c.currSt = st, fetchPcAccept i c = acc at he
  cases he with
  | requested => exact .inl rfl
  | await => exact .inr rfl

theorem nextSt_wrL1 (h : nextSt i c = .wrL1) : c.currSt = .rdL2Ack := by
  have he := edge i c
  rw [h] at he
  generalize c.currSt = st, fetchPcAccept i c = acc at he
  cases he with
  | answered => rfl

end

end R10K.Icache
