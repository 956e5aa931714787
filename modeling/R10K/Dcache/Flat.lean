import R10K.Dcache.Dirty
import R10K.Dcache.Paths
import R10K.Dcache.Wired
import R10K.Lib.WriteBack

/-! When the data cache is a flat memory.

The cache shows a memory of bytes: a line it holds as it holds it, any other as the memory
does. A run that keeps clear of what breaks the lookups and the dirty marks shows the bytes
of the memory under the stores that were performed, in order, and performs each store it
accepts once. -/
namespace R10K.Dcache
open Cache Assoc Lsq
variable {mem : Icache.Mem} {i : Inputs} {s : State} {l : Log} {flat : Lsq.Mem}

/-! ### The stores of a run -/

/-- A store, as it is asked for. -/
structure StoreReq where
  addr : BitVec 32
  data : BitVec 32
  size : BitVec 3
deriving DecidableEq

/-- The bytes a store writes. -/
def StoreReq.write (q : StoreReq) : BitVec 32 → Option (BitVec 8) := writeBytes q.addr q.data q.size

/-- The store that is accepted in this cycle. -/
def acceptedStore (i : Inputs) (s : State) : List StoreReq :=
  if reqAccept i s = true ∧ i.reqCommand = .busStore then [⟨i.reqAddr, i.reqStData, i.reqSize⟩] else []

/-- The store that is registered. -/
def currStore (s : State) : List StoreReq :=
  if s.currReqCommand = .busStore then [⟨s.currReqAddr, s.currReqStData, s.currReqSize⟩] else []

/-- The store that is performed in this cycle. -/
def performedStore (s : State) : List StoreReq := if stEn s = true then currStore s else []

/-- The store in service. -/
def servingStore (s : State) : List StoreReq := if s.currSt = .idle then [] else currStore s

theorem servingStore_idle (hidle : nextSt i s = .idle) : servingStore (next i s) = [] := if_pos hidle

theorem servingStore_accept (hacc : reqAccept i s = true) (hidle : nextSt i s ≠ .idle) :
    servingStore (next i s) = acceptedStore i s := by
  rw [servingStore, if_neg (show (next i s).currSt ≠ .idle from hidle)]
  simp only [currStore, acceptedStore, next, hacc, if_true, true_and]

theorem servingStore_keep (hacc : reqAccept i s = false) (hidle : nextSt i s ≠ .idle) :
    servingStore (next i s) = currStore s := by
  rw [servingStore, if_neg (show (next i s).currSt ≠ .idle from hidle)]
  simp only [currStore, next, hacc, hidle, Bool.false_eq_true, if_false]

theorem acceptedStore_none (hacc : reqAccept i s = false) : acceptedStore i s = [] := by
  rw [acceptedStore, if_neg (by rw [hacc]; exact fun h => absurd h.1 (by decide))]

/-- A cycle that serves its request to the end. -/
theorem conserve_done (hst : s.currSt ≠ .idle) (hen : stEn s = decide (s.currReqCommand = .busStore))
    (hnext : nextSt i s = .idle ↔ reqAccept i s = false) :
    servingStore s ++ acceptedStore i s = performedStore s ++ servingStore (next i s) := by
  have hperf : performedStore s = servingStore s := by
    rw [performedStore, servingStore, if_neg hst, hen, currStore]
    by_cases hcmd : s.currReqCommand = .busStore <;> simp [hcmd]
  rw [hperf, List.append_cancel_left_eq]
  cases hacc : reqAccept i s with
  | false => rw [acceptedStore_none hacc, servingStore_idle (hnext.2 hacc)]
  | true =>
    refine (servingStore_accept hacc fun hidle => ?_).symm
    rw [hnext.1 hidle] at hacc
    cases hacc

/-- A cycle in the middle of a request. -/
theorem conserve_wait (hst : s.currSt ≠ .idle) (hen : stEn s = false) (hacc : reqAccept i s = false)
    (hnext : nextSt i s ≠ .idle) :
    servingStore s ++ acceptedStore i s = performedStore s ++ servingStore (next i s) := by
  rw [acceptedStore_none hacc, servingStore_keep hacc hnext, servingStore, if_neg hst, performedStore, hen]
  exact List.append_nil _

/-- **A cycle performs the store it is done with**, and takes the one it accepts into service. -/
theorem conserve (i : Inputs) (s : State) :
    servingStore s ++ acceptedStore i s = performedStore s ++ servingStore (next i s) := by
  cases hst : s.currSt
  case idle =>
    have hen : performedStore s = [] := by simp [performedStore, stEn, hst]
    rw [servingStore, if_pos hst, hen]
    cases hacc : reqAccept i s with
    | false =>
      rw [acceptedStore_none hacc, servingStore_idle]
      simp [nextSt, hst, hacc]
    | true =>
      rw [servingStore_accept hacc]
      simp [nextSt, hst, hacc]
  case chkHit =>
    cases hh : hit s.array with
    | true =>
      refine conserve_done (by rw [hst]; decide) (by rw [stEn, hst, hh]; cases s.currReqCommand <;> rfl) ?_
      cases hacc : reqAccept i s <;> simp [nextSt, hst, hh, hacc]
    | false =>
      refine conserve_wait (by rw [hst]; decide) (by simp [stEn, hst, hh]) (by simp [reqAccept, reqReady, hst, hh]) ?_
      cases hd : dirty (arrayIn s) s.array <;> simp [nextSt, hst, hh, hd]
  case wrL1 =>
    refine conserve_done (by rw [hst]; decide) (by rw [stEn, hst]; cases s.currReqCommand <;> simp) ?_
    cases hv : i.reqValid <;> simp [nextSt, reqAccept, reqReady, hst, hv]
  all_goals
    refine conserve_wait (by rw [hst]; decide) (by simp [stEn, hst]) (by simp [reqAccept, reqReady, hst]) ?_
    simp only [nextSt, hst]
    first | decide | (split <;> decide)

/-! ### The memory the cache shows -/

/-- The lines of a memory of doublewords. -/
def memLines (mem : Icache.Mem) (x : Index) (t : Tag) : Block := memLine mem (byteAddr t x 0)

/-- The lines of a memory of bytes. -/
def flatLines (flat : Lsq.Mem) (x : Index) (t : Tag) : Block := fun k => flat (byteAddr t x k)

/-- The bytes of a memory of doublewords. -/
def bytes (mem : Icache.Mem) : Lsq.Mem := fun a => memLine mem a (addrOffset a)

/-- A memory of bytes after stores, oldest first. -/
def after (flat : Lsq.Mem) (qs : List StoreReq) : Lsq.Mem := Memory.applyAll flat (qs.map StoreReq.write)

theorem memLine_congr {a b : BitVec 32} (h : lineOf a = lineOf b) : memLine mem a = memLine mem b := by
  have hbase : lineBase a = lineBase b := by
    rw [← lineBase_line a, ← lineBase_line b, show addrTag a = addrTag b from congrArg Prod.snd h,
      show addrIndex a = addrIndex b from congrArg Prod.fst h]
  funext k
  rw [memLine, memLine, Icache.doubleAddr, Icache.doubleAddr, hbase]

theorem lineOf_byteAddr (t : Tag) (x : Index) (k : Offset) : lineOf (byteAddr t x k) = (x, t) ∧
    addrOffset (byteAddr t x k) = k := by
  have hb := byteAddr_toNat t x k
  have ha := addr_toNat (byteAddr t x k)
  have h1 := x.isLt
  have h2 := k.isLt
  have h3 := (addrIndex (byteAddr t x k)).isLt
  have h4 := (addrOffset (byteAddr t x k)).isLt
  refine ⟨Prod.ext ?_ ?_, ?_⟩ <;> apply BitVec.eq_of_toNat_eq
  · show (addrIndex _).toNat = x.toNat
    omega
  · show (addrTag _).toNat = t.toNat
    omega
  · omega

theorem memLine_lines (addr : BitVec 32) : memLines mem (addrIndex addr) (addrTag addr) = memLine mem addr :=
  memLine_congr (lineOf_byteAddr ..).1

theorem flatLines_bytes : flatLines (bytes mem) = memLines mem := by
  funext x t k
  obtain ⟨hline, hoff⟩ := lineOf_byteAddr t x k
  rw [flatLines, bytes, hoff, memLines, memLine_congr (hline.trans (lineOf_byteAddr t x 0).1.symm)]

/-- **An aligned store changes its own line, by merging.** -/
theorem flatLines_store {q : StoreReq} (h : Access q.addr q.size) (x : Index) (t : Tag) :
    flatLines (Memory.apply flat q.write) x t = if x = addrIndex q.addr ∧ t = addrTag q.addr then
      merge (flatLines flat (addrIndex q.addr) (addrTag q.addr)) q.size (addrOffset q.addr) q.data
    else flatLines flat x t := by
  funext k
  split
  · rename_i heq
    rw [heq.1, heq.2, merge_eq h]
    rfl
  · rename_i hne
    have hnone : writeBytes q.addr q.data q.size (byteAddr t x k) = none := by
      rw [writeBytes, if_neg]
      intro hlt
      refine hne ?_
      -- a byte of the access lies in the line of the access
      have hbyte := h.byte hlt
      rw [BitVec.ofNat_toNat, BitVec.setWidth_eq, BitVec.add_comm, BitVec.sub_add_cancel] at hbyte
      have hfit := h.fits
      have ha := addr_toNat q.addr
      have hb := byteAddr_toNat t x k
      have h1 := (addrIndex q.addr).isLt
      have h2 := (addrOffset q.addr).isLt
      have h3 := x.isLt
      have h4 := k.isLt
      constructor <;> apply BitVec.eq_of_toNat_eq <;> omega
    show (writeBytes q.addr q.data q.size (byteAddr t x k)).getD _ = _
    rw [hnone, Option.getD_none]
    rfl

/-! ### One edge -/

namespace Log

/-- What the cache of a log shows of the memory. -/
abbrev Shows (mem : Icache.Mem) (flat : Lsq.Mem) (l : Log) : Prop :=
  Shown (lines l.ctrl.array) l.modified (memLines mem) (flatLines flat)

/-- A cycle that writes one place with the line of the request. -/
theorem Shows.write (h : l.Shows mem flat) (hu : (lines l.ctrl.array).Unique) {w : CacheWay}
    (hw : ∀ v, wenN (arrayIn l.ctrl) l.ctrl.array v = decide (v = w))
    (hplace : (lines l.ctrl.array).Holds w (addrIndex l.ctrl.currReqAddr) (addrTag l.ctrl.currReqAddr) ∨
      (¬ Held l.ctrl.array (lineOf l.ctrl.currReqAddr) ∧
        ((lines l.ctrl.array).valid w (addrIndex l.ctrl.currReqAddr) = true →
          l.modified w (addrIndex l.ctrl.currReqAddr) = false)))
    (hacc : ∀ q ∈ performedStore l.ctrl, Access q.addr q.size)
    (hblock : wrBlock (arrayIn l.ctrl) l.ctrl.array = if stEn l.ctrl = true then
      merge (flatLines flat (addrIndex l.ctrl.currReqAddr) (addrTag l.ctrl.currReqAddr)) l.ctrl.currReqSize
        (addrOffset l.ctrl.currReqAddr) l.ctrl.currReqStData
    else memLine mem l.ctrl.currReqAddr)
    (hcmd : stEn l.ctrl = true → l.ctrl.currReqCommand = .busStore)
    (hsame : stEn l.ctrl = false → flatLines flat (addrIndex l.ctrl.currReqAddr) (addrTag l.ctrl.currReqAddr) =
      memLine mem l.ctrl.currReqAddr) :
    (Log.next i l).Shows mem (after flat (performedStore l.ctrl)) := by
  have hfill : lines (Log.next i l).ctrl.array = (lines l.ctrl.array).fill w (addrIndex l.ctrl.currReqAddr)
      (addrTag l.ctrl.currReqAddr) (wrBlock (arrayIn l.ctrl) l.ctrl.array) := lines_next_fill (i := arrayIn l.ctrl) hw
  have hmarked : ∀ v r, ¬ (v = w ∧ r = addrIndex l.ctrl.currReqAddr) →
      (Log.next i l).modified v r = l.modified v r := fun v r hne => by
    rw [Inv.modified_next, hw]
    by_cases hv : v = w
    · rw [if_pos (decide_eq_true hv), if_neg fun hr => hne ⟨hv, hr⟩]
    · rw [if_neg (by rw [decide_eq_false hv]; decide)]
  have hclean : (Log.next i l).modified w (addrIndex l.ctrl.currReqAddr) = false →
      wrBlock (arrayIn l.ctrl) l.ctrl.array = memLines mem (addrIndex l.ctrl.currReqAddr) (addrTag l.ctrl.currReqAddr) :=
    fun hm => by
      rw [Inv.modified_next, hw, if_pos (decide_eq_true rfl), if_pos rfl] at hm
      rw [hblock, if_neg (by rw [hm]; decide), memLine_lines]
  have hshown := h.fill hu hplace hmarked hclean
  suffices hflat : flatLines (after flat (performedStore l.ctrl)) = fun r u =>
      if r = addrIndex l.ctrl.currReqAddr ∧ u = addrTag l.ctrl.currReqAddr then
        wrBlock (arrayIn l.ctrl) l.ctrl.array
      else flatLines flat r u by
    rw [Log.Shows, hfill, hflat]
    exact hshown
  funext x t
  cases hen : stEn l.ctrl with
  | false =>
    have hnone : performedStore l.ctrl = [] := by rw [performedStore, hen]; rfl
    rw [hnone, hblock, hen, if_neg Bool.false_ne_true]
    show flatLines flat x t = _
    split
    · rename_i heq
      rw [heq.1, heq.2]
      exact hsame hen
    · rfl
  | true =>
    have hone : performedStore l.ctrl =
        [⟨l.ctrl.currReqAddr, l.ctrl.currReqStData, l.ctrl.currReqSize⟩] := by
      rw [performedStore, hen, if_pos rfl, currStore, if_pos (hcmd hen)]
    rw [hone] at hacc ⊢
    rw [hblock, hen, if_pos rfl]
    exact flatLines_store (hacc _ (List.mem_singleton_self _)) x t

/-- `WR_L1` writes the line fetched over a line that is clean. -/
theorem Shows.refill (h : l.Shows mem flat) (hi : Dcache.Inv l.ctrl) (hl : Log.Inv l) (ok : Careful l.ctrl)
    (hacc : ∀ q ∈ performedStore l.ctrl, Access q.addr q.size) (hst : l.ctrl.currSt = .wrL1)
    (hline : refillLine l.ctrl = memLine mem l.ctrl.currReqAddr) :
    (Log.next i l).Shows mem (after flat (performedStore l.ctrl)) := by
  have hre : refillEn l.ctrl = true := refillEn_iff.2 hst
  have hmiss : missSt l.ctrl.currSt = true := by rw [hst]; rfl
  have habsent := hi.absent hmiss
  have hhit : hit l.ctrl.array = false := by
    rw [← Bool.not_eq_true, hi.hit_iff, hi.looked hmiss]
    exact habsent
  have hw := wenN_miss (i := arrayIn l.ctrl) (by rw [show (arrayIn l.ctrl).refillEn = true from hre, Bool.or_true]) hhit
  have haway : flatLines flat (addrIndex l.ctrl.currReqAddr) (addrTag l.ctrl.currReqAddr) =
      memLine mem l.ctrl.currReqAddr := (h.away _ _ habsent).trans (memLine_lines _)
  refine h.write hi.unique hw (.inr ⟨habsent, fun _ => hl.replaces_clean ok ?_⟩) hacc ?_ (fun hen => ?_) fun _ => haway
  · rw [replaces, hw, hre, decide_eq_true rfl]
    rfl
  · rw [wrBlock, if_pos (show (arrayIn l.ctrl).refillEn = true from hre), haway, ← hline]
    rfl
  · rw [stEn, hst] at hen
    simpa using hen

/-- A store that hits is merged into the line it was looked up in. -/
theorem Shows.store (h : l.Shows mem flat) (hi : Dcache.Inv l.ctrl)
    (hacc : ∀ q ∈ performedStore l.ctrl, Access q.addr q.size) (hst : l.ctrl.currSt ≠ .wrL1)
    (hen : stEn l.ctrl = true) : (Log.next i l).Shows mem (after flat (performedStore l.ctrl)) := by
  obtain ⟨hchk, hhit, hcmd⟩ := (stEn_iff hst).1 hen
  have hpipe := hi.store hchk hcmd (hi.hit_iff.1 hhit)
  obtain ⟨w, hheld⟩ := hi.hit_iff.1 hhit
  have hwN := hi.shows.hitN_iff.2 hheld
  have hw := hi.shows.wenN_hit (i := arrayIn l.ctrl) hi.unique
    (by rw [show (arrayIn l.ctrl).stEn = true from hen, Bool.true_or]) hwN
  have hre : refillEn l.ctrl = false := by
    rw [← Bool.not_eq_true, refillEn_iff]
    exact hst
  have hread := hi.shows.rdBlock_eq hi.unique hwN
  rw [hpipe] at hheld hread
  refine h.write hi.unique hw (.inl hheld) hacc ?_ (fun _ => hcmd) (fun hno => ?_)
  · rw [wrBlock, if_neg (by rw [show (arrayIn l.ctrl).refillEn = false from hre]; decide), if_pos hen, hread,
      h.held _ _ _ hheld]
    rfl
  · rw [hen] at hno
    cases hno

/-- **An edge shows the stores it performs.** -/
theorem Shows.next (h : l.Shows mem flat) (hi : Dcache.Inv l.ctrl) (hl : Log.Inv l) (ok : Careful l.ctrl)
    (hacc : ∀ q ∈ performedStore l.ctrl, Access q.addr q.size)
    (hline : refillEn l.ctrl = true → refillLine l.ctrl = memLine mem l.ctrl.currReqAddr) :
    (Log.next i l).Shows mem (after flat (performedStore l.ctrl)) := by
  by_cases hst : l.ctrl.currSt = .wrL1
  · exact h.refill hi hl ok hacc hst (hline (refillEn_iff.2 hst))
  · cases hen : stEn l.ctrl with
    | true => exact h.store hi hacc hst hen
    | false =>
      have hre : refillEn l.ctrl = false := by
        rw [← Bool.not_eq_true, refillEn_iff]
        exact hst
      have hsame : (Log.next i l).modified = l.modified := by
        funext w x
        rw [Inv.modified_next, wenN_quiet hen hre w]
        rfl
      have hlines : lines (Log.next i l).ctrl.array = lines l.ctrl.array := lines_next_quiet hen hre
      have hnone : performedStore l.ctrl = [] := by rw [performedStore, hen]; rfl
      rw [Log.Shows, hlines, hsame, hnone]
      exact h

/-- **A hit reads the memory the cache shows.** -/
theorem Shows.reads (h : l.Shows mem flat) (hi : Dcache.Inv l.ctrl) {addr : BitVec 32} {size : BitVec 3}
    (hhit : hit l.ctrl.array = true) (hline : pipeLine l.ctrl.array = lineOf addr)
    (hoff : l.ctrl.array.addrOffsetPipe = addrOffset addr) (hsize : l.ctrl.array.sizePipe = size)
    (hacc : Access addr size) : rdData l.ctrl.array = some (readBytes flat addr size) := by
  obtain ⟨w, hheld⟩ := hi.hit_iff.1 hhit
  have hread := hi.shows.rdBlock_eq hi.unique (hi.shows.hitN_iff.2 hheld)
  rw [hline] at hheld hread
  rw [rdData_eq hacc ⟨rfl, hoff, hsize⟩, hread, h.held _ _ _ hheld]
  congr 1
  refine readBytes_congr fun b hb => ?_
  rw [lineMem, flatLines]
  exact congrArg flat (byteAddr_byte hacc hb)

end Log

/-! ### Runs -/

/-- What keeps a run clear of the lookups and dirty marks that go wrong. -/
structure Permits (i : WiredInputs) (w : Wired) : Prop where
  range : InRange i
  aims : Aims (ctrlIn i w) w.ctrl
  careful : Careful w.ctrl
  access : i.reqCommand = .busStore → Access i.reqAddr i.reqSize

instance (i : WiredInputs) (w : Wired) : Decidable (Permits i w) :=
  @decidable_of_iff _ ((i.reqValid = true → i.reqAddr.toNat < 64 * 1024) ∧ Aims (ctrlIn i w) w.ctrl ∧ Careful w.ctrl ∧
      (i.reqCommand = .busStore → Access i.reqAddr i.reqSize))
    ⟨fun h => ⟨h.1, h.2.1, h.2.2.1, h.2.2.2⟩, fun h => ⟨h.range, h.aims, h.careful, h.access⟩⟩ inferInstance

/-- The wired cache with the stores it accepted and those it performed. -/
structure FlatLog where
  wired : Wired
  accepted : List StoreReq
  performed : List StoreReq

/-- One edge, with what is accepted and performed in its cycle. -/
def FlatLog.next (latency : BitVec 16) (i : WiredInputs) (v : FlatLog) : FlatLog where
  wired := v.wired.next latency i
  accepted := v.accepted ++ acceptedStore (ctrlIn i v.wired) v.wired.ctrl
  performed := v.performed ++ performedStore v.wired.ctrl

/-- The address the array was presented one cycle ago. -/
def presented (c : State) : BitVec 32 :=
  byteAddr c.array.addrTagPipe c.array.addrIndexPipe c.array.addrOffsetPipe

/-- A run that is permitted, with the records that fit it. -/
structure Tracked (latency : BitVec 16) (mem : Icache.Mem) (v : FlatLog) (s : System) (l : Log) : Prop where
  fits : Fits latency mem v.wired s
  ctrl : l.ctrl = v.wired.ctrl
  inv : Dcache.Inv v.wired.ctrl
  marks : Log.Inv l
  stores : v.accepted = v.performed ++ servingStore v.wired.ctrl
  access : ∀ q ∈ v.accepted, Access q.addr q.size
  shows : l.Shows mem (after (bytes mem) v.performed)

namespace Tracked
variable {latency : BitVec 16} {v : FlatLog} {s : System} {w : WiredInputs}

theorem init (tagSram : CacheWay → Sram Tag) (dataSram : CacheWay → Sram Block) (memory : Mem.Line → BitVec 64)
    (loaded : Mem.MemTag → BitVec 64) : Tracked latency (Mem.words (Mem.init memory loaded))
      ⟨.init tagSram dataSram memory loaded, [], []⟩ (System.init tagSram dataSram) (Log.init tagSram dataSram) where
  fits := .init tagSram dataSram memory loaded
  ctrl := rfl
  inv := .reset tagSram dataSram
  marks := .init tagSram dataSram
  stores := rfl
  access := nofun
  shows := by
    show Shown _ _ _ (flatLines (bytes _))
    rw [flatLines_bytes]
    exact .empty fun _ _ => rfl

/-- A store that is performed was accepted. -/
theorem performed_access (h : Tracked latency mem v s l) :
    ∀ q ∈ performedStore v.wired.ctrl, Access q.addr q.size := by
  intro q hq
  refine h.access q ?_
  rw [h.stores, List.mem_append]
  refine .inr ?_
  rw [performedStore] at hq
  split at hq
  · rename_i hen
    rw [servingStore, if_neg]
    · exact hq
    · intro hidle
      rw [stEn, hidle] at hen
      simp at hen
  · cases hq

theorem next (h : Tracked latency mem v s l) (hlat : Mem.Suits latency) (ok : Permits w v.wired) :
    Tracked latency mem (v.next latency w) (s.next (ctrlIn w v.wired)) (Log.next (ctrlIn w v.wired) l) where
  fits := h.fits.next hlat ok.range
  ctrl := congrArg (Dcache.next (ctrlIn w v.wired)) h.ctrl
  inv := h.inv.next ok.aims
  marks := h.marks.next (by rw [h.ctrl]; exact ok.careful)
  stores := by
    show v.accepted ++ _ = (v.performed ++ _) ++ _
    rw [h.stores, List.append_assoc, List.append_assoc]
    exact congrArg _ (conserve ..)
  access := by
    intro q hq
    rcases List.mem_append.1 hq with hold | hnew
    · exact h.access q hold
    · rw [acceptedStore] at hnew
      split at hnew
      · rename_i hacc
        rw [List.mem_singleton.1 hnew]
        exact ok.access hacc.2
      · cases hnew
  shows := by
    have hctrl : s.ctrl = l.ctrl := h.fits.ctrl.trans h.ctrl.symm
    have hacc := h.performed_access
    have hinv := h.inv
    have hcareful := ok.careful
    rw [← h.ctrl] at hacc hinv hcareful
    have hline : refillEn l.ctrl = true → refillLine l.ctrl = memLine mem l.ctrl.currReqAddr := fun hre => by
      rw [← hctrl] at hre ⊢
      exact h.fits.phase.written (refillEn_iff.1 hre)
    have hnext := h.shows.next (i := ctrlIn w v.wired) hinv h.marks hcareful hacc hline
    rw [h.ctrl] at hnext
    rw [FlatLog.next, after, List.map_append, Memory.applyAll_append]
    exact hnext

/-- What the array reads is the memory under the stores performed. -/
theorem reads (h : Tracked latency mem v s l) (hvalid : rspValid v.wired.ctrl = true)
    (hacc : Access (presented v.wired.ctrl) v.wired.ctrl.array.sizePipe) : rdData v.wired.ctrl.array =
      some (readBytes (after (bytes mem) v.performed) (presented v.wired.ctrl) v.wired.ctrl.array.sizePipe) := by
  have hinv := h.inv
  rw [← h.ctrl] at hvalid hacc hinv ⊢
  obtain ⟨hline, hoff⟩ := lineOf_byteAddr l.ctrl.array.addrTagPipe l.ctrl.array.addrIndexPipe
    l.ctrl.array.addrOffsetPipe
  exact h.shows.reads hinv hvalid hline.symm hoff.symm rfl hacc

end Tracked

/-- The low byte of what is read, whatever its size, is the byte at the address. -/
theorem readBytes_low (m : Lsq.Mem) (a : BitVec 32) (z : BitVec 3) : (readBytes m a z).setWidth 8 = m a := by
  apply BitVec.eq_of_getLsbD_eq
  intro k hk
  have h16 : k < 16 := by omega
  have h32 : k < 32 := by omega
  have happ : ∀ {w : Nat} (y : BitVec w), (y ++ m a).getLsbD k = (m a).getLsbD k := fun y => by
    rw [BitVec.getLsbD_append, if_pos hk]
  rw [BitVec.getLsbD_setWidth, decide_eq_true hk, Bool.true_and, readBytes]
  split
  · split
    · rw [BitVec.getLsbD_setWidth, decide_eq_true h32, Bool.true_and]
    · rw [BitVec.getLsbD_signExtend, decide_eq_true h32, if_pos hk, Bool.true_and]
  · split
    · rw [BitVec.getLsbD_setWidth, decide_eq_true h32, Bool.true_and, happ]
    · rw [BitVec.getLsbD_signExtend, decide_eq_true h32, if_pos h16, Bool.true_and, happ]
  · exact happ _
  · exact happ _

/-- **The data cache wired to the memory is a flat memory** in a permitted run: with a valid
response the array reads, at the address presented, what the memory would hold after the
stores performed, and the response port, a byte wide, shows the byte at this address; the
stores performed are those accepted, in order, less the one in service. -/
theorem flat_memory {latency : BitVec 16} (hlat : Mem.Suits latency) {tagSram : CacheWay → Sram Tag}
    {dataSram : CacheWay → Sram Block} {memory : Mem.Line → BitVec 64} {loaded : Mem.MemTag → BitVec 64}
    {v : FlatLog} (h : Run.Reach (FlatLog.next latency) (fun i v => Permits i v.wired)
      ⟨.init tagSram dataSram memory loaded, [], []⟩ v) :
    v.accepted = v.performed ++ servingStore v.wired.ctrl ∧
      (rspValid v.wired.ctrl = true → Access (presented v.wired.ctrl) v.wired.ctrl.array.sizePipe →
        rdData v.wired.ctrl.array = some (readBytes
          (after (bytes (Mem.words (Mem.init memory loaded))) v.performed)
          (presented v.wired.ctrl) v.wired.ctrl.array.sizePipe) ∧
        rspData v.wired.ctrl = some (after (bytes (Mem.words (Mem.init memory loaded))) v.performed
          (presented v.wired.ctrl))) := by
  have hinv := h.invariant (fun v => ∃ s l, Tracked latency (Mem.words (Mem.init memory loaded)) v s l)
    ⟨_, _, .init tagSram dataSram memory loaded⟩ fun _ _ ⟨_, _, ht⟩ ok => ⟨_, _, ht.next hlat ok⟩
  obtain ⟨s, l, ht⟩ := hinv
  refine ⟨ht.stores, fun hvalid hacc => ?_⟩
  have hread := ht.reads hvalid hacc
  refine ⟨hread, ?_⟩
  rw [rspData, hread, Option.map_some, readBytes_low]

/-! ### A store that misses, and a load of it -/

/-- After reset, with cleared memories. -/
def flatStart : FlatLog :=
  ⟨.init (fun _ => ⟨fun _ => 0, 0⟩) (fun _ => ⟨fun _ => 0, 0⟩) (fun _ => 0) fun _ => 0, [], []⟩

/-- A store of a word, performed with its refill, and a load of the word, taken in `WR_L1`. -/
def flatIns : List WiredInputs :=
  { reqAddr := 0x204, reqSize := 2, reqStData := 0x12345678, reqCommand := .busStore, reqValid := true } ::
    (List.replicate 14 ({} : WiredInputs) ++
      [{ reqAddr := 0x204, reqSize := 2, reqCommand := .busLoad, reqValid := true }, ({} : WiredInputs)])

def flatRun : FlatLog := flatIns.foldl (fun v i => v.next 7 i) flatStart

theorem flat_memory_word : rdData flatRun.wired.ctrl.array = some 0x12345678 ∧
    rspData flatRun.wired.ctrl = some 0x78 := by
  have hreach : Run.Reach (FlatLog.next 7) (fun i v => Permits i v.wired) flatStart flatRun :=
    .of_keeps flatIns .init (by decide +kernel)
  obtain ⟨hread, hport⟩ := (flat_memory Mem.suits_seven hreach).2 (by decide +kernel) (by decide +kernel)
  rw [hread, hport, show flatRun.performed = [⟨0x204, 0x12345678, 2⟩] by decide +kernel,
    show presented flatRun.wired.ctrl = 0x204 by decide +kernel,
    show flatRun.wired.ctrl.array.sizePipe = 2 by decide +kernel]
  exact ⟨by decide +kernel, by decide +kernel⟩

end R10K.Dcache
