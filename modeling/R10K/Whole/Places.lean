import R10K.Whole.Decoded
import R10K.Whole.Stages

/-! Where the instructions of the buffer are.

Past the last stage an instruction is in its unit's lane of the execute register, and a
load goes on to its entry of the load queue, where it waits for its datum. From the last
place it is broadcast. An instruction is known everywhere by its tag, its register and its
slot of a queue. -/
namespace R10K.Whole
open Backend Lanes

/-- What can be seen of an instruction everywhere on its way. -/
structure Token where
  robEntry : RobTag
  destPrn : Prn
  load : Option LdqTag
  store : Option StqTag
deriving DecidableEq

def Work.token (x : Work) : Token :=
  ⟨x.robEntry, x.destPrn, memTag x.rdMem x.ldqTag, memTag x.wrMem x.stqTag⟩

/-- The token of a record of the buffer. -/
def recordToken (r : Rob.Record) : Token :=
  ⟨r.tag, r.pkt.destPrn, memTag r.pkt.rdMem r.pkt.ldqTag, memTag r.pkt.wrMem r.pkt.stqTag⟩

def executeToken (p : ExecutePacket) : Token :=
  ⟨p.robEntry, p.destPrn, memTag p.rdMem p.ldqTag, memTag p.wrMem p.stqTag⟩

inductive Place where
  | stage (s : Stage)
  | execute (w : Way)
  | load (t : LdqTag)
deriving DecidableEq

/-- The places of loads and stores. -/
def Stage.memory : Stage → Bool
  | .int _ => false
  | .mem _ => true
  | .issue w => w == 6
  | .read w => w == 6
  | .mult0 => false
  | .mult1 => false

def Place.memory : Place → Bool
  | .stage s => s.memory
  | .execute w => w == 6
  | .load _ => true

/-- The instruction has left its station. -/
def Place.issued : Place → Bool
  | .stage (.int _) => false
  | .stage (.mem _) => false
  | _ => true

/-- The lane of the execute register behind a last stage. -/
def Stage.lane : Stage → Way
  | .read w => w
  | .mult1 => 4
  | _ => 0

/-- The lane of the bus behind a last place. -/
def Place.lane : Place → Way
  | .stage s => s.lane
  | .execute w => w
  | .load _ => 6

namespace Config

def held (c : Config) : Place → Option Token
  | .stage s => (c.work s).map Work.token
  | .execute w =>
    let p := c.state.pipeExecutePkt w
    if p.packetValid then some (executeToken p) else none
  | .load t =>
    let e := c.state.lsq.ldq.ldqEntry t
    if e.addrValid && !e.writebacked then some ⟨e.robTag, e.destPrn, some t, none⟩ else none

/-- The load of a slot is broadcast. -/
def takes (i : Inputs) (c : Config) (t : LdqTag) : Bool :=
  Ldq.writebackAccept (Lsq.ldqIn (c.lsqIn i) c.state.lsq) c.state.lsq.ldq t

/-- Where an instruction goes from a place; from the last one it is broadcast. -/
def dest (i : Inputs) (c : Config) : Place → Option Place
  | .stage s =>
    match c.forth s with
    | some s' => some (.stage s')
    | none => some (.execute s.lane)
  | .execute w =>
    if w = 6 then (memTag (c.state.pipeExecutePkt 6).rdMem (c.state.pipeExecutePkt 6).ldqTag).map .load
    else none
  | .load t => if c.takes i t then none else some (.load t)

def enter (i : Inputs) (c : Config) : Place → Option Token
  | .stage s => (c.loaded i s).map Work.token
  | _ => none

/-- The instructions in the buffer that wait for their writeback. -/
def ledger (c : Config) : List Token := (c.backend.robLog.live.filter Rob.Record.pending).map recordToken

end Config

/-- The loads and stores are in the places for them, each on its way to one queue. -/
structure Parted (c : Config) : Prop where
  memory : ∀ p t, c.held p = some t → (t.load.isSome || t.store.isSome) = p.memory
  one : ∀ p t, c.held p = some t → t.load = none ∨ t.store = none

section
variable {c : Config} {i : Inputs} {t : Token} {w : Way} {k : LdqTag}

theorem held_stage {s : Stage} : c.held (.stage s) = some t ↔ ∃ x, c.work s = some x ∧ x.token = t :=
  Option.map_eq_some_iff

theorem held_execute : c.held (.execute w) = some t ↔ (c.state.pipeExecutePkt w).packetValid = true ∧
    executeToken (c.state.pipeExecutePkt w) = t := by
  simp [Config.held]

theorem held_load : c.held (.load k) = some t ↔ (c.state.lsq.ldq.ldqEntry k).addrValid = true ∧
    (c.state.lsq.ldq.ldqEntry k).writebacked = false ∧
    Token.mk (c.state.lsq.ldq.ldqEntry k).robTag (c.state.lsq.ldq.ldqEntry k).destPrn (some k) none = t := by
  simp [Config.held, and_assoc]

theorem memTag_some {T : Type} {b : Bool} {x y : T} (h : memTag b x = some y) : b = true ∧ x = y := by
  cases b with
  | false => cases h
  | true => exact ⟨rfl, Option.some.inj h⟩

theorem dest_execute {p : Place} (h : c.dest i p = some (.execute w)) :
    ∃ s, p = .stage s ∧ c.forth s = none ∧ s.lane = w := by
  cases p with
  | stage s =>
    rw [Config.dest] at h
    split at h
    · cases h
    · cases h
      exact ⟨s, rfl, ‹_›, rfl⟩
  | execute v =>
    rw [Config.dest] at h
    split at h
    · obtain ⟨_, _, he⟩ := Option.map_eq_some_iff.1 h
      cases he
    · cases h
  | load u =>
    rw [Config.dest] at h
    split at h <;> cases h

theorem dest_stage {p : Place} {s : Stage} (h : c.dest i p = some (.stage s)) :
    ∃ s₀, p = .stage s₀ ∧ c.forth s₀ = some s := by
  cases p with
  | stage s₀ =>
    rw [Config.dest] at h
    split at h
    · cases h
      exact ⟨s₀, rfl, ‹_›⟩
    · cases h
  | execute v =>
    rw [Config.dest] at h
    split at h
    · obtain ⟨_, _, he⟩ := Option.map_eq_some_iff.1 h
      cases he
    · cases h
  | load u =>
    rw [Config.dest] at h
    split at h <;> cases h

theorem dest_load {p : Place} (h : c.dest i p = some (.load k)) :
    (p = .execute 6 ∧ (c.state.pipeExecutePkt 6).rdMem = true ∧ (c.state.pipeExecutePkt 6).ldqTag = k) ∨
      (p = .load k ∧ c.takes i k = false) := by
  cases p with
  | stage s =>
    rw [Config.dest] at h
    split at h <;> cases h
  | execute v =>
    rw [Config.dest] at h
    split at h
    · rename_i hv
      obtain ⟨u, hu, he⟩ := Option.map_eq_some_iff.1 h
      obtain ⟨hrd, rfl⟩ := memTag_some hu
      cases he
      exact .inl ⟨by rw [hv], hrd, rfl⟩
    · cases h
  | load u =>
    rw [Config.dest] at h
    split at h
    · cases h
    · cases h
      exact .inr ⟨rfl, Bool.not_eq_true _ ▸ ‹_›⟩

/-- The last stages are the ones with nothing behind them. -/
theorem forth_none {s : Stage} : c.forth s = none ↔ (∃ v, v ≠ 4 ∧ s = .read v) ∨ s = .mult1 := by
  cases s <;> grind [Config.forth]

/-! ### One edge without a flush -/

/-- The last stage before a lane of the execute register. -/
def Stage.last (w : Way) : Stage := if w = 4 then .mult1 else .read w

theorem last_of {s : Stage} (h : c.forth s = none) (hw : s.lane = w) : s = .last w := by
  subst hw
  rcases forth_none.1 h with ⟨v, hv, rfl⟩ | rfl
  · exact (if_neg hv).symm
  · rfl

theorem forth_last (w : Way) : c.forth (.last w) = none ∧ (Stage.last w).lane = w := by
  by_cases hw : w = 4
  · subst hw
    exact ⟨rfl, rfl⟩
  · rw [Stage.last, if_neg hw]
    exact ⟨if_neg hw, rfl⟩

/-- A unit passes on what it is given. -/
theorem held_execute_next (hf : pipeFlush c.state = false) (w : Way) :
    (c.next i).held (.execute w) = c.held (.stage (.last w)) := by
  have hreg : (c.next i).state.pipeExecutePkt w = executePkt c.state w := by
    show (if pipeFlush c.state then _ else _) = _
    rw [hf, if_neg Bool.false_ne_true]
    rfl
  have hpkt : ∀ (p : RegReadPacket) (q : ExecutePacket), q.packetValid = p.packetValid →
      executeToken q = (Work.ofRead p).token →
      (if q.packetValid then some (executeToken q) else none) =
        (if p.packetValid then some (Work.ofRead p) else none).map Work.token := by
    intro p q hv ht
    rw [hv, ht]
    cases p.packetValid <;> rfl
  show (if ((c.next i).state.pipeExecutePkt w).packetValid then
    some (executeToken ((c.next i).state.pipeExecutePkt w)) else none) = (c.work (.last w)).map Work.token
  rw [hreg, executePkt, Fu.executePkt, Stage.last]
  by_cases hw4 : w = 4
  · subst hw4
    exact hpkt c.state.fu.stage1.pkt _ rfl rfl
  · rw [if_neg hw4, if_neg hw4]
    by_cases hw : w < 4
    · rw [if_pos hw]
      exact hpkt (c.state.pipeRegReadPkt w) _ rfl rfl
    · rw [if_neg hw]
      by_cases hw5 : w = 5
      · rw [if_pos hw5]
        exact hpkt (c.state.pipeRegReadPkt w) _ rfl rfl
      · rw [if_neg hw5]
        exact hpkt (c.state.pipeRegReadPkt w) _ rfl rfl

/-! ### The load queue -/

/-- The load of a slot executes. -/
def Config.executes (c : Config) (k : LdqTag) : Bool :=
  (c.state.pipeExecutePkt 6).packetValid && (c.state.pipeExecutePkt 6).rdMem &&
    (c.state.pipeExecutePkt 6).ldqTag == k

theorem executes_iff : c.executes k = true ↔ ((c.state.pipeExecutePkt 6).packetValid = true ∧
    (c.state.pipeExecutePkt 6).rdMem = true) ∧ (c.state.pipeExecutePkt 6).ldqTag = k := by
  rw [Config.executes, Bool.and_eq_true, Bool.and_eq_true, beq_iff_eq]

/-- The entry of a slot after an edge. -/
theorem entry_next (hf : pipeFlush c.state = false) :
    ((c.next i).state.lsq.ldq.ldqEntry k).addrValid =
      (!Ldq.retires (Lsq.ldqIn (c.lsqIn i) c.state.lsq) k &&
        (c.executes k || (c.state.lsq.ldq.ldqEntry k).addrValid)) ∧
    ((c.next i).state.lsq.ldq.ldqEntry k).writebacked =
      (!Ldq.retires (Lsq.ldqIn (c.lsqIn i) c.state.lsq) k &&
        (c.takes i k || (c.state.lsq.ldq.ldqEntry k).writebacked)) ∧
    Token.mk ((c.next i).state.lsq.ldq.ldqEntry k).robTag ((c.next i).state.lsq.ldq.ldqEntry k).destPrn
        (some k) none =
      if c.executes k then ⟨(c.state.pipeExecutePkt 6).robEntry, (c.state.pipeExecutePkt 6).destPrn, some k, none⟩
      else ⟨(c.state.lsq.ldq.ldqEntry k).robTag, (c.state.lsq.ldq.ldqEntry k).destPrn, some k, none⟩ := by
  have e := (Lsq.cycle_next (i := c.lsqIn i) c.lsq hf).ldq
  have hx : (k == (Lsq.ldqIn (c.lsqIn i) c.lsq.state).executeLdLdqTag &&
      (Lsq.ldqIn (c.lsqIn i) c.lsq.state).executeLdValid) = c.executes k := by
    rw [Bool.and_comm, Bool.beq_comm]
    rfl
  have haddr := e.addrValid k
  obtain ⟨-, -, hprn, hrob⟩ := e.exec k
  rw [hx] at haddr hprn hrob
  refine ⟨haddr, e.writebacked k, ?_⟩
  show Token.mk ((c.lsq.next (c.lsqIn i)).ldq.ldq.ldqEntry k).robTag
    ((c.lsq.next (c.lsqIn i)).ldq.ldq.ldqEntry k).destPrn (some k) none = _
  rw [hprn, hrob]
  cases c.executes k <;> rfl

/-- The load/store unit in the back end, in a cycle that keeps its rules. -/
structure Unit (i : Inputs) (c : Config) : Prop where
  inv : Lsq.Inv c.lsq
  ok : Lsq.Ok (c.lsqIn i) c.lsq
  fresh : Lsq.Fresh (c.lsqIn i) c.lsq
  again : ¬ Lsq.Again c.lsq

namespace Unit

/-- A load that is broadcast has its address, and was not broadcast before. -/
theorem takes_held (h : Unit i c) (hk : c.takes i k = true) :
    (c.state.lsq.ldq.ldqEntry k).addrValid = true ∧ (c.state.lsq.ldq.ldqEntry k).writebacked = false := by
  have hw := Ldq.accept_slot hk
  refine ⟨(h.inv.served h.ok h.fresh (Ldq.hasDatum_of_writeback hw)).2, Bool.eq_false_iff.2 fun hb => ?_⟩
  exact h.again (h.inv.offered_forward h.ok h.fresh hb hw).2

/-- A load executes in an entry without an address. -/
theorem executing (h : Unit i c) (hx : c.executes k = true) :
    (c.state.lsq.ldq.ldqEntry k).addrValid = false := by
  obtain ⟨hv, hk⟩ := executes_iff.1 hx
  obtain ⟨r, hr, ht, hnone⟩ := h.ok.ldq.execute (Bool.and_eq_true_iff.2 hv)
  obtain ⟨n, hn, hget, htag⟩ := h.inv.ldq.live_slot hr
  have hag := (h.inv.agrees n r hn hget).addr
  rw [hnone] at hag
  have ht' : k = (Circular.Ptr.ofCount 4 n).idx := hk.symm.trans (ht.symm.trans htag)
  rw [ht']
  exact hag

/-- An entry that waits for its datum, or for its address, does not retire. -/
theorem stays (h : Unit i c) (hw : (c.state.lsq.ldq.ldqEntry k).writebacked = false) :
    Ldq.retires (Lsq.ldqIn (c.lsqIn i) c.state.lsq) k = false := by
  refine Bool.eq_false_iff.2 fun hr => ?_
  have := h.inv.retires_written h.ok hr
  rw [show (c.state.lsq.ldq.ldqEntry k).writebacked = true from this] at hw
  cases hw

/-- An entry with a load written back has its address. -/
theorem written_addr (h : Unit i c) (hw : (c.state.lsq.ldq.ldqEntry k).writebacked = true) :
    (c.state.lsq.ldq.ldqEntry k).addrValid = true := by
  have hd := (h.inv.settled k hw).1
  exact (h.inv.served h.ok h.fresh (t := k) (by rw [Ldq.hasDatum, hd, Bool.or_true])).2

/-- **What waits in an entry after an edge**: a load that executes now, or one that waited and
is not broadcast. -/
theorem held_load_next (h : Unit i c) (hp : Parted c) (hf : pipeFlush c.state = false) :
    (c.next i).held (.load k) = some t ↔ ∃ p, c.held p = some t ∧ c.dest i p = some (.load k) := by
  obtain ⟨haddr, hwb, htok⟩ := entry_next (i := i) (k := k) hf
  rw [held_load, haddr, hwb, htok]
  constructor
  · rintro ⟨ha, hw, rfl⟩
    rw [Bool.and_eq_true, Bool.not_eq_true'] at ha
    rw [ha.1, Bool.not_false, Bool.true_and, Bool.or_eq_false_iff] at hw
    cases hx : c.executes k with
    | true =>
      obtain ⟨⟨hvalid, hrd⟩, hk⟩ := executes_iff.1 hx
      have hheld : c.held (.execute 6) = some (executeToken (c.state.pipeExecutePkt 6)) :=
        held_execute.2 ⟨hvalid, rfl⟩
      have hload : (executeToken (c.state.pipeExecutePkt 6)).load = some k := by
        rw [executeToken, hrd, hk]
        rfl
      have hstore := (hp.one _ _ hheld).resolve_left (by rw [hload]; exact Option.some_ne_none k)
      refine ⟨.execute 6, ?_, ?_⟩
      · rw [hheld, if_pos rfl]
        exact congrArg some (congr (congrArg _ hload) hstore)
      · rw [Config.dest, if_pos rfl]
        exact congrArg (Option.map Place.load) hload
    | false =>
      rw [hx, Bool.false_or] at ha
      refine ⟨.load k, held_load.2 ⟨ha.2, hw.2, ?_⟩, ?_⟩
      · rw [if_neg Bool.false_ne_true]
      · rw [Config.dest, hw.1, if_neg Bool.false_ne_true]
  · rintro ⟨p, hheld, hd⟩
    rcases dest_load hd with ⟨rfl, hrd, hk⟩ | ⟨rfl, htake⟩
    · obtain ⟨hvalid, rfl⟩ := held_execute.1 hheld
      have hx : c.executes k = true := executes_iff.2 ⟨⟨hvalid, hrd⟩, hk⟩
      have hnone := h.executing hx
      have hw : (c.state.lsq.ldq.ldqEntry k).writebacked = false := by
        refine Bool.eq_false_iff.2 fun hb => ?_
        rw [h.written_addr hb] at hnone
        cases hnone
      have htake : c.takes i k = false := by
        refine Bool.eq_false_iff.2 fun hb => ?_
        rw [(h.takes_held hb).1] at hnone
        cases hnone
      have hload : (executeToken (c.state.pipeExecutePkt 6)).load = some k := by
        rw [executeToken, hrd, hk]
        rfl
      have hstore := (hp.one _ _ hheld).resolve_left (by rw [hload]; exact Option.some_ne_none k)
      rw [h.stays hw, hx, htake, hw]
      exact ⟨rfl, rfl, (congr (congrArg _ hload) hstore).symm⟩
    · obtain ⟨ha, hw, rfl⟩ := held_load.1 hheld
      have hx : c.executes k = false := by
        refine Bool.eq_false_iff.2 fun hx => ?_
        rw [h.executing hx] at ha
        cases ha
      rw [h.stays hw, hx, htake, hw, ha]
      exact ⟨rfl, rfl, rfl⟩

/-- **Instructions move along their way and nowhere else.** -/
theorem moves (h : Unit i c) (hs : Sorted c) (hp : Parted c) (hf : pipeFlush c.state = false) :
    Tokens.Moves c.held (c.next i).held (c.dest i) (c.enter i) := by
  intro q t
  cases q with
  | stage s =>
    refine ((hs.moves hf).map Work.token s t).trans (or_congr_right ⟨?_, ?_⟩)
    · rintro ⟨s₀, hheld, hd⟩
      exact ⟨.stage s₀, hheld, by rw [Config.dest, hd]⟩
    · rintro ⟨p, hheld, hd⟩
      obtain ⟨s₀, rfl, hforth⟩ := dest_stage hd
      exact ⟨s₀, hheld, hforth⟩
  | execute w =>
    rw [held_execute_next hf]
    constructor
    · intro hheld
      exact .inr ⟨_, hheld, by rw [Config.dest, (forth_last (c := c) w).1, (forth_last (c := c) w).2]⟩
    · intro he
      obtain ⟨p, hheld, hd⟩ := he.resolve_left nofun
      obtain ⟨s, rfl, hnone, hlane⟩ := dest_execute hd
      rwa [last_of hnone hlane] at hheld
  | load k =>
    rw [h.held_load_next hp hf]
    exact ⟨.inr, fun he => he.resolve_left nofun⟩

end Unit

/-- A flush empties every place. -/
theorem held_flush (hf : pipeFlush c.state = true) (p : Place) : (c.next i).held p = none := by
  have hempty : Empty (c.next i).state := flush_empty i hf
  cases p with
  | stage s =>
    cases s with
    | int k => simp [Config.held, Config.work, hempty.rsInt]
    | mem k => simp [Config.held, Config.work, hempty.rsMem]
    | issue w => simp [Config.held, Config.work, hempty.issue]
    | read w => simp [Config.held, Config.work, hempty.regRead]
    | mult0 => simp [Config.held, Config.work, hempty.mult.1]
    | mult1 => simp [Config.held, Config.work, hempty.mult.2]
  | execute w => simp [Config.held, hempty.execute]
  | load k =>
    have hclear : ((c.next i).state.lsq.ldq.ldqEntry k).addrValid = false := by
      show ((c.lsq.next (c.lsqIn i)).ldq.ldq.ldqEntry k).addrValid = false
      rw [Lsq.flush_entry c.lsq hf]
      rfl
    simp [Config.held, hclear]

end

end R10K.Whole
