import R10K.Core.Wakeup
import R10K.Whole.Run

/-! What the units compute, against the program.

An instruction takes what it was decoded to through its station to its unit, reads its
operands on the way, and its unit's answer goes onto the bus. Followed over the whole run,
every result that is broadcast for an instruction other than a load is its unit's function
of the values that the program gives its operands, however the instructions were ordered. -/
namespace R10K.Whole
open Backend Lanes

/-- What an instruction of the buffer is to do. -/
def workOf (r : Rob.Record) (f : Core.Flight) : Work :=
  ⟨f.pkt.inst, f.pkt.pc, f.pkt.opType, f.pkt.destPrn, f.pkt.op1Select, f.pkt.op2Select, f.pkt.rdMem, f.pkt.wrMem,
    f.pkt.condBranch, f.pkt.uncondBranch, r.tag, r.pkt.stqTag, r.pkt.ldqTag⟩

/-- The answer of a lane's unit to a packet; the multiplier's comes two cycles later. -/
def unitAnswer (w : Way) (p : RegReadPacket) : ExecutePacket :=
  if w = 4 then Fu.executed p (Fu.multResult (Fu.multIn p)) else Fu.executePkt (fun _ => p) {} w

/-- The unit a stage belongs to. -/
def Stage.serves : Stage → FuId → Prop
  | .int _, u => u ≠ .agu0
  | .mem _, u => u = .agu0
  | .issue w, u => u.way = w
  | .read w, u => u.way = w
  | .mult0, u => u.way = 4
  | .mult1, u => u.way = 4

/-- A packet is instruction `n`: what it was decoded to, and its operands' values. -/
structure Packet (c : Config) (p : RegReadPacket) (n : Nat) (f : Core.Flight) : Prop where
  inst : p.inst = f.pkt.inst
  pc : p.pc = f.pkt.pc
  opType : p.opType = f.pkt.opType
  op1Select : p.op1Select = f.pkt.op1Select
  op2Select : p.op2Select = f.pkt.op2Select
  condBranch : p.condBranch = f.pkt.condBranch
  uncondBranch : p.uncondBranch = f.pkt.uncondBranch
  value : ∀ o, f.pkt.useOp o = true → c.core.source n (f.arn o) = some (p.opVal o)

/-- It is an instruction of the buffer on its way to a lane. -/
def Served (c : Config) (w : Way) (p : RegReadPacket) : Prop :=
  ∃ r n f, c.core.At r n f ∧ r.tag = p.robEntry ∧ f.pkt.fuId.way = w ∧ Packet c p n f

/-- The instructions before their units, and behind them. -/
structure Valued (c : Config) : Prop where
  work : ∀ s x, c.work s = some x → ∃ r n f, c.core.At r n f ∧ workOf r f = x ∧ s.serves f.pkt.fuId
  read : ∀ w, (c.state.pipeRegReadPkt w).packetValid = true → Served c w (c.state.pipeRegReadPkt w)
  mult0 : c.state.fu.stage0.pkt.packetValid = true →
    c.state.fu.stage0 = Fu.multIn c.state.fu.stage0.pkt ∧ Served c 4 c.state.fu.stage0.pkt
  mult1 : c.state.fu.stage1.pkt.packetValid = true →
    c.state.fu.stage1 = Fu.multIn c.state.fu.stage1.pkt ∧ Served c 4 c.state.fu.stage1.pkt
  execute : ∀ w, (c.state.pipeExecutePkt w).packetValid = true →
    ∃ p, c.state.pipeExecutePkt w = unitAnswer w p ∧ Served c w p

section
variable {c : Config} {i : Inputs} {w : Way} {p : RegReadPacket} {n : Nat} {f : Core.Flight}

/-! ### What a packet says -/

theorem Packet.of_work {r : Rob.Record} (h : workOf r f = Work.ofRead p)
    (hv : ∀ o, f.pkt.useOp o = true → c.core.source n (f.arn o) = some (p.opVal o)) : Packet c p n f where
  inst := (congrArg Work.inst h).symm
  pc := (congrArg Work.pc h).symm
  opType := (congrArg Work.opType h).symm
  op1Select := (congrArg Work.op1Select h).symm
  op2Select := (congrArg Work.op2Select h).symm
  condBranch := (congrArg Work.condBranch h).symm
  uncondBranch := (congrArg Work.uncondBranch h).symm
  value := hv

/-- Values the program has stay. -/
theorem Packet.next (h : Packet c p n f) (hn : n ≤ c.core.trace.length)
    (hf : pipeFlush c.state = true → n ≤ c.core.base) (issues : Bool) :
    Packet (c.next i) p n (f.next (c.coreIn i) issues) where
  inst := h.inst
  pc := h.pc
  opType := h.opType
  op1Select := h.op1Select
  op2Select := h.op2Select
  condBranch := h.condBranch
  uncondBranch := h.uncondBranch
  value := fun o ho => Core.source_stays (c.coreIn i) hn hf (h.value o ho)

theorem workOf_next (r : Rob.Record) (f : Core.Flight) (j : Rob.Inputs) (i : Core.Inputs) (issues : Bool) :
    workOf (Rob.mark j r) (f.next i issues) = workOf r f := by
  rw [workOf, (Rob.mark_eq_iff j r).1, (Rob.mark_eq_iff j r).2]
  rfl

/-- A packet that stays on its way stays its instruction's. -/
theorem Served.next (h : Served c w p) (hinv : Inv c) (hf : pipeFlush c.state = false) {q : Place} {t : Token}
    (hheld : c.held q = some t) (ht : t.robEntry = p.robEntry) : Served (c.next i) w p := by
  obtain ⟨r, n, f, hat, htag, hway, hpkt⟩ := h
  obtain ⟨r', n', f', hat', hpend, htok⟩ := hinv.at_place hheld
  obtain ⟨rfl, rfl, rfl⟩ := hat.unique hinv.core.rob.toQueue hat'
    (htag.trans (ht.symm.trans (congrArg Token.robEntry htok).symm))
  have hlt := (List.getElem?_eq_some_iff.1 hat.flight).1
  exact ⟨_, n, _, stays_at hinv.core hf hat hpend, (Rob.mark_eq_iff _ r).1.trans htag, hway,
    hpkt.next (Nat.le_of_lt hlt) (fun hf' => by rw [hf] at hf'; cases hf') _⟩

/-! ### One edge of the work -/

theorem serves_forth (h : Inv c) {s s' : Stage} {r : Rob.Record} (hw : c.work s = some (workOf r f))
    (hat : c.core.At r n f) (hs : s.serves f.pkt.fuId) (hd : c.forth s = some s') : s'.serves f.pkt.fuId := by
  cases s with
  | int k =>
    rw [Config.forth] at hd
    obtain ⟨huse, hwork⟩ := work_int.1 hw
    obtain ⟨n', f', hwait, -⟩ := h.stations.int.waiting k huse
    obtain ⟨r', hat', htag, -⟩ := hwait.pending
    obtain ⟨rfl, rfl, rfl⟩ := hat.unique h.core.rob.toQueue hat'
      ((congrArg Work.robEntry hwork).symm.trans htag.symm)
    split at hd <;> cases hd
    · exact (congrArg FuId.way hwait.fuId).symm
    · exact hs
  | mem k =>
    rw [Config.forth] at hd
    obtain ⟨huse, hwork⟩ := work_mem.1 hw
    obtain ⟨n', f', hwait, -⟩ := h.stations.mem.waiting k huse
    obtain ⟨r', hat', htag, -⟩ := hwait.pending
    obtain ⟨rfl, rfl, rfl⟩ := hat.unique h.core.rob.toQueue hat'
      ((congrArg Work.robEntry hwork).symm.trans htag.symm)
    split at hd <;> cases hd
    · exact (congrArg FuId.way hwait.fuId).symm
    · exact hs
  | issue w =>
    cases hd
    exact hs
  | read w =>
    rw [Config.forth] at hd
    split at hd <;> cases hd
    rename_i hw4
    exact hs.trans hw4
  | mult0 =>
    cases hd
    exact hs
  | mult1 => cases hd

theorem work_next (h : Inv c) (hval : Valued c) (hf : pipeFlush c.state = false) {s : Stage} {x : Work}
    (hx : (c.next i).work s = some x) :
    ∃ r n f, (c.next i).core.At r n f ∧ workOf r f = x ∧ s.serves f.pkt.fuId := by
  rcases (h.sorted.moves hf s x).1 hx with he | ⟨s₀, hs₀, hd⟩
  · obtain ⟨l, hl, rfl, rfl⟩ := (loaded_iff h.backend.toInv).1 he
    obtain ⟨n, f, hw⟩ := Core.exists_waits (c := c.core) h.core.spine (needs_valid hl)
    have hpkt : f.pkt = c.state.core.spine.pipeRenamePkt l := (h.core.waits l n f hw).1
    refine ⟨_, n, _, hw.next (i := c.coreIn i) h.core.spine hf, ?_, ?_⟩
    · rw [workOf, show (f.next (c.coreIn i) (c.core.issues n)).pkt = _ from hpkt]
      rfl
    · rw [show (f.next (c.coreIn i) (c.core.issues n)).pkt = _ from hpkt, Config.station]
      split
      · assumption
      · assumption
  · obtain ⟨r, n, f, hat, rfl, hs⟩ := hval.work s₀ x hs₀
    have hheld : c.held (.stage s₀) = some (workOf r f).token := held_stage.2 ⟨_, hs₀, rfl⟩
    obtain ⟨r', n', f', hat', hpend, htok⟩ := h.at_place hheld
    obtain ⟨rfl, rfl, rfl⟩ := hat.unique h.core.rob.toQueue hat' (congrArg Token.robEntry htok).symm
    have hserves := serves_forth h hs₀ hat hs hd
    exact ⟨_, n, _, stays_at h.core hf hat hpend, workOf_next .., hserves⟩

/-! ### One edge of the values -/

/-- **What is read is what the program says.** -/
theorem read_next (h : Inv c) (hval : Valued c) (ok : Ok i c) (hf : pipeFlush c.state = false)
    (hv : ((c.next i).state.pipeRegReadPkt w).packetValid = true) :
    Served (c.next i) w ((c.next i).state.pipeRegReadPkt w) := by
  have hreg : (c.next i).state.pipeRegReadPkt w = Core.regReadPkt (c.coreIn i) c.state.core w := by
    show (if pipeFlush c.state then _ else _) = _
    rw [hf, if_neg Bool.false_ne_true]
    rfl
  rw [hreg] at hv ⊢
  have hv' : (c.state.core.pipeIssuePkt w).packetValid = true := hv
  obtain ⟨n, f, hissued⟩ := h.stations.issue w hv'
  obtain ⟨r, hat, htag⟩ := hissued.tag
  have hwork := work_issue.2 ⟨hv', rfl⟩
  obtain ⟨r', n', f', hat', hx, hway⟩ := hval.work _ _ hwork
  obtain ⟨rfl, rfl, rfl⟩ := hat.unique h.core.rob.toQueue hat'
    (htag.trans (congrArg Work.robEntry hx).symm)
  have hread : ∀ o, f.pkt.useOp o = true → c.core.source n (f.arn o) =
      some ((Core.regReadPkt (c.coreIn i) c.state.core w).opVal o) := by
    intro o ho
    rw [Core.read_value h.core h.operands (h.coreOk ok) hissued ho w]
    cases o <;> rfl
  have hpkt : Packet c (Core.regReadPkt (c.coreIn i) c.state.core w) n f := .of_work hx hread
  refine Served.next ⟨r, n, f, hat, htag, hway, hpkt⟩ h hf (held_stage.2 ⟨_, hwork, rfl⟩) rfl

theorem mult0_next (h : Inv c) (hval : Valued c) (hf : pipeFlush c.state = false)
    (hv : (c.next i).state.fu.stage0.pkt.packetValid = true) :
    (c.next i).state.fu.stage0 = Fu.multIn (c.next i).state.fu.stage0.pkt ∧
      Served (c.next i) 4 (c.next i).state.fu.stage0.pkt := by
  have hreg : (c.next i).state.fu.stage0 = Fu.multIn (c.state.pipeRegReadPkt 4) := by
    show (if pipeFlush c.state then _ else _) = _
    rw [hf, if_neg Bool.false_ne_true]
    rfl
  rw [hreg] at hv ⊢
  have hv' : (c.state.pipeRegReadPkt 4).packetValid = true := hv
  exact ⟨rfl, (hval.read 4 hv').next h hf (held_stage.2 ⟨_, work_read.2 ⟨hv', rfl⟩, rfl⟩) rfl⟩

theorem mult1_next (h : Inv c) (hval : Valued c) (hf : pipeFlush c.state = false)
    (hv : (c.next i).state.fu.stage1.pkt.packetValid = true) :
    (c.next i).state.fu.stage1 = Fu.multIn (c.next i).state.fu.stage1.pkt ∧
      Served (c.next i) 4 (c.next i).state.fu.stage1.pkt := by
  have hreg : (c.next i).state.fu.stage1 = c.state.fu.stage0 := by
    show (if pipeFlush c.state then _ else _) = _
    rw [hf, if_neg Bool.false_ne_true]
    rfl
  rw [hreg] at hv ⊢
  obtain ⟨hstage, hs⟩ := hval.mult0 hv
  exact ⟨hstage, hs.next h hf (held_stage.2 ⟨_, work_mult0.2 ⟨hv, rfl⟩, rfl⟩) rfl⟩

/-- A unit answers with its function of the packet. -/
theorem execute_next (h : Inv c) (hval : Valued c) (hf : pipeFlush c.state = false)
    (hv : ((c.next i).state.pipeExecutePkt w).packetValid = true) :
    ∃ p, (c.next i).state.pipeExecutePkt w = unitAnswer w p ∧ Served (c.next i) w p := by
  have hreg : (c.next i).state.pipeExecutePkt w = executePkt c.state w := by
    show (if pipeFlush c.state then _ else _) = _
    rw [hf, if_neg Bool.false_ne_true]
    rfl
  rw [hreg] at hv ⊢
  by_cases hw : w = 4
  · subst hw
    have hv' : c.state.fu.stage1.pkt.packetValid = true := hv
    obtain ⟨hstage, hs⟩ := hval.mult1 hv'
    refine ⟨c.state.fu.stage1.pkt, ?_, hs.next h hf (held_stage.2 ⟨_, work_mult1.2 ⟨hv', rfl⟩, rfl⟩) rfl⟩
    rw [unitAnswer, if_pos rfl, ← hstage]
    rfl
  · have hexec : executePkt c.state w = unitAnswer w (c.state.pipeRegReadPkt w) := by
      simp only [executePkt, unitAnswer, Fu.executePkt, if_neg hw]
    have hv' : (c.state.pipeRegReadPkt w).packetValid = true := by
      rw [executePkt, Fu.executePkt, if_neg hw] at hv
      split at hv
      · exact hv
      · split at hv <;> exact hv
    exact ⟨_, hexec, (hval.read w hv').next h hf (held_stage.2 ⟨_, work_read.2 ⟨hv', rfl⟩, rfl⟩) rfl⟩

/-- **One edge keeps the values.** -/
theorem Valued.next (hval : Valued c) (h : Inv c) (ok : Ok i c) : Valued (c.next i) := by
  cases hf : pipeFlush c.state with
  | true =>
    have hempty : Empty (c.next i).state := flush_empty i hf
    refine ⟨fun s x hx => ?_, fun w hv => ?_, fun hv => ?_, fun hv => ?_, fun w hv => ?_⟩
    · have hheld := held_flush (i := i) hf (.stage s)
      rw [Config.held, hx] at hheld
      cases hheld
    · rw [hempty.regRead] at hv
      cases hv
    · rw [hempty.mult.1] at hv
      cases hv
    · rw [hempty.mult.2] at hv
      cases hv
    · rw [hempty.execute] at hv
      cases hv
  | false =>
    exact ⟨fun s x hx => work_next h hval hf hx, fun w hv => read_next h hval ok hf hv,
      fun hv => mult0_next h hval hf hv, fun hv => mult1_next h hval hf hv,
      fun w hv => execute_next h hval hf hv⟩

theorem Valued.init : Valued Config.init where
  work := fun s x hx => by
    have hheld := held_init (.stage s)
    rw [Config.held, hx] at hheld
    cases hheld
  read := fun _ hv => by cases hv
  mult0 := fun hv => by cases hv
  mult1 := fun hv => by cases hv
  execute := fun _ hv => by cases hv

/-! ### What is broadcast -/

theorem broadcast_value {j : Core.Inputs} {q : Prn} {x : BitVec 32} (h : Core.broadcast j q = some x) :
    ∃ w, j.cdbValid w = true ∧ j.cdbPrn w = q ∧ j.cdbResult w = x := by
  have hfold := Select.foldl_last (fun w => j.cdbValid w && j.cdbPrn w == q)
    (fun w => some (j.cdbResult w)) (List.finRange 7) none
  rw [Core.broadcast, hfold] at h
  cases hf : (List.finRange 7).reverse.find? fun w => j.cdbValid w && j.cdbPrn w == q with
  | none =>
    rw [hf] at h
    cases h
  | some w =>
    rw [hf] at h
    have hw : (j.cdbValid w && j.cdbPrn w == q) = true :=
      List.find?_some (p := fun w => j.cdbValid w && j.cdbPrn w == q) hf
    rw [Bool.and_eq_true, beq_iff_eq] at hw
    exact ⟨w, hw.1, hw.2, Option.some.inj h⟩

/-- What a lane carries for an instruction other than a load is its unit's answer. -/
theorem lane_value (h : Inv c) (hval : Valued c) (ok : Ok i c) {r : Rob.Record}
    (hv : (cdbPkt i c.state w).packetValid = true) (hat : c.core.At r n f)
    (htag : r.tag = (cdbPkt i c.state w).robEntry) (hload : f.pkt.rdMem = false) :
    ∃ p, Packet c p n f ∧ (cdbPkt i c.state w).result = (unitAnswer f.pkt.fuId.way p).result := by
  obtain ⟨q, t, hheld, hd, -, hlane, hrob, -⟩ := lane_held (h.unit ok) h.parted hv
  obtain ⟨r', n', f', hat', -, htok⟩ := h.at_place hheld
  obtain ⟨rfl, rfl, rfl⟩ := hat.unique h.core.rob.toQueue hat'
    (htag.trans (hrob.symm.trans (congrArg Token.robEntry htok).symm))
  have hnoload : t.load = none := by
    rw [← htok, recordToken, (h.decoded.copies r n f hat).rdMem, hload]
    rfl
  cases q with
  | stage s =>
    rw [Config.dest] at hd
    split at hd <;> cases hd
  | load k =>
    obtain ⟨-, -, rfl⟩ := held_load.1 hheld
    cases hnoload
  | execute v =>
    obtain rfl : v = w := hlane
    obtain ⟨hexec, rfl⟩ := held_execute.1 hheld
    obtain ⟨p, hp, r', n', f', hat', htag', hway, hpkt⟩ := hval.execute v hexec
    have hcdb : cdbPkt i c.state v = c.state.pipeExecutePkt v := by
      by_cases hv6 : v = 6
      · -- an instruction of the address unit other than a load is a store
        subst hv6
        have hmem := h.parted.memory _ _ hheld
        rw [hnoload, Option.isSome_none, Bool.false_or] at hmem
        obtain ⟨u, hu⟩ := Option.isSome_iff_exists.1 (hmem.trans (show Place.memory (.execute 6) = true from rfl))
        have hst : storeOnCdb c.state = true := Bool.and_eq_true_iff.2 ⟨hexec, (memTag_some hu).1⟩
        rw [cdbPkt, if_pos rfl, if_pos hst]
      · rw [cdbPkt, if_neg hv6]
    have hrobp : (c.state.pipeExecutePkt v).robEntry = p.robEntry := by
      rw [hp, unitAnswer, Fu.executePkt]
      repeat' split
      all_goals rfl
    obtain ⟨rfl, rfl, rfl⟩ := hat.unique h.core.rob.toQueue hat'
      (htag.trans ((congrArg ExecutePacket.robEntry hcdb).trans (hrobp.trans htag'.symm)))
    exact ⟨p, hpkt, by rw [hcdb, hp, hway]⟩

/-- What an instruction hears is on a lane that carries its own tag. -/
theorem heard_own (h : Inv c) (ok : Ok i c) (hn : c.core.trace[n]? = some f) (hres : f.result = none)
    (hne : f.pkt.destPrn ≠ 0) {x : BitVec 32} (hx : Core.broadcast (c.coreIn i) f.pkt.destPrn = some x) :
    ∃ w r, (cdbPkt i c.state w).packetValid = true ∧ c.core.At r n f ∧ r.tag = (cdbPkt i c.state w).robEntry ∧
      (cdbPkt i c.state w).result = x := by
  obtain ⟨w, hv, hprn, hresult⟩ := broadcast_value hx
  obtain ⟨r, m, g, hat, htag, -, hdest, -⟩ := (h.coreOk ok).own w hv
  -- what has retired has its result, so the instruction is in flight
  have hbase : c.core.base ≤ n := by
    by_contra hlt
    have hdone := h.core.settled n f (by omega) hn fun h0 =>
      hne ((Core.flight_named h.core.spine (List.mem_of_getElem? hn)).2 h0)
    rw [hres] at hdone
    cases hdone
  obtain rfl := same_register h.core.spine hbase hat.le hn hat.flight (hprn.symm.trans hdest.symm) hne
  obtain rfl : f = g := Option.some.inj (hn.symm.trans hat.flight)
  exact ⟨w, r, hv, hat, htag, hresult⟩

/-- Every result but a load's is what its unit makes of the program's values. -/
def Computed (c : Config) : Prop :=
  ∀ n f x, c.core.trace[n]? = some f → f.result = some x → f.pkt.rdMem = false →
    ∃ p, Packet c p n f ∧ x = (unitAnswer f.pkt.fuId.way p).result

/-- **One edge keeps what was computed.** -/
theorem Computed.next (hcomp : Computed c) (h : Inv c) (hval : Valued c) (ok : Ok i c) :
    Computed (c.next i) := by
  intro n f x hn hx hload
  rcases Core.next_get (c := c.core) (i := c.coreIn i) hn with ⟨f₀, hn₀, rfl, hkeep⟩ | ⟨-, -, j, l, -, -, rfl⟩
  · have hle : n ≤ c.core.trace.length := Nat.le_of_lt (List.getElem?_eq_some_iff.1 hn₀).1
    have hstays : ∀ {p x}, Packet c p n f₀ ∧ x = (unitAnswer f₀.pkt.fuId.way p).result →
        ∃ p, Packet (c.next i) p n (f₀.next (c.coreIn i) (c.core.issues n)) ∧
          x = (unitAnswer f₀.pkt.fuId.way p).result := fun ⟨hp, he⟩ =>
      ⟨_, hp.next hle (fun hf => Nat.le_of_lt (hkeep hf)) _, he⟩
    have hx' : f₀.result.or (if f₀.pkt.destPrn = 0 then none else
        Core.broadcast (c.coreIn i) f₀.pkt.destPrn) = some x := hx
    cases hres : f₀.result with
    | some y =>
      rw [hres, Option.some_or, Option.some.injEq] at hx'
      obtain ⟨p, hp⟩ := hcomp n f₀ y hn₀ hres hload
      exact hstays (hx' ▸ hp)
    | none =>
      rw [hres, Option.none_or] at hx'
      split at hx'
      · cases hx'
      · rename_i hne
        obtain ⟨w, r, hv, hat, htag, hresult⟩ := heard_own h ok hn₀ hres hne hx'
        obtain ⟨p, hp, he⟩ := lane_value h hval ok hv hat htag hload
        exact hstays ⟨hp, hresult.symm.trans he⟩
  · cases hx

theorem Computed.init : Computed Config.init := fun _ _ _ hn => by cases hn

theorem Valued.of_reach (h : Reach c) : Inv c ∧ Valued c ∧ Computed c :=
  Run.Reach.invariant (fun c => Inv c ∧ Valued c ∧ Computed c) ⟨Inv.init, Valued.init, Computed.init⟩
    (fun _ _ hc ok => ⟨hc.1.next ok, hc.2.1.next hc.1 ok, hc.2.2.next hc.1 hc.2.1 ok⟩) h

/-- **Every result is its unit's answer**: in every state of a run, an instruction of the
program other than a load that has a result has what its unit makes of the values the
program gives its operands. -/
theorem results_computed (h : Reach c) : Valued c ∧ Computed c := (Valued.of_reach h).2

/-! `addi x1, x0, 5` and `add x2, x1, x1`: the addition waits in its station for x1. -/

def pairIn : Inputs :=
  { quietIn with fetchPkt := fun l =>
      if l = 0 then { inst := 0x00500093, packetValid := true }
      else if l = 1 then { inst := 0x00108133, pc := 4, packetValid := true }
      else {} }

def pairAfter : Nat → Config
  | 0 => Config.init.next pairIn
  | n + 1 => (pairAfter n).next quietIn

theorem pairAfter_alone : ∀ n, n < 12 → (pairAfter n).state.lsq.stq.fwdValid = false := by decide +kernel

theorem pairAfter_reach : ∀ n, n ≤ 12 → Reach (pairAfter n)
  | 0, _ => .step pairIn .init (ok_alone ⟨(show Contiguous _ by decide), fun h => by cases h⟩ rfl rfl)
  | n + 1, hn => .step quietIn (pairAfter_reach n (by omega)) (ok_quiet (pairAfter_alone n (by omega)))

/-- The results of the two are the adders'. -/
theorem results_computed_pair : ((pairAfter 12).core.trace.map Core.Flight.result) = [some 5, some 10] ∧
    Valued (pairAfter 12) ∧ Computed (pairAfter 12) :=
  ⟨by decide +kernel, results_computed (pairAfter_reach 12 (Nat.le_refl _))⟩

end

end R10K.Whole
