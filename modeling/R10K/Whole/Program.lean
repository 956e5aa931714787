import R10K.Whole.Memory

/-! The committed program, as RV32 computes it.

With its memory the back end computes the committed words one after the other: the registers
that the architectural map shows and the memory that the retired stores leave are those of
the instruction set, loads included. What the data cache holds is the memory after the stores
it was sent, the first of the retired ones. -/
namespace R10K.Whole
open Backend Lanes Rv32

/-- The committed words and their addresses. -/
def Config.words (c : Config) : List (Word × Word) :=
  (c.core.trace.take c.core.committed).map fun f => (f.pkt.inst, f.pkt.pc)

/-- The registers and the memory before instruction `n`. -/
def Machine.before (m : Lsq.Mem) (c : Machine) (n : Nat) : Arch := ⟨c.whole.regs n, c.whole.memBefore m n⟩

/-! ### Bytes -/

theorem readBytes_eq (m : Lsq.Mem) (a : Word) (op : LoadOp) : Lsq.readBytes m a op.funct3 = op.read m a := by
  cases op <;> rfl

theorem writeBytes_eq (m : Lsq.Mem) (a d : Word) (op : StoreOp) :
    Memory.apply m (Lsq.writeBytes a d op.funct3) = op.put m a d := by
  have hwidth : Lsq.width op.funct3 = op.bytes := by cases op <;> rfl
  funext b
  rw [Memory.apply, Lsq.writeBytes, hwidth, StoreOp.put]
  split <;> rfl

/-! ### Every state -/

/-- What every state of a run with memory has. -/
structure Machine.Holds (m : Lsq.Mem) (c : Machine) : Prop where
  inv : Inv c.whole
  valued : Valued c.whole
  computed : Computed c.whole
  counted : Counted c.whole
  stored : Stored c.whole
  executed : Executed c.whole
  fits : Fits m c
  gets : Gets m c.whole

section
variable {c : Machine} {i : Inputs} {m : Lsq.Mem} {n : Nat} {f : Core.Flight}

theorem Machine.Holds.init (m : Lsq.Mem) : Holds m (init m) :=
  ⟨Inv.init, Valued.init, Computed.init, Counted.init, Stored.init, Executed.init, Fits.init m, Gets.init m⟩

theorem Machine.Holds.next (h : Holds m c) (ok : c.Ok i) : Holds m (c.next i) where
  inv := h.inv.next ok.whole
  valued := h.valued.next h.inv ok.whole
  computed := h.computed.next h.inv h.valued ok.whole
  counted := h.counted.next h.inv
  stored := h.stored.next h.inv h.valued h.counted ok.whole
  executed := h.executed.next h.inv h.valued ok.whole
  fits := h.fits.next h.inv h.counted ok
  gets := h.gets.next h.fits h.inv h.counted h.executed ok

theorem Machine.Holds.of_reach (h : Reach m c) : Holds m c :=
  Run.Reach.invariant (Holds m) (Holds.init m) (fun _ _ hc ok => hc.next ok) h

/-- **Loads see the stores before them**: in every state of a run a load that has its result,
committed or not, has the bytes that the stores before it in the program leave, and all of
these have executed. -/
theorem loads_see_stores (h : Machine.Reach m c) : Gets m c.whole := (Machine.Holds.of_reach h).gets

/-! ### A step of the program -/

/-- A load's register gets what RV32 says it reads. -/
theorem load_result (h : Machine.Holds m c) (hn : c.whole.core.trace[n]? = some f) (hlt : n < c.whole.core.base)
    {op : LoadOp} {rd rs1 : Reg} {imm : BitVec 12} (hi : encode (.load op rd rs1 imm) = f.pkt.inst) (hrd : rd ≠ 0) :
    f.result.getD 0 = op.read (c.whole.memBefore m n) (c.whole.regs n rs1 + immWord imm) := by
  have hm := h.inv.decoded.made f (List.mem_of_getElem? hn)
  have hdest : f.pkt.destArn = rd := destArn_of (c := c.whole) (n := n) hm hi trivial
  have hload : f.pkt.rdMem = true := by
    rw [hm.rdMem, control_of hi]
    rfl
  obtain ⟨x, hx⟩ := Option.isSome_iff_exists.1 (h.inv.core.settled n f hlt hn (by rwa [hdest]))
  obtain ⟨-, p, hp, hv⟩ := h.gets n f x hn hload hx
  have haddr : (unitAnswer 6 p).result = c.whole.regs n rs1 + immWord imm := agu_result hm hp hi rfl
  have hsize : p.inst.extractLsb' 12 3 = op.funct3 := by
    rw [hp.inst, ← hi]
    exact iType_funct3 ..
  rw [hx, Option.getD_some, hv, haddr, hsize, readBytes_eq]

/-- The memory before and after a committed instruction. -/
theorem memBefore_store (h : Machine.Holds m c) (hn : c.whole.core.trace[n]? = some f)
    (hlt : n < c.whole.core.committed) (hst : f.pkt.wrMem = true) {op : StoreOp} {rs1 rs2 : Reg} {imm : BitVec 12}
    (hi : encode (.store op rs1 rs2 imm) = f.pkt.inst) : c.whole.memBefore m (n + 1) =
      op.put (c.whole.memBefore m n) (c.whole.regs n rs1 + immWord imm) (c.whole.regs n rs2) := by
  have hm := h.inv.decoded.made f (List.mem_of_getElem? hn)
  obtain ⟨q, w, hq, hw⟩ := committed_store h.inv h.counted hn hlt hst
  have hinstr := wrote_instr hm (h.stored n f q w hn hst hq hw) hst hi
  have heffect : Lsq.effect q = Lsq.writeBytes (c.whole.regs n rs1 + immWord imm) (c.whole.regs n rs2) op.funct3 := by
    rw [Lsq.effect, hw, Option.some.inj hinstr]
  have hmap : (c.whole.backend.stqLog.stores.map Lsq.effect)[c.whole.rank RenamePacket.wrMem n]? =
      some (Lsq.effect q) := by
    rw [List.getElem?_map, hq]
    rfl
  rw [Config.memBefore, Config.memBefore, Config.storesBefore, Config.storesBefore, rank_succ hn, hst,
    Bool.toNat_true, Lsq.programMem, Lsq.programMem, List.map_take, List.map_take, Memory.applyAll_take_succ hmap,
    heffect, writeBytes_eq]

theorem memBefore_keep (hn : c.whole.core.trace[n]? = some f) (hst : f.pkt.wrMem = false) :
    c.whole.memBefore m (n + 1) = c.whole.memBefore m n := by
  rw [Config.memBefore, Config.storesBefore, rank_succ hn, hst]
  rfl

/-- **A committed instruction is one step of RV32.** -/
theorem committed_step (h : Machine.Holds m c) (hn : c.whole.core.trace[n]? = some f)
    (hlt : n < c.whole.core.committed) (hs : ∀ i, encode i = f.pkt.inst → Supported (c.whole.regs n) i) :
    Steps (f.pkt.inst, f.pkt.pc) (c.before m n) (c.before m (n + 1)) := by
  have hm := h.inv.decoded.made f (List.mem_of_getElem? hn)
  have hbase : n < c.whole.core.base := Nat.lt_of_lt_of_le hlt (Nat.le_add_right _ _)
  obtain ⟨hdo, hskip⟩ := performs h.inv h.computed hn hbase hs
  constructor
  · intro i hi
    have hi' : encode i = f.pkt.inst := hi
    have hregs : c.whole.regs (n + 1) = i.exec f.pkt.pc (i.loaded (c.before m n)) (c.whole.regs n) := by
      refine (hdo i hi).trans (Instr.exec_congr ?_)
      rintro op rd rs1 imm rfl hrd
      exact load_result h hn hbase hi' hrd
    have hmem : c.whole.memBefore m (n + 1) = i.memory (c.before m n) := by
      cases hst : f.pkt.wrMem with
      | true =>
        obtain ⟨op, rs1, rs2, imm, rfl⟩ := store_of hm hi' hst
        exact memBefore_store h hn hlt hst hi'
      | false =>
        refine (memBefore_keep hn hst).trans ?_
        rw [hm.wrMem, control_of hi'] at hst
        cases i with
        | store => cases hst
        | _ => rfl
    rw [Machine.before, hregs, hmem]
    rfl
  · intro hno
    rw [Machine.before, hskip hno, memBefore_keep hn (no_store hm hno)]
    rfl

/-! ### The whole program -/

theorem words_get {x : Word × Word} (hx : c.whole.words[n]? = some x) :
    ∃ f, c.whole.core.trace[n]? = some f ∧ n < c.whole.core.committed ∧ (f.pkt.inst, f.pkt.pc) = x := by
  rw [Config.words, List.getElem?_map] at hx
  obtain ⟨f, hf, rfl⟩ := Option.map_eq_some_iff.1 hx
  have hlt : n < c.whole.core.committed := by
    have := (List.getElem?_eq_some_iff.1 hf).1
    rw [List.length_take] at this
    omega
  rw [List.getElem?_take_of_lt hlt] at hf
  exact ⟨f, hf, hlt, rfl⟩

theorem words_length (h : Inv c.whole) : c.whole.words.length = c.whole.core.committed := by
  rw [Config.words, List.length_map, List.length_take, Nat.min_eq_left (committed_le h)]

/-- Every beginning of the committed program is computed. -/
theorem computes_take (h : Machine.Holds m c) (hs : Throughout Supported ⟨fun _ => 0, m⟩ c.whole.words) :
    ∀ n, n ≤ c.whole.core.committed → Computes ⟨fun _ => 0, m⟩ (c.whole.words.take n) (c.before m n) := by
  rw [← words_length h.inv]
  refine @Computes.of_steps Supported c.whole.words (c.before m) hs fun n x hx hsup => ?_
  obtain ⟨f, hf, hlt, rfl⟩ := words_get hx
  exact committed_step h hf hlt hsup

/-- The memory behind the data cache is that before some instruction. -/
theorem sent_before (h : Machine.Holds m c) :
    ∃ n, n ≤ c.whole.core.committed ∧ c.system.mem = c.whole.memBefore m n := by
  have hle : c.whole.backend.stqLog.sent.length ≤ c.whole.backend.stqLog.retired := h.inv.backend.stq.sent_le
  rw [h.counted.retired] at hle
  obtain ⟨n, hn, hrank⟩ := exists_rank hle (committed_le h.inv)
  refine ⟨n, hn, ?_⟩
  rw [h.fits.mem, h.fits.stores, h.fits.sent, Config.memBefore, Config.storesBefore, hrank]

/-- **The back end computes the committed program**: in every state of a run the committed
words, executed one after the other on the memory of the start, leave what the architectural
registers show. The memory behind the data cache is the one a beginning of the program
leaves, and that of the whole program once every retired store is sent. -/
theorem computes_program (h : Machine.Reach m c) (hs : Throughout Supported ⟨fun _ => 0, m⟩ c.whole.words) :
    ∃ s n s', Computes ⟨fun _ => 0, m⟩ c.whole.words s ∧ s.regs = c.whole.archRegs ∧
      Computes ⟨fun _ => 0, m⟩ (c.whole.words.take n) s' ∧ s'.mem = c.system.mem ∧
      (c.whole.backend.stqLog.sent.length = c.whole.backend.stqLog.retired → s.mem = c.system.mem) := by
  have hall := Machine.Holds.of_reach h
  obtain ⟨n, hn, hmem⟩ := sent_before hall
  refine ⟨c.before m c.whole.core.committed, n, c.before m n, ?_, ?_, computes_take hall hs n hn, hmem.symm, ?_⟩
  · have htake := computes_take hall hs _ (Nat.le_refl _)
    rwa [← words_length hall.inv, List.take_length, words_length hall.inv] at htake
  · rw [archRegs_eq hall.inv, steps_length hall.inv]
    rfl
  · intro hdone
    rw [hall.fits.mem, hall.fits.stores, hall.fits.sent, hdone, hall.counted.retired]
    rfl

/-! `addi x1, x0, 5`, `sw x1, 64(x0)` and `lw x2, 59(x1)`: the load reads what was stored. -/

def programIn : Inputs :=
  { quietIn with fetchPkt := fun l =>
      if l = 0 then { inst := 0x00500093, packetValid := true }
      else if l = 1 then { inst := 0x04102023, pc := 4, packetValid := true }
      else if l = 2 then { inst := 0x03b0a103, pc := 8, packetValid := true }
      else {} }

def readyIn : Inputs := { drainIn with fireLdReady := true }

def programAfter : Nat → Machine
  | 0 => (Machine.init fun _ => 0).next programIn
  | n + 1 => (programAfter n).next readyIn

/-- The accesses are aligned, and no lookup meets a forward or a store that executes. -/
structure Machine.Calm (c : Machine) : Prop where
  access : (Lsq.executeStqValid (c.whole.lsqIn readyIn) || Lsq.executeLdqValid (c.whole.lsqIn readyIn)) = true →
    Lsq.Access (c.whole.state.pipeExecutePkt 6).result (c.whole.state.pipeExecutePkt 6).memSize
  once : (c.whole.state.lsq.stq.fwdValid &&
    (Stq.fwdSearch (Lsq.stqIn (c.whole.lsqIn readyIn) c.whole.state.lsq) c.whole.state.lsq.stq).2) = false
  apart : (Lsq.executeStqValid (c.whole.lsqIn readyIn) && c.whole.state.lsq.ldq.fireLdValid) = false

instance (c : Machine) : Decidable c.Calm := decidable_of_iff (_ ∧ _ ∧ _)
  ⟨fun h => ⟨h.1, h.2.1, h.2.2⟩, fun h => ⟨h.access, h.once, h.apart⟩⟩

theorem Machine.Calm.ok (h : c.Calm) : c.Ok readyIn where
  whole := ⟨⟨fun _ _ _ _ _ h => (by cases h), fun _ _ => rfl⟩, fun h => (by cases h), fun hr => by
    have honce := h.once
    rw [show c.whole.state.lsq.stq.fwdValid = true from hr.served.1, Bool.true_and] at honce
    exact absurd (honce.symm.trans hr.forwards) Bool.false_ne_true⟩
  access := h.access
  answer := fun h => by cases h
  seen := fun hm => by
    have hapart := h.apart
    rw [hm.executes, hm.fire] at hapart
    cases hapart

theorem programAfter_calm : ∀ n, n < 16 → (programAfter n).Calm := by decide +kernel

theorem programAfter_reach : ∀ n, n ≤ 16 → Machine.Reach (fun _ => 0) (programAfter n)
  | 0, _ => .step programIn .init
      ⟨ok_alone ⟨(show Contiguous _ by decide), fun h => by cases h⟩ rfl rfl, fun h => (by cases h),
        fun h => (by cases h), fun h => by cases h.executes⟩
  | n + 1, hn => .step readyIn (programAfter_reach n (by omega)) (programAfter_calm n (by omega)).ok

theorem loads_see_stores_forward : (programAfter 16).whole.core.trace.map Core.Flight.result = [some 5, none, some 5] ∧
    Gets (fun _ => 0) (programAfter 16).whole :=
  ⟨by decide +kernel, loads_see_stores (programAfter_reach 16 (Nat.le_refl _))⟩

theorem programAfter_words : (programAfter 16).whole.words = [(encode (.opImm .addi 1 0 5), 0),
    (encode (.store .sw 0 1 64), 4), (encode (.load .lw 2 1 59), 8)] := by decide +kernel

theorem programAfter_supported : ∀ x ∈ (programAfter 16).whole.words,
    (Decoder.control x.1).csrOp = false ∧ (Decoder.control x.1).aluFunc ≠ .mulhsu := by
  intro x hx
  rw [programAfter_words] at hx
  obtain ⟨i, hi, hcsr, hmul⟩ : ∃ i, x.1 = encode i ∧ (Decoder.controlOf i).csrOp = false ∧
      (Decoder.controlOf i).aluFunc ≠ .mulhsu := by
    simp only [List.mem_cons, List.not_mem_nil, or_false] at hx
    obtain rfl | rfl | rfl := hx
    · exact ⟨.opImm .addi 1 0 5, rfl, rfl, by decide⟩
    · exact ⟨.store .sw 0 1 64, rfl, rfl, by decide⟩
    · exact ⟨.load .lw 2 1 59, rfl, rfl, by decide⟩
  rw [hi, Decoder.control_encode]
  exact ⟨hcsr, hmul⟩

theorem computes_program_forward : (programAfter 16).whole.archRegs 2 = 5 ∧ (programAfter 16).system.mem 0x40 = 5 ∧
    ∃ s, Computes ⟨fun _ => 0, fun _ => 0⟩ (programAfter 16).whole.words s ∧
      s.regs = (programAfter 16).whole.archRegs := by
  have hstate : (programAfter 16).whole.archRegs 2 = 5 ∧ (programAfter 16).system.mem 0x40 = 5 := by decide +kernel
  obtain ⟨s, -, -, hall, hregs, -⟩ := computes_program (programAfter_reach 16 (Nat.le_refl _)) fun n s x i _ hn hi =>
    supported_of hi (programAfter_supported x (List.mem_of_getElem? hn)).1
      (programAfter_supported x (List.mem_of_getElem? hn)).2
  exact ⟨hstate.1, hstate.2, s, hall, hregs⟩

end

end R10K.Whole
