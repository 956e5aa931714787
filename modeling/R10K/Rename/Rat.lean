import R10K.Rename.Model

/-! The register alias table by itself (`rat.sv`).

A group of four lanes is renamed at once: what a lane reads is bypassed from the older
lanes of the group that write it, else comes from the map, and the last write of the
group stays in the map. The bypasses look neither at whether a lane is valid nor at
whether its destination is x0. They need not: a decoded lane that is not valid has no
destination, and a lane that writes x0 is given register 0, which x0 is mapped to. So the
group is renamed as if its lanes went one after the other. -/
namespace R10K.Rat
open Decoder
variable {P : Type} [Zero P]

/-- The inputs, for physical registers of any kind of number. -/
structure Inputs (P : Type) where
  arSrc1 : Lane → Arn
  arSrc2 : Lane → Arn
  arDest : Lane → Arn
  arSrc1Sel : Lane → Bool
  arSrc2Sel : Lane → Bool
  arDestSel : Lane → DestRegSel
  arValid : Lane → Bool
  prReady : Lane → Bool
  freePrn : Lane → P
  freePrnValid : Lane → Bool
  archRat : Arn → P
  recovArchSt : Bool

def arReady (i : Inputs P) (l : Lane) : Bool := i.prReady l

/-- `free_prn_ready`: the lane is accepted and has a destination other than x0. -/
def freePrnReady (i : Inputs P) (l : Lane) : Bool :=
  i.arDestSel l == .rd && i.arDest l != 0 && i.arValid l && (List.finRange 4).all (arReady i)

def nextPrDest (i : Inputs P) (l : Lane) : P :=
  if i.arDestSel l == .rd && i.arDest l != 0 then i.freePrn l else 0

/-- The dependency check of one register field of the four lanes. -/
def check (i : Inputs P) (rat : Arn → P) (sel : Lane → Bool) (ar : Lane → Arn) : Lane → P
  | 3 =>
    if sel 3 && i.arDestSel 2 == .rd && ar 3 == i.arDest 2 then nextPrDest i 2
    else if sel 3 && i.arDestSel 1 == .rd && ar 3 == i.arDest 1 then nextPrDest i 1
    else if sel 3 && i.arDestSel 0 == .rd && ar 3 == i.arDest 0 then nextPrDest i 0
    else if sel 3 then rat (ar 3) else 0
  | 2 =>
    if sel 2 && i.arDestSel 1 == .rd && ar 2 == i.arDest 1 then nextPrDest i 1
    else if sel 2 && i.arDestSel 0 == .rd && ar 2 == i.arDest 0 then nextPrDest i 0
    else if sel 2 then rat (ar 2) else 0
  | 1 =>
    if sel 1 && i.arDestSel 0 == .rd && ar 1 == i.arDest 0 then nextPrDest i 0
    else if sel 1 then rat (ar 1) else 0
  | 0 => if sel 0 then rat (ar 0) else 0

def nextPrSrc1 (i : Inputs P) (rat : Arn → P) : Lane → P := check i rat i.arSrc1Sel i.arSrc1
def nextPrSrc2 (i : Inputs P) (rat : Arn → P) : Lane → P := check i rat i.arSrc2Sel i.arSrc2
def nextPrDestPrev (i : Inputs P) (rat : Arn → P) : Lane → P :=
  check i rat (fun l => i.arDestSel l == .rd) i.arDest

/-- Lane `l` writes the map at `a`. -/
def writes (i : Inputs P) (l : Lane) (a : Arn) : Bool :=
  i.freePrnValid l && freePrnReady i l && a == i.arDest l

/-- One clock edge: of the assignments of one edge the last stands. -/
def next (i : Inputs P) (rat : Arn → P) (a : Arn) : P :=
  if i.recovArchSt then i.archRat a
  else if writes i 3 a then i.freePrn 3
  else if writes i 2 a then i.freePrn 2
  else if writes i 1 a then i.freePrn 1
  else if writes i 0 a then i.freePrn 0
  else rat a

/-- The inputs that a group of decoded lanes makes. -/
def decodedInputs (d : Lane → DecodePacket) (prReady : Lane → Bool) (freePrn : Lane → P)
    (freePrnValid : Lane → Bool) (archRat : Arn → P) (recovArchSt : Bool) : Inputs P where
  arSrc1 := fun l => (d l).op1Arn
  arSrc2 := fun l => (d l).op2Arn
  arDest := fun l => (d l).destArn
  arSrc1Sel := fun l => (d l).useOp1Arn
  arSrc2Sel := fun l => (d l).useOp2Arn
  arDestSel := fun l => (d l).destSelect
  arValid := fun l => (d l).packetValid
  prReady := prReady
  freePrn := freePrn
  freePrnValid := freePrnValid
  archRat := archRat
  recovArchSt := recovArchSt

/-! ### One lane at a time -/

/-- What renaming says of a lane. -/
@[ext] structure Renamed (P : Type) where
  prSrc1 : P
  prSrc2 : P
  prDest : P
  prDestPrev : P

/-- The lane writes a register other than x0. -/
def hasDest (d : DecodePacket) : Prop := d.packetValid = true ∧ d.destSelect = .rd ∧ d.destArn ≠ 0

instance (d : DecodePacket) : Decidable (hasDest d) := inferInstanceAs (Decidable (_ ∧ _))

/-- Renaming a single instruction: it reads the map and gets the register it is offered. -/
def renameOne (m : Arn → P) (d : DecodePacket) (free : P) : Renamed P where
  prSrc1 := if d.useOp1Arn then m d.op1Arn else 0
  prSrc2 := if d.useOp2Arn then m d.op2Arn else 0
  prDest := if hasDest d then free else 0
  prDestPrev := if d.destSelect = .rd then m d.destArn else 0

/-- The map a single instruction leaves. -/
def mapOne (m : Arn → P) (d : DecodePacket) (free : P) (a : Arn) : P :=
  if hasDest d ∧ a = d.destArn then free else m a

/-- The map the first `k` lanes leave, one after the other. -/
def mapTo (d : Lane → DecodePacket) (free : Lane → P) (m : Arn → P) (k : Nat) : Arn → P :=
  ((List.finRange 4).take k).foldl (fun m l => mapOne m (d l) (free l)) m

/-! ### The group at once is the lanes one at a time -/

/-- A lane that is not valid has no destination, as the decoder leaves it. -/
def Decoded (d : Lane → DecodePacket) : Prop := ∀ l, (d l).packetValid = false → (d l).destSelect ≠ .rd

theorem decoded_decode (p : Lane → FetchPacket) (alu : Lane → BitVec 2) :
    Decoded fun l => decode (p l) (alu l) := by
  intro l hv
  rw [(decode_invalid (alu l) hv).1]
  decide

section
variable {d : Lane → DecodePacket} {prReady : Lane → Bool} {freePrn : Lane → P}
  {freePrnValid : Lane → Bool} {archRat : Arn → P} {recovArchSt : Bool} {m : Arn → P}

theorem hasDest_iff (hd : Decoded d) (l : Lane) :
    hasDest (d l) ↔ (d l).destSelect = .rd ∧ (d l).destArn ≠ 0 := by
  refine ⟨fun h => h.2, fun h => ⟨?_, h⟩⟩
  by_contra hv
  exact hd l (Bool.eq_false_iff.2 hv) h.1

theorem nextPrDest_eq (hd : Decoded d) (l : Lane) :
    nextPrDest (decodedInputs d prReady freePrn freePrnValid archRat recovArchSt) l =
      if hasDest (d l) then freePrn l else 0 := by
  simp only [nextPrDest, decodedInputs, Bool.and_eq_true, beq_iff_eq, bne_iff_ne, hasDest_iff hd]

/-- No lane maps x0. -/
theorem mapOne_zero (l : Lane) (hz : m 0 = 0) : mapOne m (d l) (freePrn l) 0 = 0 := by
  rw [mapOne, if_neg fun h => h.1.2.2 h.2.symm, hz]

theorem mapTo_zero (k : Nat) (hz : m 0 = 0) : mapTo d freePrn m k 0 = 0 := by
  unfold mapTo
  induction (List.finRange 4).take k generalizing m with
  | nil => exact hz
  | cons l ls ih => exact ih (mapOne_zero l hz)

omit [Zero P] in
theorem mapTo_succ (l : Lane) :
    mapTo d freePrn m (l.val + 1) = mapOne (mapTo d freePrn m l.val) (d l) (freePrn l) := by
  have htake : (List.finRange 4).take (l.val + 1) = (List.finRange 4).take l.val ++ [l] := by
    revert l
    decide
  rw [mapTo, htake, List.foldl_append]
  rfl

/-- **A bypass from one older lane is that lane's own update of the map.** A match with a
destination x0 yields register 0, what x0 is mapped to. -/
theorem bypass_eq (hd : Decoded d) (hz : m 0 = 0) (l : Lane) (a : Arn) :
    (if (d l).destSelect = .rd ∧ a = (d l).destArn then
      nextPrDest (decodedInputs d prReady freePrn freePrnValid archRat recovArchSt) l else m a) =
    mapOne m (d l) (freePrn l) a := by
  rw [nextPrDest_eq hd, mapOne]
  by_cases hdest : hasDest (d l)
  · have hrd := ((hasDest_iff hd l).1 hdest).1
    simp only [hrd, hdest, true_and, if_true]
  · rw [if_neg hdest, if_neg (c := hasDest (d l) ∧ _) fun h => hdest h.1]
    split
    · rename_i hmatch
      have h0 : a = 0 := by
        by_contra hne
        exact hdest ((hasDest_iff hd l).2 ⟨hmatch.1, hmatch.2 ▸ hne⟩)
      rw [h0, hz]
    · rfl

/-- The map after a lane, as a bypass from it. -/
theorem mapTo_bypass (hd : Decoded d) (hz : m 0 = 0) (l : Lane) (a : Arn) :
    mapTo d freePrn m (l.val + 1) a = if (d l).destSelect = .rd ∧ a = (d l).destArn then
      nextPrDest (decodedInputs d prReady freePrn freePrnValid archRat recovArchSt) l
      else mapTo d freePrn m l.val a := by
  rw [mapTo_succ, ← bypass_eq hd (mapTo_zero l.val hz)]

/-- The check of a lane sees the map that the lanes before it leave. -/
theorem check_eq (hd : Decoded d) (hz : m 0 = 0) (sel : Lane → Bool) (ar : Lane → Arn) (l : Lane) :
    check (decodedInputs d prReady freePrn freePrnValid archRat recovArchSt) m sel ar l =
      if sel l then mapTo d freePrn m l.val (ar l) else 0 := by
  have h0 : ∀ a, mapTo d freePrn m 0 a = m a := fun _ => rfl
  have hb : ∀ k l, l.val = k → ∀ a, mapTo d freePrn m (k + 1) a =
      if (d l).destSelect = .rd ∧ a = (d l).destArn then
        nextPrDest (decodedInputs d prReady freePrn freePrnValid archRat recovArchSt) l
      else mapTo d freePrn m k a := by
    rintro _ l rfl
    exact mapTo_bypass hd hz l
  cases hs : sel l with
  | false =>
    rw [if_neg Bool.false_ne_true]
    match l, hs with
    | 0, hs | 1, hs | 2, hs | 3, hs =>
      simp only [check, hs, Bool.false_and, Bool.false_eq_true, if_false]
  | true =>
    rw [if_pos rfl]
    match l, hs with
    | 0, hs =>
      simp only [check, hs, if_true]
      exact (h0 _).symm
    | 1, hs =>
      simp only [check, hs, Bool.true_and, Bool.and_eq_true, beq_iff_eq, if_true]
      show _ = mapTo d freePrn m (0 + 1) _
      rw [hb 0 0 rfl, h0]
      rfl
    | 2, hs =>
      simp only [check, hs, Bool.true_and, Bool.and_eq_true, beq_iff_eq, if_true]
      show _ = mapTo d freePrn m (1 + 1) _
      rw [hb 1 1 rfl, hb 0 0 rfl, h0]
      rfl
    | 3, hs =>
      simp only [check, hs, Bool.true_and, Bool.and_eq_true, beq_iff_eq, if_true]
      show _ = mapTo d freePrn m (2 + 1) _
      rw [hb 2 2 rfl, hb 1 1 rfl, hb 0 0 rfl, h0]
      rfl

omit [Zero P] in
/-- The last write of the group is the last update of the map. -/
theorem next_eq (hready : ∀ l, prReady l = true) (hfree : ∀ l, freePrnValid l = true) :
    next (decodedInputs d prReady freePrn freePrnValid archRat false) m = mapTo d freePrn m 4 := by
  have hw : ∀ l a, writes (decodedInputs d prReady freePrn freePrnValid archRat false) l a = true ↔
      hasDest (d l) ∧ a = (d l).destArn := by
    intro l a
    have hall : (List.finRange 4).all (arReady
        (decodedInputs d prReady freePrn freePrnValid archRat false)) = true :=
      List.all_eq_true.2 fun l _ => hready l
    rw [writes, freePrnReady, hall, Bool.and_true]
    simp only [decodedInputs, hfree, Bool.true_and, Bool.and_eq_true, beq_iff_eq, bne_iff_ne]
    unfold hasDest
    tauto
  funext a
  have hfour : mapTo d freePrn m 4 a = mapOne (mapOne (mapOne (mapOne m (d 0) (freePrn 0)) (d 1)
    (freePrn 1)) (d 2) (freePrn 2)) (d 3) (freePrn 3) a := rfl
  rw [hfour]
  simp only [next, hw, mapOne]
  rfl

end

/-- **Parallel renaming is sequential renaming.** What every lane of a group that is taken
reads, is given and displaces is what renaming it by itself says, over the map left by the
lanes before it, and the map of the next cycle is the one the four lanes leave. -/
theorem rename_sequential (p : Lane → FetchPacket) (alu : Lane → BitVec 2) (prReady : Lane → Bool)
    (freePrn : Lane → P) (freePrnValid : Lane → Bool) (archRat : Arn → P) (recovArchSt : Bool)
    (rat : Arn → P) (hz : rat 0 = 0) (hready : ∀ l, prReady l = true)
    (hfree : ∀ l, freePrnValid l = true) :
    let d := fun l => decode (p l) (alu l)
    let i := decodedInputs d prReady freePrn freePrnValid archRat recovArchSt
    (∀ l, Renamed.mk (nextPrSrc1 i rat l) (nextPrSrc2 i rat l) (nextPrDest i l) (nextPrDestPrev i rat l) =
      renameOne (mapTo d freePrn rat l.val) (d l) (freePrn l)) ∧
    (recovArchSt = false → next i rat = mapTo d freePrn rat 4) ∧
    ((recovArchSt = true → archRat 0 = 0) → next i rat 0 = 0) := by
  intro d i
  have hd : Decoded d := decoded_decode p alu
  refine ⟨fun l => ?_, ?_, ?_⟩
  · ext
    · exact check_eq hd hz _ _ l
    · exact check_eq hd hz _ _ l
    · exact nextPrDest_eq hd l
    · show check i rat (fun l => (d l).destSelect == .rd) (fun l => (d l).destArn) l = _
      rw [check_eq hd hz]
      simp only [beq_iff_eq]
      rfl
  · rintro rfl
    exact next_eq hready hfree
  · intro harch
    cases hr : recovArchSt with
    | true => simpa [i, next, decodedInputs, hr] using harch hr
    | false =>
      have hnext : next i rat = mapTo d freePrn rat 4 := by
        subst hr
        exact next_eq hready hfree
      rw [hnext, mapTo_zero 4 hz]

/-- The group of `addi x1, x0, 5` and `add x1, x1, x1`, with two empty lanes. -/
def pair : Lane → FetchPacket
  | 0 => { inst := 0x00500093, packetValid := true }
  | 1 => { inst := 0x001080b3, packetValid := true }
  | _ => {}

/-- The second instruction reads the first one's register, and its own is the one kept. -/
theorem rename_sequential_pair :
    let free : Lane → BitVec 7 := fun l => BitVec.ofNat 7 (40 + l.val)
    let d := fun l => decode (pair l) 0
    let i := decodedInputs d (fun _ => true) free (fun _ => true) (fun _ => 0) false
    nextPrSrc1 i (fun _ => 0) 1 = 40 ∧ nextPrDestPrev i (fun _ => 0) 1 = 40 ∧
      next i (fun _ => 0) 1 = 41 ∧ next i (fun _ => 0) 0 = 0 := by
  have h := rename_sequential pair (fun _ => 0) (fun _ => true) (fun l => BitVec.ofNat 7 (40 + l.val))
    (fun _ => true) (fun _ => 0) false (fun _ => 0) rfl (fun _ => rfl) (fun _ => rfl)
  refine ⟨?_, ?_, ?_, h.2.2 (fun hr => nomatch hr)⟩
  · exact (congrArg Renamed.prSrc1 (h.1 1)).trans (by decide)
  · exact (congrArg Renamed.prDestPrev (h.1 1)).trans (by decide)
  · exact (congrFun (h.2.1 rfl) 1).trans (by decide)

/-! ### In the decode and rename stage -/

/-- The inputs that the stage makes. -/
def ratInputs (i : Rename.Inputs) (s : Rename.State) : Inputs Prn :=
  decodedInputs (Rename.decoded i s) i.renamePktReady (Rename.freePrn i s) (Rename.freePrnValid i s)
    i.archRat i.recovArchSt

section
variable {i : Rename.Inputs} {s : Rename.State}

/-- A search for a lane, one lane at a time. -/
theorem find_cons {β : Type} (f : Lane → Bool) (g : Lane → β) (r : β) (l : Lane) (ls : List Lane) :
    (((l :: ls).find? f).map g).getD r = if f l then g l else ((ls.find? f).map g).getD r := by
  rw [List.find?_cons]
  cases f l <;> rfl

/-- The checks of the four lanes look for the youngest older lane that writes the register. -/
theorem check_lookup (sel : Lane → Bool) (ar : Lane → Arn) (l : Lane) :
    check (ratInputs i s) s.rat sel ar l = if sel l then Rename.lookup i s l (ar l) else 0 := by
  have hlook : ∀ l a, Rename.lookup i s l a =
      ((((List.finRange 4).take l.val).reverse.find? fun m =>
        (Rename.decoded i s m).destSelect == .rd && a == (Rename.decoded i s m).destArn).map
          (Rename.prDest i s)).getD (s.rat a) := by
    intro l a
    rw [Rename.lookup, Rename.depLane]
    split <;> rename_i h <;> rw [h] <;> rfl
  cases hs : sel l with
  | false =>
    rw [if_neg Bool.false_ne_true]
    match l, hs with
    | 0, hs | 1, hs | 2, hs | 3, hs =>
      simp only [check, hs, Bool.false_and, Bool.false_eq_true, if_false]
  | true =>
    rw [if_pos rfl]
    match l, hs with
    | 0, hs =>
      simp only [check, hs, if_true]
      rfl
    | 1, hs =>
      simp only [check, hs, Bool.true_and, if_true]
      rw [hlook, show ((List.finRange 4).take (1 : Lane).val).reverse = [0] from rfl, find_cons]
      rfl
    | 2, hs =>
      simp only [check, hs, Bool.true_and, if_true]
      rw [hlook, show ((List.finRange 4).take (2 : Lane).val).reverse = [1, 0] from rfl, find_cons,
        find_cons]
      rfl
    | 3, hs =>
      simp only [check, hs, Bool.true_and, if_true]
      rw [hlook, show ((List.finRange 4).take (3 : Lane).val).reverse = [2, 1, 0] from rfl, find_cons,
        find_cons, find_cons]
      rfl

/-- **The stage renames through this table.** -/
theorem stage_eq (l : Lane) : nextPrSrc1 (ratInputs i s) s.rat l = Rename.prSrc1 i s l ∧
    nextPrSrc2 (ratInputs i s) s.rat l = Rename.prSrc2 i s l ∧
    nextPrDest (ratInputs i s) l = Rename.prDest i s l ∧
    nextPrDestPrev (ratInputs i s) s.rat l = Rename.prDestPrev i s l :=
  ⟨check_lookup _ _ l, check_lookup _ _ l, rfl, check_lookup _ _ l⟩

theorem stage_next : next (ratInputs i s) s.rat = (Rename.next i s).rat := by
  funext a
  have hfour : List.finRange 4 = [0, 1, 2, 3] := rfl
  simp only [next, Rename.next, Rename.nextRat, hfour, List.foldl_cons, List.foldl_nil]
  rfl

end

end R10K.Rat
