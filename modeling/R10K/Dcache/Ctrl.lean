import R10K.Dcache.Array

/-! The controller of the data cache (`dcache_ctrl.sv`).

It serves one request at a time. A request is registered, then presented to the array, and
is decided in the cycle `CHK_HIT`; a miss writes the victim back if it is dirty, reads the
line as four doublewords and writes it into the array. -/
namespace R10K.Dcache
open Cache

inductive CtrlSt where
  | idle | chkHit | dirtyWb | rdL2Req | rdL2Ack | wrL1 | fetchAfterMiss
deriving DecidableEq, Repr

structure Inputs where
  dmem2procResponse : BitVec 4 := 0
  dmem2procData : BitVec 64 := 0
  dmem2procTag : BitVec 4 := 0
  reqAddr : BitVec 32 := 0
  reqSize : BitVec 3 := 0
  reqStData : BitVec 32 := 0
  reqCommand : BusCommand := .busNone
  reqValid : Bool := false

/-- The registers. The refill buffer is kept as its doublewords. -/
structure State where
  refillBuf : Fin 4 → BitVec 64
  refillBufValid : Fin 4 → Bool
  refillReqPtr : BitVec 2
  refillRspPtr : BitVec 2
  refillMemTag : Fin 4 → BitVec 4
  writebackPtr : BitVec 2
  proc2dmemCommandPipe : BusCommand
  currReqAddr : BitVec 32
  currReqSize : BitVec 3
  currReqStData : BitVec 32
  currReqCommand : BusCommand
  currSt : CtrlSt
  array : ArrayState

def reset (tagSram : CacheWay → Sram Tag) (dataSram : CacheWay → Sram Block) : State where
  refillBuf := fun _ => 0
  refillBufValid := fun _ => false
  refillReqPtr := 0
  refillRspPtr := 0
  refillMemTag := fun _ => 0
  writebackPtr := 0
  proc2dmemCommandPipe := .busNone
  currReqAddr := 0
  currReqSize := 0
  currReqStData := 0
  currReqCommand := .busNone
  currSt := .idle
  array := resetArray tagSram dataSram

variable (i : Inputs) (s : State)

/-! ### The request and the array -/

def reqReady : Bool :=
  s.currSt == .idle || s.currSt == .wrL1 || (s.currSt == .chkHit && hit s.array)

def reqAccept : Bool := i.reqValid && reqReady s

def stEn : Bool :=
  (s.currSt == .chkHit && hit s.array && s.currReqCommand == .busStore) ||
    (s.currSt == .wrL1 && s.currReqCommand == .busStore)

def refillEn : Bool := s.currSt == .wrL1

/-- `refill_line`: the bytes of the refill buffer. -/
def refillLine : Block := fun k =>
  (s.refillBuf (Fin.ofNat 4 (k.toNat / 8))).extractLsb' (k.toNat % 8 * 8) 8

/-- The ports of `u_dcache_array`. -/
def arrayIn : ArrayInputs where
  addr := s.currReqAddr
  size := s.currReqSize
  refillLine := refillLine s
  refillEn := refillEn s
  stData := s.currReqStData
  stEn := stEn s

def rspValid : Bool := hit s.array

/-- `rsp_data`, which is eight bits wide. -/
def rspData : Option (BitVec 8) := (rdData s.array).map (BitVec.setWidth 8)

/-! ### The memory -/

def proc2dmemCommand : BusCommand :=
  match s.currSt with
  | .rdL2Req => .busLoad
  | .dirtyWb => .busStore
  | _ => .busNone

def proc2dmemAddr : BitVec 32 :=
  match s.currSt with
  | .rdL2Req => lineBase s.currReqAddr + s.refillReqPtr.setWidth 32 * 8
  | .dirtyWb => lineBase (dirtyAddr (arrayIn s) s.array) + s.writebackPtr.setWidth 32 * 8
  | _ => 0

/-- `refill_buf_valid` is all ones. -/
def refillFull : Bool := (List.finRange 4).all s.refillBufValid

/-- The memory answers a tag that is recorded for this doubleword. -/
def refillHit (k : Fin 4) : Bool := i.dmem2procTag != 0 && i.dmem2procTag == s.refillMemTag k

/-! ### The clock edge -/

def nextSt : CtrlSt :=
  match s.currSt with
  | .idle => if reqAccept i s then .chkHit else .idle
  | .chkHit =>
    if hit s.array then if reqAccept i s then .chkHit else .idle
    else if dirty (arrayIn s) s.array then .dirtyWb
    else .rdL2Req
  | .dirtyWb => if s.writebackPtr.toNat = 4 then .rdL2Req else .dirtyWb
  | .rdL2Req => if s.refillReqPtr.toNat = 3 then .rdL2Ack else .rdL2Req
  | .rdL2Ack => if refillFull s then .wrL1 else .rdL2Ack
  | .wrL1 => if i.reqValid then .fetchAfterMiss else .idle
  | .fetchAfterMiss => .chkHit

def next : State where
  refillBuf := fun k =>
    if refillHit i s k then i.dmem2procData
    else if s.currSt = .wrL1 then 0
    else s.refillBuf k
  refillBufValid := fun k =>
    if refillHit i s k then true
    else if s.currSt = .wrL1 then false
    else s.refillBufValid k
  refillReqPtr :=
    if refillFull s then 0
    else if proc2dmemCommand s = .busLoad then s.refillReqPtr + 1
    else s.refillReqPtr
  refillRspPtr :=
    if refillFull s then 0
    else if i.dmem2procResponse != 0 && s.currSt == .rdL2Req then s.refillRspPtr + 1
    else s.refillRspPtr
  refillMemTag := fun k =>
    if refillFull s then 0
    else if k.val == s.refillRspPtr.toNat && s.proc2dmemCommandPipe == .busLoad &&
      i.dmem2procResponse != 0 then i.dmem2procResponse
    else s.refillMemTag k
  writebackPtr :=
    if s.writebackPtr.toNat = 4 then 0
    else if s.proc2dmemCommandPipe == .busStore && i.dmem2procResponse != 0 then s.writebackPtr + 1
    else s.writebackPtr
  proc2dmemCommandPipe := proc2dmemCommand s
  currReqAddr :=
    if reqAccept i s then i.reqAddr else if nextSt i s = .idle then 0 else s.currReqAddr
  currReqSize :=
    if reqAccept i s then i.reqSize else if nextSt i s = .idle then 0 else s.currReqSize
  currReqStData :=
    if reqAccept i s then i.reqStData else if nextSt i s = .idle then 0 else s.currReqStData
  currReqCommand :=
    if reqAccept i s then i.reqCommand else if nextSt i s = .idle then .busNone else s.currReqCommand
  currSt := nextSt i s
  array := nextArray (arrayIn s) s.array

end R10K.Dcache
