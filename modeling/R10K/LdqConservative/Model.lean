import R10K.Ldq.Model

/-! The load queue that waits (`ldq_conservative.sv`).

It stands in the place of `ldq.sv` when the unit is built conservative, with the same ports
less those of the executing store, the same registers, slots and pointers. A load fires only
when every store of its mask has its address, so it never has to fail: there is no violation,
and `order_fail` is not used. A result is offered as soon as its datum is there. -/
namespace R10K.LdqConservative
open Lanes Lsq Ldq

/-! ### Firing -/

/-- `ld_wakeup_N`: the load and all stores it depends on have their addresses, and no datum,
sleep or request stands. -/
def ldWakeup (i : Inputs) (s : State) (k : LdqTag) : Bool :=
  let e := s.ldqEntry k
  e.entryValid && e.addrValid && !e.dataValid && !e.sleep &&
    !(e.fired || (fireLdAccept i s && k == s.fireLdLdqTag)) &&
    !(i.fwdValid && k == i.fwdLdqTag) &&
    decide (∀ t, (e.stMask t && stqAddrValid i t) = e.stMask t)

def fireLdqIdx (i : Inputs) (s : State) : LdqTag := lowest (ldWakeup i s)

/-- `fire_ld_kill`: forwarding served the load or puts it to sleep. -/
def fireLdKill (i : Inputs) (k : LdqTag) : Bool := k == i.fwdLdqTag && (i.fwdValid || i.fwdSleep)

/-! ### Writeback -/

def fwdDataAccept (i : Inputs) (k : LdqTag) : Bool := k == i.fwdLdqTag && i.fwdValid

def dcacheDataAccept (i : Inputs) (k : LdqTag) : Bool :=
  k == i.dcacheLdqTag && i.dcacheValid && !fireLdKill i i.dcacheLdqTag

/-- `ld_writeback_N`: a datum stands or comes in, and was not written back. -/
def ldWriteback (i : Inputs) (s : State) (k : LdqTag) : Bool :=
  let e := s.ldqEntry k
  (e.dataValid && !e.writebacked) || (fwdDataAccept i k && !e.writebacked) ||
    (dcacheDataAccept i k && !e.writebacked)

def writebackLdqIdx (i : Inputs) (s : State) : LdqTag := lowest (ldWriteback i s)

def writebackValid (i : Inputs) (s : State) : Bool := decide (∃ k, ldWriteback i s k = true)

def writebackData (i : Inputs) (s : State) : BitVec 32 :=
  let k := writebackLdqIdx i s
  if k == i.fwdLdqTag && i.fwdValid then i.fwdData
  else if k == i.dcacheLdqTag && i.dcacheValid && !fireLdKill i i.dcacheLdqTag then i.dcacheData
  else (s.ldqEntry k).data

def writebackPc (i : Inputs) (s : State) : BitVec 32 := (s.ldqEntry (writebackLdqIdx i s)).pc
def writebackDestPrn (i : Inputs) (s : State) : Prn := (s.ldqEntry (writebackLdqIdx i s)).destPrn
def writebackRobTag (i : Inputs) (s : State) : RobTag := (s.ldqEntry (writebackLdqIdx i s)).robTag

/-- The result is taken. -/
def writebackAccept (i : Inputs) (s : State) (k : LdqTag) : Bool :=
  k == writebackLdqIdx i s && writebackValid i s && i.writebackReady

/-! ### The clock edge, update by update -/

def updateSleep (i : Inputs) (s : State) (k : LdqTag) (e : LdqEntry) : LdqEntry :=
  if k == i.fwdLdqTag && i.fwdSleep then
    if fireStAccept i && i.fireStStqTag == i.fwdStqTag then { e with sleep := false }
    else { e with sleep := true, fwdStqTag := i.fwdStqTag }
  else if (s.ldqEntry k).fwdStqTag == i.fireStStqTag && fireStAccept i then { e with sleep := false }
  else e

def updateFired (i : Inputs) (s : State) (k : LdqTag) (e : LdqEntry) : LdqEntry :=
  if k == s.fireLdLdqTag && fireLdAccept i s then { e with fired := !fireLdKill i k }
  else if k == i.fwdLdqTag && i.fwdSleep then { e with fired := false }
  else e

def writeData (i : Inputs) (k : LdqTag) (e : LdqEntry) : LdqEntry :=
  if fwdDataAccept i k then { e with data := i.fwdData, dataValid := true }
  else if dcacheDataAccept i k then { e with data := i.dcacheData, dataValid := true }
  else e

def writeback (i : Inputs) (s : State) (k : LdqTag) (e : LdqEntry) : LdqEntry :=
  if writebackAccept i s k && (s.ldqEntry k).entryValid then { e with writebacked := true } else e

/-- What a flush clears of an entry; `order_fail` is left alone. -/
def flushed (e : LdqEntry) : LdqEntry :=
  { e with
    entryValid := false
    addrValid := false
    stMask := fun _ => false
    stYoungest := 0
    fwdStqTag := 0
    sleep := false
    fired := false
    dataValid := false
    writebacked := false }

def nextEntry (i : Inputs) (s : State) (k : LdqTag) : LdqEntry :=
  let e := s.ldqEntry k
  if i.pipeFlush then flushed e
  else retire i k (writeback i s k (writeData i k (updateFired i s k (updateSleep i s k
    (updateStMask i (writeAddr i k (allocate i s k e)))))))

def next (i : Inputs) (s : State) : State :=
  let k := fireLdqIdx i s
  let e := s.ldqEntry k
  { ldqEntry := nextEntry i s
    headPtr := if i.pipeFlush then 0 else nextHeadPtr i s
    tailPtr := if i.pipeFlush then 0 else nextTailPtr i s
    headPosBit := if i.pipeFlush then false else nextHeadPosBit i s
    tailPosBit := if i.pipeFlush then false else nextTailPosBit i s
    fireLdAddr := e.addr
    fireLdDataSize := e.dataSize
    fireLdLdqTag := k
    fireLdStMask := e.stMask
    fireLdStYoungest := e.stYoungest
    fireLdValid := !i.pipeFlush && ldWakeup i s k }

end R10K.LdqConservative
