import R10K.Cache.Sets

/-! The memory (`mem.sv`).

Fifteen tags, each with a counter of the cycles it is still taken. In one loop over the
tags an edge counts them down, gives the first free one to the command, and puts the data of
the first load whose counter has run out on the bus. -/
namespace R10K.Mem
open Cache

/-- The tags `NUM_MEM_TAGS:1`, from 0 on. -/
abbrev MemTag := Fin 15

/-- A tag as the buses show it; 0 is none. -/
def tagBus (k : MemTag) : BitVec 4 := BitVec.ofNat 4 (k.val + 1)

/-- `proc2mem_addr[31:3]`. -/
abbrev Line := BitVec 29

structure Inputs where
  proc2memAddr : BitVec 32 := 0
  proc2memData : BitVec 64 := 0
  proc2memCommand : BusCommand := .busNone

/-- The arrays and the output registers. `mem2proc_data` is unknown while no tag is shown. -/
structure State where
  unifiedMemory : Line → BitVec 64
  loadedData : MemTag → BitVec 64
  cyclesLeft : MemTag → BitVec 16
  waitingForBus : MemTag → Bool
  mem2procResponse : BitVec 4
  mem2procData : Option (BitVec 64)
  mem2procTag : BitVec 4

/-- The `initial` block, with the memory loaded. `loaded_data` has no value yet. -/
def init (memory : Line → BitVec 64) (loaded : MemTag → BitVec 64) : State where
  unifiedMemory := memory
  loadedData := loaded
  cyclesLeft := fun _ => 0
  waitingForBus := fun _ => false
  mem2procResponse := 0
  mem2procData := none
  mem2procTag := 0

def lineAt (addr : BitVec 32) : Line := addr.extractLsb' 3 29

def validAddress (i : Inputs) : Bool := i.proc2memAddr.extractLsb' 0 3 == 0 && decide (i.proc2memAddr.toNat < 64 * 1024)

/-- The initial `acquire_tag` of an edge. -/
def acquires (i : Inputs) : Bool :=
  (i.proc2memCommand == .busLoad || i.proc2memCommand == .busStore) && validAddress i

/-- The variables that the loop assigns. -/
structure Vars where
  unifiedMemory : Line → BitVec 64
  loadedData : MemTag → BitVec 64
  cyclesLeft : MemTag → BitVec 16
  waitingForBus : MemTag → Bool
  acquireTag : Bool
  busFilled : Bool
  response : BitVec 4
  data : Option (BitVec 64)
  tag : BitVec 4

section
variable (latency : BitVec 16) (i : Inputs)

/-- The tag counts down, or is taken by the command. -/
def acquire (v : Vars) (k : MemTag) : Vars :=
  if v.cyclesLeft k > 0 then
    { v with cyclesLeft := fun j => if j = k then v.cyclesLeft k - 1 else v.cyclesLeft j }
  else if v.acquireTag && !v.waitingForBus k then
    let v := { v with
      response := tagBus k
      acquireTag := false
      cyclesLeft := fun j => if j = k then latency else v.cyclesLeft j }
    if i.proc2memCommand = .busLoad then
      { v with
        waitingForBus := fun j => if j = k then true else v.waitingForBus j
        loadedData := fun j => if j = k then v.unifiedMemory (lineAt i.proc2memAddr) else v.loadedData j }
    else
      { v with unifiedMemory := fun l => if l = lineAt i.proc2memAddr then i.proc2memData else v.unifiedMemory l }
  else v

/-- The tag takes the bus. -/
def fillBus (v : Vars) (k : MemTag) : Vars :=
  if v.cyclesLeft k = 0 ∧ v.waitingForBus k = true ∧ v.busFilled = false then
    { v with
      busFilled := true
      tag := tagBus k
      data := some (v.loadedData k)
      waitingForBus := fun j => if j = k then false else v.waitingForBus j }
  else v

def visit (v : Vars) (k : MemTag) : Vars := fillBus (acquire latency i v k) k

def start (s : State) : Vars where
  unifiedMemory := s.unifiedMemory
  loadedData := s.loadedData
  cyclesLeft := s.cyclesLeft
  waitingForBus := s.waitingForBus
  acquireTag := acquires i
  busFilled := false
  response := 0
  data := none
  tag := 0

/-- The loop over the tags. -/
def loop (s : State) : Vars := (List.finRange 15).foldl (visit latency i) (start i s)

def next (s : State) : State :=
  let v := loop latency i s
  { unifiedMemory := v.unifiedMemory
    loadedData := v.loadedData
    cyclesLeft := v.cyclesLeft
    waitingForBus := v.waitingForBus
    mem2procResponse := v.response
    mem2procData := v.data
    mem2procTag := v.tag }

end

end R10K.Mem
