/-
The lock-step tool: two SoftSDV processes compare what they execute (`lockstep.cpp`,
`arch_x86/lockstep_x86.cpp`).

Each process hashes its instructions and DMA writes.  After a number of instructions it puts
the checksum into the buffer that the other one reads, waits for the other's checksum, and
compares.  The two buffers are files in shared memory, and anything may be in them when the
processes start; each process first says hello, and the other may find a hello of an earlier
run.

Each access to a word or a digest byte of a buffer is a step of its own, and the steps of the
two processes interleave in any order.  A loop that waits takes a step when it finds what it
waits for.
-/
import AsimFeeder.SoftSDV.Md5
import AsimFeeder.Lib.Runs

namespace AsimFeeder.SoftSDV.Lockstep

/-! ### What is hashed -/

def quadBytes (q : UInt64) : List UInt8 :=
  wordBytes q.toUInt32 ++ wordBytes (q >>> 32).toUInt32

/-- The fields of a `cpuapi_inst_memory_access_t` that are hashed; `data` has `size` bytes. -/
structure MemoryAccess where
  access : UInt32
  origin : UInt32
  virt_mem_addr : UInt64
  phy_mem_addr : UInt64
  data : Piece
deriving DecidableEq

/-- What `NewInstr` and `DMA` are called with. -/
inductive Event
  | instr (cpuNum : UInt32) (icount pa va : UInt64) (instBytes : Piece)
    (access_list : List MemoryAccess)
  | dma (addr size : UInt64)
deriving DecidableEq

def word (w : UInt32) : Piece := ⟨wordBytes w, by simp⟩

def quad (q : UInt64) : Piece := ⟨quadBytes q, by simp [quadBytes]⟩

/-- The calls of `NoteInstrData`. -/
def Event.pieces : Event → List Piece
  | .instr cpuNum icount pa va instBytes access_list =>
      [word cpuNum, quad icount, quad pa, quad va, instBytes] ++
        access_list.flatMap fun a =>
          [word a.access, word a.origin, quad a.virt_mem_addr, quad a.phy_mem_addr, a.data]
  | .dma addr size => [quad addr, quad size]

def MAX_DATA_REFS : Nat := 8

/-- What the history keeps of an event (`SetInstr`, `SetDMA`). -/
def Event.entry : Event → Event
  | .instr cpuNum icount pa va instBytes access_list =>
      .instr cpuNum icount pa va instBytes (access_list.take MAX_DATA_REFS)
  | .dma addr size => .dma addr size

/-! ### The processes and their buffers -/

inductive Side
  | left
  | right
deriving DecidableEq, Repr

def Side.other : Side → Side
  | .left => .right
  | .right => .left

@[simp] theorem Side.other_other (x : Side) : x.other.other = x := by cases x <;> rfl

@[simp] theorem Side.other_ne (x : Side) : x.other ≠ x := by cases x <;> decide

/-- `LOCKSTEP_COMM_BUFFER_CLASS`: the 16 bytes of a digest, and a word. -/
structure CommBuffer where
  md5_digest : Nat → UInt8
  ready : Nat

def CommBuffer.setReady (b : CommBuffer) (ready : Nat) : CommBuffer := { b with ready }

def CommBuffer.setByte (b : CommBuffer) (i : Nat) (v : UInt8) : CommBuffer :=
  { b with md5_digest := Function.update b.md5_digest i v }

/-- Where a process is: the access that is next. -/
inductive Pc
  | mapOut
  | mapIn
  | zeroOut (i : Nat)
  | hello
  | waitHello
  | takeHello
  | run
  | waitOut
  | copyOut (i : Nat)
  | publish
  | waitIn
  | compareIn (i : Nat) (same : Bool)
  | readHello (same : Bool)
  | ackIn (same hello : Bool)
deriving DecidableEq, Repr

/-- What both objects are constructed with. -/
structure Params where
  interval : Nat
  nHistoryInstrs : Nat

/-- A process: its objects, and beside them what it has executed since and how its comparisons
ended. -/
structure Process where
  pc : Pc
  newInstrsMD5 : MD5
  history : Nat → Option Event
  historyLast : Nat
  instCount : Nat
  nInstrsDumped : Nat
  streamsSame : Bool
  dumped : List Event
  events : List Event
  verdicts : List Bool

namespace Process

/-- The constructors, up to the first access to a buffer; `m` is what was in memory. -/
def new (m : MD5) : Process where
  pc := .mapOut
  newInstrsMD5 := m.reset
  history := fun _ => none
  historyLast := 0
  instCount := 0
  nInstrsDumped := 0
  streamsSame := true
  dumped := []
  events := []
  verdicts := []

/-- One slot on, in the history. -/
def nextSlot (n i : Nat) : Nat := if i + 1 = n then 0 else i + 1

/-- An event goes into the history and into the checksum. -/
def note (P : Params) (p : Process) (e : Event) : Process :=
  let historyLast := nextSlot P.nHistoryInstrs p.historyLast
  { p with
    historyLast
    history := Function.update p.history historyLast (some e.entry)
    newInstrsMD5 := e.pieces.foldl MD5.update p.newInstrsMD5
    events := p.events ++ [e] }

/-- `NewInstr` and `DMA`, up to the call of `CompareProcesses` where that is due. -/
def execute (P : Params) (p : Process) (e : Event) : Process :=
  if p.streamsSame then
    match e with
    | .dma _ _ => p.note P e
    | .instr .. =>
        let p := p.note P e
        let p := { p with instCount := p.instCount + 1 }
        if P.interval ≤ p.instCount then
          { p with newInstrsMD5 := p.newInstrsMD5.finalize, pc := .waitOut }
        else p
  else if p.nInstrsDumped < 1024 then
    match e with
    | .dma _ _ => { p with dumped := p.dumped ++ [e] }
    | .instr .. => { p with dumped := p.dumped ++ [e], nInstrsDumped := p.nInstrsDumped + 1 }
  else p

/-- The history from slot `i` up to the last one, which is not printed. -/
def printHistory (n : Nat) (history : Nat → Option Event) (last : Nat) : Nat → Nat → List Event
  | 0, _ => []
  | fuel + 1, i =>
      if i = last then []
      else (history i).toList ++ printHistory n history last fuel (nextSlot n i)

/-- The end of `CompareProcesses`, and of the `NewInstr` that called it. -/
def compared (P : Params) (p : Process) (same : Bool) : Process :=
  { p with
    newInstrsMD5 := p.newInstrsMD5.reset
    streamsSame := same
    instCount := 0
    dumped :=
      if same then p.dumped
      else p.dumped ++ printHistory P.nHistoryInstrs p.history p.historyLast P.nHistoryInstrs
        (nextSlot P.nHistoryInstrs p.historyLast)
    verdicts := p.verdicts ++ [same]
    pc := .run }

def goto (p : Process) (pc : Pc) : Process := { p with pc }

/-- Byte `i` of the digest of this process. -/
def digestByte (p : Process) (i : Nat) : UInt8 := p.newInstrsMD5.digest.getD i 0

/-- The next byte of a digest, or what follows the last one. -/
def nextByte (i : Nat) (again : Nat → Pc) (done : Pc) : Pc :=
  if i + 1 < 16 then again (i + 1) else done

/-- One access of a process to its buffers (`dataOut`, `dataIn`), or one event that it executes.
`mapOut` and `mapIn` write a zero to the last byte of each file. -/
def step (P : Params) (e : Event) (p : Process) (out inb : CommBuffer) :
    Option (Process × CommBuffer × CommBuffer) :=
  match p.pc with
  | .mapOut => some (p.goto .mapIn, out.setReady (out.ready % 2 ^ 24), inb)
  | .mapIn => some (p.goto (.zeroOut 0), out, inb.setReady (inb.ready % 2 ^ 24))
  | .zeroOut i => some (p.goto (nextByte i .zeroOut .hello), out.setByte i 0, inb)
  | .hello => some (p.goto .waitHello, out.setReady 2, inb)
  | .waitHello => if inb.ready = 2 then some (p.goto .takeHello, out, inb) else none
  | .takeHello => some (p.goto .run, out, inb.setReady 0)
  | .run => some (p.execute P e, out, inb)
  | .waitOut => if out.ready = 0 then some (p.goto (.copyOut 0), out, inb) else none
  | .copyOut i => some (p.goto (nextByte i .copyOut .publish), out.setByte i (p.digestByte i), inb)
  | .publish => some (p.goto .waitIn, out.setReady 1, inb)
  | .waitIn => if inb.ready ≠ 0 then some (p.goto (.compareIn 0 true), out, inb) else none
  | .compareIn i same =>
      let same := same && inb.md5_digest i = p.digestByte i
      some (p.goto (nextByte i (.compareIn · same) (.readHello same)), out, inb)
  | .readHello same => some (p.goto (.ackIn same (inb.ready = 2)), out, inb)
  | .ackIn same hello =>
      some (if hello then p.goto .waitIn else p.compared P same, out, inb.setReady 0)

end Process

/-- The two processes, and the buffer that each one writes and the other one reads. -/
structure State where
  procs : Side → Process
  bufs : Side → CommBuffer

/-- Nothing is known of the files. -/
def Start (s : State) : Prop := ∀ x, ∃ m, s.procs x = Process.new m

/-- A step of side `x`. -/
def State.step (P : Params) (s : State) (x : Side) (e : Event) : Option State :=
  (Process.step P e (s.procs x) (s.bufs x) (s.bufs x.other)).map fun (p, out, inb) =>
    { procs := Function.update s.procs x p
      bufs := Function.update (Function.update s.bufs x out) x.other inb }

def Step (P : Params) (s t : State) : Prop := ∃ x e, s.step P x e = some t

/-! ### What it is for: the intervals of a stream -/

/-- The intervals of a stream of events: the bytes of those that have ended, and the bytes and
the instructions of the one that is open. -/
structure Intervals where
  closed : List (List UInt8)
  bytes : List UInt8
  count : Nat

/-- An interval ends with the instruction that makes it long enough. -/
def Intervals.add (P : Params) (c : Intervals) (e : Event) : Intervals :=
  let bytes := c.bytes ++ e.pieces.flatMap (·.val)
  match e with
  | .dma _ _ => { c with bytes }
  | .instr .. =>
      if P.interval ≤ c.count + 1 then { closed := c.closed ++ [bytes], bytes := [], count := 0 }
      else { c with bytes, count := c.count + 1 }

def intervals (P : Params) (events : List Event) : Intervals :=
  events.foldl (Intervals.add P) { closed := [], bytes := [], count := 0 }

end AsimFeeder.SoftSDV.Lockstep
