/-
The trace reader, which gets the next instruction of a stream.

A `TRACE_READER_CLASS` reads all the streams of the process, and it has one counter of idle
threads for all of them.  The counters of what it has fed and skipped are left out, but for
the place in `num_insts_skipped` that an idle instruction is counted in.
-/
import AsimFeeder.Atf.Reader

namespace AsimFeeder.Atf

/-- What `GetNextInst` leaves in the instruction that it is given. -/
inductive TraceInst
  | init (vpc ppc : Address) (vea pea : Address) (opcode : Opcode) (cpu : U64)
  | setEof
  deriving DecidableEq, Repr

/-- `ATF_MAGIC_NUMBER`. -/
def atfMagicNumber : BitVec 32 := 0x12086900

/-- A file, and the CPU that its name limits the trace to. -/
structure TraceFile where
  bytes : List Byte
  limit : Option (Fin cpuMax)
  deriving DecidableEq, Repr

/-- `ATF_file_open` for reading. -/
def AtfStream.atfFileOpen (ast : AtfStream) (file : TraceFile) : Option AtfStream :=
  let (magic, fp) := getLw file.bytes
  if magic = atfMagicNumber then
    some { ast with fp, opened := true, limitCpuPtr := file.limit }
  else
    none

/-- The reader, and the process that it runs in. -/
structure TraceReader where
  numCpus : Nat
  skipIdle : Bool
  idleCtr : Int
  stream : Fin streamsMax → AtfStream
  sh : Statics

namespace TraceReader

/-- After `Init`. -/
def start (numCpus : Nat) (skipIdle : Bool) : TraceReader where
  numCpus
  skipIdle
  idleCtr := 0
  stream _ := AtfStream.zero
  sh := Statics.fresh

variable (r : TraceReader) (streamId : Fin streamsMax)

def fileOpen (file : TraceFile) : Option TraceReader :=
  ((r.stream streamId).atfFileOpen file).map fun ast =>
    { r with stream := Function.update r.stream streamId ast }

/-- What a call on a stream sees. -/
def ctx : Ctx :=
  ⟨r.stream streamId, r.sh⟩

def setCtx (c : Ctx) : TraceReader :=
  { r with stream := Function.update r.stream streamId c.ast, sh := c.sh }

/-- `ATF_get_global(0, avg_CPU)`. -/
def instCpu : U64 :=
  (r.stream 0).globalVar .avgCPU

/-- The instruction is made of what was read and of the translations. -/
def initInst (vpc : Address) (opcode : Opcode) (vea : Address) : TraceInst × TraceReader :=
  let (ppc, c) := (r.ctx streamId).tlbTranslate vpc true
  let (pea, c) := if isLoadStore opcode then c.tlbTranslate vea false else (0, c)
  (.init vpc ppc vea pea opcode r.instCpu, r.setCtx streamId c)

/-- What a pass does with an instruction; `none` goes on to the next action. -/
def takeInst (vpc : Address) (opcode : Opcode) (vea : Address) :
    Except Fault (Option TraceInst × TraceReader) :=
  if r.skipIdle && r.idleCtr ≠ 0 then
    if r.instCpu.toNat < r.numCpus then .ok (none, r) else .error .outOfBounds
  else if r.numCpus ≤ r.instCpu.toNat then
    .ok (none, r)
  else
    let (inst, r) := r.initInst streamId vpc opcode vea
    .ok (some inst, r)

def takeIdle (idleStart : Byte) : Except Fault (Option TraceInst × TraceReader) :=
  if idleStart ≠ 0 then
    .ok (none, { r with idleCtr := r.idleCtr + 1 })
  else if r.idleCtr - 1 < 0 then
    .error .mismatchedIdle
  else
    .ok (none, { r with idleCtr := r.idleCtr - 1 })

def takeAction (action : AtfAction) : Except Fault (Option TraceInst × TraceReader) :=
  match action with
  | .instrNew vpc opcode vea => r.takeInst streamId vpc opcode vea
  | .instrOld vpc opcode vea => r.takeInst streamId vpc opcode vea
  | .idleThread idleStart => r.takeIdle idleStart
  | .eof => .ok (some .setEof, r)
  | _ => .ok (none, r)

/-- One pass through the loop of `GetNextInst`. -/
def nextStep : Except Fault (Option TraceInst × TraceReader) := do
  let (action, c) ← atfReadAction (r.ctx streamId)
  (r.setCtx streamId c).takeAction streamId action

/-- `GetNextInst`, for so many passes. -/
def getNextInst : Nat → TraceReader → Except Fault (TraceInst × TraceReader)
  | 0, _ => .error .running
  | n + 1, r => do
      match ← r.nextStep streamId with
      | (some inst, r) => .ok (inst, r)
      | (none, r) => getNextInst n r

end TraceReader

end AsimFeeder.Atf
