/-
The tracer's pipe: one buffer in shared memory, one process that writes and one that
reads.

Both count bytes, in words that they share, and each looks at the other's words while
the other runs; so every load of a word that the other process stores to, and every
store to a word that the other process loads, is a step of its own.  Words that only
their owner looks at are the owner's: `read` and the two pointers.  What is in the buffer
is left out, and so are `reader_sleeping` and `writer_sleeping`, which nobody reads.

`any_reader_sleeping` and `any_writer_sleeping` hold the one process that can sleep there,
or nothing.  SIGUSR1 is blocked except while a process suspends itself, so it stays
pending until then.
-/
import AsimFeeder.Lib.SleepWake
import AsimFeeder.Lib.Runs

namespace AsimFeeder.Tracer

/-- `UINT64_MAX`: what nothing wakes up for, and the end that is not known yet. -/
def UINT64_MAX : UInt64 := 0xffffffffffffffff

/-- `sizeof(struct inst_info)`. -/
def isize : UInt64 := 32

/-- What calls `GetMaxReadSize`: `Read`, or the loop of `StartTracer` and `NextInstr`. -/
inductive ReadCall
  | read (size : UInt64)
  | nextInstr
  deriving DecidableEq, Repr

def ReadCall.min : ReadCall → UInt64
  | .read size => size
  | .nextInstr => isize

/-- What calls `GetMaxWriteSize`: `Write`, or the writer itself. -/
inductive WriteCall
  | write (size : UInt64)
  | ask (min : UInt64)
  deriving DecidableEq, Repr

def WriteCall.min : WriteCall → UInt64
  | .write size => size
  | .ask min => min

/--
Where the reader is.  `wakeLoad`, `wakeClear` and `wakeKill` are the steps of `Wakeup`, on
the way to sleep if they name a call and out of `IncDonePos` or `SetDonePos` if not.
-/
inductive ReaderPhase
  | idle
  | maxRead (k : ReadCall)
  | eofCheck (k : ReadCall)
  | sleepCheck (k : ReadCall)
  | decideSleep (k : ReadCall) (wakeup : UInt64)
  | storeWakeup (k : ReadCall) (wakeup : UInt64)
  | announce (k : ReadCall)
  | checkOther (k : ReadCall)
  | resetOther (k : ReadCall)
  | wakeLoad (k : Option ReadCall)
  | wakeClear (k : Option ReadCall)
  | wakeKill (k : Option ReadCall)
  | suspended (k : ReadCall)
  | resetWakeup (k : ReadCall)
  | recalc (k : ReadCall)
  | loopEof
  | incDone (size : UInt64)
  | doneCheck
  | posCheck
  | posWritten
  | doneReset
  | ended
  deriving DecidableEq, Repr

/-- What the writer does after `Wakeup`. -/
inductive WakeEnd
  | sleep (k : WriteCall)
  | written
  | eof
  deriving DecidableEq, Repr

/-- Where the writer is; it may fill what it was `granted`. -/
inductive WriterPhase
  | idle
  | granted (msize : UInt64)
  | maxWrite (k : WriteCall)
  | sleepCheck (k : WriteCall)
  | decideSleep (k : WriteCall) (wakeup : UInt64)
  | storeWakeup (k : WriteCall) (wakeup : UInt64)
  | announce (k : WriteCall)
  | checkOther (k : WriteCall)
  | resetOther (k : WriteCall)
  | wakeLoad (k : WakeEnd)
  | wakeClear (k : WakeEnd)
  | wakeKill (k : WakeEnd)
  | suspended (k : WriteCall)
  | resetWakeup (k : WriteCall)
  | recalc (k : WriteCall)
  | writtenCheck
  | writtenReset
  | ended
  deriving DecidableEq, Repr

/-- The shared words, and what each process keeps; pointers count from `data_buffer`. -/
structure Pipe where
  read : UInt64
  done : UInt64
  readerWakeup : UInt64
  anyReaderSleeping : Bool
  written : UInt64
  writerWakeup : UInt64
  anyWriterSleeping : Bool
  eof : UInt64
  readPtr : UInt64
  reader : ReaderPhase
  readerSignal : Bool
  writePtr : UInt64
  writer : WriterPhase
  writerSignal : Bool
  deriving DecidableEq, Repr

/-- What the two processes call when they are not in the pipe. -/
inductive ReaderCall
  | read (size : UInt64)
  | startTracer
  | nextInstr
  | commitInstr (ident : UInt64)
  | isEOF
  deriving DecidableEq, Repr

inductive WriterCall
  | write (size : UInt64)
  | getMaxWriteSize (min : UInt64)
  | incWritePtr (size : UInt64)
  | setEOF
  deriving DecidableEq, Repr

/-- A call, or the next step of a process that is in one. -/
inductive PipeEvent
  | reader (call : ReaderCall)
  | readerStep
  | writer (call : WriterCall)
  | writerStep
  deriving DecidableEq, Repr

namespace Pipe

/-- `InitPipe` by the master; the slave changes nothing of this. -/
def init : Pipe where
  read := 0
  done := 0
  readerWakeup := UINT64_MAX
  anyReaderSleeping := false
  written := 0
  writerWakeup := UINT64_MAX
  anyWriterSleeping := false
  eof := UINT64_MAX
  readPtr := 0
  reader := .idle
  readerSignal := false
  writePtr := 0
  writer := .idle
  writerSignal := false

variable (dataSize : UInt64) (s : Pipe)

def watermark : UInt64 := dataSize / 4

/-- Can't go beyond the buffer size. -/
def capped (min : UInt64) : UInt64 := if dataSize < min then dataSize else min

/-- An end that is not known yet is past every position. -/
def isEOF : Bool := s.eof ≤ s.read

/-! ### The reader -/

def incReadPtr (size : UInt64) : Pipe :=
  let readPtr := s.readPtr + size
  { s with
    read := s.read + size
    readPtr := if dataSize ≤ readPtr then readPtr - dataSize else readPtr }

/-- `GetMaxReadSize` has returned; `Read` gives up when there is nothing, the loop goes on. -/
def readReturns (k : ReadCall) (msize : UInt64) : Pipe :=
  match k with
  | .read size =>
      if msize = 0 then { s with reader := .idle }
      else
        let size := if msize < size then msize else size
        { s.incReadPtr dataSize size with reader := .incDone size }
  | .nextInstr => { s with reader := if msize = 0 then .loopEof else .idle }

/-- The size that `SleepReadCheck` wakes up for. -/
def readWakeup (min : UInt64) : UInt64 :=
  let min := capped dataSize min
  let min := if min < watermark dataSize then watermark dataSize else min
  let min := if dataSize - s.readPtr < min then dataSize - s.readPtr else min
  s.read + min

def readerStep : ReaderPhase → Option Pipe
  | .idle | .ended => none
  | .maxRead k =>
      let size := s.written - s.read
      if dataSize < s.readPtr + size then
        some (s.readReturns dataSize k (dataSize - s.readPtr))
      else if size = 0 then
        some { s with reader := .eofCheck k }
      else
        some (s.readReturns dataSize k size)
  | .eofCheck k =>
      if s.isEOF then some (s.readReturns dataSize k 0)
      else some { s with reader := .sleepCheck k }
  | .sleepCheck k =>
      let size := s.written - s.read
      if capped dataSize k.min ≤ size then
        some (s.readReturns dataSize k size)
      else
        some { s with reader := .decideSleep k (s.readWakeup dataSize k.min) }
  | .decideSleep k wakeup =>
      some { s with reader := if s.written < wakeup then .storeWakeup k wakeup else .recalc k }
  | .storeWakeup k wakeup => some { s with readerWakeup := wakeup, reader := .announce k }
  | .announce k => some { s with anyReaderSleeping := true, reader := .checkOther k }
  | .checkOther k =>
      some { s with reader := if s.anyWriterSleeping then .resetOther k else .suspended k }
  | .resetOther k => some { s with writerWakeup := UINT64_MAX, reader := .wakeLoad (some k) }
  | .wakeLoad k =>
      some { s with
        reader := if s.anyWriterSleeping then .wakeClear k else k.elim .idle .suspended }
  | .wakeClear k => some { s with anyWriterSleeping := false, reader := .wakeKill k }
  | .wakeKill k => some { s with writerSignal := true, reader := k.elim .idle .suspended }
  | .suspended k =>
      if s.readerSignal then some { s with readerSignal := false, reader := .resetWakeup k }
      else none
  | .resetWakeup k => some { s with readerWakeup := UINT64_MAX, reader := .recalc k }
  | .recalc k =>
      let size := s.written - s.read
      some (s.readReturns dataSize k
        (if dataSize < s.readPtr + size then dataSize - s.readPtr else size))
  | .loopEof => some { s with reader := if s.isEOF then .idle else .maxRead .nextInstr }
  | .incDone size => some { s with done := s.done + size, reader := .doneCheck }
  | .doneCheck =>
      some { s with reader := if s.writerWakeup ≤ s.done then .doneReset else .idle }
  | .posCheck => some { s with reader := if s.anyWriterSleeping then .posWritten else .idle }
  | .posWritten =>
      some { s with
        reader :=
          if s.written + watermark dataSize - dataSize ≤ s.done then .doneReset else .idle }
  | .doneReset => some { s with writerWakeup := UINT64_MAX, reader := .wakeLoad none }

/-- The reader is not in a call. -/
def readerCall : ReaderCall → Option Pipe
  | .read size => some { s with reader := .maxRead (.read size) }
  | .startTracer => some { s with reader := .maxRead .nextInstr }
  | .nextInstr => some { s.incReadPtr dataSize isize with reader := .maxRead .nextInstr }
  | .commitInstr ident => some { s with done := (ident + 1) * isize, reader := .posCheck }
  | .isEOF => some { s with reader := if s.isEOF then .ended else .idle }

/-! ### The writer -/

def incWritePtr (size : UInt64) : Pipe :=
  let writePtr := s.writePtr + size
  { s with
    written := s.written + size
    writePtr := if dataSize ≤ writePtr then writePtr - dataSize else writePtr
    writer := .writtenCheck }

/-- `GetMaxWriteSize` has returned. -/
def writeReturns (k : WriteCall) (msize : UInt64) : Pipe :=
  match k with
  | .write size =>
      if msize = 0 then { s with writer := .idle }
      else s.incWritePtr dataSize (if msize < size then msize else size)
  | .ask _ => { s with writer := .granted msize }

/-- The position that `SleepWriteCheck` wakes up for. -/
def writeWakeup (min : UInt64) : UInt64 :=
  let min := capped dataSize min
  let min := if min < watermark dataSize then watermark dataSize else min
  s.written - dataSize + min

def afterWakeup : WakeEnd → WriterPhase
  | .sleep k => .suspended k
  | .written => .idle
  | .eof => .ended

def writerStep : WriterPhase → Option Pipe
  | .idle | .granted _ | .ended => none
  | .maxWrite k =>
      let size := dataSize - (s.written - s.done)
      if dataSize ≤ s.writePtr + size then
        some (s.writeReturns dataSize k (dataSize - s.writePtr))
      else if size < k.min then
        some { s with writer := .sleepCheck k }
      else
        some (s.writeReturns dataSize k size)
  | .sleepCheck k =>
      let size := dataSize - (s.written - s.done)
      if capped dataSize k.min ≤ size then
        some (s.writeReturns dataSize k size)
      else
        some { s with writer := .decideSleep k (s.writeWakeup dataSize k.min) }
  | .decideSleep k wakeup =>
      some { s with writer := if s.done < wakeup then .storeWakeup k wakeup else .recalc k }
  | .storeWakeup k wakeup => some { s with writerWakeup := wakeup, writer := .announce k }
  | .announce k => some { s with anyWriterSleeping := true, writer := .checkOther k }
  | .checkOther k =>
      some { s with writer := if s.anyReaderSleeping then .resetOther k else .suspended k }
  | .resetOther k => some { s with readerWakeup := UINT64_MAX, writer := .wakeLoad (.sleep k) }
  | .wakeLoad k =>
      some { s with writer := if s.anyReaderSleeping then .wakeClear k else afterWakeup k }
  | .wakeClear k => some { s with anyReaderSleeping := false, writer := .wakeKill k }
  | .wakeKill k => some { s with readerSignal := true, writer := afterWakeup k }
  | .suspended k =>
      if s.writerSignal then some { s with writerSignal := false, writer := .resetWakeup k }
      else none
  | .resetWakeup k => some { s with writerWakeup := UINT64_MAX, writer := .recalc k }
  | .recalc k =>
      let size := dataSize - (s.written - s.done)
      some (s.writeReturns dataSize k
        (if dataSize < s.writePtr + size then dataSize - s.writePtr else size))
  | .writtenCheck =>
      some { s with
        writer := if s.readerWakeup ≤ s.written then .writtenReset else .idle }
  | .writtenReset => some { s with readerWakeup := UINT64_MAX, writer := .wakeLoad .written }

/-- The writer is not in a call; it writes no more than it was granted. -/
def writerCall (granted : UInt64) : WriterCall → Option Pipe
  | .write size => some { s with writer := .maxWrite (.write size) }
  | .getMaxWriteSize min => some { s with writer := .maxWrite (.ask min) }
  | .incWritePtr size => if size ≤ granted then some (s.incWritePtr dataSize size) else none
  | .setEOF => some { s with eof := s.written, writer := .wakeLoad .eof }

/-! ### Both -/

def exec : PipeEvent → Option Pipe
  | .reader call => match s.reader with
      | .idle => s.readerCall dataSize call
      | _ => none
  | .readerStep => s.readerStep dataSize s.reader
  | .writer call => match s.writer with
      | .idle => s.writerCall dataSize 0 call
      | .granted msize => s.writerCall dataSize msize call
      | _ => none
  | .writerStep => s.writerStep dataSize s.writer

theorem exec_reader {dataSize : UInt64} {s t : Pipe} {call : ReaderCall}
    (h : s.exec dataSize (.reader call) = some t) :
    s.reader = .idle ∧ s.readerCall dataSize call = some t := by
  unfold exec at h
  dsimp only at h
  split at h
  · rename_i hidle
    exact ⟨hidle, h⟩
  · cases h

theorem exec_writer {dataSize : UInt64} {s t : Pipe} {call : WriterCall}
    (h : s.exec dataSize (.writer call) = some t) :
    (s.writer = .idle ∨ ∃ msize, s.writer = .granted msize) ∧
      ∃ msize, s.writerCall dataSize msize call = some t := by
  unfold exec at h
  dsimp only at h
  split at h
  · rename_i hidle
    exact ⟨.inl hidle, 0, h⟩
  · rename_i msize hgranted
    exact ⟨.inr ⟨msize, hgranted⟩, msize, h⟩
  · cases h

/-- What the two processes do next. -/
def Step (s t : Pipe) : Prop := ∃ e, s.exec dataSize e = some t

/-- A process has suspended itself and no signal is on its way. -/
def ReaderAsleep : Prop := (∃ k, s.reader = .suspended k) ∧ s.readerSignal = false

def WriterAsleep : Prop := (∃ k, s.writer = .suspended k) ∧ s.writerSignal = false

/--
The reader sleeps for good once the writer sleeps too or has put the end; and the writer
sleeps for nothing when the reader has consumed and released everything and is suspended.
-/
structure Lively : Prop where
  reader : s.ReaderAsleep → ¬ s.WriterAsleep ∧ s.writer ≠ .ended
  writer : s.WriterAsleep → s.read = s.written → s.done = s.written →
    ∀ k, s.reader ≠ .suspended k

end Pipe

end AsimFeeder.Tracer
