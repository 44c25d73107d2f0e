/-
The trace buffer of the trace feeder (`tracebuffer.h`, `tracebuffer.cpp`).

A `TRACE_BUFFER_CLASS` keeps a window of one trace stream in a ring of `BufSize`
slots, so that instructions the model kills can be fetched again.  Three indices
walk round the ring: `head_index` is the next instruction to hand out,
`filled_index` the next slot to fill, `lastcommit_index` the slot of the last
committed instruction.  `FillBuffer` runs when the head meets the filled index and
fills up to the last commit.

The stream itself is the sequence `GetNextInst` returns for it.  An `ASSERT` that
fails ends the run, so every operation that contains one returns an `Except`.
-/
import AsimFeeder.Lib.Slots

namespace AsimFeeder.Trace

open AsimFeeder.Lib

/-- Total buffer size. -/
def bufSize : Nat := 2048

instance : NeZero bufSize := ⟨by simp [bufSize]⟩

/-- A trace instruction: what the buffer reads of it, and the rest of the record. -/
structure TraceInst (Pc Data : Type) where
  virtualPc : Pc
  wrongpath : Bool
  longImm : Bool
  nop : Bool
  eof : Bool
  data : Data
deriving DecidableEq

/--
The buffer and its place in the stream.  `delivered` counts the calls of
`GetNextInst`, which is where the reader of the stream is.  `fillLog` lists the slots
`FillBuffer` has filled, latest first, as its trace message does; no operation reads it.
-/
structure TraceBuffer (Pc Data : Type) where
  buffer : Fin bufSize → TraceInst Pc Data
  filledIndex : Fin bufSize
  headIndex : Fin bufSize
  lastcommitIndex : Fin bufSize
  delivered : Nat
  fillLog : List (Fin bufSize)

namespace TraceBuffer

variable {Pc Data : Type}

/-! ### Accessors -/

def getInst (b : TraceBuffer Pc Data) : TraceInst Pc Data := b.buffer b.headIndex

def virtualPc (b : TraceBuffer Pc Data) : Pc := b.getInst.virtualPc

def isWrongpath (b : TraceBuffer Pc Data) : Bool := b.getInst.wrongpath

def eof (b : TraceBuffer Pc Data) : Bool := b.getInst.eof

def getIdentifier (b : TraceBuffer Pc Data) : Fin bufSize := b.headIndex

/-! ### Filling -/

variable (trace : Nat → TraceInst Pc Data)

/-- One pass of the `do` loop of `FillBuffer`. -/
def fillSlot (b : TraceBuffer Pc Data) : TraceBuffer Pc Data :=
  { b with
    buffer := Function.update b.buffer b.filledIndex (trace b.delivered)
    filledIndex := next b.filledIndex
    delivered := b.delivered + 1
    fillLog := b.filledIndex :: b.fillLog }

/-- The `do` loop of `FillBuffer`, for at most `fuel + 1` passes. -/
def fillLoop : Nat → TraceBuffer Pc Data → TraceBuffer Pc Data
  | 0, b => b.fillSlot trace
  | fuel + 1, b =>
      let b' := b.fillSlot trace
      if b'.filledIndex ≠ b'.lastcommitIndex then fillLoop fuel b' else b'

/-- Fill the buffer with more instructions. -/
def fillBuffer (b : TraceBuffer Pc Data) : Except String (TraceBuffer Pc Data) :=
  if b.headIndex ≠ b.filledIndex then
    .error "head_index == filled_index"
  else if b.filledIndex = b.lastcommitIndex then
    .error "Trace buffer overrun on fill"
  else
    .ok (b.fillLoop trace bufSize)

/-- The indices as `Init` sets them, before the first fill. -/
def unfilled (slots : Fin bufSize → TraceInst Pc Data) : TraceBuffer Pc Data where
  buffer := slots
  filledIndex := ⟨0, by simp [bufSize]⟩
  headIndex := ⟨0, by simp [bufSize]⟩
  lastcommitIndex := ⟨bufSize - 1, by simp [bufSize]⟩
  delivered := 0
  fillLog := []

/-- A new buffer; `slots` is whatever its slots hold before the first fill. -/
def init (slots : Fin bufSize → TraceInst Pc Data) : Except String (TraceBuffer Pc Data) :=
  fillBuffer trace (unfilled slots)

/-! ### Moving the head -/

/-- Advance to the next instruction. -/
def nextInstr (b : TraceBuffer Pc Data) : Except String (TraceBuffer Pc Data) :=
  let b := { b with headIndex := next b.headIndex }
  if b.headIndex = b.filledIndex then b.fillBuffer trace else .ok b

def backup (b : TraceBuffer Pc Data) (id : Fin bufSize) : TraceBuffer Pc Data :=
  { b with headIndex := id }

/-- The `while (IsWrongpath())` loop of `SkipOverWrongpath`. -/
def skipLoop : Nat → TraceBuffer Pc Data → Nat → Except String (TraceBuffer Pc Data × Nat)
  | 0, _, _ => .error "out of fuel"
  | fuel + 1, b, skipped =>
      if b.isWrongpath then do
        let b ← b.nextInstr trace
        skipLoop fuel b (skipped + 1)
      else
        .ok (b, skipped)

/-- Skip over wrongpath instructions embedded in the trace, if `lookaheadPc` follows them. -/
def skipOverWrongpath [DecidableEq Pc] (b : TraceBuffer Pc Data) (lookaheadPc : Pc) :
    Except String (TraceBuffer Pc Data × Nat) :=
  if !b.isWrongpath then
    .ok (b, 0)
  else do
    let origId := b.getIdentifier
    -- At most one ring of instructions is ever uncommitted.
    let (b, skipped) ← b.skipLoop trace bufSize 0
    if b.virtualPc = lookaheadPc ∨ b.eof = true then
      .ok (b, skipped)
    else
      .ok (b.backup origId, 0)

/-! ### Committing -/

/-- The `while (lastcommit_index != id)` loop of `CommitInstr`. -/
def commitLoop (id : Fin bufSize) :
    Nat → TraceBuffer Pc Data → Nat → Except String (TraceBuffer Pc Data × Nat)
  | 0, _, _ => .error "out of fuel"
  | fuel + 1, b, skippedCount =>
      if b.lastcommitIndex = id then
        .ok (b, skippedCount)
      else
        let i := b.buffer b.lastcommitIndex
        if i.wrongpath || i.longImm || i.nop then
          commitLoop id fuel { b with lastcommitIndex := next b.lastcommitIndex }
            (skippedCount + 1)
        else
          .error "out of order commit"

/-- Commit the instruction in slot `id`, and count what lies between it and the last commit. -/
def commitInstr (b : TraceBuffer Pc Data) (id : Fin bufSize) :
    Except String (TraceBuffer Pc Data × Nat) :=
  commitLoop id bufSize { b with lastcommitIndex := next b.lastcommitIndex } 0

end TraceBuffer

end AsimFeeder.Trace
