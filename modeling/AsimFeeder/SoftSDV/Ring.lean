/-
The ring buffers of the SoftSDV interface (`softsdv_io.h`).

A ring carries payloads from the SoftSDV process to Asim through shared memory.  Each
side owns one slot index: the writer's is the slot it fills next, the reader's the
slot it reads next.  Each side only ever reads the other's, and the two processes run
at their own pace, so an event below is one access to what the other side can see.

`OpenNext` and `Close` are therefore cut where they touch shared memory.  The writer
tests for room, resets and fills the slot, and in `Close` reads the reader's index,
moves its own, and compares.  The reader tests for data, reads the payload, and moves
its index; when the test finds nothing, `Blocked` looks at the writer's `isActive`
before the test is made again.

`written` and `consumed` record what each side has closed; no event reads them.
-/
import Mathlib
import AsimFeeder.Lib.Slots

namespace AsimFeeder.SoftSDV

/-- The entries of a ring.  The constructors assert that they are a power of 2. -/
structure RingSize where
  entries : UInt32
  two_le : 2 ≤ entries
  powerOf2 : entries &&& (entries - 1) = 0

namespace RingSize

variable (n : RingSize)

/-- The number of slots with data ready, from the two slot indices. -/
def nReadSlotsAvailable (writer reader : UInt32) : UInt32 :=
  ((writer + n.entries) - reader) &&& (n.entries - 1)

/-- The number of slots to write, one less than are empty. -/
def nWriteSlotsAvailable (reader writer : UInt32) : UInt32 :=
  ((reader + (n.entries - 1)) - writer) &&& (n.entries - 1)

/-- What `Increment` makes of a slot index. -/
def increment (slot : UInt32) : UInt32 := (slot + 1) &&& (n.entries - 1)

end RingSize

/-- Where the writer is in `OpenNext` and `Close`. -/
inductive WriterPhase
  | idle
  | granted
  | filling
  | closing (nextReadSlot : UInt32)
  | checking (nextReadSlot nextWriteSlot : UInt32)
  | overrun
  | exited
deriving DecidableEq

/-- The writer has been given the slot of its index and has not closed it yet. -/
def WriterPhase.holdsSlot : WriterPhase → Bool
  | granted | filling | closing _ => true
  | _ => false

/--
Where the reader is in `OpenNext` and `Close`.  `blocked` keeps the writer's index as
the last test for data read it, and `ended` is an `OpenNext` that returned `NULL`.
-/
inductive ReaderPhase (α : Type)
  | idle
  | blocked (testedSlot : UInt32)
  | granted
  | reading (obj : Option α)
  | ended

/-- The reader has been given the slot of its index and has not closed it yet. -/
def ReaderPhase.holdsSlot {α : Type} : ReaderPhase α → Bool
  | granted | reading _ => true
  | _ => false

/-- A ring, the two processes on it, and what they have closed. -/
structure Ring (α : Type) where
  readerSlot : UInt32
  writerSlot : UInt32
  payload : UInt32 → α
  isActive : Bool
  writer : WriterPhase
  reader : ReaderPhase α
  written : List (UInt32 × α)
  consumed : List α

/-- One access of one side. -/
inductive RingEvent (α : Type)
  | writerTest
  | writerReset
  | writerFill (obj : α)
  | writerSample
  | writerIncrement
  | writerCheck
  | writerExiting
  | readerTest
  | readerBlocked
  | readerOpen
  | readerRead
  | readerClose
  | readerRetry

namespace Ring

variable {α : Type} (n : RingSize) (reset : α → α)

/-- The ring as both constructors leave it, with the writer's process running. -/
def empty (payload : UInt32 → α) : Ring α :=
  ⟨0, 0, payload, true, .idle, .idle, [], []⟩

/-- Put `obj` in the slot the writer has open. -/
def store (s : Ring α) (obj : α) : Ring α :=
  { s with payload := Function.update s.payload s.writerSlot obj }

/-- The writer's side of the ring, and `Exiting`. -/
def writerExec (s : Ring α) : WriterPhase → RingEvent α → Option (Ring α)
  | .idle, .writerTest =>
      if n.nWriteSlotsAvailable s.readerSlot s.writerSlot = 0 then
        -- `Blocked`, then the test once more or `NULL`
        some s
      else
        some { s with writer := .granted }
  | .granted, .writerReset =>
      some { s.store (reset (s.payload s.writerSlot)) with writer := .filling }
  | .filling, .writerFill obj => some (s.store obj)
  | .filling, .writerSample => some { s with writer := .closing s.readerSlot }
  | .closing nextReadSlot, .writerIncrement =>
      let nextWriteSlot := n.increment s.writerSlot
      some { s with
        writerSlot := nextWriteSlot
        writer := .checking nextReadSlot nextWriteSlot
        written := s.written ++ [(s.writerSlot, s.payload s.writerSlot)] }
  | .checking nextReadSlot nextWriteSlot, .writerCheck =>
      -- "Ring buffer overrun."
      some { s with writer := if nextWriteSlot ≠ nextReadSlot then .idle else .overrun }
  | .idle, .writerExiting => some { s with writer := .exited, isActive := false }
  | _, _ => none

/-- The reader's side of the ring. -/
def readerExec (s : Ring α) : ReaderPhase α → RingEvent α → Option (Ring α)
  | .idle, .readerTest =>
      if n.nReadSlotsAvailable s.writerSlot s.readerSlot = 0 then
        some { s with reader := .blocked s.writerSlot }
      else
        some { s with reader := .granted }
  | .blocked _, .readerBlocked =>
      some { s with reader := if s.isActive then .idle else .ended }
  | .granted, .readerOpen => some { s with reader := .reading none }
  | .reading _, .readerRead => some { s with reader := .reading (some (s.payload s.readerSlot)) }
  | .reading (some obj), .readerClose =>
      some { s with
        readerSlot := n.increment s.readerSlot
        reader := .idle
        consumed := s.consumed ++ [obj] }
  | .ended, .readerRetry => some { s with reader := .idle }
  | _, _ => none

/-- One event of either side, if it is that side's turn to make it. -/
def exec (s : Ring α) (e : RingEvent α) : Option (Ring α) :=
  (s.writerExec n reset s.writer e).orElse fun _ => s.readerExec n s.reader e

end Ring

end AsimFeeder.SoftSDV
