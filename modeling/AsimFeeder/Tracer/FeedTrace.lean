/-
The instruction buffer that the tracer keeps in the pipe.

The writer puts one record after the other into the data area, which has room for
`BUFFER_SIZE` of them.  The reader looks at the record at its read pointer, goes on to
the next one, comes back when instructions are killed, and says how far it has committed.
The pipe counts bytes and knows nothing of this: what it works with is three counters and
two pointers, and the room for writing is what the committed position leaves of the area.

Beside them stand the positions they mean, in records of the whole stream.  Counters are
words and wrap; positions do not.

The reader asks `Eof()` before it goes on, goes one back only right after it went on, and
backs up to an instruction that it has handed out; it commits what it has handed out and
left behind, in order.  The data area is kept by records, each at the slot of its address.
-/
import AsimFeeder.Tracer.Pipe
import AsimFeeder.Lib.Slots

namespace AsimFeeder.Tracer

open Lib

namespace Pipe

variable (dataSize : UInt64) (s : Pipe)

/-! ### The read pointer, moved back or anywhere -/

def decReadPtr (size : UInt64) : Pipe :=
  let readPtr : Int := s.readPtr.toNat - size.toNat
  { s with
    read := s.read - size
    readPtr := UInt64.ofNat (if readPtr < 0 then readPtr + dataSize.toNat else readPtr).toNat }

/-- The move is a signed word that is compared and divided as an unsigned one. -/
def setReadPos (pos : UInt64) : Pipe :=
  let size := pos - s.read
  let size := if dataSize < size then size % dataSize else size
  let readPtr : Int := s.readPtr.toNat + size.toInt64.toInt
  let readPtr := if readPtr < 0 then readPtr + dataSize.toNat else readPtr
  { s with
    read := pos
    readPtr := UInt64.ofNat
      (if dataSize.toNat ≤ readPtr then readPtr - dataSize.toNat else readPtr).toNat }

end Pipe

/-! ### The buffer -/

def LOOKAHEAD : Nat := 1024

def INSTR_SAFETY : Nat := 1024

/-- Total buffer size, in records. -/
def BUFFER_SIZE : Nat := LOOKAHEAD + INSTR_SAFETY

instance neZeroBufferSize : NeZero BUFFER_SIZE := ⟨by decide⟩

/-- `BUFFER_SIZE * isize`. -/
def dataSize : UInt64 := UInt64.ofNat BUFFER_SIZE * isize

/--
The pipe, the data area, and the positions: where the reader is, how many records it has
handed out, committed, and how many the writer has published.  `filled` is a record that
is written and not published yet, `justNext` that the reader's last call was `NextInstr`.
-/
structure TraceBuffer (Rec : Type) where
  pipe : Pipe
  data : Fin BUFFER_SIZE → Rec
  position : Nat
  handed : Nat
  committed : Nat
  published : Nat
  filled : Bool
  justNext : Bool

/-- The slot at a pointer into the data area. -/
def slotAt (ptr : UInt64) : Fin BUFFER_SIZE := slot BUFFER_SIZE (ptr.toNat / isize.toNat)

/-- The identifier of the record at a position. -/
def identifier (n : Nat) : UInt64 := UInt64.ofNat n * isize / isize

/-- What the two processes do: the calls, `atfint_GetNextInst` and the steps inside calls. -/
inductive TraceEvent
  | nextInstr
  | prevInstr
  | backup (n : Nat)
  | commitInstr (n : Nat)
  | readerStep
  | getMaxWriteSize (min : UInt64)
  | fill
  | incWritePtr
  | setEOF
  | writerStep
  deriving DecidableEq, Repr

/-- The reader is in the loop of `StartTracer` or `NextInstr`. -/
def ReaderPhase.waiting : ReaderPhase → Bool
  | .maxRead _ | .eofCheck _ | .sleepCheck _ | .decideSleep _ _ | .storeWakeup _ _
  | .announce _ | .checkOther _ | .resetOther _ | .wakeLoad (some _) | .wakeClear (some _)
  | .wakeKill (some _) | .suspended _ | .resetWakeup _ | .recalc _ | .loopEof => true
  | _ => false

/-- What the writer may fill. -/
def WriterPhase.room : WriterPhase → UInt64
  | .granted msize => msize
  | _ => 0

theorem WriterPhase.granted_of_room {p : WriterPhase} (h : isize ≤ p.room) :
    p = .granted p.room := by
  cases p with
  | granted msize => rfl
  | _ => exact absurd (show isize ≤ 0 from h) (by decide)

namespace TraceBuffer

variable {Rec : Type} (stream : Nat → Rec) (s : TraceBuffer Rec)

/-- `GetIdentifier`. -/
def getIdentifier : UInt64 := s.pipe.read / isize

/-- `CurInst`. -/
def curInst : Rec := s.data (slotAt s.pipe.readPtr)

/-- `InitTracer` by the reader, and `StartTracer` called. -/
def start (data : Fin BUFFER_SIZE → Rec) : TraceBuffer Rec where
  pipe := { Pipe.init with reader := .maxRead .nextInstr }
  data := data
  position := 0
  handed := 0
  committed := 0
  published := 0
  filled := false
  justNext := false

def exec : TraceEvent → Option (TraceBuffer Rec)
  | .nextInstr =>
      if s.pipe.isEOF then none
      else (s.pipe.exec dataSize (.reader .nextInstr)).map fun pipe =>
        { s with
          pipe := pipe
          position := s.position + 1
          handed := max s.handed (s.position + 1)
          justNext := true }
  | .prevInstr =>
      if s.pipe.reader = .idle ∧ s.justNext then
        some { s with
          pipe := s.pipe.decReadPtr dataSize isize
          position := s.position - 1
          justNext := false }
      else none
  | .backup n =>
      if s.pipe.reader = .idle ∧ s.committed ≤ n ∧ n < s.handed then
        some { s with
          pipe := s.pipe.setReadPos dataSize (identifier n * isize)
          position := n
          justNext := false }
      else none
  | .commitInstr n =>
      if s.committed ≤ n ∧ n < s.position then
        (s.pipe.exec dataSize (.reader (.commitInstr (identifier n)))).map fun pipe =>
          { s with pipe := pipe, committed := n + 1, justNext := false }
      else none
  | .readerStep => (s.pipe.exec dataSize .readerStep).map fun pipe => { s with pipe := pipe }
  | .getMaxWriteSize min =>
      if s.filled then none
      else (s.pipe.exec dataSize (.writer (.getMaxWriteSize min))).map fun pipe =>
        { s with pipe := pipe }
  | .fill =>
      if isize ≤ s.pipe.writer.room then
        some { s with
          data := Function.update s.data (slotAt s.pipe.writePtr) (stream s.published)
          filled := true }
      else none
  | .incWritePtr =>
      if s.filled then
        (s.pipe.exec dataSize (.writer (.incWritePtr isize))).map fun pipe =>
          { s with pipe := pipe, published := s.published + 1, filled := false }
      else none
  | .setEOF =>
      if s.filled then none
      else (s.pipe.exec dataSize (.writer .setEOF)).map fun pipe => { s with pipe := pipe }
  | .writerStep => (s.pipe.exec dataSize .writerStep).map fun pipe => { s with pipe := pipe }

def Start (s : TraceBuffer Rec) : Prop := ∃ data, s = start data

def Step (s t : TraceBuffer Rec) : Prop := ∃ e, s.exec stream e = some t

end TraceBuffer

/-! ### Bytes for records -/

theorem bufferSize_eq : BUFFER_SIZE = 2048 := rfl

/-- The bytes that `n` records take. -/
def bytes (n : Nat) : UInt64 := UInt64.ofNat n * isize

theorem bytes_one : bytes 1 = isize := by decide

theorem bytes_bufferSize : bytes BUFFER_SIZE = dataSize := rfl

theorem bytes_zero : bytes 0 = 0 := by decide

theorem bytes_add (m n : Nat) : bytes (m + n) = bytes m + bytes n := by
  unfold bytes
  rw [UInt64.ofNat_add, UInt64.add_mul]

theorem bytes_sub {m n : Nat} (h : n ≤ m) : bytes (m - n) = bytes m - bytes n := by
  unfold bytes
  rw [UInt64.ofNat_sub h, UInt64.sub_mul]

theorem toNat_bytes_mod (n : Nat) : (bytes n).toNat = n * 32 % 2 ^ 64 := by
  unfold bytes
  rw [UInt64.toNat_mul, UInt64.toNat_ofNat']
  show n % 2 ^ 64 * 32 % 2 ^ 64 = _
  exact Nat.mod_mul_mod n 32 (2 ^ 64)

theorem toNat_bytes {n : Nat} (h : n ≤ 2 * BUFFER_SIZE) : (bytes n).toNat = n * 32 := by
  rw [bufferSize_eq] at h
  rw [toNat_bytes_mod, Nat.mod_eq_of_lt (by omega)]

/-- A position comes back from its identifier, in bytes. -/
theorem identifier_bytes (n : Nat) : identifier n * isize = bytes n := by
  apply UInt64.toNat_inj.mp
  unfold identifier
  rw [UInt64.toNat_mul, UInt64.toNat_div]
  show (bytes n).toNat / 32 * 32 % 2 ^ 64 = (bytes n).toNat
  rw [toNat_bytes_mod]
  omega

theorem toNat_identifier (n : Nat) : (bytes n / isize).toNat = n % 2 ^ 59 := by
  rw [UInt64.toNat_div]
  show (bytes n).toNat / 32 = _
  rw [toNat_bytes_mod]
  omega

theorem bytes_mod (n : Nat) : bytes n % dataSize = bytes (n % BUFFER_SIZE) := by
  apply UInt64.toNat_inj.mp
  rw [UInt64.toNat_mod, toNat_bytes_mod, toNat_bytes_mod]
  show n * 32 % 2 ^ 64 % 65536 = n % 2048 * 32 % 2 ^ 64
  omega

theorem slotAt_bytes (n : Nat) : slotAt (bytes (n % BUFFER_SIZE)) = slot BUFFER_SIZE n := by
  have hlt : n % BUFFER_SIZE < BUFFER_SIZE := Nat.mod_lt _ (by decide)
  unfold slotAt
  rw [toNat_bytes (by omega)]
  apply Fin.ext
  rw [val_slot, val_slot]
  show n % BUFFER_SIZE * 32 / 32 % BUFFER_SIZE = _
  rw [Nat.mul_div_cancel _ (by decide), Nat.mod_mod]

theorem bytes_le {m n : Nat} (hm : m ≤ 2 * BUFFER_SIZE) (hn : n ≤ 2 * BUFFER_SIZE) :
    bytes m ≤ bytes n ↔ m ≤ n := by
  rw [UInt64.le_iff_toNat_le, toNat_bytes hm, toNat_bytes hn]
  omega

theorem bytes_lt {m n : Nat} (hm : m ≤ 2 * BUFFER_SIZE) (hn : n ≤ 2 * BUFFER_SIZE) :
    bytes m < bytes n ↔ m < n := by
  rw [UInt64.lt_iff_toNat_lt, toNat_bytes hm, toNat_bytes hn]
  omega

theorem toInt_bytes {n : Nat} (h : n ≤ 2 * BUFFER_SIZE) :
    (bytes n).toInt64.toInt = n * 32 := by
  rw [bufferSize_eq] at h
  have hn : (bytes n).toNat = n * 32 := toNat_bytes h
  calc (bytes n).toInt64.toInt = (bytes n).toBitVec.toInt := rfl
    _ = ((bytes n).toNat : Int).bmod (2 ^ 64) := BitVec.toInt_eq_toNat_bmod _
    _ = n * 32 := by rw [hn, Int.bmod_def]; omega

theorem ofNat_bytes {n : Nat} (h : n ≤ 2 * BUFFER_SIZE) : UInt64.ofNat (n * 32) = bytes n := by
  rw [← toNat_bytes h, UInt64.ofNat_toNat]

/-! ### The pointers follow the positions -/

theorem mod_bufferSize_le (p : Nat) : p % BUFFER_SIZE ≤ 2 * BUFFER_SIZE := by
  rw [bufferSize_eq]
  omega

/-- Both pointers go on by one record. -/
theorem incPtr_bytes (p : Nat) :
    (if dataSize ≤ bytes (p % BUFFER_SIZE) + isize
      then bytes (p % BUFFER_SIZE) + isize - dataSize else bytes (p % BUFFER_SIZE) + isize) =
      bytes ((p + 1) % BUFFER_SIZE) := by
  have hlt : p % BUFFER_SIZE < BUFFER_SIZE := Nat.mod_lt _ (by decide)
  rw [← bytes_one, ← bytes_add, ← bytes_bufferSize]
  by_cases hwrap : BUFFER_SIZE ≤ p % BUFFER_SIZE + 1
  · have hnext : (p + 1) % BUFFER_SIZE = p % BUFFER_SIZE + 1 - BUFFER_SIZE := by
      rw [bufferSize_eq] at *
      omega
    rw [if_pos ((bytes_le (by omega) (by omega)).mpr hwrap), hnext, bytes_sub hwrap]
  · have hnext : (p + 1) % BUFFER_SIZE = p % BUFFER_SIZE + 1 := by
      rw [bufferSize_eq] at *
      omega
    rw [if_neg fun h => hwrap ((bytes_le (by omega) (by omega)).mp h), hnext]

theorem decReadPtr_readPtr {s : Pipe} {p : Nat} (h : s.readPtr = bytes ((p + 1) % BUFFER_SIZE)) :
    (s.decReadPtr dataSize isize).readPtr = bytes (p % BUFFER_SIZE) := by
  unfold Pipe.decReadPtr
  dsimp only
  rw [h, toNat_bytes (mod_bufferSize_le _), ← ofNat_bytes (mod_bufferSize_le _)]
  have hdata : dataSize.toNat = 65536 := by decide
  have hisize : isize.toNat = 32 := rfl
  rw [hdata, hisize, bufferSize_eq]
  congr 1
  omega

/-- A move that is not longer than the buffer, as the code reduces it. -/
theorem move_reduced {n p : Nat} (hnp : n ≤ p + BUFFER_SIZE) (hpn : p ≤ n + BUFFER_SIZE) :
    ∃ d ≤ BUFFER_SIZE, (p + d) % BUFFER_SIZE = n % BUFFER_SIZE ∧
      (if dataSize < bytes n - bytes p then (bytes n - bytes p) % dataSize
        else bytes n - bytes p) = bytes d := by
  rcases Nat.lt_or_ge n p with hlt | hle
  · -- backwards: the difference wraps, and the buffer divides the words
    have hneg : bytes n - bytes p = bytes (2 ^ 59 - (p - n)) := by
      rw [bufferSize_eq] at *
      apply UInt64.toNat_inj.mp
      rw [UInt64.toNat_sub, toNat_bytes_mod, toNat_bytes_mod, toNat_bytes_mod]
      omega
    refine ⟨(2 ^ 59 - (p - n)) % BUFFER_SIZE, Nat.le_of_lt (Nat.mod_lt _ (by decide)), ?_, ?_⟩
    · rw [bufferSize_eq] at *
      omega
    · rw [hneg, bytes_mod, if_pos]
      rw [bufferSize_eq] at *
      rw [UInt64.lt_iff_toNat_lt, toNat_bytes_mod]
      show 65536 < _
      omega
  · refine ⟨n - p, by omega, by rw [Nat.add_sub_cancel' hle], ?_⟩
    rw [← bytes_sub hle, ← bytes_bufferSize,
      if_neg fun h => by rw [bytes_lt (by omega) (by omega)] at h; omega]

theorem setReadPos_readPtr {s : Pipe} {n p : Nat} (hread : s.read = bytes p)
    (hptr : s.readPtr = bytes (p % BUFFER_SIZE)) (hnp : n ≤ p + BUFFER_SIZE)
    (hpn : p ≤ n + BUFFER_SIZE) :
    (s.setReadPos dataSize (bytes n)).readPtr = bytes (n % BUFFER_SIZE) := by
  obtain ⟨d, hd, hmod, hmove⟩ := move_reduced hnp hpn
  have hdata : dataSize.toNat = 65536 := by decide
  unfold Pipe.setReadPos
  dsimp only
  rw [hread, hmove, hptr, toNat_bytes (mod_bufferSize_le _), toInt_bytes (by omega),
    ← ofNat_bytes (mod_bufferSize_le _), hdata, ← hmod]
  rw [bufferSize_eq] at *
  congr 1
  omega

/-! ### The steps inside calls -/

/-- The reader calls for records only. -/
def ReaderPhase.ByRecord : ReaderPhase → Prop
  | .maxRead k | .eofCheck k | .sleepCheck k | .decideSleep k _ | .storeWakeup k _
  | .announce k | .checkOther k | .resetOther k | .wakeLoad (some k) | .wakeClear (some k)
  | .wakeKill (some k) | .suspended k | .resetWakeup k | .recalc k => k = .nextInstr
  | .incDone _ | .ended => False
  | _ => True

def WriteCall.Asks : WriteCall → Prop
  | .ask _ => True
  | .write _ => False

/-- The writer asks for room only. -/
def WriterPhase.ByRecord : WriterPhase → Prop
  | .maxWrite k | .sleepCheck k | .decideSleep k _ | .storeWakeup k _ | .announce k
  | .checkOther k | .resetOther k | .wakeLoad (.sleep k) | .wakeClear (.sleep k)
  | .wakeKill (.sleep k) | .suspended k | .resetWakeup k | .recalc k => k.Asks
  | _ => True

/-- The writer has put the end. -/
def WriterPhase.ending : WriterPhase → Bool
  | .wakeLoad .eof | .wakeClear .eof | .wakeKill .eof | .ended => true
  | _ => false

namespace Pipe

variable {s t : Pipe}

/-- Everything that says where the two are stays. -/
structure SamePositions (s t : Pipe) : Prop where
  read : t.read = s.read
  done : t.done = s.done
  written : t.written = s.written
  eof : t.eof = s.eof
  readPtr : t.readPtr = s.readPtr
  writePtr : t.writePtr = s.writePtr

theorem SamePositions.isEOF (h : SamePositions s t) : t.isEOF = s.isEOF := by
  unfold Pipe.isEOF
  rw [h.eof, h.read]

/-- What a step of the reader inside a call does. -/
structure ReaderMoves (s t : Pipe) : Prop extends SamePositions s t where
  writer : t.writer = s.writer
  byRecord : t.reader.ByRecord
  ready : t.reader.waiting = false →
    s.reader.waiting = false ∨ s.written - s.read ≠ 0 ∨ s.isEOF = true

theorem readerMoves_of_waiting (hsame : SamePositions s t) (hwriter : t.writer = s.writer)
    (hw : t.reader.waiting = true) (hr : t.reader.ByRecord) : ReaderMoves s t :=
  { hsame with
    writer := hwriter
    byRecord := hr
    ready := fun h => by rw [hw] at h; cases h }

theorem readerMoves_of_not (hsame : SamePositions s t) (hwriter : t.writer = s.writer)
    (hw : s.reader.waiting = false) (hr : t.reader.ByRecord) : ReaderMoves s t :=
  { hsame with
    writer := hwriter
    byRecord := hr
    ready := fun _ => .inl hw }

/-- The loop goes on unless there is something to read. -/
theorem readReturns_moves {msize : UInt64} (h : msize ≠ 0 → s.written - s.read ≠ 0) :
    ReaderMoves s (s.readReturns dataSize .nextInstr msize) := by
  unfold readReturns
  dsimp only
  split
  · exact readerMoves_of_waiting ⟨rfl, rfl, rfl, rfl, rfl, rfl⟩ rfl rfl trivial
  · rename_i hne
    exact ⟨⟨rfl, rfl, rfl, rfl, rfl, rfl⟩, rfl, trivial, fun _ => .inr (.inl (h hne))⟩

theorem size_ne_zero {ptr size : UInt64} (hptr : ptr ≤ dataSize) (h : dataSize < ptr + size) :
    size ≠ 0 := by
  rintro rfl
  rw [UInt64.add_zero] at h
  exact absurd hptr (UInt64.not_le.mpr h)

theorem readerStep_moves {p : ReaderPhase} (hp : s.reader = p) (hr : p.ByRecord)
    (hptr : s.readPtr ≤ dataSize) (hstep : s.readerStep dataSize p = some t) :
    ReaderMoves s t := by
  have hsame : SamePositions s s := ⟨rfl, rfl, rfl, rfl, rfl, rfl⟩
  cases p with
  | idle => cases hstep
  | ended => cases hstep
  | incDone size => cases hr
  | maxRead k =>
      cases hr
      unfold readerStep at hstep
      dsimp only at hstep
      split at hstep
      · cases hstep
        rename_i hsize
        exact readReturns_moves fun _ => size_ne_zero hptr hsize
      · split at hstep <;> cases hstep
        · exact readerMoves_of_waiting { hsame with } rfl rfl rfl
        · exact readReturns_moves id
  | eofCheck k =>
      cases hr
      unfold readerStep at hstep
      dsimp only at hstep
      split at hstep <;> cases hstep
      · exact readReturns_moves fun h => absurd rfl h
      · exact readerMoves_of_waiting { hsame with } rfl rfl rfl
  | sleepCheck k =>
      cases hr
      unfold readerStep at hstep
      dsimp only at hstep
      split at hstep <;> cases hstep
      · exact readReturns_moves id
      · exact readerMoves_of_waiting { hsame with } rfl rfl rfl
  | decideSleep k wakeup =>
      cases hstep
      split <;> exact readerMoves_of_waiting { hsame with } rfl rfl hr
  | storeWakeup k wakeup =>
      cases hstep
      exact readerMoves_of_waiting { hsame with } rfl rfl hr
  | announce k =>
      cases hstep
      exact readerMoves_of_waiting { hsame with } rfl rfl hr
  | checkOther k =>
      cases hstep
      split <;> exact readerMoves_of_waiting { hsame with } rfl rfl hr
  | resetOther k =>
      cases hstep
      exact readerMoves_of_waiting { hsame with } rfl rfl hr
  | wakeLoad k =>
      cases hstep
      cases k with
      | none => split <;> exact readerMoves_of_not { hsame with } rfl (hp ▸ rfl) trivial
      | some k => split <;> exact readerMoves_of_waiting { hsame with } rfl rfl hr
  | wakeClear k =>
      cases hstep
      cases k with
      | none => exact readerMoves_of_not { hsame with } rfl (hp ▸ rfl) trivial
      | some k => exact readerMoves_of_waiting { hsame with } rfl rfl hr
  | wakeKill k =>
      cases hstep
      cases k with
      | none => exact readerMoves_of_not { hsame with } rfl (hp ▸ rfl) trivial
      | some k => exact readerMoves_of_waiting { hsame with } rfl rfl hr
  | suspended k =>
      unfold readerStep at hstep
      dsimp only at hstep
      split at hstep
      · cases hstep
        exact readerMoves_of_waiting { hsame with } rfl rfl hr
      · cases hstep
  | resetWakeup k =>
      cases hstep
      exact readerMoves_of_waiting { hsame with } rfl rfl hr
  | recalc k =>
      cases hr
      cases hstep
      apply readReturns_moves
      intro hne
      by_cases hsize : dataSize < s.readPtr + (s.written - s.read)
      · exact size_ne_zero hptr hsize
      · rwa [if_neg hsize] at hne
  | loopEof =>
      cases hstep
      by_cases heof : s.isEOF = true
      · rw [if_pos heof]
        exact ⟨{ hsame with }, rfl, trivial, fun _ => .inr (.inr heof)⟩
      · rw [if_neg heof]
        exact readerMoves_of_waiting { hsame with } rfl rfl rfl
  | doneCheck =>
      cases hstep
      split <;> exact readerMoves_of_not { hsame with } rfl (hp ▸ rfl) trivial
  | posCheck =>
      cases hstep
      split <;> exact readerMoves_of_not { hsame with } rfl (hp ▸ rfl) trivial
  | posWritten =>
      cases hstep
      split <;> exact readerMoves_of_not { hsame with } rfl (hp ▸ rfl) trivial
  | doneReset =>
      cases hstep
      exact readerMoves_of_not { hsame with } rfl (hp ▸ rfl) trivial

/-- What a step of the writer inside a call does; it is granted no more than there is. -/
structure WriterMoves (s t : Pipe) : Prop extends SamePositions s t where
  reader : t.reader = s.reader
  byRecord : t.writer.ByRecord
  ending : t.writer.ending = s.writer.ending
  granted : isize ≤ t.writer.room → isize ≤ dataSize - (s.written - s.done)

theorem writerMoves_of_room_zero (hsame : SamePositions s t) (hreader : t.reader = s.reader)
    (hr : t.writer.ByRecord) (he : t.writer.ending = s.writer.ending)
    (hroom : t.writer.room = 0) : WriterMoves s t :=
  { hsame with
    reader := hreader
    byRecord := hr
    ending := he
    granted := fun h => by rw [hroom] at h; exact absurd h (by decide) }

theorem writeReturns_moves {min msize : UInt64} (he : s.writer.ending = false)
    (h : msize ≤ dataSize - (s.written - s.done)) :
    WriterMoves s (s.writeReturns dataSize (.ask min) msize) where
  read := rfl
  done := rfl
  written := rfl
  eof := rfl
  readPtr := rfl
  writePtr := rfl
  reader := rfl
  byRecord := trivial
  ending := he.symm
  granted hroom := UInt64.le_trans hroom h

theorem cut_le_size {ptr size : UInt64} (hptr : ptr ≤ dataSize) (hsize : size ≤ dataSize)
    (h : dataSize ≤ ptr + size) : dataSize - ptr ≤ size := by
  have hdata : dataSize.toNat = 65536 := by decide
  rw [UInt64.le_iff_toNat_le] at *
  rw [UInt64.toNat_add] at h
  rw [UInt64.toNat_sub_of_le _ _ (UInt64.le_iff_toNat_le.mpr hptr)]
  omega

theorem writerStep_moves {p : WriterPhase} (hp : s.writer = p) (hr : p.ByRecord)
    (hptr : s.writePtr ≤ dataSize) (hsize : dataSize - (s.written - s.done) ≤ dataSize)
    (hstep : s.writerStep dataSize p = some t) : WriterMoves s t := by
  have hsame : SamePositions s s := ⟨rfl, rfl, rfl, rfl, rfl, rfl⟩
  cases p with
  | idle => cases hstep
  | granted msize => cases hstep
  | ended => cases hstep
  | maxWrite k =>
      cases k with
      | write size => cases hr
      | ask min =>
          have he : s.writer.ending = false := hp ▸ rfl
          unfold writerStep at hstep
          dsimp only at hstep
          split at hstep
          · cases hstep
            rename_i hfull
            exact writeReturns_moves he (cut_le_size hptr hsize hfull)
          · split at hstep <;> cases hstep
            · exact writerMoves_of_room_zero { hsame with } rfl trivial (hp ▸ rfl) rfl
            · exact writeReturns_moves he (UInt64.le_refl _)
  | sleepCheck k =>
      cases k with
      | write size => cases hr
      | ask min =>
          unfold writerStep at hstep
          dsimp only at hstep
          split at hstep <;> cases hstep
          · exact writeReturns_moves (hp ▸ rfl) (UInt64.le_refl _)
          · exact writerMoves_of_room_zero { hsame with } rfl trivial (hp ▸ rfl) rfl
  | decideSleep k wakeup =>
      cases hstep
      split <;> exact writerMoves_of_room_zero { hsame with } rfl hr (hp ▸ rfl) rfl
  | storeWakeup k wakeup =>
      cases hstep
      exact writerMoves_of_room_zero { hsame with } rfl hr (hp ▸ rfl) rfl
  | announce k =>
      cases hstep
      exact writerMoves_of_room_zero { hsame with } rfl hr (hp ▸ rfl) rfl
  | checkOther k =>
      cases hstep
      split <;> exact writerMoves_of_room_zero { hsame with } rfl hr (hp ▸ rfl) rfl
  | resetOther k =>
      cases hstep
      exact writerMoves_of_room_zero { hsame with } rfl hr (hp ▸ rfl) rfl
  | wakeLoad k =>
      cases hstep
      cases k with
      | sleep k => split <;> exact writerMoves_of_room_zero { hsame with } rfl hr (hp ▸ rfl) rfl
      | written =>
          split <;> exact writerMoves_of_room_zero { hsame with } rfl trivial (hp ▸ rfl) rfl
      | eof => split <;> exact writerMoves_of_room_zero { hsame with } rfl trivial (hp ▸ rfl) rfl
  | wakeClear k =>
      cases hstep
      cases k with
      | sleep k => exact writerMoves_of_room_zero { hsame with } rfl hr (hp ▸ rfl) rfl
      | written => exact writerMoves_of_room_zero { hsame with } rfl trivial (hp ▸ rfl) rfl
      | eof => exact writerMoves_of_room_zero { hsame with } rfl trivial (hp ▸ rfl) rfl
  | wakeKill k =>
      cases hstep
      cases k with
      | sleep k => exact writerMoves_of_room_zero { hsame with } rfl hr (hp ▸ rfl) rfl
      | written => exact writerMoves_of_room_zero { hsame with } rfl trivial (hp ▸ rfl) rfl
      | eof => exact writerMoves_of_room_zero { hsame with } rfl trivial (hp ▸ rfl) rfl
  | suspended k =>
      unfold writerStep at hstep
      dsimp only at hstep
      split at hstep
      · cases hstep
        exact writerMoves_of_room_zero { hsame with } rfl hr (hp ▸ rfl) rfl
      · cases hstep
  | resetWakeup k =>
      cases hstep
      exact writerMoves_of_room_zero { hsame with } rfl hr (hp ▸ rfl) rfl
  | recalc k =>
      cases k with
      | write size => cases hr
      | ask min =>
          cases hstep
          apply writeReturns_moves (hp ▸ rfl)
          by_cases hcut : dataSize < s.writePtr + (dataSize - (s.written - s.done))
          · rw [if_pos hcut]
            exact cut_le_size hptr hsize (UInt64.le_of_lt hcut)
          · rw [if_neg hcut]
            exact UInt64.le_refl _
  | writtenCheck =>
      cases hstep
      split <;> exact writerMoves_of_room_zero { hsame with } rfl trivial (hp ▸ rfl) rfl
  | writtenReset =>
      cases hstep
      exact writerMoves_of_room_zero { hsame with } rfl trivial (hp ▸ rfl) rfl

theorem not_ending_of_calling (h : s.writer = .idle ∨ ∃ msize, s.writer = .granted msize) :
    s.writer.ending = false := by
  rcases h with hidle | ⟨msize, hgranted⟩
  · rw [hidle]
    rfl
  · rw [hgranted]
    rfl

end Pipe

end AsimFeeder.Tracer
