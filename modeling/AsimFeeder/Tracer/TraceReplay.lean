/-
What the reader of the tracer's buffer sees: the stream, in order, from wherever it
backed up to.

Counters and pointers of the pipe are kept in step with the positions they stand for
(`Pipe.At`), and the data area holds the records from the committed position on.  The
writer's room is computed from there, so the slot it fills belongs to none of them.
The reader cannot leave the loop of `NextInstr` unless a record is there or the end is.
-/
import AsimFeeder.Tracer.FeedTrace

namespace AsimFeeder.Tracer

open Lib

/-! ### What every run keeps -/

/-- The counters and the pointers of the pipe stand for these positions. -/
structure Pipe.At (pipe : Pipe) (position committed published : Nat) : Prop where
  read : pipe.read = bytes position
  done : pipe.done = bytes committed
  written : pipe.written = bytes published
  readPtr : pipe.readPtr = bytes (position % BUFFER_SIZE)
  writePtr : pipe.writePtr = bytes (published % BUFFER_SIZE)

theorem Pipe.At.same {s t : Pipe} {position committed published : Nat}
    (h : s.At position committed published) (hsame : Pipe.SamePositions s t) :
    t.At position committed published where
  read := hsame.read.trans h.read
  done := hsame.done.trans h.done
  written := hsame.written.trans h.written
  readPtr := hsame.readPtr.trans h.readPtr
  writePtr := hsame.writePtr.trans h.writePtr

theorem ptr_lt (p : Nat) : bytes (p % BUFFER_SIZE) < dataSize := by
  rw [← bytes_bufferSize, bytes_lt (mod_bufferSize_le _) (by omega)]
  exact Nat.mod_lt _ (by decide)

/-- An end that is not known yet is past every position. -/
theorem bytes_lt_max (n : Nat) : bytes n < UINT64_MAX := by
  rw [UInt64.lt_iff_toNat_lt, toNat_bytes_mod]
  show _ < 18446744073709551615
  omega

namespace TraceBuffer

variable {Rec : Type} {stream : Nat → Rec} {s t : TraceBuffer Rec}

structure Synced (stream : Nat → Rec) (s : TraceBuffer Rec) : Prop where
  at' : s.pipe.At s.position s.committed s.published
  committed_le : s.committed ≤ s.position
  position_le : s.position ≤ s.handed
  handed_le : s.handed ≤ s.published
  published_le : s.published ≤ s.committed + BUFFER_SIZE
  eof : s.pipe.writer.ending = false → s.pipe.eof = UINT64_MAX
  reader : s.pipe.reader.ByRecord
  writer : s.pipe.writer.ByRecord
  ready : s.pipe.reader.waiting = false → s.position < s.published ∨ s.pipe.isEOF = true
  just : s.justNext = true → s.committed < s.position
  granted : isize ≤ s.pipe.writer.room → s.published < s.committed + BUFFER_SIZE
  filled : s.filled = true → isize ≤ s.pipe.writer.room
  data : Holds BUFFER_SIZE s.data stream s.committed
    (if s.filled then s.published + 1 else s.published)

theorem synced_start (data : Fin BUFFER_SIZE → Rec) : Synced stream (start data) where
  at' := ⟨rfl, rfl, rfl, rfl, rfl⟩
  committed_le := Nat.le_refl _
  position_le := Nat.le_refl _
  handed_le := Nat.le_refl _
  published_le := Nat.zero_le _
  eof _ := rfl
  reader := rfl
  writer := trivial
  ready h := by cases h
  just h := by cases h
  granted h := absurd (show isize ≤ 0 from h) (by decide)
  filled h := by cases h
  data := holds_empty _ _ _

namespace Synced

/-- There is no end before the writer puts it. -/
theorem not_isEOF (h : Synced stream s) (he : s.pipe.writer.ending = false) :
    s.pipe.isEOF = false := by
  unfold Pipe.isEOF
  rw [h.eof he, h.at'.read, decide_eq_false_iff_not, UInt64.not_le]
  exact bytes_lt_max _

theorem size_read (h : Synced stream s) :
    s.pipe.written - s.pipe.read = bytes (s.published - s.position) := by
  rw [h.at'.written, h.at'.read, bytes_sub (h.position_le.trans h.handed_le)]

/-- What the writer has to fill is what the committed position leaves. -/
theorem size_write (h : Synced stream s) :
    dataSize - (s.pipe.written - s.pipe.done) =
      bytes (BUFFER_SIZE - (s.published - s.committed)) := by
  have := h.published_le
  rw [h.at'.written, h.at'.done, ← bytes_bufferSize,
    ← bytes_sub ((h.committed_le.trans h.position_le).trans h.handed_le), ← bytes_sub (by omega)]

/-! ### The reader -/

theorem readerStep (h : Synced stream s) {pipe : Pipe}
    (hstep : s.pipe.readerStep dataSize s.pipe.reader = some pipe) :
    Synced stream { s with pipe := pipe } := by
  have hmoves := Pipe.readerStep_moves rfl h.reader (h.at'.readPtr ▸ UInt64.le_of_lt
    (ptr_lt _)) hstep
  have hsame := hmoves.toSamePositions
  exact {
    at' := h.at'.same hsame
    committed_le := h.committed_le
    position_le := h.position_le
    handed_le := h.handed_le
    published_le := h.published_le
    eof := fun he => hsame.eof.trans (h.eof (hmoves.writer ▸ he))
    reader := hmoves.byRecord
    writer := hmoves.writer ▸ h.writer
    ready := by
      intro hw
      rw [hsame.isEOF]
      rcases hmoves.ready hw with hw | hsize | heof
      · exact h.ready hw
      · rw [h.size_read] at hsize
        rcases Nat.lt_or_ge s.position s.published with hlt | hge
        · exact .inl hlt
        · rw [Nat.sub_eq_zero_of_le hge] at hsize
          exact absurd bytes_zero hsize
      · exact .inr heof
    just := h.just
    granted := hmoves.writer ▸ h.granted
    filled := hmoves.writer ▸ h.filled
    data := h.data }

theorem nextInstr (h : Synced stream s) (heof : s.pipe.isEOF = false)
    (hidle : s.pipe.reader = .idle) :
    Synced stream
      { s with
        pipe := { s.pipe.incReadPtr dataSize isize with reader := .maxRead .nextInstr }
        position := s.position + 1
        handed := max s.handed (s.position + 1)
        justNext := true } := by
  have hlt : s.position < s.published := by
    rcases h.ready (hidle ▸ rfl) with hlt | hend
    · exact hlt
    · rw [heof] at hend
      cases hend
  exact {
    at' := {
      read := by
        show s.pipe.read + isize = _
        rw [h.at'.read, bytes_add, bytes_one]
      done := h.at'.done
      written := h.at'.written
      readPtr := by
        unfold Pipe.incReadPtr
        dsimp only
        rw [h.at'.readPtr, incPtr_bytes]
      writePtr := h.at'.writePtr }
    committed_le := Nat.le_succ_of_le h.committed_le
    position_le := Nat.le_max_right _ _
    handed_le := Nat.max_le.mpr ⟨h.handed_le, hlt⟩
    published_le := h.published_le
    eof := h.eof
    reader := rfl
    writer := h.writer
    ready := fun hw => by cases hw
    just := fun _ => Nat.lt_succ_of_le h.committed_le
    granted := h.granted
    filled := h.filled
    data := h.data }

theorem prevInstr (h : Synced stream s) (hjust : s.justNext = true) :
    Synced stream
      { s with
        pipe := s.pipe.decReadPtr dataSize isize
        position := s.position - 1
        justNext := false } := by
  have hlt := h.just hjust
  have hle := h.position_le
  have hhp := h.handed_le
  exact {
    at' := {
      read := by
        show s.pipe.read - isize = _
        rw [h.at'.read, bytes_sub (by omega), bytes_one]
      done := h.at'.done
      written := h.at'.written
      readPtr := by
        apply decReadPtr_readPtr
        rw [Nat.sub_add_cancel (by omega)]
        exact h.at'.readPtr
      writePtr := h.at'.writePtr }
    committed_le := Nat.le_sub_one_of_lt hlt
    position_le := (Nat.sub_le _ _).trans hle
    handed_le := h.handed_le
    published_le := h.published_le
    eof := h.eof
    reader := h.reader
    writer := h.writer
    ready := fun _ => .inl (show s.position - 1 < s.published by omega)
    just := fun hj => by cases hj
    granted := h.granted
    filled := h.filled
    data := h.data }

theorem backup (h : Synced stream s) {n : Nat} (hcn : s.committed ≤ n) (hn : n < s.handed) :
    Synced stream
      { s with
        pipe := s.pipe.setReadPos dataSize (identifier n * isize)
        position := n
        justNext := false } := by
  have hcp := h.committed_le
  have hle := h.position_le
  have hhp := h.handed_le
  have hroom := h.published_le
  exact {
    at' := {
      read := identifier_bytes n
      done := h.at'.done
      written := h.at'.written
      readPtr := by
        rw [identifier_bytes]
        exact setReadPos_readPtr h.at'.read h.at'.readPtr (by omega) (by omega)
      writePtr := h.at'.writePtr }
    committed_le := hcn
    position_le := Nat.le_of_lt hn
    handed_le := h.handed_le
    published_le := h.published_le
    eof := h.eof
    reader := h.reader
    writer := h.writer
    ready := fun _ => .inl (Nat.lt_of_lt_of_le hn hhp)
    just := fun hj => by cases hj
    granted := h.granted
    filled := h.filled
    data := h.data }

theorem commitInstr (h : Synced stream s) {n : Nat} (hcn : s.committed ≤ n)
    (hn : n < s.position) (hidle : s.pipe.reader = .idle) :
    Synced stream
      { s with
        pipe := { s.pipe with done := (identifier n + 1) * isize, reader := .posCheck }
        committed := n + 1
        justNext := false } where
  at' := {
    read := h.at'.read
    done := by
      show (identifier n + 1) * isize = _
      rw [UInt64.add_mul, identifier_bytes, UInt64.one_mul, bytes_add, bytes_one]
    written := h.at'.written
    readPtr := h.at'.readPtr
    writePtr := h.at'.writePtr }
  committed_le := hn
  position_le := h.position_le
  handed_le := h.handed_le
  published_le := by
    have := h.published_le
    show s.published ≤ n + 1 + BUFFER_SIZE
    omega
  eof := h.eof
  reader := trivial
  writer := h.writer
  ready _ := h.ready (hidle ▸ rfl)
  just hj := by cases hj
  granted hroom := by
    have := h.granted hroom
    show s.published < n + 1 + BUFFER_SIZE
    omega
  filled := h.filled
  data := h.data.mono (Nat.le_succ_of_le hcn) (Nat.le_refl _)

/-! ### The writer -/

theorem writerStep (h : Synced stream s) {pipe : Pipe}
    (hstep : s.pipe.writerStep dataSize s.pipe.writer = some pipe) :
    Synced stream { s with pipe := pipe } := by
  have hsize : dataSize - (s.pipe.written - s.pipe.done) ≤ dataSize := by
    rw [h.size_write, ← bytes_bufferSize, bytes_le (by omega) (by omega)]
    omega
  have hmoves := Pipe.writerStep_moves rfl h.writer (h.at'.writePtr ▸ UInt64.le_of_lt (ptr_lt _))
    hsize hstep
  have hsame := hmoves.toSamePositions
  -- what is filled is published before anything else
  have hnot : s.filled = false := by
    rw [← Bool.not_eq_true]
    intro hf
    rw [WriterPhase.granted_of_room (h.filled hf)] at hstep
    cases hstep
  exact {
    at' := h.at'.same hsame
    committed_le := h.committed_le
    position_le := h.position_le
    handed_le := h.handed_le
    published_le := h.published_le
    eof := fun he => hsame.eof.trans (h.eof (hmoves.ending ▸ he))
    reader := hmoves.reader ▸ h.reader
    writer := hmoves.byRecord
    ready := by
      intro hw
      rw [hsame.isEOF]
      exact h.ready (hmoves.reader ▸ hw)
    just := h.just
    granted := by
      intro hroom
      have hfree := hmoves.granted hroom
      rw [h.size_write, ← bytes_one, bytes_le (by decide) (by omega)] at hfree
      show s.published < s.committed + BUFFER_SIZE
      omega
    filled := fun hf => by
      rw [hnot] at hf
      cases hf
    data := h.data }

/-- The writer calls: nothing moves, and it has nothing to fill until it is granted something. -/
theorem writerCalls (h : Synced stream s) (hf : s.filled = false) {writer : WriterPhase}
    {eof : UInt64} (hr : writer.ByRecord) (hroom : writer.room = 0)
    (he : writer.ending = false → eof = UINT64_MAX)
    (hready : s.pipe.isEOF = true → eof ≤ s.pipe.read) :
    Synced stream { s with pipe := { s.pipe with eof := eof, writer := writer } } where
  at' := ⟨h.at'.read, h.at'.done, h.at'.written, h.at'.readPtr, h.at'.writePtr⟩
  committed_le := h.committed_le
  position_le := h.position_le
  handed_le := h.handed_le
  published_le := h.published_le
  eof := he
  reader := h.reader
  writer := hr
  ready hw := (h.ready hw).imp_right fun hend => decide_eq_true (hready hend)
  just := h.just
  granted hg := by
    rw [show WriterPhase.room _ = 0 from hroom] at hg
    exact absurd hg (by decide)
  filled hfilled := by
    rw [show s.filled = true from hfilled] at hf
    cases hf
  data := h.data

theorem fill (h : Synced stream s) (hroom : isize ≤ s.pipe.writer.room) :
    Synced stream
      { s with
        data := Function.update s.data (slotAt s.pipe.writePtr) (stream s.published)
        filled := true } :=
  { h with
    filled := fun _ => hroom
    data := by
      rw [h.at'.writePtr, slotAt_bytes]
      apply Holds.push (h.data.mono (Nat.le_refl _) ?_) (h.granted hroom)
      split
      · exact Nat.le_succ _
      · exact Nat.le_refl _ }

theorem incWritePtr (h : Synced stream s) (hf : s.filled = true)
    (he : s.pipe.writer.ending = false) :
    Synced stream
      { s with
        pipe := s.pipe.incWritePtr dataSize isize
        published := s.published + 1
        filled := false } where
  at' := {
    read := h.at'.read
    done := h.at'.done
    written := by
      show s.pipe.written + isize = _
      rw [h.at'.written, bytes_add, bytes_one]
    readPtr := h.at'.readPtr
    writePtr := by
      unfold Pipe.incWritePtr
      dsimp only
      rw [h.at'.writePtr, incPtr_bytes] }
  committed_le := h.committed_le
  position_le := h.position_le
  handed_le := Nat.le_succ_of_le h.handed_le
  published_le := h.granted (h.filled hf)
  eof _ := h.eof he
  reader := h.reader
  writer := trivial
  ready hw := (h.ready hw).imp_left Nat.lt_succ_of_lt
  just := h.just
  granted hg := absurd (show isize ≤ 0 from hg) (by decide)
  filled hfilled := by cases hfilled
  data := by
    have hdata := h.data
    rw [if_pos hf] at hdata
    exact hdata

/-! ### Every event -/

theorem exec {e : TraceEvent} (h : Synced stream s) (hexec : s.exec stream e = some t) :
    Synced stream t := by
  cases e with
  | nextInstr =>
      simp only [TraceBuffer.exec, Option.ite_none_left_eq_some, Option.map_eq_some_iff] at hexec
      obtain ⟨heof, pipe, hcall, rfl⟩ := hexec
      obtain ⟨hidle, hcall⟩ := Pipe.exec_reader hcall
      cases hcall
      exact h.nextInstr (by simpa using heof) hidle
  | prevInstr =>
      simp only [TraceBuffer.exec, Option.ite_none_right_eq_some, Option.some.injEq] at hexec
      obtain ⟨⟨-, hjust⟩, rfl⟩ := hexec
      exact h.prevInstr hjust
  | backup n =>
      simp only [TraceBuffer.exec, Option.ite_none_right_eq_some, Option.some.injEq] at hexec
      obtain ⟨⟨-, hcn, hn⟩, rfl⟩ := hexec
      exact h.backup hcn hn
  | commitInstr n =>
      simp only [TraceBuffer.exec, Option.ite_none_right_eq_some, Option.map_eq_some_iff] at hexec
      obtain ⟨⟨hcn, hn⟩, pipe, hcall, rfl⟩ := hexec
      obtain ⟨hidle, hcall⟩ := Pipe.exec_reader hcall
      cases hcall
      exact h.commitInstr hcn hn hidle
  | readerStep =>
      simp only [TraceBuffer.exec, Option.map_eq_some_iff] at hexec
      obtain ⟨pipe, hstep, rfl⟩ := hexec
      exact h.readerStep hstep
  | getMaxWriteSize min =>
      simp only [TraceBuffer.exec, Option.ite_none_left_eq_some, Option.map_eq_some_iff] at hexec
      obtain ⟨hf, pipe, hcall, rfl⟩ := hexec
      obtain ⟨hcalling, granted, hcall⟩ := Pipe.exec_writer hcall
      have he := Pipe.not_ending_of_calling hcalling
      cases hcall
      exact h.writerCalls (by simpa using hf) trivial rfl (fun _ => h.eof he)
        (fun hend => of_decide_eq_true hend)
  | fill =>
      simp only [TraceBuffer.exec, Option.ite_none_right_eq_some, Option.some.injEq] at hexec
      obtain ⟨hroom, rfl⟩ := hexec
      exact h.fill hroom
  | incWritePtr =>
      simp only [TraceBuffer.exec, Option.ite_none_right_eq_some, Option.map_eq_some_iff] at hexec
      obtain ⟨hf, pipe, hcall, rfl⟩ := hexec
      obtain ⟨hcalling, granted, hcall⟩ := Pipe.exec_writer hcall
      have he := Pipe.not_ending_of_calling hcalling
      simp only [Pipe.writerCall, Option.ite_none_right_eq_some, Option.some.injEq] at hcall
      obtain ⟨-, rfl⟩ := hcall
      exact h.incWritePtr hf he
  | setEOF =>
      simp only [TraceBuffer.exec, Option.ite_none_left_eq_some, Option.map_eq_some_iff] at hexec
      obtain ⟨hf, pipe, hcall, rfl⟩ := hexec
      obtain ⟨hcalling, granted, hcall⟩ := Pipe.exec_writer hcall
      have he := Pipe.not_ending_of_calling hcalling
      cases hcall
      refine h.writerCalls (by simpa using hf) trivial rfl (fun hend => by cases hend) fun
        hend => ?_
      rw [h.not_isEOF he] at hend
      cases hend
  | writerStep =>
      simp only [TraceBuffer.exec, Option.map_eq_some_iff] at hexec
      obtain ⟨pipe, hstep, rfl⟩ := hexec
      exact h.writerStep hstep

/-- The record at the read pointer is the one at the reader's position. -/
theorem curInst (h : Synced stream s) (hw : s.pipe.reader.waiting = false)
    (heof : s.pipe.isEOF = false) : s.curInst = stream s.position := by
  have hlt : s.position < s.published := by
    rcases h.ready hw with hlt | hend
    · exact hlt
    · rw [heof] at hend
      cases hend
  unfold TraceBuffer.curInst
  rw [h.at'.readPtr, slotAt_bytes]
  apply h.data _ h.committed_le
  split
  · exact Nat.lt_succ_of_lt hlt
  · exact hlt

end Synced

theorem synced_of_reaches (hs : Reaches Start (Step stream) s) : Synced stream s := by
  apply hs.invariant
  · rintro s ⟨data, rfl⟩
    exact synced_start data
  · rintro s t h ⟨e, hexec⟩
    exact h.exec hexec

/-! ### The stream is replayed -/

/--
**Wherever the two are, the record at the read pointer is the record of the stream that
`GetIdentifier` names, both pointers are where their counters say, inside the data area,
and the slot that the writer may fill is not that of a record which is not committed.**
The identifier is a word of record numbers and wraps with the counter.
-/
theorem replays_stream (hs : Reaches Start (Step stream) s) :
    (s.pipe.reader.waiting = false → s.pipe.isEOF = false →
      s.curInst = stream s.position ∧ s.getIdentifier.toNat = s.position % 2 ^ 59) ∧
    (s.pipe.readPtr = s.pipe.read % dataSize ∧ s.pipe.readPtr < dataSize) ∧
    (s.pipe.writePtr = s.pipe.written % dataSize ∧ s.pipe.writePtr < dataSize) ∧
    (s.pipe.done = bytes s.committed ∧ s.pipe.written = bytes s.published) ∧
    (isize ≤ s.pipe.writer.room → ∀ p, s.committed ≤ p → p < s.published →
      slotAt s.pipe.writePtr ≠ slot BUFFER_SIZE p) := by
  have h := synced_of_reaches hs
  refine ⟨fun hw heof => ⟨h.curInst hw heof, ?_⟩, ⟨?_, ?_⟩, ⟨?_, ?_⟩,
    ⟨h.at'.done, h.at'.written⟩, ?_⟩
  · unfold getIdentifier
    rw [h.at'.read]
    exact toNat_identifier _
  · rw [h.at'.readPtr, h.at'.read, bytes_mod]
  · rw [h.at'.readPtr]
    exact ptr_lt _
  · rw [h.at'.writePtr, h.at'.written, bytes_mod]
  · rw [h.at'.writePtr]
    exact ptr_lt _
  · intro hroom p hcp hp
    have := h.granted hroom
    rw [h.at'.writePtr, slotAt_bytes]
    exact slot_ne (by omega) (by omega) (by omega)

/-- Two records are published, the reader goes on, commits the first and looks at the second. -/
def twoRecords : List TraceEvent :=
  [.getMaxWriteSize 0, .writerStep, .fill, .incWritePtr, .writerStep,
    .getMaxWriteSize 0, .writerStep, .fill, .incWritePtr,
    .readerStep, .nextInstr, .readerStep, .commitInstr 0, .readerStep]

theorem replays_stream_twoRecords : ∃ s : TraceBuffer Nat, s.position = 1 ∧ s.committed = 1 ∧
    s.curInst = 8 ∧ s.getIdentifier.toNat = 1 := by
  have hrun {s : TraceBuffer Nat}
      (h : after (TraceBuffer.exec (· + 7)) (fun _ _ => true) twoRecords (start fun _ => 0) =
        some s) :
      Reaches Start (Step (· + 7)) s :=
    Reaches.after (fun _ e _ _ hexec => ⟨e, hexec⟩) (.start ⟨_, rfl⟩) h
  exact ⟨_, rfl, rfl, (replays_stream (hrun rfl)).1 rfl rfl⟩

end TraceBuffer

end AsimFeeder.Tracer
