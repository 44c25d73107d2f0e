/-
Who sleeps in the tracer's pipe, and who wakes whom.

The two processes follow the protocol of `Sleeper`: seen from its flag, its signal and
where it is in `SleepReadCheck`, `SleepWriteCheck` or `Wakeup`, every step of either is a
step of it or leaves all that as it is.  So they never both sleep with no signal pending,
whatever they found before they decided to sleep.

They may still decide to sleep too late.  The reader looks for the end before it announces
that it sleeps, and when `SetEOF` comes between the two, nobody wakes it any more.
-/
import AsimFeeder.Tracer.Pipe

namespace AsimFeeder.Tracer

open Lib

/-! ### The phases, as far as sleeping goes -/

def ReaderPhase.mode : ReaderPhase → Mode
  | .checkOther _ | .resetOther _ | .wakeLoad (some _) | .wakeClear (some _)
  | .wakeKill (some _) => .announced
  | .suspended _ => .looked
  | _ => .awake

def ReaderPhase.hand : ReaderPhase → Hand
  | .wakeClear _ => .taking
  | .wakeKill _ => .killing
  | _ => .free

def WriterPhase.mode : WriterPhase → Mode
  | .checkOther _ | .resetOther _ | .wakeLoad (.sleep _) | .wakeClear (.sleep _)
  | .wakeKill (.sleep _) => .announced
  | .suspended _ => .looked
  | _ => .awake

def WriterPhase.hand : WriterPhase → Hand
  | .wakeClear _ => .taking
  | .wakeKill _ => .killing
  | _ => .free

namespace Pipe

variable {dataSize : UInt64} {s t : Pipe}

def readerSide (s : Pipe) : Sleeper where
  mode := s.reader.mode
  flag := s.anyReaderSleeping
  signal := s.readerSignal
  hand := s.reader.hand

def writerSide (s : Pipe) : Sleeper where
  mode := s.writer.mode
  flag := s.anyWriterSleeping
  signal := s.writerSignal
  hand := s.writer.hand

/-- What `GetMaxReadSize` returns to leaves the reader awake. -/
theorem readReturns_skips (s : Pipe) (k : ReadCall) (msize : UInt64) :
    Sleeper.Step ⟨.awake, s.anyReaderSleeping, s.readerSignal, .free⟩ s.writerSide
      (s.readReturns dataSize k msize).readerSide (s.readReturns dataSize k msize).writerSide := by
  cases k with
  | read size =>
      unfold readReturns
      dsimp only
      split <;> exact .skip _ _
  | nextInstr =>
      unfold readReturns
      dsimp only
      split <;> exact .skip _ _

theorem writeReturns_skips (s : Pipe) (k : WriteCall) (msize : UInt64) :
    Sleeper.Step ⟨.awake, s.anyWriterSleeping, s.writerSignal, .free⟩ s.readerSide
      (s.writeReturns dataSize k msize).writerSide
      (s.writeReturns dataSize k msize).readerSide := by
  cases k with
  | write size =>
      unfold writeReturns
      dsimp only
      split <;> exact .skip _ _
  | ask min => exact .skip _ _

/-- **A step of the reader is one of its side, as the writer sees it.** -/
theorem readerStep_refines {p : ReaderPhase} (hp : s.reader = p)
    (hstep : s.readerStep dataSize p = some t) :
    Sleeper.Step s.readerSide s.writerSide t.readerSide t.writerSide := by
  have hside : s.readerSide = ⟨p.mode, s.anyReaderSleeping, s.readerSignal, p.hand⟩ := by
    unfold readerSide
    rw [hp]
  rw [hside]
  cases p with
  | idle => cases hstep
  | ended => cases hstep
  | maxRead k =>
      unfold readerStep at hstep
      dsimp only at hstep
      split at hstep
      · cases hstep
        exact readReturns_skips s k _
      · split at hstep <;> cases hstep
        · exact .skip _ _
        · exact readReturns_skips s k _
  | eofCheck k =>
      unfold readerStep at hstep
      dsimp only at hstep
      split at hstep <;> cases hstep
      · exact readReturns_skips s k _
      · exact .skip _ _
  | sleepCheck k =>
      unfold readerStep at hstep
      dsimp only at hstep
      split at hstep <;> cases hstep
      · exact readReturns_skips s k _
      · exact .skip _ _
  | decideSleep k wakeup =>
      cases hstep
      unfold readerSide
      dsimp only
      split <;> exact .skip _ _
  | storeWakeup k wakeup =>
      cases hstep
      exact .skip _ _
  | announce k =>
      cases hstep
      exact .announce rfl rfl
  | checkOther k =>
      cases hstep
      unfold readerSide
      dsimp only
      split
      · exact .skip _ _
      · rename_i hflag
        exact .look rfl rfl (Bool.not_eq_true _ ▸ hflag)
  | resetOther k =>
      cases hstep
      exact .skip _ _
  | wakeLoad k =>
      cases hstep
      unfold readerSide
      dsimp only
      split
      · rename_i hflag
        cases k with
        | none => exact .find (by simp [ReaderPhase.mode]) rfl hflag
        | some k => exact .find (by simp [ReaderPhase.mode]) rfl hflag
      · rename_i hflag
        cases k with
        | none => exact .skip _ _
        | some k => exact .look rfl rfl (Bool.not_eq_true _ ▸ hflag)
  | wakeClear k =>
      cases hstep
      cases k <;> exact .take rfl
  | wakeKill k =>
      cases hstep
      cases k <;> exact .kill rfl
  | suspended k =>
      unfold readerStep at hstep
      dsimp only at hstep
      split at hstep
      · rename_i hsignal
        cases hstep
        exact .wake rfl hsignal
      · cases hstep
  | resetWakeup k =>
      cases hstep
      exact .skip _ _
  | recalc k =>
      cases hstep
      exact readReturns_skips s k _
  | loopEof =>
      cases hstep
      unfold readerSide
      dsimp only
      split <;> exact .skip _ _
  | incDone size =>
      cases hstep
      exact .skip _ _
  | doneCheck =>
      cases hstep
      unfold readerSide
      dsimp only
      split <;> exact .skip _ _
  | posCheck =>
      cases hstep
      unfold readerSide
      dsimp only
      split <;> exact .skip _ _
  | posWritten =>
      cases hstep
      unfold readerSide
      dsimp only
      split <;> exact .skip _ _
  | doneReset =>
      cases hstep
      exact .skip _ _

/-- **A step of the writer is one of its side, as the reader sees it.** -/
theorem writerStep_refines {p : WriterPhase} (hp : s.writer = p)
    (hstep : s.writerStep dataSize p = some t) :
    Sleeper.Step s.writerSide s.readerSide t.writerSide t.readerSide := by
  have hside : s.writerSide = ⟨p.mode, s.anyWriterSleeping, s.writerSignal, p.hand⟩ := by
    unfold writerSide
    rw [hp]
  rw [hside]
  cases p with
  | idle => cases hstep
  | granted msize => cases hstep
  | ended => cases hstep
  | maxWrite k =>
      unfold writerStep at hstep
      dsimp only at hstep
      split at hstep
      · cases hstep
        exact writeReturns_skips s k _
      · split at hstep <;> cases hstep
        · exact .skip _ _
        · exact writeReturns_skips s k _
  | sleepCheck k =>
      unfold writerStep at hstep
      dsimp only at hstep
      split at hstep <;> cases hstep
      · exact writeReturns_skips s k _
      · exact .skip _ _
  | decideSleep k wakeup =>
      cases hstep
      unfold writerSide
      dsimp only
      split <;> exact .skip _ _
  | storeWakeup k wakeup =>
      cases hstep
      exact .skip _ _
  | announce k =>
      cases hstep
      exact .announce rfl rfl
  | checkOther k =>
      cases hstep
      unfold writerSide
      dsimp only
      split
      · exact .skip _ _
      · rename_i hflag
        exact .look rfl rfl (Bool.not_eq_true _ ▸ hflag)
  | resetOther k =>
      cases hstep
      exact .skip _ _
  | wakeLoad k =>
      cases hstep
      unfold writerSide
      dsimp only
      split
      · rename_i hflag
        cases k with
        | sleep k => exact .find (by simp [WriterPhase.mode]) rfl hflag
        | written => exact .find (by simp [WriterPhase.mode]) rfl hflag
        | eof => exact .find (by simp [WriterPhase.mode]) rfl hflag
      · rename_i hflag
        cases k with
        | sleep k => exact .look rfl rfl (Bool.not_eq_true _ ▸ hflag)
        | written => exact .skip _ _
        | eof => exact .skip _ _
  | wakeClear k =>
      cases hstep
      cases k <;> exact .take rfl
  | wakeKill k =>
      cases hstep
      cases k <;> exact .kill rfl
  | suspended k =>
      unfold writerStep at hstep
      dsimp only at hstep
      split at hstep
      · rename_i hsignal
        cases hstep
        exact .wake rfl hsignal
      · cases hstep
  | resetWakeup k =>
      cases hstep
      exact .skip _ _
  | recalc k =>
      cases hstep
      exact writeReturns_skips s k _
  | writtenCheck =>
      cases hstep
      unfold writerSide
      dsimp only
      split <;> exact .skip _ _
  | writtenReset =>
      cases hstep
      exact .skip _ _

theorem readerCall_refines {call : ReaderCall} (hidle : s.reader = .idle)
    (hcall : s.readerCall dataSize call = some t) :
    Sleeper.Step s.readerSide s.writerSide t.readerSide t.writerSide := by
  have hside : s.readerSide = ⟨.awake, s.anyReaderSleeping, s.readerSignal, .free⟩ := by
    unfold readerSide
    rw [hidle]
    rfl
  rw [hside]
  cases call with
  | isEOF =>
      cases hcall
      unfold readerSide
      dsimp only
      split <;> exact .skip _ _
  | read size => cases hcall; exact .skip _ _
  | startTracer => cases hcall; exact .skip _ _
  | nextInstr => cases hcall; exact .skip _ _
  | commitInstr ident => cases hcall; exact .skip _ _

theorem writerCall_refines {call : WriterCall} {msize : UInt64}
    (hup : s.writerSide = ⟨.awake, s.anyWriterSleeping, s.writerSignal, .free⟩)
    (hcall : s.writerCall dataSize msize call = some t) :
    Sleeper.Step s.writerSide s.readerSide t.writerSide t.readerSide := by
  rw [hup]
  cases call with
  | incWritePtr size =>
      unfold writerCall at hcall
      dsimp only at hcall
      split at hcall <;> cases hcall
      exact .skip _ _
  | write size => cases hcall; exact .skip _ _
  | getMaxWriteSize min => cases hcall; exact .skip _ _
  | setEOF => cases hcall; exact .skip _ _

/-- An announcement is in one place, and no two processes have missed each other's. -/
def Sound (s : Pipe) : Prop := Sleeper.Sound s.readerSide s.writerSide

theorem writerSide_of_calling (h : s.writer = .idle ∨ ∃ msize, s.writer = .granted msize) :
    s.writerSide = ⟨.awake, s.anyWriterSleeping, s.writerSignal, .free⟩ := by
  unfold writerSide
  rcases h with hidle | ⟨msize, hgranted⟩
  · rw [hidle]
    rfl
  · rw [hgranted]
    rfl

theorem Sound.exec (h : s.Sound) {e : PipeEvent} (hexec : s.exec dataSize e = some t) :
    t.Sound := by
  cases e with
  | reader call =>
      obtain ⟨hidle, hcall⟩ := exec_reader hexec
      exact Sleeper.Sound.step h (readerCall_refines hidle hcall)
  | readerStep => exact Sleeper.Sound.step h (readerStep_refines rfl hexec)
  | writer call =>
      obtain ⟨hcalling, msize, hcall⟩ := exec_writer hexec
      have hup := writerSide_of_calling hcalling
      exact ((Sleeper.Sound.symm h).step (writerCall_refines hup hcall)).symm
  | writerStep => exact ((Sleeper.Sound.symm h).step (writerStep_refines rfl hexec)).symm

/-! ### Announcing in time -/

/--
The reader announces that it sleeps only before `SetEOF` is through, and the writer only
while the reader is not suspended with everything consumed and released.
-/
def AnnouncesInTime (s : Pipe) : PipeEvent → Prop
  | .readerStep => ∀ k, s.reader = .announce k → s.writer ≠ .ended
  | .writerStep => ∀ k, s.writer = .announce k → s.read = s.written → s.done = s.written →
      ∀ k', s.reader ≠ .suspended k'
  | _ => True

/-- A step of a run in which both announce themselves in time. -/
def TimelyStep (dataSize : UInt64) (s t : Pipe) : Prop :=
  ∃ e, s.AnnouncesInTime e ∧ s.exec dataSize e = some t

/-- What announcing in time keeps. -/
structure Timely (s : Pipe) : Prop where
  sound : s.Sound
  ended : s.writer = .ended → s.anyReaderSleeping = false
  consumed : s.anyWriterSleeping = true → s.read = s.written → s.done = s.written →
    ∀ k, s.reader ≠ .suspended k

theorem Timely.lively (h : s.Timely) : s.Lively := by
  constructor
  · rintro ⟨⟨k, hreader⟩, hsignal⟩
    have hlooked : s.readerSide.mode = .looked := by
      unfold readerSide
      rw [hreader]
      rfl
    constructor
    · rintro ⟨⟨k', hwriter⟩, hsignal'⟩
      have hlooked' : s.writerSide.mode = .looked := by
        unfold writerSide
        rw [hwriter]
        rfl
      have hwoken := Sleeper.Sound.not_both_asleep h.sound hlooked hlooked' hsignal
      exact Bool.false_ne_true (hsignal'.symm.trans hwoken)
    · intro hended
      have hflag := h.sound.mine.flag_of_silent (by simp [hlooked]) hsignal
        (by simp [writerSide, hended, WriterPhase.hand])
      exact Bool.false_ne_true ((h.ended hended).symm.trans hflag)
  · rintro ⟨⟨k, hwriter⟩, hsignal⟩ hread hdone k' hreader
    have hflag := h.sound.yours.flag_of_silent
      (by simp [writerSide, hwriter, WriterPhase.mode]) hsignal
      (by simp [readerSide, hreader, ReaderPhase.hand])
    exact h.consumed hflag hread hdone k' hreader

/-! ### What the other process sees of a step -/

section Returns

variable (s : Pipe) (size : UInt64)

@[simp] theorem readReturns_writer (k : ReadCall) :
    (s.readReturns dataSize k size).writer = s.writer := by
  unfold readReturns
  split
  · split <;> rfl
  · rfl

@[simp] theorem readReturns_written (k : ReadCall) :
    (s.readReturns dataSize k size).written = s.written := by
  unfold readReturns
  split
  · split <;> rfl
  · rfl

@[simp] theorem writeReturns_reader (k : WriteCall) :
    (s.writeReturns dataSize k size).reader = s.reader := by
  unfold writeReturns
  split
  · split <;> rfl
  · rfl

@[simp] theorem writeReturns_read (k : WriteCall) :
    (s.writeReturns dataSize k size).read = s.read := by
  unfold writeReturns
  split
  · split <;> rfl
  · rfl

@[simp] theorem writeReturns_done (k : WriteCall) :
    (s.writeReturns dataSize k size).done = s.done := by
  unfold writeReturns
  split
  · split <;> rfl
  · rfl

@[simp] theorem readReturns_flag (k : ReadCall) :
    (s.readReturns dataSize k size).anyReaderSleeping = s.anyReaderSleeping := by
  unfold readReturns
  split
  · split <;> rfl
  · rfl

@[simp] theorem writeReturns_flags (k : WriteCall) :
    (s.writeReturns dataSize k size).anyWriterSleeping = s.anyWriterSleeping ∧
      (s.writeReturns dataSize k size).anyReaderSleeping = s.anyReaderSleeping := by
  unfold writeReturns
  split
  · split <;> exact ⟨rfl, rfl⟩
  · exact ⟨rfl, rfl⟩

theorem writeReturns_not_ended (k : WriteCall) :
    (s.writeReturns dataSize k size).writer ≠ .ended := by
  unfold writeReturns
  split
  · split <;> nofun
  · nofun

end Returns

/-- The reader leaves alone what is the writer's. -/
theorem readerStep_writer {p : ReaderPhase} (hstep : s.readerStep dataSize p = some t) :
    t.writer = s.writer ∧ t.written = s.written := by
  unfold readerStep at hstep
  cases p <;> dsimp only at hstep <;> (repeat' split at hstep) <;> cases hstep <;> simp

/-- The writer leaves alone what is the reader's. -/
theorem writerStep_reader {p : WriterPhase} (hstep : s.writerStep dataSize p = some t) :
    t.reader = s.reader ∧ t.read = s.read ∧ t.done = s.done := by
  unfold writerStep at hstep
  cases p <;> dsimp only at hstep <;> (repeat' split at hstep) <;> cases hstep <;> simp

theorem readerStep_flag {p : ReaderPhase} (hp : ∀ k, p ≠ .announce k)
    (hstep : s.readerStep dataSize p = some t) : t.anyReaderSleeping = s.anyReaderSleeping := by
  unfold readerStep at hstep
  cases p with
  | announce k => exact absurd rfl (hp k)
  | _ => dsimp only at hstep; (repeat' split at hstep) <;> cases hstep <;> simp

theorem writerStep_flag {p : WriterPhase} (hp : ∀ k, p ≠ .announce k)
    (hstep : s.writerStep dataSize p = some t) : t.anyWriterSleeping = s.anyWriterSleeping := by
  unfold writerStep at hstep
  cases p with
  | announce k => exact absurd rfl (hp k)
  | _ => dsimp only at hstep; (repeat' split at hstep) <;> cases hstep <;> simp

/-- While it announces itself or sleeps, the writer writes nothing. -/
theorem writerStep_written {p : WriterPhase} (hp : p.mode ≠ .awake)
    (hstep : s.writerStep dataSize p = some t) : t.written = s.written := by
  unfold writerStep at hstep
  cases p <;> first
    | exact absurd rfl hp
    | dsimp only at hstep; (repeat' split at hstep) <;> cases hstep <;> rfl

/-- `SetEOF` is through when the reader's flag is down. -/
theorem Sound.ended (h : s.Sound) {p : WriterPhase} (hp : s.writer = p)
    (hstep : s.writerStep dataSize p = some t) (hended : t.writer = .ended) :
    t.anyReaderSleeping = false := by
  unfold writerStep at hstep
  cases p with
  | wakeLoad k =>
      cases hstep
      dsimp only at hended ⊢
      split at hended
      · cases hended
      · rename_i hflag
        exact (Bool.not_eq_true _).mp hflag
  | wakeKill k =>
      cases hstep
      have hkilling : s.writerSide.hand = .killing := by
        unfold writerSide
        rw [hp]
        rfl
      exact (h.mine.silent_of_killing hkilling).1
  | maxWrite k =>
      dsimp only at hstep
      split at hstep
      · cases hstep
        exact absurd hended (writeReturns_not_ended _ _ _)
      · split at hstep <;> cases hstep
        · cases hended
        · exact absurd hended (writeReturns_not_ended _ _ _)
  | sleepCheck k =>
      dsimp only at hstep
      split at hstep <;> cases hstep
      · exact absurd hended (writeReturns_not_ended _ _ _)
      · cases hended
  | recalc k =>
      cases hstep
      exact absurd hended (writeReturns_not_ended _ _ _)
  | _ =>
      dsimp only at hstep
      (repeat' split at hstep) <;> cases hstep <;> cases hended

/-- A process that has looked is suspended. -/
theorem suspended_of_looked {p : ReaderPhase} (hp : p.mode = .looked) :
    ∃ k, p = .suspended k := by
  unfold ReaderPhase.mode at hp
  split at hp
  all_goals first
    | exact ⟨_, rfl⟩
    | cases hp

/-! ### Every step keeps the run timely -/

theorem timely_init : init.Timely where
  sound := Sleeper.sound_awake rfl rfl
  ended := nofun
  consumed := nofun

/-- The reader is not suspended after its step, or it saw that the writer's flag is down. -/
theorem Sound.suspended (h : s.Sound) (hstep : s.readerStep dataSize s.reader = some t)
    {k : ReadCall} (hsuspended : t.reader = .suspended k) : t.anyWriterSleeping = false := by
  have hlooked : t.readerSide.mode = .looked := by
    unfold readerSide
    rw [hsuspended]
    rfl
  obtain hlooked' | hflag := Sleeper.Sound.looked h (readerStep_refines rfl hstep) hlooked
  · obtain ⟨k', hk⟩ := suspended_of_looked hlooked'
    rw [hk] at hstep
    unfold readerStep at hstep
    dsimp only at hstep
    split at hstep <;> cases hstep
    cases hsuspended
  · exact hflag

theorem Timely.readerStep (h : s.Timely)
    (htimely : ∀ k, s.reader = .announce k → s.writer ≠ .ended)
    (hstep : s.readerStep dataSize s.reader = some t) : t.Timely := by
  obtain ⟨hwriter, hwritten⟩ := readerStep_writer hstep
  refine ⟨h.sound.exec (e := .readerStep) hstep, ?_, ?_⟩
  · intro hended
    rw [hwriter] at hended
    rw [readerStep_flag (fun k hk => htimely k hk hended) hstep]
    exact h.ended hended
  · intro hflag _ _ k hsuspended
    rw [h.sound.suspended hstep hsuspended] at hflag
    cases hflag

theorem Timely.writerStep (h : s.Timely) (htimely : s.AnnouncesInTime .writerStep)
    (hstep : s.writerStep dataSize s.writer = some t) : t.Timely := by
  obtain ⟨hreader, hread, hdone⟩ := writerStep_reader hstep
  refine ⟨h.sound.exec (e := .writerStep) hstep, h.sound.ended rfl hstep, ?_⟩
  intro hflag hconsumed hreleased k hsuspended
  rw [hreader] at hsuspended
  rw [hread] at hconsumed
  rw [hdone] at hreleased
  by_cases hannounce : ∃ k', s.writer = .announce k'
  · obtain ⟨k', hk'⟩ := hannounce
    have hwritten : t.written = s.written := by
      rw [hk'] at hstep
      cases hstep
      rfl
    rw [hwritten] at hconsumed hreleased
    exact htimely k' hk' hconsumed hreleased k hsuspended
  · have hsame := writerStep_flag (fun k' hk' => hannounce ⟨k', hk'⟩) hstep
    rw [hsame] at hflag
    -- the flag is up, so the writer is not where it writes
    have hmode : s.writer.mode ≠ .awake := by
      intro hawake
      have hdown := h.sound.yours.flag_false_of_awake hawake
      exact Bool.false_ne_true (hdown.symm.trans hflag)
    rw [writerStep_written hmode hstep] at hconsumed hreleased
    exact h.consumed hflag hconsumed hreleased k hsuspended

theorem Timely.readerCall (h : s.Timely) {call : ReaderCall}
    (hexec : s.exec dataSize (.reader call) = some t) : t.Timely := by
  have hsound := h.sound.exec hexec
  obtain ⟨hidle, hcall⟩ := exec_reader hexec
  have hframe : t.writer = s.writer ∧ t.anyReaderSleeping = s.anyReaderSleeping ∧
      ∀ k, t.reader ≠ .suspended k := by
    cases call with
    | isEOF =>
        cases hcall
        refine ⟨rfl, rfl, ?_⟩
        intro k
        dsimp only
        split <;> nofun
    | read size => cases hcall; exact ⟨rfl, rfl, nofun⟩
    | startTracer => cases hcall; exact ⟨rfl, rfl, nofun⟩
    | nextInstr => cases hcall; exact ⟨rfl, rfl, nofun⟩
    | commitInstr ident => cases hcall; exact ⟨rfl, rfl, nofun⟩
  obtain ⟨hwriter, hflag, hreader⟩ := hframe
  refine ⟨hsound, ?_, fun _ _ _ => hreader⟩
  rw [hwriter, hflag]
  exact h.ended

theorem Timely.writerCall (h : s.Timely) {call : WriterCall}
    (hexec : s.exec dataSize (.writer call) = some t) : t.Timely := by
  have hsound := h.sound.exec hexec
  obtain ⟨hcalling, msize, hcall⟩ := exec_writer hexec
  have hup := writerSide_of_calling hcalling
  have hdown : s.anyWriterSleeping = false :=
    h.sound.yours.flag_false_of_awake (by rw [hup])
  have hframe : t.writer ≠ .ended ∧ t.anyWriterSleeping = s.anyWriterSleeping := by
    cases call with
    | incWritePtr size =>
        unfold Pipe.writerCall at hcall
        dsimp only at hcall
        split at hcall <;> cases hcall
        exact ⟨nofun, rfl⟩
    | write size => cases hcall; exact ⟨nofun, rfl⟩
    | getMaxWriteSize min => cases hcall; exact ⟨nofun, rfl⟩
    | setEOF => cases hcall; exact ⟨nofun, rfl⟩
  refine ⟨hsound, fun hended => absurd hended hframe.1, ?_⟩
  intro hflag
  rw [hframe.2, hdown] at hflag
  cases hflag

theorem Timely.exec (h : s.Timely) {e : PipeEvent} (htimely : s.AnnouncesInTime e)
    (hexec : s.exec dataSize e = some t) : t.Timely := by
  cases e with
  | reader call => exact h.readerCall hexec
  | readerStep => exact h.readerStep htimely hexec
  | writer call => exact h.writerCall hexec
  | writerStep => exact h.writerStep htimely hexec

theorem sound_of_reaches (h : Reaches (· = init) (Step dataSize) s) : s.Sound := by
  refine h.invariant (fun s hs => hs ▸ timely_init.sound) ?_
  rintro s t hsound ⟨e, hexec⟩
  exact hsound.exec hexec

theorem timely_of_reaches (h : Reaches (· = init) (TimelyStep dataSize) s) : s.Timely := by
  refine h.invariant (fun s hs => hs ▸ timely_init) ?_
  rintro s t htimely ⟨e, hannounces, hexec⟩
  exact htimely.exec hannounces hexec

/-! ### Announcing late -/

/-- The end is put, and the reader sleeps. -/
theorem hangs_of_late_reader (h : Reaches (· = init) (Step dataSize) s) {k : ReadCall}
    (hreader : s.reader = .announce k) (hwriter : s.writer = .ended)
    (hexec : s.exec dataSize .readerStep = some t) :
    ∃ u, Reaches (· = t) (Step dataSize) u ∧ ¬ u.Lively := by
  have hsound := sound_of_reaches h
  have hdown : s.anyWriterSleeping = false :=
    hsound.yours.flag_false_of_awake (by simp [writerSide, hwriter, WriterPhase.mode])
  have hsignal : s.readerSignal = false :=
    hsound.mine.signal_false_of_awake (by simp [readerSide, hreader, ReaderPhase.mode])
  have hannounce : s.exec dataSize .readerStep =
      some { s with anyReaderSleeping := true, reader := .checkOther k } := by
    unfold exec
    simp [hreader, Pipe.readerStep]
  obtain rfl := Option.some.inj (hexec.symm.trans hannounce)
  have hsuspend : Pipe.exec dataSize
      { s with anyReaderSleeping := true, reader := .checkOther k } .readerStep =
      some { s with anyReaderSleeping := true, reader := .suspended k } := by
    unfold exec
    simp [hdown, Pipe.readerStep]
  refine ⟨_, .step (.start rfl) ⟨_, hsuspend⟩, ?_⟩
  intro hlively
  exact (hlively.reader ⟨⟨k, rfl⟩, hsignal⟩).2 hwriter

/-- Everything is consumed and released, and the writer sleeps. -/
theorem hangs_of_late_writer (h : Reaches (· = init) (Step dataSize) s) {k : WriteCall}
    {k' : ReadCall} (hwriter : s.writer = .announce k) (hread : s.read = s.written)
    (hdone : s.done = s.written) (hreader : s.reader = .suspended k')
    (hexec : s.exec dataSize .writerStep = some t) :
    ∃ u, Reaches (· = t) (Step dataSize) u ∧ ¬ u.Lively := by
  have hsignal : s.writerSignal = false :=
    (sound_of_reaches h).yours.signal_false_of_awake
      (by simp [writerSide, hwriter, WriterPhase.mode])
  have hannounce : s.exec dataSize .writerStep =
      some { s with anyWriterSleeping := true, writer := .checkOther k } := by
    unfold exec
    rw [hwriter]
    rfl
  obtain rfl := Option.some.inj (hexec.symm.trans hannounce)
  have hfrom : Reaches (· = { s with anyWriterSleeping := true, writer := .checkOther k })
      (Step dataSize) _ := .start rfl
  obtain hflag | hflag := Bool.eq_false_or_eq_true s.anyReaderSleeping
  · -- the writer wakes the reader first
    have hreset := hfrom.step ⟨.writerStep, by
      unfold exec Pipe.writerStep
      simp only [hflag]
      exact rfl⟩
    have hload := hreset.step ⟨.writerStep, rfl⟩
    have hclear := hload.step ⟨.writerStep, rfl⟩
    have hkill := hclear.step ⟨.writerStep, rfl⟩
    refine ⟨_, hkill.step ⟨.writerStep, rfl⟩, ?_⟩
    intro hlively
    exact hlively.writer ⟨⟨k, rfl⟩, hsignal⟩ hread hdone k' hreader
  · have hsuspend := hfrom.step ⟨.writerStep, by
      unfold exec Pipe.writerStep
      simp only [hflag]
      exact rfl⟩
    refine ⟨_, hsuspend, ?_⟩
    intro hlively
    exact hlively.writer ⟨⟨k, rfl⟩, hsignal⟩ hread hdone k' hreader

/--
**The pipe hangs when a process announces late that it sleeps, and only then.**

A run in which both announce themselves in time never hangs, and a run can go on to hang after
an announcement that comes late.
-/
theorem lively_iff_announced_in_time :
    (∀ s, Reaches (· = init) (TimelyStep dataSize) s → s.Lively) ∧
      ∀ s e t, Reaches (· = init) (Step dataSize) s → ¬ s.AnnouncesInTime e →
        s.exec dataSize e = some t → ∃ u, Reaches (· = t) (Step dataSize) u ∧ ¬ u.Lively := by
  refine ⟨fun s h => (timely_of_reaches h).lively, ?_⟩
  intro s e t h hlate hexec
  cases e with
  | reader call => exact absurd trivial hlate
  | writer call => exact absurd trivial hlate
  | readerStep =>
      unfold AnnouncesInTime at hlate
      push Not at hlate
      obtain ⟨k, hreader, hwriter⟩ := hlate
      exact hangs_of_late_reader h hreader hwriter hexec
  | writerStep =>
      unfold AnnouncesInTime at hlate
      push Not at hlate
      obtain ⟨k, hwriter, hread, hdone, k', hreader⟩ := hlate
      exact hangs_of_late_writer h hwriter hread hdone hreader hexec

/-- The reader finds nothing and no end, and then the writer puts the end. -/
def lateEnd : List PipeEvent :=
  [.reader (.read isize), .readerStep, .readerStep, .writer .setEOF, .writerStep,
    .readerStep, .readerStep, .readerStep, .readerStep, .readerStep]

/-- `BUFFER_SIZE * isize`. -/
def traceBufferSize : UInt64 := 2048 * isize

theorem not_always_lively :
    ¬ ∀ s, Reaches (· = init) (Step traceBufferSize) s → s.Lively := by
  intro hall
  have hrun : (after (fun s e => s.exec traceBufferSize e) (fun _ _ => true) lateEnd init).map
      (fun s => (s.reader, s.readerSignal, s.writer)) =
      some (.suspended (.read isize), false, .ended) := by decide +kernel
  obtain ⟨s, hs, hside⟩ := Option.map_eq_some_iff.mp hrun
  have hreach : Reaches (· = init) (Step traceBufferSize) s :=
    Reaches.after (fun _ e _ _ hexec => ⟨e, hexec⟩) (Reaches.start rfl) hs
  simp only [Prod.mk.injEq] at hside
  obtain ⟨hreader, hsignal, hwriter⟩ := hside
  exact ((hall s hreach).reader ⟨⟨_, hreader⟩, hsignal⟩).2 hwriter

end Pipe

end AsimFeeder.Tracer
