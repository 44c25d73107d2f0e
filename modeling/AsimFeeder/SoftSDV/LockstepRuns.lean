/-
Two processes in lock step compare the same intervals (`lockstep.cpp`).

The two buffers are one channel in each direction, and a step of one process is a step of the
writer of one and of the reader of the other.  Beside the channels stands what was compared,
and that not both processes can say hello after the other one has taken an old hello.  The
latter is why they never wait for each other.
-/
import AsimFeeder.SoftSDV.LockstepChannel

namespace AsimFeeder.SoftSDV.Lockstep

open AsimFeeder.Lib

variable {P : Params}

/-! ### What was compared -/

/-- Each verdict of `R` is about the same interval of both. -/
def Judged (P : Params) (W R : Process) : Prop :=
  ∀ k v, R.verdicts[k]? = some v →
    k < (intervals P R.events).closed.length ∧ k < (intervals P W.events).closed.length ∧
      v = decide (posted P R k = posted P W k)

/-- A step only adds intervals, and a verdict only where a checksum was acknowledged. -/
theorem step_grows {p p' : Process} {e : Event} {out inb out' inb' : CommBuffer}
    (hstep : p.step P e out inb = some (p', out', inb')) :
    (∃ l, (intervals P p'.events).closed = (intervals P p.events).closed ++ l) ∧
      (p'.verdicts = p.verdicts ∨
        ∃ same, p.pc = .ackIn same false ∧ p'.verdicts = p.verdicts ++ [same]) := by
  have hkeep : ∀ q : Process, q.events = p.events →
      ∃ l, (intervals P q.events).closed = (intervals P p.events).closed ++ l := by
    intro q hq
    exact ⟨[], by rw [hq, List.append_nil]⟩
  unfold Process.step at hstep
  cases hpc : p.pc with
  | run =>
      simp only [hpc, Option.some.injEq, Prod.mk.injEq] at hstep
      obtain ⟨hverdicts, -, hclosed⟩ := execute_fields P p hpc e
      rw [← hstep.1]
      exact ⟨hclosed, .inl hverdicts⟩
  | ackIn same hello =>
      simp only [hpc, Option.some.injEq, Prod.mk.injEq] at hstep
      rw [← hstep.1]
      cases hello with
      | true => exact ⟨hkeep _ rfl, .inl rfl⟩
      | false => exact ⟨hkeep _ rfl, .inr ⟨same, rfl, rfl⟩⟩
  | waitHello | waitOut | waitIn =>
      simp only [hpc, Option.ite_none_right_eq_some, Option.some.injEq, Prod.mk.injEq] at hstep
      rw [← hstep.2.1]
      exact ⟨hkeep _ rfl, .inl rfl⟩
  | _ =>
      simp only [hpc, Option.some.injEq, Prod.mk.injEq] at hstep
      rw [← hstep.1]
      exact ⟨hkeep _ rfl, .inl rfl⟩

theorem posted_grows {p p' : Process} {l : List (List UInt8)} {k : Nat}
    (h : (intervals P p'.events).closed = (intervals P p.events).closed ++ l)
    (hk : k < (intervals P p.events).closed.length) : posted P p' k = posted P p k := by
  rw [posted, posted, h, List.getD_append _ _ _ _ hk]

theorem Judged.writer_step {W W' R : Process} {e : Event} {out inb out' inb' : CommBuffer}
    (h : Judged P W R) (hstep : W.step P e out inb = some (W', out', inb')) : Judged P W' R := by
  obtain ⟨⟨l, hl⟩, -⟩ := step_grows hstep
  intro k v hv
  obtain ⟨hkr, hkw, hverdict⟩ := h k v hv
  refine ⟨hkr, ?_, ?_⟩
  · rw [hl, List.length_append]
    omega
  · rw [hverdict, posted_grows hl hkw]

/-- The bytes that were compared are those of the two checksums. -/
theorem sameBytes_posted {W R : Process} {B : CommBuffer} (hfull : Full P W R B) (hl : Local P R)
    (hcomparing : R.pc.comparing = true) :
    sameBytes B R 16 = decide (posted P R R.verdicts.length = posted P W R.verdicts.length) := by
  have hiff : (∀ j < 16, B.md5_digest j = R.digestByte j) ↔
      posted P R R.verdicts.length = posted P W R.verdicts.length := by
    rw [← digest_eq_iff (posted_length P R _) (posted_length P W _)]
    simp only [Process.digestByte, hl.digest hcomparing]
    constructor
    · intro h j hj
      rw [← h j hj, hfull.digest j hj]
    · intro h j hj
      rw [hfull.digest j hj]
      exact (h j hj).symm
  simp only [sameBytes, hiff]

theorem Judged.reader_step {W R R' : Process} {B B' : CommBuffer} {e : Event}
    {out out' : CommBuffer}
    (h : Judged P W R) (hc : Channel P W R B) (hl : Local P R) (hw : Local P W)
    (hstep : R.step P e out B = some (R', out', B')) : Judged P W R' := by
  obtain ⟨⟨l, hgrow⟩, hverdicts⟩ := step_grows hstep
  have hold : ∀ k v, R.verdicts[k]? = some v →
      k < (intervals P R'.events).closed.length ∧ k < (intervals P W.events).closed.length ∧
        v = decide (posted P R' k = posted P W k) := by
    intro k v hv
    obtain ⟨hkr, hkw, hverdict⟩ := h k v hv
    refine ⟨?_, hkw, ?_⟩
    · rw [hgrow, List.length_append]
      omega
    · rw [hverdict, posted_grows hgrow hkr]
  rcases hverdicts with hverdicts | ⟨same, hpc, hverdicts⟩
  · intro k v hv
    rw [hverdicts] at hv
    exact hold k v hv
  · -- a checksum was compared, as the buffer held one
    have hcomparing : R.pc.comparing = true := by rw [hpc]; rfl
    have hfull : Full P W R B := by
      obtain ⟨-, -, ⟨-, -, -, -, hhello⟩ | hfull⟩ := hc.reading_mail (by rw [hpc]; rfl)
      · have := hhello same false hpc
        cases this
      · exact hfull
    have hlenR := hl.closed
    rw [hcomparing, if_pos rfl] at hlenR
    have hlenW : R.verdicts.length < (intervals P W.events).closed.length := by
      have hpub := hfull.published
      have hclosed := hw.closed
      have hle : (if W.pc.sent = true then 1 else 0) ≤ if W.pc.comparing = true then 1 else 0 := by
        cases W.pc <;> simp [Pc.sent, Pc.comparing]
      simp only [Process.published] at hpub
      omega
    have hsame : same = sameBytes B R 16 := hfull.compared same (.inr ⟨false, hpc⟩)
    intro k v hv
    rw [hverdicts] at hv
    by_cases hk : k < R.verdicts.length
    · rw [List.getElem?_append_left hk] at hv
      exact hold k v hv
    · rw [List.getElem?_append_right (by omega), List.getElem?_singleton] at hv
      by_cases hlast : k - R.verdicts.length = 0
      · rw [if_pos hlast, Option.some.injEq] at hv
        have hkeq : k = R.verdicts.length := by omega
        subst hkeq
        refine ⟨?_, hlenW, ?_⟩
        · rw [hgrow, List.length_append]
          omega
        · rw [← hv, hsame, sameBytes_posted hfull hl hcomparing, posted_grows hgrow (by omega)]
      · rw [if_neg hlast] at hv
        cases hv

/-! ### A hello that comes late -/

/-- The reader has taken an old hello, and the real one is in the buffer. -/
def Late (W R : Process) (B : CommBuffer) : Prop :=
  W.pc.helloed = true ∧ R.pc.taken = true ∧ B.ready = 2

/-- Only by saying hello does a process become late, and then it has not taken one. -/
theorem Late.writer_step {W W' R : Process} {B B' : CommBuffer} {e : Event} {inb inb' : CommBuffer}
    (h : Late W' R B') (hstep : W.step P e B inb = some (W', B', inb')) :
    Late W R B ∨ (W.pc.taken = false ∧ W'.pc.taken = false) := by
  obtain ⟨hw, hr, hready⟩ := h
  unfold Process.step at hstep
  cases hpc : W.pc with
  | mapOut | mapIn =>
      simp only [hpc, Option.some.injEq, Prod.mk.injEq] at hstep
      obtain ⟨rfl, -⟩ := hstep
      cases hw
  | zeroOut i =>
      simp only [hpc, Option.some.injEq, Prod.mk.injEq] at hstep
      obtain ⟨rfl, -⟩ := hstep
      have hnot : (Process.nextByte i .zeroOut .hello).helloed = false :=
        Pc.nextByte_eq Pc.helloed i (fun _ => rfl) rfl
      rw [Process.goto, hnot] at hw
      cases hw
  | hello =>
      simp only [hpc, Option.some.injEq, Prod.mk.injEq] at hstep
      obtain ⟨rfl, -⟩ := hstep
      exact .inr ⟨rfl, rfl⟩
  | publish =>
      simp only [hpc, Option.some.injEq, Prod.mk.injEq] at hstep
      obtain ⟨-, rfl, -⟩ := hstep
      cases hready
  | waitHello | waitOut | waitIn =>
      simp only [hpc, Option.ite_none_right_eq_some, Option.some.injEq, Prod.mk.injEq] at hstep
      obtain ⟨-, -, rfl, -⟩ := hstep
      exact .inl ⟨by rw [hpc]; rfl, hr, hready⟩
  | _ =>
      simp only [hpc, Option.some.injEq, Prod.mk.injEq] at hstep
      obtain ⟨-, rfl, -⟩ := hstep
      exact .inl ⟨by rw [hpc]; rfl, hr, hready⟩

theorem Late.reader_step {W R R' : Process} {B B' : CommBuffer} {e : Event} {out out' : CommBuffer}
    (h : Late W R' B') (hstep : R.step P e out B = some (R', out', B')) : Late W R B := by
  obtain ⟨hw, hr, hready⟩ := h
  unfold Process.step at hstep
  cases hpc : R.pc with
  | mapOut | mapIn | hello =>
      simp only [hpc, Option.some.injEq, Prod.mk.injEq] at hstep
      obtain ⟨rfl, -⟩ := hstep
      cases hr
  | zeroOut i =>
      simp only [hpc, Option.some.injEq, Prod.mk.injEq] at hstep
      obtain ⟨rfl, -⟩ := hstep
      have hnot : (Process.nextByte i .zeroOut .hello).taken = false :=
        Pc.nextByte_eq Pc.taken i (fun _ => rfl) rfl
      rw [Process.goto, hnot] at hr
      cases hr
  | waitHello =>
      simp only [hpc, Option.ite_none_right_eq_some, Option.some.injEq, Prod.mk.injEq] at hstep
      obtain ⟨-, rfl, -⟩ := hstep
      cases hr
  | takeHello | ackIn same hello =>
      simp only [hpc, Option.some.injEq, Prod.mk.injEq] at hstep
      obtain ⟨-, -, rfl⟩ := hstep
      cases hready
  | waitOut | waitIn =>
      simp only [hpc, Option.ite_none_right_eq_some, Option.some.injEq, Prod.mk.injEq] at hstep
      obtain ⟨-, -, -, rfl⟩ := hstep
      exact ⟨hw, by rw [hpc]; rfl, hready⟩
  | _ =>
      simp only [hpc, Option.some.injEq, Prod.mk.injEq] at hstep
      obtain ⟨-, -, rfl⟩ := hstep
      exact ⟨hw, by rw [hpc]; rfl, hready⟩

/-! ### All of it, along a run -/

/-- What holds in every state. -/
structure Inv (P : Params) (s : State) : Prop where
  alone : ∀ x, Local P (s.procs x)
  channel : ∀ x, Channel P (s.procs x) (s.procs x.other) (s.bufs x)
  judged : ∀ x, Judged P (s.procs x) (s.procs x.other)
  late : ∀ x, Late (s.procs x) (s.procs x.other) (s.bufs x) →
    ¬ Late (s.procs x.other) (s.procs x) (s.bufs x.other)

theorem Inv.start {s : State} (h : Start s) : Inv P s := by
  have hpc : ∀ x, (s.procs x).pc = .mapOut := by
    intro x
    obtain ⟨m, hm⟩ := h x
    rw [hm]
    rfl
  refine ⟨?_, ?_, ?_, ?_⟩
  · intro x
    obtain ⟨m, hm⟩ := h x
    rw [hm]
    exact Local.new m
  · intro x
    refine ⟨?_, ?_, ?_, ?_, ?_⟩ <;> simp [hpc, Pc.helloed, Pc.taken]
  · intro x k v hv
    obtain ⟨m, hm⟩ := h x.other
    rw [hm] at hv
    cases hv
  · intro x hlate
    have hw := hlate.1
    rw [hpc] at hw
    cases hw

/-- What a step of side `x` does to the state. -/
theorem step_cases {s t : State} {x : Side} {e : Event} (h : s.step P x e = some t) :
    ∃ p out inb, (s.procs x).step P e (s.bufs x) (s.bufs x.other) = some (p, out, inb) ∧
      t.procs x = p ∧ t.procs x.other = s.procs x.other ∧ t.bufs x = out ∧
        t.bufs x.other = inb := by
  simp only [State.step, Option.map_eq_some_iff, Prod.exists] at h
  obtain ⟨p, out, inb, hstep, rfl⟩ := h
  refine ⟨p, out, inb, hstep, ?_, ?_, ?_, ?_⟩
  · simp
  · simp
  · simp [Function.update_of_ne (Side.other_ne x).symm]
  · simp

/-- What holds of one side and of the other one holds of both. -/
theorem Side.both {p : Side → Prop} (x : Side) (hx : p x) (hother : p x.other) : ∀ y, p y := by
  intro y
  by_cases hy : y = x
  · rw [hy]
    exact hx
  · have : y = x.other := by
      cases x <;> cases y <;> simp_all [Side.other]
    rw [this]
    exact hother

theorem Inv.step {s t : State} (h : Inv P s) (hst : Step P s t) : Inv P t := by
  obtain ⟨x, e, hst⟩ := hst
  obtain ⟨p, out, inb, hstep, hp, hq, hout, hinb⟩ := step_cases hst
  have hback := h.channel x.other
  have hjudged := h.judged x.other
  rw [Side.other_other] at hback hjudged
  refine ⟨Side.both x ?_ ?_, Side.both x ?_ ?_, Side.both x ?_ ?_, ?_⟩
  · rw [hp]
    exact (h.alone x).step hstep
  · rw [hq]
    exact h.alone x.other
  · rw [hp, hq, hout]
    exact (h.channel x).writer_step (h.alone x) hstep
  · rw [Side.other_other, hp, hq, hinb]
    exact hback.reader_step (h.alone x) hstep
  · rw [hp, hq]
    exact (h.judged x).writer_step hstep
  · rw [Side.other_other, hp, hq]
    exact hjudged.reader_step hback (h.alone x) (h.alone x.other) hstep
  · -- were both late now, the one that has just said hello would have taken one
    have hboth : Late p (s.procs x.other) out → Late (s.procs x.other) p inb → False := by
      intro hx hy
      rcases hx.writer_step hstep with hx | ⟨-, htaken⟩
      · exact h.late x hx (hy.reader_step hstep)
      · have := hy.2.1
        rw [htaken] at this
        cases this
    refine Side.both x ?_ ?_
    · rw [hp, hq, hout, hinb]
      exact hboth
    · rw [Side.other_other, hp, hq, hout, hinb]
      exact fun hy hx => hboth hx hy

theorem Inv.reaches {s : State} (h : Reaches Start (Step P) s) : Inv P s :=
  Reaches.invariant (P := Inv P) (fun _ hs => Inv.start hs) (fun _ _ hs hst => hs.step hst) h

/-! ### A run -/

/-- The state after steps of the given sides, each with the event it may execute. -/
def State.steps (P : Params) : List (Side × Event) → State → Option State
  | [], s => some s
  | (x, e) :: xs, s => (s.step P x e).bind (State.steps P xs)

theorem reaches_steps {xs : List (Side × Event)} {s t : State} (hs : Reaches Start (Step P) s)
    (h : s.steps P xs = some t) : Reaches Start (Step P) t := by
  induction xs generalizing s with
  | nil =>
      cases h
      exact hs
  | cons x xs ih =>
      rw [State.steps, Option.bind_eq_some_iff] at h
      obtain ⟨u, hu, h⟩ := h
      exact ih (.step hs ⟨x.1, x.2, hu⟩) h

/-- Both files hold an old hello. -/
def State.stale : State where
  procs := fun _ => Process.new ⟨[], MD5.initBuf, 0, 0, Vector.replicate 64 0, false⟩
  bufs := fun _ => { md5_digest := fun _ => 0, ready := 2 }

theorem stale_start : Start State.stale := fun _ => ⟨_, rfl⟩

def Event.short : Event := .instr 0 1 2 3 ⟨[], by decide⟩ []

def Params.short : Params := { interval := 1, nHistoryInstrs := 4 }

/-- The constructors of both, one after the other. -/
def constructing : List (Side × Event) :=
  List.replicate 21 (.left, .short) ++ List.replicate 21 (.right, .short)

/-- **Every verdict compares the same interval of both streams.** -/
theorem verdict_exact {s : State} (h : Reaches Start (Step P) s) (x : Side) (k : Nat) (same : Bool)
    (hv : (s.procs x).verdicts[k]? = some same) :
    ∃ mine theirs, (intervals P (s.procs x).events).closed[k]? = some mine ∧
      (intervals P (s.procs x.other).events).closed[k]? = some theirs ∧
      same = decide (md5 mine = md5 theirs) := by
  have hj := (Inv.reaches h).judged x.other
  rw [Side.other_other] at hj
  obtain ⟨hmine, htheirs, hsame⟩ := hj k same hv
  refine ⟨_, _, List.getElem?_eq_getElem hmine, List.getElem?_eq_getElem htheirs, ?_⟩
  rw [hsame, posted, posted, List.getD_eq_getElem _ _ hmine, List.getD_eq_getElem _ _ htheirs]

theorem verdict_exact_short : ∃ s : State,
    State.stale.steps .short
        (constructing ++ List.replicate 38 (.left, .short) ++ List.replicate 38 (.right, .short))
          = some s ∧
      ∃ mine theirs, (intervals .short (s.procs .right).events).closed[0]? = some mine ∧
        (intervals .short (s.procs .left).events).closed[0]? = some theirs ∧
        true = decide (md5 mine = md5 theirs) := by
  have h : (State.stale.steps .short
      (constructing ++ List.replicate 38 (.left, .short) ++ List.replicate 38 (.right, .short))).map
        (fun s => (s.procs .right).verdicts) = some [true] := by decide +kernel
  rw [Option.map_eq_some_iff] at h
  obtain ⟨s, hs, hv⟩ := h
  exact ⟨s, hs, verdict_exact (reaches_steps (.start stale_start) hs) .right 0 true
    (by rw [hv]; rfl)⟩

/-- **A digest is not read while it is written.** -/
theorem digest_exclusive {s : State} (h : Reaches Start (Step P) s) (x : Side)
    (hr : (s.procs x).pc.reading = true) :
    (s.procs x.other).pc.helloed = true ∧ (s.procs x.other).pc.writing = false := by
  have hc := (Inv.reaches h).channel x.other
  rw [Side.other_other] at hc
  obtain ⟨hw, -, ⟨-, -, -, hidle, -⟩ | hfull⟩ := hc.reading_mail hr
  · exact ⟨hw, hidle⟩
  · exact ⟨hw, hfull.idle⟩

theorem digest_exclusive_short : ∃ s : State,
    State.stale.steps .short (constructing ++ List.replicate 21 (.left, .short)) = some s ∧
      (s.procs .right).pc.helloed = true ∧ (s.procs .right).pc.writing = false := by
  have h : (State.stale.steps .short (constructing ++ List.replicate 21 (.left, .short))).map
      (fun s => (s.procs .left).pc.reading) = some true := by decide +kernel
  rw [Option.map_eq_some_iff] at h
  obtain ⟨s, hs, hr⟩ := h
  exact ⟨s, hs, digest_exclusive (reaches_steps (.start stale_start) hs) .left hr⟩

/-! ### Waiting -/

/-- Where a process waits. -/
inductive Waits (p : Process) (out inb : CommBuffer) : Prop
  | hello (pc : p.pc = .waitHello) (ready : inb.ready ≠ 2)
  | out (pc : p.pc = .waitOut) (ready : out.ready ≠ 0)
  | inb (pc : p.pc = .waitIn) (ready : inb.ready = 0)

theorem step_none_iff (p : Process) (e : Event) (out inb : CommBuffer) :
    p.step P e out inb = none ↔ Waits p out inb := by
  constructor
  · intro h
    unfold Process.step at h
    cases hpc : p.pc with
    | waitHello => exact .hello hpc (by simpa [hpc] using h)
    | waitOut => exact .out hpc (by simpa [hpc] using h)
    | waitIn => exact .inb hpc (by simpa [hpc] using h)
    | _ => simp [hpc] at h
  · rintro (⟨hpc, h⟩ | ⟨hpc, h⟩ | ⟨hpc, h⟩) <;> simp [Process.step, hpc, h]

/-- A process that waits has said hello, and has seen no difference. -/
theorem Waits.helloed {p : Process} {out inb : CommBuffer} (h : Waits p out inb) :
    p.pc.helloed = true ∧ p.pc ≠ .run := by
  rcases h with ⟨hpc, -⟩ | ⟨hpc, -⟩ | ⟨hpc, -⟩ <;> rw [hpc] <;> exact ⟨rfl, by decide⟩

section Stuck

variable {X Y : Process} {A B : CommBuffer}

/-- Nobody waits for a hello of one that has said it. -/
theorem not_waits_hello (hBack : Channel P Y X B) (hY : Y.pc.helloed = true)
    (hX : X.pc = .waitHello)
    (hready : B.ready ≠ 2) : False :=
  hready (hBack.greeted hY (by rw [hX]; rfl)).1

theorem not_both_wait (hForth : Channel P X Y A) (hBack : Channel P Y X B)
    (hlate : Late X Y A → ¬ Late Y X B) (hX : Waits X A B) (hY : Waits Y B A) : False := by
  rcases hX with ⟨hX, h2⟩ | ⟨hX, hA⟩ | ⟨hX, hB⟩
  · exact not_waits_hello hBack hY.helloed.1 hX h2
  · have hXw : X.pc.helloed = true := by rw [hX]; rfl
    have hXt : X.pc.taken = true := by rw [hX]; rfl
    have hXpub : X.published = X.verdicts.length := by simp [Process.published, hX, Pc.sent]
    rcases hY with ⟨hY, h2⟩ | ⟨hY, hB⟩ | ⟨-, hA0⟩
    · exact not_waits_hello hForth hXw hY h2
    · have hYw : Y.pc.helloed = true := by rw [hY]; rfl
      have hYt : Y.pc.taken = true := by rw [hY]; rfl
      have hYpub : Y.published = Y.verdicts.length := by simp [Process.published, hY, Pc.sent]
      rcases hForth.mail hXw hYt with ⟨h0, -, -⟩ | ⟨hA2, hXnone, hYnone, -, -⟩ | hfullA
      · exact hA h0
      · rcases hBack.mail hYw hXt with ⟨h0, -, -⟩ | ⟨hB2, -, -, -, -⟩ | hfullB
        · exact hB h0
        · exact hlate ⟨hXw, hYt, hA2⟩ ⟨hYw, hXt, hB2⟩
        · have hpub := hfullB.published
          rw [hYpub, hYnone] at hpub
          simp at hpub
      · have hpubA := hfullA.published
        rcases hBack.mail hYw hXt with ⟨h0, -, -⟩ | ⟨-, -, hXnone, -, -⟩ | hfullB
        · exact hB h0
        · rw [hXpub, hXnone] at hpubA
          simp at hpubA
        · have hpubB := hfullB.published
          omega
    · exact hA hA0
  · have hXw : X.pc.helloed = true := by rw [hX]; rfl
    have hXt : X.pc.taken = true := by rw [hX]; rfl
    have hXpub : X.published = X.verdicts.length + 1 := by simp [Process.published, hX, Pc.sent]
    rcases hY with ⟨hY, h2⟩ | ⟨-, hB0⟩ | ⟨hY, hA⟩
    · exact not_waits_hello hForth hXw hY h2
    · exact hB0 hB
    · have hYw : Y.pc.helloed = true := by rw [hY]; rfl
      have hYt : Y.pc.taken = true := by rw [hY]; rfl
      have hYpub : Y.published = Y.verdicts.length + 1 := by simp [Process.published, hY, Pc.sent]
      rcases hForth.mail hXw hYt with ⟨-, -, hpubA⟩ | ⟨hA2, -⟩ | hfullA
      · rcases hBack.mail hYw hXt with ⟨-, -, hpubB⟩ | ⟨hB2, -⟩ | hfullB
        · omega
        · omega
        · have := hfullB.ready
          omega
      · omega
      · have := hfullA.ready
        omega

/-- One that has seen a difference has left no verdict open. -/
theorem not_waits_for_ended (hForth : Channel P X Y A) (hBack : Channel P Y X B) (hXl : Local P X)
    (hYl : Local P Y) (hXj : Judged P Y X) (hYj : Judged P X Y) (hX : Waits X A B)
    (hY : Y.streamsSame = false) : False := by
  obtain ⟨hYpc, n, hYv⟩ := hYl.ended hY
  obtain ⟨hXw, hXrun⟩ := hX.helloed
  have hXv := hXl.going (hXl.same hXrun)
  have hYw : Y.pc.helloed = true := by rw [hYpc]; rfl
  have hYt : Y.pc.taken = true := by rw [hYpc]; rfl
  have hYpub : Y.published = Y.verdicts.length := by simp [Process.published, hYpc, Pc.sent]
  have hYlen : Y.verdicts.length = n + 1 := by simp [hYv]
  -- both have a verdict on interval `n`, and not the same one
  have hdiffer : n < X.verdicts.length → False := by
    intro hn
    have hXn : X.verdicts[n]? = some true := by
      rw [hXv, List.getElem?_replicate, if_pos hn]
    have hYn : Y.verdicts[n]? = some false := by simp [hYv]
    have htrue := (hXj n true hXn).2.2
    have hfalse := (hYj n false hYn).2.2
    exact of_decide_eq_false hfalse.symm (of_decide_eq_true htrue.symm).symm
  rcases hX with ⟨hX, h2⟩ | ⟨hX, hA⟩ | ⟨hX, hB⟩
  · exact not_waits_hello hBack hYw hX h2
  · have hXpub : X.published = X.verdicts.length := by simp [Process.published, hX, Pc.sent]
    rcases hForth.mail hXw hYt with ⟨h0, -, -⟩ | ⟨-, -, hYnone, -, -⟩ | hfull
    · exact hA h0
    · rw [hYnone] at hYlen
      simp at hYlen
    · have hpub := hfull.published
      exact hdiffer (by omega)
  · have hXt : X.pc.taken = true := by rw [hX]; rfl
    rcases hBack.mail hYw hXt with ⟨-, -, hpub⟩ | ⟨hB2, -⟩ | hfull
    · exact hdiffer (by omega)
    · omega
    · have := hfull.ready
      omega

end Stuck

/-- **A process that waits waits for one that can go on, and that has seen no difference.** -/
theorem waits_for_live {s : State} (h : Reaches Start (Step P) s) (x : Side) (e : Event)
    (hwait : s.step P x e = none) :
    (∀ e', ∃ t, s.step P x.other e' = some t) ∧ (s.procs x.other).streamsSame = true := by
  have hinv := Inv.reaches h
  have hback := hinv.channel x.other
  have hjudged := hinv.judged x.other
  rw [Side.other_other] at hback hjudged
  have hX : Waits (s.procs x) (s.bufs x) (s.bufs x.other) := by
    rw [← step_none_iff (P := P) _ e]
    simpa [State.step] using hwait
  constructor
  · intro e'
    cases hstep : s.step P x.other e' with
    | some t => exact ⟨t, rfl⟩
    | none =>
        have hY : Waits (s.procs x.other) (s.bufs x.other) (s.bufs x) := by
          rw [← step_none_iff (P := P) _ e']
          simpa [State.step] using hstep
        exact (not_both_wait (hinv.channel x) hback (hinv.late x) hX hY).elim
  · by_contra hsame
    exact not_waits_for_ended (hinv.channel x) hback (hinv.alone x) (hinv.alone x.other) hjudged
      (hinv.judged x) hX (by simpa using hsame)

theorem waits_for_live_short : ∃ s : State,
    State.stale.steps .short (constructing ++ List.replicate 38 (.left, .short)) = some s ∧
      (∀ e', ∃ t, s.step .short .right e' = some t) ∧ (s.procs .right).streamsSame = true := by
  have h : (State.stale.steps .short (constructing ++ List.replicate 38 (.left, .short))).map
      (fun s => (s.step .short .left .short).isNone) = some true := by decide +kernel
  rw [Option.map_eq_some_iff] at h
  obtain ⟨s, hs, hnone⟩ := h
  exact ⟨s, hs, waits_for_live (reaches_steps (.start stale_start) hs) .left .short
    (Option.isNone_iff_eq_none.mp hnone)⟩

end AsimFeeder.SoftSDV.Lockstep
