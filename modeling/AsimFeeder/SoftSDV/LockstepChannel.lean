/-
The buffer from one process in lock step to the other (`lockstep.cpp`).

The buffer is followed by itself: `Channel` says what is in it, by how far its writer and its
reader are.  A hello that comes when the reader has taken an old one is still in the buffer
when the first checksum should go there; the writer waits for the reader, which reads it as a
checksum and then finds that it is a hello.
-/
import AsimFeeder.SoftSDV.LockstepLocal

namespace AsimFeeder.SoftSDV.Lockstep

variable {P : Params}

/-! ### What is in a buffer -/

/-- The first `n` bytes in the buffer are those of the process. -/
def sameBytes (B : CommBuffer) (R : Process) (n : Nat) : Bool :=
  decide (∀ j < n, B.md5_digest j = R.digestByte j)

/-- The buffer from `W` to `R` when a checksum waits in it. -/
structure Full (P : Params) (W R : Process) (B : CommBuffer) : Prop where
  ready : B.ready = 1
  published : W.published = R.verdicts.length + 1
  idle : W.pc.writing = false
  digest : ∀ j < 16, B.md5_digest j = (posted P W R.verdicts.length).getD j 0
  comparing : ∀ i same, R.pc = .compareIn i same → i < 16 ∧ same = sameBytes B R i
  compared : ∀ same, R.pc = .readHello same ∨ (∃ hello, R.pc = .ackIn same hello) →
    same = sameBytes B R 16
  checksum : ∀ same hello, R.pc = .ackIn same hello → hello = false

/-- What the buffer from `W` to `R` holds when both have found a hello. -/
inductive Mail (P : Params) (W R : Process) (B : CommBuffer) : Prop
  | empty (ready : B.ready = 0) (idle : R.pc.reading = false)
      (published : W.published = R.verdicts.length)
  | hello (ready : B.ready = 2) (published : W.published = 0) (none : R.verdicts = [])
      (idle : W.pc.writing = false) (hello : ∀ same hello, R.pc = .ackIn same hello → hello = true)
  | full (full : Full P W R B)

/-- The buffer from `W` to `R`, by how far they are. -/
structure Channel (P : Params) (W R : Process) (B : CommBuffer) : Prop where
  /-- An old hello may have been taken, and nothing else. -/
  fresh : W.pc.helloed = false → R.pc.taken = true →
    B.ready = 0 ∧ R.pc.reading = false ∧ R.verdicts = []
  greeted : W.pc.helloed = true → R.pc.taken = false →
    B.ready = 2 ∧ W.published = 0 ∧ W.pc.writing = false
  mail : W.pc.helloed = true → R.pc.taken = true → Mail P W R B
  copying : ∀ i, W.pc = .copyOut i → ∀ j < i, B.md5_digest j = W.digestByte j
  copied : W.pc = .publish → ∀ j < 16, B.md5_digest j = W.digestByte j

theorem sameBytes_zero (B : CommBuffer) (R : Process) : sameBytes B R 0 = true := by
  simp [sameBytes]

/-- One byte more is compared. -/
theorem sameBytes_succ (B : CommBuffer) (R : Process) (i : Nat) :
    sameBytes B R (i + 1) = (sameBytes B R i && B.md5_digest i = R.digestByte i) := by
  simp only [sameBytes, Nat.forall_lt_succ_right, Bool.decide_and]

variable {W W' R R' : Process} {B B' : CommBuffer}

/-- A step of the writer that leaves its buffer alone, and the number of its checksums. -/
theorem Channel.writer_moves (h : Channel P W R B) (hhelloed : W'.pc.helloed = W.pc.helloed)
    (hpublished : W'.published = W.published) (hwriting : W'.pc.writing = false)
    (hposted : ∀ k < W.published, posted P W' k = posted P W k) : Channel P W' R B where
  fresh := fun hw => h.fresh (hhelloed ▸ hw)
  greeted := by
    intro hw ht
    obtain ⟨hready, hpub, -⟩ := h.greeted (hhelloed ▸ hw) ht
    exact ⟨hready, by rw [hpublished, hpub], hwriting⟩
  mail := by
    intro hw ht
    rcases h.mail (hhelloed ▸ hw) ht with ⟨hready, hidle, hpub⟩ |
      ⟨hready, hpub, hnone, -, hhello⟩ | hfull
    · exact .empty hready hidle (by rw [hpublished, hpub])
    · exact .hello hready (by rw [hpublished, hpub]) hnone hwriting hhello
    · refine .full ⟨hfull.ready, by rw [hpublished, hfull.published], hwriting, ?_, hfull.comparing,
        hfull.compared, hfull.checksum⟩
      have hlt : R.verdicts.length < W.published := by
        rw [hfull.published]
        omega
      rw [hposted _ hlt]
      exact hfull.digest
  copying := by
    intro i hpc
    rw [hpc] at hwriting
    cases hwriting
  copied := by
    intro hpc
    rw [hpc] at hwriting
    cases hwriting

/-- A step of the writer within what it does between two accesses to its buffer. -/
theorem Channel.writer_goto (h : Channel P W R B) {pc : Pc} (hhelloed : pc.helloed = W.pc.helloed)
    (hsent : pc.sent = W.pc.sent) (hwriting : pc.writing = false) : Channel P (W.goto pc) R B :=
  h.writer_moves hhelloed (by simp [Process.published, Process.goto, hsent]) hwriting
    (fun _ _ => rfl)

/-- A step of the reader that leaves the buffer alone, and in which it reads nothing. -/
theorem Channel.reader_moves (h : Channel P W R B) (htaken : R'.pc.taken = R.pc.taken)
    (hreading : R'.pc.reading = false) (hverdicts : R'.verdicts = R.verdicts) :
    Channel P W R' B where
  fresh := by
    intro hw ht
    obtain ⟨hready, -, hnone⟩ := h.fresh hw (htaken ▸ ht)
    exact ⟨hready, hreading, by rw [hverdicts, hnone]⟩
  greeted := fun hw ht => h.greeted hw (htaken ▸ ht)
  mail := by
    intro hw ht
    have hnot : ∀ pc : Pc, R'.pc = pc → pc.reading = true → False := by
      intro pc hpc hr
      rw [← hpc, hreading] at hr
      cases hr
    rcases h.mail hw (htaken ▸ ht) with ⟨hready, hidle, hpub⟩ |
      ⟨hready, hpub, hnone, hidle, -⟩ | hfull
    · exact .empty hready hreading (by rw [hverdicts, hpub])
    · exact .hello hready hpub (by rw [hverdicts, hnone]) hidle
        (fun _ _ hpc => (hnot _ hpc rfl).elim)
    · refine .full ⟨hfull.ready, by rw [hverdicts, hfull.published], hfull.idle, ?_,
        fun _ _ hpc => (hnot _ hpc rfl).elim, ?_, fun _ _ hpc => (hnot _ hpc rfl).elim⟩
      · rw [hverdicts]
        exact hfull.digest
      · rintro same (hpc | ⟨hello, hpc⟩)
        · exact (hnot _ hpc rfl).elim
        · exact (hnot _ hpc rfl).elim
  copying := h.copying
  copied := h.copied

/-- A step of the reader before it has found a hello. -/
theorem Channel.reader_early (h : Channel P W R B) (htaken : R.pc.taken = false)
    (htaken' : R'.pc.taken = false) (hready : B.ready = 2 → B'.ready = 2)
    (hdigest : B'.md5_digest = B.md5_digest) : Channel P W R' B' where
  fresh := by
    intro _ ht
    rw [htaken'] at ht
    cases ht
  greeted := by
    intro hw _
    obtain ⟨h2, hpub, hwriting⟩ := h.greeted hw htaken
    exact ⟨hready h2, hpub, hwriting⟩
  mail := by
    intro _ ht
    rw [htaken'] at ht
    cases ht
  copying := by
    rw [hdigest]
    exact h.copying
  copied := by
    rw [hdigest]
    exact h.copied

/-- Before the writer says hello, its buffer only matters to a reader that has taken an old one. -/
theorem Channel.writer_early (h : Channel P W R B) (hw : W.pc.helloed = false)
    (hw' : W'.pc.helloed = false) (hready : B.ready = 0 → B'.ready = 0) : Channel P W' R B' where
  fresh := by
    intro _ ht
    obtain ⟨h0, hrest⟩ := h.fresh hw ht
    exact ⟨hready h0, hrest⟩
  greeted := by
    intro hc
    rw [hw'] at hc
    cases hc
  mail := by
    intro hc
    rw [hw'] at hc
    cases hc
  copying := by
    intro i hpc
    rw [hpc] at hw'
    cases hw'
  copied := by
    intro hpc
    rw [hpc] at hw'
    cases hw'

/-- Hello. -/
theorem Channel.writer_hello (h : Channel P W R B) (hl : Local P W) (hpc : W.pc = .hello) :
    Channel P (W.goto .waitHello) R (B.setReady 2) := by
  obtain ⟨-, hnone⟩ := hl.early (by rw [hpc]; rfl)
  have hpub : (W.goto .waitHello).published = 0 := by
    simp [Process.published, Process.goto, hnone, Pc.sent]
  refine ⟨?_, fun _ _ => ⟨rfl, hpub, rfl⟩, ?_, ?_, ?_⟩
  · intro hw
    cases hw
  · intro _ ht
    obtain ⟨-, hidle, hrnone⟩ := h.fresh (by rw [hpc]; rfl) ht
    refine .hello rfl hpub hrnone rfl ?_
    intro same hello hr
    rw [hr] at hidle
    cases hidle
  · intro i hc
    cases hc
  · intro hc
    cases hc

/-- The writer finds its buffer empty. -/
theorem Channel.writer_waitOut (h : Channel P W R B) (hpc : W.pc = .waitOut) (h0 : B.ready = 0) :
    Channel P (W.goto (.copyOut 0)) R B := by
  have hw : W.pc.helloed = true := by rw [hpc]; rfl
  have hpub : (W.goto (.copyOut 0)).published = W.published := by
    simp [Process.published, Process.goto, hpc, Pc.sent]
  refine ⟨?_, ?_, ?_, ?_, ?_⟩
  · intro hc
    cases hc
  · intro _ ht
    have hgreeted := (h.greeted hw ht).1
    omega
  · intro _ ht
    rcases h.mail hw ht with ⟨-, hidle, hempty⟩ | ⟨hready, -⟩ | hfull
    · exact .empty h0 hidle (by rw [hpub, hempty])
    · omega
    · have := hfull.ready
      omega
  · intro i hc
    cases hc
    intro j hj
    omega
  · intro hc
    cases hc

/-- While the writer writes, the reader has nothing to read. -/
theorem Channel.writing_empty (h : Channel P W R B) (hwriting : W.pc.writing = true) :
    W.pc.helloed = true ∧ R.pc.taken = true ∧ B.ready = 0 ∧ R.pc.reading = false ∧
      W.published = R.verdicts.length := by
  have hw : W.pc.helloed = true := by
    cases hpc : W.pc <;> rw [hpc] at hwriting <;> first | rfl | cases hwriting
  have ht : R.pc.taken = true := by
    by_contra ht
    have := (h.greeted hw (by simpa using ht)).2.2
    rw [hwriting] at this
    cases this
  rcases h.mail hw ht with ⟨hready, hidle, hpub⟩ | ⟨-, -, -, hidle, -⟩ | hfull
  · exact ⟨hw, ht, hready, hidle, hpub⟩
  · rw [hwriting] at hidle
    cases hidle
  · have hidle := hfull.idle
    rw [hwriting] at hidle
    cases hidle

/-- A byte of the checksum is written. -/
theorem Channel.writer_copyOut (h : Channel P W R B) {i : Nat} (hpc : W.pc = .copyOut i) :
    Channel P (W.goto (Process.nextByte i .copyOut .publish)) R (B.setByte i (W.digestByte i)) := by
  obtain ⟨hw, ht, hready, hidle, hpub⟩ := h.writing_empty (by rw [hpc]; rfl)
  have hhelloed : (W.goto (Process.nextByte i .copyOut .publish)).pc.helloed = true :=
    Pc.nextByte_eq Pc.helloed i (fun _ => rfl) rfl
  have hsent : (Process.nextByte i .copyOut .publish).sent = false :=
    Pc.nextByte_eq Pc.sent i (fun _ => rfl) rfl
  have hbytes : ∀ j < i + 1, (B.setByte i (W.digestByte i)).md5_digest j = W.digestByte j := by
    intro j hj
    by_cases hji : j = i
    · simp [CommBuffer.setByte, hji]
    · simp only [CommBuffer.setByte, Function.update_of_ne hji]
      exact h.copying i hpc j (by omega)
  refine ⟨?_, ?_, ?_, ?_, ?_⟩
  · intro hc
    rw [hhelloed] at hc
    cases hc
  · intro _ hc
    rw [ht] at hc
    cases hc
  · intro _ _
    refine .empty hready hidle ?_
    rw [← hpub]
    simp only [Process.published, Process.goto, hpc, hsent]
    rfl
  · intro k hc
    simp only [Process.goto, Process.nextByte] at hc
    by_cases hi : i + 1 < 16
    · rw [if_pos hi] at hc
      cases hc
      exact hbytes
    · rw [if_neg hi] at hc
      cases hc
  · intro hc
    simp only [Process.goto, Process.nextByte] at hc
    by_cases hi : i + 1 < 16
    · rw [if_pos hi] at hc
      cases hc
    · intro j hj
      exact hbytes j (by omega)

/-- The checksum is there to be read. -/
theorem Channel.writer_publish (h : Channel P W R B) (hl : Local P W) (hpc : W.pc = .publish) :
    Channel P (W.goto .waitIn) R (B.setReady 1) := by
  obtain ⟨hw, ht, hready, hidle, hpub⟩ := h.writing_empty (by rw [hpc]; rfl)
  have hlen : W.verdicts.length = R.verdicts.length := by
    rw [← hpub]
    simp [Process.published, hpc, Pc.sent]
  have hnot : ∀ pc : Pc, R.pc = pc → pc.reading = true → False := by
    intro pc hr hreading
    rw [← hr, hidle] at hreading
    cases hreading
  refine ⟨?_, ?_, ?_, ?_, ?_⟩
  · intro hc
    cases hc
  · intro _ hc
    rw [ht] at hc
    cases hc
  · intro _ _
    refine .full ⟨rfl, ?_, rfl, ?_, fun _ _ hr => (hnot _ hr rfl).elim, ?_,
      fun _ _ hr => (hnot _ hr rfl).elim⟩
    · simp [Process.published, Process.goto, Pc.sent, hlen]
    · intro j hj
      have hbyte := h.copied hpc j hj
      rw [Process.digestByte, hl.digest (by rw [hpc]; rfl), hlen] at hbyte
      exact hbyte
    · rintro same (hr | ⟨hello, hr⟩)
      · exact (hnot _ hr rfl).elim
      · exact (hnot _ hr rfl).elim
  · intro i hc
    cases hc
  · intro hc
    cases hc

/-- Only a process that runs executes events. -/
theorem execute_fields (P : Params) (p : Process) (hpc : p.pc = .run) (e : Event) :
    (p.execute P e).verdicts = p.verdicts ∧
      ((p.execute P e).pc = .run ∨ (p.execute P e).pc = .waitOut) ∧
      ∃ l, (intervals P (p.execute P e).events).closed = (intervals P p.events).closed ++ l := by
  obtain ⟨l, hl⟩ := closed_add (P := P) (intervals P p.events) e
  rw [← intervals_append] at hl
  by_cases hsame : p.streamsSame = true
  · cases e with
    | dma addr size =>
        simp only [Process.execute, if_pos hsame]
        exact ⟨rfl, .inl hpc, l, hl⟩
    | instr =>
        simp only [Process.execute, if_pos hsame]
        split
        · exact ⟨rfl, .inr rfl, l, hl⟩
        · exact ⟨rfl, .inl hpc, l, hl⟩
  · simp only [Process.execute, if_neg hsame]
    split
    · cases e with
      | dma addr size => exact ⟨rfl, .inl hpc, [], by simp⟩
      | instr => exact ⟨rfl, .inl hpc, [], by simp⟩
    · exact ⟨rfl, .inl hpc, [], by simp⟩

/-- A step of the writer keeps what is known of its buffer. -/
theorem Channel.writer_step {e : Event} {inb inb' : CommBuffer} (h : Channel P W R B)
    (hl : Local P W) (hstep : W.step P e B inb = some (W', B', inb')) : Channel P W' R B' := by
  unfold Process.step at hstep
  cases hpc : W.pc with
  | mapOut =>
      simp only [hpc, Option.some.injEq, Prod.mk.injEq] at hstep
      obtain ⟨rfl, rfl, -⟩ := hstep
      refine h.writer_early (by rw [hpc]; rfl) rfl ?_
      intro h0
      simp [CommBuffer.setReady, h0]
  | mapIn =>
      simp only [hpc, Option.some.injEq, Prod.mk.injEq] at hstep
      obtain ⟨rfl, rfl, -⟩ := hstep
      exact h.writer_early (by rw [hpc]; rfl) rfl id
  | zeroOut i =>
      simp only [hpc, Option.some.injEq, Prod.mk.injEq] at hstep
      obtain ⟨rfl, rfl, -⟩ := hstep
      exact h.writer_early (by rw [hpc]; rfl) (Pc.nextByte_eq Pc.helloed i (fun _ => rfl) rfl) id
  | hello =>
      simp only [hpc, Option.some.injEq, Prod.mk.injEq] at hstep
      obtain ⟨rfl, rfl, -⟩ := hstep
      exact h.writer_hello hl hpc
  | waitHello | waitIn =>
      simp only [hpc, Option.ite_none_right_eq_some, Option.some.injEq, Prod.mk.injEq] at hstep
      obtain ⟨-, rfl, rfl, -⟩ := hstep
      exact h.writer_goto (by rw [hpc]; rfl) (by rw [hpc]; rfl) rfl
  | takeHello | readHello same =>
      simp only [hpc, Option.some.injEq, Prod.mk.injEq] at hstep
      obtain ⟨rfl, rfl, -⟩ := hstep
      exact h.writer_goto (by rw [hpc]; rfl) (by rw [hpc]; rfl) rfl
  | run =>
      simp only [hpc, Option.some.injEq, Prod.mk.injEq] at hstep
      obtain ⟨rfl, rfl, -⟩ := hstep
      obtain ⟨hverdicts, hpc', l, hclosed⟩ := execute_fields P W hpc e
      have hlen := hl.closed
      rw [hpc] at hlen
      have hpub : (W.execute P e).published = W.published := by
        rcases hpc' with hpc' | hpc' <;> simp [Process.published, hverdicts, hpc, hpc', Pc.sent]
      refine h.writer_moves ?_ hpub ?_ ?_
      · rcases hpc' with hpc' | hpc' <;> simp [hpc, hpc', Pc.helloed]
      · rcases hpc' with hpc' | hpc' <;> (rw [hpc']; rfl)
      · intro k hk
        simp only [Process.published, hpc, Pc.sent, Bool.false_eq_true, if_false] at hk
        simp only [Pc.comparing, Bool.false_eq_true, if_false] at hlen
        rw [posted, posted, hclosed, List.getD_append _ _ _ _ (by omega)]
  | waitOut =>
      simp only [hpc, Option.ite_none_right_eq_some, Option.some.injEq, Prod.mk.injEq] at hstep
      obtain ⟨h0, rfl, rfl, -⟩ := hstep
      exact h.writer_waitOut hpc h0
  | copyOut i =>
      simp only [hpc, Option.some.injEq, Prod.mk.injEq] at hstep
      obtain ⟨rfl, rfl, -⟩ := hstep
      exact h.writer_copyOut hpc
  | publish =>
      simp only [hpc, Option.some.injEq, Prod.mk.injEq] at hstep
      obtain ⟨rfl, rfl, -⟩ := hstep
      exact h.writer_publish hl hpc
  | compareIn i same =>
      simp only [hpc, Option.some.injEq, Prod.mk.injEq] at hstep
      obtain ⟨rfl, rfl, -⟩ := hstep
      refine h.writer_goto ?_ ?_ (Pc.nextByte_eq Pc.writing i (fun _ => rfl) rfl)
      · rw [hpc]
        exact Pc.nextByte_eq Pc.helloed i (fun _ => rfl) rfl
      · rw [hpc]
        exact Pc.nextByte_eq Pc.sent i (fun _ => rfl) rfl
  | ackIn same hello =>
      simp only [hpc, Option.some.injEq, Prod.mk.injEq] at hstep
      obtain ⟨rfl, rfl, -⟩ := hstep
      cases hello with
      | true => exact h.writer_goto (by rw [hpc]; rfl) (by rw [hpc]; rfl) rfl
      | false =>
          refine h.writer_moves (by rw [hpc]; rfl) ?_ rfl (fun _ _ => rfl)
          simp [Process.published, Process.compared, hpc, Pc.sent]

/-- The reader takes what it has found to be a hello. -/
theorem Channel.reader_takeHello (h : Channel P W R B) (hl : Local P R) (hpc : R.pc = .takeHello) :
    Channel P W (R.goto .run) (B.setReady 0) := by
  have ht : R.pc.taken = false := by rw [hpc]; rfl
  obtain ⟨-, hnone⟩ := hl.early ht
  refine ⟨fun _ _ => ⟨rfl, rfl, hnone⟩, fun _ hc => ?_, ?_, h.copying, h.copied⟩
  · cases hc
  · intro hw _
    obtain ⟨-, hpub, -⟩ := h.greeted hw ht
    refine .empty rfl rfl ?_
    rw [hpub]
    simp [Process.goto, hnone]

/-- Where the reader has found something, its writer is known to wait. -/
theorem Channel.reading_mail (h : Channel P W R B) (hr : R.pc.reading = true) :
    W.pc.helloed = true ∧ R.pc.taken = true ∧
      ((B.ready = 2 ∧ W.published = 0 ∧ R.verdicts = [] ∧ W.pc.writing = false ∧
          ∀ same hello, R.pc = .ackIn same hello → hello = true) ∨
        Full P W R B) := by
  have ht : R.pc.taken = true := by
    cases hpc : R.pc <;> rw [hpc] at hr <;> first | rfl | cases hr
  have hw : W.pc.helloed = true := by
    by_contra hw
    have := (h.fresh (by simpa using hw) ht).2.1
    rw [hr] at this
    cases this
  refine ⟨hw, ht, ?_⟩
  rcases h.mail hw ht with ⟨-, hidle, -⟩ | ⟨hready, hpub, hnone, hidle, hhello⟩ | hfull
  · rw [hr] at hidle
    cases hidle
  · exact .inl ⟨hready, hpub, hnone, hidle, hhello⟩
  · exact .inr hfull

/-- A step of the reader from one thing that it reads to the next. -/
theorem Channel.reader_reads (h : Channel P W R B) {pc : Pc} (hr : R.pc.reading = true)
    (ht : pc.taken = true)
    (hhello : B.ready = 2 → ∀ same hello, pc = .ackIn same hello → hello = true)
    (hcomparing : Full P W R B → ∀ i same, pc = .compareIn i same → i < 16 ∧ same = sameBytes B R i)
    (hcompared : Full P W R B → ∀ same, pc = .readHello same ∨ (∃ hello, pc = .ackIn same hello) →
      same = sameBytes B R 16)
    (hchecksum : Full P W R B → ∀ same hello, pc = .ackIn same hello → hello = false) :
    Channel P W (R.goto pc) B := by
  obtain ⟨hw, htaken, hmail⟩ := h.reading_mail hr
  refine ⟨fun hc => ?_, fun _ hc => ?_, fun _ _ => ?_, h.copying, h.copied⟩
  · rw [hw] at hc
    cases hc
  · simp only [Process.goto, ht] at hc
    cases hc
  · rcases hmail with ⟨hready, hpub, hnone, hidle, -⟩ | hfull
    · exact .hello hready hpub hnone hidle (hhello hready)
    · exact .full ⟨hfull.ready, hfull.published, hfull.idle, hfull.digest, hcomparing hfull,
        hcompared hfull, hchecksum hfull⟩

/-- The reader finds something. -/
theorem Channel.reader_waitIn (h : Channel P W R B) (hpc : R.pc = .waitIn) (h0 : B.ready ≠ 0) :
    Channel P W (R.goto (.compareIn 0 true)) B := by
  have ht : R.pc.taken = true := by rw [hpc]; rfl
  have hw : W.pc.helloed = true := by
    by_contra hw
    exact h0 (h.fresh (by simpa using hw) ht).1
  refine ⟨fun hc => ?_, fun _ hc => ?_, fun _ _ => ?_, h.copying, h.copied⟩
  · rw [hw] at hc
    cases hc
  · cases hc
  · rcases h.mail hw ht with ⟨hready, -, -⟩ | ⟨hready, hpub, hnone, hidle, -⟩ | hfull
    · exact absurd hready h0
    · refine .hello hready hpub hnone hidle ?_
      intro same hello hc
      cases hc
    · refine .full ⟨hfull.ready, hfull.published, hfull.idle, hfull.digest, ?_, ?_, ?_⟩
      · intro i same hc
        cases hc
        exact ⟨by decide, (sameBytes_zero B R).symm⟩
      · rintro same (hc | ⟨hello, hc⟩) <;> cases hc
      · intro same hello hc
        cases hc

/-- A byte is compared. -/
theorem Channel.reader_compareIn (h : Channel P W R B) {i : Nat} {same : Bool}
    (hpc : R.pc = .compareIn i same) :
    Channel P W
      (R.goto (Process.nextByte i
        (.compareIn · (same && B.md5_digest i = R.digestByte i))
        (.readHello (same && B.md5_digest i = R.digestByte i)))) B := by
  have hnext : ∀ b : Bool, (Process.nextByte i (.compareIn · b) (.readHello b)).taken = true :=
    fun b => Pc.nextByte_eq Pc.taken i (fun _ => rfl) rfl
  have hsame : Full P W R B → (same && B.md5_digest i = R.digestByte i) =
    sameBytes B R (i + 1) := by
    intro hfull
    rw [sameBytes_succ, (hfull.comparing i same hpc).2]
  refine h.reader_reads (by rw [hpc]; rfl) (hnext _) ?_ ?_ ?_ ?_
  · intro _ s hello hc
    unfold Process.nextByte at hc
    split at hc <;> cases hc
  · intro hfull k s hc
    unfold Process.nextByte at hc
    split at hc
    · cases hc
      exact ⟨by assumption, hsame hfull⟩
    · cases hc
  · intro hfull s hc
    have hi := (hfull.comparing i same hpc).1
    unfold Process.nextByte at hc
    by_cases hlast : i + 1 < 16
    · rw [if_pos hlast] at hc
      rcases hc with hc | ⟨hello, hc⟩ <;> cases hc
    · rw [if_neg hlast] at hc
      have hlast : i + 1 = 16 := by omega
      rcases hc with hc | ⟨hello, hc⟩
      · cases hc
        rw [← hlast]
        exact hsame hfull
      · cases hc
  · intro _ s hello hc
    unfold Process.nextByte at hc
    split at hc <;> cases hc

/-- What was found is a hello or a checksum. -/
theorem Channel.reader_readHello (h : Channel P W R B) {same : Bool}
    (hpc : R.pc = .readHello same) :
    Channel P W (R.goto (.ackIn same (B.ready = 2))) B := by
  refine h.reader_reads (by rw [hpc]; rfl) rfl ?_ ?_ ?_ ?_
  · intro h2 s hello hc
    cases hc
    simp [h2]
  · intro _ i s hc
    cases hc
  · rintro hfull s (hc | ⟨hello, hc⟩)
    · cases hc
    · cases hc
      exact hfull.compared same (.inl hpc)
  · intro hfull s hello hc
    cases hc
    simp [hfull.ready]

/-- The reader empties the buffer. -/
theorem Channel.reader_ackIn (h : Channel P W R B) {same hello : Bool}
    (hpc : R.pc = .ackIn same hello) :
    Channel P W (if hello then R.goto .waitIn else R.compared P same) (B.setReady 0) := by
  obtain ⟨hw, ht, hmail⟩ := h.reading_mail (by rw [hpc]; rfl)
  have hfresh : W.pc.helloed = false → False := by
    intro hc
    rw [hw] at hc
    cases hc
  rcases hmail with ⟨-, hpub, hnone, -, hhello⟩ | hfull
  · have hh := hhello same hello hpc
    subst hh
    refine ⟨fun hc => (hfresh hc).elim, fun _ hc => (by cases hc), fun _ _ => ?_,
      h.copying, h.copied⟩
    refine .empty rfl rfl ?_
    rw [hpub]
    simp [Process.goto, hnone]
  · have hh := hfull.checksum same hello hpc
    subst hh
    refine ⟨fun hc => (hfresh hc).elim, fun _ hc => (by cases hc), fun _ _ => ?_,
      h.copying, h.copied⟩
    refine .empty rfl rfl ?_
    rw [hfull.published]
    simp [Process.compared]

/-- A step of the reader keeps what is known of the buffer it reads. -/
theorem Channel.reader_step {e : Event} {out out' : CommBuffer} (h : Channel P W R B)
    (hl : Local P R) (hstep : R.step P e out B = some (R', out', B')) : Channel P W R' B' := by
  unfold Process.step at hstep
  cases hpc : R.pc with
  | mapIn =>
      simp only [hpc, Option.some.injEq, Prod.mk.injEq] at hstep
      obtain ⟨rfl, -, rfl⟩ := hstep
      refine h.reader_early (by rw [hpc]; rfl) rfl ?_ rfl
      intro h2
      simp [CommBuffer.setReady, h2]
  | mapOut | hello =>
      simp only [hpc, Option.some.injEq, Prod.mk.injEq] at hstep
      obtain ⟨rfl, -, rfl⟩ := hstep
      exact h.reader_early (by rw [hpc]; rfl) rfl id rfl
  | zeroOut i =>
      simp only [hpc, Option.some.injEq, Prod.mk.injEq] at hstep
      obtain ⟨rfl, -, rfl⟩ := hstep
      exact h.reader_early (by rw [hpc]; rfl) (Pc.nextByte_eq Pc.taken i (fun _ => rfl) rfl) id rfl
  | waitHello =>
      simp only [hpc, Option.ite_none_right_eq_some, Option.some.injEq, Prod.mk.injEq] at hstep
      obtain ⟨-, rfl, -, rfl⟩ := hstep
      exact h.reader_early (by rw [hpc]; rfl) rfl id rfl
  | takeHello =>
      simp only [hpc, Option.some.injEq, Prod.mk.injEq] at hstep
      obtain ⟨rfl, -, rfl⟩ := hstep
      exact h.reader_takeHello hl hpc
  | run =>
      simp only [hpc, Option.some.injEq, Prod.mk.injEq] at hstep
      obtain ⟨rfl, -, rfl⟩ := hstep
      obtain ⟨hverdicts, hpc', -⟩ := execute_fields P R hpc e
      refine h.reader_moves ?_ ?_ hverdicts
      · rcases hpc' with hpc' | hpc' <;> simp [hpc, hpc', Pc.taken]
      · rcases hpc' with hpc' | hpc' <;> (rw [hpc']; rfl)
  | waitOut =>
      simp only [hpc, Option.ite_none_right_eq_some, Option.some.injEq, Prod.mk.injEq] at hstep
      obtain ⟨-, rfl, -, rfl⟩ := hstep
      exact h.reader_moves (by rw [hpc]; rfl) rfl rfl
  | copyOut i =>
      simp only [hpc, Option.some.injEq, Prod.mk.injEq] at hstep
      obtain ⟨rfl, -, rfl⟩ := hstep
      refine h.reader_moves ?_ (Pc.nextByte_eq Pc.reading i (fun _ => rfl) rfl) rfl
      rw [hpc]
      exact Pc.nextByte_eq Pc.taken i (fun _ => rfl) rfl
  | publish =>
      simp only [hpc, Option.some.injEq, Prod.mk.injEq] at hstep
      obtain ⟨rfl, -, rfl⟩ := hstep
      exact h.reader_moves (by rw [hpc]; rfl) rfl rfl
  | waitIn =>
      simp only [hpc, Option.ite_none_right_eq_some, Option.some.injEq, Prod.mk.injEq] at hstep
      obtain ⟨h0, rfl, -, rfl⟩ := hstep
      exact h.reader_waitIn hpc h0
  | compareIn i same =>
      simp only [hpc, Option.some.injEq, Prod.mk.injEq] at hstep
      obtain ⟨rfl, -, rfl⟩ := hstep
      exact h.reader_compareIn hpc
  | readHello same =>
      simp only [hpc, Option.some.injEq, Prod.mk.injEq] at hstep
      obtain ⟨rfl, -, rfl⟩ := hstep
      exact h.reader_readHello hpc
  | ackIn same hello =>
      simp only [hpc, Option.some.injEq, Prod.mk.injEq] at hstep
      obtain ⟨rfl, -, rfl⟩ := hstep
      exact h.reader_ackIn hpc

end AsimFeeder.SoftSDV.Lockstep
