/-
What a process in lock step knows of itself (`lockstep.cpp`, `arch_x86/lockstep_x86.cpp`).

How far a process is, is read off the access that is next.  `Local` holds at each of them: the
checksum that is in the making is that of the open interval, a checksum that is compared is
that of the last one, and a process goes on only while it has seen no difference.
-/
import AsimFeeder.SoftSDV.Lockstep
import AsimFeeder.SoftSDV.Md5Stream

namespace AsimFeeder.SoftSDV.Lockstep

open AsimFeeder.Lib

/-! ### How far a process is -/

namespace Pc

/-- It has said hello. -/
def helloed : Pc → Bool
  | mapOut | mapIn | zeroOut _ | hello => false
  | _ => true

/-- It has found a hello of the other process, or an old one. -/
def taken : Pc → Bool
  | mapOut | mapIn | zeroOut _ | hello | waitHello | takeHello => false
  | _ => true

/-- It is in `CompareProcesses`. -/
def comparing : Pc → Bool
  | waitOut | copyOut _ | publish | waitIn | compareIn .. | readHello _ | ackIn .. => true
  | _ => false

/-- Its checksum is in the buffer. -/
def sent : Pc → Bool
  | waitIn | compareIn .. | readHello _ | ackIn .. => true
  | _ => false

/-- It has found something in the buffer that it reads. -/
def reading : Pc → Bool
  | compareIn .. | readHello _ | ackIn .. => true
  | _ => false

/-- It has found the buffer that it writes empty. -/
def writing : Pc → Bool
  | copyOut _ | publish => true
  | _ => false

/-- A property of places that all bytes and what follows them have. -/
theorem nextByte_eq {α : Type} (f : Pc → α) (i : Nat) {again : Nat → Pc} {done : Pc} {v : α}
    (hagain : ∀ j, f (again j) = v) (hdone : f done = v) :
    f (Process.nextByte i again done) = v := by
  unfold Process.nextByte
  by_cases hi : i + 1 < 16
  · rw [if_pos hi]
    exact hagain _
  · rw [if_neg hi]
    exact hdone

end Pc

/-! ### The checksum of an interval -/

/-- Two checksums are compared byte by byte. -/
theorem digest_eq_iff {a b : List UInt8} (ha : a.length = 16) (hb : b.length = 16) :
    (∀ j < 16, a.getD j 0 = b.getD j 0) ↔ a = b := by
  constructor
  · intro h
    apply List.ext_getElem (by rw [ha, hb])
    intro j hja hjb
    have hj := h j (by omega)
    rwa [List.getD_eq_getElem _ _ hja, List.getD_eq_getElem _ _ hjb] at hj
  · intro h
    simp [h]

variable {P : Params}

/-- The checksum of interval `k`. -/
def posted (P : Params) (p : Process) (k : Nat) : List UInt8 :=
  md5 ((intervals P p.events).closed.getD k [])

theorem posted_length (P : Params) (p : Process) (k : Nat) : (posted P p k).length = 16 := rfl

/-- How many checksums a process has put into its buffer. -/
def Process.published (p : Process) : Nat := p.verdicts.length + if p.pc.sent then 1 else 0

theorem intervals_append (P : Params) (events : List Event) (e : Event) :
    intervals P (events ++ [e]) = (intervals P events).add P e := by
  simp [intervals]

/-- Intervals that have ended stay. -/
theorem closed_add (c : Intervals) (e : Event) : ∃ l, (c.add P e).closed = c.closed ++ l := by
  cases e with
  | dma addr size => exact ⟨[], by simp [Intervals.add]⟩
  | instr =>
      simp only [Intervals.add]
      by_cases hlong : P.interval ≤ c.count + 1
      · exact ⟨_, by rw [if_pos hlong]⟩
      · exact ⟨[], by rw [if_neg hlong, List.append_nil]⟩

/-! ### What a process knows of itself -/

structure Local (P : Params) (p : Process) : Prop where
  closed : (intervals P p.events).closed.length =
    p.verdicts.length + if p.pc.comparing then 1 else 0
  running : p.pc.comparing = false →
    MD5.Holds (intervals P p.events).bytes p.newInstrsMD5 ∧
      (intervals P p.events).count = p.instCount
  digest : p.pc.comparing = true → p.newInstrsMD5.digest = posted P p p.verdicts.length
  between : p.pc.comparing = true → (intervals P p.events).bytes = [] ∧
    (intervals P p.events).count = 0
  early : p.pc.taken = false → p.events = [] ∧ p.verdicts = []
  going : p.streamsSame = true → p.verdicts = List.replicate p.verdicts.length true
  ended : p.streamsSame = false → p.pc = .run ∧ ∃ n, p.verdicts = List.replicate n true ++ [false]

theorem Local.new (m : MD5) : Local P (Process.new m) where
  closed := rfl
  running := fun _ => ⟨MD5.reset_holds m, rfl⟩
  digest := fun h => absurd h (by simp [Process.new, Pc.comparing])
  between := fun h => absurd h (by simp [Process.new, Pc.comparing])
  early := fun _ => ⟨rfl, rfl⟩
  going := fun _ => rfl
  ended := fun h => absurd h (by simp [Process.new])

/-- A process that is not between instructions has seen no difference. -/
theorem Local.same {p : Process} (h : Local P p) (hpc : p.pc ≠ .run) : p.streamsSame = true := by
  by_contra hsame
  exact hpc (h.ended (by simpa using hsame)).1

theorem Local.goto {p : Process} {pc : Pc} (h : Local P p) (hpc : p.pc ≠ .run)
    (hcomparing : pc.comparing = p.pc.comparing) (htaken : pc.taken = false → p.pc.taken = false) :
    Local P (p.goto pc) where
  closed := by
    simp only [Process.goto, hcomparing]
    exact h.closed
  running := fun hc => h.running (hcomparing ▸ hc)
  digest := fun hc => h.digest (hcomparing ▸ hc)
  between := fun hc => h.between (hcomparing ▸ hc)
  early := fun ht => h.early (htaken ht)
  going := h.going
  ended := fun hs => absurd (h.same hpc) (by simpa [Process.goto] using hs)

/-- What noting an event does to the checksum. -/
theorem note_holds (P : Params) {p : Process} {l : List UInt8} (h : MD5.Holds l p.newInstrsMD5)
    (e : Event) :
    MD5.Holds (l ++ e.pieces.flatMap (·.val)) (p.note P e).newInstrsMD5 :=
  MD5.updates_holds h e.pieces

theorem note_events (p : Process) (e : Event) : (p.note P e).events = p.events ++ [e] := rfl

/-- A DMA write, or an instruction that does not end its interval, is noted. -/
theorem Local.note {p q : Process} {e : Event} (h : Local P p) (hpc : p.pc = .run)
    (hq : q = { p.note P e with instCount := q.instCount }) (hsame : p.streamsSame = true)
    (hadd : intervals P q.events = { intervals P p.events with
      bytes := (intervals P p.events).bytes ++ e.pieces.flatMap (·.val), count := q.instCount }) :
    Local P q := by
  have hcomparing : p.pc.comparing = false := by rw [hpc]; rfl
  have hqpc : q.pc = .run := by rw [hq]; exact hpc
  have hverdicts : q.verdicts = p.verdicts := by rw [hq]; rfl
  obtain ⟨hholds, -⟩ := h.running hcomparing
  refine ⟨?_, ?_, ?_, ?_, ?_, ?_, ?_⟩
  · have hclosed := h.closed
    rw [hpc] at hclosed
    rw [hadd, hqpc, hverdicts]
    exact hclosed
  · intro _
    rw [hadd]
    refine ⟨?_, rfl⟩
    rw [hq]
    exact note_holds P hholds e
  · intro hc
    rw [hqpc] at hc
    cases hc
  · intro hc
    rw [hqpc] at hc
    cases hc
  · intro ht
    rw [hqpc] at ht
    cases ht
  · intro _
    rw [hverdicts]
    exact h.going hsame
  · intro hs
    rw [hq] at hs
    exact absurd hsame (by simpa [Process.note] using hs)

/-- The instruction that ends its interval completes the checksum of the interval. -/
theorem Local.close {p q : Process} {e : Event} (h : Local P p) (hpc : p.pc = .run)
    (hq : q = { p.note P e with
      instCount := q.instCount
      newInstrsMD5 := (p.note P e).newInstrsMD5.finalize
      pc := .waitOut })
    (hsame : p.streamsSame = true)
    (hadd : intervals P q.events =
      { closed := (intervals P p.events).closed ++
          [(intervals P p.events).bytes ++ e.pieces.flatMap (·.val)], bytes := [], count := 0 }) :
    Local P q := by
  have hcomparing : p.pc.comparing = false := by rw [hpc]; rfl
  have hqpc : q.pc = .waitOut := by rw [hq]
  have hverdicts : q.verdicts = p.verdicts := by rw [hq]; rfl
  have hclosed := h.closed
  rw [hcomparing] at hclosed
  obtain ⟨hholds, -⟩ := h.running hcomparing
  refine ⟨?_, ?_, ?_, ?_, ?_, ?_, ?_⟩
  · rw [hadd, hqpc, hverdicts, List.length_append, hclosed]
    rfl
  · intro hc
    rw [hqpc] at hc
    cases hc
  · intro _
    have hdigest := MD5.finalize_digest (note_holds P hholds e)
    rw [posted, hadd, hverdicts, hq, hdigest]
    simp only [Bool.false_eq_true, if_false, Nat.add_zero] at hclosed
    rw [← hclosed]
    simp
  · intro _
    rw [hadd]
    exact ⟨rfl, rfl⟩
  · intro ht
    rw [hqpc] at ht
    cases ht
  · intro _
    rw [hverdicts]
    exact h.going hsame
  · intro hs
    rw [hq] at hs
    exact absurd hsame (by simpa [Process.note] using hs)

/-- What a process knows after an event. -/
theorem Local.execute {p : Process} (h : Local P p) (hpc : p.pc = .run) (e : Event) :
    Local P (p.execute P e) := by
  obtain ⟨hholds, hcount⟩ := h.running (by rw [hpc]; rfl)
  by_cases hsame : p.streamsSame = true
  · cases e with
    | dma addr size =>
        have hexec : p.execute P (.dma addr size) = p.note P (.dma addr size) := by
          simp [Process.execute, hsame]
        rw [hexec]
        refine h.note (e := .dma addr size) hpc rfl hsame ?_
        rw [note_events, intervals_append, Intervals.add, hcount]
        rfl
    | instr cpuNum icount pa va instBytes access_list =>
        by_cases hlong : P.interval ≤ p.instCount + 1
        · refine h.close (e := .instr cpuNum icount pa va instBytes access_list) hpc ?_ hsame ?_
          · simp [Process.execute, hsame, hlong, Process.note]
          · have hevents : (p.execute P (.instr cpuNum icount pa va instBytes access_list)).events =
                p.events ++ [.instr cpuNum icount pa va instBytes access_list] := by
              simp [Process.execute, hsame, hlong, Process.note]
            rw [hevents, intervals_append, Intervals.add, hcount]
            simp only [if_pos hlong]
        · refine h.note (e := .instr cpuNum icount pa va instBytes access_list) hpc ?_ hsame ?_
          · simp [Process.execute, hsame, hlong, Process.note]
          · have hevents : (p.execute P (.instr cpuNum icount pa va instBytes access_list)).events =
                p.events ++ [.instr cpuNum icount pa va instBytes access_list] := by
              simp [Process.execute, hsame, hlong, Process.note]
            have hinst : (p.execute P (.instr cpuNum icount pa va instBytes
              access_list)).instCount =
                p.instCount + 1 := by
              simp [Process.execute, hsame, hlong, Process.note]
            rw [hevents, hinst, intervals_append, Intervals.add, hcount]
            simp only [if_neg hlong]
  · -- nothing is noted any more
    simp only [Process.execute, if_neg hsame]
    split
    · split
      · exact ⟨h.closed, h.running, h.digest, h.between, h.early, h.going, h.ended⟩
      · exact ⟨h.closed, h.running, h.digest, h.between, h.early, h.going, h.ended⟩
    · exact h

/-- The verdict is noted, and the next interval begins. -/
theorem Local.compared {p : Process} (h : Local P p) (hsent : p.pc.sent = true) (same : Bool) :
    Local P (p.compared P same) := by
  have hcomparing : p.pc.comparing = true := by
    cases hpc : p.pc <;> rw [hpc] at hsent <;> first | rfl | cases hsent
  have hrun : p.pc ≠ .run := by
    intro hpc
    rw [hpc] at hsent
    cases hsent
  have hgoing := h.going (h.same hrun)
  obtain ⟨hbytes, hcount⟩ := h.between hcomparing
  have hclosed := h.closed
  rw [hcomparing, if_pos rfl] at hclosed
  refine ⟨?_, ?_, ?_, ?_, ?_, ?_, ?_⟩
  · simp only [Process.compared, List.length_append, List.length_singleton]
    exact hclosed
  · intro _
    refine ⟨?_, hcount⟩
    simp only [Process.compared, hbytes]
    exact MD5.reset_holds _
  · intro hc
    cases hc
  · intro hc
    cases hc
  · intro ht
    cases ht
  · intro hs
    have hs : same = true := hs
    subst hs
    simp only [Process.compared, List.length_append, List.length_singleton, List.replicate_succ',
      ← hgoing]
  · intro hs
    have hs : same = false := hs
    subst hs
    refine ⟨rfl, p.verdicts.length, ?_⟩
    simp only [Process.compared, ← hgoing]

/-- A step of a process, seen by the process itself. -/
theorem Local.step {p p' : Process} {e : Event} {out inb out' inb' : CommBuffer} (h : Local P p)
    (hstep : p.step P e out inb = some (p', out', inb')) : Local P p' := by
  unfold Process.step at hstep
  cases hpc : p.pc with
  | run =>
      simp only [hpc, Option.some.injEq, Prod.mk.injEq] at hstep
      rw [← hstep.1]
      exact h.execute hpc e
  | ackIn same hello =>
      simp only [hpc, Option.some.injEq, Prod.mk.injEq] at hstep
      rw [← hstep.1]
      cases hello with
      | true => exact h.goto (by simp [hpc]) (by rw [hpc]; rfl) (fun ht => by cases ht)
      | false => exact h.compared (by rw [hpc]; rfl) same
  | mapOut | mapIn | hello | takeHello | publish | readHello same =>
      simp only [hpc, Option.some.injEq, Prod.mk.injEq] at hstep
      rw [← hstep.1]
      exact h.goto (by simp [hpc]) (by rw [hpc]; rfl)
        (fun _ => by rw [hpc]; first | rfl | assumption)
  | zeroOut i =>
      simp only [hpc, Option.some.injEq, Prod.mk.injEq] at hstep
      rw [← hstep.1]
      refine h.goto (by simp [hpc]) ?_ (fun _ => by rw [hpc]; rfl)
      rw [hpc]
      exact Pc.nextByte_eq Pc.comparing i (fun _ => rfl) rfl
  | copyOut i =>
      simp only [hpc, Option.some.injEq, Prod.mk.injEq] at hstep
      rw [← hstep.1]
      refine h.goto (by simp [hpc]) ?_ (fun ht => ?_)
      · rw [hpc]
        exact Pc.nextByte_eq Pc.comparing i (fun _ => rfl) rfl
      · rw [Pc.nextByte_eq Pc.taken i (v := true) (fun _ => rfl) rfl] at ht
        cases ht
  | compareIn i same =>
      simp only [hpc, Option.some.injEq, Prod.mk.injEq] at hstep
      rw [← hstep.1]
      refine h.goto (by simp [hpc]) ?_ (fun ht => ?_)
      · rw [hpc]
        exact Pc.nextByte_eq Pc.comparing i (fun _ => rfl) rfl
      · rw [Pc.nextByte_eq Pc.taken i (v := true) (fun _ => rfl) rfl] at ht
        cases ht
  | waitHello | waitOut | waitIn =>
      simp only [hpc, Option.ite_none_right_eq_some, Option.some.injEq, Prod.mk.injEq] at hstep
      rw [← hstep.2.1]
      exact h.goto (by simp [hpc]) (by rw [hpc]; rfl)
        (fun _ => by rw [hpc]; first | rfl | assumption)

end AsimFeeder.SoftSDV.Lockstep
