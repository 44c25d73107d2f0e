/-
A join waits for the exit.

A join and an exit go through four phases: nothing was issued, the joiner waits, the other
thread has exited, or both are through.  While the joiner waits its newest map must give
the value pointer, and while the other thread has exited its newest map must give the
argument of the exit; instructions that are fetched or committed meanwhile keep both.
-/
import AsimFeeder.Aint.RenameReads
import AsimFeeder.Aint.PthreadJoin

namespace AsimFeeder.Aint.PthreadJoin

open Lib RenameThread

namespace Thread

variable {t t' : Thread} {instid : UInt64} {reg : LogicalRegNum}

/-- A fetch of an instruction that leaves a register, or a commit, keeps its value. -/
theorem MapReg_thr_fetch {picode : Option Icode} (h : t.exec (.fetch picode) = some t')
    (hleaves : Joining.leaves reg picode = true) : t'.MapReg_thr reg = t.MapReg_thr reg := by
  obtain ⟨rename, hfetch, rfl⟩ := Option.map_eq_some_iff.mp h
  have hkeeps := fetch_keeps reg hfetch ?_
  · unfold MapReg_thr
    rw [hkeeps.1, hkeeps.2]
  · intro p dest hp hdest
    subst hp
    simpa [Joining.leaves, hdest] using hleaves

variable (reg) in
theorem MapReg_thr_commit (hreg : isNonzero reg = true) (hc : t.rename.Conserves)
    (hlegal : t.rename.legal (.commit instid) = true) (h : t.exec (.commit instid) = some t') :
    t'.MapReg_thr reg = t.MapReg_thr reg := by
  obtain ⟨rename, hcommit, rfl⟩ := Option.map_eq_some_iff.mp h
  obtain ⟨l, hl⟩ := List.head?_eq_some_iff.mp (eq_of_beq hlegal)
  obtain ⟨hmap, hReg⟩ := hc.commit_keeps reg hl hcommit
  unfold MapReg_thr
  rw [hmap, hReg hreg]

/-- What a thread does keeps its registers apart. -/
theorem conserves_exec {e : RenameEvent} (hc : t.rename.Conserves)
    (hlegal : t.rename.legal e = true) (hcareful : t.rename.careful e = true)
    (h : t.exec e = some t') : t'.rename.Conserves := by
  refine hc.step ⟨e, by rw [hlegal, hcareful]; rfl, ?_⟩
  cases e with
  | fetch picode =>
      obtain ⟨rename, hrename, rfl⟩ := Option.map_eq_some_iff.mp h
      exact hrename
  | issue instid writes =>
      obtain ⟨rename, hrename, rfl⟩ := Option.map_eq_some_iff.mp h
      exact hrename
  | commit instid =>
      obtain ⟨rename, hrename, rfl⟩ := Option.map_eq_some_iff.mp h
      exact hrename
  | kill instid =>
      obtain ⟨rename, hrename, rfl⟩ := Option.map_eq_some_iff.mp h
      exact hrename

/-- A system call is issued: its map stays what it is. -/
theorem issue_call (hc : t.rename.Conserves) (hmem : instid ∈ t.rename.flight)
    (h : t.AINT_issue_other instid [] = some t') :
    t'.rename.Conserves ∧ Writes t.rename t'.rename ∧ t'.tid = t.tid ∧ t'.runstate = t.runstate ∧
      t'.ifi = Function.update t.ifi instid .R_RUN := by
  obtain ⟨rename, hissue, rfl⟩ := Option.map_eq_some_iff.mp h
  refine ⟨hc.issue hmem ?_ hissue, writes_issue hissue, rfl, rfl, rfl⟩
  intro w hw
  cases hw

variable (reg) in
/-- What a call returns goes to registers that are not its arguments. -/
theorem setSuccess (hc : t.rename.Conserves) (hmem : instid ∈ t.rename.flight)
    (h : t.SyscallSetSuccess instid = some t') :
    t'.rename.Conserves ∧ Writes t.rename t'.rename ∧ t'.runstate = t.runstate ∧ t'.ifi = t.ifi ∧
      ∀ value, (reg = A0 ∨ reg = A1) → t.MapReg instid reg = some value →
        Joining.unrenamed t.rename instid reg = true → t'.MapReg_thr reg = value := by
  obtain ⟨rename, hwrites, rfl⟩ := Option.map_eq_some_iff.mp h
  obtain ⟨hw, hkeeps⟩ := writes_writeCells hwrites
  refine ⟨hc.writeCells hmem ?_ hwrites, hw, rfl, rfl, ?_⟩
  · intro w hmem
    simp only [List.mem_cons, List.not_mem_nil, or_false] at hmem
    rcases hmem with rfl | rfl
    · rfl
    · rfl
  · intro value hreg hvalue hunrenamed
    obtain ⟨map, hmap, rfl⟩ := Option.map_eq_some_iff.mp hvalue
    unfold Joining.unrenamed at hunrenamed
    rw [hmap, Option.all_some, decide_eq_true_eq] at hunrenamed
    unfold MapReg_thr
    rw [hw.map, ← hunrenamed]
    apply hkeeps
    intro w hmem'
    have hne : ∀ r : LogicalRegNum, r ∈ logicals false → reg ≠ r →
        t.rename.cell instid (.atCall r) ≠ some (map reg) := by
      intro r hr hne hcell
      have hsame : map r = map reg := by simpa [cell, hmap] using hcell
      refine hne (hc.snapshot_inj hmem hmap ?_ hr hsame.symm)
      rcases hreg with rfl | rfl
      · exact mem_logicals.mpr (by decide)
      · exact mem_logicals.mpr (by decide)
    simp only [List.mem_cons, List.not_mem_nil, or_false] at hmem'
    rcases hmem' with rfl | rfl
    · refine hne ERROR_REG (mem_logicals.mpr (by decide)) ?_
      rcases hreg with rfl | rfl
      · decide
      · decide
    · refine hne RET_VAL_REG (mem_logicals.mpr (by decide)) ?_
      rcases hreg with rfl | rfl
      · decide
      · decide

end Thread

/-! ### The phases -/

namespace Joining

/-- The other thread has neither exited nor looks as if it had. -/
structure Running (t : Thread) : Prop where
  ifi : ∀ instid, t.ifi instid ≠ .R_DONE
  runstate : t.runstate ≠ .R_DONE

structure Fresh (s : Joining) : Prop where
  past : s.past = ⟨none, none, none, false⟩
  blocked : s.blocked = false
  wthread : s.wthread = false
  running : Running s.joinee

structure Waiting (s : Joining) (p : Int) : Prop where
  past : s.past = ⟨some p, none, none, false⟩
  blocked : s.blocked = true
  wthread : s.wthread = true
  running : Running s.joinee
  newest : s.joiner.MapReg_thr A1 = p

structure Exited (s : Joining) (i : UInt64) (a : Int) : Prop where
  pointer : s.past.pointer = none
  word : s.past.word = none
  exit : s.past.exit = some (i, a)
  blocked : s.blocked = false
  issued : s.past.committed = false → s.joinee.ifi i = .R_DONE
  published : s.past.committed = true → s.joinee.runstate = .R_DONE
  newest : s.joinee.MapReg_thr A0 = a

structure Through (s : Joining) (p w : Int) (i : UInt64) (a : Int) : Prop where
  pointer : s.past.pointer = some p
  word : s.past.word = some w
  exit : s.past.exit = some (i, a)
  blocked : s.blocked = false
  saved : p ≠ 0 → w = a

inductive Phase (s : Joining) : Prop
  | fresh (h : s.Fresh)
  | waiting (p : Int) (h : s.Waiting p)
  | exited (i : UInt64) (a : Int) (h : s.Exited i a)
  | through (p w : Int) (i : UInt64) (a : Int) (h : s.Through p w i a)

structure Sound (s : Joining) : Prop where
  joiner : s.joiner.rename.Conserves
  joinee : s.joinee.rename.Conserves
  phase : s.Phase

variable {s t : Joining} {instid : UInt64}

theorem save_self {value_ptr : Int} (h : value_ptr ≠ 0) (value : Int) :
    s.save value_ptr value value_ptr = value := by
  unfold save
  rw [if_neg h, Function.update_self]

theorem Start.sound (h : Start s) : s.Sound where
  joiner := h.joiner ▸ conserves_init
  joinee := h.joinee ▸ conserves_init
  phase := by
    refine .fresh ⟨h.past, h.blocked, h.wthread, ?_, ?_⟩
    · intro i
      rw [h.ifi i]
      decide
    · rw [h.runstate]
      decide

/-- The joiner changes, and keeps the value pointer while it waits. -/
theorem Phase.joiner (h : s.Phase) {joiner : Thread}
    (hkeeps : s.blocked = true → joiner.MapReg_thr A1 = s.joiner.MapReg_thr A1) :
    Phase { s with joiner := joiner } := by
  cases h with
  | fresh h => exact .fresh ⟨h.past, h.blocked, h.wthread, h.running⟩
  | waiting p h =>
      exact .waiting p
        ⟨h.past, h.blocked, h.wthread, h.running, (hkeeps h.blocked).trans h.newest⟩
  | exited i a h =>
      exact .exited i a
        ⟨h.pointer, h.word, h.exit, h.blocked, h.issued, h.published, h.newest⟩
  | through p w i a h =>
      exact .through p w i a
        ⟨h.pointer, h.word, h.exit, h.blocked, h.saved⟩

/-- The other thread changes, and keeps the argument of its exit until it is joined. -/
theorem Phase.joinee (h : s.Phase) {joinee : Thread}
    (hrunning : s.past.exit = none → Running s.joinee → Running joinee)
    (hexited : s.past.exit ≠ none → joinee.ifi = s.joinee.ifi ∧
      joinee.runstate = s.joinee.runstate)
    (hkeeps : s.past.exit ≠ none → s.past.word = none →
      joinee.MapReg_thr A0 = s.joinee.MapReg_thr A0) :
    Phase { s with joinee := joinee } := by
  cases h with
  | fresh h =>
      exact .fresh ⟨h.past, h.blocked, h.wthread, hrunning (by rw [h.past]) h.running⟩
  | waiting p h =>
      exact .waiting p
        ⟨h.past, h.blocked, h.wthread, hrunning (by rw [h.past]) h.running, h.newest⟩
  | exited i a h =>
      have hsome : s.past.exit ≠ none := by simp [h.exit]
      obtain ⟨hifi, hrunstate⟩ := hexited hsome
      refine .exited i a ⟨h.pointer, h.word, h.exit, h.blocked, ?_, ?_, ?_⟩
      · intro hnot
        exact (congrFun hifi i).trans (h.issued hnot)
      · intro hcommitted
        exact hrunstate.trans (h.published hcommitted)
      · exact (hkeeps hsome h.word).trans h.newest
  | through p w i a h =>
      exact .through p w i a
        ⟨h.pointer, h.word, h.exit, h.blocked, h.saved⟩

/-! ### One step -/

theorem joiner_step {e : RenameEvent} (h : s.Sound) (hok : careful s (.joiner e) = true)
    (hexec : s.exec (.joiner e) = some t) : t.Sound := by
  obtain ⟨hlegal, hcareful⟩ := Bool.and_eq_true_iff.mp hok
  obtain ⟨joiner, hjoiner, rfl⟩ := Option.map_eq_some_iff.mp hexec
  cases e with
  | fetch picode =>
      refine ⟨Thread.conserves_exec h.joiner rfl rfl hjoiner, h.joinee, h.phase.joiner ?_⟩
      intro hblocked
      rw [hblocked] at hcareful
      exact Thread.MapReg_thr_fetch hjoiner hcareful
  | issue instid writes =>
      obtain ⟨hrun, hlegal⟩ := Bool.and_eq_true_iff.mp hlegal
      refine ⟨Thread.conserves_exec h.joiner hlegal hcareful hjoiner, h.joinee,
        h.phase.joiner ?_⟩
      intro hblocked
      rw [hblocked] at hrun
      cases hrun
  | commit instid =>
      have hlegal : s.joiner.rename.legal (.commit instid) = true := hlegal
      refine ⟨Thread.conserves_exec h.joiner hlegal rfl hjoiner, h.joinee, h.phase.joiner ?_⟩
      intro _
      exact Thread.MapReg_thr_commit A1 rfl h.joiner hlegal hjoiner
  | kill instid => cases hlegal

theorem joinee_step {e : RenameEvent} (h : s.Sound) (hok : careful s (.joinee e) = true)
    (hexec : s.exec (.joinee e) = some t) : t.Sound := by
  obtain ⟨hlegal, hcareful⟩ := Bool.and_eq_true_iff.mp hok
  obtain ⟨joinee, hjoinee, rfl⟩ := Option.map_eq_some_iff.mp hexec
  cases e with
  | fetch picode =>
      have hsame : joinee.ifi = s.joinee.ifi ∧ joinee.runstate = s.joinee.runstate := by
        obtain ⟨rename, -, rfl⟩ := Option.map_eq_some_iff.mp hjoinee
        exact ⟨rfl, rfl⟩
      refine ⟨h.joiner, Thread.conserves_exec h.joinee rfl rfl hjoinee, h.phase.joinee ?_ ?_ ?_⟩
      · intro _ hrunning
        exact ⟨fun i => hsame.1 ▸ hrunning.ifi i, hsame.2 ▸ hrunning.runstate⟩
      · exact fun _ => hsame
      · intro hexit hword
        simp only [hword, Option.isSome_none, Bool.or_false, Option.isNone_iff_eq_none,
          Bool.or_eq_true] at hcareful
        exact Thread.MapReg_thr_fetch hjoinee (hcareful.resolve_left hexit)
  | issue instid writes =>
      obtain ⟨hnone, hlegal⟩ := Bool.and_eq_true_iff.mp hlegal
      have hexit : s.past.exit = none := Option.isNone_iff_eq_none.mp hnone
      refine ⟨h.joiner, Thread.conserves_exec h.joinee hlegal hcareful hjoinee,
        h.phase.joinee ?_ (fun hne => absurd hexit hne) (fun hne => absurd hexit hne)⟩
      intro _ hrunning
      obtain ⟨rename, -, rfl⟩ := Option.map_eq_some_iff.mp hjoinee
      refine ⟨?_, hrunning.runstate⟩
      intro i
      by_cases hi : i = instid
      · rw [hi]
        simp
      · simpa [Function.update_of_ne hi] using hrunning.ifi i
  | commit instid =>
      obtain ⟨hnot, hlegal⟩ := Bool.and_eq_true_iff.mp hlegal
      rw [Bool.not_eq_true'] at hnot
      have hconserves := Thread.conserves_exec h.joinee hlegal rfl hjoinee
      have hkeeps := Thread.MapReg_thr_commit A0 rfl h.joinee hlegal hjoinee
      have hpublished : joinee.ifi = s.joinee.ifi ∧ joinee.runstate = s.joinee.ifi instid := by
        obtain ⟨rename, -, rfl⟩ := Option.map_eq_some_iff.mp hjoinee
        exact ⟨rfl, rfl⟩
      refine ⟨h.joiner, hconserves, ?_⟩
      have hrunning : Running s.joinee → Running joinee := by
        intro hrunning
        exact ⟨fun i => hpublished.1 ▸ hrunning.ifi i, hpublished.2 ▸ hrunning.ifi instid⟩
      cases h.phase with
      | fresh h =>
          refine .fresh ⟨?_, h.blocked, h.wthread, hrunning h.running⟩
          simp [h.past]
      | waiting p h =>
          refine .waiting p ⟨?_, h.blocked, h.wthread, hrunning h.running, h.newest⟩
          simp [h.past]
      | exited i a h =>
          refine .exited i a ⟨h.pointer, h.word, h.exit, h.blocked, ?_, ?_, hkeeps.trans h.newest⟩
          · intro _
            exact (congrFun hpublished.1 i).trans (h.issued hnot)
          · intro hcommitted
            have hi : i = instid := by simpa [hnot, h.exit] using hcommitted
            exact hpublished.2.trans (hi ▸ h.issued hnot)
      | through p w i a h =>
          exact .through p w i a ⟨h.pointer, h.word, h.exit, h.blocked, h.saved⟩
  | kill instid => cases hlegal

/-- **A join that blocks comes before the exit, and one that does not comes behind its
commit.** -/
theorem join_step (h : s.Sound) (hok : careful s (.join instid) = true)
    (hexec : s.exec (.join instid) = some t) : t.Sound := by
  obtain ⟨hlegal, hcareful⟩ := Bool.and_eq_true_iff.mp hok
  simp only [legal, Bool.and_eq_true, Bool.not_eq_true', Option.isNone_iff_eq_none,
    List.contains_iff_mem] at hlegal
  obtain ⟨⟨hblocked, hpointer⟩, hmem⟩ := hlegal
  obtain ⟨joiner, hissue, hjoin⟩ := Option.bind_eq_some_iff.mp hexec
  obtain ⟨hconserves, hwrites, -, -, -⟩ := Thread.issue_call h.joiner hmem hissue
  rw [← hwrites.flight] at hmem
  unfold aint_pthread_join at hjoin
  obtain ⟨value_ptr, hvalue, hjoin⟩ := Option.bind_eq_some_iff.mp hjoin
  obtain ⟨joinee_tid, -, hjoin⟩ := Option.bind_eq_some_iff.mp hjoin
  split at hjoin
  · cases hjoin
  · cases h.phase with
    | fresh hf =>
        rw [if_neg hf.running.runstate] at hjoin
        obtain ⟨joiner', hsuccess, rfl⟩ := Option.map_eq_some_iff.mp hjoin
        obtain ⟨hconserves', -, -, -, hnewest⟩ := Thread.setSuccess A1 hconserves hmem hsuccess
        refine ⟨hconserves', h.joinee, .waiting value_ptr ⟨?_, rfl, rfl, hf.running, ?_⟩⟩
        · simp [hf.past]
        · refine hnewest value_ptr (Or.inr rfl) hvalue ?_
          simp only [hf.past, Option.isSome_none, Bool.false_eq_true, if_false] at hcareful
          unfold unrenamed
          rw [hwrites.snapshot, hwrites.map]
          exact hcareful
    | waiting p hw =>
        rw [hw.blocked] at hblocked
        cases hblocked
    | exited i a he =>
        have hcommitted : s.past.committed = true := by simpa [he.exit] using hcareful
        rw [if_pos (he.published hcommitted)] at hjoin
        obtain ⟨joiner', hsuccess, rfl⟩ := Option.map_eq_some_iff.mp hjoin
        obtain ⟨hconserves', -, -, -, -⟩ := Thread.setSuccess A1 hconserves hmem hsuccess
        refine ⟨hconserves', h.joinee,
          .through value_ptr _ i a ⟨rfl, rfl, he.exit, he.blocked, ?_⟩⟩
        intro hne
        rw [save_self hne]
        exact he.newest
    | through p w i a ht =>
        rw [ht.pointer] at hpointer
        cases hpointer

/-- **An exit wakes who waits, and saves its argument for him.** -/
theorem exit_step (h : s.Sound) (hok : careful s (.exit instid) = true)
    (hexec : s.exec (.exit instid) = some t) : t.Sound := by
  obtain ⟨hlegal, hcareful⟩ := Bool.and_eq_true_iff.mp hok
  simp only [legal, Bool.and_eq_true, Option.isNone_iff_eq_none, List.contains_iff_mem] at hlegal
  obtain ⟨hexit, hmem⟩ := hlegal
  obtain ⟨joinee, hissue, hcall⟩ := Option.bind_eq_some_iff.mp hexec
  obtain ⟨hconserves, hwrites, -, hrunstate, -⟩ := Thread.issue_call h.joinee hmem hissue
  rw [← hwrites.flight] at hmem
  unfold aint_pthread_exit at hcall
  obtain ⟨argument, hvalue, hcall⟩ := Option.bind_eq_some_iff.mp hcall
  dsimp only at hcall
  cases h.phase with
  | fresh hf =>
      rw [hf.wthread, if_neg Bool.false_ne_true] at hcall
      obtain ⟨joinee', hsuccess, rfl⟩ := Option.map_eq_some_iff.mp hcall
      obtain ⟨hconserves', -, -, -, hnewest⟩ := Thread.setSuccess A0 hconserves hmem hsuccess
      refine ⟨h.joiner, hconserves', .exited instid argument
        ⟨by simp [hf.past], by simp [hf.past], rfl, hf.blocked, ?_, ?_, ?_⟩⟩
      · intro _
        unfold Thread.setIfi
        exact Function.update_self instid _ _
      · intro hcommitted
        simp [hf.past] at hcommitted
      · refine hnewest argument (Or.inl rfl) hvalue ?_
        simp only [hf.wthread, Bool.false_or] at hcareful
        unfold unrenamed
        rw [hwrites.snapshot, hwrites.map]
        exact hcareful
  | waiting p hw =>
      rw [hw.wthread, if_pos rfl] at hcall
      obtain ⟨joinee', hsuccess, rfl⟩ := Option.map_eq_some_iff.mp hcall
      obtain ⟨hconserves', -, -, -, -⟩ := Thread.setSuccess A0 hconserves hmem hsuccess
      refine ⟨h.joiner, hconserves', .through p _ instid argument
        ⟨by simp [hw.past], by rw [hw.past]; rfl, rfl, rfl, ?_⟩⟩
      intro hne
      have hnewest : s.joiner.MapReg_thr A1 = p := hw.newest
      rw [hnewest]
      exact save_self hne argument
  | exited i a he =>
      rw [he.exit] at hexit
      cases hexit
  | through p w i a ht =>
      rw [ht.exit] at hexit
      cases hexit

theorem Step.sound (hst : Step careful s t) (h : s.Sound) : t.Sound := by
  obtain ⟨e, hok, hexec⟩ := hst
  cases e with
  | joiner e => exact joiner_step h hok hexec
  | joinee e => exact joinee_step h hok hexec
  | join instid => exact join_step h hok hexec
  | exit instid => exact exit_step h hok hexec
  | store paddr value =>
      cases hexec
      refine ⟨h.joiner, h.joinee, ?_⟩
      cases h.phase with
      | fresh h => exact .fresh ⟨h.past, h.blocked, h.wthread, h.running⟩
      | waiting p h => exact .waiting p ⟨h.past, h.blocked, h.wthread, h.running, h.newest⟩
      | exited i a h =>
          exact .exited i a ⟨h.pointer, h.word, h.exit, h.blocked, h.issued, h.published, h.newest⟩
      | through p w i a h => exact .through p w i a ⟨h.pointer, h.word, h.exit, h.blocked, h.saved⟩

/-- **No join misses the exit, if none is issued between its issue and its commit, and
nothing that is fetched behind the join or the exit renames their arguments.** -/
theorem joins_of_careful (h : Reaches Start (Step careful) s) : s.Joins := by
  have hs : s.Sound := by
    refine h.invariant (P := Sound) ?_ ?_
    · intro s hs
      exact hs.sound
    · intro s t hs hst
      exact hst.sound hs
  cases hs.phase with
  | fresh h =>
      have hblocked := h.blocked
      constructor
      · simp [hblocked]
      · simp [h.past]
      · simp [h.past]
      · simp [h.past]
  | waiting p h =>
      have hblocked := h.blocked
      constructor
      · simp [h.past]
      · simp [hblocked]
      · simp [h.past]
      · simp [h.past]
  | exited i a h =>
      have hblocked := h.blocked
      constructor
      · simp [hblocked]
      · simp [h.pointer]
      · simp [h.word]
      · simp [h.pointer]
  | through p w i a h =>
      have hblocked := h.blocked
      constructor
      · simp [hblocked]
      · simp [h.word]
      · simp [h.exit]
      · intro p' w' i' a' hp hne hw ha
        rw [h.pointer, Option.some_inj] at hp
        rw [h.word, Option.some_inj] at hw
        rw [h.exit, Option.some_inj, Prod.mk.injEq] at ha
        rw [← hw, ← ha.2]
        exact h.saved (hp ▸ hne)

/-! ### Runs -/

/-- Two threads that have just started, in a memory of zeros. -/
def fresh : Joining where
  joiner := ⟨1, .init, fun _ => .R_RUN, .R_RUN⟩
  joinee := ⟨0, .init, fun _ => .R_RUN, .R_RUN⟩
  wthread := false
  blocked := false
  exitcode := 0
  mem := fun _ => 0
  past := ⟨none, none, none, false⟩

theorem fresh_start : fresh.Start := ⟨rfl, rfl, fun _ => rfl, rfl, rfl, rfl, rfl⟩

theorem reaches_after {ok : Joining → Event → Bool} {es : List Event}
    (h : after exec ok es fresh = some s) : Reaches Start (Step ok) s :=
  Reaches.after (fun _ e _ hok hexec => ⟨e, hok, hexec⟩) (.start fresh_start) h

/-- An instruction that loads a register, and a system call. -/
def load (reg : LogicalRegNum) : Option Icode := some ⟨fun _ => reg, some .RC⟩

def callsys : Option Icode := some ⟨fun _ => 31, none⟩

/-- The joiner waits with the value pointer 64, and the other thread exits with 7. -/
def waitingRun : List Event :=
  [.joiner (.fetch (load A1)), .joiner (.fetch callsys), .joiner (.issue 0 [(.element .RC 0, 64)]),
    .joiner (.commit 0), .join 1, .joiner (.fetch (load A0)), .joiner (.commit 1),
    .joinee (.fetch (load A0)), .joinee (.issue 0 [(.element .RC 0, 7)]),
    .joinee (.fetch callsys), .exit 1, .joinee (.commit 0), .joinee (.commit 1)]

theorem joins_of_careful_waiting :
    ∃ s, after exec careful waitingRun fresh = some s ∧ s.past.word = some 7 ∧ s.Joins := by
  have hrun : (after exec careful waitingRun fresh).map (fun s => s.past.word) = some (some 7) := by
    decide +kernel
  obtain ⟨s, hs, hword⟩ := Option.map_eq_some_iff.mp hrun
  exact ⟨s, hs, hword, joins_of_careful (reaches_after hs)⟩

/-- The join is issued when the exit is issued and not yet committed. -/
def missingRun : List Event :=
  [.joinee (.fetch callsys), .joiner (.fetch callsys), .exit 0, .join 0, .joinee (.commit 0)]

/-- **The joiner waits for an exit that was issued before it looked.** -/
theorem not_joins_missing : ¬ ∀ s, Reaches Start (Step legal) s → s.Joins := by
  intro hall
  have hrun : (after exec legal missingRun fresh).map (fun s => (s.blocked, s.past.exit))
      = some (true, some (0, 0)) := by
    decide +kernel
  obtain ⟨s, hs, hvalues⟩ := Option.map_eq_some_iff.mp hrun
  obtain ⟨hblocked, hexit⟩ := Prod.mk.inj hvalues
  have hnone := (hall s (reaches_after hs)).woken hblocked
  rw [hexit] at hnone
  cases hnone

end Joining

end AsimFeeder.Aint.PthreadJoin
