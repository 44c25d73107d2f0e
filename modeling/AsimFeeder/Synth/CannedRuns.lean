/-
Runs of a canned thread: fetches anywhere, reads, issues, kills and commits.

Beside the thread stands what the simulator knows: the instructions in flight, how many
tests were committed and the last of them, the number that each fetched test got and how
many tests there were before it, and what each test read.

A branch is to go where its own test says: the youngest load or compare-exchange before
it, in flight or committed.
-/
import AsimFeeder.Lib.Runs
import AsimFeeder.Synth.CannedThread

namespace AsimFeeder.Synth

open Lib MemoryValues

def CannedInst.isTest (p : CannedInst) : Bool := p.isCompareExchange || p.isLoad

def CannedInst.isConditional (p : CannedInst) : Bool := p.isBranch && p.conditional_branch

/-- Loads and compare-exchanges. -/
def tests (l : List CannedInst) : List CannedInst := l.filter CannedInst.isTest

structure CannedRun where
  thread : CannedThread
  /-- What ended the simulator. -/
  stopped : Option String
  /-- The numbers of instructions so far are below. -/
  bound : Nat
  inFlight : List AsimInst
  /-- How many tests were committed, and the last of them. -/
  committed : Nat
  lastTest : Option CannedInst
  /-- For each test that was fetched, how many there were before it, and its number. -/
  numbered : List (Nat × Nat)
  /-- A test was read, and the lock was taken. -/
  outcome : Nat → Option Bool

inductive CannedEvent
  | fetch (predicted_pc : Iaddr) (uid : Nat)
  | doRead (inst : AsimInst) (old_val : BitVec 32)
  | issue (inst : AsimInst)
  | kill (inst : AsimInst) (killMe : Bool)
  | commit (inst : AsimInst)

namespace CannedRun

variable (g : GenableProgram) (next : Iaddr → Iaddr) (r : CannedRun)

def start : CannedRun where
  thread := .new
  stopped := none
  bound := 0
  inFlight := []
  committed := 0
  lastTest := none
  numbered := []
  outcome _ := none

def Start (r : CannedRun) : Prop := r = start

def fetched (uid : Nat) (x : CannedThread × AsimInst) : CannedRun :=
  { r with
    thread := x.1
    bound := uid + 1
    inFlight := r.inFlight ++ [x.2]
    numbered := ((tests x.1.issued).filter fun p => p.uid = uid).map (fun p =>
      (r.committed + (tests r.thread.issued).length, p.iteration)) ++ r.numbered }

def wasRead (inst : AsimInst) (old_val : BitVec 32) (thread : CannedThread) : CannedRun :=
  { r with
    thread := thread
    outcome :=
      if inst.isCompareExchange || inst.isLoad then
        Function.update r.outcome inst.uid (some (old_val != 0))
      else r.outcome }

def wasKilled (inst : AsimInst) (killMe : Bool) (thread : CannedThread) : CannedRun :=
  { r with
    thread := thread
    inFlight := r.inFlight.filter fun i => ¬ Window.Killed AsimInst.uid inst.uid killMe i }

def wasCommitted (inst : AsimInst) (thread : CannedThread) : CannedRun :=
  let left := tests (r.thread.issued.filter fun p => p.uid ≤ inst.uid)
  { r with
    thread := thread
    inFlight := r.inFlight.filter fun i => inst.uid < i.uid
    committed := r.committed + left.length
    lastTest := (r.lastTest.toList ++ left).getLast? }

/-- An error ends the simulator. -/
def orStop {α : Type} (f : α → CannedRun) : Except String α → CannedRun
  | .ok x => f x
  | .error message => { r with stopped := some message }

def exec : CannedEvent → CannedRun
  | .fetch predicted_pc uid =>
      r.orStop (r.fetched uid) (r.thread.generate_asim_inst g predicted_pc uid)
  | .doRead inst old_val =>
      r.orStop (r.wasRead inst old_val) (r.thread.handle_mvm_read inst old_val)
  | .issue inst => r.orStop (fun _ => r) (r.thread.issue next inst)
  | .kill inst killMe => r.orStop (r.wasKilled inst killMe) (r.thread.kill inst.uid killMe)
  | .commit inst => r.orStop (r.wasCommitted inst) (r.thread.commit_skipping_nops inst.uid)

/-- Numbers increase, what happens happens to instructions in flight, commits are in order. -/
def Legal : CannedEvent → Prop
  | .fetch _ uid => r.bound ≤ uid
  | .doRead inst _ => inst ∈ r.inFlight
  | .issue inst => inst ∈ r.inFlight
  | .kill inst _ => inst ∈ r.inFlight
  | .commit inst => ∃ before p after, r.thread.issued = before ++ p :: after ∧
      p.uid = inst.uid ∧ ∀ q ∈ before, q.isNOP = true

/-- No kill kills a test that has the number 0. -/
def Careful : CannedEvent → Prop
  | .kill inst killMe => ∀ p ∈ tests r.thread.issued,
      Window.Killed CannedInst.uid inst.uid killMe p → p.iteration ≠ 0
  | _ => True

/-- Fewer than `SYNCH_STATUS_HISTORY` tests are in flight. -/
def InHistory : Prop := (tests r.thread.issued).length < SYNCH_STATUS_HISTORY

/-- A step of a simulator that has not ended. -/
def Step (ok : CannedRun → CannedEvent → Prop) (r t : CannedRun) : Prop :=
  r.stopped = none ∧ ∃ e, r.Legal e ∧ ok r e ∧ t = r.exec g next e ∧ t.InHistory

/-- The tests that a branch behind `before` may look for, the last one is its own. -/
def older (before : List CannedInst) : List CannedInst := r.lastTest.toList ++ tests before

/-- The numbers of a thread are right, and its branches read the right ones. -/
structure Right : Prop where
  /-- The tests in flight have different numbers. -/
  distinct : ((tests r.thread.issued).map CannedInst.iteration).Nodup
  /-- A branch carries the number of the youngest test before it. -/
  carries : ∀ before b after t, r.thread.issued = before ++ b :: after →
    b.isConditional = true → (r.older before).getLast? = some t → b.iteration = t.iteration
  /-- Tests that are fetched at the same place of the path have the same number. -/
  again : ∀ x ∈ r.numbered, ∀ y ∈ r.numbered, x.1 = y.1 → x.2 = y.2
  /-- The assertion did not strike. -/
  fires : r.stopped ≠ some CannedThread.minCountError
  /-- The direction of a branch is what its test read. -/
  direct : ∀ before b after t taken, r.thread.issued = before ++ b :: after →
    b.isConditional = true → (r.older before).getLast? = some t →
    r.outcome t.uid = some taken →
    ∃ target, r.thread.issue next (convert_synth_inst_to_asim_inst b) = .ok (some (taken, target))

end CannedRun

/-! ### What the operations of a thread change -/

theorem tests_append (l l' : List CannedInst) : tests (l ++ l') = tests l ++ tests l' :=
  List.filter_append ..

theorem tests_concat_of_test {l : List CannedInst} {p : CannedInst} (h : p.isTest = true) :
    tests (l ++ [p]) = tests l ++ [p] := by
  rw [tests_append, tests, tests, List.filter_cons_of_pos h, List.filter_nil]

theorem tests_concat_of_not_test {l : List CannedInst} {p : CannedInst} (h : p.isTest = false) :
    tests (l ++ [p]) = tests l := by
  rw [tests_append, tests, tests, List.filter_cons_of_neg (by rw [h]; exact Bool.false_ne_true),
    List.filter_nil, List.append_nil]

theorem tests_singleton {p : CannedInst} (h : p.isTest = true) : tests [p] = [p] :=
  tests_concat_of_test (l := []) h

theorem not_test_of_conditional {p : CannedInst} (h : p.isConditional = true) :
    p.isTest = false := by
  unfold CannedInst.isConditional CannedInst.isBranch at h
  unfold CannedInst.isTest CannedInst.isCompareExchange CannedInst.isLoad
  cases htype : p.type <;> rw [htype] at h <;> first | rfl | cases h

/-- The counter after one more test. -/
def nextCount (k : Nat) : Nat := if k + 1 = SYNCH_STATUS_HISTORY then 0 else k + 1

theorem nextCount_mod (k : Nat) :
    nextCount (k % SYNCH_STATUS_HISTORY) = (k + 1) % SYNCH_STATUS_HISTORY := by
  unfold nextCount SYNCH_STATUS_HISTORY
  split <;> omega

namespace CannedThread

variable {g : GenableProgram} {next : Iaddr → Iaddr} {s : CannedThread} {uid : Nat}

/-- `q` was issued, and is the youngest. -/
structure Issues (s : CannedThread) (uid : Nat) (q : CannedInst)
    (x : CannedThread × AsimInst) : Prop where
  uid_eq : q.uid = uid
  inst : x.2 = convert_synth_inst_to_asim_inst q
  issued : x.1.issued = s.issued ++ [q]
  ofTest : q.isTest = true →
    q.iteration = nextCount s.synch_iteration_status.iteration ∧
      x.1.synch_iteration_status =
        ⟨Function.update s.synch_iteration_status.array q.iteration .invalid, q.iteration⟩
  ofOther : q.isTest = false → x.1.synch_iteration_status = s.synch_iteration_status
  ofBranch : q.isConditional = true → q.iteration = s.synch_iteration_status.iteration
  mapped : q.isTest = true ∨ q.isConditional = true → x.1.a2s_map uid = some q
  others : ∀ u ≠ uid, x.1.a2s_map u = s.a2s_map u

theorem inc_iter_iteration (st : SynchStatus) :
    st.inc_iter = ⟨st.array, nextCount st.iteration⟩ := by
  unfold SynchStatus.inc_iter nextCount
  split <;> rfl

theorem nextCount_lt {k : Nat} (h : k < SYNCH_STATUS_HISTORY) :
    nextCount k < SYNCH_STATUS_HISTORY := by
  unfold nextCount SYNCH_STATUS_HISTORY at *
  split <;> omega

theorem inc_iteration_count_eq (h : s.synch_iteration_status.iteration < SYNCH_STATUS_HISTORY) :
    s.inc_iteration_count = .ok { s with
      synch_iteration_status :=
        ⟨Function.update s.synch_iteration_status.array
          (nextCount s.synch_iteration_status.iteration) .invalid,
        nextCount s.synch_iteration_status.iteration⟩ } := by
  unfold inc_iteration_count
  simp only [inc_iter_iteration, SynchStatus.clear_elem, SynchStatus.set_elem]
  rw [if_neg (not_le.mpr (nextCount_lt h))]
  rfl

/-- What is left alone when only the values of stores are remembered. -/
theorem remember_value_spec (minst : CannedInst) (b : Bool) :
    (if b then s.remember_si_value minst else s).issued = s.issued ∧
      (if b then s.remember_si_value minst else s).synch_iteration_status =
        s.synch_iteration_status ∧
      (if b then s.remember_si_value minst else s).a2s_map = s.a2s_map ∧
      (if b then s.remember_si_value minst else s).needJumpToNextPC = s.needJumpToNextPC := by
  cases b <;> exact ⟨rfl, rfl, rfl, rfl⟩

theorem hook_spec {p : CannedInst} (hp : p.uid = uid)
    (h : s.synch_iteration_status.iteration < SYNCH_STATUS_HISTORY) :
    ∃ q t, s.hook_together p = .ok t ∧
      s.Issues uid q (t, convert_synth_inst_to_asim_inst p) ∧ q.type = p.type ∧
      t.needJumpToNextPC = s.needJumpToNextPC := by
  unfold hook_together
  dsimp only
  generalize ((convert_synth_inst_to_asim_inst p).isSemaphore ||
    (convert_synth_inst_to_asim_inst p).isStore) = b
  obtain ⟨hissued, hstatus, hmap, hjump⟩ := remember_value_spec (s := s) p b
  generalize (if b = true then s.remember_si_value p else s) = u at *
  by_cases htest : (p.isCompareExchange || p.isLoad) = true
  · have hcount := inc_iteration_count_eq (s := u) (by rw [hstatus]; exact h)
    rw [hstatus] at hcount
    rw [if_pos htest, hcount]
    refine ⟨{ p with iteration := nextCount s.synch_iteration_status.iteration }, _, rfl,
      ⟨hp, rfl, ?_, fun _ => ⟨rfl, rfl⟩, ?_, ?_, ?_, ?_⟩, rfl, hjump⟩
    · show u.issued ++ _ = _
      rw [hissued]
    · intro hfalse
      exact absurd (htest.symm.trans hfalse) Bool.noConfusion
    · intro hbranch
      exact absurd (htest.symm.trans (not_test_of_conditional hbranch)) Bool.noConfusion
    · intro _
      subst hp
      exact Function.update_self ..
    · intro v hv
      subst hp
      exact (Function.update_of_ne hv ..).trans (congrFun hmap v)
  · rw [if_neg htest]
    by_cases hbranch : (p.isBranch && p.conditional_branch) = true
    · rw [if_pos hbranch]
      refine ⟨{ p with iteration := u.synch_iteration_status.iteration }, _, rfl,
        ⟨hp, rfl, ?_, ?_, fun _ => hstatus, ?_, ?_, ?_⟩, rfl, hjump⟩
      · show u.issued ++ _ = _
        rw [hissued]
      · intro htrue
        exact absurd htrue htest
      · intro _
        show u.synch_iteration_status.iteration = _
        rw [hstatus]
      · intro _
        subst hp
        exact Function.update_self ..
      · intro v hv
        subst hp
        exact (Function.update_of_ne hv ..).trans (congrFun hmap v)
    · rw [if_neg hbranch]
      refine ⟨p, _, rfl, ⟨hp, rfl, ?_, ?_, fun _ => hstatus, ?_, ?_, ?_⟩, rfl, hjump⟩
      · show u.issued ++ _ = _
        rw [hissued]
      · intro htrue
        exact absurd htrue htest
      · intro htrue
        exact absurd htrue hbranch
      · intro htrue
        exact (htrue.elim htest hbranch).elim
      · intro v _
        exact congrFun hmap v

theorem issue_spec (uid : Nat) (minst : CannedInst)
    (h : s.synch_iteration_status.iteration < SYNCH_STATUS_HISTORY) :
    ∃ q x, s.issue_synth_inst_from_replay minst uid = .ok x ∧ s.Issues uid q x ∧
      q.type = minst.type ∧ x.1.needJumpToNextPC = s.needJumpToNextPC := by
  obtain ⟨q, t, ht, hq, htype⟩ := hook_spec (s := s) (p := { minst with uid := uid }) rfl h
  refine ⟨q, _, ?_, hq, htype⟩
  unfold issue_synth_inst_from_replay
  dsimp only
  rw [ht]
  rfl

/-- The first fetch is a branch to the program. -/
theorem generate_first (g : GenableProgram) (uid : Nat) (predicted_pc : Iaddr)
    (hjump : s.needJumpToNextPC = true)
    (h : s.synch_iteration_status.iteration < SYNCH_STATUS_HISTORY) :
    ∃ q x, s.generate_asim_inst g predicted_pc uid = .ok x ∧ s.Issues uid q x ∧
      q.type = .branch ∧ x.1.needJumpToNextPC = false := by
  obtain ⟨q, x, hx, hq, htype, -⟩ :=
    issue_spec uid (make_indirect_branch predicted_pc.bundleAddr g.start_pc) h
  refine ⟨q, ({ x.1 with needJumpToNextPC := false, wrong_path := 0 }, x.2), ?_,
    ⟨hq.uid_eq, hq.inst, hq.issued, hq.ofTest, hq.ofOther, hq.ofBranch, hq.mapped, hq.others⟩,
    htype, rfl⟩
  unfold generate_asim_inst emit_first_branch
  rw [if_pos hjump, hx]
  rfl

/-- An address in the program. -/
theorem generate_in_range (uid : Nat) {predicted_pc : Iaddr} {inst : GenableInst}
    (hjump : s.needJumpToNextPC = false) (hinst : g.get_inst predicted_pc = some inst)
    (h : s.synch_iteration_status.iteration < SYNCH_STATUS_HISTORY) :
    ∃ q x, s.generate_asim_inst g predicted_pc uid = .ok x ∧ s.Issues uid q x ∧
      q.type = inst.minst.type ∧ x.1.needJumpToNextPC = false := by
  obtain ⟨q, x, hx, hq, htype, hsame⟩ := issue_spec (s := { s with wrong_path := 0 }) uid
    (if inst.isPredicated then { inst.minst with conditional_branch := true } else inst.minst) h
  refine ⟨q, x, ?_,
    ⟨hq.uid_eq, hq.inst, hq.issued, hq.ofTest, hq.ofOther, hq.ofBranch, hq.mapped, hq.others⟩,
    ?_, hsame.trans hjump⟩
  · unfold generate_asim_inst
    rw [if_neg (by rw [hjump]; exact Bool.false_ne_true), hinst]
    exact hx
  · rw [htype]
    split <;> rfl

/-- A fetch issues an instruction, hands out junk, or is on the wrong path for too long. -/
theorem generate_cases (g : GenableProgram) (uid : Nat) (predicted_pc : Iaddr)
    (h : s.synch_iteration_status.iteration < SYNCH_STATUS_HISTORY) :
    (∃ q x, s.generate_asim_inst g predicted_pc uid = .ok x ∧ s.Issues uid q x) ∨
      s.generate_asim_inst g predicted_pc uid = s.wrongPath uid := by
  cases hjump : s.needJumpToNextPC with
  | true =>
      obtain ⟨q, x, hx, hq, -⟩ := generate_first g uid predicted_pc hjump h
      exact .inl ⟨q, x, hx, hq⟩
  | false =>
      cases hinst : g.get_inst predicted_pc with
      | some inst =>
          obtain ⟨q, x, hx, hq, -⟩ := generate_in_range uid hjump hinst h
          exact .inl ⟨q, x, hx, hq⟩
      | none =>
          refine .inr ?_
          unfold generate_asim_inst
          rw [if_neg (by rw [hjump]; exact Bool.false_ne_true), hinst]

theorem wrongPath_ok {x : CannedThread × AsimInst} (h : s.wrongPath uid = .ok x) :
    x.2 = .junk uid ∧ x.1.issued = s.issued ∧
      x.1.synch_iteration_status = s.synch_iteration_status ∧ x.1.a2s_map = s.a2s_map := by
  unfold wrongPath at h
  split at h
  · cases h
  · cases h
    exact ⟨rfl, rfl, rfl, rfl⟩

theorem wrongPath_error {message : String} (h : s.wrongPath uid = .error message) :
    message ≠ minCountError := by
  unfold wrongPath at h
  split at h
  · cases h
    decide
  · cases h

theorem read_other {inst : AsimInst} {old_val : BitVec 32}
    (h : (inst.isCompareExchange || inst.isLoad) = false) :
    s.handle_mvm_read inst old_val = .ok s := by
  unfold handle_mvm_read
  rw [if_neg (by rw [h]; exact Bool.false_ne_true)]

/-- The outcome of a test goes to the slot with its number. -/
theorem read_test {inst : AsimInst} {old_val : BitVec 32} {p : CannedInst}
    (h : (inst.isCompareExchange || inst.isLoad) = true) (hp : s.a2s_map inst.uid = some p)
    (hlt : p.iteration < SYNCH_STATUS_HISTORY) :
    s.handle_mvm_read inst old_val = .ok { s with
      synch_iteration_status := { s.synch_iteration_status with
        array := Function.update s.synch_iteration_status.array p.iteration
          (if old_val = 0 then .entering else .blocked) } } := by
  unfold handle_mvm_read
  rw [if_pos h, hp]
  dsimp only
  unfold SynchStatus.set_elem
  rw [if_neg (not_le.mpr hlt)]
  rfl

theorem issue_error {inst : AsimInst} {message : String}
    (h : s.issue next inst = .error message) : message ≠ minCountError := by
  unfold issue at h
  split at h
  · split at h
    · cases h
      decide
    · rename_i minst _
      unfold SynchStatus.blocked SynchStatus.get_elem at h
      split at h
      · cases h
        decide
      · cases h
  · cases h

/-! ### Kills -/

/-- The numbers that a kill kills. -/
def killedNumbers (uid : Nat) (killMe : Bool) (l : List CannedInst) : List Nat :=
  ((tests l).filter fun p => Window.Killed CannedInst.uid uid killMe p).map CannedInst.iteration

theorem killedNumbers_cons_pos {killMe : Bool} {p : CannedInst} {l : List CannedInst}
    (h : Window.Killed CannedInst.uid uid killMe p ∧
      (p.type = .compareExchange ∨ p.type = .load)) :
    killedNumbers uid killMe (p :: l) = p.iteration :: killedNumbers uid killMe l := by
  have htest : p.isTest = true := by
    rcases h.2 with htype | htype
    · simp [CannedInst.isTest, CannedInst.isCompareExchange, htype]
    · simp [CannedInst.isTest, CannedInst.isLoad, htype]
  rw [killedNumbers, tests, List.filter_cons_of_pos htest,
    List.filter_cons_of_pos (by simpa using h.1), List.map_cons]
  rfl

theorem killedNumbers_cons_neg {killMe : Bool} {p : CannedInst} {l : List CannedInst}
    (h : ¬ (Window.Killed CannedInst.uid uid killMe p ∧
      (p.type = .compareExchange ∨ p.type = .load))) :
    killedNumbers uid killMe (p :: l) = killedNumbers uid killMe l := by
  by_cases htest : p.isTest = true
  · have hkill : ¬ Window.Killed CannedInst.uid uid killMe p := by
      intro hkill
      refine h ⟨hkill, ?_⟩
      simpa [CannedInst.isTest, CannedInst.isCompareExchange, CannedInst.isLoad] using htest
    rw [killedNumbers, tests, List.filter_cons_of_pos htest,
      List.filter_cons_of_neg (by simpa using hkill)]
    rfl
  · rw [killedNumbers, tests, List.filter_cons_of_neg htest]
    rfl

/-- The loop finds the smallest number that is killed. -/
theorem foldl_min_count (uid : Nat) (killMe : Bool) (l : List CannedInst) (x : Option Nat) :
    l.foldl (min_count uid killMe) x = (x.toList ++ killedNumbers uid killMe l).min? := by
  induction l generalizing x with
  | nil => cases x <;> rfl
  | cons p l ih =>
      rw [List.foldl_cons, ih]
      unfold min_count
      by_cases hp : Window.Killed CannedInst.uid uid killMe p ∧
          (p.type = .compareExchange ∨ p.type = .load)
      · rw [if_pos hp, killedNumbers_cons_pos hp]
        cases x with
        | none => rfl
        | some m =>
            have hmin : (if p.iteration < m then p.iteration else m) = min m p.iteration := by
              rw [min_comm, min_def]
              split <;> split <;> omega
            simp only [Option.toList_some, List.singleton_append, List.min?_cons',
              List.foldl_cons, hmin]
      · rw [if_neg hp, killedNumbers_cons_neg hp]

end CannedThread

end AsimFeeder.Synth
