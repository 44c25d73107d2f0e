/-
Quiescing threads.

A thread that quiesces on a word goes to sleep if the word has the value it gives, and is
woken when another value is assigned.  Who sleeps where is kept in a table with one entry
for each thread, which starts with zeros and is not cleaned when a thread exits; an
assignment looks through all of it.

`Sleepers` is for the statement only.  It says who is asleep, where and on which value,
with no table and no run states.

A run state is kept twice: with the instruction that was issued, and with the thread, to
which it is transferred when the instruction commits.  Where the words of a process are
does not change.
-/
import AsimFeeder.Lib.Runs

namespace AsimFeeder.Aint.Quiesce

open Lib

/-- `MAX_NTHREADS`, the entries of the table. -/
def MAX_NTHREADS : Nat := 4

inductive RunState
  | R_RUN
  | R_BLOCKED
  deriving DecidableEq, Repr

structure Qsemaphore where
  vaddr : BitVec 64
  val : BitVec 64
  deriving DecidableEq, Repr

/-- The process of each thread, and where the words of a process are. -/
structure Machine (P W : Type) where
  process : Nat → P
  addr2phys : P → BitVec 64 → Option W

/-- `issued` is the run state of the instruction a thread issued last, and `unblocked` are
the threads that the last operation woke. -/
structure State (W : Type) where
  mem : W → BitVec 32
  qsemaphores : Nat → Qsemaphore
  runstate : Nat → RunState
  issued : Nat → RunState
  blocked : Nat → Bool
  unblocked : List Nat

inductive Event
  | quiesceIfEqual (tid : Nat) (vaddr val : BitVec 64)
  | unquiesceAssign (tid : Nat) (vaddr val : BitVec 64)
  | issueOther (tid : Nat)
  | commit (tid : Nat)
  deriving DecidableEq, Repr

variable {P W : Type} [DecidableEq P] [DecidableEq W] (m : Machine P W)

namespace State

variable (s : State W) (tid : Nat) (vaddr val : BitVec 64)

def setQsemaphore (q : Qsemaphore) : State W :=
  { s with qsemaphores := Function.update s.qsemaphores tid q }

def setIssued (r : RunState) : State W :=
  { s with issued := Function.update s.issued tid r }

def setRunstate (r : RunState) : State W :=
  { s with runstate := Function.update s.runstate tid r }

def pmint_thread_block : State W :=
  { s with blocked := Function.update s.blocked tid true }

def pmint_thread_unblock : State W :=
  { s with blocked := Function.update s.blocked tid false, unblocked := s.unblocked ++ [tid] }

/-- Where a thread is issued, its instruction is running; nobody was woken yet. -/
def AINT_issue_other : State W :=
  { s.setIssued tid .R_RUN with unblocked := [] }

def aint_quiesce_if_equal : State W :=
  match m.addr2phys (m.process tid) vaddr with
  | some paddr =>
      if (s.mem paddr).setWidth 64 = val then
        ((((s.setQsemaphore tid ⟨vaddr, val⟩).pmint_thread_block tid).setIssued tid
          .R_BLOCKED).setRunstate tid .R_BLOCKED)
      else s.setQsemaphore tid { s.qsemaphores tid with vaddr := -1 }
  | none => s

/-- One round of the loop over the table. -/
def wakeOne (otid : Nat) : State W :=
  if (s.qsemaphores otid).vaddr = vaddr then
    -- the address, not the value it sleeps on, is compared with the new value
    if (s.qsemaphores otid).vaddr ≠ val then
      (((s.setIssued tid .R_RUN).setRunstate tid .R_RUN).pmint_thread_unblock otid).setQsemaphore
        otid { s.qsemaphores otid with vaddr := -1 }
    else s
  else s

def aint_unquiesce_assign : State W :=
  match m.addr2phys (m.process tid) vaddr with
  | some paddr =>
      (List.range MAX_NTHREADS).foldl (fun s otid => s.wakeOne tid vaddr val otid)
        { s with mem := Function.update s.mem paddr (val.setWidth 32) }
  | none => s

/-- A thread that is blocked issues nothing, and only threads of the table can quiesce. -/
def exec : Event → Option (State W)
  | .quiesceIfEqual tid vaddr val =>
      if s.blocked tid then none
      else if MAX_NTHREADS ≤ tid then none
      else some ((s.AINT_issue_other tid).aint_quiesce_if_equal m tid vaddr val)
  | .unquiesceAssign tid vaddr val =>
      if s.blocked tid then none
      else some ((s.AINT_issue_other tid).aint_unquiesce_assign m tid vaddr val)
  | .issueOther tid => if s.blocked tid then none else some (s.AINT_issue_other tid)
  | .commit tid => some { s.setRunstate tid (s.issued tid) with unblocked := [] }

end State

/-! ### Who sleeps -/

/-- Who is asleep, on which word and until which value is not there any more. -/
structure Sleepers (W : Type) where
  mem : W → BitVec 32
  asleep : Nat → Option (W × BitVec 64)

namespace Sleepers

variable (s : Sleepers W)

/-- An assignment to this word of this process wakes the thread. -/
def wakes (tid : Nat) (paddr : W) (value : BitVec 32) (otid : Nat) : Bool :=
  match s.asleep otid with
  | some (w, v) =>
      decide (m.process otid = m.process tid) && decide (w = paddr) &&
        decide (value.setWidth 64 ≠ v)
  | none => false

/-- The thread goes to sleep if the word has this value. -/
def quiesce (tid : Nat) (vaddr val : BitVec 64) : Sleepers W :=
  match m.addr2phys (m.process tid) vaddr with
  | some paddr =>
      if (s.mem paddr).setWidth 64 = val then
        { s with asleep := Function.update s.asleep tid (some (paddr, val)) }
      else s
  | none => s

/-- The word is assigned, and who sleeps there on another value wakes. -/
def assign (tid : Nat) (vaddr val : BitVec 64) : Sleepers W :=
  match m.addr2phys (m.process tid) vaddr with
  | some paddr =>
      { mem := Function.update s.mem paddr (val.setWidth 32)
        asleep := fun otid =>
          if s.wakes m tid paddr (val.setWidth 32) otid then none else s.asleep otid }
  | none => s

def exec : Event → Sleepers W
  | .quiesceIfEqual tid vaddr val => s.quiesce m tid vaddr val
  | .unquiesceAssign tid vaddr val => s.assign m tid vaddr val
  | .issueOther _ | .commit _ => s

variable {m s}

/-- Only who is asleep can be woken. -/
theorem isSome_of_wakes {tid otid : Nat} {paddr : W} {value : BitVec 32}
    (h : s.wakes m tid paddr value otid = true) : (s.asleep otid).isSome = true := by
  unfold wakes at h
  cases hasleep : s.asleep otid with
  | none =>
      rw [hasleep] at h
      cases h
  | some p => rfl

end Sleepers

/-! ### Both -/

/-- What the code does, and who sleeps. -/
structure Both (W : Type) where
  code : State W
  spec : Sleepers W

namespace Both

variable (s : Both W)

def init (mem : W → BitVec 32) : Both W where
  code := ⟨mem, fun _ => ⟨0, 0⟩, fun _ => .R_RUN, fun _ => .R_RUN, fun _ => false, []⟩
  spec := ⟨mem, fun _ => none⟩

def exec (e : Event) : Option (Both W) :=
  (s.code.exec m e).map fun code => ⟨code, s.spec.exec m e⟩

/-- The entry of `otid`, compared with an assignment of `val` to `vaddr`, is of a thread that
sleeps in the process of `tid`, and `val` is the address just when it is the value. -/
def matchesSleeper (tid : Nat) (vaddr val : BitVec 64) (otid : Nat) : Bool :=
  s.code.blocked otid && decide (m.process otid = m.process tid) &&
    (decide (vaddr = val) == decide ((val.setWidth 32).setWidth 64 = (s.code.qsemaphores otid).val))

/-- The entry of `otid` is not of a thread that an assignment of `val` to `paddr` wakes. -/
def staysAsleep (tid : Nat) (paddr : W) (val : BitVec 64) (otid : Nat) : Bool :=
  !s.code.blocked otid || !decide (m.process otid = m.process tid) ||
    !decide (m.addr2phys (m.process tid) (s.code.qsemaphores otid).vaddr = some paddr) ||
      decide ((val.setWidth 32).setWidth 64 = (s.code.qsemaphores otid).val)

/-- Threads are in the table; and an assignment finds just the entries it should, with the
thread that assigns running. -/
def careful : Event → Bool
  | .quiesceIfEqual tid _ _ => decide (tid < MAX_NTHREADS)
  | .unquiesceAssign tid vaddr val =>
      decide (s.code.runstate tid = .R_RUN) &&
        (m.addr2phys (m.process tid) vaddr).all fun paddr =>
          (List.range MAX_NTHREADS).all fun otid =>
            if (s.code.qsemaphores otid).vaddr = vaddr then s.matchesSleeper m tid vaddr val otid
            else s.staysAsleep m tid paddr val otid
  | .issueOther _ | .commit _ => true

def Start (s : Both W) : Prop := ∃ mem, s = init mem

def Step (ok : Both W → Event → Bool) (s t : Both W) : Prop :=
  ∃ e, ok s e = true ∧ s.exec m e = some t

/-- **No wake-up is lost or invented.**  Who is blocked is who is asleep; an operation wakes
just the threads that are woken; and an assignment changes the run states of no others. -/
structure Wakes (ok : Both W → Event → Bool) : Prop where
  blocked : ∀ tid, s.code.blocked tid = (s.spec.asleep tid).isSome
  runs : ∀ e, ok s e = true →
    (∀ tid vaddr val, e = .quiesceIfEqual tid vaddr val → s.code.blocked tid = false →
      (s.exec m e).isSome) ∧
    ∀ t, s.exec m e = some t →
      (∀ otid, otid ∈ t.code.unblocked ↔
        (s.spec.asleep otid).isSome ∧ t.spec.asleep otid = none) ∧
      ∀ tid vaddr val, e = .unquiesceAssign tid vaddr val → ∀ otid,
        t.code.runstate otid ≠ s.code.runstate otid → otid ∈ t.code.unblocked

end Both

/-! ### The loop over the table -/

namespace State

variable {s t : State W} {tid : Nat} {vaddr val : BitVec 64} {l : List Nat}

/-- The loop wakes the thread of this entry. -/
def woken (s : State W) (vaddr val : BitVec 64) (otid : Nat) : Bool :=
  decide ((s.qsemaphores otid).vaddr = vaddr) && decide (vaddr ≠ val)

/-- What the loop does to the threads in `l`. -/
structure Loop (tid : Nat) (vaddr val : BitVec 64) (l : List Nat) (s t : State W) : Prop where
  mem : t.mem = s.mem
  blocked : ∀ otid, t.blocked otid =
    (s.blocked otid && !(decide (otid ∈ l) && s.woken vaddr val otid))
  kept : ∀ otid, t.blocked otid = true → t.qsemaphores otid = s.qsemaphores otid
  rest : ∀ otid, otid ∉ l → t.qsemaphores otid = s.qsemaphores otid
  unblocked : t.unblocked = s.unblocked ++ l.filter (s.woken vaddr val)
  runstate : ∀ otid, t.runstate otid = s.runstate otid ∨ otid = tid ∧ t.runstate otid = .R_RUN

omit [DecidableEq W]

theorem Loop.nil (s : State W) : Loop tid vaddr val [] s s where
  mem := rfl
  blocked := fun otid => by simp
  kept := fun _ _ => rfl
  rest := fun _ _ => rfl
  unblocked := by simp
  runstate := fun _ => .inl rfl

theorem wakeOne_loop (s : State W) (tid : Nat) (vaddr val : BitVec 64) (otid : Nat) :
    Loop tid vaddr val [otid] s (s.wakeOne tid vaddr val otid) := by
  by_cases hwoken : s.woken vaddr val otid = true
  · have hfields := hwoken
    unfold woken at hfields
    rw [Bool.and_eq_true, decide_eq_true_eq, decide_eq_true_eq] at hfields
    have hwake : s.wakeOne tid vaddr val otid =
        (((s.setIssued tid .R_RUN).setRunstate tid .R_RUN).pmint_thread_unblock otid).setQsemaphore
          otid { s.qsemaphores otid with vaddr := -1 } := by
      unfold wakeOne
      rw [if_pos hfields.1, if_pos (hfields.1.symm ▸ hfields.2)]
    rw [hwake]
    refine ⟨rfl, fun o => ?_, fun o ho => ?_, fun o ho => ?_, ?_, fun o => ?_⟩
    · show Function.update s.blocked otid false o = _
      by_cases heq : o = otid
      · rw [heq, Function.update_self, hwoken]
        simp
      · rw [Function.update_of_ne heq]
        simp [heq]
    · have hne : o ≠ otid := by
        intro heq
        have hfalse : Function.update s.blocked otid false o = true := ho
        rw [heq, Function.update_self] at hfalse
        cases hfalse
      exact Function.update_of_ne hne _ _
    · exact Function.update_of_ne (fun heq => ho (List.mem_singleton.mpr heq)) _ _
    · rw [List.filter_singleton, hwoken]
      rfl
    · show Function.update s.runstate tid .R_RUN o = _ ∨ o = tid ∧ Function.update _ _ _ o = _
      by_cases heq : o = tid
      · rw [heq]
        exact .inr ⟨rfl, Function.update_self _ _ _⟩
      · rw [Function.update_of_ne heq]
        exact .inl rfl
  · have hwake : s.wakeOne tid vaddr val otid = s := by
      unfold wakeOne
      unfold woken at hwoken
      split
      · rename_i hvaddr
        rw [hvaddr]
        split
        · rename_i hval
          exact absurd (by simp [hvaddr, hval]) hwoken
        · rfl
      · rfl
    rw [hwake]
    refine ⟨rfl, fun o => ?_, fun _ _ => rfl, fun _ _ => rfl, ?_, fun _ => .inl rfl⟩
    · by_cases heq : o = otid
      · rw [heq, Bool.eq_false_iff.mpr hwoken]
        simp
      · simp [heq]
    · rw [List.filter_singleton, Bool.eq_false_iff.mpr hwoken]
      simp

theorem Loop.trans {l' : List Nat} {u : State W} (h : Loop tid vaddr val l s t)
    (h' : Loop tid vaddr val l' t u) (hdisjoint : ∀ otid ∈ l', otid ∉ l) :
    Loop tid vaddr val (l ++ l') s u := by
  have hwoken : ∀ otid ∈ l', t.woken vaddr val otid = s.woken vaddr val otid := by
    intro otid hmem
    unfold woken
    rw [h.rest otid (hdisjoint otid hmem)]
  refine ⟨h'.mem.trans h.mem, fun otid => ?_, fun otid ho => ?_, fun otid ho => ?_, ?_,
    fun otid => ?_⟩
  · rw [h'.blocked, h.blocked]
    by_cases hmem : otid ∈ l'
    · rw [hwoken otid hmem]
      simp [hmem, hdisjoint otid hmem]
    · simp [hmem]
  · have hblocked : t.blocked otid = true := by
      rw [h'.blocked] at ho
      exact (Bool.and_eq_true_iff.mp ho).1
    rw [h'.kept otid ho, h.kept otid hblocked]
  · rw [List.mem_append, not_or] at ho
    rw [h'.rest otid ho.2, h.rest otid ho.1]
  · rw [h'.unblocked, h.unblocked, List.filter_append, List.append_assoc,
      List.filter_congr hwoken]
  · rcases h'.runstate otid with hsame | hrun
    · rw [hsame]
      exact h.runstate otid
    · exact .inr hrun

/-- **The loop** wakes the threads whose entries it finds. -/
theorem wakeAll_loop (tid : Nat) (vaddr val : BitVec 64) (hnodup : l.Nodup) (s : State W) :
    Loop tid vaddr val l s (l.foldl (fun s otid => s.wakeOne tid vaddr val otid) s) := by
  induction l generalizing s with
  | nil => exact .nil s
  | cons otid l ih =>
      rw [List.nodup_cons] at hnodup
      refine (wakeOne_loop s tid vaddr val otid).trans (ih hnodup.2 _) fun o ho heq => ?_
      rw [List.mem_singleton] at heq
      exact hnodup.1 (heq ▸ ho)

end State

/-! ### What careful steps preserve -/

namespace Both

variable {m} {s t : Both W} {tid : Nat} {vaddr val : BitVec 64} {e : Event}

/-- Who is blocked is in the table, and asleep as the entry says. -/
structure Sound (m : Machine P W) (s : Both W) : Prop where
  mem : s.code.mem = s.spec.mem
  asleep : ∀ otid, s.code.blocked otid = true → otid < MAX_NTHREADS ∧
    ∃ w, m.addr2phys (m.process otid) (s.code.qsemaphores otid).vaddr = some w ∧
      s.spec.asleep otid = some (w, (s.code.qsemaphores otid).val)
  awake : ∀ otid, s.code.blocked otid = false → s.spec.asleep otid = none

omit [DecidableEq P] [DecidableEq W] in
theorem sound_init (mem : W → BitVec 32) : (init mem).Sound m where
  mem := rfl
  asleep := fun _ h => by cases h
  awake := fun _ _ => rfl

omit [DecidableEq P] [DecidableEq W] in
theorem Sound.isSome_asleep (h : s.Sound m) (otid : Nat) :
    s.code.blocked otid = (s.spec.asleep otid).isSome := by
  cases hblocked : s.code.blocked otid with
  | true =>
      obtain ⟨-, w, -, hasleep⟩ := h.asleep otid hblocked
      rw [hasleep]
      rfl
  | false =>
      rw [h.awake otid hblocked]
      rfl

/-- **A careful assignment finds the threads it should wake.** -/
theorem Sound.woken_iff (h : s.Sound m) {paddr : W}
    (hpaddr : m.addr2phys (m.process tid) vaddr = some paddr)
    (hcareful : s.careful m (.unquiesceAssign tid vaddr val) = true) (otid : Nat) :
    (otid < MAX_NTHREADS ∧ s.code.woken vaddr val otid = true) ↔
      s.spec.wakes m tid paddr (val.setWidth 32) otid = true := by
  unfold careful at hcareful
  rw [Bool.and_eq_true, hpaddr, Option.all_some, List.all_eq_true] at hcareful
  have hentry := hcareful.2 otid
  rw [List.mem_range] at hentry
  unfold State.woken Sleepers.wakes
  cases hblocked : s.code.blocked otid with
  | false =>
      -- an entry that is found is of a thread that is blocked
      rw [h.awake otid hblocked]
      refine iff_of_false (fun hleft => ?_) Bool.false_ne_true
      obtain ⟨hlt, hwoken⟩ := hleft
      rw [Bool.and_eq_true, decide_eq_true_eq] at hwoken
      have htable := hentry hlt
      rw [if_pos hwoken.1] at htable
      unfold matchesSleeper at htable
      rw [hblocked, Bool.false_and, Bool.false_and] at htable
      cases htable
  | true =>
      obtain ⟨hlt, w, hw, hasleep⟩ := h.asleep otid hblocked
      rw [hasleep]
      have htable := hentry hlt
      by_cases hvaddr : (s.code.qsemaphores otid).vaddr = vaddr
      · rw [if_pos hvaddr] at htable
        unfold matchesSleeper at htable
        rw [Bool.and_eq_true, Bool.and_eq_true, decide_eq_true_eq, beq_iff_eq,
          decide_eq_decide] at htable
        obtain ⟨⟨-, hprocess⟩, hvalue⟩ := htable
        have hsame : w = paddr := by
          rw [hprocess, hvaddr, hpaddr] at hw
          exact (Option.some.inj hw).symm
        simp only [hvaddr, hprocess, hsame, hvalue, hlt, decide_true, Bool.true_and, true_and,
          decide_eq_true_eq, ne_eq]
      · rw [if_neg hvaddr] at htable
        unfold staysAsleep at htable
        simp only [hvaddr, decide_false, Bool.false_and, Bool.and_eq_true, decide_eq_true_eq]
        refine iff_of_false (fun hleft => Bool.false_ne_true hleft.2) fun hright => ?_
        obtain ⟨⟨hprocess, hword⟩, hvalue⟩ := hright
        rw [hprocess, hword] at hw
        simp [hblocked, hprocess, hw, hvalue] at htable

omit [DecidableEq P] [DecidableEq W] in
/-- An operation that leaves the sleepers as they are. -/
theorem Sound.same (h : s.Sound m) (hmem : t.code.mem = s.code.mem)
    (hblocked : t.code.blocked = s.code.blocked)
    (hkept : ∀ otid, s.code.blocked otid = true →
      t.code.qsemaphores otid = s.code.qsemaphores otid)
    (hspec : t.spec = s.spec) : t.Sound m where
  mem := by rw [hmem, hspec, h.mem]
  asleep := by
    intro otid ho
    rw [hblocked] at ho
    rw [hkept otid ho, hspec]
    exact h.asleep otid ho
  awake := by
    intro otid ho
    rw [hblocked] at ho
    rw [hspec]
    exact h.awake otid ho

omit [DecidableEq P] [DecidableEq W] in
variable (val) in
/-- An operation that puts one more thread to sleep. -/
theorem Sound.sleeps (h : s.Sound m) (hlt : tid < MAX_NTHREADS) {w : W}
    (hw : m.addr2phys (m.process tid) vaddr = some w) (hmem : t.code.mem = s.code.mem)
    (hspecMem : t.spec.mem = s.spec.mem)
    (hblocked : t.code.blocked = Function.update s.code.blocked tid true)
    (hentry : t.code.qsemaphores = Function.update s.code.qsemaphores tid ⟨vaddr, val⟩)
    (hasleep : t.spec.asleep = Function.update s.spec.asleep tid (some (w, val))) :
    t.Sound m where
  mem := by rw [hmem, hspecMem, h.mem]
  asleep := by
    intro otid ho
    rw [hblocked] at ho
    rw [hentry, hasleep]
    by_cases heq : otid = tid
    · rw [heq, Function.update_self, Function.update_self]
      exact ⟨hlt, w, hw, rfl⟩
    · rw [Function.update_of_ne heq] at ho
      rw [Function.update_of_ne heq, Function.update_of_ne heq]
      exact h.asleep otid ho
  awake := by
    intro otid ho
    rw [hblocked] at ho
    have hne : otid ≠ tid := by
      intro heq
      rw [heq, Function.update_self] at ho
      cases ho
    rw [Function.update_of_ne hne] at ho
    rw [hasleep, Function.update_of_ne hne]
    exact h.awake otid ho

omit [DecidableEq P] [DecidableEq W] in
/-- An operation that wakes the threads it should. -/
theorem Sound.wakes (h : s.Sound m) {l : List Nat} (hmem : t.code.mem = t.spec.mem)
    (hloop : ∀ otid, t.code.blocked otid = (s.code.blocked otid && !decide (otid ∈ l)))
    (hkept : ∀ otid, t.code.blocked otid = true →
      t.code.qsemaphores otid = s.code.qsemaphores otid)
    (hasleep : ∀ otid, t.spec.asleep otid = if otid ∈ l then none else s.spec.asleep otid) :
    t.Sound m where
  mem := hmem
  asleep := by
    intro otid ho
    have hboth := ho
    rw [hloop, Bool.and_eq_true, Bool.not_eq_true', decide_eq_false_iff_not] at hboth
    rw [hkept otid ho, hasleep, if_neg hboth.2]
    exact h.asleep otid hboth.1
  awake := by
    intro otid ho
    rw [hasleep]
    split
    · rfl
    · rename_i hnot
      refine h.awake otid ?_
      rwa [hloop, decide_eq_false hnot, Bool.not_false, Bool.and_true] at ho

omit [DecidableEq P] [DecidableEq W] in
/-- **A thread that quiesces** goes to sleep, or goes on. -/
theorem Sound.quiesceIfEqual (h : s.Sound m) (hlt : tid < MAX_NTHREADS)
    (hrunning : s.code.blocked tid = false)
    (hcode : t.code = (s.code.AINT_issue_other tid).aint_quiesce_if_equal m tid vaddr val)
    (hspec : t.spec = s.spec.quiesce m tid vaddr val) : t.Sound m := by
  unfold State.aint_quiesce_if_equal at hcode
  unfold Sleepers.quiesce at hspec
  rw [← h.mem] at hspec
  cases hpaddr : m.addr2phys (m.process tid) vaddr with
  | none =>
      rw [hpaddr] at hcode hspec
      refine h.same ?_ ?_ (fun _ _ => ?_) hspec
      all_goals rw [hcode]; rfl
  | some paddr =>
      rw [hpaddr] at hcode hspec
      dsimp only at hcode hspec
      have hmem : (s.code.AINT_issue_other tid).mem = s.code.mem := rfl
      rw [hmem] at hcode
      by_cases hval : (s.code.mem paddr).setWidth 64 = val
      · rw [if_pos hval] at hcode hspec
        refine h.sleeps val hlt hpaddr ?_ ?_ ?_ ?_ ?_
        all_goals first | rw [hcode]; rfl | rw [hspec]
        exact h.mem
      · rw [if_neg hval] at hcode hspec
        refine h.same (by rw [hcode]; rfl) (by rw [hcode]; rfl) (fun otid ho => ?_) hspec
        have hne : otid ≠ tid := by
          intro heq
          rw [heq, hrunning] at ho
          cases ho
        rw [hcode]
        exact Function.update_of_ne hne _ _

/-- **A careful assignment** wakes the threads that are woken, and leaves the run states. -/
theorem Sound.unquiesceAssign (h : s.Sound m)
    (hcareful : s.careful m (.unquiesceAssign tid vaddr val) = true)
    (hcode : t.code = (s.code.AINT_issue_other tid).aint_unquiesce_assign m tid vaddr val)
    (hspec : t.spec = s.spec.assign m tid vaddr val) :
    t.Sound m ∧
    (∀ otid, otid ∈ t.code.unblocked ↔
      (s.spec.asleep otid).isSome ∧ t.spec.asleep otid = none) ∧
    t.code.runstate = s.code.runstate := by
  have hrun : s.code.runstate tid = .R_RUN := by
    unfold careful at hcareful
    exact of_decide_eq_true (Bool.and_eq_true_iff.mp hcareful).1
  unfold State.aint_unquiesce_assign at hcode
  unfold Sleepers.assign at hspec
  cases hpaddr : m.addr2phys (m.process tid) vaddr with
  | none =>
      rw [hpaddr] at hcode hspec
      refine ⟨h.same ?_ ?_ (fun _ _ => ?_) hspec, fun otid => ?_, ?_⟩
      all_goals rw [hcode]
      · rfl
      · rfl
      · rfl
      · rw [hspec]
        refine iff_of_false List.not_mem_nil fun hsome => ?_
        rw [hsome.2] at hsome
        exact Bool.false_ne_true hsome.1
      · rfl
  | some paddr =>
      have hwoken := h.woken_iff hpaddr hcareful
      rw [hpaddr] at hcode hspec
      dsimp only at hcode hspec
      have hloop := State.wakeAll_loop tid vaddr val (List.nodup_range (n := MAX_NTHREADS))
        { s.code.AINT_issue_other tid with
          mem := Function.update (s.code.AINT_issue_other tid).mem paddr (val.setWidth 32) }
      rw [← hcode] at hloop
      have hmem : ∀ otid, otid ∈ t.code.unblocked ↔
          s.spec.wakes m tid paddr (val.setWidth 32) otid = true := by
        intro otid
        rw [← hwoken, hloop.unblocked]
        show otid ∈ [] ++ _ ↔ _
        rw [List.nil_append, List.mem_filter, List.mem_range]
        rfl
      have hasleep : ∀ otid, t.spec.asleep otid =
          if otid ∈ t.code.unblocked then none else s.spec.asleep otid := by
        intro otid
        rw [hspec]
        exact if_congr (hmem otid).symm rfl rfl
      refine ⟨h.wakes (l := t.code.unblocked) ?_ (fun otid => ?_) hloop.kept hasleep,
        fun otid => ?_, ?_⟩
      · rw [hloop.mem, hspec, ← h.mem]
        rfl
      · have hin : decide (otid ∈ t.code.unblocked) =
            (decide (otid ∈ List.range MAX_NTHREADS) && s.code.woken vaddr val otid) := by
          rw [Bool.eq_iff_iff, Bool.and_eq_true, decide_eq_true_eq, decide_eq_true_eq, hmem,
            ← hwoken, List.mem_range]
        rw [hin]
        exact hloop.blocked otid
      · rw [hasleep]
        by_cases hin : otid ∈ t.code.unblocked
        · rw [if_pos hin]
          have hsome := Sleepers.isSome_of_wakes ((hmem otid).mp hin)
          exact iff_of_true hin ⟨hsome, rfl⟩
        · rw [if_neg hin]
          refine iff_of_false hin fun hsome => ?_
          rw [hsome.2] at hsome
          exact Bool.false_ne_true hsome.1
      · funext otid
        rcases hloop.runstate otid with hsame | ⟨heq, hrunning⟩
        · exact hsame
        · rw [hrunning, heq, hrun]

omit [DecidableEq P] [DecidableEq W] in
/-- Nobody is woken when who is blocked stays so. -/
theorem Sound.unblocked_none (h : s.Sound m) (ht : t.Sound m) (hnone : t.code.unblocked = [])
    (hblocked : ∀ otid, s.code.blocked otid = true → t.code.blocked otid = true) (otid : Nat) :
    otid ∈ t.code.unblocked ↔ (s.spec.asleep otid).isSome ∧ t.spec.asleep otid = none := by
  rw [hnone]
  refine iff_of_false List.not_mem_nil fun hwoken => ?_
  rw [← h.isSome_asleep] at hwoken
  have hstays := hblocked otid hwoken.1
  rw [ht.isSome_asleep, hwoken.2] at hstays
  cases hstays

omit [DecidableEq P] [DecidableEq W] in
theorem aint_quiesce_if_equal_blocked (c : State W) (tid : Nat) (vaddr val : BitVec 64) :
    (c.aint_quiesce_if_equal m tid vaddr val).unblocked = c.unblocked ∧
      ∀ otid, c.blocked otid = true →
        (c.aint_quiesce_if_equal m tid vaddr val).blocked otid = true := by
  unfold State.aint_quiesce_if_equal
  split
  · split
    · refine ⟨rfl, fun otid ho => ?_⟩
      show Function.update c.blocked tid true otid = true
      by_cases heq : otid = tid
      · rw [heq, Function.update_self]
      · rw [Function.update_of_ne heq]
        exact ho
    · exact ⟨rfl, fun _ ho => ho⟩
  · exact ⟨rfl, fun _ ho => ho⟩

/-! ### Runs -/

/-- **A careful step** wakes the threads that are woken, and no others. -/
theorem Sound.step (h : s.Sound m) (hcareful : s.careful m e = true) (hexec : s.exec m e = some t) :
    t.Sound m ∧ (∀ otid, otid ∈ t.code.unblocked ↔
      (s.spec.asleep otid).isSome ∧ t.spec.asleep otid = none) ∧
    ∀ tid vaddr val, e = .unquiesceAssign tid vaddr val → t.code.runstate = s.code.runstate := by
  unfold exec at hexec
  obtain ⟨code, hcode, ht⟩ := Option.map_eq_some_iff.mp hexec
  have htcode : t.code = code := by rw [← ht]
  have htspec : t.spec = s.spec.exec m e := by rw [← ht]
  rw [← htcode] at hcode
  unfold State.exec at hcode
  cases e with
  | quiesceIfEqual tid vaddr val =>
      dsimp only at hcode
      split at hcode
      · cases hcode
      · rename_i hrunning
        have hlt : tid < MAX_NTHREADS := of_decide_eq_true hcareful
        rw [if_neg (Nat.not_le.mpr hlt)] at hcode
        have hq := (Option.some.inj hcode).symm
        have hsound := h.quiesceIfEqual hlt (Bool.eq_false_iff.mpr hrunning) hq htspec
        obtain ⟨hnone, hblocked⟩ := aint_quiesce_if_equal_blocked (m := m)
          (s.code.AINT_issue_other tid) tid vaddr val
        rw [← hq] at hnone hblocked
        exact ⟨hsound, h.unblocked_none hsound hnone hblocked, fun _ _ _ he => by cases he⟩
  | unquiesceAssign tid vaddr val =>
      dsimp only at hcode
      split at hcode
      · cases hcode
      · obtain ⟨hsound, hunblocked, hrunstate⟩ :=
          h.unquiesceAssign hcareful (Option.some.inj hcode).symm htspec
        exact ⟨hsound, hunblocked, fun _ _ _ _ => hrunstate⟩
  | issueOther tid =>
      dsimp only at hcode
      split at hcode
      · cases hcode
      · have hcode := (Option.some.inj hcode).symm
        have hsound : t.Sound m :=
          h.same (by rw [hcode]; rfl) (by rw [hcode]; rfl) (fun _ _ => by rw [hcode]; rfl) htspec
        refine ⟨hsound, h.unblocked_none hsound (by rw [hcode]; rfl) fun otid ho => ?_,
          fun _ _ _ he => by cases he⟩
        rw [hcode]
        exact ho
  | commit tid =>
      have hcode := (Option.some.inj hcode).symm
      have hsound : t.Sound m :=
        h.same (by rw [hcode]; rfl) (by rw [hcode]; rfl) (fun _ _ => by rw [hcode]; rfl) htspec
      refine ⟨hsound, h.unblocked_none hsound (by rw [hcode]) fun otid ho => ?_,
        fun _ _ _ he => by cases he⟩
      rw [hcode]
      exact ho

theorem Sound.wakesExactly (h : s.Sound m) : s.Wakes m (careful m) where
  blocked := h.isSome_asleep
  runs := by
    intro e hcareful
    refine ⟨fun tid vaddr val he hrunning => ?_, fun t hexec => ?_⟩
    · subst he
      have hlt : tid < MAX_NTHREADS := of_decide_eq_true hcareful
      unfold exec State.exec
      dsimp only
      rw [hrunning, if_neg Bool.false_ne_true, if_neg (Nat.not_le.mpr hlt)]
      rfl
    · obtain ⟨-, hunblocked, hrunstate⟩ := h.step hcareful hexec
      refine ⟨hunblocked, fun tid vaddr val he otid hchanged => ?_⟩
      exact absurd (congrFun (hrunstate tid vaddr val he) otid) hchanged

/-- **As long as an assignment finds just the entries it should, no wake-up is lost or
invented.** -/
theorem wakes_of_careful (h : Reaches Start (Step m (careful m)) s) : s.Wakes m (careful m) := by
  have hsound : s.Sound m := by
    refine h.invariant (fun t ht => ?_) fun t u ht hstep => ?_
    · obtain ⟨mem, rfl⟩ := ht
      exact sound_init mem
    · obtain ⟨e, hcareful, hexec⟩ := hstep
      exact (ht.step hcareful hexec).1
  exact hsound.wakesExactly

/-- Two threads of one process, with one word that is 5. -/
def twoThreads : Machine Nat (BitVec 64) where
  process := fun _ => 1
  addr2phys := fun _ vaddr => if vaddr = 0x1000 then some vaddr else none

def fiveAt : BitVec 64 → BitVec 32 := fun _ => 5

/-- The second thread wakes the first. -/
def wokenRun : List Event :=
  [.quiesceIfEqual 0 0x1000 5, .commit 0, .issueOther 1, .unquiesceAssign 1 0x1000 6, .commit 1,
    .issueOther 0, .commit 0]

theorem wakes_of_careful_woken : ∃ s : Both (BitVec 64),
    Lib.after (exec twoThreads) (careful twoThreads) wokenRun (init fiveAt) = some s ∧
      s.Wakes twoThreads (careful twoThreads) := by
  have hrun : (Lib.after (exec twoThreads) (careful twoThreads) wokenRun (init fiveAt)).isSome := by
    decide +kernel
  obtain ⟨s, hs⟩ := Option.isSome_iff_exists.mp hrun
  have hreaches : Reaches Start (Step twoThreads (careful twoThreads)) s :=
    .after (fun t e u hok hexec => ⟨e, hok, hexec⟩) (.start ⟨fiveAt, rfl⟩) hs
  exact ⟨s, hs, wakes_of_careful hreaches⟩

/-- The second thread assigns the value that the first one sleeps on, and wakes it. -/
theorem not_wakes_by_same_value :
    ¬ ∀ s : Both (BitVec 64), Reaches Start (Step twoThreads fun _ _ => true) s →
      s.Wakes twoThreads fun _ _ => true := by
  intro hall
  have hrun : ((exec twoThreads (init fiveAt) (.quiesceIfEqual 0 0x1000 5)).bind fun s =>
      (exec twoThreads s (.unquiesceAssign 1 0x1000 5)).map fun t =>
        (decide (0 ∈ t.code.unblocked), t.spec.asleep 0)) =
          some (true, some (0x1000, 5)) := by
    decide +kernel
  obtain ⟨s, hs, hnext⟩ := Option.bind_eq_some_iff.mp hrun
  obtain ⟨t, ht, hvalues⟩ := Option.map_eq_some_iff.mp hnext
  obtain ⟨hwoken, hasleep⟩ := Prod.mk.inj hvalues
  have hreaches : Reaches Start (Step twoThreads fun _ _ => true) s :=
    .step (.start ⟨fiveAt, rfl⟩) ⟨_, rfl, hs⟩
  have hwakes := (((hall s hreaches).runs _ rfl).2 t ht).1 0
  have hnone := (hwakes.mp (of_decide_eq_true hwoken)).2
  rw [hasleep] at hnone
  cases hnone

end Both

end AsimFeeder.Aint.Quiesce
