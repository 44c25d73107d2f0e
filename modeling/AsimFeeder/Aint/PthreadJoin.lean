/-
Joining a thread.

The joiner looks at the run state of the other thread, which is that of the instruction it
committed last.  If it is not done, the joiner blocks and leaves its name in `wthread`.
The exit looks there when it is issued: if somebody waits, it passes its argument on and
unblocks him, and is done when it commits if nobody does.

A system call is issued in the register map of its own instruction.  What it reads of
another thread, it reads in the newest map of that thread.

The history of a run is for the statement only.
-/
import AsimFeeder.Aint.Renaming

namespace AsimFeeder.Aint.PthreadJoin

open Lib

inductive RunState
  | R_RUN
  | R_WAIT
  | R_DONE
  | R_FREE
  deriving DecidableEq, Repr

def A0 : LogicalRegNum := 16

def A1 : LogicalRegNum := 17

def RET_VAL_REG : LogicalRegNum := 0

def ERROR_REG : LogicalRegNum := 19

/-- `ifi` are the run states of the instructions in flight, each in its slot. -/
structure Thread where
  tid : Int
  rename : RenameThread
  ifi : UInt64 → RunState
  runstate : RunState

namespace Thread

variable (t : Thread)

/-- A register, in the newest map. -/
def MapReg_thr (reg : LogicalRegNum) : Int := t.rename.regs.Reg (t.rename.regs.RegMap reg)

/-- A register, in the map of an instruction. -/
def MapReg (instid : UInt64) (reg : LogicalRegNum) : Option Int :=
  (t.rename.AINT_regmap_snapshot instid).map fun map => t.rename.regs.Reg (map reg)

/-- The instruction is issued, up to where its function is called. -/
def AINT_issue_other (instid : UInt64) (writes : List (Target × Int)) : Option Thread :=
  (t.rename.AINT_issue_other instid writes).map fun rename =>
    { t with rename := rename, ifi := Function.update t.ifi instid .R_RUN }

/-- The call returns zero and no error. -/
def SyscallSetSuccess (instid : UInt64) : Option Thread :=
  (t.rename.writeCells instid [(.atCall ERROR_REG, 0), (.atCall RET_VAL_REG, 0)]).map fun rename =>
    { t with rename := rename }

def setIfi (instid : UInt64) (r : RunState) : Thread :=
  { t with ifi := Function.update t.ifi instid r }

/-- An instruction that is neither a join nor an exit.  What it commits as is what it was
issued as. -/
def exec : RenameEvent → Option Thread
  | .fetch picode =>
      (t.rename.AINT_fetch_next_instr picode).map fun rename => { t with rename := rename }
  | .issue instid writes => t.AINT_issue_other instid writes
  | .commit instid =>
      (t.rename.AINT_commit_instr instid).map fun rename =>
        { t with rename := rename, runstate := t.ifi instid }
  | .kill instid => (t.rename.AINT_kill_instrs instid).map fun rename => { t with rename := rename }

end Thread

/-- The argument of the join that was issued, the word at its value pointer when the joiner
went on, the exit that was issued and its argument, and whether it was committed. -/
structure History where
  pointer : Option Int
  word : Option Int
  exit : Option (UInt64 × Int)
  committed : Bool
  deriving DecidableEq, Repr

/-- The joiner and the thread it joins.  `wthread` says that the joiner waits for the other
one, and `mem` is the memory of the joiner's process. -/
structure Joining where
  joiner : Thread
  joinee : Thread
  wthread : Bool
  blocked : Bool
  exitcode : Int
  mem : Int → Int
  past : History

inductive Event
  | joiner (e : RenameEvent)
  | joinee (e : RenameEvent)
  | join (instid : UInt64)
  | exit (instid : UInt64)
  | store (paddr value : Int)

namespace Joining

variable (s : Joining) (instid : UInt64)

/-- Nothing is saved at the pointer that is zero. -/
def save (value_ptr value : Int) : Int → Int :=
  if value_ptr = 0 then s.mem else Function.update s.mem value_ptr value

/-- Nothing, if another thread is to be joined. -/
def aint_pthread_join : Option Joining :=
  (s.joiner.MapReg instid A1).bind fun value_ptr =>
    (s.joiner.MapReg instid A0).bind fun joinee_tid =>
      if joinee_tid ≠ s.joinee.tid then none
      else if s.joinee.runstate = .R_DONE then
        let mem := s.save value_ptr (s.joinee.MapReg_thr A0)
        (s.joiner.SyscallSetSuccess instid).map fun joiner =>
          { s with
            joiner := joiner
            joinee := { s.joinee with runstate := .R_FREE }
            mem := mem
            past := { s.past with pointer := some value_ptr, word := some (mem value_ptr) } }
      else
        (s.joiner.SyscallSetSuccess instid).map fun joiner =>
          { s with
            joiner := joiner.setIfi instid .R_WAIT
            wthread := true
            blocked := true
            past := { s.past with pointer := some value_ptr } }

/-- The word is the one at the pointer that the joiner passed to its join. -/
def aint_pthread_exit : Option Joining :=
  (s.joinee.MapReg instid A0).bind fun argument =>
    let past := { s.past with exit := some (instid, argument) }
    if s.wthread then
      let mem := s.save (s.joiner.MapReg_thr A1) argument
      (s.joinee.SyscallSetSuccess instid).map fun joinee =>
        { s with
          joinee := joinee.setIfi instid .R_FREE
          blocked := false
          exitcode := argument
          mem := mem
          past := { past with word := s.past.pointer.map mem } }
    else
      (s.joinee.SyscallSetSuccess instid).map fun joinee =>
        { s with joinee := joinee.setIfi instid .R_DONE, exitcode := argument, past := past }

def exec : Event → Option Joining
  | .joiner e => (s.joiner.exec e).map fun joiner => { s with joiner := joiner }
  | .joinee e =>
      (s.joinee.exec e).map fun joinee =>
        { s with
          joinee := joinee
          past :=
            match e with
            | .commit instid =>
                { s.past with
                  committed := s.past.committed || decide (s.past.exit.map Prod.fst = some instid) }
            | _ => s.past }
  | .join instid =>
      (s.joiner.AINT_issue_other instid []).bind fun joiner =>
        { s with joiner := joiner }.aint_pthread_join instid
  | .exit instid =>
      (s.joinee.AINT_issue_other instid []).bind fun joinee =>
        { s with joinee := joinee }.aint_pthread_exit instid
  | .store paddr value => some { s with mem := Function.update s.mem paddr value }

/-- Instructions in flight are issued, and the oldest of them commits.  There are no kills.
A thread that is blocked issues nothing, one that has exited issues nothing and commits
nothing behind its exit.  The join and the exit are issued once. -/
def legal : Event → Bool
  | .joiner (.fetch _) => true
  | .joiner (.issue instid writes) => !s.blocked && s.joiner.rename.legal (.issue instid writes)
  | .joiner (.commit instid) => s.joiner.rename.legal (.commit instid)
  | .joinee (.fetch _) => true
  | .joinee (.issue instid writes) =>
      s.past.exit.isNone && s.joinee.rename.legal (.issue instid writes)
  | .joinee (.commit instid) => !s.past.committed && s.joinee.rename.legal (.commit instid)
  | .join instid =>
      !s.blocked && s.past.pointer.isNone && s.joiner.rename.flight.contains instid
  | .exit instid => s.past.exit.isNone && s.joinee.rename.flight.contains instid
  | .store _ _ => true
  | _ => false

/-- The instruction leaves the register as it is. -/
def leaves (reg : LogicalRegNum) : Option Icode → Bool
  | none => true
  | some picode => picode.dest.all fun dest => decide (picode.args dest ≠ reg)

/-- The map of the instruction has the register where the newest map has it. -/
def unrenamed (t : RenameThread) (instid : UInt64) (reg : LogicalRegNum) : Bool :=
  (t.AINT_regmap_snapshot instid).all fun map => decide (map reg = t.regs.RegMap reg)

/-- The join is not issued between the issue and the commit of the exit.  No instruction
behind a join that waits renames its second argument, none behind an exit that nobody
joined yet renames its first one, and none writes outside of its own registers. -/
def careful (e : Event) : Bool :=
  s.legal e &&
    match e with
    | .joiner (.fetch picode) => !s.blocked || leaves A1 picode
    | .joiner e => s.joiner.rename.careful e
    | .joinee (.fetch picode) => s.past.exit.isNone || s.past.word.isSome || leaves A0 picode
    | .joinee e => s.joinee.rename.careful e
    | .join instid =>
        if s.past.exit.isSome then s.past.committed
        else unrenamed s.joiner.rename instid A1
    | .exit instid => s.wthread || unrenamed s.joinee.rename instid A0
    | .store _ _ => true

/-- Both threads have just started, and none of them has joined or exited. -/
structure Start (s : Joining) : Prop where
  joiner : s.joiner.rename = .init
  joinee : s.joinee.rename = .init
  ifi : ∀ instid, s.joinee.ifi instid = .R_RUN
  runstate : s.joinee.runstate = .R_RUN
  wthread : s.wthread = false
  blocked : s.blocked = false
  past : s.past = ⟨none, none, none, false⟩

/-- `e` may happen in `s`. -/
def Step (ok : Joining → Event → Bool) (s t : Joining) : Prop :=
  ∃ e, ok s e = true ∧ s.exec e = some t

/-- Nobody is blocked in a join behind an exit, nobody goes on before it, and who goes on
has the argument of the exit where he wants it. -/
structure Joins (s : Joining) : Prop where
  woken : s.blocked = true → s.past.exit = none
  waits : s.past.pointer ≠ none → s.blocked = false → s.past.word ≠ none
  after : s.past.word ≠ none → s.past.exit ≠ none
  value : ∀ pointer word instid argument, s.past.pointer = some pointer → pointer ≠ 0 →
    s.past.word = some word → s.past.exit = some (instid, argument) → word = argument

end Joining

end AsimFeeder.Aint.PthreadJoin
