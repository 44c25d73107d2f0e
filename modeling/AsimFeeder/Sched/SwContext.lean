/-
The context switch of a software context, with the scheduler.

A software context is asked to switch by the scheduler's interval timer, or asks itself
when its thread has ended.  From then on it feeds context switch instructions instead of
ordinary ones, and when one of them commits it tells the scheduler that the switch is over.

`inFlight` are the instructions of each software context that were fetched and neither
committed nor killed, the oldest first.  Each carries how many times its context had been
asked to switch when it was fetched, which no code reads.

This is the software context without core swapping, so the bits that only core swapping
sets are left out, and so is what the feeder does with an instruction; `success` is what
it returns.
-/
import AsimFeeder.Sched.SchedRuns

namespace AsimFeeder.Sched

open Lib

/-- An instruction that is in flight; `asimSchedulerContextSwitch` is its only flag. -/
structure AsimInst where
  asimSchedulerContextSwitch : Bool
  request : Nat
  deriving DecidableEq, Repr

/-- The assertion on a context switch instruction that the feeder does not provide. -/
def assertSuccess : String := "ASSERTX(success)"

/-- How many times a software context was asked to switch. -/
def SwContext.requests (c : SwContext) : Nat := c.history.count .requested

/-- The next fetch makes a context switch instruction. -/
def SwContext.switching (c : SwContext) : Bool :=
  c.contextSwitchState = .requested || c.contextSwitchState = .sent

structure SwitchRun where
  sched : ContextScheduler
  added : List Nat
  inFlight : Nat → List AsimInst

inductive SwitchEvent
  | startThread (swc : Nat)
  | clock (cycle : UInt64)
  | fetch (hwc : Nat) (success : Bool)
  | commit (swc k : Nat)
  | kill (swc n : Nat)
  deriving DecidableEq, Repr

namespace ContextScheduler

variable (maxNumSwcs : Nat) (s : ContextScheduler)

/-- The thread has ended. -/
def handleEndThread (swc : Nat) : Except String ContextScheduler := do
  let s ← (s.setSwc swc fun c => { c with
    contextSwitchState := .requested
    history := .requested :: c.history }).softwareContextExited maxNumSwcs swc
  .ok (s.setSwc swc fun c => { c with streamEnded := true })

/-- `Fetch` and `FetchMicro`, as far as the switch goes. -/
def fetch (swc : Nat) (success : Bool) : Except String ContextScheduler :=
  if (s.swcs swc).switching then
    if success then .ok (s.setSwc swc fun c => { c with contextSwitchState := .sent })
    else .error assertSuccess
  else
    -- the instruction is there, and was fetched, also when the feeder has no more of them
    let s := s.setSwc swc fun c => { c with running := true, history := .fetched :: c.history }
    if success then .ok s else s.handleEndThread maxNumSwcs swc

/-- The commit of a context switch instruction. -/
def commitSwitch (swc : Nat) : Except String ContextScheduler :=
  if (s.swcs swc).contextSwitchState = .sent then
    if (s.swcs swc).csDone then
      .ok (s.setSwc swc fun c => { c with contextSwitchState := .none, csDone := false })
    else do
      let s ← s.contextSwitchCompleted maxNumSwcs swc
      .ok (s.setSwc swc fun c => { c with running := false, contextSwitchState := .none })
  else
    .ok s

end ContextScheduler

namespace SwitchRun

variable (maxNumSwcs : Nat) (intervalTimer : UInt64) (r : SwitchRun)

def Start : Prop := r.sched.Fresh ∧ r.added = [] ∧ ∀ swc, r.inFlight swc = []

/-- What a fetch for a software context makes. -/
def fetched (swc : Nat) : AsimInst :=
  ⟨(r.sched.swcs swc).switching, (r.sched.swcs swc).requests⟩

/-- Instructions are committed and killed that are in flight, and kills take a suffix. -/
def exec : SwitchEvent → Except String SwitchRun
  | .startThread swc => do
      let sched ← r.sched.startThread maxNumSwcs swc
      .ok { r with sched, added := swc :: r.added }
  | .clock cycle => do
      let sched ← r.sched.clock intervalTimer cycle
      .ok { r with sched }
  | .fetch hwc success =>
      match (r.sched.hwcs hwc).swc with
      | none => .error "ASIM_SWC_NONE"
      | some swc => do
          let sched ← r.sched.fetch maxNumSwcs swc success
          let inFlight := Function.update r.inFlight swc (r.inFlight swc ++ [r.fetched swc])
          .ok { r with sched, inFlight }
  | .commit swc k =>
      match (r.inFlight swc)[k]? with
      | none => .error "ASIM_INST"
      | some ainst => do
          let sched ←
            if ainst.asimSchedulerContextSwitch then r.sched.commitSwitch maxNumSwcs swc
            else .ok r.sched
          .ok { r with
            sched
            inFlight := Function.update r.inFlight swc ((r.inFlight swc).eraseIdx k) }
  | .kill swc n =>
      .ok { r with inFlight := Function.update r.inFlight swc ((r.inFlight swc).take n) }

/-- Who does what, and when. -/
def Allowed : SwitchEvent → Prop
  | .startThread swc => swc ∉ r.added ∧ r.sched.firstSlot maxNumSwcs none ≠ none
  | .clock _ | .kill _ _ => True
  | .fetch hwc _ => (r.sched.hwcs hwc).swc ≠ none
  | .commit swc k => k < (r.inFlight swc).length

def Step (r r' : SwitchRun) : Prop :=
  ∃ e, r.Allowed maxNumSwcs e ∧ r.exec maxNumSwcs intervalTimer e = .ok r'

end SwitchRun

end AsimFeeder.Sched
