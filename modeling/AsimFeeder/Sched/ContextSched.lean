/-
The context scheduler.

It maps software contexts onto hardware contexts.  A software context says whether it is
mapped and to which hardware context, a hardware context says which software context it
runs, and both are written by the scheduler; so are the flags of a software context that
say how far a deschedule has come.

Contexts are objects that are never deleted, and stand for their addresses here.  Hardware
contexts are not in this repository: the scheduler only sets and reads what one runs, and
reads its priority.  Left out are the statistics, the trace output, the current cycle, and
the list of processors, which is not used unless someone asks for it.
-/
import AsimFeeder.Lib.RoundRobin

namespace AsimFeeder.Sched

open Lib

/-- How far `SW_CONTEXT_CLASS` is with a context switch. -/
inductive ContextSwitchState
  | none | requested | sending | sent | committed
  deriving DecidableEq, Repr

/-- What happens to a software context, as far as context switches go. -/
inductive SwitchMark
  | fetched | requested | completed
  deriving DecidableEq, Repr

/-- `history` is what has happened, the newest first; no code reads it. -/
structure SwContext where
  hwc : Option Nat
  contextSwitchState : ContextSwitchState
  mappedToHWC : Bool
  runnable : Bool
  deschedulePending : Bool
  deletePending : Bool
  streamEnded : Bool
  running : Bool
  csDone : Bool
  history : List SwitchMark
  deriving DecidableEq, Repr

/-- What the constructor of `SW_CONTEXT_CLASS` makes. -/
def SwContext.new : SwContext where
  hwc := none
  contextSwitchState := .none
  mappedToHWC := false
  runnable := true
  deschedulePending := false
  deletePending := false
  streamEnded := false
  running := false
  csDone := false
  history := []

/-- `SetMappedToHWC` and `SetHWC`. -/
def SwContext.scheduled (hwc : Nat) (c : SwContext) : SwContext :=
  { c with mappedToHWC := true, hwc := some hwc }

/-- `SetNotDeschedulePending`, `SetNotMappedToHWC` and `SetNoHWC`. -/
def SwContext.descheduled (c : SwContext) : SwContext :=
  { c with
    deschedulePending := false
    mappedToHWC := false
    hwc := none
    history := .completed :: c.history }

structure HwContext where
  swc : Option Nat
  priority : Int32
  deriving DecidableEq

/-- The slots of `SWContextList` are those below `MAX_NUM_SWCS`. -/
structure ContextScheduler where
  swContextList : Nat → Option Nat
  hwContextList : List Nat
  nextSWCToTry : Nat
  swcs : Nat → SwContext
  hwcs : Nat → HwContext
  warnings : List String

/-! ### What the scheduler warns of -/

def deschedulePendingWarning : String :=
  "CONTEXT_SCHEDULER_CLASS::StartDeschedule called with a software context whose deschedule " ++
    "pending flag is set."

def notAssignedWarning : String :=
  "CONTEXT_SCHEDULER_CLASS::FindActiveSoftwareContext: Deschedule pending flag is set when no " ++
    "hardware context is assigned."

def notPickedWarning : String :=
  "CONTEXT_SCHEDULER_CLASS::TryRunningNewSoftwareContext: New software context not picked " ++
    "when hardware context is free"

def initiateWarning : String :=
  "SW_CONTEXT_CLASS::InitiateContextSwitch called when current state is not NONE"

namespace ContextScheduler

variable (maxNumSwcs : Nat) (s : ContextScheduler)

def setSwc (swc : Nat) (f : SwContext → SwContext) : ContextScheduler :=
  { s with swcs := Function.update s.swcs swc (f (s.swcs swc)) }

/-- `SetSWC` and `SetNoSWC` of a hardware context. -/
def setHwc (hwc : Nat) (swc : Option Nat) : ContextScheduler :=
  { s with hwcs := Function.update s.hwcs hwc { s.hwcs hwc with swc } }

def warn (message : String) : ContextScheduler := { s with warnings := message :: s.warnings }

/-- The first slot that holds `swc`, or the first free one. -/
def firstSlot (swc : Option Nat) : Option Nat :=
  (List.range maxNumSwcs).find? fun i => s.swContextList i = swc

def startDeschedule (swc : Nat) : Except String ContextScheduler :=
  if (s.swcs swc).mappedToHWC then
    let s := if (s.swcs swc).deschedulePending then s.warn deschedulePendingWarning else s
    .ok (s.setSwc swc fun c => { c with deschedulePending := true })
  else
    .error <| "CONTEXT_SCHEDULER_CLASS::StartDeschedule called  with a software context that " ++
      "is not mapped to a hardware context."

def removeSoftwareContext (swc : Nat) : Except String ContextScheduler :=
  match s.firstSlot maxNumSwcs (some swc) with
  | some i => .ok { s with swContextList := Function.update s.swContextList i none }
  | none =>
      .error <| "CONTEXT_SCHEDULER_CLASS::RemoveSoftwareContext: Trying to remove software " ++
        "context that is not in the list.\n"

/-- The free hardware context of the highest priority, the first one of these. -/
def findFreeHardwareContext : Option Nat :=
  let step := fun (free : Option Nat × Int32) i =>
    if (s.hwcs i).swc = none ∧ free.2 < (s.hwcs i).priority then (some i, (s.hwcs i).priority)
    else free
  (s.hwContextList.foldl step (none, Int32.minValue)).1

/-- What `FindActiveSoftwareContext` looks for. -/
def active (i : Nat) : Bool :=
  match s.swContextList i with
  | none => false
  | some swc => (s.swcs swc).runnable && !(s.swcs swc).mappedToHWC

def findActiveSoftwareContext : Nat × ContextScheduler :=
  let i := searchFrom s.active maxNumSwcs s.nextSWCToTry maxNumSwcs s.nextSWCToTry
  match s.swContextList i with
  | some swc =>
      if i < maxNumSwcs ∧ (s.swcs swc).deschedulePending then (i, s.warn notAssignedWarning)
      else (i, s)
  | none => (i, s)

/-- A stream that is not runnable does not become runnable again. -/
def checkStreamResumption : ContextScheduler := s

/-- Looks for a software context again when it found none, and then once more. -/
def pickSoftwareContext : Option Nat × ContextScheduler :=
  let (i, s) := s.findActiveSoftwareContext maxNumSwcs
  let (i, s) :=
    if i = maxNumSwcs then s.checkStreamResumption.findActiveSoftwareContext maxNumSwcs
    else (i, s)
  let (i, s) := if i = maxNumSwcs then s.findActiveSoftwareContext maxNumSwcs else (i, s)
  if i = maxNumSwcs then
    (none, { s with nextSWCToTry := (s.nextSWCToTry + 1) % maxNumSwcs })
  else
    (s.swContextList i, { s with nextSWCToTry := (i + 1) % maxNumSwcs })

def runSoftwareContext (swc hwc : Nat) : Except String ContextScheduler :=
  if (s.swcs swc).mappedToHWC then
    .error <| "CONTEXT_SCHEDULER_CLASS::RunSoftwareContext: Trying to schedule a software " ++
      "context that is assigned to a hardware context."
  else if (s.swcs swc).deschedulePending then
    .error <| "CONTEXT_SCHEDULER_CLASS::RunSoftwareContext: Trying to schedule a software " ++
      "context whose deschedule pending flag is set."
  else if (s.swcs swc).runnable = false then
    .error <| "CONTEXT_SCHEDULER_CLASS::RunSoftwareContext: Trying to schedule a software " ++
      "context whose runnable flag is false."
  else
    .ok <| (s.setSwc swc (.scheduled hwc)).setHwc hwc (some swc)

def tryRunningSoftwareContext (swc : Nat) : Except String ContextScheduler :=
  match s.findFreeHardwareContext with
  | none => .ok s
  | some hwc =>
      match s.pickSoftwareContext maxNumSwcs with
      | (none, s) => .ok s
      | (some picked, s) =>
          if picked = swc then s.runSoftwareContext swc hwc
          else .ok (s.warn notPickedWarning)

def addSoftwareContext (swc : Nat) : Except String ContextScheduler :=
  match s.firstSlot maxNumSwcs none with
  | some i =>
      let s := { s with swContextList := Function.update s.swContextList i (some swc) }
      s.tryRunningSoftwareContext maxNumSwcs swc
  | none =>
      .error <| "CONTEXT_SCHEDULER_CLASS::AddSoftwareContext: No slot found for software context."

/-- A new software context, and `AddSoftwareContext` for it. -/
def startThread (swc : Nat) : Except String ContextScheduler :=
  (s.setSwc swc fun _ => .new).addSoftwareContext maxNumSwcs swc

def softwareContextPaused (swc : Nat) : Except String ContextScheduler :=
  (s.setSwc swc fun c => { c with runnable := false }).startDeschedule swc

def softwareContextExited (swc : Nat) : Except String ContextScheduler :=
  let s := s.setSwc swc fun c => { c with runnable := false }
  if (s.swcs swc).mappedToHWC = false then s.removeSoftwareContext maxNumSwcs swc
  else (s.setSwc swc fun c => { c with deletePending := true }).startDeschedule swc

/-- What becomes of the number of cycles to wait is not used. -/
def startTimedWait (swc : Nat) (descheduleRequest : Bool) : Except String ContextScheduler :=
  if descheduleRequest then
    (s.setSwc swc fun c => { c with runnable := false }).startDeschedule swc
  else
    .ok s

/-- The switch is over, and the hardware context takes what `PickSoftwareContext` has for it. -/
def reschedule (hwc : Nat) : Except String ContextScheduler :=
  match s.pickSoftwareContext maxNumSwcs with
  | (some newSWC, s) => s.runSoftwareContext newSWC hwc
  | (none, s) => .ok (s.setHwc hwc none)

def contextSwitchCompleted (swc : Nat) : Except String ContextScheduler :=
  if (s.swcs swc).mappedToHWC = false then
    .error <| "CONTEXT_SCHEDULER_CLASS::ContextSwitchCompleted called when software context is " ++
      "not mapped to a hardware context."
  else if (s.swcs swc).deschedulePending = false then
    .error <| "SW_CONTEXT_CLASS::ContextSwitchCompleted called when software context is not " ++
      "being descheduled"
  else
    match (s.swcs swc).hwc with
    | none => .error "ASIM_HWC_NONE"
    | some hwc => do
        let s := s.setSwc swc .descheduled
        let s ← if (s.swcs swc).deletePending then s.removeSoftwareContext maxNumSwcs swc else .ok s
        s.reschedule maxNumSwcs hwc

def initiateContextSwitch (swc : Nat) : ContextScheduler :=
  let s := if (s.swcs swc).contextSwitchState = .none then s else s.warn initiateWarning
  s.setSwc swc fun c =>
    { c with contextSwitchState := .requested, history := .requested :: c.history }

def intervalTimer (hwc : Nat) : Except String ContextScheduler :=
  match (s.hwcs hwc).swc with
  | none => .error "ASIM_SWC_NONE"
  | some oldSWC =>
      if (s.swcs oldSWC).deschedulePending then .ok s
      else (s.initiateContextSwitch oldSWC).startDeschedule oldSWC

/-- The loop of `Clock` over the hardware contexts. -/
def clockLoop (reschedule : Bool) : List Nat → ContextScheduler → Except String ContextScheduler
  | [], s => .ok s
  | hwc :: rest, s => do
      let s ← if (s.hwcs hwc).swc ≠ none ∧ reschedule then s.intervalTimer hwc else .ok s
      clockLoop reschedule rest s

/-- `INTERVAL_TIMER` is a parameter, and 0 turns it off. -/
def clock (intervalTimer cycle : UInt64) : Except String ContextScheduler :=
  clockLoop (intervalTimer ≠ 0 ∧ cycle % intervalTimer = 0 ∧ cycle ≠ 0) s.hwContextList s

/-- Before the first software context. -/
structure Fresh : Prop where
  swContextList : ∀ i, s.swContextList i = none
  nextSWCToTry : s.nextSWCToTry = 0
  swcs : ∀ swc, s.swcs swc = .new
  hwcs : ∀ hwc, (s.hwcs hwc).swc = none
  priority : ∀ hwc ∈ s.hwContextList, Int32.minValue < (s.hwcs hwc).priority
  warnings : s.warnings = []

end ContextScheduler

end AsimFeeder.Sched
