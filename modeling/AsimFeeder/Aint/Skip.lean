/-
Skipping instructions (`FEED_Skip`, `aintint.cpp`).

Where the threads go on is collected once, for the threads that are active then.  Rounds over
the threads that were asked for follow: each of them that is in `thread_mask` executes one
instruction.  The number of instructions and the request to stop are looked at between the
rounds, together with `thread_active_mask`, the threads that a begin made active and no end
has taken back.  An instruction can begin threads, end them, block its own and unblock others.
-/
import Mathlib

namespace AsimFeeder.Aint.Skip

/-- What an instruction asks of the performance model (`pmint_thread_*`). -/
inductive ThreadCall
  | threadBegin (tid : Nat) (vpc : UInt64) (running : Bool)
  | threadEnd (tid : Nat)
  | threadBlock (tid : Nat)
  | threadUnblock (tid : Nat)
  | endSkipping
deriving DecidableEq

/-- The call blocks a thread. -/
def ThreadCall.blocks : ThreadCall → Bool
  | .threadBlock _ => true
  | _ => false

/--
What is executed.  `exec` is one instruction of a thread at an address: it gives the address
of the next one and the calls it makes.  `isSet` looks for a marker of an instruction, and
`shadow` says that thread 1 is the verifier's or the oracle's.
-/
structure Machine (E : Type) where
  exec : E → (tid : Nat) → (pc : UInt64) → E × UInt64 × List ThreadCall
  isSet : E → (tid markerID : Nat) → (pc : UInt64) → Bool
  shadow : Bool

/-- The threads, by their numbers; `started` says that `instid` is not negative, and `cbifNext` is
the `nextpc` of the instruction at `instid`. -/
structure Threads (E : Type) where
  env : E
  threadMask : Finset Nat
  threadActiveMask : Finset Nat
  started : Nat → Bool
  cbifNext : Nat → UInt64
  startVirtualPc : Nat → UInt64
  virtualPc : Nat → UInt64
  stopSkipping : Bool

/-- The arguments; a marker is one that is not negative. -/
structure Params where
  thread : Option Nat
  maxNthreads : Nat
  n : UInt64
  markerID : Option Nat

def Params.tids (p : Params) : List Nat :=
  match p.thread with
  | some tid => [tid]
  | none => List.range p.maxNthreads

def Params.limit (p : Params) : UInt64 :=
  if p.n = 0 then 0xffffffffffffffff else p.n

/-- Where `FEED_Skip` is: at the head of its loop, in a round before the turns of some threads,
or behind the loop. -/
inductive Place
  | head
  | turns (tids : List Nat)
  | returned
  | stopped (message : String)
deriving DecidableEq

structure SkipState (E : Type) extends Threads E where
  nextpc : Nat → UInt64
  instructions : UInt64
  place : Place

variable {E : Type} (m : Machine E) (p : Params)

def pmint_thread_begin (a : Threads E) (tid : Nat) (vpc : UInt64) (running : Bool) : Threads E :=
  if m.shadow = true ∧ tid = 1 then a
  else { a with
    threadMask := insert tid a.threadMask
    threadActiveMask := if running then insert tid a.threadActiveMask else a.threadActiveMask
    started := Function.update a.started tid false
    startVirtualPc := Function.update a.startVirtualPc tid vpc }

def pmint_thread_end (a : Threads E) (tid : Nat) : Threads E :=
  if m.shadow = true ∧ tid = 1 then a
  else { a with
    threadMask := a.threadMask.erase tid
    threadActiveMask := a.threadActiveMask.erase tid }

/-- `pmint_thread_block` asserts that an Asim instruction is being issued, and while instructions
are skipped there is none. -/
def threadCall (a : Threads E) : ThreadCall → Except String (Threads E)
  | .threadBegin tid vpc running => .ok (pmint_thread_begin m a tid vpc running)
  | .threadEnd tid => .ok (pmint_thread_end m a tid)
  | .threadBlock _ => .error "inst"
  | .threadUnblock tid => .ok { a with threadMask := insert tid a.threadMask }
  | .endSkipping => .ok { a with stopSkipping := true }

/-- The threads that are printed at the start and at the end. -/
def Threads.asked (a : Threads E) (tid : Nat) : Prop := tid ∈ p.tids ∧ tid ∈ a.threadActiveMask

instance (a : Threads E) (tid : Nat) : Decidable (a.asked p tid) :=
  inferInstanceAs (Decidable (_ ∧ _))

/-- Where a thread goes on. -/
def Threads.resume (a : Threads E) (tid : Nat) : UInt64 :=
  if a.started tid then a.cbifNext tid else a.startVirtualPc tid

/-- Determine the starting pc for each thread; `nextpc` is not initialised for the others. -/
def start (a : Threads E) (nextpc : Nat → UInt64) : SkipState E :=
  { a with
    started := fun tid => if a.asked p tid then true else a.started tid
    stopSkipping := false
    nextpc := fun tid => if a.asked p tid then a.resume tid else nextpc tid
    instructions := 0
    place := .head }

/-- One instruction of a thread. -/
def turn (s : SkipState E) (tid : Nat) (rest : List Nat) : SkipState E :=
  let (env, next, calls) := m.exec s.env tid (s.nextpc tid)
  match calls.foldlM (threadCall m) { s.toThreads with env := env } with
  | .error message => { s with place := .stopped message }
  | .ok a =>
    { a with
      started := Function.update a.started tid true
      cbifNext := Function.update a.cbifNext tid next
      -- stop if we hit a marker
      stopSkipping := a.stopSkipping || p.markerID.any fun id => m.isSet env tid id next
      nextpc := Function.update s.nextpc tid next
      instructions := s.instructions + 1
      place := .turns rest }

/-- Set the pc to continue at. -/
def fixup (s : SkipState E) : SkipState E :=
  { s with
    virtualPc := fun tid => if s.asked p tid then s.nextpc tid else s.virtualPc tid
    place := .returned }

/-- The test of the loop. -/
def SkipState.goesOn (s : SkipState E) : Prop :=
  s.threadActiveMask.Nonempty ∧ s.instructions < p.limit ∧ s.stopSkipping = false

instance (s : SkipState E) : Decidable (s.goesOn p) := inferInstanceAs (Decidable (_ ∧ _ ∧ _))

def step (s : SkipState E) : SkipState E :=
  match s.place with
  | .head => if s.goesOn p then { s with place := .turns p.tids } else fixup p s
  | .turns [] => { s with place := .head }
  | .turns (tid :: rest) =>
      if tid ∈ s.threadMask then turn m p s tid rest else { s with place := .turns rest }
  | .returned => s
  | .stopped _ => s

/-! ### What is watched -/

/-- An instruction that was executed, and the address that was due. -/
structure Executed where
  tid : Nat
  pc : UInt64
  due : UInt64
deriving DecidableEq

/--
A call under way.  `due` is the address that a thread's previous instruction named as next, or
its start address.  The threads in `known` were active when the addresses were collected, and
no thread was begun with their number since.
-/
structure Run (E : Type) where
  state : SkipState E
  due : Nat → UInt64
  known : Finset Nat
  executed : List Executed

def watchCall (w : (Nat → UInt64) × Finset Nat) : ThreadCall → (Nat → UInt64) × Finset Nat
  | .threadBegin tid vpc _ =>
      if m.shadow = true ∧ tid = 1 then w else (Function.update w.1 tid vpc, w.2.erase tid)
  | _ => w

def Run.start (a : Threads E) (nextpc : Nat → UInt64) : Run E where
  state := Skip.start p a nextpc
  due := a.resume
  known := a.threadActiveMask.filter (· ∈ p.tids)
  executed := []

def Run.turn (r : Run E) (tid : Nat) : Run E :=
  let (_, next, calls) := m.exec r.state.env tid (r.state.nextpc tid)
  let w := calls.foldl (watchCall m) (r.due, r.known)
  { state := step m p r.state
    due := Function.update w.1 tid next
    known := w.2
    executed := r.executed ++ [⟨tid, r.state.nextpc tid, r.due tid⟩] }

def Run.step (r : Run E) : Run E :=
  match r.state.place with
  | .turns (tid :: _) =>
      if tid ∈ r.state.threadMask then r.turn m p tid else { r with state := Skip.step m p r.state }
  | _ => { r with state := Skip.step m p r.state }

end AsimFeeder.Aint.Skip
