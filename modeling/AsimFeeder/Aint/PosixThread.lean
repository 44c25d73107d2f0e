/-
The mutexes and the conditions of simulated threads.

A mutex and a condition are found by the physical address of the program's own object.
Each has a list of threads that wait for it, from which the first is picked and which keeps
a hole where a thread was.  A mutex has an owner too, and one that is unlocked still names
its last one.

An instruction that returns itself is issued again, unless its thread was blocked: a thread
that is unblocked goes on after the instruction that blocked it.
-/
import AsimFeeder.Lib.Registry

namespace AsimFeeder.Aint.PosixThread

open Lib

inductive PosixMutexState
  | POSIX_MUTEX_UNINITIALIZED
  | POSIX_MUTEX_UNLOCKED
  | POSIX_MUTEX_LOCKED
  deriving DecidableEq, Repr

inductive PosixConditionState
  | POSIX_CONDITION_UNINITIALIZED
  | POSIX_CONDITION_UNSIGNALLED
  | POSIX_CONDITION_SIGNALLED
  | POSIX_CONDITION_BROADCASTED
  deriving DecidableEq, Repr

structure PosixMutexResource where
  state : PosixMutexState
  owner_thread : Option Nat
  waiting_threads : HoleQueue Nat
  deriving DecidableEq, Repr

/-- A condition on which nobody waited yet has no mutex. -/
structure PosixConditionResource (K : Type) where
  state : PosixConditionState
  mutex_key : Option K
  waiting_threads : HoleQueue Nat
  deriving DecidableEq, Repr

/-- The mutexes, the conditions, and which threads are blocked. -/
structure Posix (K : Type) where
  mutexes : Registry K PosixMutexResource
  conditions : Registry K (PosixConditionResource K)
  blocked : Nat → Bool

/-- What an instruction returns: itself, or the one after it. -/
inductive Next
  | picode
  | next
  deriving DecidableEq, Repr

namespace Posix

variable {K : Type} [DecidableEq K] (s : Posix K)

def setMutex (key : K) (r : PosixMutexResource) : Posix K :=
  { s with mutexes := s.mutexes.set key r }

def setCondition (cond_key : K) (r : PosixConditionResource K) : Posix K :=
  { s with conditions := s.conditions.set cond_key r }

def pmint_thread_block (tid : Nat) : Posix K :=
  { s with blocked := Function.update s.blocked tid true }

def pmint_thread_unblock (tid : Nat) : Posix K :=
  { s with blocked := Function.update s.blocked tid false }

omit [DecidableEq K] in
variable {s} in
theorem blocked_block (tid u : Nat) :
    (s.pmint_thread_block tid).blocked u = if u = tid then true else s.blocked u :=
  Function.update_apply s.blocked tid true u

omit [DecidableEq K] in
variable {s} in
theorem blocked_unblock (tid u : Nat) :
    (s.pmint_thread_unblock tid).blocked u = if u = tid then false else s.blocked u :=
  Function.update_apply s.blocked tid false u

/-! ### Mutexes -/

def is_posix_mutex_locked (key : K) : Option Bool :=
  (s.mutexes.get key).map fun r => decide (r.state = .POSIX_MUTEX_LOCKED)

def posix_mutex_lock (key : K) (owner : Nat) : Option (Posix K) :=
  (s.mutexes.get key).bind fun r =>
    if r.state = .POSIX_MUTEX_UNLOCKED then
      some (s.setMutex key { r with state := .POSIX_MUTEX_LOCKED, owner_thread := some owner })
    else none

def posix_mutex_unlock (key : K) (unlocker : Nat) : Option (Posix K) :=
  (s.mutexes.get key).bind fun r =>
    if r.state = .POSIX_MUTEX_LOCKED ∧ r.owner_thread = some unlocker then
      some (s.setMutex key { r with state := .POSIX_MUTEX_UNLOCKED })
    else none

def posix_mutex_add_waiting_thread (key : K) (waiter : Nat) : Option (Posix K) :=
  (s.mutexes.get key).bind fun r =>
    if r.state = .POSIX_MUTEX_LOCKED then
      some (s.setMutex key { r with waiting_threads := r.waiting_threads ++ [some waiter] })
    else none

def posix_mutex_get_next_waiting_thread (key : K) : Option (Option Nat × Posix K) :=
  (s.mutexes.get key).map fun r =>
    (r.waiting_threads.pick.1,
      s.setMutex key { r with waiting_threads := r.waiting_threads.pick.2 })

/-! ### Conditions -/

def posix_condition_add_waiting_thread (cond_key mutex_key : K) (waiter : Nat) :
    Option (Posix K) :=
  (s.conditions.get cond_key).map fun r =>
    s.setCondition cond_key
      { state := .POSIX_CONDITION_UNSIGNALLED
        mutex_key := some mutex_key
        waiting_threads := r.waiting_threads ++ [some waiter] }

def posix_condition_get_mutex_key (cond_key : K) : Option (Option K) :=
  (s.conditions.get cond_key).map fun r => r.mutex_key

def posix_condition_get_next_waiting_thread (cond_key : K) : Option (Option Nat × Posix K) :=
  (s.conditions.get cond_key).map fun r =>
    (r.waiting_threads.pick.1,
      s.setCondition cond_key { r with waiting_threads := r.waiting_threads.pick.2 })

def posix_condition_signalled (cond_key : K) : Option (Posix K) :=
  (s.conditions.get cond_key).map fun r =>
    s.setCondition cond_key { r with state := .POSIX_CONDITION_SIGNALLED }

def posix_condition_broadcasted (cond_key : K) : Option (Posix K) :=
  (s.conditions.get cond_key).map fun r =>
    s.setCondition cond_key { r with state := .POSIX_CONDITION_BROADCASTED }

/-! ### The instructions -/

/-- What unlocking a mutex and waiting for a condition have in common: the mutex is
unlocked, and the next thread that waits for it is granted it and woken up. -/
def unlockAndGrant (mutex_paddr : K) (unlocker : Nat) : Option (Posix K) :=
  (s.posix_mutex_unlock mutex_paddr unlocker).bind fun s =>
    (s.posix_mutex_get_next_waiting_thread mutex_paddr).bind fun next =>
      match next.1 with
      | some waiter =>
          (next.2.posix_mutex_lock mutex_paddr waiter).map fun s => s.pmint_thread_unblock waiter
      | none => some next.2

/-- What a broadcast and a signal have in common: the waiter tries to lock the mutex, and
waits for it if it is locked.  The second component says that it was. -/
def tryMutex (mutex_paddr : K) (waiter : Nat) : Option (Posix K × Bool) :=
  (s.is_posix_mutex_locked mutex_paddr).bind fun locked =>
    if locked then
      (s.posix_mutex_add_waiting_thread mutex_paddr waiter).map fun s => (s, true)
    else
      (s.posix_mutex_lock mutex_paddr waiter).map fun s => (s.pmint_thread_unblock waiter, false)

def aint_pthread_mutex_lock (tid : Nat) (paddr : K) : Option (Posix K × Next) :=
  (s.is_posix_mutex_locked paddr).bind fun locked =>
    if locked then
      ((s.pmint_thread_block tid).posix_mutex_add_waiting_thread paddr tid).map fun s =>
        (s, .picode)
    else (s.posix_mutex_lock paddr tid).map fun s => (s, .next)

def aint_pthread_mutex_unlock (tid : Nat) (paddr : K) : Option (Posix K × Next) :=
  (s.is_posix_mutex_locked paddr).bind fun locked =>
    if locked then (s.unlockAndGrant paddr tid).map fun s => (s, .next) else none

def aint_pthread_condition_wait (tid : Nat) (cond_paddr mutex_paddr : K) :
    Option (Posix K × Next) :=
  (s.is_posix_mutex_locked mutex_paddr).bind fun locked =>
    if locked then
      (s.unlockAndGrant mutex_paddr tid).bind fun s =>
        ((s.pmint_thread_block tid).posix_condition_add_waiting_thread cond_paddr mutex_paddr
          tid).map fun s => (s, .picode)
    else none

/-- The loop over the threads that wait for a condition, `n` times at most. -/
def broadcastLoop (cond_paddr : K) (mutex_paddr : Option K) : Nat → Posix K → Option (Posix K)
  | 0, _ => none
  | n + 1, s =>
      (s.posix_condition_get_next_waiting_thread cond_paddr).bind fun next =>
        match next.1 with
        | some waiter =>
            mutex_paddr.bind fun key =>
              (next.2.tryMutex key waiter).bind fun tried =>
                broadcastLoop cond_paddr mutex_paddr n tried.1
        | none => some next.2

/-- Each round makes a hole in the list of the condition, so there is a last one. -/
def rounds (cond_paddr : K) : Nat :=
  ((s.conditions.get cond_paddr).elim 0 fun r => r.waiting_threads.length) + 1

def aint_pthread_condition_broadcast (cond_paddr : K) : Option (Posix K × Next) :=
  (s.posix_condition_get_mutex_key cond_paddr).bind fun mutex_paddr =>
    (s.posix_condition_broadcasted cond_paddr).bind fun s =>
      (broadcastLoop cond_paddr mutex_paddr (s.rounds cond_paddr) s).map fun s => (s, .next)

def aint_pthread_condition_signal (cond_paddr : K) : Option (Posix K × Next) :=
  (s.posix_condition_get_mutex_key cond_paddr).bind fun mutex_paddr =>
    (s.posix_condition_signalled cond_paddr).bind fun s =>
      (s.posix_condition_get_next_waiting_thread cond_paddr).bind fun next =>
        match next.1 with
        | some waiter =>
            mutex_paddr.bind fun key =>
              (next.2.tryMutex key waiter).map fun tried =>
                -- unlike a broadcast, a signal that finds the mutex locked returns itself
                (tried.1, if tried.2 then .picode else .next)
        | none => some (next.2, .next)

end Posix

end AsimFeeder.Aint.PosixThread
