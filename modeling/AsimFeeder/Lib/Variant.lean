/-
Programs that take one step after the other until they are done.

A deterministic program is its step function, and its run from a state the iterates of that
function.  A run gets to where it is done if it comes back, again and again, to places where
something has become smaller.
-/
import Mathlib

namespace AsimFeeder.Lib

variable {σ : Type*} {step : σ → σ} {P Done : σ → Prop} {s : σ}

theorem iterate_add_apply (step : σ → σ) (j k : Nat) (s : σ) :
    step^[j + k] s = step^[k] (step^[j] s) := by
  rw [Nat.add_comm, Function.iterate_add_apply]

/-- What holds all along a run holds all along the rest of it. -/
theorem iterate_rest (h : ∀ k, P (step^[k] s)) (j k : Nat) : P (step^[k] (step^[j] s)) := by
  rw [← iterate_add_apply]
  exact h (j + k)

theorem iterate_tail (h : ∀ k, P (step^[k] s)) (k : Nat) : P (step^[k] (step s)) := by
  rw [← Function.iterate_succ_apply]
  exact h (k + 1)

end AsimFeeder.Lib
