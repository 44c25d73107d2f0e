/-
Runs of a transition system, and what holds all along them.

A program is a set of start states and a step relation.  Every safety statement of
this development is an instance of `Reaches.invariant`: a property of the start
states that every step preserves holds of every state a run can reach.
-/
import Mathlib

namespace AsimFeeder.Lib

variable {σ : Type*}

/-- The states some run reaches from a start state. -/
inductive Reaches (start : σ → Prop) (step : σ → σ → Prop) : σ → Prop
  | start {s : σ} (hs : start s) : Reaches start step s
  | step {s t : σ} (hs : Reaches start step s) (hst : step s t) : Reaches start step t

variable {start : σ → Prop} {step : σ → σ → Prop}

/-- **What starts true and is preserved by every step is true all along a run.** -/
theorem Reaches.invariant {P : σ → Prop} (h0 : ∀ s, start s → P s)
    (hstep : ∀ s t, P s → step s t → P t) {s : σ} (h : Reaches start step s) : P s := by
  induction h with
  | start hs => exact h0 _ hs
  | step _ hst ih => exact hstep _ _ ih hst

/-- A run goes on from a state that a run has reached. -/
theorem Reaches.trans {s t : σ} (h : Reaches start step s) (h' : Reaches (· = s) step t) :
    Reaches start step t := by
  induction h' with
  | start hs => exact hs ▸ h
  | step _ hst ih => exact ih.step hst

/-! ### Runs that are given by their events -/

section Events

variable {ε : Type*}

/-- The state after the events `es`, if each can happen where it comes and passes `ok`. -/
def after (exec : σ → ε → Option σ) (ok : σ → ε → Bool) : List ε → σ → Option σ
  | [], s => some s
  | e :: es, s => if ok s e then (exec s e).bind (after exec ok es) else none

theorem Reaches.after {exec : σ → ε → Option σ} {ok : σ → ε → Bool}
    (hstep : ∀ s e t, ok s e = true → exec s e = some t → step s t) {es : List ε} {s t : σ}
    (hs : Reaches start step s) (h : after exec ok es s = some t) : Reaches start step t := by
  induction es generalizing s with
  | nil =>
      cases h
      exact hs
  | cons e es ih =>
      rw [Lib.after] at h
      by_cases hok : ok s e = true
      · rw [if_pos hok] at h
        cases hexec : exec s e with
        | none => rw [hexec] at h; cases h
        | some u =>
            rw [hexec] at h
            exact ih (hs.step (hstep s e u hok hexec)) h
      · rw [if_neg hok] at h
        cases h

end Events

end AsimFeeder.Lib
