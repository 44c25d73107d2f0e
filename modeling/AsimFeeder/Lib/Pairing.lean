/-
A pairing that is kept in two tables.

Each side records its partner, so each of the tables is the other one turned round.
Nothing can have two partners then; and what is left to show of an operation is that it
changes both tables in the same way.
-/
import Mathlib

namespace AsimFeeder.Lib

variable {α β : Type*}

/-- Each table is the other one turned round. -/
def Mirror (f : α → Option β) (g : β → Option α) : Prop :=
  ∀ a b, f a = some b ↔ g b = some a

namespace Mirror

variable {f : α → Option β} {g : β → Option α} {a a' : α} {b : β}

theorem symm (h : Mirror f g) : Mirror g f := fun b a => (h a b).symm

/-- No two have the same partner. -/
theorem unique (h : Mirror f g) (ha : f a = some b) (ha' : f a' = some b) : a = a' := by
  have hb := (h a b).mp ha
  have hb' := (h a' b).mp ha'
  exact Option.some.inj (hb.symm.trans hb')

variable [DecidableEq α] [DecidableEq β]

/-- Two that have no partner become partners. -/
theorem link (h : Mirror f g) (ha : f a = none) (hb : g b = none) :
    Mirror (Function.update f a (some b)) (Function.update g b (some a)) := by
  intro x y
  by_cases hx : x = a
  · by_cases hy : y = b
    · simp [hx, hy]
    · have hnot : g y ≠ some a := by
        rw [ne_eq, ← h a y, ha]
        simp
      simp [hx, hy, hnot, Ne.symm hy]
  · by_cases hy : y = b
    · have hnot : f x ≠ some b := by
        rw [ne_eq, h x b, hb]
        simp
      simp [hx, hy, hnot, Ne.symm hx]
    · simp [hx, hy, h x y]

/-- Two partners part. -/
theorem unlink (h : Mirror f g) (ha : f a = some b) :
    Mirror (Function.update f a none) (Function.update g b none) := by
  intro x y
  by_cases hx : x = a
  · by_cases hy : y = b
    · simp [hx, hy]
    · have hnot : g y ≠ some a := by
        intro hy'
        exact hy (h.symm.unique hy' ((h a b).mp ha))
      simp [hx, hy, hnot]
  · by_cases hy : y = b
    · have hnot : f x ≠ some b := fun hx' => hx (h.unique hx' ha)
      simp [hx, hy, hnot]
    · simp [hx, hy, h x y]

end Mirror

end AsimFeeder.Lib
