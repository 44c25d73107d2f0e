/-
Tables that are searched by key, and queues that leave holes.

A registry only grows.  An entry is found by the first one with its key, so a key that is
registered twice is still one entry.

A queue takes the first of its elements and leaves a hole where it was.  What counts are
the elements that are left, in their order.
-/
import Mathlib

namespace AsimFeeder.Lib

variable {κ α : Type} [DecidableEq κ]

abbrev Registry (κ α : Type) := List (κ × α)

namespace Registry

def get (r : Registry κ α) (k : κ) : Option α :=
  (r.find? fun e => e.1 = k).map Prod.snd

/-- The entry of `k` becomes `a`. -/
def set (k : κ) (a : α) : Registry κ α → Registry κ α
  | [] => []
  | e :: r => if e.1 = k then (k, a) :: r else e :: set k a r

variable {r : Registry κ α} {k k' : κ} {a b : α}

theorem get_cons (e : κ × α) (r : Registry κ α) (k : κ) :
    get (e :: r) k = if e.1 = k then some e.2 else get r k := by
  unfold get
  rw [List.find?_cons]
  by_cases h : e.1 = k
  · simp [h]
  · simp [h]

theorem get_set_self (h : get r k = some b) : get (set k a r) k = some a := by
  induction r with
  | nil => cases h
  | cons e r ih =>
      rw [get_cons] at h
      unfold set
      by_cases hkey : e.1 = k
      · rw [if_pos hkey, get_cons, if_pos rfl]
      · rw [if_neg hkey] at h
        rw [if_neg hkey, get_cons, if_neg hkey]
        exact ih h

theorem get_set_of_ne (hne : k' ≠ k) : get (set k a r) k' = get r k' := by
  induction r with
  | nil => rfl
  | cons e r ih =>
      unfold set
      by_cases hkey : e.1 = k
      · rw [if_pos hkey, get_cons, get_cons, if_neg (Ne.symm hne), if_neg (hkey ▸ Ne.symm hne)]
      · rw [if_neg hkey, get_cons, get_cons, ih]

/-- Who is registered stays registered. -/
theorem isSome_get_set : (get (set k a r) k').isSome = (get r k').isSome := by
  by_cases hkey : k' = k
  · subst hkey
    cases h : get r k' with
    | some b => rw [get_set_self h]; rfl
    | none =>
        rw [Option.isSome_none, Option.isSome_eq_false_iff, Option.isNone_iff_eq_none]
        induction r with
        | nil => rfl
        | cons e r ih =>
            rw [get_cons] at h
            by_cases he : e.1 = k'
            · rw [if_pos he] at h
              cases h
            · rw [if_neg he] at h
              rw [set, if_neg he, get_cons, if_neg he]
              exact ih h
  · rw [get_set_of_ne hkey]

theorem get_mem (h : get r k = some a) : (k, a) ∈ r := by
  unfold get at h
  obtain ⟨e, he, rfl⟩ := Option.map_eq_some_iff.mp h
  have hkey := List.find?_some he
  rw [decide_eq_true_eq] at hkey
  rw [← hkey]
  exact List.mem_of_find?_eq_some he

end Registry

/-! ### Queues with holes -/

abbrev HoleQueue (α : Type) := List (Option α)

namespace HoleQueue

/-- What is left. -/
def live (q : HoleQueue α) : List α := q.filterMap id

/-- The first element that is left, and the queue with a hole where it was. -/
def pick : HoleQueue α → Option α × HoleQueue α
  | [] => (none, [])
  | some a :: q => (some a, none :: q)
  | none :: q => ((pick q).1, none :: (pick q).2)

omit [DecidableEq κ] in
@[simp] theorem live_append (q : HoleQueue α) (a : α) : live (q ++ [some a]) = live q ++ [a] := by
  unfold live
  rw [List.filterMap_append]
  rfl

/-- **The queue is first in, first out.** -/
theorem pick_live (q : HoleQueue α) :
    (pick q).1 = (live q).head? ∧ live (pick q).2 = (live q).tail := by
  induction q with
  | nil => exact ⟨rfl, rfl⟩
  | cons a q ih =>
      cases a with
      | some a => exact ⟨rfl, rfl⟩
      | none => exact ih

end HoleQueue

end AsimFeeder.Lib
