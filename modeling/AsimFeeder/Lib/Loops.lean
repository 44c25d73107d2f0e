/-
Loops that go through a list and may stop the program.

What a loop has done is a set of places.  If a round of the loop never stops the program
and adds some places to it, the loop does not either and adds the places of all its rounds.
A loop of loops is covered by using the rule twice.
-/
import Mathlib

namespace AsimFeeder.Lib

variable {σ α ι : Type} {step : σ → α → Option σ} {Done : Set ι → σ → Prop} {places : α → Set ι}

/-- The places of all rounds. -/
def allPlaces (places : α → Set ι) (l : List α) : Set ι := {i | ∃ a ∈ l, i ∈ places a}

theorem allPlaces_nil : allPlaces places [] = ∅ := by
  ext i
  simp [allPlaces]

theorem allPlaces_cons (a : α) (l : List α) :
    allPlaces places (a :: l) = places a ∪ allPlaces places l := by
  ext i
  simp [allPlaces]

variable (Done places) in
/-- **A loop does what its rounds do.** -/
theorem foldlM_done {l : List α} {D : Set ι} {s : σ}
    (hround : ∀ a ∈ l, ∀ D s, Done D s → ∃ t, step s a = some t ∧ Done (D ∪ places a) t)
    (hs : Done D s) : ∃ t, l.foldlM step s = some t ∧ Done (D ∪ allPlaces places l) t := by
  induction l generalizing D s with
  | nil =>
      refine ⟨s, rfl, ?_⟩
      rw [allPlaces_nil, Set.union_empty]
      exact hs
  | cons a l ih =>
      obtain ⟨t, hstep, ht⟩ := hround a List.mem_cons_self D s hs
      obtain ⟨u, hfold, hu⟩ := ih (fun b hb => hround b (List.mem_cons_of_mem a hb)) ht
      refine ⟨u, ?_, ?_⟩
      · rw [List.foldlM_cons, hstep]
        exact hfold
      · rw [allPlaces_cons, ← Set.union_assoc]
        exact hu

end AsimFeeder.Lib
