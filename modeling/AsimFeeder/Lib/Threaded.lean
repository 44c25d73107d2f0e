/-
Lists that are threaded through an array.

A free list needs no memory of its own: the free cells hold the links.  `Threaded link
head l` says that the links lead from `head` through the cells of `l` to `-1`.  Whatever
is written to other cells does not disturb it.
-/
import Mathlib

namespace AsimFeeder.Lib

variable {link link' : Nat → Int} {head : Int} {l l' : List Nat} {p : Nat}

/-- The links lead from `head` through the cells of `l` to the end. -/
def Threaded (link : Nat → Int) : Int → List Nat → Prop
  | head, [] => head = -1
  | head, p :: l => head = p ∧ Threaded link (link p) l

namespace Threaded

theorem head_eq (h : Threaded link head l) : head = -1 ↔ l = [] := by
  cases l with
  | nil => exact ⟨fun _ => rfl, fun _ => h⟩
  | cons p l =>
      obtain ⟨rfl, -⟩ := h
      constructor
      · intro hp
        omega
      · intro hnil
        cases hnil

/-- Only the links of its own cells matter. -/
theorem congr (h : Threaded link head l) (heq : ∀ p ∈ l, link' p = link p) :
    Threaded link' head l := by
  induction l generalizing head with
  | nil => exact h
  | cons p l ih =>
      obtain ⟨hp, hrest⟩ := h
      refine ⟨hp, ?_⟩
      rw [heq p List.mem_cons_self]
      exact ih hrest fun q hq => heq q (List.mem_cons_of_mem p hq)

/-- A cell that is not in the list is put in front of it. -/
theorem push (h : Threaded link head l) (hp : p ∉ l) :
    Threaded (Function.update link p head) p (p :: l) := by
  refine ⟨rfl, ?_⟩
  rw [Function.update_self]
  apply h.congr
  intro q hq
  rw [Function.update_of_ne]
  rintro rfl
  exact hp hq

/-- The head tells the list. -/
theorem unique (h : Threaded link head l) (h' : Threaded link head l') : l = l' := by
  induction l generalizing head l' with
  | nil => exact (h'.head_eq.mp h).symm
  | cons p l ih =>
      obtain ⟨rfl, hrest⟩ := h
      cases l' with
      | nil => exact absurd h'.symm (by simp)
      | cons q l' =>
          obtain ⟨hq, hrest'⟩ := h'
          obtain rfl : p = q := Int.ofNat_inj.mp hq
          rw [ih hrest hrest']

/-- A link leads to the end or to another cell. -/
theorem next (h : Threaded link head l) (hp : p ∈ l) : link p = -1 ∨ ∃ q ∈ l, link p = q := by
  induction l generalizing head with
  | nil => cases hp
  | cons r l ih =>
      obtain ⟨-, hrest⟩ := h
      rcases List.mem_cons.mp hp with rfl | hp
      · cases l with
        | nil => exact .inl hrest
        | cons q l => exact .inr ⟨q, by simp, hrest.1⟩
      · refine (ih hrest hp).imp_right fun ⟨q, hq, hnext⟩ => ?_
        exact ⟨q, List.mem_cons_of_mem r hq, hnext⟩

end Threaded

end AsimFeeder.Lib
