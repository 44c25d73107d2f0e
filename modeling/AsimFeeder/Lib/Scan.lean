/-
Choosing the newest of a list of stamped candidates.

A scan keeps the best candidate so far and replaces it by a hit with a larger stamp.
Candidates that are no hits do not matter to it, wherever they stand.  When the list has
its newest candidate first, the scan is a search for the first hit.
-/
import Mathlib

namespace AsimFeeder.Lib

variable {α β : Type*} (hit : α → Bool) (stamp : α → Nat) (val : α → β)

/-- The stamp and the value of the newest hit in the list, from those known before. -/
def scan : List α → Nat × β → Nat × β
  | [], best => best
  | a :: l, best => scan l (if hit a ∧ best.1 < stamp a then (stamp a, val a) else best)

variable {hit stamp val}

/-- A candidate that is no hit does not matter. -/
theorem scan_filter {keep : α → Bool} {l : List α} (h : ∀ a ∈ l, keep a = false → hit a = false)
    (best : Nat × β) : scan hit stamp val (l.filter keep) best = scan hit stamp val l best := by
  induction l generalizing best with
  | nil => rfl
  | cons a l ih =>
      have hrest := ih fun b hb => h b (List.mem_cons_of_mem a hb)
      cases hk : keep a with
      | true => rw [List.filter_cons_of_pos hk, scan, scan, hrest]
      | false =>
          have ha := h a List.mem_cons_self hk
          rw [List.filter_cons_of_neg (by simp [hk]), scan, hrest, if_neg (by simp [ha])]

theorem scan_cons_of_not_hit {a : α} {l : List α} (h : hit a = false) (best : Nat × β) :
    scan hit stamp val (a :: l) best = scan hit stamp val l best := by
  rw [scan, if_neg (by simp [h])]

/-- The scan only reads the stamps of its hits. -/
theorem scan_congr {stamp' : α → Nat} {l : List α}
    (h : ∀ a ∈ l, hit a = true → stamp' a = stamp a) (best : Nat × β) :
    scan hit stamp' val l best = scan hit stamp val l best := by
  induction l generalizing best with
  | nil => rfl
  | cons a l ih =>
      have hrest := ih fun b hb => h b (List.mem_cons_of_mem a hb)
      by_cases ha : hit a = true
      · rw [scan, scan, h a List.mem_cons_self ha, hrest]
      · rw [scan, scan, if_neg (fun hb => ha hb.1), if_neg (fun hb => ha hb.1), hrest]

private theorem scan_of_le {l : List α} {best : Nat × β} (h : ∀ a ∈ l, stamp a ≤ best.1) :
    scan hit stamp val l best = best := by
  induction l with
  | nil => rfl
  | cons a l ih =>
      have ha := h a List.mem_cons_self
      rw [scan, if_neg (by omega), ih fun b hb => h b (List.mem_cons_of_mem a hb)]

/-- **With the newest candidate first, the scan finds the first hit.** -/
theorem scan_of_sorted {l : List α} {best : Nat × β}
    (hsorted : l.Pairwise fun a b => stamp b < stamp a) (hbest : ∀ a ∈ l, best.1 < stamp a) :
    scan hit stamp val l best = ((l.find? hit).map fun a => (stamp a, val a)).getD best := by
  induction l with
  | nil => rfl
  | cons a l ih =>
      obtain ⟨hfirst, hrest⟩ := List.pairwise_cons.mp hsorted
      cases ha : hit a with
      | true =>
          rw [scan, if_pos ⟨ha, hbest a List.mem_cons_self⟩, List.find?_cons_of_pos ha]
          exact scan_of_le fun b hb => Nat.le_of_lt (hfirst b hb)
      | false =>
          rw [scan, if_neg (by simp [ha]), List.find?_cons_of_neg (by simp [ha])]
          exact ih hrest fun b hb => hbest b (List.mem_cons_of_mem a hb)

end AsimFeeder.Lib
