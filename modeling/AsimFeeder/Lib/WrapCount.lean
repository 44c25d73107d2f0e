/-
Numbers of consecutive items, from a counter that wraps.

Item `k` has the number `k % m`.  Fewer than `m` items in a row have different numbers, and
the smallest of them is that of the first, unless one of them has the number 0: then the
counter wrapped on the way, and the smallest is 0.
-/
import Mathlib

namespace AsimFeeder.Lib

variable {m a n : Nat}

/-- The numbers of the `n` items from item `a` on. -/
def numbers (m a n : Nat) : List Nat := (List.range' a n).map (· % m)

theorem numbers_append (k : Nat) : numbers m a n ++ numbers m (a + n) k = numbers m a (n + k) := by
  rw [numbers, numbers, ← List.map_append, List.range'_append_1, numbers]

theorem mem_numbers {x : Nat} : x ∈ numbers m a n ↔ ∃ i < n, (a + i) % m = x := by
  rw [numbers, List.mem_map]
  constructor
  · rintro ⟨k, hk, rfl⟩
    rw [List.mem_range'_1] at hk
    exact ⟨k - a, by omega, by rw [Nat.add_sub_cancel' hk.1]⟩
  · rintro ⟨i, hi, rfl⟩
    exact ⟨a + i, List.mem_range'_1.mpr ⟨Nat.le_add_right a i, by omega⟩, rfl⟩

theorem getLast?_numbers (hn : 0 < n) :
    (numbers m a n).getLast? = some ((a + (n - 1)) % m) := by
  rw [numbers, List.getLast?_map, List.getLast?_range', if_neg (by omega),
    Nat.add_sub_assoc hn]
  rfl

theorem mod_ne_of_lt {i j : Nat} (hij : i < j) (hj : j < m + i) : i % m ≠ j % m := by
  intro h
  have hdvd : m ∣ j - i := (Nat.modEq_iff_dvd' (le_of_lt hij)).mp h
  have hle := Nat.le_of_dvd (by omega) hdvd
  omega

/-- **At most `m` items in a row have different numbers.** -/
theorem nodup_numbers (h : n ≤ m) : (numbers m a n).Nodup := by
  refine List.Nodup.map_on ?_ List.nodup_range'
  intro i hi j hj hij
  rw [List.mem_range'_1] at hi hj
  by_contra hne
  rcases Nat.lt_or_gt_of_ne hne with hlt | hlt
  · exact mod_ne_of_lt hlt (by omega) hij
  · exact mod_ne_of_lt hlt (by omega) hij.symm

/-- As long as the counter does not wrap, the numbers go up. -/
theorem mod_add_of_ne_zero {i : Nat} (h : ∀ j, 0 < j → j ≤ i → (a + j) % m ≠ 0) :
    (a + i) % m = a % m + i := by
  induction i with
  | zero => rfl
  | succ i ih =>
      have hprev := ih fun j hpos hj => h j hpos (by omega)
      have hne := h (i + 1) (by omega) le_rfl
      rw [← Nat.add_assoc] at hne ⊢
      rw [Nat.add_mod_eq_ite] at hne ⊢
      rcases Nat.lt_or_ge 1 m with hm | hm
      · rw [Nat.mod_eq_of_lt hm] at hne ⊢
        have hlt := Nat.mod_lt (a + i) (show 0 < m by omega)
        split at hne
        · omega
        · rw [if_neg ‹_›]
          omega
      · interval_cases m
        · simp at hprev ⊢
          omega
        · simp [Nat.mod_one] at hne

/-- **The smallest number is that of the first item, or 0.** -/
theorem min?_numbers (hn : 0 < n) :
    (numbers m a n).min? = if 0 ∈ numbers m a n then some 0 else some (a % m) := by
  split
  · exact List.min?_eq_some_iff.mpr ⟨‹_›, fun _ _ => Nat.zero_le _⟩
  · rename_i hzero
    refine List.min?_eq_some_iff.mpr ⟨mem_numbers.mpr ⟨0, hn, rfl⟩, ?_⟩
    intro x hx
    obtain ⟨i, hi, rfl⟩ := mem_numbers.mp hx
    have hup : (a + i) % m = a % m + i := by
      refine mod_add_of_ne_zero fun j _ hj hj0 => hzero ?_
      exact mem_numbers.mpr ⟨j, by omega, hj0⟩
    omega

end AsimFeeder.Lib
