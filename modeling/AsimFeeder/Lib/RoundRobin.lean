/-
Looking for a hit round a circle.

The search starts at one place, steps to the next one modulo the size, and stops when it
is back where it started.  It misses nothing: it stops without a hit only when there is
none.
-/
import Mathlib

namespace AsimFeeder.Lib

variable (hit : Nat → Bool) (n : Nat)

/-- The first hit from `temp` on, or `n` when the search is back at `start`. -/
def searchFrom (start : Nat) : Nat → Nat → Nat
  | 0, _ => n
  | fuel + 1, temp =>
      if hit temp then temp
      else
        let temp := (temp + 1) % n
        if temp = start then n else searchFrom start fuel temp

variable {hit n} {start fuel temp : Nat}

theorem searchFrom_le (htemp : temp < n) :
    searchFrom hit n start fuel temp ≤ n := by
  induction fuel generalizing temp with
  | zero => exact le_refl n
  | succ fuel ih =>
      unfold searchFrom
      dsimp only
      split
      · exact htemp.le
      · split
        · exact le_refl n
        · exact ih (Nat.mod_lt _ (Nat.zero_lt_of_lt htemp))

theorem hit_searchFrom (h : searchFrom hit n start fuel temp < n) :
    hit (searchFrom hit n start fuel temp) = true := by
  induction fuel generalizing temp with
  | zero => exact absurd h (lt_irrefl n)
  | succ fuel ih =>
      unfold searchFrom at h ⊢
      by_cases htemp : hit temp = true
      · rw [if_pos htemp]
        exact htemp
      · rw [if_neg htemp] at h ⊢
        dsimp only at h ⊢
        split at h
        · exact absurd h (lt_irrefl n)
        · rename_i hback
          rw [if_neg hback]
          exact ih h

/-- What the search has stepped over is no hit. -/
theorem searchFrom_misses {k : Nat} (hk : k < n) (hfuel : n ≤ k + fuel) (hstart : start < n)
    (hmiss : searchFrom hit n start fuel ((start + k) % n) = n) {i : Nat} (hi : i < n)
    (hik : k ≤ i) : hit ((start + i) % n) = false := by
  induction fuel generalizing k with
  | zero => omega
  | succ fuel ih =>
      unfold searchFrom at hmiss
      by_cases hhit : hit ((start + k) % n) = true
      · rw [if_pos hhit] at hmiss
        have := Nat.mod_lt (start + k) (Nat.zero_lt_of_lt hk)
        omega
      · rw [if_neg hhit] at hmiss
        rw [Nat.mod_add_mod] at hmiss
        dsimp only at hmiss
        by_cases hik' : i = k
        · rw [hik']
          exact Bool.eq_false_iff.mpr hhit
        · split at hmiss
          · rename_i hback
            -- back at the start only after the whole circle
            have hwhole : k + 1 = n := by
              by_contra hne
              have hlt : k + 1 < n := by omega
              by_cases hwrap : start + (k + 1) < n
              · rw [Nat.add_assoc, Nat.mod_eq_of_lt hwrap] at hback
                omega
              · rw [Nat.add_assoc, Nat.mod_eq_sub_mod (by omega), Nat.mod_eq_of_lt (by omega)]
                  at hback
                omega
            omega
          · rw [Nat.add_assoc] at hmiss
            exact ih (k := k + 1) (by omega) (by omega) hmiss (by omega)

/-- **The search ends without a hit only when there is none.** -/
theorem no_hit_of_searchFrom (hstart : start < n)
    (hmiss : searchFrom hit n start n start = n) {i : Nat} (hi : i < n) : hit i = false := by
  have hmiss' : searchFrom hit n start n ((start + 0) % n) = n := by
    rw [Nat.add_zero, Nat.mod_eq_of_lt hstart]
    exact hmiss
  have hpos : 0 < n := Nat.zero_lt_of_lt hi
  by_cases hle : start ≤ i
  · have hat := searchFrom_misses hpos (by omega) hstart hmiss' (i := i - start) (by omega)
      (Nat.zero_le _)
    rwa [Nat.add_sub_cancel' hle, Nat.mod_eq_of_lt hi] at hat
  · have hat := searchFrom_misses hpos (by omega) hstart hmiss' (i := i + n - start) (by omega)
      (Nat.zero_le _)
    rwa [show start + (i + n - start) = i + n by omega, Nat.add_mod_right,
      Nat.mod_eq_of_lt hi] at hat

/-! ### How far it is -/

/-- How far it is from `start` to `i`, round the circle. -/
def gap (n start i : Nat) : Nat := (i + n - start) % n

variable {i k g : Nat}

theorem gap_lt (hi : i < n) : gap n start i < n := Nat.mod_lt _ (Nat.zero_lt_of_lt hi)

theorem add_gap (hstart : start < n) (hi : i < n) : (start + gap n start i) % n = i := by
  unfold gap
  rw [Nat.add_mod_mod, show start + (i + n - start) = i + n by omega, Nat.add_mod_right,
    Nat.mod_eq_of_lt hi]

variable (start) in
theorem gap_add (hkg : k ≤ g) (hg : g < n) : gap n ((start + k) % n) ((start + g) % n) = g - k := by
  have hn : 0 < n := Nat.zero_lt_of_lt hg
  have hk := Nat.mod_lt (start + k) hn
  have hsplit := Nat.div_add_mod (start + k) n
  have hsplit' := Nat.div_add_mod (start + g) n
  have hlt := Nat.mod_lt (start + g) hn
  unfold gap
  by_cases hsame : (start + k) / n = (start + g) / n
  · rw [hsame] at hsplit
    rw [show (start + g) % n + n - (start + k) % n = g - k + n by omega, Nat.add_mod_right,
      Nat.mod_eq_of_lt (by omega)]
  · -- the circle is closed once between the two
    have hle : (start + k) / n ≤ (start + g) / n := Nat.div_le_div_right (by omega)
    have hnext : (start + g) / n = (start + k) / n + 1 := by
      have hub : (start + g) / n ≤ (start + k + n) / n := Nat.div_le_div_right (by omega)
      rw [Nat.add_div_right _ hn] at hub
      omega
    rw [hnext, Nat.mul_add] at hsplit'
    rw [show (start + g) % n + n - (start + k) % n = g - k by omega, Nat.mod_eq_of_lt (by omega)]

theorem gap_self : gap n i i = 0 := by
  unfold gap
  rw [Nat.add_sub_cancel_left, Nat.mod_self]

/-- One step round the circle is one step nearer. -/
theorem gap_succ (hstart : start < n) (hi : i < n) (hne : start ≠ i) :
    gap n ((start + 1) % n) i + 1 = gap n start i := by
  have hat := add_gap hstart hi
  have hpos : 1 ≤ gap n start i := by
    by_contra hzero
    rw [show gap n start i = 0 by omega, Nat.add_zero, Nat.mod_eq_of_lt hstart] at hat
    exact hne hat
  have hone := gap_add start hpos (gap_lt hi)
  rw [hat] at hone
  omega

theorem searchFrom_of_hit (hstart : start < n) (hg : g < n) (hhit : hit ((start + g) % n) = true)
    (hkg : k ≤ g) (hfuel : g < k + fuel) :
    ∃ k', k ≤ k' ∧ k' ≤ g ∧ searchFrom hit n start fuel ((start + k) % n) = (start + k') % n := by
  induction fuel generalizing k with
  | zero => omega
  | succ fuel ih =>
      unfold searchFrom
      by_cases htemp : hit ((start + k) % n) = true
      · rw [if_pos htemp]
        exact ⟨k, le_refl k, hkg, rfl⟩
      · have hlt : k < g := by
          refine lt_of_le_of_ne hkg fun heq => ?_
          rw [heq] at htemp
          exact htemp hhit
        rw [if_neg htemp, Nat.mod_add_mod, Nat.add_assoc]
        dsimp only
        have hback : (start + (k + 1)) % n ≠ start := by
          intro hback
          have hgap := gap_add start (Nat.zero_le (k + 1)) (n := n) (by omega)
          rw [hback, Nat.add_zero, Nat.mod_eq_of_lt hstart, gap_self] at hgap
          omega
        rw [if_neg hback]
        obtain ⟨k', hk, hk', hfound⟩ := ih (k := k + 1) (by omega) (by omega)
        exact ⟨k', by omega, hk', hfound⟩

/-- **The search does not step over a hit.** -/
theorem searchFrom_near (hstart : start < n) (hi : i < n) (hhit : hit i = true) :
    searchFrom hit n start n start < n ∧
      gap n (searchFrom hit n start n start) i ≤ gap n start i := by
  have hg : gap n start i < n := gap_lt hi
  have hat := add_gap hstart hi
  have hhit' : hit ((start + gap n start i) % n) = true := by
    rw [hat]
    exact hhit
  have hfuel : gap n start i < 0 + n := by omega
  obtain ⟨k, -, hk, hfound⟩ := searchFrom_of_hit hstart hg hhit' (Nat.zero_le _) hfuel
  rw [Nat.add_zero, Nat.mod_eq_of_lt hstart] at hfound
  have hgap := gap_add start hk hg
  rw [hat] at hgap
  rw [hfound, hgap]
  exact ⟨Nat.mod_lt _ (Nat.zero_lt_of_lt hstart), Nat.sub_le _ _⟩

end AsimFeeder.Lib
