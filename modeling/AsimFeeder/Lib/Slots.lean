/-
Absolute positions and the slots of a ring.

A ring of `n` slots holds a window of an unbounded sequence: position `p` lives in
slot `p mod n`.  The programs that use such rings never mention positions.  They
keep indices and move them one slot at a time, wrapping by a comparison, and they
compare indices for equality.  Everything that makes this work is here.

  * Moving an index by one is moving the position by one (`next_slot`).
  * Two positions less than `n` apart have different slots (`mod_inj`, `slot_inj`), so
    within one window an index names one position.
  * Two indices give back the distance of their positions (`mod_dist`), if that is
    less than `n`.
  * Overwriting one slot disturbs no other position of the window (`Holds.push`).
-/
import Mathlib

namespace AsimFeeder.Lib

/-! ### Positions by their remainders -/

section Mod

variable {n p q x y : Nat}

private theorem mod_inj_of_le (h : p % n = q % n) (hpq : p ≤ q) (hqp : q < p + n) : p = q := by
  have hdvd : n ∣ q - p := Nat.dvd_of_mod_eq_zero (Nat.sub_mod_eq_zero_of_mod_eq h.symm)
  rcases Nat.eq_zero_or_pos (q - p) with h0 | hpos
  · omega
  · have := Nat.le_of_dvd hpos hdvd
    omega

/-- Within one window a remainder names one position. -/
theorem mod_inj (h : p % n = q % n) (hpq : p < q + n) (hqp : q < p + n) : p = q := by
  rcases Nat.le_total p q with hle | hle
  · exact mod_inj_of_le h hle hqp
  · exact (mod_inj_of_le h.symm hle hpq).symm

/-- The distance of two positions, from any two numbers that stand for them. -/
theorem mod_dist (hx : x % n = q % n) (hy : y % n = p % n) (hyx : y ≤ x) (hpq : p ≤ q)
    (hqp : q < p + n) : (x - y) % n = q - p := by
  have hsum : x - y + y ≡ q - p + y [MOD n] :=
    calc x - y + y ≡ q [MOD n] := by rw [Nat.sub_add_cancel hyx]; exact hx
      _ ≡ q - p + p [MOD n] := by rw [Nat.sub_add_cancel hpq]
      _ ≡ q - p + y [MOD n] := Nat.ModEq.add_left _ hy.symm
  have hdist : (x - y) % n = (q - p) % n := Nat.ModEq.add_right_cancel' y hsum
  rw [hdist, Nat.mod_eq_of_lt (by omega)]

end Mod

/-! ### Slots -/

variable {n : Nat} [NeZero n]

/-- The slot of position `p`. -/
def slot (n : Nat) [NeZero n] (p : Nat) : Fin n := Fin.ofNat n p

/-- One slot forward, by comparison and reset. -/
def next (i : Fin n) : Fin n :=
  if h : i.val + 1 = n then ⟨0, by omega⟩ else ⟨i.val + 1, by omega⟩

/-- One slot back, by comparison and reset. -/
def prev (i : Fin n) : Fin n :=
  if i.val = 0 then ⟨n - 1, by have := i.isLt; omega⟩ else ⟨i.val - 1, by have := i.isLt; omega⟩

theorem val_slot (p : Nat) : (slot n p).val = p % n := rfl

theorem slot_val (i : Fin n) : slot n i.val = i := Fin.ext (Nat.mod_eq_of_lt i.isLt)

theorem slot_val_add (p j : Nat) : slot n ((slot n p).val + j) = slot n (p + j) := by
  apply Fin.ext
  rw [val_slot, val_slot, val_slot, Nat.mod_add_mod]

theorem slot_add_size (p : Nat) : slot n (p + n) = slot n p := by
  apply Fin.ext
  simp [val_slot]

theorem next_slot (p : Nat) : next (slot n p) = slot n (p + 1) := by
  have hn : 0 < n := Nat.pos_of_ne_zero (NeZero.ne n)
  have hlt : p % n < n := Nat.mod_lt p hn
  apply Fin.ext
  unfold next
  split
  · rename_i h
    rw [val_slot] at h
    rw [val_slot, Nat.add_mod, ← Nat.add_mod_mod, Nat.mod_mod]
    show 0 = _
    rcases Nat.lt_or_ge 1 n with h1 | h1
    · rw [Nat.mod_eq_of_lt h1, h, Nat.mod_self]
    · rw [show n = 1 by omega, Nat.mod_one]
  · rename_i h
    rw [val_slot] at h
    show p % n + 1 = (p + 1) % n
    rw [Nat.add_mod, Nat.mod_eq_of_lt (show 1 < n by omega)]
    exact (Nat.mod_eq_of_lt (by omega)).symm

theorem prev_slot (p : Nat) : prev (slot n (p + 1)) = slot n p := by
  rw [← next_slot]
  generalize slot n p = i
  have := i.isLt
  apply Fin.ext
  unfold next prev
  split
  · simp only [if_true]
    omega
  · simp only [Nat.add_eq_zero_iff, Nat.one_ne_zero, and_false, if_false]
    omega

/-- Within one window a slot names one position. -/
theorem slot_inj {p q : Nat} (h : slot n p = slot n q) (hpq : p < q + n) (hqp : q < p + n) :
    p = q :=
  mod_inj (congrArg Fin.val h) hpq hqp

theorem slot_ne {p q : Nat} (hne : p ≠ q) (hpq : p < q + n) (hqp : q < p + n) :
    slot n p ≠ slot n q :=
  fun h => hne (slot_inj h hpq hqp)

variable {α : Type}

/-- The slots of positions `lo` to `hi - 1` hold what `f` gives at those positions. -/
def Holds (n : Nat) [NeZero n] (buf : Fin n → α) (f : Nat → α) (lo hi : Nat) : Prop :=
  ∀ p, lo ≤ p → p < hi → buf (slot n p) = f p

theorem Holds.mono {buf : Fin n → α} {f : Nat → α} {lo hi lo' hi' : Nat}
    (h : Holds n buf f lo hi) (hlo : lo ≤ lo') (hhi : hi' ≤ hi) : Holds n buf f lo' hi' :=
  fun p h1 h2 => h p (Nat.le_trans hlo h1) (Nat.lt_of_lt_of_le h2 hhi)

theorem holds_empty (buf : Fin n → α) (f : Nat → α) (lo : Nat) : Holds n buf f lo lo :=
  fun _ h1 h2 => absurd h2 (Nat.not_lt.mpr h1)

/-- Writing the next position keeps the window, as long as the window has room for it. -/
theorem Holds.push {buf : Fin n → α} {f : Nat → α} {lo hi : Nat} (h : Holds n buf f lo hi)
    (hroom : hi < lo + n) : Holds n (Function.update buf (slot n hi) (f hi)) f lo (hi + 1) := by
  intro p hlo hhi
  by_cases hp : p = hi
  · rw [hp, Function.update_self]
  · rw [Function.update_of_ne (slot_ne hp (by omega) (by omega))]
    exact h p hlo (by omega)

end AsimFeeder.Lib
