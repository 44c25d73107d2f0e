/-
Lanes that are added, subtracted and shifted.

A sum or a difference of two lanes fits the wider integers that it is compared in, so that
the comparison finds out whether it fits a lane.  A shift with the sign fills in bits that
the shift of the lane has already.
-/
import AsimFeeder.Aint.PackedMeaning

namespace AsimFeeder.Aint.Packed

open Lib

variable {w wide : Nat}

/-! ### Wider integers -/

theorem two_pow_le (hwide : w < wide) : (2 : Int) ^ w ≤ 2 ^ (wide - 1) :=
  pow_le_pow_right₀ (by decide) (by omega)

theorem two_pow_pred (hw : 0 < w) : (2 : Int) ^ w = 2 * 2 ^ (w - 1) := by
  obtain ⟨k, rfl⟩ : ∃ k, w = k + 1 := ⟨w - 1, by omega⟩
  rw [Nat.add_sub_cancel, Int.pow_succ]
  omega

theorem toInt_bounds (a : BitVec w) : -2 ^ (w - 1) ≤ a.toInt ∧ a.toInt < 2 ^ (w - 1) :=
  ⟨a.le_toInt, BitVec.toInt_lt⟩

/-- An integer that fits is not changed by wrapping around. -/
theorem bmod_of_fits {x : Int} (hw : 0 < w) (hlo : -2 ^ (w - 1) ≤ x) (hhi : x < 2 ^ (w - 1)) :
    x.bmod (2 ^ w) = x := by
  have hpow := two_pow_pred hw
  apply Int.bmod_eq_of_le_mul_two
  · push_cast
    omega
  · push_cast
    omega

theorem toInt_add_wide (hw : 0 < w) (hwide : w < wide) (a b : BitVec w) :
    (a.signExtend wide + b.signExtend wide).toInt = a.toInt + b.toInt := by
  have ha := toInt_bounds a
  have hb := toInt_bounds b
  have hpow := two_pow_pred hw
  have hle := two_pow_le hwide
  rw [BitVec.toInt_add, BitVec.toInt_signExtend_of_le (Nat.le_of_lt hwide),
    BitVec.toInt_signExtend_of_le (Nat.le_of_lt hwide)]
  exact bmod_of_fits (by omega) (by omega) (by omega)

theorem toInt_sub_wide (hw : 0 < w) (hwide : w < wide) (a b : BitVec w) :
    (a.signExtend wide - b.signExtend wide).toInt = a.toInt - b.toInt := by
  have ha := toInt_bounds a
  have hb := toInt_bounds b
  have hpow := two_pow_pred hw
  have hle := two_pow_le hwide
  rw [BitVec.toInt_sub, BitVec.toInt_signExtend_of_le (Nat.le_of_lt hwide),
    BitVec.toInt_signExtend_of_le (Nat.le_of_lt hwide)]
  exact bmod_of_fits (by omega) (by omega) (by omega)

theorem toNat_add_wide (hwide : w < wide) (a b : BitVec w) :
    (a.setWidth wide + b.setWidth wide).toNat = a.toNat + b.toNat := by
  have ha := a.isLt
  have hb := b.isLt
  have hle : 2 ^ (w + 1) ≤ 2 ^ wide := Nat.pow_le_pow_right (by decide) hwide
  rw [Nat.pow_succ] at hle
  rw [BitVec.toNat_add, BitVec.toNat_setWidth, BitVec.toNat_setWidth,
    Nat.mod_eq_of_lt (by omega : a.toNat < 2 ^ wide),
    Nat.mod_eq_of_lt (by omega : b.toNat < 2 ^ wide), Nat.mod_eq_of_lt (by omega)]

/-! ### Clamped lanes -/

theorem clamp_signed {x : Int} (hhi : 2 ^ (w - 1) - 1 < x) : clamp w true x = 2 ^ (w - 1) - 1 := by
  have hpos : (0 : Int) < 2 ^ (w - 1) := Int.pow_pos (by decide)
  unfold clamp
  rw [if_pos rfl, min_eq_right (by omega), max_eq_right (by omega)]

theorem clamp_signed_low {x : Int} (hlo : x < -2 ^ (w - 1)) : clamp w true x = -2 ^ (w - 1) := by
  have hpos : (0 : Int) < 2 ^ (w - 1) := Int.pow_pos (by decide)
  unfold clamp
  rw [if_pos rfl, min_eq_left (by omega), max_eq_left (by omega)]

theorem clamp_of_fits {x : Int} (hlo : -2 ^ (w - 1) ≤ x) (hhi : x < 2 ^ (w - 1)) :
    clamp w true x = x := by
  unfold clamp
  rw [if_pos rfl, min_eq_left (by omega), max_eq_right hlo]

/-- The limits of a signed lane, as they are compared and as they are stored. -/
structure Limits (bottom top : BitVec wide) (lo hi : BitVec w) : Prop where
  pos : 0 < w
  wider : w < wide
  bottom : bottom.toInt = -2 ^ (w - 1)
  top : top.toInt = 2 ^ (w - 1) - 1
  lo : lo.toInt = -2 ^ (w - 1)
  hi : hi.toInt = 2 ^ (w - 1) - 1

section Signed

variable {bottom top cnt : BitVec wide} {lo hi same : BitVec w}

theorem Limits.clampFromAbove (h : Limits bottom top lo hi)
    (hsame : same.toInt = cnt.toInt.bmod (2 ^ w)) :
    (if top.slt cnt then hi else if cnt.slt bottom then lo else same).toInt
      = clamp w true cnt.toInt := by
  by_cases habove : top.slt cnt = true
  · rw [if_pos habove, h.hi]
    rw [BitVec.slt_iff_toInt_lt, h.top] at habove
    exact (clamp_signed habove).symm
  · rw [if_neg habove]
    rw [BitVec.slt_iff_toInt_lt, h.top] at habove
    by_cases hbelow : cnt.slt bottom = true
    · rw [if_pos hbelow, h.lo]
      rw [BitVec.slt_iff_toInt_lt, h.bottom] at hbelow
      exact (clamp_signed_low hbelow).symm
    · rw [if_neg hbelow, hsame]
      rw [BitVec.slt_iff_toInt_lt, h.bottom] at hbelow
      rw [bmod_of_fits h.pos (by omega) (by omega), clamp_of_fits (by omega) (by omega)]

/-- The order of the two comparisons does not matter. -/
theorem Limits.swap (h : Limits bottom top lo hi) :
    (if cnt.slt bottom then lo else if top.slt cnt then hi else same)
      = if top.slt cnt then hi else if cnt.slt bottom then lo else same := by
  have hpos : (0 : Int) < 2 ^ (w - 1) := Int.pow_pos (by decide)
  by_cases habove : top.slt cnt = true
  · have hbelow : ¬ cnt.slt bottom = true := by
      rw [BitVec.slt_iff_toInt_lt, h.top] at habove
      rw [BitVec.slt_iff_toInt_lt, h.bottom]
      omega
    rw [if_neg hbelow, if_pos habove, if_pos habove]
  · rw [if_neg habove, if_neg habove]

theorem Limits.add (h : Limits bottom top lo hi) (a b : BitVec w) :
    (let cnt := a.signExtend wide + b.signExtend wide
      if top.slt cnt then hi else if cnt.slt bottom then lo else a + b).toInt
      = clamp w true (a.toInt + b.toInt) := by
  have hcnt := toInt_add_wide h.pos h.wider a b
  have hsame : (a + b).toInt = (a.signExtend wide + b.signExtend wide).toInt.bmod (2 ^ w) := by
    rw [hcnt, BitVec.toInt_add]
  have hclamp := h.clampFromAbove hsame
  rw [hcnt] at hclamp
  exact hclamp

theorem Limits.sub (h : Limits bottom top lo hi) (a b : BitVec w) :
    (let sum := a.signExtend wide - b.signExtend wide
      if sum.slt bottom then lo else if top.slt sum then hi else a - b).toInt
      = clamp w true (a.toInt - b.toInt) := by
  have hcnt := toInt_sub_wide h.pos h.wider a b
  have hsame : (a - b).toInt = (a.signExtend wide - b.signExtend wide).toInt.bmod (2 ^ w) := by
    rw [hcnt, BitVec.toInt_sub]
  have hclamp := h.clampFromAbove hsame
  rw [hcnt] at hclamp
  dsimp only
  rw [h.swap]
  exact hclamp

end Signed

theorem clamp_unsigned (w : Nat) (x : Int) :
    clamp w false x = max 0 (min x (((2 ^ w : Nat) : Int) - 1)) := by
  unfold clamp
  rw [if_neg Bool.false_ne_true]
  push_cast
  rfl

theorem clamped_addu (hwide : w < wide) {max' : BitVec wide} (hmax : max'.toNat = 2 ^ w - 1)
    (a b : BitVec w) :
    (((if max' < a.setWidth wide + b.setWidth wide then max'
      else a.setWidth wide + b.setWidth wide).setWidth w).toNat : Int)
      = clamp w false (a.toNat + b.toNat) := by
  have hpos : 0 < 2 ^ w := Nat.two_pow_pos w
  have hsum := toNat_add_wide hwide a b
  rw [clamp_unsigned]
  by_cases habove : max' < a.setWidth wide + b.setWidth wide
  · rw [if_pos habove, BitVec.toNat_setWidth, hmax, Nat.mod_eq_of_lt (by omega)]
    rw [BitVec.lt_def, hsum, hmax] at habove
    rw [min_eq_right (by omega), max_eq_right (by omega)]
    omega
  · rw [if_neg habove, BitVec.toNat_setWidth, hsum]
    rw [BitVec.lt_def, hsum, hmax] at habove
    rw [Nat.mod_eq_of_lt (by omega), min_eq_left (by omega), max_eq_right (by omega)]
    exact Int.natCast_add _ _

theorem clamped_subu (a b : BitVec w) :
    ((if b < a then a - b else 0).toNat : Int) = clamp w false (a.toNat - b.toNat) := by
  have ha := a.isLt
  rw [clamp_unsigned]
  by_cases hless : b < a
  · rw [if_pos hless]
    rw [BitVec.lt_def] at hless
    rw [BitVec.toNat_sub_of_le (BitVec.le_def.mpr (Nat.le_of_lt hless)),
      min_eq_left (by omega), max_eq_right (by omega)]
    omega
  · rw [if_neg hless]
    rw [BitVec.lt_def] at hless
    rw [min_eq_left (by omega), max_eq_left (by omega)]
    rfl

/-! ### Shifted lanes -/

/-- A lane is negative if it has the sign bit. -/
theorem and_sign {a sign : BitVec w} (hsign : sign = BitVec.intMin w) :
    a &&& sign ≠ 0 ↔ a.msb = true := by
  rw [BitVec.msb_eq_getLsbD_last]
  constructor
  · intro hne
    by_contra hmsb
    apply hne
    apply BitVec.eq_of_getLsbD_eq
    intro i hi
    rw [hsign, BitVec.getLsbD_and, BitVec.getLsbD_intMin]
    by_cases hlast : i + 1 = w
    · rw [show i = w - 1 by omega, Bool.eq_false_iff.mpr hmsb]
      simp
    · simp [hlast]
  · intro hmsb heq
    have hlt := BitVec.lt_of_getLsbD hmsb
    have hbit := congrArg (BitVec.getLsbD · (w - 1)) heq
    simp [hsign, BitVec.getLsbD_intMin, hmsb, show w - 1 + 1 = w by omega] at hbit

/-- The signs are there already. -/
theorem sshiftRight_or_signs (a : BitVec w) {cnt : Nat} (hcnt : cnt ≤ w) {signs : BitVec w}
    (hsigns : signs = if a.msb then BitVec.allOnes w else 0) :
    a.sshiftRight cnt ||| (signs <<< (w - cnt)) = a.sshiftRight cnt := by
  apply BitVec.eq_of_getLsbD_eq
  intro i hi
  rw [BitVec.getLsbD_or, BitVec.getLsbD_shiftLeft, BitVec.getLsbD_sshiftRight, hsigns]
  by_cases hin : cnt + i < w
  · simp [hin, show i < w - cnt by omega]
  · cases a.msb with
    | true => simp [hin, hi]
    | false => simp [hin]

end AsimFeeder.Aint.Packed
