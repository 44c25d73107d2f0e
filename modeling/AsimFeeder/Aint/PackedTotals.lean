/-
Sums over all lanes.

A sum of 64 bits is the integer sum modulo 2^64, if what is added for each lane is the
integer for that lane.  A product of two lanes of 16 bits fits an `int`; without a sign it
is an `unsigned int`, which is right only if it is not negative.
-/
import AsimFeeder.Aint.PackedLanes

namespace AsimFeeder.Aint.Packed

open Lib

variable {w n : Nat} {ra : BitVec 64} {rbv : Nat → BitVec w}

theorem ofInt_sub (x y : Int) : BitVec.ofInt 64 (x - y) =
    BitVec.ofInt 64 x - BitVec.ofInt 64 y := by
  apply BitVec.eq_of_toInt_eq
  simp

theorem signExtend_eq_ofInt (a : BitVec w) : a.signExtend 64 = BitVec.ofInt 64 (value true a) := rfl

theorem setWidth_eq_ofInt (a : BitVec w) : a.setWidth 64 = BitVec.ofInt 64 (value false a) := by
  show _ = BitVec.ofInt 64 (a.toNat : Int)
  rw [BitVec.ofInt_natCast, BitVec.ofNat_toNat]

/-- **A loop that adds an integer for each lane computes the sum of them.** -/
theorem foldl_total {step : BitVec 64 → Nat → BitVec 64} {f : Nat → Int}
    (h : ∀ temp, ∀ i < n, step temp i = temp + BitVec.ofInt 64 (f i)) :
    (List.range n).foldl step 0 = BitVec.ofInt 64 (∑ i ∈ Finset.range n, f i) := by
  induction n with
  | zero => rfl
  | succ n ih =>
      have hstep := ih fun temp i hi => h temp i (Nat.lt_succ_of_lt hi)
      rw [List.range_succ, List.foldl_append, hstep, Finset.sum_range_succ, BitVec.ofInt_add]
      exact h _ n (Nat.lt_succ_self n)

section Sums

variable {signed : Bool} {long : BitVec w → BitVec 64}

theorem tadd_eq (hlong : ∀ a, long a = BitVec.ofInt 64 (value signed a)) : tadd n ra rbv long
    = BitVec.ofInt 64 (∑ i ∈ Finset.range n,
      (value signed (lane w ra i) + value signed (rbv i))) := by
  apply foldl_total
  intro temp i _
  rw [hlong, hlong, BitVec.ofInt_add, BitVec.add_assoc]

theorem tsub_eq (hlong : ∀ a, long a = BitVec.ofInt 64 (value signed a)) : tsub n ra rbv long
    = BitVec.ofInt 64 (∑ i ∈ Finset.range n,
      (value signed (lane w ra i) - value signed (rbv i))) := by
  apply foldl_total
  intro temp i _
  rw [hlong, hlong, ofInt_sub, BitVec.sub_eq_add_neg, BitVec.sub_eq_add_neg, BitVec.add_assoc]

theorem tmul_eq {product : BitVec w → BitVec w → BitVec 64} {f : BitVec w → BitVec w → Int}
    (h : ∀ a b, product a b = BitVec.ofInt 64 (f a b)) : tmul n ra rbv product
    = BitVec.ofInt 64 (∑ i ∈ Finset.range n, f (lane w ra i) (rbv i)) := by
  apply foldl_total
  intro temp i _
  rw [h]

end Sums

/-! ### Products -/

theorem toInt_setWidth_wide (hw : w < 32) (a : BitVec w) :
    (a.setWidth 32).toInt = value false a := by
  have ha := a.isLt
  have hle : 2 ^ (w + 1) ≤ 2 ^ 32 := Nat.pow_le_pow_right (by decide) hw
  rw [Nat.pow_succ] at hle
  rw [BitVec.toInt_eq_toNat_of_lt]
  · rw [BitVec.toNat_setWidth, Nat.mod_eq_of_lt (by omega)]
    rfl
  · rw [BitVec.toNat_setWidth, Nat.mod_eq_of_lt (by omega)]
    omega

theorem value_bound {x : Int} (hlo : -2 ^ 15 ≤ x) (hhi : x ≤ 2 ^ 15) : |x| ≤ 2 ^ 15 :=
  abs_le.mpr ⟨hlo, hhi⟩

/-- A product of small integers fits an `int`. -/
theorem toInt_mul_small {x y : BitVec 32} (hx : |x.toInt| ≤ 2 ^ 15) (hy : |y.toInt| ≤ 2 ^ 15) :
    (x * y).toInt = x.toInt * y.toInt := by
  have hprod : |x.toInt * y.toInt| ≤ 2 ^ 15 * 2 ^ 15 := by
    rw [abs_mul]
    exact mul_le_mul hx hy (abs_nonneg _) (by decide)
  obtain ⟨hlo, hhi⟩ := abs_le.mp hprod
  rw [BitVec.toInt_mul]
  exact bmod_of_fits (by decide) (by omega) (by omega)

theorem product_eq {x y : BitVec 32} (hx : |x.toInt| ≤ 2 ^ 15) (hy : |y.toInt| ≤ 2 ^ 15) :
    (x * y).signExtend 64 = BitVec.ofInt 64 (x.toInt * y.toInt) := by
  rw [signExtend_eq_ofInt, ← toInt_mul_small hx hy]
  rfl

theorem abs_signExtend {a : BitVec w} (hw : w ≤ 16) : |(a.signExtend 32).toInt| ≤ 2 ^ 15 := by
  have hle : (2 : Int) ^ (w - 1) ≤ 2 ^ 15 := pow_le_pow_right₀ (by decide) (by omega)
  have ha := toInt_bounds a
  rw [BitVec.toInt_signExtend_of_le (by omega)]
  exact value_bound (by omega) (by omega)

theorem abs_setWidth {a : BitVec w} (hw : w ≤ 8) : |(a.setWidth 32).toInt| ≤ 2 ^ 15 := by
  have hle : 2 ^ w ≤ 2 ^ 8 := Nat.pow_le_pow_right (by decide) hw
  have ha := a.isLt
  rw [toInt_setWidth_wide (by omega)]
  show |((a.toNat : Nat) : Int)| ≤ _
  exact value_bound (by omega) (by omega)

theorem product_signed (hw : w ≤ 16) (a b : BitVec w) :
    (a.signExtend 32 * b.signExtend 32).signExtend 64
      = BitVec.ofInt 64 (value true a * value true b) := by
  rw [product_eq (abs_signExtend hw) (abs_signExtend hw),
    BitVec.toInt_signExtend_of_le (by omega), BitVec.toInt_signExtend_of_le (by omega)]
  rfl

theorem product_unsigned (hw : w ≤ 8) (a b : BitVec w) :
    (a.setWidth 32 * b.setWidth 32).signExtend 64
      = BitVec.ofInt 64 (value false a * value false b) := by
  rw [product_eq (abs_setWidth hw) (abs_setWidth hw), toInt_setWidth_wide (by omega),
    toInt_setWidth_wide (by omega)]

theorem product_mixed (hw : w ≤ 8) (a b : BitVec w) :
    (a.setWidth 32 * b.signExtend 32).signExtend 64
      = BitVec.ofInt 64 (value false a * value true b) := by
  rw [product_eq (abs_setWidth hw) (abs_signExtend (by omega)), toInt_setWidth_wide (by omega),
    BitVec.toInt_signExtend_of_le (by omega)]
  rfl

theorem product_long (a b : BitVec w) :
    a.setWidth 64 * b.setWidth 64 = BitVec.ofInt 64 (value false a * value false b) := by
  rw [BitVec.ofInt_mul, ← setWidth_eq_ofInt, ← setWidth_eq_ofInt]

/-! ### Products without a sign -/

/-- How much too large a product is: 2^32 if it is negative. -/
def excess (a b : BitVec 16) : Int := if a ≠ 0 ∧ b.msb = true then 1 else 0

theorem product_bounds (a b : BitVec 16) :
    |value false a * value true b| ≤ 2 ^ 16 * 2 ^ 15 := by
  have ha := a.isLt
  have hb := toInt_bounds b
  rw [abs_mul]
  apply mul_le_mul
  · exact abs_le.mpr ⟨by show _ ≤ (a.toNat : Int); omega, by show (a.toNat : Int) ≤ _; omega⟩
  · exact value_bound hb.1 (Int.le_of_lt hb.2)
  · exact abs_nonneg _
  · decide

theorem emod_product (a b : BitVec 16) : value false a * value true b % 2 ^ 32
    = value false a * value true b + 2 ^ 32 * excess a b := by
  obtain ⟨hlo, hhi⟩ := abs_le.mp (product_bounds a b)
  unfold excess
  by_cases hneg : a ≠ 0 ∧ b.msb = true
  · have hpos : 0 < value false a := by
      have hne : a.toNat ≠ 0 := fun h => hneg.1 (BitVec.eq_of_toNat_eq h)
      show (0 : Int) < (a.toNat : Int)
      omega
    have hlt : value true b < 0 := BitVec.toInt_neg_of_msb_true hneg.2
    have hprod := mul_neg_of_pos_of_neg hpos hlt
    rw [if_pos hneg]
    omega
  · have hprod : 0 ≤ value false a * value true b := by
      rcases not_and_or.mp hneg with hzero | hmsb
      · rw [not_not.mp hzero]
        exact Int.le_of_eq (Int.zero_mul _).symm
      · have hb : 0 ≤ value true b :=
          BitVec.toInt_nonneg_of_msb_false (Bool.eq_false_iff.mpr hmsb)
        exact mul_nonneg (Int.natCast_nonneg _) hb
    rw [if_neg hneg]
    omega

theorem product_nosign (a b : BitVec 16) :
    (a.setWidth 32 * b.signExtend 32).setWidth 64
      = BitVec.ofInt 64 (value false a * value true b + 2 ^ 32 * excess a b) := by
  have hofInt : a.setWidth 32 * b.signExtend 32 =
    BitVec.ofInt 32 (value false a * value true b) := by
    rw [BitVec.ofInt_mul]
    congr 1
    show _ = BitVec.ofInt 32 (a.toNat : Int)
    rw [BitVec.ofInt_natCast, BitVec.ofNat_toNat]
  have hnonneg : 0 ≤ value false a * value true b % 2 ^ 32 := Int.emod_nonneg _ (by decide)
  rw [← emod_product, hofInt, setWidth_eq_ofInt]
  show BitVec.ofInt 64 (((BitVec.ofInt 32 _).toNat : Nat) : Int) = _
  rw [BitVec.toNat_ofInt]
  congr 1
  push_cast
  omega

theorem excess_nonneg (a b : BitVec 16) : 0 ≤ excess a b ∧ excess a b ≤ 1 := by
  unfold excess
  split
  · exact ⟨by decide, by decide⟩
  · exact ⟨by decide, by decide⟩

/-- Four products are right together only if each of them is. -/
theorem total_excess {f e : Nat → Int} (he : ∀ i < 4, 0 ≤ e i ∧ e i ≤ 1) :
    BitVec.ofInt 64 (∑ i ∈ Finset.range 4, (f i + 2 ^ 32 * e i))
      = BitVec.ofInt 64 (∑ i ∈ Finset.range 4, f i) ↔ ∀ i < 4, e i = 0 := by
  have hnonneg : ∀ i ∈ Finset.range 4, 0 ≤ e i := fun i hi => (he i (Finset.mem_range.mp hi)).1
  have hsum : ∑ i ∈ Finset.range 4, e i ≤ 4 := by
    have hle := Finset.sum_le_card_nsmul (Finset.range 4) e 1
      fun i hi => (he i (Finset.mem_range.mp hi)).2
    rw [Finset.card_range] at hle
    exact hle
  rw [Finset.sum_add_distrib, ← Finset.mul_sum]
  constructor
  · intro heq
    have hmod := congrArg BitVec.toNat heq
    rw [BitVec.toNat_ofInt, BitVec.toNat_ofInt] at hmod
    have hpos := Finset.sum_nonneg hnonneg
    have hzero : ∑ i ∈ Finset.range 4, e i = 0 := by
      push_cast at hmod
      omega
    intro i hi
    exact (Finset.sum_eq_zero_iff_of_nonneg hnonneg).mp hzero i (Finset.mem_range.mpr hi)
  · intro hzero
    rw [Finset.sum_eq_zero fun i hi => hzero i (Finset.mem_range.mp hi), mul_zero, add_zero]

end AsimFeeder.Aint.Packed
