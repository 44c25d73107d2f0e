/-
Packed-integer instructions that do not always do what they mean.

Some fill too small an array, forget the sign of a literal, mask a count with too few bits,
shift an `int` by 32, lose the sign of a product or clamp at the wrong number.  Each does
what it means for exactly the operands that `fits` tells.
-/
import AsimFeeder.Aint.PackedRight

namespace AsimFeeder.Aint.Packed

open Lib

variable {w wide n : Nat} {rc ra : BitVec 64}

namespace Opcode

variable {op : Opcode}

/-! ### A shift by nothing -/

/-- Only the word matters. -/
theorem right_iff_reg {src : Operand}
    (h : op.func rc ra src = op.func rc ra (.reg (op.word src))) :
    op.Right rc ra src ↔ op.Right rc ra (.reg (op.word src)) := by
  unfold Right
  rw [h]
  rfl

theorem func_psral2 (rb : BitVec 64) : func .psral2 rc ra (.reg rb)
    = if rb.toNat % 32 = 0 then none else some (psra 2 0 ra (lane 32 rb) 0x80000000 0x1F) := by
  have hcount : (lane 32 rb 0 &&& 0x1F).toNat = rb.toNat % 32 := toNat_count (k := 5)
    (by decide) rfl
  show (if 32 - (lane 32 rb 0 &&& 0x1F).toNat < 32 then _ else none) = _
  rw [hcount]
  by_cases hzero : rb.toNat % 32 = 0
  · rw [if_pos hzero, if_neg (by omega)]
  · rw [if_neg hzero, if_pos (by omega)]

theorem func_psral2_literal (l : BitVec 8) : func .psral2 rc ra (.literal l)
    = func .psral2 rc ra (.reg (literalWord .psral2 l)) := by
  have hcount : lane 32 (literalWord .psral2 l) 0 &&& 0x1F = unsignedLiteral 32 l &&& 0x1F := by
    show lane 32 (forLanes 2 0 fun _ => l.signExtend 32) 0 &&& _ = _
    rw [lane_forLanes (by decide) (by decide)]
    exact (count32_literal l).symm
  have hpsra : psra 2 0 ra (lane 32 (literalWord .psral2 l)) 0x80000000 0x1F
      = psra 2 0 ra (fun _ => unsignedLiteral 32 l) 0x80000000 0x1F := psra_congr hcount
  show (if 32 - (unsignedLiteral 32 l &&& 0x1F).toNat < 32 then _ else none)
    = if 32 - (lane 32 (literalWord .psral2 l) 0 &&& 0x1F).toNat < 32 then
        some (psra 2 0 ra (lane 32 (literalWord .psral2 l)) 0x80000000 0x1F) else none
  rw [hcount, hpsra]

theorem right_psral2_iff (src : Operand) : Right .psral2 rc ra src ↔
    fits .psral2 ra src = true := by
  have hsrc : func .psral2 rc ra src = func .psral2 rc ra (.reg (word .psral2 src)) := by
    cases src with
    | reg rb => rfl
    | literal l => exact func_psral2_literal l
  have hfits : fits .psral2 ra src = true ↔ (word .psral2 src).toNat % 32 ≠ 0 :=
    decide_eq_true_iff
  rw [right_iff_reg hsrc, hfits]
  generalize word .psral2 src = rb
  unfold Right
  rw [func_psral2]
  constructor
  · rintro ⟨result, hfunc, -, -⟩ hzero
    rw [if_pos hzero] at hfunc
    cases hfunc
  · intro hne
    have hreg : func .psral2 rc ra (.reg rb) = _ := func_psral2 rb
    rw [if_neg hne] at hreg ⊢
    exact ⟨_, rfl, holds_psra (k := 5) (by decide) rfl rfl rfl, hreg⟩

/-! ### A count of too few bits -/

/-- Shifting by 16 more changes what is not zero. -/
theorem shiftLeft_add_eq_iff (a : BitVec 32) (c : Nat) : a <<< c = a <<< (c + 16) ↔
    a <<< c = 0 := by
  rw [BitVec.shiftLeft_add]
  generalize a <<< c = x
  constructor
  · intro h
    have htwice : x = x <<< (16 + 16) := by
      rw [BitVec.shiftLeft_add, ← h]
      exact h
    rw [htwice]
    exact BitVec.shiftLeft_eq_zero (by decide)
  · intro h
    rw [h]
    rfl

theorem right_psll2_iff (src : Operand) : Right .psll2 rc ra src ↔ fits .psll2 ra src = true := by
  have hsrc : func .psll2 rc ra src = func .psll2 rc ra (.reg (word .psll2 src)) := by
    cases src with
    | reg rb => rfl
    | literal l =>
        exact func_literal .psll2 (fun g => pshift 2 0 ra g (· <<< ·) 0xF) (by decide)
          (fun _ => rfl) (fun _ => rfl) (fun _ _ => pshift_congr (by decide)) l
  rw [right_iff_reg hsrc]
  show _ ↔ (decide ((word .psll2 src).toNat % 32 < 16) || (List.range 2).all fun i =>
    lane 32 ra i <<< ((word .psll2 src).toNat % 16) == 0) = true
  generalize word .psll2 src = rb
  have hlanes : ∀ i < 2, lane 32 (pshift 2 0 ra (lane 32 rb) (· <<< ·) 0xF) i
      = lane 32 ra i <<< (rb.toNat % 16) := by
    intro i hi
    unfold pshift
    have hcount : (lane 32 rb 0 &&& 0xF).toNat = rb.toNat % 16 := toNat_count (k := 4)
      (by decide) rfl
    rw [lane_forLanes hi (by decide), hcount]
  have hright : Right .psll2 rc ra (.reg rb) ↔
      ∀ i < 2, lane 32 ra i <<< (rb.toNat % 16) = lane 32 ra i <<< (rb.toNat % 32) := by
    constructor
    · rintro ⟨result, hfunc, hholds, -⟩ i hi
      obtain rfl := Option.some.inj hfunc
      rw [← hlanes i hi]
      exact hholds i hi
    · intro h
      refine ⟨_, rfl, ?_, rfl⟩
      intro i hi
      rw [hlanes i hi]
      exact h i hi
  rw [hright, Bool.or_eq_true, decide_eq_true_iff, List.all_eq_true]
  by_cases hsmall : rb.toNat % 32 < 16
  · have hsame : rb.toNat % 16 = rb.toNat % 32 := by omega
    simp [hsmall, hsame]
  · have hmore : rb.toNat % 32 = rb.toNat % 16 + 16 := by omega
    rw [or_iff_right hsmall, hmore]
    simp only [shiftLeft_add_eq_iff, List.mem_range, beq_iff_eq]

/-! ### A product without its sign -/

theorem excess_eq_zero_iff (a b : BitVec 16) : excess a b = 0 ↔ (a == 0 || !b.msb) = true := by
  unfold excess
  by_cases hneg : a ≠ 0 ∧ b.msb = true
  · rw [if_pos hneg]
    simpa [hneg.2] using hneg.1
  · rw [if_neg hneg]
    rcases not_and_or.mp hneg with hzero | hmsb
    · simp [not_not.mp hzero]
    · simp [hmsb]

theorem right_tmulusw4_iff (src : Operand) :
    Right .tmulusw4 rc ra src ↔ fits .tmulusw4 ra src = true := by
  have hsrc : func .tmulusw4 rc ra src = func .tmulusw4 rc ra (.reg (word .tmulusw4 src)) := by
    cases src with
    | reg rb => rfl
    | literal l =>
        exact func_literal .tmulusw4
          (fun g => tmul 4 ra g fun a b => (a.setWidth 32 * b.signExtend 32).setWidth 64)
          (by decide)
          (fun _ => rfl) (fun _ => rfl) (fun _ _ => tmul_congr) l
  rw [right_iff_reg hsrc]
  show _ ↔ ((List.range 4).all fun i =>
    lane 16 ra i == 0 || !(lane 16 (word .tmulusw4 src) i).msb) = true
  generalize word .tmulusw4 src = rb
  have hresult : func .tmulusw4 rc ra (.reg rb) = some (BitVec.ofInt 64 (∑ i ∈ Finset.range 4,
      (value false (lane 16 ra i) * value true (lane 16 rb i)
        + 2 ^ 32 * excess (lane 16 ra i) (lane 16 rb i)))) :=
    congrArg some (tmul_eq product_nosign)
  have hright : Right .tmulusw4 rc ra (.reg rb) ↔
      ∀ i < 4, excess (lane 16 ra i) (lane 16 rb i) = 0 := by
    rw [← total_excess fun i _ => excess_nonneg _ _]
    constructor
    · rintro ⟨result, hfunc, hholds, -⟩
      rw [hresult] at hfunc
      obtain rfl := Option.some.inj hfunc
      exact hholds
    · intro h
      exact ⟨_, hresult, h, hresult⟩
  simp only [hright, excess_eq_zero_iff, List.all_eq_true, List.mem_range]

/-! ### A literal without its sign -/

theorem signExtend_literal (hw : 8 < w) (l : BitVec 8) :
    (l.signExtend w).toInt = if l < 128 then (l.toNat : Int) else l.toNat - 256 := by
  have hl := l.isLt
  rw [BitVec.toInt_signExtend_of_le (Nat.le_of_lt hw), BitVec.toInt_eq_toNat_cond]
  by_cases hsmall : l < 128
  · have hnat : l.toNat < 128 := hsmall
    rw [if_pos (by omega), if_pos hsmall]
  · have hnat : ¬ l.toNat < 128 := hsmall
    rw [if_neg (by omega), if_neg hsmall]
    rfl

theorem setWidth_literal (hw : 8 < w) (l : BitVec 8) : (l.setWidth w).toInt = (l.toNat : Int) := by
  have hl := l.isLt
  have hle : 2 ^ 9 ≤ 2 ^ w := Nat.pow_le_pow_right (by decide) hw
  rw [BitVec.toInt_eq_toNat_of_lt]
  · rw [BitVec.toNat_setWidth, Nat.mod_eq_of_lt (by omega)]
  · rw [BitVec.toNat_setWidth, Nat.mod_eq_of_lt (by omega)]
    omega

/-- A literal that is not negative is the same with or without its sign. -/
theorem literal_eq_of_small (hw : 8 < w) {l : BitVec 8} (hsmall : l < 128) :
    l.setWidth w = l.signExtend w := by
  apply BitVec.eq_of_toInt_eq
  rw [setWidth_literal hw, signExtend_literal hw, if_pos hsmall]

/-- A difference that is 256 too small is wrong in every lane. -/
theorem clamp_literal_ne (hw : 9 < w) (a : BitVec w) {l : BitVec 8} (hlarge : ¬ l < 128) :
    clamp w true (a.toInt - (l.setWidth w).toInt) ≠
      clamp w true (a.toInt - (l.signExtend w).toInt) := by
  have hl := l.isLt
  have hle : (2 : Int) ^ 9 ≤ 2 ^ (w - 1) := pow_le_pow_right₀ (by decide) (by omega)
  have ha := toInt_bounds a
  have hnat : ¬ l.toNat < 128 := hlarge
  rw [setWidth_literal (by omega), signExtend_literal (by omega), if_neg hlarge]
  unfold clamp
  rw [if_pos rfl, if_pos rfl]
  omega

variable (op) in
/-- A difference whose literal is put into the lanes without its sign. -/
theorem right_psubs_iff {bottom top : BitVec wide} {lo hi : BitVec w} (hw : 9 < w) (hn : 0 < n)
    (hroom : w * n ≤ 64) (hlimits : Limits bottom top lo hi)
    (hmeaning : op.meaning = .clamped w n true (· - ·))
    (hreg : ∀ rb, op.func rc ra (.reg rb) = some (psubs wide n 0 ra (lane w rb) bottom top lo hi))
    (hliteral : ∀ l, op.func rc ra (.literal l)
      = some (psubs wide n 0 ra (fun _ => unsignedLiteral w l) bottom top lo hi))
    (hword : ∀ l, op.literalWord l = forLanes n 0 fun _ => l.signExtend w) (src : Operand) :
    op.Right rc ra src ↔ ∀ l, src = .literal l → l < 128 := by
  have hholds : ∀ rb, op.meaning.Holds ra rb (psubs wide n 0 ra (lane w rb) bottom top lo hi) := by
    intro rb
    rw [hmeaning]
    exact holds_psubs hroom hlimits
  have hlane : ∀ l, ∀ i < n, lane w (op.literalWord l) i = l.signExtend w := by
    intro l i hi'
    rw [hword, lane_forLanes hi' hroom]
  constructor
  · rintro ⟨result, hfunc, hresult, -⟩ l rfl
    by_contra hlarge
    rw [hliteral] at hfunc
    obtain rfl := Option.some.inj hfunc
    rw [hmeaning] at hresult
    have hzero := hresult 0 hn
    unfold psubs at hzero
    rw [lane_forLanes hn hroom] at hzero
    have hsub := hlimits.sub (lane w ra 0) (unsignedLiteral w l)
    have heq : clamp w true ((lane w ra 0).toInt - (unsignedLiteral w l).toInt)
        = clamp w true ((lane w ra 0).toInt - (lane w (op.literalWord l) 0).toInt) :=
      hsub.symm.trans hzero
    rw [hlane l 0 hn] at heq
    exact clamp_literal_ne hw _ hlarge heq
  · intro hsmall
    apply right_of_reg _ hreg
    · rintro l rfl
      rw [hliteral]
      apply congrArg some
      apply psubs_congr
      intro i hi'
      rw [hlane l i hi']
      exact literal_eq_of_small (by omega) (hsmall l rfl)
    · exact hholds _

theorem right_tsubsw4_iff (src : Operand) :
    Right .tsubsw4 rc ra src ↔ ∀ l, src = .literal l → l < 128 := by
  have hreg : ∀ rb, func .tsubsw4 rc ra (.reg rb)
      = some (tsub 4 ra (lane 16 rb) (·.signExtend 64)) := fun _ => rfl
  have hholds : ∀ rb, (meaning .tsubsw4).Holds ra rb (tsub 4 ra (lane 16 rb) (·.signExtend 64)) :=
    fun _ => tsub_eq signExtend_eq_ofInt
  have hlane : ∀ l, ∀ i < 4, lane 16 (literalWord .tsubsw4 l) i = l.signExtend 16 := by
    intro l i hi
    exact lane_forLanes hi (by decide)
  constructor
  · rintro ⟨result, hfunc, hresult, -⟩ l rfl
    by_contra hlarge
    have hliteral : func .tsubsw4 rc ra (.literal l)
        = some (tsub 4 ra (fun _ => l.setWidth 16) (·.signExtend 64)) := rfl
    rw [hliteral] at hfunc
    obtain rfl := Option.some.inj hfunc
    have heq := (tsub_eq signExtend_eq_ofInt).symm.trans hresult
    have hmod := congrArg BitVec.toNat heq
    rw [BitVec.toNat_ofInt, BitVec.toNat_ofInt] at hmod
    -- four lanes are wrong by 256
    have hsum : ∑ i ∈ Finset.range 4, (value true (lane 16 ra i) - (l.signExtend 16).toInt)
        = ∑ i ∈ Finset.range 4, (value true (lane 16 ra i) - (l.setWidth 16).toInt) + 1024 := by
      rw [setWidth_literal (by decide), signExtend_literal (by decide), if_neg hlarge]
      simp only [Finset.sum_sub_distrib, Finset.sum_const, Finset.card_range, nsmul_eq_mul]
      push_cast
      ring
    have hright : ∑ i ∈ Finset.range 4,
          (value true (lane 16 ra i) - value true (lane 16 (literalWord .tsubsw4 l) i))
        = ∑ i ∈ Finset.range 4, (value true (lane 16 ra i) - (l.signExtend 16).toInt) := by
      apply Finset.sum_congr rfl
      intro i hi
      rw [hlane l i (Finset.mem_range.mp hi)]
      rfl
    have hword : word .tsubsw4 (.literal l) = literalWord .tsubsw4 l := rfl
    rw [hword, hright, hsum] at hmod
    have hleft : ∑ i ∈ Finset.range 4, (value true (lane 16 ra i) - value true (l.setWidth 16))
        = ∑ i ∈ Finset.range 4, (value true (lane 16 ra i) - (l.setWidth 16).toInt) := rfl
    rw [hleft] at hmod
    push_cast at hmod
    omega
  · intro hsmall
    apply right_of_reg _ hreg
    · rintro l rfl
      apply congrArg some
      apply tsub_congr
      intro i hi
      rw [hlane l i hi]
      exact literal_eq_of_small (by decide) (hsmall l rfl)
    · exact hholds _

/-! ### An array that is too small -/

variable (op) in
/-- With a literal there is no result. -/
theorem right_iff_reg_form {out : BitVec 64 → BitVec 64}
    (hreg : ∀ rb, op.func rc ra (.reg rb) = some (out rb))
    (hliteral : ∀ l, op.func rc ra (.literal l) = none)
    (hholds : ∀ rb, op.meaning.Holds ra rb (out rb)) (src : Operand) :
    op.Right rc ra src ↔ ∃ rb, src = .reg rb := by
  constructor
  · rintro ⟨result, hfunc, -, -⟩
    cases src with
    | reg rb => exact ⟨rb, rfl⟩
    | literal l =>
        rw [hliteral] at hfunc
        cases hfunc
  · rintro ⟨rb, rfl⟩
    exact ⟨out rb, hreg rb, hholds rb, hreg rb⟩

/-! ### A wrong limit -/

theorem toInt_low (x : BitVec 16) : ((x &&& 0xFF).setWidth 8).toInt = x.toInt.bmod 256 := by
  have hlow : (x &&& 0xFF).setWidth 8 = x.setWidth 8 := by
    apply BitVec.eq_of_toNat_eq
    have hand : x.toNat &&& 0xFF = x.toNat % 2 ^ 8 := Nat.and_two_pow_sub_one_eq_mod x.toNat 8
    rw [BitVec.toNat_setWidth, BitVec.toNat_setWidth, BitVec.toNat_and]
    show (x.toNat &&& 0xFF) % 2 ^ 8 = _
    rw [hand, Nat.mod_mod]
  have hdvd : 256 ∣ 2 ^ 16 := by decide
  rw [hlow, BitVec.toInt_setWidth, BitVec.toInt_eq_toNat_bmod, Int.bmod_bmod_of_dvd hdvd]

theorem clamp8 (x : Int) : clamp 8 true x = max (-128) (min x 127) := rfl

theorem between_iff (x : BitVec 16) : 128 ≤ x ∧ x < 256 ↔ 128 ≤ x.toInt ∧ x.toInt < 256 := by
  have hx := x.isLt
  rw [BitVec.toInt_eq_toNat_cond]
  show 128 ≤ x.toNat ∧ x.toNat < 256 ↔ _
  split
  · omega
  · omega

theorem pksLane_iff (x : BitVec 16) :
    (pksLane x).toInt = clamp 8 true x.toInt ↔ ¬ (128 ≤ x ∧ x < 256) := by
  have hmax : ((0x00FF#16).slt x = true) ↔ 255 < x.toInt := BitVec.slt_iff_toInt_lt
  have hmin : (x.slt 0xFF80 = true) ↔ x.toInt < -128 := BitVec.slt_iff_toInt_lt
  rw [between_iff, clamp8]
  unfold pksLane
  by_cases habove : (0x00FF#16).slt x = true
  · rw [if_pos habove]
    have hlane : (0x7F : BitVec 8).toInt = 127 := by decide
    rw [hlane]
    have := hmax.mp habove
    omega
  · rw [if_neg habove]
    have hle := mt hmax.mpr habove
    by_cases hbelow : x.slt 0xFF80 = true
    · rw [if_pos hbelow]
      have hlane : (0x80 : BitVec 8).toInt = -128 := by decide
      rw [hlane]
      have := hmin.mp hbelow
      omega
    · rw [if_neg hbelow, toInt_low]
      have hge := mt hmin.mpr hbelow
      by_cases hsmall : x.toInt < 128
      · have hsame : x.toInt.bmod 256 = x.toInt :=
          bmod_of_fits (w := 8) (by decide) (by omega) (by omega)
        omega
      · -- the lane wraps around
        have hwrap : x.toInt.bmod 256 = x.toInt - 256 := by
          have hfits : (x.toInt - 256).bmod 256 = x.toInt - 256 :=
            bmod_of_fits (w := 8) (by decide) (by omega) (by omega)
          rw [← hfits]
          exact (Int.sub_bmod_right x.toInt 256).symm
        omega

/-- What is stored for the lanes of both operands. -/
theorem lane_pkswb8 {rb result : BitVec 64} (hfunc : func .pkswb8 rc ra (.reg rb) = some result)
    {i : Nat} (hi : i < 4) : lane 8 result i = pksLane (lane 16 ra i) ∧
      lane 8 result (i + 4) = pksLane (lane 16 rb i) := by
  obtain rfl := Option.some.inj hfunc
  have hnodup : (((List.range 4).flatMap fun i =>
      [(i, pksLane (lane 16 ra i)), (i + 4, pksLane (lane 16 rb i))]).map Prod.fst).Nodup := by
    show [0, 4, 1, 5, 2, 6, 3, 7].Nodup
    decide
  constructor
  · apply lane_storeLanes hnodup
    · exact List.mem_flatMap.mpr ⟨i, List.mem_range.mpr hi, List.mem_cons_self⟩
    · omega
  · apply lane_storeLanes hnodup
    · exact List.mem_flatMap.mpr
        ⟨i, List.mem_range.mpr hi, List.mem_cons_of_mem _ List.mem_cons_self⟩
    · omega

theorem right_pkswb8_iff (rb : BitVec 64) :
    Right .pkswb8 rc ra (.reg rb) ↔ fits .pkswb8 ra (.reg rb) = true := by
  obtain ⟨result, hfunc⟩ : ∃ result, func .pkswb8 rc ra (.reg rb) = some result := ⟨_, rfl⟩
  have hright : Right .pkswb8 rc ra (.reg rb) ↔ ∀ i < 4,
      (lane 8 result i).toInt = clamp 8 true (lane 16 ra i).toInt ∧
      (lane 8 result (i + 4)).toInt = clamp 8 true (lane 16 rb i).toInt := by
    constructor
    · rintro ⟨other, hother, hholds, -⟩
      obtain rfl := Option.some.inj (hother.symm.trans hfunc)
      exact hholds
    · intro h
      exact ⟨result, hfunc, h, hfunc⟩
  have hfits : fits .pkswb8 ra (.reg rb) = true ↔ ∀ i < 4,
      ¬ (128 ≤ lane 16 ra i ∧ lane 16 ra i < 256) ∧
        ¬ (128 ≤ lane 16 rb i ∧ lane 16 rb i < 256) := by
    show ((List.range 4).all fun i => !(decide (128 ≤ lane 16 ra i) && decide
      (lane 16 ra i < 256)) &&
      !(decide (128 ≤ lane 16 rb i) && decide (lane 16 rb i < 256))) = true ↔ _
    simp only [List.all_eq_true, List.mem_range, Bool.and_eq_true, Bool.not_eq_true',
      Bool.and_eq_false_iff, decide_eq_false_iff_not, not_and_or]
  rw [hright, hfits]
  apply forall₂_congr
  intro i hi
  obtain ⟨ha, hb⟩ := lane_pkswb8 hfunc hi
  rw [ha, hb, pksLane_iff, pksLane_iff]

/-! ### All instructions -/

/-- A literal that is not negative, for the differences that forget its sign. -/
theorem fits_literal_iff (hop : op = .psubsw4 ∨ op = .psubsl2 ∨ op = .tsubsw4) (src : Operand) :
    op.fits ra src = true ↔ ∀ l, src = .literal l → l < 128 := by
  cases src with
  | reg rb => rcases hop with rfl | rfl | rfl <;> simp [fits]
  | literal l => rcases hop with rfl | rfl | rfl <;> simp [fits]

/-- A register, for the products whose array is too small. -/
theorem fits_reg_iff (hop : op = .tmulsb8 ∨ op = .tmulub8 ∨ op = .tmulusb8) (src : Operand) :
    op.fits ra src = true ↔ ∃ rb, src = .reg rb := by
  cases src with
  | reg rb => rcases hop with rfl | rfl | rfl <;> simp [fits]
  | literal l => rcases hop with rfl | rfl | rfl <;> simp [fits]

/-- **An instruction does what it means for the operands that fit, and for no others.** -/
theorem right_iff_fits (op : Opcode) (rc ra : BitVec 64) (src : Operand)
    (hform : op.hasForm src = true) : op.Right rc ra src ↔ op.fits ra src = true := by
  cases op with
  | paddsb8 => exact iff_of_true (right_paddsb8 src) rfl
  | paddsw4 => exact iff_of_true (right_paddsw4 src) rfl
  | paddsl2 => exact iff_of_true (right_paddsl2 src) rfl
  | paddub8 => exact iff_of_true (right_paddub8 src) rfl
  | padduw4 => exact iff_of_true (right_padduw4 src) rfl
  | paddul2 => exact iff_of_true (right_paddul2 src) rfl
  | psubsb8 => exact iff_of_true (right_psubsb8 src) rfl
  | psubsw4 =>
      rw [fits_literal_iff (by simp)]
      exact right_psubs_iff .psubsw4 (by decide) (by decide) (by decide) limits16 rfl
        (fun _ => rfl) (fun _ => rfl) (fun _ => rfl) src
  | psubsl2 =>
      rw [fits_literal_iff (by simp)]
      exact right_psubs_iff .psubsl2 (by decide) (by decide) (by decide) limits32 rfl
        (fun _ => rfl) (fun _ => rfl) (fun _ => rfl) src
  | psubub8 => exact iff_of_true (right_psubub8 src) rfl
  | psubuw4 => exact iff_of_true (right_psubuw4 src) rfl
  | psubul2 => exact iff_of_true (right_psubul2 src) rfl
  | taddsb8 => exact iff_of_true (right_taddsb8 src) rfl
  | taddsw4 => exact iff_of_true (right_taddsw4 src) rfl
  | taddub8 => exact iff_of_true (right_taddub8 src) rfl
  | tadduw4 => exact iff_of_true (right_tadduw4 src) rfl
  | tsubsb8 => exact iff_of_true (right_tsubsb8 src) rfl
  | tsubsw4 =>
      rw [fits_literal_iff (by simp)]
      exact right_tsubsw4_iff src
  | tsubub8 => exact iff_of_true (right_tsubub8 src) rfl
  | tsubuw4 => exact iff_of_true (right_tsubuw4 src) rfl
  | tmulsb8 =>
      rw [fits_reg_iff (by simp)]
      exact right_iff_reg_form .tmulsb8 (fun _ => rfl) (fun _ => rfl)
        (fun _ => tmul_eq (product_signed (by decide))) src
  | tmulsw4 => exact iff_of_true (right_tmulsw4 src) rfl
  | tmulub8 =>
      rw [fits_reg_iff (by simp)]
      exact right_iff_reg_form .tmulub8 (fun _ => rfl) (fun _ => rfl)
        (fun _ => tmul_eq (product_unsigned (by decide))) src
  | tmuluw4 => exact iff_of_true (right_tmuluw4 src) rfl
  | tmulusb8 =>
      rw [fits_reg_iff (by simp)]
      exact right_iff_reg_form .tmulusb8 (fun _ => rfl) (fun _ => rfl)
        (fun _ => tmul_eq (product_mixed (by decide))) src
  | tmulusw4 => exact right_tmulusw4_iff src
  | psrb8 => exact iff_of_true (right_psrb8 src) rfl
  | psrw4 => exact iff_of_true (right_psrw4 src) rfl
  | pslb8 => exact iff_of_true (right_pslb8 src) rfl
  | pslw4 => exact iff_of_true (right_pslw4 src) rfl
  | psll2 => exact right_psll2_iff src
  | psrl2 => exact iff_of_true (right_psrl2 src) rfl
  | psral2 => exact right_psral2_iff src
  | psrab8 => exact iff_of_true (right_psrab8 src) rfl
  | psraw4 => exact iff_of_true (right_psraw4 src) rfl
  | pkswb8 =>
      cases src with
      | reg rb => exact right_pkswb8_iff rb
      | literal l => cases hform

/-- The largest count that `psll2` takes. -/
theorem right_psll2_count : Right .psll2 0 0x100000001 (.reg 15) :=
  (right_iff_fits .psll2 0 0x100000001 (.reg 15) rfl).mpr (by decide)

/-- **A lane shifted left by 16 stays as it is.** -/
theorem not_right_psll2_count :
    ¬ ∀ (op : Opcode) (rc ra : BitVec 64) (src : Operand), op.hasForm src = true →
      op.Right rc ra src := by
  intro hall
  have hright := hall .psll2 0 0x100000001 (.reg 16) rfl
  have hfits : fits .psll2 0x100000001 (.reg 16) = false := by decide
  rw [right_psll2_iff, hfits] at hright
  cases hright

end Opcode

end AsimFeeder.Aint.Packed
