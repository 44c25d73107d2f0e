/-
Packed-integer instructions that do what they mean.

What an instruction makes of the lanes of `RB` is what it means, and it depends on these
lanes only, so that a literal does the same as a register.
-/
import AsimFeeder.Aint.PackedTotals

namespace AsimFeeder.Aint.Packed

open Lib

variable {w wide n : Nat} {rc ra : BitVec 64}

/-! ### What is made of the lanes -/

section Families

variable {f g : Nat → BitVec w} {rb : BitVec 64}

theorem padds_congr {top bottom : BitVec wide} {hi lo : BitVec w} (h : ∀ i < n, f i = g i) :
    padds wide n rc ra f top bottom hi lo = padds wide n rc ra g top bottom hi lo := by
  apply forLanes_congr
  intro i hi
  rw [h i hi]

theorem holds_padds {top bottom : BitVec wide} {hi lo : BitVec w} (hroom : w * n ≤ 64)
    (hlimits : Limits bottom top lo hi) : Meaning.Holds ra rb
      (padds wide n rc ra (lane w rb) top bottom hi lo) (.clamped w n true (· + ·)) := by
  intro i hi'
  unfold padds
  rw [lane_forLanes hi' hroom]
  exact hlimits.add _ _

theorem psubs_congr {top bottom : BitVec wide} {hi lo : BitVec w} (h : ∀ i < n, f i = g i) :
    psubs wide n rc ra f bottom top lo hi = psubs wide n rc ra g bottom top lo hi := by
  apply forLanes_congr
  intro i hi
  rw [h i hi]

theorem holds_psubs {top bottom : BitVec wide} {hi lo : BitVec w} (hroom : w * n ≤ 64)
    (hlimits : Limits bottom top lo hi) : Meaning.Holds ra rb
      (psubs wide n rc ra (lane w rb) bottom top lo hi) (.clamped w n true (· - ·)) := by
  intro i hi'
  unfold psubs
  rw [lane_forLanes hi' hroom]
  exact hlimits.sub _ _

theorem paddu_congr {max : BitVec wide} (h : ∀ i < n, f i = g i) :
    paddu wide n rc ra f max = paddu wide n rc ra g max := by
  apply forLanes_congr
  intro i hi
  rw [h i hi]

theorem holds_paddu {max : BitVec wide} (hroom : w * n ≤ 64) (hwide : w < wide)
    (hmax : max.toNat = 2 ^ w - 1) : Meaning.Holds ra rb
      (paddu wide n rc ra (lane w rb) max) (.clamped w n false (· + ·)) := by
  intro i hi
  unfold paddu
  rw [lane_forLanes hi hroom]
  exact clamped_addu hwide hmax _ _

theorem psubu_congr (h : ∀ i < n, f i = g i) : psubu n rc ra f = psubu n rc ra g := by
  apply forLanes_congr
  intro i hi
  rw [h i hi]

theorem holds_psubu (hroom : w * n ≤ 64) : Meaning.Holds ra rb
    (psubu n rc ra (lane w rb)) (.clamped w n false (· - ·)) := by
  intro i hi
  unfold psubu
  rw [lane_forLanes hi hroom]
  exact clamped_subu _ _

theorem foldl_range_congr {step step' : BitVec 64 → Nat → BitVec 64}
    (h : ∀ temp, ∀ i < n, step temp i = step' temp i) :
    (List.range n).foldl step 0 = (List.range n).foldl step' 0 := by
  apply List.foldl_ext
  intro temp i hi
  exact h temp i (List.mem_range.mp hi)

theorem tadd_congr {long : BitVec w → BitVec 64} (h : ∀ i < n, f i = g i) :
    tadd n ra f long = tadd n ra g long := by
  apply foldl_range_congr
  intro temp i hi
  rw [h i hi]

theorem tsub_congr {long : BitVec w → BitVec 64} (h : ∀ i < n, f i = g i) :
    tsub n ra f long = tsub n ra g long := by
  apply foldl_range_congr
  intro temp i hi
  rw [h i hi]

theorem tmul_congr {product : BitVec w → BitVec w → BitVec 64} (h : ∀ i < n, f i = g i) :
    tmul n ra f product = tmul n ra g product := by
  apply foldl_range_congr
  intro temp i hi
  rw [h i hi]

theorem pshift_congr {shift : BitVec w → Nat → BitVec w} {mask : BitVec w} (hn : 0 < n)
    (h : ∀ i < n, f i = g i) : pshift n rc ra f shift mask = pshift n rc ra g shift mask := by
  unfold pshift
  rw [h 0 hn]

theorem psra_congr {sign mask : BitVec w} (h : f 0 &&& mask = g 0 &&& mask) :
    psra n rc ra f sign mask = psra n rc ra g sign mask := by
  unfold psra
  rw [h]

/-- The lowest lane has the lowest bits of the count. -/
theorem toNat_count {rb : BitVec 64} {mask : BitVec w} {k : Nat} (hk : k ≤ w)
    (hmask : mask.toNat = 2 ^ k - 1) : (lane w rb 0 &&& mask).toNat = rb.toNat % 2 ^ k := by
  have hdvd : 2 ^ k ∣ 2 ^ w := Nat.pow_dvd_pow 2 hk
  unfold lane
  rw [BitVec.toNat_and, hmask, Nat.and_two_pow_sub_one_eq_mod, BitVec.extractLsb'_toNat,
    Nat.mul_zero, Nat.shiftRight_zero, Nat.mod_mod_of_dvd _ hdvd]

theorem holds_pshift {shift : BitVec w → Nat → BitVec w} {mask : BitVec w} {k : Nat}
    (hroom : w * n ≤ 64) (hk : w = 2 ^ k) (hmask : mask.toNat = 2 ^ k - 1) :
    Meaning.Holds ra rb (pshift n rc ra (lane w rb) shift mask) (.shifted w n shift) := by
  have hle : k ≤ w := hk ▸ Nat.le_of_lt Nat.lt_two_pow_self
  intro i hi
  unfold pshift
  rw [lane_forLanes hi hroom, toNat_count hle hmask, ← hk]

theorem holds_psra {sign mask : BitVec w} {k : Nat} (hroom : w * n ≤ 64)
    (hsign : sign = BitVec.intMin w) (hk : w = 2 ^ k) (hmask : mask.toNat = 2 ^ k - 1) :
    Meaning.Holds ra rb (psra n rc ra (lane w rb) sign mask) (.shifted w n BitVec.sshiftRight) := by
  have hle : k ≤ w := hk ▸ Nat.le_of_lt Nat.lt_two_pow_self
  have hlt : rb.toNat % 2 ^ k < w := lt_of_lt_of_eq (Nat.mod_lt _ (Nat.two_pow_pos k)) hk.symm
  intro i hi
  unfold psra
  rw [lane_forLanes hi hroom, toNat_count hle hmask]
  dsimp only
  rw [sshiftRight_or_signs _ (Nat.le_of_lt hlt), ← hk]
  simp only [and_sign hsign]

end Families

namespace Opcode

variable {op : Opcode}

/-- The literal has the same effect as the register, and the register the right one. -/
theorem right_of_reg {src : Operand} (out : BitVec 64 → BitVec 64)
    (hreg : ∀ rb, op.func rc ra (.reg rb) = some (out rb))
    (hliteral : ∀ l, src = .literal l → op.func rc ra src = some (out (op.literalWord l)))
    (hholds : op.meaning.Holds ra (op.word src) (out (op.word src))) : op.Right rc ra src := by
  refine ⟨out (op.word src), ?_, hholds, hreg _⟩
  cases src with
  | reg rb => exact hreg rb
  | literal l => exact hliteral l rfl

variable (op) in
theorem func_literal (f : (Nat → BitVec w) → BitVec 64) {temp : BitVec 8 → BitVec w}
    (hroom : w * n ≤ 64) (hliteral : ∀ l, op.func rc ra (.literal l) = some (f fun _ => temp l))
    (hword : ∀ l, op.literalWord l = forLanes n 0 fun _ => temp l)
    (hcongr : ∀ g g' : Nat → BitVec w, (∀ i < n, g i = g' i) → f g = f g') (l : BitVec 8) :
    op.func rc ra (.literal l) = some (f (lane w (op.literalWord l))) := by
  rw [hliteral, hcongr]
  intro i hi
  rw [hword, lane_forLanes hi hroom]

variable (op) in
theorem right_of_lanes (f : (Nat → BitVec w) → BitVec 64) {temp : BitVec 8 → BitVec w}
    (hroom : w * n ≤ 64) (hreg : ∀ rb, op.func rc ra (.reg rb) = some (f (lane w rb)))
    (hliteral : ∀ l, op.func rc ra (.literal l) = some (f fun _ => temp l))
    (hword : ∀ l, op.literalWord l = forLanes n 0 fun _ => temp l)
    (hcongr : ∀ g g' : Nat → BitVec w, (∀ i < n, g i = g' i) → f g = f g')
    (hholds : ∀ rb, op.meaning.Holds ra rb (f (lane w rb))) (src : Operand) :
    op.Right rc ra src := by
  apply right_of_reg (fun rb => f (lane w rb)) hreg
  · rintro l rfl
    exact func_literal op f hroom hliteral hword hcongr l
  · exact hholds _

/-- A literal of eight bits is a lane of eight bits. -/
theorem literal8 (n : Nat) (l : BitVec 8) :
    (forLanes n 0 fun _ => l : BitVec 64) = forLanes n 0 fun _ => unsignedLiteral 8 l := by
  unfold unsignedLiteral
  rw [BitVec.setWidth_eq]

section Clamped

theorem limits8 : Limits (0xFF80 : BitVec 16) 0x7F (0x80 : BitVec 8) 0x7F where
  pos := by decide
  wider := by decide
  bottom := by decide
  top := by decide
  lo := by decide
  hi := by decide

theorem limits16 : Limits (0xFFFF8000 : BitVec 32) 0x7FFF (0x8000 : BitVec 16) 0x7FFF where
  pos := by decide
  wider := by decide
  bottom := by decide
  top := by decide
  lo := by decide
  hi := by decide

theorem limits32 :
    Limits (0xFFFFFFFF80000000 : BitVec 64) 0x7FFFFFFF (0x80000000 : BitVec 32) 0x7FFFFFFF where
  pos := by decide
  wider := by decide
  bottom := by decide
  top := by decide
  lo := by decide
  hi := by decide

theorem right_paddsb8 (src : Operand) : Right .paddsb8 rc ra src :=
  right_of_lanes .paddsb8 (fun g => padds 16 8 rc ra g 0x7F 0xFF80 0x7F 0x80) (by decide)
    (fun _ => rfl) (fun _ => rfl)
    (literal8 8) (fun _ _ => padds_congr) (fun _ => holds_padds (by decide) limits8) src

theorem right_paddsw4 (src : Operand) : Right .paddsw4 rc ra src :=
  right_of_lanes .paddsw4 (fun g => padds 32 4 0 ra g 0x7FFF 0xFFFF8000 0x7FFF 0x8000) (by decide)
    (fun _ => rfl) (fun _ => rfl)
    (fun _ => rfl) (fun _ _ => padds_congr) (fun _ => holds_padds (by decide) limits16) src

theorem right_paddsl2 (src : Operand) : Right .paddsl2 rc ra src :=
  right_of_lanes .paddsl2
    (fun g => padds 64 2 0 ra g 0x7FFFFFFF 0xFFFFFFFF80000000 0x7FFFFFFF 0x80000000)
    (by decide) (fun _ => rfl) (fun _ => rfl)
    (fun _ => rfl) (fun _ _ => padds_congr) (fun _ => holds_padds (by decide) limits32) src

theorem right_paddub8 (src : Operand) : Right .paddub8 rc ra src :=
  right_of_lanes .paddub8 (fun g => paddu 16 8 rc ra g 0xFF) (by decide) (fun _ => rfl)
    (fun _ => rfl)
    (literal8 8) (fun _ _ => paddu_congr) (fun _ => holds_paddu (by decide) (by decide) rfl) src

theorem right_padduw4 (src : Operand) : Right .padduw4 rc ra src :=
  right_of_lanes .padduw4 (fun g => paddu 32 4 0 ra g 0xFFFF) (by decide) (fun _ => rfl)
    (fun _ => rfl)
    (fun _ => rfl) (fun _ _ => paddu_congr) (fun _ => holds_paddu (by decide) (by decide) rfl) src

theorem right_paddul2 (src : Operand) : Right .paddul2 rc ra src :=
  right_of_lanes .paddul2 (fun g => paddu 64 2 0 ra g 0xFFFFFFFF) (by decide) (fun _ => rfl)
    (fun _ => rfl)
    (fun _ => rfl) (fun _ _ => paddu_congr) (fun _ => holds_paddu (by decide) (by decide) rfl) src

theorem right_psubsb8 (src : Operand) : Right .psubsb8 rc ra src :=
  right_of_lanes .psubsb8 (fun g => psubs 16 8 rc ra g 0xFF80 0x7F 0x80 0x7F) (by decide)
    (fun _ => rfl) (fun _ => rfl)
    (literal8 8) (fun _ _ => psubs_congr) (fun _ => holds_psubs (by decide) limits8) src

theorem right_psubub8 (src : Operand) : Right .psubub8 rc ra src :=
  right_of_lanes .psubub8 (fun g => psubu 8 rc ra g) (by decide) (fun _ => rfl) (fun _ => rfl)
    (literal8 8) (fun _ _ => psubu_congr) (fun _ => holds_psubu (by decide)) src

theorem right_psubuw4 (src : Operand) : Right .psubuw4 rc ra src :=
  right_of_lanes .psubuw4 (fun g => psubu 4 0 ra g) (by decide) (fun _ => rfl) (fun _ => rfl)
    (fun _ => rfl) (fun _ _ => psubu_congr) (fun _ => holds_psubu (by decide)) src

theorem right_psubul2 (src : Operand) : Right .psubul2 rc ra src :=
  right_of_lanes .psubul2 (fun g => psubu 2 0 ra g) (by decide) (fun _ => rfl) (fun _ => rfl)
    (fun _ => rfl) (fun _ _ => psubu_congr) (fun _ => holds_psubu (by decide)) src

end Clamped

section Totals

theorem right_taddsb8 (src : Operand) : Right .taddsb8 rc ra src :=
  right_of_lanes .taddsb8 (fun g => tadd 8 ra g (·.signExtend 64)) (by decide) (fun _ => rfl)
    (fun _ => rfl)
    (literal8 8) (fun _ _ => tadd_congr) (fun _ => tadd_eq signExtend_eq_ofInt) src

theorem right_taddsw4 (src : Operand) : Right .taddsw4 rc ra src :=
  right_of_lanes .taddsw4 (fun g => tadd 4 ra g (·.signExtend 64)) (by decide) (fun _ => rfl)
    (fun _ => rfl)
    (fun _ => rfl) (fun _ _ => tadd_congr) (fun _ => tadd_eq signExtend_eq_ofInt) src

theorem right_taddub8 (src : Operand) : Right .taddub8 rc ra src :=
  right_of_lanes .taddub8 (fun g => tadd 8 ra g (·.setWidth 64)) (by decide) (fun _ => rfl)
    (fun _ => rfl)
    (literal8 8) (fun _ _ => tadd_congr) (fun _ => tadd_eq setWidth_eq_ofInt) src

theorem right_tadduw4 (src : Operand) : Right .tadduw4 rc ra src :=
  right_of_lanes .tadduw4 (fun g => tadd 4 ra g (·.setWidth 64)) (by decide) (fun _ => rfl)
    (fun _ => rfl)
    (fun _ => rfl) (fun _ _ => tadd_congr) (fun _ => tadd_eq setWidth_eq_ofInt) src

theorem right_tsubsb8 (src : Operand) : Right .tsubsb8 rc ra src :=
  right_of_lanes .tsubsb8 (fun g => tsub 8 ra g (·.signExtend 64)) (by decide) (fun _ => rfl)
    (fun _ => rfl)
    (literal8 8) (fun _ _ => tsub_congr) (fun _ => tsub_eq signExtend_eq_ofInt) src

theorem right_tsubub8 (src : Operand) : Right .tsubub8 rc ra src :=
  right_of_lanes .tsubub8 (fun g => tsub 8 ra g (·.setWidth 64)) (by decide) (fun _ => rfl)
    (fun _ => rfl)
    (literal8 8) (fun _ _ => tsub_congr) (fun _ => tsub_eq setWidth_eq_ofInt) src

theorem right_tsubuw4 (src : Operand) : Right .tsubuw4 rc ra src :=
  right_of_lanes .tsubuw4 (fun g => tsub 4 ra g (·.setWidth 64)) (by decide) (fun _ => rfl)
    (fun _ => rfl)
    (fun _ => rfl) (fun _ _ => tsub_congr) (fun _ => tsub_eq setWidth_eq_ofInt) src

theorem right_tmulsw4 (src : Operand) : Right .tmulsw4 rc ra src :=
  right_of_lanes .tmulsw4 (fun g => tmul 4 ra g fun a b =>
    (a.signExtend 32 * b.signExtend 32).signExtend 64) (by decide) (fun _ => rfl) (fun _ => rfl)
    (fun _ => rfl) (fun _ _ => tmul_congr) (fun _ => tmul_eq (product_signed (by decide))) src

theorem right_tmuluw4 (src : Operand) : Right .tmuluw4 rc ra src :=
  right_of_lanes .tmuluw4 (fun g => tmul 4 ra g fun a b => a.setWidth 64 * b.setWidth 64)
    (by decide) (fun _ => rfl) (fun _ => rfl)
    (fun _ => rfl) (fun _ _ => tmul_congr) (fun _ => tmul_eq product_long) src

end Totals

section Shifts

theorem right_psrb8 (src : Operand) : Right .psrb8 rc ra src :=
  right_of_lanes .psrb8 (fun g => pshift 8 0 ra g (· >>> ·) 0x7) (by decide) (fun _ => rfl)
    (fun _ => rfl)
    (literal8 8) (fun _ _ => pshift_congr (by decide))
    (fun _ => holds_pshift (k := 3) (by decide) rfl rfl) src

theorem right_psrw4 (src : Operand) : Right .psrw4 rc ra src :=
  right_of_lanes .psrw4 (fun g => pshift 4 0 ra g (· >>> ·) 0xF) (by decide) (fun _ => rfl)
    (fun _ => rfl)
    (fun _ => rfl) (fun _ _ => pshift_congr (by decide))
    (fun _ => holds_pshift (k := 4) (by decide) rfl rfl) src

theorem right_pslb8 (src : Operand) : Right .pslb8 rc ra src :=
  right_of_lanes .pslb8 (fun g => pshift 8 0 ra g (· <<< ·) 0x7) (by decide) (fun _ => rfl)
    (fun _ => rfl)
    (literal8 8) (fun _ _ => pshift_congr (by decide))
    (fun _ => holds_pshift (k := 3) (by decide) rfl rfl) src

theorem right_pslw4 (src : Operand) : Right .pslw4 rc ra src :=
  right_of_lanes .pslw4 (fun g => pshift 4 0 ra g (· <<< ·) 0xF) (by decide) (fun _ => rfl)
    (fun _ => rfl)
    (fun _ => rfl) (fun _ _ => pshift_congr (by decide))
    (fun _ => holds_pshift (k := 4) (by decide) rfl rfl) src

theorem right_psrl2 (src : Operand) : Right .psrl2 rc ra src :=
  right_of_lanes .psrl2 (fun g => pshift 2 0 ra g (· >>> ·) 0x1F) (by decide) (fun _ => rfl)
    (fun _ => rfl)
    (fun _ => rfl) (fun _ _ => pshift_congr (by decide))
    (fun _ => holds_pshift (k := 5) (by decide) rfl rfl) src

theorem right_psrab8 (src : Operand) : Right .psrab8 rc ra src :=
  right_of_lanes .psrab8 (fun g => psra 8 0 ra g 0x80 0x7) (by decide) (fun _ => rfl) (fun _ => rfl)
    (literal8 8) (fun _ _ h => psra_congr (congrArg (· &&& 0x7) (h 0 (by decide))))
    (fun _ => holds_psra (k := 3) (by decide) rfl rfl rfl) src

/-- The sign of a literal does not reach the count. -/
theorem count16_literal : ∀ l : BitVec 8, l.setWidth 16 &&& 0xF = l.signExtend 16 &&& 0xF := by
  decide

theorem count32_literal : ∀ l : BitVec 8, l.setWidth 32 &&& 0x1F = l.signExtend 32 &&& 0x1F := by
  decide

theorem right_psraw4 (src : Operand) : Right .psraw4 rc ra src := by
  apply right_of_reg fun rb => psra 4 0 ra (lane 16 rb) 0x8000 0xF
  · intro rb
    rfl
  · rintro l rfl
    apply congrArg some
    apply psra_congr
    show _ = lane 16 (forLanes 4 0 fun _ => l.signExtend 16) 0 &&& _
    rw [lane_forLanes (by decide) (by decide)]
    exact count16_literal l
  · exact holds_psra (k := 4) (by decide) rfl rfl rfl

end Shifts

end Opcode

end AsimFeeder.Aint.Packed
