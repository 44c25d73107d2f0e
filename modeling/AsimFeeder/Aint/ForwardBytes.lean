/-
Bytes of quadwords.

An access of 1, 2, 4 or 8 bytes that is aligned lies in one quadword, and its mask picks
its bytes there.  What a store leaves in the buffer covers byte `a` in the sense of
addresses if and only if it covers the bits of `a` in the sense of masks.
-/
import AsimFeeder.Aint.AintThread

namespace AsimFeeder.Aint

variable {va a : BitVec 64} {size : Nat}

/-- Byte `k` of a word. -/
def byteOf (data : BitVec 64) (k : Nat) : BitVec 8 := data.extractLsb' (8 * k) 8

/-- Whether an access covers an address. -/
def covers (size : Nat) (va a : BitVec 64) : Bool :=
  decide (va.toNat ≤ a.toNat) && decide (a.toNat < va.toNat + size)

/-- Where an access of this size may be. -/
def aligned (size : Nat) (va : BitVec 64) : Bool := va.toNat % size == 0

/-- The sizes of a memory operation. -/
def isSize (size : Nat) : Bool := size == 1 || size == 2 || size == 4 || size == 8

theorem isSize_iff : isSize size = true ↔ size = 1 ∨ size = 2 ∨ size = 4 ∨ size = 8 := by
  simp [isSize, or_assoc]

theorem isSize_pos (h : isSize size = true) : 0 < size ∧ size ≤ 8 := by
  rcases isSize_iff.mp h with rfl | rfl | rfl | rfl <;> decide

theorem covers_iff : covers size va a = true ↔ va.toNat ≤ a.toNat ∧ a.toNat < va.toNat + size := by
  simp [covers]

/-! ### Addresses of quadwords -/

theorem toNat_offset (va : BitVec 64) : (va &&& 7).toNat = va.toNat % 8 := by
  rw [BitVec.toNat_and]
  exact Nat.and_two_pow_sub_one_eq_mod va.toNat 3

theorem toNat_shift (va : BitVec 64) : ((va &&& 7) <<< 3).toNat = 8 * (va.toNat % 8) := by
  rw [BitVec.toNat_shiftLeft, toNat_offset, Nat.shiftLeft_eq]
  omega

theorem toNat_quadword (va : BitVec 64) : (va &&& QWORD_MASK).toNat = 8 * (va.toNat / 8) := by
  apply Nat.eq_of_testBit_eq
  intro i
  have hseven : (7#64).getLsbD i = decide (i < 3) := Nat.testBit_two_pow_sub_one 3 i
  rw [BitVec.testBit_toNat, BitVec.getLsbD_and, QWORD_MASK, BitVec.getLsbD_not, hseven,
    show 8 = 2 ^ 3 from rfl, Nat.testBit_two_pow_mul, Nat.testBit_div_two_pow]
  by_cases hi : 3 ≤ i
  · rw [Nat.sub_add_cancel hi, ← BitVec.testBit_toNat]
    by_cases hlt : i < 64
    · simp [hi, hlt, Nat.not_lt.mpr hi]
    · simp [hlt, hi, BitVec.getLsbD_of_ge va i (Nat.not_lt.mp hlt), BitVec.testBit_toNat]
  · simp [hi, Nat.not_le.mp hi]

theorem quadword_eq_iff : va &&& QWORD_MASK = a &&& QWORD_MASK ↔ va.toNat / 8 = a.toNat / 8 := by
  rw [← BitVec.toNat_inj, toNat_quadword, toNat_quadword]
  omega

/-- An aligned access stays in its quadword. -/
theorem aligned_room (hsize : isSize size = true) (halign : aligned size va = true) :
    va.toNat % 8 + size ≤ 8 := by
  have halign : va.toNat % size = 0 := eq_of_beq halign
  rcases isSize_iff.mp hsize with rfl | rfl | rfl | rfl <;> omega

/-! ### Masks -/

/-- **The mask of an access** has the bits of its bytes. -/
theorem getLsbD_byteMask (hsize : isSize size = true) (halign : aligned size va = true) (j : Nat) :
    (byteMask size va).getLsbD j =
      (decide (8 * (va.toNat % 8) ≤ j) && decide (j < 8 * (va.toNat % 8 + size))) := by
  have hroom := aligned_room hsize halign
  have hlow {n : Nat} (hn : 8 * n < 64)
    (hones : 1#64 <<< (8 * n) - 1 = BitVec.ofNat 64 (2 ^ (8 * n) - 1)) :
      ((1#64 <<< (8 * n) - 1) <<< ((va &&& 7) <<< 3)).getLsbD j =
        (decide (j < 64) && decide (8 * (va.toNat % 8) ≤ j) &&
          decide (j < 8 * (va.toNat % 8 + n))) := by
    rw [hones, BitVec.shiftLeft_eq', toNat_shift, BitVec.getLsbD_shiftLeft, BitVec.getLsbD_ofNat,
      Nat.testBit_two_pow_sub_one, Bool.eq_iff_iff]
    simp only [Bool.and_eq_true, decide_eq_true_eq, Bool.not_eq_true', decide_eq_false_iff_not]
    omega
  unfold byteMask
  rcases isSize_iff.mp hsize with rfl | rfl | rfl | rfl
  · rw [if_neg (by decide), if_neg (by decide), hlow (by decide) (by decide), Bool.eq_iff_iff]
    simp only [Bool.and_eq_true, decide_eq_true_eq]
    omega
  · rw [if_neg (by decide), if_neg (by decide), hlow (by decide) (by decide), Bool.eq_iff_iff]
    simp only [Bool.and_eq_true, decide_eq_true_eq]
    omega
  · rw [if_neg (by decide), if_neg (by decide), hlow (by decide) (by decide), Bool.eq_iff_iff]
    simp only [Bool.and_eq_true, decide_eq_true_eq]
    omega
  · rw [if_neg (by decide), if_pos rfl, BitVec.getLsbD_allOnes, Bool.eq_iff_iff]
    simp only [Bool.and_eq_true, decide_eq_true_eq]
    omega

/-- **An access covers an address if its mask covers the bits of that byte.** -/
theorem covers_iff_mask (hsize : isSize size = true) (halign : aligned size va = true) {b : Nat}
    (hb : b < 8) : (va &&& QWORD_MASK = a &&& QWORD_MASK ∧
      (byteMask size va).getLsbD (8 * (a.toNat % 8) + b) = true) ↔ covers size va a = true := by
  have hroom := aligned_room hsize halign
  rw [quadword_eq_iff, getLsbD_byteMask hsize halign, covers_iff]
  simp only [Bool.and_eq_true, decide_eq_true_eq]
  omega

/-- The data of a store where it belongs in its quadword. -/
theorem getLsbD_placed (data : BitVec 64) (hcovers : covers size va a = true)
    (hsame : va &&& QWORD_MASK = a &&& QWORD_MASK) {b : Nat} (hb : b < 8) :
    (data <<< ((va &&& 7) <<< 3)).getLsbD (8 * (a.toNat % 8) + b) =
      (byteOf data (a.toNat - va.toNat)).getLsbD b := by
  obtain ⟨hlo, -⟩ := covers_iff.mp hcovers
  have hq := quadword_eq_iff.mp hsame
  have hindex : 8 * (a.toNat % 8) + b - 8 * (va.toNat % 8) = 8 * (a.toNat - va.toNat) + b := by
    omega
  have hnot : ¬ 8 * (a.toNat % 8) + b < 8 * (va.toNat % 8) := by omega
  have hlt : 8 * (a.toNat % 8) + b < 64 := by omega
  rw [BitVec.shiftLeft_eq', toNat_shift, BitVec.getLsbD_shiftLeft, hindex]
  unfold byteOf
  rw [BitVec.getLsbD_extractLsb']
  simp [hnot, hlt, hb]

/-! ### Translation -/

/-- The translation of a process, in pages of 64 KB; zero for a page that is not mapped. -/
def PMAP (page : BitVec 48 → BitVec 48) (va : BitVec 64) : BitVec 64 :=
  if page (va.extractLsb' 16 48) = 0 then 0
  else page (va.extractLsb' 16 48) ++ va.extractLsb' 0 16

theorem toNat_PMAP (page : BitVec 48 → BitVec 48) (va : BitVec 64) :
    (PMAP page va).toNat =
      if page (va.extractLsb' 16 48) = 0 then 0
      else (page (va.extractLsb' 16 48)).toNat * 65536 + va.toNat % 65536 := by
  unfold PMAP
  split
  · rfl
  · rw [BitVec.toNat_append, BitVec.extractLsb'_toNat, Nat.shiftRight_zero,
      ← Nat.shiftLeft_add_eq_or_of_lt (Nat.mod_lt _ (by decide)), Nat.shiftLeft_eq]

/-- The addresses of a quadword are translated together. -/
theorem PMAP_quadword (page : BitVec 48 → BitVec 48)
    (h : va &&& QWORD_MASK = a &&& QWORD_MASK) :
    (PMAP page va = 0 ↔ PMAP page a = 0) ∧
      PMAP page va &&& QWORD_MASK = PMAP page a &&& QWORD_MASK ∧
      (PMAP page a ≠ 0 → (PMAP page a).toNat % 8 = a.toNat % 8) := by
  have hq := quadword_eq_iff.mp h
  have hpage : va.extractLsb' 16 48 = a.extractLsb' 16 48 := by
    apply BitVec.eq_of_toNat_eq
    rw [BitVec.extractLsb'_toNat, BitVec.extractLsb'_toNat, Nat.shiftRight_eq_div_pow,
      Nat.shiftRight_eq_div_pow]
    omega
  have hva := toNat_PMAP page va
  have ha := toNat_PMAP page a
  rw [hpage] at hva
  rw [quadword_eq_iff, ← BitVec.toNat_inj, ← BitVec.toNat_inj, ne_eq, ← BitVec.toNat_inj]
  have hnull : (0 : BitVec 64).toNat = 0 := rfl
  by_cases hzero : page (a.extractLsb' 16 48) = 0
  · rw [if_pos hzero] at hva ha
    omega
  · rw [if_neg hzero] at hva ha
    have hpos : (page (a.extractLsb' 16 48)).toNat ≠ 0 := by
      intro heq
      exact hzero (BitVec.eq_of_toNat_eq heq)
    omega

end AsimFeeder.Aint
