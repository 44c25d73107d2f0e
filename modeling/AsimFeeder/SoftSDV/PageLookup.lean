/-
What `PTranslate` computes on a descriptor whose range does not reach the end of the
address space: the page of the address, by its virtual page, and the offset in it.
-/
import AsimFeeder.SoftSDV.MemAccess

namespace AsimFeeder.SoftSDV

/-! ### Page addresses -/

/-- The number of the virtual page of an address. -/
def pageNumber (va : BitVec 64) : Nat :=
  va.toNat / 4096

theorem toNat_and_pageMask (a : BitVec 64) : (a &&& pageMask).toNat = pageNumber a * 4096 := by
  have hmask : pageMask.toNat = (2 ^ 52 - 1) * 2 ^ 12 := rfl
  have hlt := a.isLt
  rw [BitVec.toNat_and, hmask, pageNumber, show 4096 = 2 ^ 12 from rfl]
  apply Nat.eq_of_testBit_eq
  intro i
  rw [Nat.testBit_and, Nat.testBit_mul_two_pow, Nat.testBit_two_pow_sub_one,
    Nat.testBit_mul_two_pow, Nat.testBit_div_two_pow]
  by_cases h12 : 12 ≤ i
  · rw [Nat.sub_add_cancel h12, decide_eq_true h12]
    by_cases h64 : i < 64
    · rw [decide_eq_true (show i - 12 < 52 by omega)]
      simp
    · have hhigh : a.toNat.testBit i = false :=
        Nat.testBit_lt_two_pow (Nat.lt_of_lt_of_le hlt (Nat.pow_le_pow_right (by omega) (by omega)))
      simp [hhigh]
  · rw [decide_eq_false h12]
    simp

theorem toNat_and_not_pageMask (a : BitVec 64) : (a &&& ~~~pageMask).toNat = a.toNat % 4096 := by
  have hmask : (~~~pageMask).toNat = 2 ^ 12 - 1 := rfl
  rw [BitVec.toNat_and, hmask, Nat.and_two_pow_sub_one_eq_mod]

theorem and_pageMask_eq_iff {a b : BitVec 64} :
    a &&& pageMask = b &&& pageMask ↔ pageNumber a = pageNumber b := by
  rw [← BitVec.toNat_inj, toNat_and_pageMask, toNat_and_pageMask]
  omega

/-- Adding an offset does not leave the page. -/
theorem page_add_offset {page : BitVec 64} (h : page &&& pageMask = page) (va : BitVec 64) :
    (page + (va &&& ~~~pageMask)) &&& pageMask = page := by
  have hor : page + (va &&& ~~~pageMask) = page ||| (va &&& ~~~pageMask) := by
    refine BitVec.add_eq_or_of_and_eq_zero _ _ ?_
    rw [← h]
    ext i hi
    simp only [BitVec.getElem_and, BitVec.getElem_not, BitVec.getElem_zero]
    cases pageMask[i] <;> simp
  rw [hor]
  ext i hi
  have hbit := congrArg (fun x : BitVec 64 => x[i]) h
  simp only [BitVec.getElem_and, BitVec.getElem_or, BitVec.getElem_not] at hbit ⊢
  cases hmask : pageMask[i] <;> simp_all

namespace MemAccess

variable {r : MemAccess} {va : BitVec 64}

/-! ### The bytes of a reference -/

/-- The reference contains the byte at `va`. -/
def Contains (r : MemAccess) (va : BitVec 64) : Prop :=
  r.baseVA.toNat ≤ va.toNat ∧ va.toNat < r.baseVA.toNat + r.nBytes

instance (r : MemAccess) (va : BitVec 64) : Decidable (r.Contains va) :=
  inferInstanceAs (Decidable (_ ∧ _))

/-- The value byte at `va`, where values are recorded. -/
def valueAt (r : MemAccess) (va : BitVec 64) : Option UInt8 :=
  if r.valueSet then
    r.valueStorage.map fun s => s.byte (va.toNat - r.baseVA.toNat)
  else
    none

/-- The page `PTranslate` looks the address up in. -/
def pageOf (r : MemAccess) (va : BitVec 64) : BitVec 64 :=
  if r.nPages = 1 ∨ pageNumber va = pageNumber r.baseVA then r.pages 0 else r.pages 1

theorem pageOf_and_pageMask (r : MemAccess) (va : BitVec 64) :
    r.pageOf va &&& pageMask = r.pageOf va := by
  unfold pageOf
  split <;> exact r.aligned _

theorem pTranslate_eq (hpages : 0 < r.nPages) (hend : r.baseVA.toNat + r.nBytes < 2 ^ 64)
    (hva : r.Contains va) : r.pTranslate va = .ok (r.pageOf va + (va &&& ~~~pageMask)) := by
  obtain ⟨hlo, hhi⟩ := hva
  have hrange : r.baseVA ≤ va ∧ va + 1 ≤ r.baseVA + BitVec.ofNat 64 r.nBytes := by
    rw [BitVec.le_def, BitVec.le_def, BitVec.toNat_add, BitVec.toNat_add, BitVec.toNat_ofNat,
      show (1 : BitVec 64).toNat = 1 from rfl]
    omega
  unfold pTranslate pTranslateRegion pageOf
  simp only
  rw [if_neg (Nat.ne_of_gt hpages), if_neg (not_not.mpr hrange)]
  by_cases h1 : r.nPages = 1
  · rw [if_pos h1, if_pos (Or.inl h1)]
    rfl
  · rw [if_neg h1]
    by_cases hpage : pageNumber va = pageNumber r.baseVA
    · rw [if_neg (not_not.mpr (and_pageMask_eq_iff.mpr hpage)), if_pos (Or.inr hpage)]
      rfl
    · rw [if_pos (mt and_pageMask_eq_iff.mp hpage), if_neg (by simp [h1, hpage])]
      rfl

end MemAccess

end AsimFeeder.SoftSDV
