/-
Which physical addresses a reference has, and which of them `VTranslate` finds
(`softsdv_data.h`).

The first virtual page of a reference has the first physical page.  If there are two pages, all
that is behind has the second one, else the first one too.  `VTranslate` looks at the first page
that is the one of the physical address, and only at the virtual page with that number.
-/
import AsimFeeder.SoftSDV.VTranslate

namespace AsimFeeder.SoftSDV

namespace MemAccess

/-- The reference reads the physical address at the virtual one. -/
def ReadsAt (ld : MemAccess) (va pa : BitVec 64) : Prop :=
  ld.Contains va ∧ 0 < ld.nPages ∧ ld.pageOf va + (va &&& ~~~pageMask) = pa

instance (ld : MemAccess) (va pa : BitVec 64) : Decidable (ld.ReadsAt va pa) :=
  inferInstanceAs (Decidable (_ ∧ _ ∧ _))

/-- The address on the `n`th virtual page that has the offset of the physical address. -/
def place (ld : MemAccess) (n : Nat) (pa : BitVec 64) : Nat :=
  (pageNumber ld.baseVA + n) * 4096 + pa.toNat % 4096

/-- The physical page of the `n`th virtual page. -/
def pageAt (ld : MemAccess) (n : Nat) : BitVec 64 :=
  if ld.nPages = 1 ∨ n = 0 then ld.pages 0 else ld.pages 1

/-- Some virtual page of the reference is on the page of the physical address, and the
reference includes the offset there. -/
def Has (ld : MemAccess) (pa : BitVec 64) : Prop :=
  0 < ld.nPages ∧ ∃ n, ld.pageAt n = pa &&& pageMask ∧ ld.baseVA.toNat ≤ ld.place n pa ∧
    ld.place n pa < ld.baseVA.toNat + ld.nBytes ∧ ld.place n pa < 2 ^ 64

/-- The `i`th page is the first one that is the page of the physical address. -/
def FirstPage (ld : MemAccess) (i : Fin 2) (pa : BitVec 64) : Prop :=
  i.val < ld.nPages ∧ pa &&& pageMask = ld.pages i ∧ ∀ j < i, pa &&& pageMask ≠ ld.pages j

/-- The range begins in the reference and does not end behind it, both ends modulo `2 ^ 64`. -/
def InReference (ld : MemAccess) (i : Fin 2) (pa : BitVec 64) (size : BitVec 32) : Prop :=
  ld.baseVA.toNat ≤ ld.place i pa ∧ ld.place i pa < 2 ^ 64 ∧
    (ld.place i pa + size.toNat) % 2 ^ 64 ≤ (ld.baseVA.toNat + ld.nBytes) % 2 ^ 64

/-- The range is in the reference without wrapping.  It stays in its page, or goes from the
first page to the second and that is the one behind it in memory too. -/
def Straight (ld : MemAccess) (i : Fin 2) (pa : BitVec 64) (size : BitVec 32) : Prop :=
  ld.place i pa + size.toNat ≤ 2 ^ 64 ∧
    ld.place i pa + size.toNat ≤ ld.baseVA.toNat + ld.nBytes ∧
    (pa.toNat % 4096 + size.toNat ≤ 4096 ∨
      i = 0 ∧ ld.nPages = 2 ∧ ld.pages 1 = ld.pages 0 + pageSize ∧
        pa.toNat % 4096 + size.toNat ≤ 2 * 4096)

/-- A value, and the range on the page that is looked at. -/
def Offers (ld : MemAccess) (pa : BitVec 64) (size : BitVec 32) : Prop :=
  ld.valueSet = true ∧ ∃ i, ld.FirstPage i pa ∧ ld.InReference i pa size

/-- What is offered is straight. -/
def Gives (ld : MemAccess) (pa : BitVec 64) (size : BitVec 32) : Prop :=
  ld.valueSet = true ∧ ∃ i, ld.FirstPage i pa ∧ ld.InReference i pa size ∧ ld.Straight i pa size

variable {ld : MemAccess} {va pa : BitVec 64} {size : BitVec 32} {i : Fin 2}

/-! ### The physical addresses of a reference -/

/-- A physical address is a page and an offset. -/
theorem add_offset_eq_iff {page : BitVec 64} (h : page &&& pageMask = page) :
    page + (va &&& ~~~pageMask) = pa ↔
      page = pa &&& pageMask ∧ va.toNat % 4096 = pa.toNat % 4096 := by
  have haligned := toNat_aligned h
  have hadd := toNat_add_offset h va
  constructor
  · rintro rfl
    refine ⟨(page_add_offset h va).symm, ?_⟩
    omega
  · rintro ⟨hpage, hoffset⟩
    apply BitVec.eq_of_toNat_eq
    have hnat := congrArg BitVec.toNat hpage
    rw [toNat_and_pageMask, pageNumber] at hnat
    omega

theorem readsAt_iff : ld.ReadsAt va pa ↔ ld.Contains va ∧ 0 < ld.nPages ∧
    ld.pageOf va = pa &&& pageMask ∧ va.toNat % 4096 = pa.toNat % 4096 := by
  unfold ReadsAt
  rw [add_offset_eq_iff (ld.pageOf_and_pageMask va)]

/-- The page of an address is that of its virtual page, counted from the first. -/
theorem pageOf_eq_pageAt {n : Nat} (h : pageNumber va = pageNumber ld.baseVA + n) :
    ld.pageOf va = ld.pageAt n := by
  unfold pageOf pageAt
  simp only [h, Nat.add_eq_left]

/-- **A reference has the physical addresses that it reads somewhere.** -/
theorem has_iff : ld.Has pa ↔ ∃ va, ld.ReadsAt va pa := by
  constructor
  · rintro ⟨hpos, n, hpage, hlo, hhi, hlt⟩
    have hva : (BitVec.ofNat 64 (ld.place n pa)).toNat = ld.place n pa := by
      rw [BitVec.toNat_ofNat, Nat.mod_eq_of_lt hlt]
    refine ⟨BitVec.ofNat 64 (ld.place n pa), readsAt_iff.mpr ⟨⟨?_, ?_⟩, hpos, ?_, ?_⟩⟩
    · rwa [hva]
    · rwa [hva]
    · rw [← hpage]
      refine pageOf_eq_pageAt ?_
      rw [pageNumber, hva, place]
      omega
    · rw [hva, place]
      omega
  · rintro ⟨va, hread⟩
    obtain ⟨⟨hlo, hhi⟩, hpos, hpage, hoffset⟩ := readsAt_iff.mp hread
    obtain ⟨n, hn⟩ := Nat.exists_eq_add_of_le
      (show pageNumber ld.baseVA ≤ pageNumber va from Nat.div_le_div_right hlo)
    have hplace : ld.place n pa = va.toNat := by
      rw [place, ← hn, pageNumber]
      omega
    refine ⟨hpos, n, (pageOf_eq_pageAt hn).symm.trans hpage, ?_⟩
    rw [hplace]
    exact ⟨hlo, hhi, va.isLt⟩

/-! ### What is found -/

theorem FirstPage.unique {j : Fin 2} (hi : ld.FirstPage i pa) (hj : ld.FirstPage j pa) :
    i = j := by
  rcases lt_trichotomy i j with hlt | heq | hlt
  · exact absurd hi.2.1 (hj.2.2 i hlt)
  · exact heq
  · exact absurd hj.2.1 (hi.2.2 j hlt)

/-- Only the first page of the physical address is looked at. -/
theorem FirstPage.vTranslate (h : ld.FirstPage i pa) (size : BitVec 32) :
    ld.vTranslate pa size = ld.foundIn i pa size := by
  obtain ⟨hlt, hpage, hbefore⟩ := h
  unfold MemAccess.vTranslate
  dsimp only
  obtain rfl | rfl : i = 0 ∨ i = 1 := by omega
  · rw [if_pos ⟨hlt, hpage⟩]
    rfl
  · rw [if_neg fun hzero => hbefore 0 (by decide) hzero.2, if_pos ⟨hlt, hpage⟩]
    rfl

theorem vTranslate_of_no_page (h : ∀ i, ¬ ld.FirstPage i pa) :
    ld.vTranslate pa size = ⟨0, 0⟩ := by
  unfold MemAccess.vTranslate
  dsimp only
  by_cases hzero : 0 < ld.nPages ∧ pa &&& pageMask = ld.pages 0
  · exact absurd ⟨hzero.1, hzero.2, fun j hj => absurd hj (by omega)⟩ (h 0)
  · rw [if_neg hzero]
    by_cases hone : 1 < ld.nPages ∧ pa &&& pageMask = ld.pages 1
    · refine absurd ⟨hone.1, hone.2, fun j hj hpage => hzero ⟨by omega, ?_⟩⟩ (h 1)
      obtain rfl : j = 0 := by omega
      exact hpage
    · rw [if_neg hone]

/-- The address that is tried on the `i`th page, modulo `2 ^ 64`. -/
theorem toNat_vaIn (ld : MemAccess) (i : Fin 2) (pa : BitVec 64) :
    (ld.vaIn i pa).toNat = ld.place i pa % 2 ^ 64 := by
  have hbase := ld.baseVA.isLt
  unfold place
  obtain rfl | rfl : i = 0 ∨ i = 1 := by omega
  · rw [Fin.val_zero, toNat_vaIn_zero, pageNumber]
    omega
  · rw [Fin.val_one, toNat_vaIn_one, pageNumber]
    omega

/-- **The range is found if the page of its physical address has it.** -/
theorem containsVA_iff : ld.containsVA ⟨ld.vaIn i pa, size.setWidth 64⟩ = true ↔
    ld.InReference i pa size := by
  have hbase := ld.baseVA.isLt
  have hi : i.val ≤ 1 := Nat.le_of_lt_succ i.isLt
  rw [containsVA_eq, toNat_vaIn, InReference]
  constructor
  · rintro ⟨hlo, hhi⟩
    -- behind the end of the address space comes its start, which is not in the reference
    have hlt : ld.place i pa < 2 ^ 64 := by
      unfold place pageNumber at hlo ⊢
      omega
    rw [Nat.mod_eq_of_lt hlt] at hlo hhi
    exact ⟨hlo, hlt, hhi⟩
  · rintro ⟨hlo, hlt, hhi⟩
    rw [Nat.mod_eq_of_lt hlt]
    exact ⟨hlo, hhi⟩

theorem vTranslate_of_inReference (hpage : ld.FirstPage i pa) (hin : ld.InReference i pa size) :
    ld.vTranslate pa size = ⟨ld.vaIn i pa, size.setWidth 64⟩ := by
  rw [hpage.vTranslate, foundIn_of_contains (containsVA_iff.mpr hin)]

/-- **A range is found if it is offered.** -/
theorem vTranslate_nBytes (ld : MemAccess) (pa : BitVec 64) (size : BitVec 32) :
    (ld.vTranslate pa size).nBytes ≠ 0 ↔
      0 < size.toNat ∧ ∃ i, ld.FirstPage i pa ∧ ld.InReference i pa size := by
  have hsize : size.setWidth 64 ≠ 0 ↔ 0 < size.toNat := by
    rw [← BitVec.toNat_inj.ne, toNat_setWidth, Nat.pos_iff_ne_zero]
    rfl
  constructor
  · intro hne
    by_cases hpage : ∃ i, ld.FirstPage i pa
    · obtain ⟨i, hpage⟩ := hpage
      rw [hpage.vTranslate] at hne
      by_cases hin : ld.InReference i pa size
      · rw [foundIn_of_contains (containsVA_iff.mpr hin)] at hne
        exact ⟨hsize.mp hne, i, hpage, hin⟩
      · rw [foundIn_of_not (mt containsVA_iff.mp hin)] at hne
        exact absurd rfl hne
    · rw [vTranslate_of_no_page (not_exists.mp hpage)] at hne
      exact absurd rfl hne
  · rintro ⟨hpos, i, hpage, hin⟩
    rw [vTranslate_of_inReference hpage hin]
    exact hsize.mpr hpos

section Straight

variable {j : Nat}

/-- The page of a byte of the range, by how many pages it is behind the first byte. -/
theorem pageOf_byte (hlt : ld.place i pa + j < 2 ^ 64) :
    ld.pageOf (ld.vaIn i pa + BitVec.ofNat 64 j)
      = ld.pageAt (i + (pa.toNat % 4096 + j) / 4096) := by
  refine pageOf_eq_pageAt ?_
  rw [pageNumber, BitVec.toNat_add, toNat_vaIn, BitVec.toNat_ofNat]
  unfold place at hlt ⊢
  omega

theorem toNat_byte (hlt : ld.place i pa + j < 2 ^ 64) :
    (ld.vaIn i pa + BitVec.ofNat 64 j).toNat = ld.place i pa + j := by
  rw [BitVec.toNat_add, toNat_vaIn, BitVec.toNat_ofNat]
  omega

/-- The page that the byte should be on. -/
theorem toNat_page_byte (hpage : ld.FirstPage i pa) (j : Nat) :
    ((pa + BitVec.ofNat 64 j) &&& pageMask).toNat
      = ((ld.pages i).toNat + (pa.toNat % 4096 + j) / 4096 * 4096) % 2 ^ 64 := by
  have hfirst := congrArg BitVec.toNat hpage.2.1
  rw [toNat_and_pageMask, pageNumber] at hfirst
  rw [toNat_and_pageMask, pageNumber, BitVec.toNat_add, BitVec.toNat_ofNat, ← hfirst,
    Nat.add_mod_mod]
  have hquot : (pa.toNat + j) / 4096 = pa.toNat / 4096 + (pa.toNat % 4096 + j) / 4096 := by omega
  rw [show 2 ^ 64 = 4096 * 2 ^ 52 from rfl, Nat.mod_mul_right_div_self, hquot, ← Nat.add_mul,
    Nat.mul_comm 4096, Nat.mul_mod_mul_right]

/-- A byte is read where it should be if it is in the reference and on the right page. -/
theorem readsAt_byte_iff (hpage : ld.FirstPage i pa) (hlo : ld.baseVA.toNat ≤ ld.place i pa)
    (hlt : ld.place i pa + j < 2 ^ 64) :
    ld.ReadsAt (ld.vaIn i pa + BitVec.ofNat 64 j) (pa + BitVec.ofNat 64 j) ↔
      ld.place i pa + j < ld.baseVA.toNat + ld.nBytes ∧
        (ld.pageAt (i + (pa.toNat % 4096 + j) / 4096)).toNat
          = ((ld.pages i).toNat + (pa.toNat % 4096 + j) / 4096 * 4096) % 2 ^ 64 := by
  rw [readsAt_iff, pageOf_byte hlt, ← toNat_page_byte hpage, BitVec.toNat_inj, Contains,
    toNat_byte hlt]
  have hoffset : (ld.place i pa + j) % 4096 = (pa + BitVec.ofNat 64 j).toNat % 4096 := by
    rw [BitVec.toNat_add, BitVec.toNat_ofNat, place]
    omega
  constructor
  · rintro ⟨⟨-, hhi⟩, -, hbyte, -⟩
    exact ⟨hhi, hbyte⟩
  · rintro ⟨hhi, hbyte⟩
    exact ⟨⟨by omega, hhi⟩, Nat.zero_lt_of_lt hpage.1, hbyte, hoffset⟩

/-- The page of the range is the one that it begins on. -/
theorem pageAt_of_firstPage (hpage : ld.FirstPage i pa) : ld.pageAt i = ld.pages i := by
  have hlt := hpage.1
  have hle := ld.nPages_le
  unfold pageAt
  obtain rfl | rfl : i = 0 ∨ i = 1 := by omega
  · exact if_pos (.inr rfl)
  · refine if_neg ?_
    rw [Fin.val_one] at hlt ⊢
    omega

/-- All pages behind the first one are the same. -/
theorem pageAt_succ (ld : MemAccess) (n : Nat) :
    ld.pageAt (n + 1) = if ld.nPages = 1 then ld.pages 0 else ld.pages 1 := by
  unfold pageAt
  simp only [Nat.succ_ne_zero, or_false]

/-- The bytes of a range in one page, or in two that follow one another. -/
theorem Straight.readsAt (h : ld.Straight i pa size) (hpage : ld.FirstPage i pa)
    (hlo : ld.baseVA.toNat ≤ ld.place i pa) (hj : j < size.toNat) :
    ld.ReadsAt (ld.vaIn i pa + BitVec.ofNat 64 j) (pa + BitVec.ofNat 64 j) := by
  obtain ⟨hend, hhi, hpages⟩ := h
  refine (readsAt_byte_iff hpage hlo (by omega)).mpr ⟨by omega, ?_⟩
  have hfirst := (ld.pages i).isLt
  by_cases hone : pa.toNat % 4096 + j < 4096
  · rw [Nat.div_eq_of_lt hone, Nat.add_zero, pageAt_of_firstPage hpage]
    omega
  · obtain hshort | ⟨rfl, htwo, hnext, hlong⟩ := hpages
    · omega
    · have hquot : (pa.toNat % 4096 + j) / 4096 = 1 := by omega
      rw [hquot, Fin.val_zero, pageAt_succ, if_neg (by omega), hnext, BitVec.toNat_add]
      rfl

/-- **What is found is read byte by byte at its own physical address if it is straight.** -/
theorem straight_iff (hsize : ld.nBytes < 2 ^ 32) (hpos : 0 < size.toNat)
    (hpage : ld.FirstPage i pa) (hin : ld.InReference i pa size) :
    (∀ j < size.toNat, ld.ReadsAt (ld.vaIn i pa + BitVec.ofNat 64 j) (pa + BitVec.ofNat 64 j)) ↔
      ld.Straight i pa size := by
  obtain ⟨hlo, hlt, -⟩ := hin
  refine ⟨fun hall => ?_, fun h j hj => h.readsAt hpage hlo hj⟩
  have hsizeLt := size.isLt
  have hzero := ((readsAt_byte_iff hpage hlo (by omega)).mp (hall 0 hpos)).1
  -- where it wraps, the first address is not in the reference
  have hend : ld.place i pa + size.toNat ≤ 2 ^ 64 := by
    by_contra hwrap
    have hread := (hall (2 ^ 64 - ld.place i pa) (by omega)).1.1
    rw [BitVec.toNat_add, toNat_vaIn, BitVec.toNat_ofNat] at hread
    omega
  have hbytes : ∀ j < size.toNat, _ := fun j hj =>
    (readsAt_byte_iff hpage hlo (by omega)).mp (hall j hj)
  have hlast := (hbytes (size.toNat - 1) (by omega)).1
  refine ⟨hend, by omega, ?_⟩
  by_cases hone : pa.toNat % 4096 + size.toNat ≤ 4096
  · exact .inl hone
  have hfirst := (ld.pages i).isLt
  have hfirstPage := pageAt_of_firstPage hpage
  have hpages := ld.nPages_le
  have hnpages := hpage.1
  -- the first byte behind the page
  have hnext := (hbytes (4096 - pa.toNat % 4096) (by omega)).2
  rw [show (pa.toNat % 4096 + (4096 - pa.toNat % 4096)) / 4096 = 1 by omega, pageAt_succ] at hnext
  by_cases hsingle : ld.nPages = 1
  · obtain rfl : i = 0 := by omega
    rw [if_pos hsingle] at hnext
    omega
  rw [if_neg hsingle] at hnext
  obtain rfl | rfl : i = 0 ∨ i = 1 := by omega
  · refine .inr ⟨rfl, by omega, ?_, ?_⟩
    · apply BitVec.eq_of_toNat_eq
      rw [hnext, BitVec.toNat_add]
      rfl
    · by_contra hlong
      have hthird := (hbytes (8192 - pa.toNat % 4096) (by omega)).2
      rw [show (pa.toNat % 4096 + (8192 - pa.toNat % 4096)) / 4096 = 2 by omega,
        show (0 : Fin 2).val + 2 = 1 + 1 from rfl, pageAt_succ, if_neg hsingle, hnext] at hthird
      omega
  · omega

end Straight

end MemAccess

end AsimFeeder.SoftSDV
