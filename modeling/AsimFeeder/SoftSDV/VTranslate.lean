/-
From physical addresses back to virtual ones (`VTranslate`, `softsdv_data.h`), and the walk
over the pages of a reference (`NoteMemoryRefForWarmup`, `softsdv_feeder_x86.cpp`).

`PTranslate` takes the page of the reference by the virtual page of the address.  `VTranslate`
takes the first page that has the physical address, and where it makes a virtual address that
is not in the reference it does not try the second page.  So the two agree unless the pages
are the same one and the reference begins behind the start of the first and reaches the
second.  The ends of ranges are computed modulo `2 ^ 64`.
-/
import AsimFeeder.SoftSDV.MemoryRefs

namespace AsimFeeder.SoftSDV

namespace MemAccess

/-- The virtual address that has the physical address if that is in the `i`th page. -/
def vaIn (r : MemAccess) (i : Nat) (pa : BitVec 64) : BitVec 64 :=
  (r.baseVA &&& pageMask) + BitVec.ofNat 64 i * pageSize + (pa &&& ~~~pageMask)

/-- Found the right page. -/
def foundIn (r : MemAccess) (i : Nat) (pa : BitVec 64) (size : BitVec 32) : VirtualRef :=
  let vRef : VirtualRef := ⟨r.vaIn i pa, size.setWidth 64⟩
  if r.containsVA vRef then vRef else ⟨0, 0⟩

/-- The size is 0 if the physical address is not found.  There are at most two rounds. -/
def vTranslate (r : MemAccess) (pa : BitVec 64) (size : BitVec 32) : VirtualRef :=
  let maskedPA := pa &&& pageMask
  if 0 < r.nPages ∧ maskedPA = r.pages 0 then r.foundIn 0 pa size
  else if 1 < r.nPages ∧ maskedPA = r.pages 1 then r.foundIn 1 pa size
  else ⟨0, 0⟩

/-- Breaks a region down into contiguous physical regions, each with its physical address. -/
def physicalRegions (r : MemAccess) : Nat → VirtualRef →
    Except String (List (VirtualRef × BitVec 64))
  | 0, _ => .error "out of fuel"
  | fuel + 1, vRegion =>
      if vRegion.nBytes = 0 then .ok []
      else do
        let (pa, vNext) ← r.pTranslateRegion vRegion
        let rest ← r.physicalRegions fuel vNext
        .ok ((⟨vRegion.va, vRegion.nBytes - vNext.nBytes⟩, pa) :: rest)

end MemAccess

/-! ### What the two are for -/

/-- The addresses of a range. -/
def VirtualRef.addrs (v : VirtualRef) : List Nat := List.range' v.va.toNat v.nBytes.toNat

namespace MemAccess

variable (r : MemAccess)

/-- One or two physical pages cover the range, which ends at `2 ^ 64` at the latest. -/
structure Covered : Prop where
  pages : r.nPages = 1 ∨ r.nPages = 2
  fits : r.baseVA.toNat % 4096 + r.nBytes ≤ 4096 * r.nPages
  below : r.baseVA.toNat + r.nBytes ≤ 2 ^ 64

/-- The range is in the reference and in one page. -/
structure SubRange (va : BitVec 64) (size : BitVec 32) : Prop where
  pos : 0 < size.toNat
  lo : r.baseVA.toNat ≤ va.toNat
  hi : va.toNat + size.toNat ≤ r.baseVA.toNat + r.nBytes
  onePage : va.toNat % 4096 + size.toNat ≤ 4096

/-- The pieces cover the reference one after the other, each is in one page, and is translated
to the physical page of its virtual page. -/
structure Splits (pieces : List (VirtualRef × BitVec 64)) : Prop where
  cover : pieces.flatMap (fun p => p.1.addrs) = List.range' r.baseVA.toNat r.nBytes
  onePage : ∀ p ∈ pieces, 0 < p.1.nBytes.toNat ∧ p.1.va.toNat % 4096 + p.1.nBytes.toNat ≤ 4096
  physical : ∀ p ∈ pieces, p.2 = r.pageOf p.1.va + (p.1.va &&& ~~~pageMask)

/-- A range that is translated there and back is one of the reference, with the same physical
address. -/
def ComesBack (va : BitVec 64) (size : BitVec 32) : Prop :=
  ∃ pa, r.pTranslate va = .ok pa ∧ r.SubRange (r.vTranslate pa size).va size ∧
    (r.vTranslate pa size).nBytes.toNat = size.toNat ∧
      r.pTranslate (r.vTranslate pa size).va = .ok pa

structure Inverts : Prop where
  walk : ∃ fuel pieces,
    r.physicalRegions fuel ⟨r.baseVA, BitVec.ofNat 64 r.nBytes⟩ = .ok pieces ∧ r.Splits pieces
  back : ∀ va size, r.SubRange va size → r.ComesBack va size

/-- Both pages are one physical page, and on the second the reference reaches an offset that
lies before its start on the first. -/
def Shadowed : Prop :=
  r.nPages = 2 ∧ r.pages 0 = r.pages 1 ∧ 0 < r.baseVA.toNat % 4096 ∧
    4096 < r.baseVA.toNat % 4096 + r.nBytes

end MemAccess

/-! ### Page addresses -/

theorem toNat_aligned {page : BitVec 64} (h : page &&& pageMask = page) :
    page.toNat % 4096 = 0 := by
  have hpage := congrArg BitVec.toNat h
  rw [toNat_and_pageMask] at hpage
  omega

theorem toNat_add_offset {page : BitVec 64} (h : page &&& pageMask = page) (va : BitVec 64) :
    (page + (va &&& ~~~pageMask)).toNat = page.toNat + va.toNat % 4096 := by
  have haligned := toNat_aligned h
  have hlt := page.isLt
  rw [BitVec.toNat_add, toNat_and_not_pageMask]
  omega

namespace MemAccess

variable {r : MemAccess} {va pa : BitVec 64} {size : BitVec 32} {i : Nat}

theorem toNat_vaIn_zero (r : MemAccess) (pa : BitVec 64) :
    (r.vaIn 0 pa).toNat = pageNumber r.baseVA * 4096 + pa.toNat % 4096 := by
  have hzero : BitVec.ofNat 64 0 * pageSize = 0#64 := rfl
  have hlt := r.baseVA.isLt
  unfold vaIn
  rw [hzero, BitVec.add_zero, BitVec.toNat_add, toNat_and_pageMask, toNat_and_not_pageMask,
    pageNumber]
  omega

theorem toNat_vaIn_one (r : MemAccess) (pa : BitVec 64) :
    (r.vaIn 1 pa).toNat = (pageNumber r.baseVA * 4096 + 4096 + pa.toNat % 4096) % 2 ^ 64 := by
  have hone : BitVec.ofNat 64 1 * pageSize = 4096 := rfl
  have hlt := r.baseVA.isLt
  unfold vaIn
  rw [hone, BitVec.toNat_add, BitVec.toNat_add, toNat_and_pageMask, toNat_and_not_pageMask,
    pageNumber, show (4096 : BitVec 64).toNat = 4096 from rfl]
  omega

theorem containsVA_eq (r : MemAccess) (va : BitVec 64) (size : BitVec 32) :
    r.containsVA ⟨va, size.setWidth 64⟩ = true ↔ r.baseVA.toNat ≤ va.toNat ∧
      (va.toNat + size.toNat) % 2 ^ 64 ≤ (r.baseVA.toNat + r.nBytes) % 2 ^ 64 := by
  have hlt := size.isLt
  unfold containsVA
  rw [decide_eq_true_iff, BitVec.le_def, BitVec.le_def, BitVec.toNat_add, BitVec.toNat_add,
    BitVec.toNat_setWidth, BitVec.toNat_ofNat]
  have hsize : size.toNat % 2 ^ 64 = size.toNat := by omega
  rw [hsize, Nat.add_mod_mod]

/-! ### The walk -/

/-- What is left of the page. -/
theorem toNat_rest (va : BitVec 64) :
    (pageSize - (va &&& ~~~pageMask)).toNat = 4096 - va.toNat % 4096 := by
  rw [BitVec.toNat_sub, toNat_and_not_pageMask, show pageSize.toNat = 4096 from rfl]
  omega

theorem toNat_size (h : r.Covered) : (BitVec.ofNat 64 r.nBytes).toNat = r.nBytes := by
  have hpages := h.pages
  have hfits := h.fits
  rw [BitVec.toNat_ofNat]
  omega

/-- One page, or a region on the first page: nothing remains. -/
theorem physicalRegions_last {vRegion : VirtualRef} {fuel : Nat}
    (hregion : r.pTranslateRegion vRegion = .ok (pa, ⟨0, 0⟩)) (hpos : vRegion.nBytes ≠ 0) :
    r.physicalRegions (fuel + 2) vRegion = .ok [(vRegion, pa)] := by
  rw [physicalRegions, if_neg hpos, hregion]
  simp [physicalRegions, bind, Except.bind]

theorem physicalRegions_more {vRegion vNext : VirtualRef} {pa' : BitVec 64} {fuel : Nat}
    (hregion : r.pTranslateRegion vRegion = .ok (pa, vNext)) (hpos : vRegion.nBytes ≠ 0)
    (hnext : r.pTranslateRegion vNext = .ok (pa', ⟨0, 0⟩)) (hmore : vNext.nBytes ≠ 0) :
    r.physicalRegions (fuel + 3) vRegion
      = .ok [(⟨vRegion.va, vRegion.nBytes - vNext.nBytes⟩, pa), (vNext, pa')] := by
  rw [physicalRegions, if_neg hpos, hregion]
  dsimp only [bind, Except.bind]
  rw [physicalRegions_last hnext hmore]

/-- What the whole reference, and the part of it on the second page, are translated to. -/
theorem pTranslateRegion_ok (vRegion : VirtualRef) (hpages : 0 < r.nPages)
    (hlo : r.baseVA ≤ vRegion.va)
    (hend : vRegion.va + vRegion.nBytes = r.baseVA + BitVec.ofNat 64 r.nBytes) :
    r.pTranslateRegion vRegion = .ok (r.pageOf vRegion.va + (vRegion.va &&& ~~~pageMask),
      if r.nPages = 1 ∨ pageNumber vRegion.va ≠ pageNumber r.baseVA then ⟨0, 0⟩
      else
        let maxSize := pageSize - (vRegion.va &&& ~~~pageMask)
        if maxSize < vRegion.nBytes then ⟨vRegion.va + maxSize, vRegion.nBytes - maxSize⟩
        else ⟨0, 0⟩) := by
  unfold pTranslateRegion pageOf
  dsimp only
  have hrange : r.baseVA ≤ vRegion.va ∧
      vRegion.va + vRegion.nBytes ≤ r.baseVA + BitVec.ofNat 64 r.nBytes :=
    ⟨hlo, hend ▸ BitVec.le_refl _⟩
  rw [if_neg (Nat.ne_of_gt hpages), if_neg (not_not.mpr hrange)]
  by_cases h1 : r.nPages = 1
  · rw [if_pos h1, if_pos (Or.inl h1), if_pos (Or.inl h1)]
  · rw [if_neg h1]
    by_cases hpage : pageNumber vRegion.va = pageNumber r.baseVA
    · have hsecond : ¬ (r.nPages = 1 ∨ pageNumber vRegion.va ≠ pageNumber r.baseVA) := by
        simp [h1, hpage]
      rw [if_neg (not_not.mpr (and_pageMask_eq_iff.mpr hpage)), if_pos (Or.inr hpage),
        if_neg hsecond]
    · rw [if_pos (mt and_pageMask_eq_iff.mp hpage), if_neg (by simp [h1, hpage]),
        if_pos (Or.inr hpage)]

/-- **The walk splits every reference into its pages.** -/
theorem Covered.walk (h : r.Covered) : ∃ fuel pieces,
    r.physicalRegions fuel ⟨r.baseVA, BitVec.ofNat 64 r.nBytes⟩ = .ok pieces ∧
      r.Splits pieces := by
  have hsize := toNat_size h
  have hpages := h.pages
  have hfits := h.fits
  have hbelow := h.below
  have hpos : 0 < r.nPages := by omega
  by_cases hzero : r.nBytes = 0
  · refine ⟨1, [], ?_, ?_⟩
    · rw [hzero]
      rfl
    · constructor
      · rw [hzero]
        rfl
      · simp
      · simp
  have hne : BitVec.ofNat 64 r.nBytes ≠ 0 := by
    intro heq
    rw [heq] at hsize
    exact hzero hsize.symm
  have hregion := pTranslateRegion_ok ⟨r.baseVA, BitVec.ofNat 64 r.nBytes⟩ hpos
    (BitVec.le_refl _) rfl
  dsimp only at hregion
  by_cases hone : r.baseVA.toNat % 4096 + r.nBytes ≤ 4096
  · -- the reference is in one page
    have hlast : r.pTranslateRegion ⟨r.baseVA, BitVec.ofNat 64 r.nBytes⟩
        = .ok (r.pageOf r.baseVA + (r.baseVA &&& ~~~pageMask), ⟨0, 0⟩) := by
      rw [hregion]
      have hfirst : ¬ pageSize - (r.baseVA &&& ~~~pageMask) < BitVec.ofNat 64 r.nBytes := by
        rw [BitVec.lt_def, toNat_rest, hsize]
        omega
      rw [if_neg hfirst, ite_self]
    refine ⟨2, _, physicalRegions_last hlast hne, ?_⟩
    constructor
    · simp [VirtualRef.addrs, hsize]
    · simp only [List.mem_singleton, forall_eq, hsize]
      omega
    · simp
  · -- it goes on at the start of the second page
    have htwo : ¬ (r.nPages = 1 ∨ pageNumber r.baseVA ≠ pageNumber r.baseVA) := by
      simp only [ne_eq, not_true_eq_false, or_false]
      omega
    have hmore : pageSize - (r.baseVA &&& ~~~pageMask) < BitVec.ofNat 64 r.nBytes := by
      rw [BitVec.lt_def, toNat_rest, hsize]
      omega
    rw [if_neg htwo, if_pos hmore] at hregion
    have hrest := toNat_rest r.baseVA
    generalize pageSize - (r.baseVA &&& ~~~pageMask) = maxSize at hregion hmore hrest
    have hlt := r.baseVA.isLt
    have hva : (r.baseVA + maxSize).toNat = r.baseVA.toNat + maxSize.toNat := by
      rw [BitVec.toNat_add]
      omega
    have hsub : (BitVec.ofNat 64 r.nBytes - maxSize).toNat = r.nBytes - maxSize.toNat := by
      rw [BitVec.toNat_sub_of_le (BitVec.le_of_lt hmore), hsize]
    have hsub' : (BitVec.ofNat 64 r.nBytes - (BitVec.ofNat 64 r.nBytes - maxSize)).toNat
        = maxSize.toNat := by
      have hle : BitVec.ofNat 64 r.nBytes - maxSize ≤ BitVec.ofNat 64 r.nBytes := by
        rw [BitVec.le_def, hsub, hsize]
        omega
      rw [BitVec.toNat_sub_of_le hle, hsub, hsize]
      omega
    have hsecond : pageNumber (r.baseVA + maxSize) ≠ pageNumber r.baseVA := by
      unfold pageNumber
      omega
    have hnext := pTranslateRegion_ok ⟨r.baseVA + maxSize, BitVec.ofNat 64 r.nBytes - maxSize⟩ hpos
      (by rw [BitVec.le_def, hva]; omega)
      (by rw [BitVec.add_assoc, BitVec.add_comm maxSize, BitVec.sub_add_cancel])
    dsimp only at hnext
    rw [if_pos (Or.inr hsecond)] at hnext
    have hmoreNe : BitVec.ofNat 64 r.nBytes - maxSize ≠ 0 := by
      intro heq
      rw [heq] at hsub
      have hzero' : (0 : BitVec 64).toNat = 0 := rfl
      omega
    refine ⟨3, _, physicalRegions_more hregion hne hnext hmoreNe, ?_⟩
    constructor
    · simp only [List.flatMap_cons, List.flatMap_nil, List.append_nil, VirtualRef.addrs, hsub,
        hsub', hva]
      rw [List.range'_append_1]
      congr 1
      omega
    · simp only [List.mem_cons, List.not_mem_nil, or_false, forall_eq_or_imp, forall_eq, hsub,
        hsub', hva]
      omega
    · simp

/-! ### There and back -/

/-- The test of `VTranslate`, where the end of the reference does not wrap. -/
theorem containsVA_below (hend : r.baseVA.toNat + r.nBytes < 2 ^ 64)
    (hva : va.toNat + size.toNat < 2 ^ 64) :
    r.containsVA ⟨va, size.setWidth 64⟩ = true ↔ r.baseVA.toNat ≤ va.toNat ∧
      va.toNat + size.toNat ≤ r.baseVA.toNat + r.nBytes := by
  rw [containsVA_eq, Nat.mod_eq_of_lt hend, Nat.mod_eq_of_lt hva]

theorem foundIn_of_contains (h : r.containsVA ⟨r.vaIn i pa, size.setWidth 64⟩ = true) :
    r.foundIn i pa size = ⟨r.vaIn i pa, size.setWidth 64⟩ := by
  unfold foundIn
  dsimp only
  rw [if_pos h]

theorem foundIn_of_not (h : ¬ r.containsVA ⟨r.vaIn i pa, size.setWidth 64⟩ = true) :
    r.foundIn i pa size = ⟨0, 0⟩ := by
  unfold foundIn
  dsimp only
  rw [if_neg h]

/-- Nothing is found, or an address that passes the test. -/
theorem vTranslate_cases (r : MemAccess) (pa : BitVec 64) (size : BitVec 32) :
    r.vTranslate pa size = ⟨0, 0⟩ ∨
      ∃ i, r.vTranslate pa size = ⟨r.vaIn i pa, size.setWidth 64⟩ ∧
        r.containsVA ⟨r.vaIn i pa, size.setWidth 64⟩ = true := by
  have hfoundIn : ∀ j, r.foundIn j pa size = ⟨0, 0⟩ ∨
      ∃ i, r.foundIn j pa size = ⟨r.vaIn i pa, size.setWidth 64⟩ ∧
        r.containsVA ⟨r.vaIn i pa, size.setWidth 64⟩ = true := by
    intro j
    by_cases hcontains : r.containsVA ⟨r.vaIn j pa, size.setWidth 64⟩ = true
    · exact .inr ⟨j, foundIn_of_contains hcontains, hcontains⟩
    · exact .inl (foundIn_of_not hcontains)
  have hrounds : r.vTranslate pa size = r.foundIn 0 pa size ∨
      r.vTranslate pa size = r.foundIn 1 pa size ∨ r.vTranslate pa size = ⟨0, 0⟩ := by
    unfold vTranslate
    dsimp only
    split
    · exact .inl rfl
    · split
      · exact .inr (.inl rfl)
      · exact .inr (.inr rfl)
  rcases hrounds with h | h | h
  · rw [h]
    exact hfoundIn 0
  · rw [h]
    exact hfoundIn 1
  · exact .inl h

theorem SubRange.contains (h : r.SubRange va size) : r.Contains va := by
  have hpos := h.pos
  have hhi := h.hi
  exact ⟨h.lo, by omega⟩

theorem toNat_setWidth (size : BitVec 32) : (size.setWidth 64).toNat = size.toNat := by
  have hlt := size.isLt
  rw [BitVec.toNat_setWidth]
  omega

/-- A range comes back if the virtual address that is found is that of a range with the same
physical address. -/
theorem comesBack_of_found (hpages : 0 < r.nPages) (hend : r.baseVA.toNat + r.nBytes < 2 ^ 64)
    (h : r.SubRange va size) (hfound : r.vTranslate (r.pageOf va + (va &&& ~~~pageMask)) size
      = r.foundIn i (r.pageOf va + (va &&& ~~~pageMask)) size)
    (hsub : r.SubRange (r.vaIn i (r.pageOf va + (va &&& ~~~pageMask))) size)
    (hpage : r.pageOf (r.vaIn i (r.pageOf va + (va &&& ~~~pageMask))) = r.pageOf va)
    (hoffset : (r.vaIn i (r.pageOf va + (va &&& ~~~pageMask))).toNat % 4096 = va.toNat % 4096) :
    r.ComesBack va size := by
  have hto := pTranslate_eq hpages hend h.contains
  have hback := pTranslate_eq hpages hend hsub.contains
  have hsame : r.vaIn i (r.pageOf va + (va &&& ~~~pageMask)) &&& ~~~pageMask
      = va &&& ~~~pageMask := by
    apply BitVec.eq_of_toNat_eq
    rw [toNat_and_not_pageMask, toNat_and_not_pageMask, hoffset]
  rw [hpage, hsame] at hback
  generalize r.pageOf va + (va &&& ~~~pageMask) = pa at *
  have hhi := hsub.hi
  have hcontains := (containsVA_below hend (by omega)).mpr ⟨hsub.lo, hsub.hi⟩
  rw [foundIn_of_contains hcontains] at hfound
  refine ⟨pa, hto, ?_, ?_, ?_⟩
  · rw [hfound]
    exact hsub
  · rw [hfound]
    exact toNat_setWidth size
  · rw [hfound]
    exact hback

/-- **What is not at the end of the address space and not shadowed comes back.** -/
theorem Covered.back (h : r.Covered) (hend : r.baseVA.toNat + r.nBytes < 2 ^ 64)
    (hshadow : ¬ r.Shadowed) (hsub : r.SubRange va size) : r.ComesBack va size := by
  have hpages : 0 < r.nPages := by
    have := h.pages
    omega
  have hfits := h.fits
  have hlo := hsub.lo
  have hhi := hsub.hi
  have hpos := hsub.pos
  have hone := hsub.onePage
  have hmask := page_add_offset (r.pageOf_and_pageMask va) va
  have haligned := toNat_aligned (r.pageOf_and_pageMask va)
  have hoffset := toNat_add_offset (r.pageOf_and_pageMask va) va
  have hzero := toNat_vaIn_zero r (r.pageOf va + (va &&& ~~~pageMask))
  have hnext := toNat_vaIn_one r (r.pageOf va + (va &&& ~~~pageMask))
  have hmod : (r.pageOf va + (va &&& ~~~pageMask)).toNat % 4096 = va.toNat % 4096 := by omega
  rw [hmod] at hzero hnext
  by_cases hfirst : pageNumber va = pageNumber r.baseVA
  · -- the first page is found, and the address itself
    have hpage : r.pageOf va = r.pages 0 := if_pos (Or.inr hfirst)
    have hva : r.vaIn 0 (r.pageOf va + (va &&& ~~~pageMask)) = va := by
      apply BitVec.eq_of_toNat_eq
      rw [hzero, ← hfirst, pageNumber]
      omega
    refine comesBack_of_found (i := 0) hpages hend hsub ?_ (by rwa [hva]) (by rw [hva])
      (by rw [hva])
    unfold vTranslate
    dsimp only
    rw [hmask, if_pos ⟨hpages, hpage⟩]
  · have htwo : r.nPages = 2 := by
      unfold pageNumber at hfirst
      have := h.pages
      omega
    have hpage : r.pageOf va = r.pages 1 := by
      refine if_neg ?_
      simp [htwo, hfirst]
    unfold pageNumber at hfirst
    by_cases halias : r.pages 0 = r.pages 1
    · -- the first page is found, and the reference starts where this page does
      have hstart : r.baseVA.toNat % 4096 = 0 := by
        by_contra hne
        exact hshadow ⟨htwo, halias, by omega, by omega⟩
      rw [pageNumber] at hzero
      refine comesBack_of_found (i := 0) hpages hend hsub ?_ ⟨hpos, ?_, ?_, ?_⟩ ?_ ?_
      · unfold vTranslate
        dsimp only
        rw [hmask, if_pos ⟨hpages, hpage.trans halias.symm⟩]
      · omega
      · omega
      · omega
      · have hpageNumber : pageNumber (r.vaIn 0 (r.pageOf va + (va &&& ~~~pageMask)))
            = pageNumber r.baseVA := by
          rw [pageNumber, hzero, pageNumber]
          omega
        exact (if_pos (Or.inr hpageNumber)).trans (halias.trans hpage.symm)
      · omega
    · -- the second page is found, and the address itself
      have hva : r.vaIn 1 (r.pageOf va + (va &&& ~~~pageMask)) = va := by
        apply BitVec.eq_of_toNat_eq
        have hlt := va.isLt
        rw [hnext, pageNumber]
        omega
      refine comesBack_of_found (i := 1) hpages hend hsub ?_ (by rwa [hva]) (by rw [hva])
        (by rw [hva])
      unfold vTranslate
      dsimp only
      rw [hmask, if_neg fun hboth => halias (hboth.2.symm.trans hpage),
        if_pos ⟨by omega, hpage⟩]

/-- At the end of the address space one byte of several is not translated. -/
theorem not_comesBack_of_end (hpages : 0 < r.nPages)
    (hend : r.baseVA.toNat + r.nBytes = 2 ^ 64) (_ : 2 ≤ r.nBytes) :
    ¬ r.ComesBack r.baseVA size := by
  rintro ⟨pa, hto, -⟩
  have hrange : ¬ (r.baseVA ≤ r.baseVA ∧
      r.baseVA + 1 ≤ r.baseVA + BitVec.ofNat 64 r.nBytes) := by
    rintro ⟨-, hle⟩
    rw [BitVec.le_def, BitVec.toNat_add, BitVec.toNat_add, BitVec.toNat_ofNat,
      show (1 : BitVec 64).toNat = 1 from rfl] at hle
    omega
  unfold pTranslate pTranslateRegion at hto
  dsimp only at hto
  rw [if_neg (Nat.ne_of_gt hpages), if_pos hrange] at hto
  cases hto

/-- The start of the second page of a shadowed reference is looked up before its start. -/
theorem Shadowed.not_comesBack (h : r.Shadowed) (hend : r.baseVA.toNat + r.nBytes < 2 ^ 64)
    (hva : va.toNat = pageNumber r.baseVA * 4096 + 4096) : ¬ r.ComesBack va size := by
  obtain ⟨htwo, halias, hstart, hreach⟩ := h
  rintro ⟨pa, hto, hsub, -⟩
  rw [pageNumber] at hva
  have hcontains : r.Contains va := ⟨by omega, by omega⟩
  rw [pTranslate_eq (by omega) hend hcontains] at hto
  obtain rfl := Except.ok.inj hto
  have hpage : r.pageOf va = r.pages 0 := by
    rw [halias]
    refine if_neg ?_
    rw [pageNumber, pageNumber]
    omega
  have hmask := page_add_offset (r.pageOf_and_pageMask va) va
  have haligned := toNat_aligned (r.pageOf_and_pageMask va)
  have hoffset := toNat_add_offset (r.pageOf_and_pageMask va) va
  have hzero := toNat_vaIn_zero r (r.pageOf va + (va &&& ~~~pageMask))
  rw [pageNumber] at hzero
  have hnot : ¬ r.containsVA ⟨r.vaIn 0 (r.pageOf va + (va &&& ~~~pageMask)),
      size.setWidth 64⟩ = true := by
    rw [containsVA_eq]
    omega
  have hfound : r.vTranslate (r.pageOf va + (va &&& ~~~pageMask)) size = ⟨0, 0⟩ := by
    unfold vTranslate
    dsimp only
    rw [hmask, if_pos ⟨by omega, hpage⟩, foundIn_of_not hnot]
  rw [hfound] at hsub
  have hlo : r.baseVA.toNat ≤ (0 : BitVec 64).toNat := hsub.lo
  rw [show (0 : BitVec 64).toNat = 0 from rfl] at hlo
  omega

/-- A reference of the last byte of the address space comes back. -/
theorem Covered.back_last (h : r.Covered) (hend : r.baseVA.toNat + r.nBytes = 2 ^ 64)
    (hsize : r.nBytes = 1) (hsub : r.SubRange va size) : r.ComesBack va size := by
  have hpages : 0 < r.nPages := by
    have := h.pages
    omega
  have hlo := hsub.lo
  have hhi := hsub.hi
  have hpos := hsub.pos
  have hone : size.toNat = 1 := by omega
  obtain rfl : va = r.baseVA := BitVec.eq_of_toNat_eq (by omega)
  have hto : r.pTranslate r.baseVA = .ok (r.pageOf r.baseVA + (r.baseVA &&& ~~~pageMask)) := by
    unfold pTranslate
    rw [pTranslateRegion_ok ⟨r.baseVA, 1⟩ hpages (BitVec.le_refl _)
      (by rw [hsize]; rfl)]
    rfl
  have hpage : r.pageOf r.baseVA = r.pages 0 := if_pos (Or.inr rfl)
  have hmask := page_add_offset (r.pageOf_and_pageMask r.baseVA) r.baseVA
  have haligned := toNat_aligned (r.pageOf_and_pageMask r.baseVA)
  have hoffset := toNat_add_offset (r.pageOf_and_pageMask r.baseVA) r.baseVA
  have hva : r.vaIn 0 (r.pageOf r.baseVA + (r.baseVA &&& ~~~pageMask)) = r.baseVA := by
    apply BitVec.eq_of_toNat_eq
    rw [toNat_vaIn_zero, pageNumber]
    omega
  have hcontains : r.containsVA ⟨r.baseVA, size.setWidth 64⟩ = true := by
    rw [containsVA_eq, hone, hsize]
    exact ⟨le_refl _, le_refl _⟩
  have hfound : r.vTranslate (r.pageOf r.baseVA + (r.baseVA &&& ~~~pageMask)) size
      = ⟨r.baseVA, size.setWidth 64⟩ := by
    unfold vTranslate
    dsimp only
    rw [hmask, if_pos ⟨hpages, hpage⟩, foundIn_of_contains (by rwa [hva]), hva]
  rw [ComesBack, hto]
  exact ⟨_, rfl, by rwa [hfound], by rw [hfound]; exact toNat_setWidth size, by rw [hfound, hto]⟩

/-- **Looking up physical addresses inverts the translation if and only if the reference is
not shadowed and does not end, with more than one byte, where the address space ends.** -/
theorem inverts_iff (r : MemAccess) (h : r.Covered) :
    r.Inverts ↔ (r.baseVA.toNat + r.nBytes < 2 ^ 64 ∨ r.nBytes ≤ 1) ∧ ¬ r.Shadowed := by
  have hbelow := h.below
  have hpages : 0 < r.nPages := by
    have := h.pages
    omega
  constructor
  · intro hinv
    have hend : r.baseVA.toNat + r.nBytes < 2 ^ 64 ∨ r.nBytes ≤ 1 := by
      by_contra hnot
      obtain ⟨hwrap, hmany⟩ := not_or.mp hnot
      have hsub : r.SubRange r.baseVA 1 := ⟨by decide, le_refl _, by
        rw [show (1 : BitVec 32).toNat = 1 from rfl]
        omega, by
        rw [show (1 : BitVec 32).toNat = 1 from rfl]
        omega⟩
      exact not_comesBack_of_end hpages (by omega) (by omega) (hinv.back _ _ hsub)
    refine ⟨hend, fun hshadow => ?_⟩
    have hreach := hshadow.2.2.2
    have hva : (BitVec.ofNat 64 (pageNumber r.baseVA * 4096 + 4096)).toNat
        = pageNumber r.baseVA * 4096 + 4096 := by
      rw [BitVec.toNat_ofNat, pageNumber]
      omega
    have hsub : r.SubRange (BitVec.ofNat 64 (pageNumber r.baseVA * 4096 + 4096)) 1 := by
      constructor
      · decide
      · rw [hva, pageNumber]
        omega
      · rw [hva, pageNumber, show (1 : BitVec 32).toNat = 1 from rfl]
        omega
      · rw [hva, pageNumber, show (1 : BitVec 32).toNat = 1 from rfl]
        omega
    exact hshadow.not_comesBack (by omega) hva (hinv.back _ _ hsub)
  · rintro ⟨hend, hshadow⟩
    refine ⟨h.walk, fun va size hsub => ?_⟩
    by_cases hwrap : r.baseVA.toNat + r.nBytes < 2 ^ 64
    · exact h.back hwrap hshadow hsub
    · have hlt := r.baseVA.isLt
      exact h.back_last (by omega) (by omega) hsub

/-- 32 bytes that begin 16 bytes before the end of a page. -/
def straddling (secondPage : BitVec 64) (h : secondPage &&& pageMask = secondPage) : MemAccess where
  baseVA := 0x1ff0
  pages := fun i => if i.val = 0 then 0x5000 else secondPage
  valueStorage := none
  nPages := 2
  nBytes := 32
  refSource := .instruction
  valueSet := false
  aligned := fun i => by
    split
    · rfl
    · exact h
  nPages_le := le_refl 2
  stored := fun h => Bool.noConfusion h

theorem straddling_covered (secondPage : BitVec 64) (h : secondPage &&& pageMask = secondPage) :
    (straddling secondPage h).Covered :=
  ⟨.inr rfl, show (0x1ff0 : BitVec 64).toNat % 4096 + 32 ≤ 4096 * 2 by decide,
    show (0x1ff0 : BitVec 64).toNat + 32 ≤ 2 ^ 64 by decide⟩

theorem inverts_iff_straddling : (straddling 0x7000 rfl).Inverts :=
  (inverts_iff _ (straddling_covered 0x7000 rfl)).mpr
    ⟨.inl (by decide), fun h => absurd h.2.1 (by decide)⟩

/-- **Both pages may be the same.** -/
theorem not_always_inverts : ¬ ∀ r : MemAccess, r.Covered → r.Inverts := by
  intro hall
  have hback := (hall _ (straddling_covered 0x5000 rfl)).back 0x2000 1
    ⟨by decide, by decide, by decide, by decide⟩
  have hshadow : (straddling 0x5000 rfl).Shadowed := ⟨rfl, rfl, by decide, by decide⟩
  exact hshadow.not_comesBack (by decide) rfl hback

end MemAccess

end AsimFeeder.SoftSDV
