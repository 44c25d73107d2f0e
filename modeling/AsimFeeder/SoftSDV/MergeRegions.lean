/-
What one region of a merged REP describes.

`RegionOf` says that a descriptor describes a list of references: it has their bytes and
no others, its pages are those of its first and its last byte, and its storage has their
values.  `InitREPRegion` builds such a descriptor of one reference, and `MergeREPRegion`
adds the next reference to it.  The references have to agree on where each virtual page
is: `m` is the page table they go by.
-/
import AsimFeeder.SoftSDV.MergeREP
import AsimFeeder.SoftSDV.PageLookup

namespace AsimFeeder.SoftSDV

/-! ### Descriptors that differ in their pages, or in their values -/

namespace MemAccess

variable {g g' g'' : MemAccess}

structure SameButPages (g g' : MemAccess) : Prop where
  baseVA : g'.baseVA = g.baseVA
  nBytes : g'.nBytes = g.nBytes
  valueStorage : g'.valueStorage = g.valueStorage
  valueSet : g'.valueSet = g.valueSet
  refSource : g'.refSource = g.refSource

theorem SameButPages.refl (g : MemAccess) : SameButPages g g :=
  ⟨rfl, rfl, rfl, rfl, rfl⟩

theorem SameButPages.trans (h : SameButPages g g') (h' : SameButPages g' g'') :
    SameButPages g g'' where
  baseVA := h'.baseVA.trans h.baseVA
  nBytes := h'.nBytes.trans h.nBytes
  valueStorage := h'.valueStorage.trans h.valueStorage
  valueSet := h'.valueSet.trans h.valueSet
  refSource := h'.refSource.trans h.refSource

structure SamePages (g g' : MemAccess) : Prop where
  pages : g'.pages = g.pages
  nPages : g'.nPages = g.nPages

structure SameButValues (g g' : MemAccess) : Prop extends SamePages g g' where
  baseVA : g'.baseVA = g.baseVA
  nBytes : g'.nBytes = g.nBytes

theorem SameButValues.trans (h : SameButValues g g') (h' : SameButValues g' g'') :
    SameButValues g g'' where
  pages := h'.pages.trans h.pages
  nPages := h'.nPages.trans h.nPages
  baseVA := h'.baseVA.trans h.baseVA
  nBytes := h'.nBytes.trans h.nBytes

theorem setPA_zero (g : MemAccess) (pa : BitVec 64) : ∃ g', g.setPA pa 0 = .ok g' ∧
    SameButPages g g' ∧ g'.pages 0 = pa &&& pageMask ∧ g'.pages 1 = g.pages 1 ∧
      g'.nPages = if g.nPages ≤ 0 then 1 else g.nPages :=
  ⟨_, dif_pos (by omega), ⟨rfl, rfl, rfl, rfl, rfl⟩, rfl, rfl, rfl⟩

theorem setPA_one (g : MemAccess) (pa : BitVec 64) : ∃ g', g.setPA pa 1 = .ok g' ∧
    SameButPages g g' ∧ g'.pages 0 = g.pages 0 ∧ g'.pages 1 = pa &&& pageMask ∧
      g'.nPages = if g.nPages ≤ 1 then 2 else g.nPages :=
  ⟨_, dif_pos (by omega), ⟨rfl, rfl, rfl, rfl, rfl⟩, rfl, rfl, rfl⟩

theorem getPA_eq {i : Fin 2} (h : i.val < g.nPages) : g.getPA i.val = .ok (g.pages i) :=
  dif_pos h

theorem copyToValue_spec {s : Storage} {d n : Nat} (src : Nat → UInt8)
    (hset : g.valueSet = true) (hstorage : g.valueStorage = some s) (hfits : d + n ≤ s.size) :
    ∃ g', g.copyToValue d src n = .ok g' ∧ SameButValues g g' ∧ g'.valueSet = true ∧
      g'.valueStorage = some { s with
        byte := fun j => if d ≤ j ∧ j < d + n then src (j - d) else s.byte j } := by
  have hvalue : g.getValue = .ok s := by
    unfold getValue
    rw [dif_pos hset]
    simp [hstorage]
  unfold copyToValue
  rw [hvalue]
  simp only [bind, Except.bind, Storage.memcpy, if_pos hfits]
  exact ⟨_, rfl, ⟨⟨rfl, rfl⟩, rfl, rfl⟩, hset, rfl⟩

/-- Where values are recorded, there is a byte for each byte of the reference. -/
theorem exists_value {r : MemAccess} (h : r.valueSet = true) : ∃ s, r.getValue = .ok s ∧
    ∀ va, r.valueAt va = some (s.byte (va.toNat - r.baseVA.toNat)) := by
  obtain ⟨s, hs⟩ := Option.isSome_iff_exists.mp (r.stored h)
  refine ⟨s, ?_, ?_⟩
  · unfold getValue
    rw [dif_pos h]
    simp [hs]
  · intro va
    rw [valueAt, if_pos h, hs]
    rfl

end MemAccess

open MemAccess

variable {p : MergeParams} {m : Nat → BitVec 64} {cur : List MemAccess} {g g' r : MemAccess}
  {lo hi lo' hi' : Nat}

/-! ### What the merge asks of a reference -/

/-- A reference that the merge can add to a region with the page table `m`. -/
structure RefOk (p : MergeParams) (m : Nat → BitVec 64) (r : MemAccess) : Prop where
  source : r.refSource = .instruction
  size : r.nBytes = p.refSize
  pages : 0 < r.nPages
  fits : r.baseVA.toNat + p.refSize < 2 ^ 64
  values : p.useValues = true → r.valueSet = true
  page : ∀ va, r.Contains va → r.pageOf va = m (pageNumber va)

theorem RefOk.contains_iff (h : RefOk p m r) (va : BitVec 64) : r.Contains va ↔
    r.baseVA.toNat ≤ va.toNat ∧ va.toNat < r.baseVA.toNat + p.refSize := by
  rw [Contains, h.size]

theorem RefOk.pTranslate (h : RefOk p m r) {va : BitVec 64} (hva : r.Contains va) :
    r.pTranslate va = .ok (m (pageNumber va) + (va &&& ~~~pageMask)) := by
  rw [pTranslate_eq h.pages (by rw [h.size]; exact h.fits) hva, h.page va hva]

/-- The page of an address, as the merge takes it from what `PTranslate` returns. -/
theorem RefOk.page_eq (h : RefOk p m r) {va : BitVec 64} (hva : r.Contains va) :
    (m (pageNumber va) + (va &&& ~~~pageMask)) &&& pageMask = m (pageNumber va) := by
  rw [← h.page va hva]
  exact page_add_offset (r.pageOf_and_pageMask va) va

section FirstAndLast

variable (h : RefOk p m r) (hpos : 0 < p.refSize)

include h hpos

theorem RefOk.contains_first : r.Contains r.baseVA := by
  rw [h.contains_iff]
  omega

theorem RefOk.page_first : r.pages 0 = m (r.baseVA.toNat / 4096) := by
  rw [← pageNumber, ← h.page _ (h.contains_first hpos), pageOf, if_pos (Or.inr rfl)]

theorem RefOk.toNat_last :
    (r.baseVA + BitVec.ofNat 64 p.refSize - 1).toNat = r.baseVA.toNat + p.refSize - 1 := by
  have hfits := h.fits
  rw [BitVec.toNat_sub, BitVec.toNat_add, BitVec.toNat_ofNat,
    show (1 : BitVec 64).toNat = 1 from rfl]
  omega

theorem RefOk.contains_last : r.Contains (r.baseVA + BitVec.ofNat 64 p.refSize - 1) := by
  rw [h.contains_iff, h.toNat_last hpos]
  omega

end FirstAndLast

/-! ### Pages -/

/-- The pages of a descriptor are those of its first and its last byte. -/
structure PagesOf (m : Nat → BitVec 64) (lo hi : Nat) (g : MemAccess) : Prop where
  first : g.pages 0 = m (lo / 4096)
  last : g.nPages = 1 ∧ m (hi / 4096) = m (lo / 4096) ∨
    g.nPages = 2 ∧ hi / 4096 = lo / 4096 + 1 ∧ g.pages 1 = m (hi / 4096)

theorem PagesOf.congr (h : PagesOf m lo hi g) (hs : SamePages g g') : PagesOf m lo hi g' where
  first := by rw [hs.pages, h.first]
  last := by rw [hs.pages, hs.nPages]; exact h.last

theorem PagesOf.nPages_pos (h : PagesOf m lo hi g) : 0 < g.nPages := by
  rcases h.last with ⟨hn, -⟩ | ⟨hn, -⟩ <;> omega

/-- A descriptor of at most half a page looks every address up in the right page. -/
theorem PagesOf.pageOf (h : PagesOf m lo hi g) (hlo : g.baseVA.toNat = lo) (hsize : hi < lo + 2048)
    {va : BitVec 64} (hge : lo ≤ va.toNat) (hle : va.toNat ≤ hi) :
    g.pageOf va = m (pageNumber va) := by
  have hpage : pageNumber va = lo / 4096 ∨ pageNumber va = hi / 4096 := by
    unfold pageNumber
    omega
  rw [MemAccess.pageOf, show pageNumber g.baseVA = lo / 4096 by rw [pageNumber, hlo]]
  rcases h.last with ⟨hn, hm⟩ | ⟨hn, hnext, hlast⟩
  · rw [if_pos (Or.inl hn), h.first]
    rcases hpage with hp | hp
    · rw [hp]
    · rw [hp, hm]
  · rcases hpage with hp | hp
    · rw [if_pos (Or.inr hp), h.first, hp]
    · rw [if_neg (by omega), hlast, hp]

theorem initPages_spec (hr : RefOk p m r) (hpos : 0 < p.refSize) (h8 : p.refSize ≤ 8)
    (hg : g.nPages = 0) : ∃ g', initPages p.refSize g r = .ok g' ∧ SameButPages g g' ∧
      PagesOf m r.baseVA.toNat (r.baseVA.toNat + p.refSize - 1) g' := by
  have hfirst := hr.page_first hpos
  have hget : r.getPA 0 = .ok (r.pages 0) := getPA_eq (i := 0) hr.pages
  have hlast := hr.toNat_last hpos
  obtain ⟨g₁, hset, hsame, hpages, -, hn⟩ := setPA_zero g (r.pages 0)
  rw [hg, if_pos (Nat.le_refl 0)] at hn
  rw [r.aligned, hfirst] at hpages
  unfold initPages
  rw [hget]
  simp only [bind, Except.bind, hset]
  by_cases h1 : r.nPages > 1
  · have htranslate := hr.pTranslate (hr.contains_last hpos)
    have hpage := hr.page_eq (hr.contains_last hpos)
    rw [if_pos h1, htranslate]
    rw [pageNumber, hlast] at hpage ⊢
    simp only [hpage]
    by_cases hne : m ((r.baseVA.toNat + p.refSize - 1) / 4096) ≠ r.pages 0
    · rw [if_pos hne]
      obtain ⟨g₂, hset₂, hsame₂, hpage0, hpage1, hn₂⟩ := setPA_one g₁
        (m ((r.baseVA.toNat + p.refSize - 1) / 4096) +
          (r.baseVA + BitVec.ofNat 64 p.refSize - 1 &&& ~~~pageMask))
      rw [hn, if_pos (Nat.le_refl 1)] at hn₂
      refine ⟨g₂, hset₂, hsame.trans hsame₂, hpage0.trans hpages, Or.inr ⟨hn₂, ?_, ?_⟩⟩
      · rw [hfirst] at hne
        by_contra hsamePage
        exact hne (congrArg m (by omega))
      · rw [hpage1, hpage]
    · rw [if_neg hne]
      exact ⟨g₁, rfl, hsame, hpages, Or.inl ⟨hn, (not_not.mp hne).trans hfirst⟩⟩
  · rw [if_neg h1]
    refine ⟨g₁, rfl, hsame, hpages, Or.inl ⟨hn, ?_⟩⟩
    have hone : r.nPages = 1 := by
      have := hr.pages
      omega
    have hp := hr.page _ (hr.contains_last hpos)
    rw [MemAccess.pageOf, if_pos (Or.inl hone), pageNumber, hlast] at hp
    rw [← hp, hfirst]

/-- `g'` begins at `lo'` and ends at `hi'`, and `g` has no bytes but these. -/
theorem combinePages_forward (hr : RefOk p m r) (hpos : 0 < p.refSize) (h8 : p.refSize ≤ 8)
    (hdir : p.moveForward = true) (h : PagesOf m lo hi g) (hle : lo ≤ hi)
    (hnext : r.baseVA.toNat = hi + 1) (hsize : hi + p.refSize < lo + 2048) :
    ∃ g', combinePages p g r = .ok g' ∧ SameButPages g g' ∧ PagesOf m lo (hi + p.refSize) g' := by
  have hlast := hr.toNat_last hpos
  have hlast' : (r.baseVA + BitVec.ofNat 64 p.refSize - 1).toNat = hi + p.refSize := by omega
  have htranslate := hr.pTranslate (hr.contains_last hpos)
  have hpage := hr.page_eq (hr.contains_last hpos)
  rw [pageNumber, hlast'] at htranslate hpage
  have hget : g.getPA (g.nPages - 1) = .ok (m (hi / 4096)) := by
    rcases h.last with ⟨hn, hm⟩ | ⟨hn, -, hp⟩
    · rw [hn, hm, ← h.first]
      exact getPA_eq (i := 0) (by omega)
    · rw [hn, ← hp]
      exact getPA_eq (i := 1) (by omega)
  unfold combinePages
  rw [if_neg (Nat.ne_of_gt h.nPages_pos), if_pos hdir, htranslate]
  simp only [bind, Except.bind, hpage, hget]
  by_cases hne : m (hi / 4096) ≠ m ((hi + p.refSize) / 4096)
  · have hcross : (hi + p.refSize) / 4096 ≠ hi / 4096 := fun he => hne (congrArg m he.symm)
    rw [if_pos hne]
    rcases h.last with ⟨hn, hm⟩ | ⟨hn, htwo, -⟩
    · obtain ⟨g', hset, hsame, hpage0, hpage1, hn'⟩ := setPA_one g (m ((hi + p.refSize) / 4096))
      rw [hn, if_pos (Nat.le_refl 1)] at hn'
      rw [hn]
      refine ⟨g', hset, hsame, hpage0.trans h.first, Or.inr ⟨hn', by omega, ?_⟩⟩
      rw [hpage1, ← hpage, and_pageMask_and]
    -- A third page does not fit in half a page.
    · omega
  · rw [if_neg hne]
    refine ⟨g, rfl, SameButPages.refl g, h.first, ?_⟩
    rw [← not_not.mp hne]
    rcases h.last with ⟨hn, hm⟩ | ⟨hn, htwo, hp⟩
    · exact Or.inl ⟨hn, hm⟩
    · exact Or.inr ⟨hn, by omega, hp⟩

theorem combinePages_backward (hr : RefOk p m r) (hpos : 0 < p.refSize) (h8 : p.refSize ≤ 8)
    (hdir : p.moveForward = false) (h : PagesOf m lo hi g) (hle : lo ≤ hi)
    (hnext : r.baseVA.toNat + p.refSize = lo) (hsize : hi + p.refSize < lo + 2048) :
    ∃ g', combinePages p g r = .ok g' ∧ SameButPages g g' ∧ PagesOf m r.baseVA.toNat hi g' := by
  have htranslate := hr.pTranslate (hr.contains_first hpos)
  have hpage := hr.page_eq (hr.contains_first hpos)
  rw [pageNumber] at htranslate hpage
  have hget : g.getPA 0 = .ok (m (lo / 4096)) := by
    rw [← h.first]
    exact getPA_eq (i := 0) h.nPages_pos
  unfold combinePages
  rw [if_neg (Nat.ne_of_gt h.nPages_pos), if_neg (by simp [hdir]), htranslate]
  simp only [bind, Except.bind, hpage, hget]
  by_cases hne : m (lo / 4096) ≠ m (r.baseVA.toNat / 4096)
  · have hcross : r.baseVA.toNat / 4096 ≠ lo / 4096 := fun he => hne (congrArg m he.symm)
    rw [if_pos hne]
    rcases h.last with ⟨hn, hm⟩ | ⟨hn, htwo, -⟩
    · obtain ⟨g₁, hset₁, hsame₁, -, hpage1, hn₁⟩ := setPA_one g (m (lo / 4096))
      obtain ⟨g₂, hset₂, hsame₂, hpage0, hkept, hn₂⟩ := setPA_zero g₁
        (m (r.baseVA.toNat / 4096))
      rw [hn, if_pos (Nat.le_refl 1)] at hn₁
      rw [hn₁, if_neg (by omega)] at hn₂
      have hshift : shiftPages g g.nPages = .ok g₁ := by
        rw [hn, shiftPages, hget]
        simp only [bind, Except.bind, hset₁, shiftPages]
      rw [hshift]
      refine ⟨g₂, hset₂, hsame₁.trans hsame₂, ?_, Or.inr ⟨hn₂, by omega, ?_⟩⟩
      · rw [hpage0, ← hpage, and_pageMask_and]
      · rw [hkept, hpage1, hm, ← h.first, g.aligned]
    · omega
  · rw [if_neg hne]
    have hm := not_not.mp hne
    refine ⟨g, rfl, SameButPages.refl g, h.first.trans hm, ?_⟩
    rw [← hm]
    rcases h.last with ⟨hn, hp⟩ | ⟨hn, htwo, hp⟩
    · exact Or.inl ⟨hn, hp⟩
    · exact Or.inr ⟨hn, by omega, hp⟩

/-! ### Values -/

/-- Where the first byte of a region of `n` bytes stands in its value buffer. -/
def valueShift (p : MergeParams) (n : Nat) : Nat :=
  if p.moveForward then 0 else refRegionChunk - n

/-- The value buffer has, from `shift` on, the bytes of the references. -/
def ValuesOf (p : MergeParams) (cur : List MemAccess) (shift : Nat) (g : MemAccess) : Prop :=
  p.useValues = true → g.valueSet = true ∧ ∃ s, g.valueStorage = some s ∧
    s.size = refRegionChunk ∧ ∀ r ∈ cur, ∀ va, r.Contains va →
      r.valueAt va = some (s.byte (shift + (va.toNat - g.baseVA.toNat)))

theorem allocValue_spec (hpos : 0 < g.nBytes) (hnone : g.valueStorage = none) :
    ∃ g₁ g₂ s, g.allocValueStorage (Storage.zeroed refRegionChunk) = .ok g₁ ∧
      g₁.setValue (fun _ => 0) 1 0 = .ok g₂ ∧ SameButValues g g₂ ∧ g₂.valueSet = true ∧
      g₂.valueStorage = some s ∧ s.size = refRegionChunk := by
  have hmemcpy : ∃ s, (Storage.zeroed refRegionChunk).memcpy 0 (fun _ => 0) 1 = .ok s ∧
      s.size = refRegionChunk := ⟨_, if_pos (by decide), rfl⟩
  obtain ⟨s, hs, hsize⟩ := hmemcpy
  refine ⟨_, { g with valueStorage := some s, valueSet := true, stored := fun _ => rfl }, s,
    if_pos ⟨hpos, hnone⟩, ?_, ⟨⟨rfl, rfl⟩, rfl, rfl⟩, rfl, rfl, hsize⟩
  unfold setValue
  rw [if_pos (show 1 + 0 ≤ g.nBytes by omega)]
  simp only [bind, Except.bind, hs]

/-- Copying the value of a reference to its place in the buffer. -/
theorem copyValue_spec {s : Storage} {d : Nat} (hr : RefOk p m r) (huse : p.useValues = true)
    (hset : g.valueSet = true) (hstorage : g.valueStorage = some s)
    (hsize : s.size = refRegionChunk)
    (hroom : d + p.refSize ≤ refRegionChunk) :
    ∃ v g' s', r.getValue = .ok v ∧ g.copyToValue d v.byte p.refSize = .ok g' ∧
      SameButValues g g' ∧ g'.valueSet = true ∧ g'.valueStorage = some s' ∧
      s'.size = refRegionChunk ∧
      (∀ va, r.Contains va → r.valueAt va = some (s'.byte (d + (va.toNat - r.baseVA.toNat)))) ∧
      ∀ j, j < d ∨ d + p.refSize ≤ j → s'.byte j = s.byte j := by
  obtain ⟨v, hget, hvalue⟩ := exists_value (hr.values huse)
  obtain ⟨g', hcopy, hsame, hset', hstorage'⟩ :=
    copyToValue_spec v.byte hset hstorage (by rw [hsize]; exact hroom)
  refine ⟨v, g', _, hget, hcopy, hsame, hset', hstorage', hsize, ?_, ?_⟩
  · intro va hva
    have hin := (hr.contains_iff va).mp hva
    rw [hvalue]
    simp only
    rw [if_pos (by omega), Nat.add_sub_cancel_left]
  · intro j hj
    exact if_neg (by omega)

theorem initValues_spec (hr : RefOk p m r) (hpos : 0 < p.refSize) (h8 : p.refSize ≤ 8)
    (hbase : g.baseVA = r.baseVA) (hsize : g.nBytes = p.refSize) (hnone : g.valueStorage = none) :
    ∃ g', initValues p g r refRegionChunk = .ok g' ∧ SameButValues g g' ∧
      ValuesOf p [r] (valueShift p p.refSize) g' := by
  unfold initValues
  by_cases huse : p.useValues = true
  · have hroom : valueShift p p.refSize + p.refSize ≤ refRegionChunk := by
      unfold valueShift refRegionChunk
      split <;> omega
    obtain ⟨g₁, g₂, s, halloc, hfirst, hsame, hset, hstorage, hs⟩ :=
      allocValue_spec (by omega) hnone
    obtain ⟨v, g', s', hget, hcopy, hsame', hset', hstorage', hs', hvalue, -⟩ :=
      copyValue_spec hr huse hset hstorage hs hroom
    rw [if_pos huse, halloc, hget]
    simp only [bind, Except.bind, hfirst]
    refine ⟨g', hcopy, hsame.trans hsame', fun _ => ⟨hset', s', hstorage', hs', ?_⟩⟩
    intro r' hr' va hva
    rw [List.mem_singleton.mp hr'] at hva ⊢
    rw [hvalue va hva, hsame'.baseVA, hsame.baseVA, hbase]
  · rw [if_neg huse]
    exact ⟨g, rfl, ⟨⟨rfl, rfl⟩, rfl, rfl⟩, fun h => absurd h huse⟩

/-- `g` is the new region with the value buffer the region had before. -/
theorem combineValues_spec {n a : Nat} (hr : RefOk p m r) (hval : r.valueSet = p.useValues)
    (hn : g.nBytes = n + p.refSize) (hroom : n + p.refSize ≤ refRegionChunk)
    (hdir : if p.moveForward then g.baseVA.toNat = a ∧ r.baseVA.toNat = a + n
      else g.baseVA = r.baseVA ∧ r.baseVA.toNat + p.refSize = a)
    (hcur : ∀ r' ∈ cur, ∀ va, r'.Contains va → a ≤ va.toNat ∧ va.toNat < a + n)
    (hold : p.useValues = true → g.valueSet = true ∧ ∃ s, g.valueStorage = some s ∧
      s.size = refRegionChunk ∧ ∀ r' ∈ cur, ∀ va, r'.Contains va →
        r'.valueAt va = some (s.byte (valueShift p n + (va.toNat - a)))) :
    ∃ g', combineValues p g r refRegionChunk = .ok g' ∧ SameButValues g g' ∧
      ValuesOf p (cur ++ [r]) (valueShift p (n + p.refSize)) g' := by
  unfold combineValues
  rw [if_neg (by simp [hval])]
  by_cases huse : p.useValues = true
  · obtain ⟨hset, s, hstorage, hs, hbytes⟩ := hold huse
    rw [if_pos huse]
    cases hfwd : p.moveForward with
    | true =>
        rw [hfwd] at hdir
        obtain ⟨hbase, hnext⟩ := hdir
        obtain ⟨v, g', s', hget, hcopy, hsame, hset', hstorage', hs', hvalue, hkept⟩ :=
          copyValue_spec (d := n) hr huse hset hstorage hs hroom
        rw [hget, hn, Nat.add_sub_cancel]
        refine ⟨g', hcopy, hsame, fun _ => ⟨hset', s', hstorage', hs', ?_⟩⟩
        intro r' hr' va hva
        rw [valueShift, if_pos hfwd, hsame.baseVA, hbase]
        rcases List.mem_append.mp hr' with hr' | hr'
        · have hin := hcur r' hr' va hva
          have hbyte := hbytes r' hr' va hva
          rw [valueShift, if_pos hfwd] at hbyte
          rw [hbyte, hkept _ (by omega)]
        · rw [List.mem_singleton.mp hr'] at hva ⊢
          have hin := (hr.contains_iff va).mp hva
          rw [hvalue va hva]
          congr 2
          omega
    | false =>
        rw [hfwd] at hdir
        obtain ⟨hbase, hnext⟩ := hdir
        have hshift : ∀ k, valueShift p k = refRegionChunk - k := fun k => if_neg (by simp [hfwd])
        obtain ⟨v, g', s', hget, hcopy, hsame, hset', hstorage', hs', hvalue, hkept⟩ :=
          copyValue_spec (d := refRegionChunk - (n + p.refSize)) hr huse hset hstorage hs
            (by omega)
        rw [hget, hn]
        refine ⟨g', hcopy, hsame, fun _ => ⟨hset', s', hstorage', hs', ?_⟩⟩
        intro r' hr' va hva
        rw [hshift, hsame.baseVA, hbase]
        rcases List.mem_append.mp hr' with hr' | hr'
        · have hin := hcur r' hr' va hva
          have hbyte := hbytes r' hr' va hva
          rw [hshift] at hbyte
          rw [hbyte, hkept _ (by omega)]
          congr 2
          omega
        · rw [List.mem_singleton.mp hr'] at hva ⊢
          exact hvalue va hva
  · rw [if_neg huse]
    exact ⟨g, rfl, ⟨⟨rfl, rfl⟩, rfl, rfl⟩, fun h => absurd h huse⟩

/-! ### Regions -/

/-- `g` describes the references `cur`; its values begin at `shift` in the value buffer. -/
structure RegionOf (p : MergeParams) (m : Nat → BitVec 64) (cur : List MemAccess) (shift : Nat)
    (g : MemAccess) : Prop where
  refs : ∀ r ∈ cur, RefOk p m r
  size : g.nBytes = cur.length * p.refSize
  small : g.nBytes ≤ refRegionChunk
  fits : g.baseVA.toNat + g.nBytes < 2 ^ 64
  union : ∀ va, g.Contains va ↔ ∃ r ∈ cur, r.Contains va
  pages : PagesOf m g.baseVA.toNat (g.baseVA.toNat + g.nBytes - 1) g
  values : ValuesOf p cur shift g

theorem initREPRegion_spec (hr : RefOk p m r) (hpos : 0 < p.refSize) (h8 : p.refSize ≤ 8) :
    ∃ g, initREPRegion p r refRegionChunk = .ok g ∧ g.baseVA = r.baseVA ∧
      RegionOf p m [r] (valueShift p g.nBytes) g := by
  obtain ⟨g₁, hpages, hsame, hof⟩ :=
    initPages_spec (g := MemAccess.new.setVA r.baseVA) hr hpos h8 rfl
  have hsource : g₁.setRefSource .instruction = .ok { g₁ with refSource := .instruction } :=
    if_pos hsame.refSource
  have hsetSize : ({ g₁ with refSource := .instruction } : MemAccess).setSize p.refSize =
      .ok { g₁ with refSource := .instruction, nBytes := p.refSize } :=
    if_pos (show p.refSize < 4096 by omega)
  obtain ⟨g, hvalues, hkept, hof'⟩ := initValues_spec
    (g := { g₁ with refSource := .instruction, nBytes := p.refSize }) hr hpos h8 hsame.baseVA rfl
    hsame.valueStorage
  have hbase : g.baseVA = r.baseVA := hkept.baseVA.trans hsame.baseVA
  have hsize : g.nBytes = p.refSize := hkept.nBytes
  refine ⟨g, ?_, hbase, ?_⟩
  · unfold initREPRegion
    rw [hpages]
    simp only [bind, Except.bind, hsource, if_neg (not_not.mpr hr.source),
      if_neg (not_not.mpr hr.size), hsetSize]
    exact hvalues
  · exact
      { refs := fun r' hr' => List.mem_singleton.mp hr' ▸ hr
        size := by rw [hsize, List.length_singleton, Nat.one_mul]
        small := by rw [hsize]; unfold refRegionChunk; omega
        fits := by rw [hbase, hsize]; exact hr.fits
        union := by
          intro va
          rw [Contains, hbase, hsize, ← hr.contains_iff va]
          simp
        pages := by
          rw [hbase, hsize]
          exact hof.congr ⟨hkept.pages, hkept.nPages⟩
        values := by rw [hsize]; exact hof' }

/-- `r` comes directly behind `g`, in the direction the REP moves. -/
def Follows (p : MergeParams) (g r : MemAccess) : Prop :=
  if p.moveForward then
    r.baseVA.toNat = g.baseVA.toNat + g.nBytes
  else
    r.baseVA.toNat + p.refSize = g.baseVA.toNat

/-- `g` with the range of `r` added to its range. -/
def extend (p : MergeParams) (g r : MemAccess) : MemAccess :=
  { g with
    baseVA := if p.moveForward then g.baseVA else r.baseVA
    nBytes := g.nBytes + p.refSize }

theorem Follows.range (h : Follows p g r) :
    p.moveForward = true ∧ (extend p g r).baseVA = g.baseVA ∧
        r.baseVA.toNat = g.baseVA.toNat + g.nBytes ∨
      p.moveForward = false ∧ (extend p g r).baseVA = r.baseVA ∧
        r.baseVA.toNat + p.refSize = g.baseVA.toNat := by
  unfold Follows at h
  unfold extend
  cases hfwd : p.moveForward with
  | true =>
      rw [hfwd, if_pos rfl] at h
      exact Or.inl ⟨rfl, rfl, h⟩
  | false =>
      rw [hfwd, if_neg Bool.false_ne_true] at h
      exact Or.inr ⟨rfl, rfl, h⟩

theorem combineRegions_spec (hr : RefOk p m r) (h8 : p.refSize ≤ 8)
    (hsmall : g.nBytes ≤ refRegionChunk) (hnext : Follows p g r) :
    combineRegions p g r = .ok (extend p g r) := by
  have hroom : g.nBytes + p.refSize < pageSize.toNat := by
    rw [show pageSize.toNat = 4096 from rfl]
    unfold refRegionChunk at hsmall
    omega
  have hrfits := hr.fits
  unfold combineRegions extend
  rcases hnext.range with ⟨hfwd, -, hbase⟩ | ⟨hfwd, -, hbase⟩
  · have heq : g.baseVA + BitVec.ofNat 64 g.nBytes = r.baseVA := by
      apply BitVec.eq_of_toNat_eq
      rw [BitVec.toNat_add, BitVec.toNat_ofNat]
      omega
    simp only [hfwd, if_true, if_pos heq]
    exact if_pos hroom
  · have heq : g.baseVA = r.baseVA + BitVec.ofNat 64 p.refSize := by
      apply BitVec.eq_of_toNat_eq
      rw [BitVec.toNat_add, BitVec.toNat_ofNat]
      omega
    simp only [hfwd, Bool.false_eq_true, if_false, if_pos heq]
    rw [heq, BitVec.add_sub_cancel]
    exact if_pos hroom

theorem RegionOf.nBytes_pos {shift : Nat} (h : RegionOf p m cur shift g) (hne : cur ≠ [])
    (hpos : 0 < p.refSize) : 0 < g.nBytes := by
  rw [h.size]
  exact Nat.mul_pos (List.length_pos_iff.mpr hne) hpos

theorem combinePages_spec (hr : RefOk p m r) (hpos : 0 < p.refSize) (h8 : p.refSize ≤ 8)
    (hpages : PagesOf m g.baseVA.toNat (g.baseVA.toNat + g.nBytes - 1) g) (hbytes : 0 < g.nBytes)
    (hnext : Follows p g r) (hroom : g.nBytes + p.refSize ≤ refRegionChunk) :
    ∃ g', combinePages p (extend p g r) r = .ok g' ∧ SameButPages (extend p g r) g' ∧
      PagesOf m (extend p g r).baseVA.toNat
        ((extend p g r).baseVA.toNat + (g.nBytes + p.refSize) - 1) g' := by
  have hroom' : g.nBytes + p.refSize ≤ 2048 := hroom
  have hkept : PagesOf m g.baseVA.toNat (g.baseVA.toNat + g.nBytes - 1) (extend p g r) :=
    hpages.congr ⟨rfl, rfl⟩
  rcases hnext.range with ⟨hfwd, hbase, hr'⟩ | ⟨hfwd, hbase, hr'⟩
  · rw [hbase, show g.baseVA.toNat + (g.nBytes + p.refSize) - 1 =
      g.baseVA.toNat + g.nBytes - 1 + p.refSize by omega]
    exact combinePages_forward hr hpos h8 hfwd hkept (by omega) (by omega) (by omega)
  · rw [hbase, show r.baseVA.toNat + (g.nBytes + p.refSize) - 1 =
      g.baseVA.toNat + g.nBytes - 1 by omega]
    exact combinePages_backward hr hpos h8 hfwd hkept (by omega) hr' (by omega)

theorem mergeREPRegion_spec (h : RegionOf p m cur (valueShift p g.nBytes) g) (hne : cur ≠ [])
    (hr : RefOk p m r) (hpos : 0 < p.refSize) (h8 : p.refSize ≤ 8)
    (hval : r.valueSet = p.useValues) (hnext : Follows p g r)
    (hroom : g.nBytes + p.refSize ≤ refRegionChunk) :
    ∃ g', mergeREPRegion p g r refRegionChunk = .ok g' ∧ g'.baseVA = (extend p g r).baseVA ∧
      RegionOf p m (cur ++ [r]) (valueShift p g'.nBytes) g' := by
  obtain ⟨g₂, hpages, hsame, hof⟩ :=
    combinePages_spec hr hpos h8 h.pages (h.nBytes_pos hne hpos) hnext hroom
  obtain ⟨g', hvalues, hkept, hof'⟩ := combineValues_spec (g := g₂) (a := g.baseVA.toNat) hr hval
    hsame.nBytes hroom
    (by
      rw [hsame.baseVA]
      rcases hnext.range with ⟨hfwd, hbase, hr'⟩ | ⟨hfwd, hbase, hr'⟩
      · rw [if_pos hfwd, hbase]
        exact ⟨rfl, hr'⟩
      · rw [if_neg (by simp [hfwd]), hbase]
        exact ⟨rfl, hr'⟩)
    (fun r' hr' va hva => (h.union va).mpr ⟨r', hr', hva⟩)
    (by
      rw [hsame.valueSet, hsame.valueStorage]
      exact h.values)
  have hbase : g'.baseVA = (extend p g r).baseVA := hkept.baseVA.trans hsame.baseVA
  have hsize : g'.nBytes = g.nBytes + p.refSize := hkept.nBytes.trans hsame.nBytes
  refine ⟨g', ?_, hbase, ?_⟩
  · unfold mergeREPRegion
    rw [if_neg (not_not.mpr hr.source), if_neg (not_not.mpr hr.size),
      combineRegions_spec hr h8 h.small hnext]
    simp only [bind, Except.bind, hpages]
    exact hvalues
  · have hgfits := h.fits
    have hrfits := hr.fits
    exact
      { refs := by
          intro r' hr'
          rcases List.mem_append.mp hr' with hr' | hr'
          · exact h.refs r' hr'
          · exact List.mem_singleton.mp hr' ▸ hr
        size := by
          rw [hsize, h.size, List.length_append, List.length_singleton, Nat.add_mul, Nat.one_mul]
        small := by rw [hsize]; exact hroom
        fits := by
          rw [hbase, hsize]
          rcases hnext.range with ⟨-, hb, hr'⟩ | ⟨-, hb, hr'⟩ <;> rw [hb] <;> omega
        union := by
          intro va
          have hsplit : g'.Contains va ↔ g.Contains va ∨ r.Contains va := by
            rw [hr.contains_iff, Contains, Contains, hbase, hsize]
            rcases hnext.range with ⟨-, hb, hr'⟩ | ⟨-, hb, hr'⟩ <;> rw [hb] <;> omega
          rw [hsplit, h.union]
          simp [or_and_right, exists_or]
        pages := by
          rw [hbase, hsize]
          exact hof.congr hkept.toSamePages
        values := by rw [hsize]; exact hof' }

/-! ### Finished regions -/

/-- At `va` the region gives the physical address and the value byte of the reference. -/
def SameMemory (useValues : Bool) (r g : MemAccess) (va : BitVec 64) : Prop :=
  (∃ pa, r.pTranslate va = .ok pa ∧ g.pTranslate va = .ok pa) ∧
    (useValues = true → ∃ v, r.valueAt va = some v ∧ g.valueAt va = some v)

theorem RegionOf.sameMemory (h : RegionOf p m cur 0 g) (hpos : 0 < p.refSize) {va : BitVec 64}
    (hr : r ∈ cur) (hva : r.Contains va) : SameMemory p.useValues r g va := by
  have hg : g.Contains va := (h.union va).mpr ⟨r, hr, hva⟩
  have hsmall := h.small
  unfold refRegionChunk at hsmall
  constructor
  · refine ⟨_, (h.refs r hr).pTranslate hva, ?_⟩
    have hbytes := h.nBytes_pos (List.ne_nil_of_mem hr) hpos
    rw [pTranslate_eq h.pages.nPages_pos h.fits hg,
      h.pages.pageOf rfl (by omega) hg.1 (by have := hg.2; omega)]
  · intro huse
    obtain ⟨hset, s, hstorage, -, hbytes⟩ := h.values huse
    refine ⟨_, hbytes r hr va hva, ?_⟩
    rw [valueAt, if_pos hset, hstorage, Nat.zero_add]
    rfl

theorem shiftValues_spec (h : RegionOf p m cur (valueShift p g.nBytes) g) :
    ∃ g', shiftValues p g.nBytes g = .ok g' ∧ RegionOf p m cur 0 g' := by
  have hsmall := h.small
  unfold shiftValues
  by_cases hcond : p.useValues ∧ ¬ p.moveForward ∧ g.nBytes ≠ refRegionChunk
  · obtain ⟨huse, hdir, -⟩ := id hcond
    obtain ⟨hset, s, hstorage, hs, hbytes⟩ := h.values huse
    have hget : g.getValue = .ok s := by
      unfold getValue
      rw [dif_pos hset]
      simp [hstorage]
    obtain ⟨g', hcopy, hsame, hset', hstorage'⟩ := copyToValue_spec (d := 0) (n := g.nBytes)
      (fun j => s.byte (refRegionChunk - g.nBytes + j)) hset hstorage (by omega)
    rw [if_pos hcond, hget]
    refine ⟨g', hcopy, ?_⟩
    exact
      { refs := h.refs
        size := hsame.nBytes.trans h.size
        small := by rw [hsame.nBytes]; exact hsmall
        fits := by rw [hsame.baseVA, hsame.nBytes]; exact h.fits
        union := by
          intro va
          rw [← h.union, Contains, Contains, hsame.baseVA, hsame.nBytes]
        pages := by
          rw [hsame.baseVA, hsame.nBytes]
          exact h.pages.congr hsame.toSamePages
        values := by
          refine fun _ => ⟨hset', _, hstorage', hs, ?_⟩
          intro r hr va hva
          obtain ⟨hge, hlt⟩ := (h.union va).mpr ⟨r, hr, hva⟩
          rw [hbytes r hr va hva, valueShift, if_neg hdir, hsame.baseVA]
          simp only
          rw [if_pos (by omega)]
          congr 2
          omega }
  · rw [if_neg hcond]
    refine ⟨g, rfl, { h with values := ?_ }⟩
    intro huse
    have hzero : valueShift p g.nBytes = 0 := by
      unfold valueShift
      split
      · rfl
      · have : g.nBytes = refRegionChunk := by
          by_contra hne
          exact hcond ⟨huse, by assumption, hne⟩
        omega
    rw [← hzero]
    exact h.values huse

end AsimFeeder.SoftSDV
