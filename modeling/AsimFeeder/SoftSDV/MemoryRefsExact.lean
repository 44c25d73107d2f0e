/-
What the regions of an instruction are worth after `NoteMemoryRefs`.

The second pass goes through the records again.  `Noted` says what it has made of a region:
the second page of the region is there once a record in the region reaches it, and each byte
is that of the last record which lies in the region and has it.  `ContainsVA` passes over the
other records, and `MergeRefs` takes a byte in that no record has when a record ends one byte
before the region: `Careful` says that neither shows.
-/
import AsimFeeder.SoftSDV.MemoryRefsEnd

namespace AsimFeeder.SoftSDV

open AsimFeeder.Lib MemAccess

namespace Access

/-- What the record has for the byte at `va`. -/
def byteAt (a : Access) (va : BitVec 64) : Option UInt8 :=
  a.data.map fun data => data (va - a.virtMemAddr).toNat

/-- The same record with other data, where it has any. -/
def withData (data : Access → Nat → UInt8) (a : Access) : Access :=
  { a with data := a.data.map fun _ => data a }

theorem withData_self (a : Access) : a.withData (fun a => a.data.getD fun _ => 0) = a := by
  cases a with
  | mk access origin size phyMemAddr virtMemAddr data => cases data <;> rfl

end Access

/-- The last record in list order that touches the byte at `va`. -/
def lastTouch (records : List Access) (va : BitVec 64) : Option Access :=
  records.foldl (fun last a => if a.Touches va then some a else last) none

def lastByte (records : List Access) (va : BitVec 64) : Option UInt8 :=
  (lastTouch records va).bind (·.byteAt va)

/-- The regions combine the records exactly; `m` says where a virtual page is. -/
structure Exact (m : Nat → BitVec 64) (values : Bool) (records : List Access)
    (regions : List MemAccess) : Prop where
  inside : ∀ a ∈ records, ∃ r ∈ regions, ∀ va, a.Touches va → r.Contains va
  touched : ∀ r ∈ regions, ∀ va, r.Contains va → ∃ a ∈ records, a.Touches va
  translated : ∀ a ∈ records, ∀ va, a.Touches va → ∀ r ∈ regions, r.Contains va →
    r.pTranslate va = .ok (translate m va)
  valued : values = true → ∀ r ∈ regions, ∀ va, r.Contains va → ∀ byte,
    lastByte records va = some byte → r.valueAt va = some byte

/-- Exact for the reads in the load regions, and for the writes in the one store region. -/
def MemRefs.Exact (mem : MemRefs) (p : NoteParams) (m : Nat → BitVec 64) (list : List Access) :
    Prop :=
  (∀ write, SoftSDV.Exact m p.recordMemoryValues (recordsOf p write list) (mem.refs write)) ∧
    mem.stores.length ≤ 1

/-- The records as SoftSDV promises them: a size in 1..4095, their own data, and where the page
table has them, which is what `VirtualToPhysical` looks up. -/
structure Promised (p : NoteParams) (m : Nat → BitVec 64) (list : List Access) : Prop where
  aligned : ∀ n, m n &&& pageMask = m n
  placed : ∀ a ∈ list, a.origin = p.origin → a.Placed m
  data : ∀ a ∈ list, a.origin = p.origin → a.data.isSome
  lookup : ∀ a ∈ list, a.origin = p.origin → ∀ va, a.Touches va →
    p.virtualToPhysical va a.access = some (translate m va)

/-- When the code combines the records exactly. -/
structure Careful (p : NoteParams) (list : List Access) : Prop where
  below : ∀ a ∈ list, a.origin = p.origin → a.Below
  covered : ∀ write (va : BitVec 64), TakenIn write (spansOf p write list) va.toNat →
    ∃ a ∈ recordsOf p write list, a.Touches va
  last : p.recordMemoryValues = true →
    ∀ s ∈ regionSpans false (spansOf p false list), ∀ va : BitVec 64, s.Has va.toNat →
      ∀ a, lastTouch (recordsOf p false list) va = some a → a.span.Within s

variable {p : NoteParams} {m : Nat → BitVec 64} {a : Access} {r r' r₁ : MemAccess}
  {l l' l₁ : List MemAccess} {list as : List Access} {va : BitVec 64} {values : Bool}
  {mem mem' : MemRefs} {refData : Nat → UInt8} {write : Bool} {src : MemRefSource}

/-! ### The last record that touches a byte -/

theorem lastTouch_snoc (as : List Access) (a : Access) (va : BitVec 64) :
    lastTouch (as ++ [a]) va = if a.Touches va then some a else lastTouch as va := by
  unfold lastTouch
  rw [List.foldl_append]
  rfl

theorem lastByte_snoc (as : List Access) (a : Access) (va : BitVec 64) :
    lastByte (as ++ [a]) va = if a.Touches va then a.byteAt va else lastByte as va := by
  unfold lastByte
  rw [lastTouch_snoc]
  split <;> rfl

theorem lastTouch_mem (h : lastTouch as va = some a) : a ∈ as ∧ a.Touches va := by
  induction as using List.reverseRecOn with
  | nil => cases h
  | append_singleton as b ih =>
      rw [lastTouch_snoc] at h
      by_cases hb : b.Touches va
      · rw [if_pos hb] at h
        cases h
        exact ⟨List.mem_append_right _ (List.mem_singleton_self _), hb⟩
      · rw [if_neg hb] at h
        exact ⟨List.mem_append_left _ (ih h).1, (ih h).2⟩

/-- Leaving out other records does not change which is the last. -/
theorem lastTouch_filter {keep : Access → Bool} (h : lastTouch as va = some a)
    (hkeep : keep a = true) : lastTouch (as.filter keep) va = some a := by
  induction as using List.reverseRecOn with
  | nil => cases h
  | append_singleton as b ih =>
      rw [lastTouch_snoc] at h
      rw [filter_snoc]
      by_cases hb : b.Touches va
      · rw [if_pos hb] at h
        cases h
        rw [if_pos hkeep, lastTouch_snoc, if_pos hb]
      · rw [if_neg hb] at h
        by_cases hk : keep b = true
        · rw [if_pos hk, lastTouch_snoc, if_neg hb, ih h]
        · rw [if_neg hk, ih h]

/-! ### Page addresses -/

theorem nextPage_and_pageMask {page : BitVec 64} (h : page &&& pageMask = page) :
    (page + 4096) &&& pageMask = page + 4096 := by
  have hpage := congrArg BitVec.toNat h
  have hlt := page.isLt
  rw [toNat_and_pageMask, pageNumber] at hpage
  apply BitVec.eq_of_toNat_eq
  rw [toNat_and_pageMask, pageNumber, BitVec.toNat_add,
    show (4096 : BitVec 64).toNat = 4096 from rfl]
  have hdvd : 4096 ∣ page.toNat := ⟨_, by rw [mul_comm]; exact hpage.symm⟩
  have hnext : 4096 ∣ (page.toNat + 4096) % 2 ^ 64 :=
    (Nat.dvd_mod_iff (by norm_num)).mpr (Nat.dvd_add hdvd (dvd_refl _))
  exact Nat.div_mul_cancel hnext

theorem nextPage_ne (page : BitVec 64) : page + 4096 ≠ page := by
  intro h
  have hpage := congrArg BitVec.toNat h
  have hlt := page.isLt
  rw [BitVec.toNat_add, show (4096 : BitVec 64).toNat = 4096 from rfl] at hpage
  omega

/-! ### What the second pass does to a region -/

/-- A region of the first pass with storage for its value. -/
structure Ready (m : Nat → BitVec 64) (values : Bool) (r : MemAccess) : Prop where
  valueSet : r.valueSet = false
  nPages : r.nPages = 1
  page : r.pages 0 = m (pageNumber r.baseVA)
  pos : 0 < r.nBytes
  small : r.nBytes < 4096
  below : r.span.hi < 2 ^ 64
  stored : values = true → ∃ s, r.valueStorage = some s ∧ s.size = r.nBytes

/-- What the records `as` have made of the region `r₁`. -/
structure Noted (m : Nat → BitVec 64) (values : Bool) (as : List Access) (r₁ r : MemAccess) :
    Prop where
  baseVA : r.baseVA = r₁.baseVA
  nBytes : r.nBytes = r₁.nBytes
  first : r.pages 0 = m (pageNumber r₁.baseVA)
  second : r.nPages = 1 ∨ r.nPages = 2 ∧ r.pages 1 = m (pageNumber r₁.baseVA + 1)
  reach : ∀ a ∈ as, a.span.Within r₁.span → (a.span.hi - 1) / 4096 ≠ pageNumber r₁.baseVA →
    r.nPages = 2 ∨ m (pageNumber r₁.baseVA + 1) = m (pageNumber r₁.baseVA)
  stored : values = true → ∃ s₁ s, r₁.valueStorage = some s₁ ∧ r.valueStorage = some s ∧
    s.size = r.nBytes ∧ ∀ va, r₁.Contains va → s.byte (va.toNat - r₁.baseVA.toNat) =
      (lastByte (as.filter fun a => a.span.Within r₁.span) va).getD
        (s₁.byte (va.toNat - r₁.baseVA.toNat))
  set : values = true → ∀ a ∈ as, a.span.Within r₁.span → r.valueSet = true

theorem Ready.noted (h : Ready m values r) : Noted m values [] r r where
  baseVA := rfl
  nBytes := rfl
  first := h.page
  second := .inl h.nPages
  reach := fun _ ha => absurd ha List.not_mem_nil
  stored := by
    intro hvalues
    obtain ⟨s, hs, hsize⟩ := h.stored hvalues
    exact ⟨s, s, hs, hs, hsize, fun _ _ => rfl⟩
  set := fun _ _ ha => absurd ha List.not_mem_nil

theorem Noted.span_eq (h : Noted m values as r₁ r) : r.span = r₁.span := by
  rw [span, span, h.baseVA, h.nBytes]

/-- The code's own test for a record that lies in the region. -/
theorem containsVA_iff (hr : r.span.hi < 2 ^ 64) (ha : a.Below) :
    r.containsVA ⟨a.virtMemAddr, a.size⟩ = true ↔ a.span.Within r.span := by
  unfold containsVA
  rw [decide_eq_true_iff, BitVec.le_def, BitVec.le_def, toNat_end hr, Access.toNat_end ha]
  rfl

section Record

variable (hm : ∀ n, m n &&& pageMask = m n) (ha : a.Placed m) (hbelow : a.Below)

include ha hbelow

theorem toNat_last : (a.virtMemAddr + a.size - 1).toNat = a.span.hi - 1 := by
  have hend := Access.toNat_end hbelow
  have hpos := ha.pos
  have hlt := hbelow
  unfold Access.Below at hlt
  have hhi : a.span.hi = a.virtMemAddr.toNat + a.size.toNat := rfl
  rw [BitVec.toNat_sub, hend, show (1 : BitVec 64).toNat = 1 from rfl]
  omega

theorem touches_last : a.Touches (a.virtMemAddr + a.size - 1) := by
  have hpos := ha.pos
  rw [Access.touches_iff hbelow, Span.Has, toNat_last ha hbelow]
  simp only [Access.span]
  omega

include hm

/-- The page that the record ends in, as its own physical address gives it. -/
theorem page_last : (a.phyMemAddr + a.size - 1) &&& pageMask =
    if (a.span.hi - 1) / 4096 = pageNumber a.virtMemAddr then m (pageNumber a.virtMemAddr)
    else m (pageNumber a.virtMemAddr) + 4096 := by
  have hlast := toNat_last ha hbelow
  have hpos := ha.pos
  have hsmall := ha.small
  have hlt := a.virtMemAddr.isLt
  have hhi : a.span.hi = a.virtMemAddr.toNat + a.size.toNat := rfl
  have hone : (1 : BitVec 64).toNat = 1 := rfl
  have hpage : (4096 : BitVec 64).toNat = 4096 := rfl
  rw [ha.phys, translate, add_assoc, add_sub_assoc]
  split
  · next hsame =>
      have hoffset : (a.virtMemAddr &&& ~~~pageMask) + a.size - 1 =
          (a.virtMemAddr + a.size - 1) &&& ~~~pageMask := by
        apply BitVec.eq_of_toNat_eq
        rw [BitVec.toNat_sub, BitVec.toNat_add, toNat_and_not_pageMask, toNat_and_not_pageMask,
          hlast, hone]
        unfold pageNumber at hsame
        omega
      rw [hoffset]
      exact page_add_offset (hm _) _
  · next hcross =>
      have hoffset : (a.virtMemAddr &&& ~~~pageMask) + a.size - 1 =
          4096 + ((a.virtMemAddr + a.size - 1) &&& ~~~pageMask) := by
        apply BitVec.eq_of_toNat_eq
        rw [BitVec.toNat_sub, BitVec.toNat_add, BitVec.toNat_add, toNat_and_not_pageMask,
          toNat_and_not_pageMask, hlast, hone, hpage]
        unfold pageNumber at hcross
        omega
      rw [hoffset, ← add_assoc]
      exact page_add_offset (nextPage_and_pageMask (hm _)) _

end Record

/-- `SetValue` within the storage writes the value there and nowhere else. -/
theorem setValue_spec {s : Storage} {d n : Nat} (v : Nat → UInt8) (hs : r.valueStorage = some s)
    (hsize : s.size = r.nBytes) (hfits : n + d ≤ r.nBytes) :
    ∃ r', r.setValue v n d = .ok r' ∧ SameButValues r r' ∧ r'.valueSet = true ∧
      r'.valueStorage = some { s with
        byte := fun j => if d ≤ j ∧ j < d + n then v (j - d) else s.byte j } := by
  unfold setValue
  rw [if_pos hfits]
  simp only [hs, Storage.memcpy, bind, Except.bind]
  rw [if_pos (by omega)]
  exact ⟨_, rfl, ⟨⟨rfl, rfl⟩, rfl, rfl⟩, rfl, rfl⟩

theorem setSecondPage_spec {page : BitVec 64} (hpage : page &&& pageMask = page)
    (hpages : r.nPages = 1 ∨ r.nPages = 2 ∧ r.pages 1 = page) :
    ∃ r', setSecondPage r page = .ok r' ∧ SameButPages r r' ∧ r'.pages 0 = r.pages 0 ∧
      r'.pages 1 = page ∧ r'.nPages = 2 := by
  obtain ⟨r', hok, hsame, hzero, hone, hn⟩ := setPA_one r page
  unfold setSecondPage
  rcases hpages with h1 | ⟨h2, hsecond⟩
  · rw [if_pos h1]
    exact ⟨r', hok, hsame, hzero, hone.trans hpage, by rw [hn, if_pos (by omega)]⟩
  · have hpa1 : r.getPA 1 = .ok page := by
      rw [← hsecond]
      exact getPA_eq (i := 1) (by rw [h2]; decide)
    rw [if_neg (by omega), hpa1]
    dsimp only [bind, Except.bind]
    rw [if_pos rfl]
    exact ⟨r', hok, hsame, hzero, hone.trans hpage, by rw [hn, if_neg (by omega), h2]⟩

section Step

variable (hm : ∀ n, m n &&& pageMask = m n) (ha : a.Placed m) (hbelow : a.Below)
  (hr : Ready m values r₁) (h : Noted m values as r₁ r)

include ha hbelow hr h

/-- The data of a record that lies in the region. -/
theorem Noted.mergeData {data : Nat → UInt8} (hdata : a.data = some data)
    (hin : a.span.Within r₁.span) (hvalues : values = p.recordMemoryValues) :
    ∃ r', mergeData p a r = .ok r' ∧ SameButValues r r' ∧
      (values = true → r'.valueSet = true ∧ ∃ s₁ s, r₁.valueStorage = some s₁ ∧
        r'.valueStorage = some s ∧ s.size = r.nBytes ∧
        ∀ va, r₁.Contains va → s.byte (va.toNat - r₁.baseVA.toNat) =
          (lastByte ((as ++ [a]).filter fun a => a.span.Within r₁.span) va).getD
            (s₁.byte (va.toNat - r₁.baseVA.toNat))) := by
  unfold SoftSDV.mergeData
  rw [hdata]
  dsimp only
  by_cases hrecord : p.recordMemoryValues = true
  · rw [if_pos hrecord]
    obtain ⟨s₁, s, hs₁, hs, hsize, hbytes⟩ := h.stored (hvalues.trans hrecord)
    have hsmall := ha.small
    have hbytes₁ := h.nBytes
    have hin' := hin
    simp only [Span.Within, Access.span, span] at hin'
    have hlt := a.virtMemAddr.isLt
    have hn : (a.size.setWidth 32).toNat = a.size.toNat := by
      rw [BitVec.toNat_setWidth]
      omega
    have hspan := hr.small
    have hd : ((a.virtMemAddr - r.baseVA).setWidth 32).toNat =
        a.virtMemAddr.toNat - r₁.baseVA.toNat := by
      rw [BitVec.toNat_setWidth, BitVec.toNat_sub, h.baseVA]
      omega
    rw [hn, hd]
    obtain ⟨r', hok, hsame, hset, hstorage⟩ := setValue_spec (r := r) data hs hsize
      (d := a.virtMemAddr.toNat - r₁.baseVA.toNat) (n := a.size.toNat) (by omega)
    refine ⟨r', hok, hsame, fun _ => ⟨hset, s₁, _, hs₁, hstorage, hsize, ?_⟩⟩
    intro va hva
    rw [filter_snoc, if_pos (by simpa using hin), lastByte_snoc]
    obtain ⟨hlo, hhi⟩ := hva
    by_cases htouch : a.Touches va
    · have htouch' := (Access.touches_iff hbelow).mp htouch
      simp only [Span.Has, Access.span] at htouch'
      rw [if_pos htouch, Access.byteAt, hdata]
      dsimp only [Option.map_some, Option.getD_some]
      rw [if_pos (by omega)]
      congr 1
      rw [BitVec.toNat_sub]
      omega
    · have htouch' := mt (Access.touches_iff hbelow).mpr htouch
      simp only [Span.Has, Access.span] at htouch'
      rw [if_neg htouch]
      dsimp only
      rw [if_neg (by omega), hbytes va ⟨hlo, hhi⟩]
  · rw [if_neg hrecord]
    exact ⟨r, rfl, ⟨⟨rfl, rfl⟩, rfl, rfl⟩, fun hv => (hrecord (hvalues.symm.trans hv)).elim⟩

include hm

/-- The second page of a region, from a record that lies in it. -/
theorem Noted.mergePA (hin : a.span.Within r₁.span)
    (hlookup : ∀ va, a.Touches va → p.virtualToPhysical va a.access = some (translate m va))
    {g : MemAccess} (hg : SameButValues r g) :
    ∃ g', mergePA p a g = .ok g' ∧ SameButPages g g' ∧ g'.pages 0 = r.pages 0 ∧
      (g'.nPages = 1 ∧ r.nPages = 1 ∨ g'.nPages = 2 ∧ g'.pages 1 = m (pageNumber r₁.baseVA + 1)) ∧
      ((a.span.hi - 1) / 4096 ≠ pageNumber r₁.baseVA →
        g'.nPages = 2 ∨ m (pageNumber r₁.baseVA + 1) = m (pageNumber r₁.baseVA)) := by
  have hsmall := hr.small
  have hbelow₁ := hr.below
  have hpos := ha.pos
  have hin' := hin
  have hhi : a.span.hi = a.virtMemAddr.toNat + a.size.toNat := rfl
  simp only [Span.Within, Access.span, span] at hin' hbelow₁
  have hpa0 : g.getPA 0 = .ok (m (pageNumber r₁.baseVA)) := by
    have hnPages : 0 < g.nPages := by
      rw [hg.nPages]
      rcases h.second with h1 | ⟨h2, -⟩ <;> omega
    rw [← h.first, ← hg.pages]
    exact getPA_eq (i := 0) hnPages
  have hsame : SameButPages g g := .refl g
  have hfirst : g.pages 0 = r.pages 0 := by rw [hg.pages]
  have hkept : g.nPages = 1 ∧ r.nPages = 1 ∨
      g.nPages = 2 ∧ g.pages 1 = m (pageNumber r₁.baseVA + 1) := by
    rw [hg.nPages, hg.pages]
    exact h.second.imp (fun h1 => ⟨h1, h1⟩) id
  unfold SoftSDV.mergePA
  rw [hpa0, page_last hm ha hbelow]
  dsimp only [bind, Except.bind]
  by_cases hlast : (a.span.hi - 1) / 4096 = pageNumber r₁.baseVA
  · -- the record ends in the first page
    have hpage : pageNumber a.virtMemAddr = pageNumber r₁.baseVA := by
      unfold pageNumber at hlast ⊢
      omega
    rw [if_neg (not_not.mpr (by rw [hlast, hpage, if_pos rfl]))]
    exact ⟨g, rfl, hsame, hfirst, hkept, fun hne => (hne hlast).elim⟩
  · have hnext : (a.span.hi - 1) / 4096 = pageNumber r₁.baseVA + 1 := by
      unfold pageNumber at hlast ⊢
      omega
    by_cases hpa : (if (a.span.hi - 1) / 4096 = pageNumber a.virtMemAddr
        then m (pageNumber a.virtMemAddr) else m (pageNumber a.virtMemAddr) + 4096)
        = m (pageNumber r₁.baseVA)
    · -- the second page is where the first one is
      rw [if_neg (not_not.mpr hpa)]
      refine ⟨g, rfl, hsame, hfirst, hkept, fun _ => .inr ?_⟩
      by_cases hpage : (a.span.hi - 1) / 4096 = pageNumber a.virtMemAddr
      · rw [if_pos hpage, ← hpage, hnext] at hpa
        exact hpa
      · rw [if_neg hpage] at hpa
        have hbase : pageNumber a.virtMemAddr = pageNumber r₁.baseVA := by
          unfold pageNumber at hpage hnext ⊢
          omega
        rw [hbase] at hpa
        exact (nextPage_ne _ hpa).elim
    · have htrue : ∀ pa, truePage p a pa = m (pageNumber r₁.baseVA + 1) := by
        intro pa
        unfold truePage
        rw [hlookup _ (touches_last ha hbelow)]
        dsimp only
        rw [translate_and_pageMask hm, pageNumber, toNat_last ha hbelow, hnext]
      rw [if_pos hpa, htrue]
      obtain ⟨g', hg', hsame', hzero, hone, hn⟩ :=
        setSecondPage_spec (hm (pageNumber r₁.baseVA + 1)) (hkept.imp_left And.left)
      exact ⟨g', hg', hsame', hzero.trans hfirst, .inr ⟨hn, hone⟩, fun _ => .inl hn⟩

/-- **What one record does to one region.** -/
theorem Noted.step {data : Nat → UInt8} (hdata : a.data = some data)
    (hvalues : values = p.recordMemoryValues)
    (hlookup : ∀ va, a.Touches va → p.virtualToPhysical va a.access = some (translate m va)) :
    ∃ r', mergePAandData p a r = .ok r' ∧ Noted m values (as ++ [a]) r₁ r' := by
  unfold mergePAandData
  have hcontains := containsVA_iff (r := r) (by rw [h.span_eq]; exact hr.below) hbelow
  rw [h.span_eq] at hcontains
  by_cases hin : a.span.Within r₁.span
  · rw [if_pos (hcontains.mpr hin)]
    obtain ⟨g, hg, hsame, hstored⟩ := h.mergeData ha hbelow hr hdata hin hvalues
    obtain ⟨g', hg', hsame', hzero, hsecond, hreach⟩ := h.mergePA hm ha hbelow hr hin hlookup hsame
    rw [hg]
    refine ⟨g', hg', ?_⟩
    refine ⟨hsame'.baseVA.trans (hsame.baseVA.trans h.baseVA),
      hsame'.nBytes.trans (hsame.nBytes.trans h.nBytes), hzero.trans h.first,
      hsecond.imp And.left id, ?_, ?_, ?_⟩
    · intro b hb hbin hbpage
      rcases List.mem_append.mp hb with hb | hb
      · refine (h.reach b hb hbin hbpage).imp_left fun h2 => ?_
        rcases hsecond with ⟨-, h1⟩ | ⟨h2', -⟩
        · omega
        · exact h2'
      · rw [List.mem_singleton.mp hb] at hbpage
        exact hreach hbpage
    · intro hv
      obtain ⟨-, s₁, s, hs₁, hs, hsize, hbytes⟩ := hstored hv
      exact ⟨s₁, s, hs₁, hsame'.valueStorage.trans hs,
        hsize.trans (hsame.nBytes.symm.trans hsame'.nBytes.symm), hbytes⟩
    · intro hv b _ _
      rw [hsame'.valueSet, (hstored hv).1]
  · rw [if_neg (mt hcontains.mp hin)]
    refine ⟨r, rfl, h.baseVA, h.nBytes, h.first, h.second, ?_, ?_, ?_⟩
    · intro b hb hbin
      rcases List.mem_append.mp hb with hb | hb
      · exact h.reach b hb hbin
      · rw [List.mem_singleton.mp hb] at hbin
        exact (hin hbin).elim
    · rw [filter_snoc, if_neg (by simpa using hin)]
      exact h.stored
    · intro hv b hb hbin
      rcases List.mem_append.mp hb with hb | hb
      · exact h.set hv b hb hbin
      · rw [List.mem_singleton.mp hb] at hbin
        exact (hin hbin).elim

end Step

/-! ### All regions, and all records -/

theorem allocStorage_spec {full : String} {used used' : Nat} (hl : ∀ r ∈ l, Fresh m src r)
    (hok : allocStorage refData full used l = .ok (l', used')) :
    l'.map span = l.map span ∧ ∀ r ∈ l', Ready m true r := by
  induction l generalizing used l' used' with
  | nil =>
      cases hok
      exact ⟨rfl, fun _ hr => absurd hr List.not_mem_nil⟩
  | cons r l ih =>
      have hr := hl r List.mem_cons_self
      unfold allocStorage at hok
      rw [if_neg (by rw [hr.valueSet]; exact Bool.false_ne_true)] at hok
      obtain ⟨-, hok⟩ := check_eq_ok hok
      obtain ⟨-, hok⟩ := check_eq_ok hok
      obtain ⟨g, hg, hok⟩ := bind_eq_ok hok
      obtain ⟨⟨rest, used₂⟩, hrest, hok⟩ := bind_eq_ok hok
      cases hok
      unfold allocValueStorage at hg
      rw [if_pos ⟨hr.pos, hr.valueStorage⟩] at hg
      cases hg
      obtain ⟨hspan, hready⟩ := ih (fun s hs => hl s (List.mem_cons_of_mem r hs)) hrest
      refine ⟨by rw [List.map_cons, List.map_cons, hspan]; rfl, ?_⟩
      exact List.forall_mem_cons.mpr ⟨⟨hr.valueSet, hr.nPages, hr.page, hr.pos, hr.small,
        hr.below, fun _ => ⟨_, rfl, rfl⟩⟩, hready⟩

/-- Storage does not change the regions. -/
theorem allocValues_spec (h : Regions p m refData list mem) (hok : allocValues p mem = .ok mem') :
    (∀ write, (mem'.refs write).map span = (mem.refs write).map span) ∧
      ∀ write, ∀ r ∈ mem'.refs write, Ready m p.recordMemoryValues r := by
  unfold allocValues at hok
  by_cases hrecord : p.recordMemoryValues = true
  · rw [if_pos hrecord] at hok
    obtain ⟨⟨loads, used⟩, hloads, hok⟩ := bind_eq_ok hok
    obtain ⟨⟨stores, used'⟩, hstores, hok⟩ := bind_eq_ok hok
    cases hok
    obtain ⟨hspan, hready⟩ := allocStorage_spec (h.fresh false) hloads
    obtain ⟨hspan', hready'⟩ := allocStorage_spec (h.fresh true) hstores
    rw [hrecord]
    refine ⟨fun write => ?_, fun write => ?_⟩
    · cases write with
      | true => exact hspan'
      | false => exact hspan
    · cases write with
      | true => exact hready'
      | false => exact hready
  · rw [if_neg hrecord] at hok
    cases hok
    refine ⟨fun _ => rfl, fun write r hr => ?_⟩
    have hfresh := h.fresh write r hr
    exact ⟨hfresh.valueSet, hfresh.nPages, hfresh.page, hfresh.pos, hfresh.small, hfresh.below,
      fun hv => (hrecord hv).elim⟩

section Records

variable (hp : Promised p m list) (hbelow : ∀ a ∈ list, a.origin = p.origin → a.Below)

include hp hbelow

/-- A record goes through the regions of its kind. -/
theorem mapM_noted (ha : a ∈ list) (horigin : a.origin = p.origin)
    (hready : ∀ r ∈ l₁, Ready m p.recordMemoryValues r)
    (h : List.Forall₂ (Noted m p.recordMemoryValues as) l₁ l) :
    ∃ l', l.mapM (mergePAandData p a) = .ok l' ∧
      List.Forall₂ (Noted m p.recordMemoryValues (as ++ [a])) l₁ l' := by
  obtain ⟨data, hdata⟩ := Option.isSome_iff_exists.mp (hp.data a ha horigin)
  induction h with
  | nil => exact ⟨[], rfl, .nil⟩
  | cons hnoted _ ih =>
      obtain ⟨hr, hrest⟩ := List.forall_mem_cons.mp hready
      obtain ⟨r', hr', hnoted'⟩ := hnoted.step hp.aligned (hp.placed a ha horigin)
        (hbelow a ha horigin) hr hdata rfl (hp.lookup a ha horigin)
      obtain ⟨l', hl', hall⟩ := ih hrest
      refine ⟨r' :: l', ?_, .cons hnoted' hall⟩
      rw [List.mapM_cons, hr', hl']
      rfl

theorem noteDetails_spec {mem₁ : MemRefs} (ha : a ∈ list)
    (hready : ∀ write, ∀ r ∈ mem₁.refs write, Ready m p.recordMemoryValues r)
    (h : ∀ write, List.Forall₂ (Noted m p.recordMemoryValues (recordsOf p write as))
      (mem₁.refs write) (mem.refs write)) :
    ∃ mem', noteDetails p mem a = .ok mem' ∧ ∀ write,
      List.Forall₂ (Noted m p.recordMemoryValues (recordsOf p write (as ++ [a])))
        (mem₁.refs write) (mem'.refs write) := by
  have hskip : ∀ {write}, ¬a.Is p write →
      List.Forall₂ (Noted m p.recordMemoryValues (recordsOf p write (as ++ [a])))
        (mem₁.refs write) (mem.refs write) := by
    intro write hnot
    rw [recordsOf_snoc, if_neg hnot]
    exact h write
  unfold noteDetails
  by_cases horigin : a.origin = p.origin
  · rw [if_pos horigin]
    by_cases hwrite : a.access = .Write
    · have his : a.Is p true := ⟨horigin, by rw [hwrite]; rfl⟩
      obtain ⟨stores, hstores, hnoted⟩ := mapM_noted hp hbelow ha horigin (hready true) (h true)
      rw [hwrite]
      refine ⟨{ mem with stores }, ?_, fun write => ?_⟩
      · exact congrArg (Except.map _) hstores
      · cases write with
        | true =>
            rw [recordsOf_snoc, if_pos his]
            exact hnoted
        | false => exact hskip fun hread => Bool.false_ne_true (hread.unique his)
    · have his : a.Is p false := ⟨horigin, by simpa using hwrite⟩
      obtain ⟨loads, hloads, hnoted⟩ := mapM_noted hp hbelow ha horigin (hready false) (h false)
      refine ⟨{ mem with loads }, ?_, fun write => ?_⟩
      · have hread := congrArg (Except.map fun loads => { mem with loads }) hloads
        cases haccess : a.access with
        | Write => exact (hwrite haccess).elim
        | Read => exact hread
        | RFO => exact hread
        | Execute => exact hread
      · cases write with
        | true => exact hskip fun hwrite => Bool.false_ne_true (his.unique hwrite)
        | false =>
            rw [recordsOf_snoc, if_pos his]
            exact hnoted
  · rw [if_neg horigin]
    exact ⟨mem, rfl, fun write => hskip fun his => horigin his.1⟩

/-- **The second pass stops at no check**, and notes every record in every region. -/
theorem foldlM_noteDetails {mem₁ : MemRefs}
    (hready : ∀ write, ∀ r ∈ mem₁.refs write, Ready m p.recordMemoryValues r) (hsub : as ⊆ list) :
    ∃ mem', as.foldlM (noteDetails p) mem₁ = .ok mem' ∧ ∀ write,
      List.Forall₂ (Noted m p.recordMemoryValues (recordsOf p write as))
        (mem₁.refs write) (mem'.refs write) := by
  induction as using List.reverseRecOn with
  | nil =>
      refine ⟨mem₁, rfl, fun write => List.forall₂_same.mpr fun r hr => (hready write r hr).noted⟩
  | append_singleton as a ih =>
      obtain ⟨mem, hmem, hnoted⟩ := ih fun b hb => hsub (List.mem_append_left _ hb)
      obtain ⟨mem', hmem', hnoted'⟩ := noteDetails_spec hp hbelow
        (hsub (List.mem_append_right _ (List.mem_singleton_self a))) hready hnoted
      refine ⟨mem', ?_, hnoted'⟩
      rw [List.foldlM_append, hmem]
      simp only [List.foldlM_cons, List.foldlM_nil, bind_pure]
      exact hmem'

end Records

/-! ### When the regions are exact -/

section Kind

variable {records : List Access} {swallowed : Nat → Prop}
  (hbelow : ∀ a ∈ records, a.Below) (hready : ∀ r ∈ l₁, Ready m values r)
  (hgathers : Span.Gathers (records.map Access.span) swallowed (l₁.map span))
  (hnoted : List.Forall₂ (Noted m values records) l₁ l)

theorem exists_of_forall₂ {α β : Type} {R : α → β → Prop} {xs : List α} {ys : List β}
    (h : List.Forall₂ R xs ys) {y : β} (hy : y ∈ ys) : ∃ x ∈ xs, R x y := by
  induction h with
  | nil => cases hy
  | cons hxy _ ih =>
      rcases List.mem_cons.mp hy with rfl | hy
      · exact ⟨_, List.mem_cons_self, hxy⟩
      · obtain ⟨x, hx, hxy⟩ := ih hy
        exact ⟨x, List.mem_cons_of_mem _ hx, hxy⟩

theorem spans_of_noted (h : List.Forall₂ (Noted m values as) l₁ l) : l.map span = l₁.map span := by
  induction h with
  | nil => rfl
  | cons h _ ih => rw [List.map_cons, List.map_cons, h.span_eq, ih]

include hready in
theorem Noted.pTranslate
    (hgathers : Span.Gathers (records.map Access.span) swallowed (l₁.map span)) (hr₁ : r₁ ∈ l₁)
    (h : Noted m values records r₁ r) (hva : r.Contains va) :
    r.pTranslate va = .ok (translate m va) := by
  have hr := hready r₁ hr₁
  have hva' := hva
  rw [contains_iff, h.span_eq] at hva'
  have hsmall := hr.small
  have hbelow₁ := hr.below
  simp only [Span.Has, span] at hva' hbelow₁
  have hpos : 0 < r.nPages := by
    rcases h.second with h1 | ⟨h2, -⟩ <;> omega
  rw [pTranslate_eq hpos (by rw [h.baseVA, h.nBytes]; exact hbelow₁) hva, pageOf]
  unfold translate
  congr 2
  rw [h.baseVA]
  by_cases hpage : pageNumber va = pageNumber r₁.baseVA
  · rw [if_pos (.inr hpage), h.first, hpage]
  · have hnext : pageNumber va = pageNumber r₁.baseVA + 1 := by
      unfold pageNumber at hpage ⊢
      omega
    -- the record that the region ends with reaches the second page
    obtain ⟨s, hs, hhi, hlo⟩ := hgathers.ends _ (List.mem_map_of_mem hr₁)
    obtain ⟨a, ha, rfl⟩ := List.mem_map.mp hs
    have hin : a.span.Within r₁.span := ⟨hlo, hhi.le⟩
    have hlast : (a.span.hi - 1) / 4096 ≠ pageNumber r₁.baseVA := by
      rw [hhi]
      unfold pageNumber at hnext ⊢
      simp only [span]
      omega
    have hreach := h.reach a ha hin hlast
    rcases h.second with h1 | ⟨h2, hsecond⟩
    · rw [if_pos (.inl h1), h.first, hnext]
      rcases hreach with h2 | hsame
      · omega
      · exact hsame.symm
    · rw [if_neg (by omega), hsecond, hnext]

include hbelow hready hgathers hnoted

/-- **Exact when nothing that no record has was taken in**, and the last record to touch a byte
of a region lies in it. -/
theorem exact_of_noted
    (hswallowed : ∀ va : BitVec 64, swallowed va.toNat → ∃ a ∈ records, a.Touches va)
    (hlast : values = true → ∀ r₁ ∈ l₁, ∀ va, r₁.Contains va → ∀ a,
      lastTouch records va = some a → a.span.Within r₁.span) :
    Exact m values records l := by
  have hspans := spans_of_noted hnoted
  refine ⟨?_, ?_, ?_, ?_⟩
  · intro a ha
    obtain ⟨s, hs, hin⟩ := hgathers.within _ (List.mem_map_of_mem ha)
    rw [← hspans] at hs
    obtain ⟨r, hr, rfl⟩ := List.mem_map.mp hs
    exact ⟨r, hr, fun va hva => hin.has ((Access.touches_iff (hbelow a ha)).mp hva)⟩
  · intro r hr va hva
    obtain ⟨r₁, hr₁, h⟩ := exists_of_forall₂ hnoted hr
    rw [contains_iff, h.span_eq] at hva
    rcases hgathers.only _ (List.mem_map_of_mem hr₁) _ hva with ⟨s, hs, hx⟩ | hsw
    · obtain ⟨a, ha, rfl⟩ := List.mem_map.mp hs
      exact ⟨a, ha, (Access.touches_iff (hbelow a ha)).mpr hx⟩
    · exact hswallowed va hsw
  · intro a ha va _ r hr hva
    obtain ⟨r₁, hr₁, h⟩ := exists_of_forall₂ hnoted hr
    exact h.pTranslate hready hgathers hr₁ hva
  · intro hv r hr va hva byte hbyte
    obtain ⟨r₁, hr₁, h⟩ := exists_of_forall₂ hnoted hr
    rw [contains_iff, h.span_eq, ← contains_iff] at hva
    obtain ⟨a, ha, hbyteAt⟩ := Option.bind_eq_some_iff.mp hbyte
    have hin := hlast hv r₁ hr₁ va hva a ha
    obtain ⟨s₁, s, -, hs, -, hbytes⟩ := h.stored hv
    have hkept : lastByte (records.filter fun a => a.span.Within r₁.span) va = some byte := by
      rw [lastByte, lastTouch_filter ha (by simpa using hin)]
      exact hbyteAt
    rw [valueAt, if_pos (h.set hv a (lastTouch_mem ha).1 hin), hs, h.baseVA]
    rw [Option.map_some, hbytes va hva, hkept]
    rfl

end Kind

/-! ### Other data -/

section WithData

variable {data : Access → Nat → UInt8}

theorem noteLoad_withData (src : MemRefSource) (a : Access) (slots : Nat) (l : List MemAccess) :
    noteLoad src (a.withData data) slots l = noteLoad src a slots l := by
  induction slots generalizing l with
  | zero => cases l <;> rfl
  | succ slots ih =>
      cases l with
      | nil =>
          unfold noteLoad
          rw [ih]
          rfl
      | cons r l =>
          unfold noteLoad
          rw [ih]
          rfl

theorem noteAccess_withData (a : Access) (mem : MemRefs) :
    noteAccess p mem (a.withData data) = noteAccess p mem a := by
  unfold noteAccess
  rw [noteLoad_withData]
  rfl

/-- The regions do not depend on the data. -/
theorem coalesce_withData (list : List Access) (mem : MemRefs) :
    coalesce p (list.map (Access.withData data)) mem = coalesce p list mem := by
  have hnote : noteAccesses p (list.map (Access.withData data)) mem = noteAccesses p list mem := by
    unfold noteAccesses
    rw [List.foldlM_map]
    exact congrArg (List.foldlM · mem list) (funext fun mem => funext fun a =>
      noteAccess_withData a mem)
  unfold coalesce
  rw [hnote]

theorem recordsOf_withData (write : Bool) (list : List Access) :
    recordsOf p write (list.map (Access.withData data)) =
      (recordsOf p write list).map (Access.withData data) := by
  unfold recordsOf
  rw [List.filter_map]
  rfl

theorem lastTouch_withData (as : List Access) (va : BitVec 64) :
    lastTouch (as.map (Access.withData data)) va =
      (lastTouch as va).map (Access.withData data) := by
  induction as using List.reverseRecOn with
  | nil => rfl
  | append_singleton as a ih =>
      rw [List.map_append, List.map_singleton, lastTouch_snoc, lastTouch_snoc, ih]
      by_cases ha : a.Touches va
      · rw [if_pos ha]
        exact if_pos ha
      · rw [if_neg ha]
        exact if_neg ha

theorem byteAt_withData {byte : UInt8} (h : (a.withData data).byteAt va = some byte) :
    data a (va - a.virtMemAddr).toNat = byte := by
  obtain ⟨v, hv, hbyte⟩ := Option.map_eq_some_iff.mp h
  obtain ⟨_, -, rfl⟩ := Option.map_eq_some_iff.mp hv
  exact hbyte

theorem map_span_withData (as : List Access) :
    (as.map (Access.withData data)).map Access.span = as.map Access.span := by
  rw [List.map_map]
  rfl

theorem Promised.withData (h : Promised p m list) :
    Promised p m (list.map (Access.withData data)) := by
  refine ⟨h.aligned, ?_, ?_, ?_⟩
  · intro a ha horigin
    obtain ⟨b, hb, rfl⟩ := List.mem_map.mp ha
    exact ⟨(h.placed b hb horigin).pos, (h.placed b hb horigin).small, (h.placed b hb horigin).phys⟩
  · intro a ha horigin
    obtain ⟨b, hb, rfl⟩ := List.mem_map.mp ha
    exact (Option.isSome_map ..).trans (h.data b hb horigin)
  · intro a ha horigin
    obtain ⟨b, hb, rfl⟩ := List.mem_map.mp ha
    exact h.lookup b hb horigin

end WithData

/-! ### The claim of the regions -/

/-- Once the regions are there and have storage, the second pass notes everything. -/
theorem noteMemoryRefs_noted {mem₀ mem₁ : MemRefs} (hp : Promised p m list)
    (hbelow : ∀ a ∈ list, a.origin = p.origin → a.Below)
    (hcoalesce : coalesce p list (.reset refData) = .ok mem₀)
    (halloc : allocValues p mem₀ = .ok mem₁) :
    ∃ mem', noteMemoryRefs p list (.reset refData) = .ok mem' ∧
      (∀ write, (mem₁.refs write).map span = (mem₀.refs write).map span) ∧
      (∀ write, ∀ r ∈ mem₁.refs write, Ready m p.recordMemoryValues r) ∧
      ∀ write, List.Forall₂ (Noted m p.recordMemoryValues (recordsOf p write list))
        (mem₁.refs write) (mem'.refs write) := by
  have hregions := coalesce_regions hp.aligned
    (fun a ha horigin => ⟨hp.placed a ha horigin, hbelow a ha horigin⟩) hcoalesce
  obtain ⟨hspans, hready⟩ := allocValues_spec hregions halloc
  obtain ⟨mem', hmem', hnoted⟩ := foldlM_noteDetails hp hbelow hready (List.Subset.refl list)
  refine ⟨mem', ?_, hspans, hready, hnoted⟩
  unfold noteMemoryRefs
  rw [hcoalesce]
  dsimp only [bind, Except.bind]
  rw [halloc]
  exact hmem'

section Claim

variable {mem₀ mem₁ : MemRefs} {data : Access → Nat → UInt8} (hp : Promised p m list)
  (hbelow : ∀ a ∈ list, a.origin = p.origin → a.Below)
  (hcoalesce : coalesce p list (.reset refData) = .ok mem₀)
  (halloc : allocValues p mem₀ = .ok mem₁)

/-- The same regions before and after storage was allocated. -/
theorem exists_region {l₀ : List MemAccess} (h : l₁.map span = l₀.map span) (hr : r₁ ∈ l₁) :
    ∃ r ∈ l₀, r.span = r₁.span := by
  have hmem : r₁.span ∈ l₁.map span := List.mem_map_of_mem hr
  rw [h] at hmem
  obtain ⟨r, hr, heq⟩ := List.mem_map.mp hmem
  exact ⟨r, hr, heq⟩

/-- All writes lie in the one store region. -/
theorem Regions.write_within (h : Regions p m refData list mem)
    (hplaced : ∀ a ∈ list, a.origin = p.origin → a.Placed m) (hr : r ∈ mem.stores)
    (ha : a ∈ recordsOf p true list) : a.span.Within r.span := by
  obtain ⟨s, hs, hin⟩ := (h.gathers hplaced true).within _ (List.mem_map_of_mem ha)
  obtain ⟨r', hr', rfl⟩ := List.mem_map.mp hs
  have hone := h.one
  have hstores : mem.refs true = mem.stores := rfl
  rw [hstores] at hr'
  cases hmem : mem.stores with
  | nil =>
      rw [hmem] at hr
      cases hr
  | cons s l =>
      rw [hmem, List.length_cons] at hone
      rw [hmem, List.eq_nil_of_length_eq_zero (Nat.le_zero.mp (Nat.le_of_succ_le_succ hone)),
        List.mem_singleton] at hr hr'
      rw [hr, ← hr']
      exact hin

include hp

/-- A region that has all bytes of a record which has the last byte of the address space, and
another one, is not translated. -/
theorem MemRefs.Exact.below (h : mem.Exact p m list) (hsized : mem.Sized)
    (hlast : ∀ a ∈ list, a.origin = p.origin → a.size = 1 → a.Below) (ha : a ∈ list)
    (horigin : a.origin = p.origin) : a.Below := by
  by_cases hone : a.size = 1
  · exact hlast a ha horigin hone
  by_contra hnot
  have hpos := (hp.placed a ha horigin).pos
  have hlt := a.virtMemAddr.isLt
  have hsize : a.size.toNat ≠ 1 := fun h => hone (BitVec.eq_of_toNat_eq h)
  simp only [Access.Below, Access.span, not_lt] at hnot
  have hmem : a ∈ recordsOf p (a.access == .Write) list := mem_recordsOf.mpr ⟨ha, horigin, rfl⟩
  obtain ⟨r, hr, hin⟩ := (h.1 _).inside a hmem
  have hrsized := hsized _ r hr
  have hsmall := hrsized.small
  have htouch : ∀ va : BitVec 64,
      (2 ^ 64 - a.virtMemAddr.toNat + va.toNat) % 2 ^ 64 < a.size.toNat → a.Touches va := by
    intro va hva
    unfold Access.Touches
    rw [BitVec.lt_def, BitVec.toNat_sub]
    exact hva
  have hfirst : a.Touches a.virtMemAddr := htouch _ (by omega)
  have hend : a.Touches (BitVec.allOnes 64) := htouch _ (by rw [BitVec.toNat_allOnes]; omega)
  have hfirst' := hin _ hfirst
  have hend' := hin _ hend
  rw [contains_iff] at hfirst' hend'
  simp only [Span.Has, span, BitVec.toNat_allOnes] at hfirst' hend'
  by_cases hva : a.virtMemAddr.toNat + 1 < 2 ^ 64
  · have hok := (h.1 _).translated a hmem _ hfirst r hr (hin _ hfirst)
    refine hrsized.pTranslate_error ?_ hva hfirst'.1 _ hok
    simp only [span]
    omega
  · -- its second byte is at 0
    have hnum : (0 : BitVec 64).toNat = 0 := rfl
    have hzero := hin 0 (htouch 0 (by rw [hnum]; omega))
    rw [contains_iff] at hzero
    simp only [Span.Has, span, hnum] at hzero
    omega

include hbelow hcoalesce halloc

/-- The regions, and what the second pass makes of them, whatever data the records carry. -/
theorem noteMemoryRefs_withData (data : Access → Nat → UInt8) :
    ∃ mem', noteMemoryRefs p (list.map (Access.withData data)) (.reset refData) = .ok mem' ∧
      (∀ write, (mem₁.refs write).map span = (mem₀.refs write).map span) ∧
      (∀ write, ∀ r ∈ mem₁.refs write, Ready m p.recordMemoryValues r) ∧
      ∀ write, List.Forall₂ (Noted m p.recordMemoryValues
        ((recordsOf p write list).map (Access.withData data))) (mem₁.refs write)
        (mem'.refs write) := by
  have hbelow' : ∀ a ∈ list.map (Access.withData data), a.origin = p.origin → a.Below := by
    intro a ha horigin
    obtain ⟨b, hb, rfl⟩ := List.mem_map.mp ha
    exact hbelow b hb horigin
  obtain ⟨mem', hmem', hspans, hready, hnoted⟩ := noteMemoryRefs_noted hp.withData hbelow'
    ((coalesce_withData list _).trans hcoalesce) halloc
  refine ⟨mem', hmem', hspans, hready, fun write => ?_⟩
  rw [← recordsOf_withData]
  exact hnoted write

theorem Careful.exact (h : Careful p list)
    (hok : noteMemoryRefs p (list.map (Access.withData data)) (.reset refData) = .ok mem') :
    mem'.Exact p m (list.map (Access.withData data)) := by
  have hregions := coalesce_regions hp.aligned
    (fun a ha horigin => ⟨hp.placed a ha horigin, hbelow a ha horigin⟩) hcoalesce
  obtain ⟨mem₂, hmem₂, hspans, hready, hnoted⟩ :=
    noteMemoryRefs_withData hp hbelow hcoalesce halloc data
  rw [hmem₂] at hok
  cases hok
  refine ⟨fun write => ?_, ?_⟩
  · have hgathers := hregions.gathers hp.placed write
    rw [spansOf, ← hspans write, ← map_span_withData] at hgathers
    rw [recordsOf_withData]
    refine exact_of_noted ?_ (hready write) hgathers (hnoted write) ?_ ?_
    · intro a ha
      obtain ⟨b, hb, rfl⟩ := List.mem_map.mp ha
      exact hbelow b (mem_recordsOf.mp hb).1 (mem_recordsOf.mp hb).2.1
    · intro va hva
      rw [map_span_withData] at hva
      obtain ⟨a, ha, htouch⟩ := h.covered write va hva
      exact ⟨_, List.mem_map_of_mem ha, htouch⟩
    · intro hv r₁ hr₁ va hva a ha
      rw [lastTouch_withData] at ha
      obtain ⟨b, hb, rfl⟩ := Option.map_eq_some_iff.mp ha
      obtain ⟨r, hr, hspan⟩ := exists_region (hspans write) hr₁
      show b.span.Within r₁.span
      rw [← hspan]
      cases write with
      | true => exact hregions.write_within hp.placed hr (lastTouch_mem hb).1
      | false =>
          rw [contains_iff, ← hspan] at hva
          have hmem : r.span ∈ (mem₀.refs false).map span := List.mem_map_of_mem hr
          rw [hregions.spans false] at hmem
          exact h.last hv r.span hmem va hva b hb
  · have hlen := congrArg List.length ((spans_of_noted (hnoted true)).trans (hspans true))
    rw [List.length_map, List.length_map] at hlen
    exact hlen.le.trans hregions.one

theorem touches_of_exact (h : ∀ data mem',
      noteMemoryRefs p (list.map (Access.withData data)) (.reset refData) = .ok mem' →
      mem'.Exact p m (list.map (Access.withData data)))
    {write : Bool} {va : BitVec 64} (hva : TakenIn write (spansOf p write list) va.toNat) :
    ∃ a ∈ recordsOf p write list, a.Touches va := by
  have hregions := coalesce_regions hp.aligned
    (fun a ha horigin => ⟨hp.placed a ha horigin, hbelow a ha horigin⟩) hcoalesce
  obtain ⟨mem', hmem', hspans, -, hnoted⟩ :=
    noteMemoryRefs_withData hp hbelow hcoalesce halloc fun _ _ => 0
  have hexact := h _ _ hmem'
  obtain ⟨s, hs, hx⟩ := (hregions.gathers hp.placed write).has _ hva
  rw [← hspans, ← spans_of_noted (hnoted write)] at hs
  obtain ⟨r, hr, rfl⟩ := List.mem_map.mp hs
  obtain ⟨a, ha, htouch⟩ := (hexact.1 write).touched r hr va hx
  rw [recordsOf_withData] at ha
  obtain ⟨b, hb, rfl⟩ := List.mem_map.mp ha
  exact ⟨b, hb, htouch⟩

/-- Otherwise the data of the records can be chosen so that the region has another byte there. -/
theorem within_of_exact (h : ∀ data mem',
      noteMemoryRefs p (list.map (Access.withData data)) (.reset refData) = .ok mem' →
      mem'.Exact p m (list.map (Access.withData data)))
    (hv : p.recordMemoryValues = true) {s₀ : Span}
    (hs₀ : s₀ ∈ regionSpans false (spansOf p false list)) {va : BitVec 64}
    (hva : s₀.Has va.toNat) (ha : lastTouch (recordsOf p false list) va = some a) :
    a.span.Within s₀ := by
  have hregions := coalesce_regions hp.aligned
    (fun a ha horigin => ⟨hp.placed a ha horigin, hbelow a ha horigin⟩) hcoalesce
  have hbmem := (lastTouch_mem ha).1
  rw [← hregions.spans false] at hs₀
  obtain ⟨r₀, hr₀, rfl⟩ := List.mem_map.mp hs₀
  by_contra hout
  obtain ⟨hspans, hready⟩ := allocValues_spec hregions halloc
  obtain ⟨r₁, hr₁, hspan⟩ := exists_region (hspans false).symm hr₀
  obtain ⟨s₁, hs₁, -⟩ := (hready false r₁ hr₁).stored hv
  -- data that the records in the region do not have, nor does the buffer have it there
  obtain ⟨k, hk0, hk⟩ : ∃ k : UInt8, k ≠ 0 ∧ k ≠ s₁.byte (va.toNat - r₁.baseVA.toNat) := by
    by_cases h1 : s₁.byte (va.toNat - r₁.baseVA.toNat) = 1
    · exact ⟨2, by decide, by rw [h1]; decide⟩
    · exact ⟨1, by decide, Ne.symm h1⟩
  obtain ⟨mem', hmem', -, -, hnoted⟩ := noteMemoryRefs_withData hp hbelow hcoalesce halloc
    fun b _ => if b.span.Within r₀.span then 0 else k
  have hexact := h _ _ hmem'
  obtain ⟨r, hr, h₁⟩ := exists_of_forall₂ (hnoted false).flip hr₁
  have hva₁ : r₁.Contains va := by
    rw [contains_iff, hspan]
    exact hva
  have hvar : r.Contains va := by
    rw [contains_iff, h₁.span_eq, ← contains_iff]
    exact hva₁
  obtain ⟨data, hdata⟩ := Option.isSome_iff_exists.mp
    (hp.data a (mem_recordsOf.mp hbmem).1 (mem_recordsOf.mp hbmem).2.1)
  have hvalue := (hexact.1 false).valued hv r hr va hvar k (by
    rw [recordsOf_withData, lastByte, lastTouch_withData, ha, Option.map_some, Option.bind_some,
      Access.byteAt, Access.withData, hdata]
    exact congrArg some (if_neg hout))
  obtain ⟨s₁', s, hs₁', hs, -, hbytes⟩ := h₁.stored hv
  rw [hs₁] at hs₁'
  cases hs₁'
  have hbyte : s.byte (va.toNat - r₁.baseVA.toNat) = k := by
    unfold valueAt at hvalue
    rw [hs, h₁.baseVA] at hvalue
    split at hvalue
    · exact Option.some.inj hvalue
    · cases hvalue
  rw [hbytes va hva₁] at hbyte
  cases hlast : lastByte (((recordsOf p false list).map (Access.withData fun b _ =>
      if b.span.Within r₀.span then 0 else k)).filter fun a => a.span.Within r₁.span) va with
  | none =>
      rw [hlast] at hbyte
      exact hk hbyte.symm
  | some byte =>
      rw [hlast] at hbyte
      obtain ⟨c, hc, hcbyte⟩ := Option.bind_eq_some_iff.mp hlast
      obtain ⟨hcmem, hcin⟩ := List.mem_filter.mp (lastTouch_mem hc).1
      obtain ⟨d, -, rfl⟩ := List.mem_map.mp hcmem
      have hdin : d.span.Within r₀.span := by
        rw [← hspan]
        exact of_decide_eq_true hcin
      have hzero : byte = 0 := (byteAt_withData hcbyte).symm.trans (if_pos hdin)
      exact hk0 (hbyte.symm.trans hzero)

theorem careful_of_exact (h : ∀ data mem',
      noteMemoryRefs p (list.map (Access.withData data)) (.reset refData) = .ok mem' →
      mem'.Exact p m (list.map (Access.withData data))) :
    Careful p list where
  below := hbelow
  covered := fun _ _ hva => touches_of_exact hp hbelow hcoalesce halloc h hva
  last := fun hv _ hs₀ _ hva _ ha => within_of_exact hp hbelow hcoalesce halloc h hv hs₀ hva ha

end Claim

/--
**When the regions combine the records exactly.**  For records as SoftSDV promises them and a
call that stops at no check, but no record of one byte at the end of the address space:
whatever data the records carry, the regions are exact, if and only if no record reaches the end,
every byte that a region took in with a record that ends one byte before the region belongs to
some record of the kind, and, where values are recorded, the last record that touches a byte of
a load region lies in that region.
-/
theorem noteMemoryRefs_exact_iff (hp : Promised p m list)
    (hlast : ∀ a ∈ list, a.origin = p.origin → a.size = 1 → a.Below)
    (hok : noteMemoryRefs p list (.reset refData) = .ok mem) :
    (∀ data mem', noteMemoryRefs p (list.map (Access.withData data)) (.reset refData) = .ok mem' →
      mem'.Exact p m (list.map (Access.withData data))) ↔ Careful p list := by
  have hsized := noteMemoryRefs_sized hok
  obtain ⟨mem₀, hcoalesce, hrest⟩ := bind_eq_ok hok
  obtain ⟨mem₁, halloc, -⟩ := bind_eq_ok hrest
  constructor
  · intro h
    have hsame : list.map (Access.withData fun a => a.data.getD fun _ => 0) = list :=
      (List.map_congr_left fun a _ => a.withData_self).trans (List.map_id' list)
    have hexact := h (fun a => a.data.getD fun _ => 0) mem
    rw [hsame] at hexact
    exact careful_of_exact hp (fun a ha horigin => (hexact hok).below hp hsized hlast ha horigin)
      hcoalesce halloc h
  · intro h data mem' hok'
    exact h.exact hp h.below hcoalesce halloc hok'

/-! ### On fixed records -/

/-- Every virtual page is at its own address. -/
def samePages (n : Nat) : BitVec 64 := BitVec.ofNat 64 (n * 4096)

theorem samePages_aligned (n : Nat) : samePages n &&& pageMask = samePages n := by
  apply BitVec.eq_of_toNat_eq
  rw [toNat_and_pageMask, pageNumber, samePages, BitVec.toNat_ofNat]
  have hdvd : 4096 ∣ n * 4096 % 2 ^ 64 := (Nat.dvd_mod_iff (by norm_num)).mpr (Nat.dvd_mul_left ..)
  exact Nat.div_mul_cancel hdvd

def noteInstruction (values : Bool) : NoteParams :=
  ⟨.Instruction, .instruction, values, fun va _ => some (translate samePages va)⟩

/-- A read by the instruction. -/
def readOf (va : BitVec 64) (size : BitVec 64) : Access :=
  ⟨.Read, .Instruction, size, translate samePages va, va, some fun i => UInt8.ofNat (i + 1)⟩

theorem promised_reads {l : List (BitVec 64 × BitVec 64)}
    (h : ∀ x ∈ l, 0 < x.2.toNat ∧ x.2.toNat < 4096) :
    Promised (noteInstruction values) samePages (l.map fun x => readOf x.1 x.2) := by
  refine ⟨samePages_aligned, ?_, ?_, ?_⟩
  · intro a ha _
    obtain ⟨x, hx, rfl⟩ := List.mem_map.mp ha
    exact ⟨(h x hx).1, (h x hx).2, rfl⟩
  · intro a ha _
    obtain ⟨x, -, rfl⟩ := List.mem_map.mp ha
    rfl
  · intro a ha _ va _
    rfl

/-- Two reads that overlap, and the second one crosses a page. -/
theorem noteMemoryRefs_exact_iff_overlapping :
    Careful (noteInstruction true) [readOf 0x1ffa 4, readOf 0x1ffc 8] ∧
    ∀ data mem', noteMemoryRefs (noteInstruction true)
        ([readOf 0x1ffa 4, readOf 0x1ffc 8].map (Access.withData data)) (.reset fun _ => 0)
        = .ok mem' →
      mem'.Exact (noteInstruction true) samePages
        ([readOf 0x1ffa 4, readOf 0x1ffc 8].map (Access.withData data)) := by
  have hrun : (noteMemoryRefs (noteInstruction true) [readOf 0x1ffa 4, readOf 0x1ffc 8]
      (.reset fun _ => 0)).isOk = true := by decide +kernel
  cases hok : noteMemoryRefs (noteInstruction true) [readOf 0x1ffa 4, readOf 0x1ffc 8]
      (.reset fun _ => 0) with
  | error e =>
      rw [hok] at hrun
      cases hrun
  | ok mem =>
      have hp : Promised (noteInstruction true) samePages [readOf 0x1ffa 4, readOf 0x1ffc 8] :=
        promised_reads (l := [(0x1ffa, 4), (0x1ffc, 8)]) (by simp)
      have hiff := noteMemoryRefs_exact_iff hp (by decide +kernel) hok
      have hreads : spansOf (noteInstruction true) false [readOf 0x1ffa 4, readOf 0x1ffc 8] =
          [] ++ [⟨0x1ffa, 0x1ffe⟩] ++ [⟨0x1ffc, 0x2004⟩] := by decide +kernel
      have hwrites : spansOf (noteInstruction true) true [readOf 0x1ffa 4, readOf 0x1ffc 8] =
          [] := by decide +kernel
      refine (and_iff_left_of_imp hiff.mpr).mpr ⟨by decide +kernel, ?_, ?_⟩
      · rintro write va htaken
        cases write with
        | true =>
            rw [hwrites] at htaken
            rcases htaken with hover | ⟨hread, -⟩
            · exact (Span.joinsOver_nil hover).elim
            · cases hread
        | false =>
            rw [hreads] at htaken
            rcases htaken with hover | ⟨-, xs, s, t, hfuse, -⟩
            · -- the second read ends behind the first one, and nothing came before that
              rw [Span.joinsOver_snoc, Span.joinsOver_snoc] at hover
              rcases hover with (hover | ⟨s, hs, -⟩) | ⟨s, hs, hgap, -⟩
              · exact (Span.joinsOver_nil hover).elim
              · cases hs
              · have hfirst : s = ⟨0x1ffa, 0x1ffe⟩ :=
                  List.mem_singleton.mp (List.mem_of_find?_eq_some hs)
                rw [hfirst] at hgap
                cases hgap
            · have hlen := congrArg List.length hfuse
              simp [Span.joinAll, Span.join, Span.Near] at hlen
      · intro _ s hs va _ a ha
        have hmem := (mem_recordsOf.mp (lastTouch_mem ha).1).1
        rw [hreads] at hs
        have hspan : regionSpans false ([] ++ [⟨0x1ffa, 0x1ffe⟩] ++ [⟨0x1ffc, 0x2004⟩]) =
            [⟨0x1ffa, 0x2004⟩] := by decide +kernel
        rw [hspan, List.mem_singleton] at hs
        rw [hs]
        have hall : ∀ a ∈ [readOf 0x1ffa 4, readOf 0x1ffc 8],
            a.span.Within ⟨0x1ffa, 0x2004⟩ := by decide +kernel
        exact hall a hmem

/-- Of two reads the first begins two bytes behind the second one, which ends before it: the
region has the byte between them. -/
theorem noteMemoryRefs_not_always_exact : ¬∀ p m list refData mem, Promised p m list →
    noteMemoryRefs p list (.reset refData) = .ok mem → mem.Exact p m list := by
  intro h
  have hrun : (noteMemoryRefs (noteInstruction false) [readOf 0x1004 4, readOf 0x1000 3]
      (.reset fun _ => 0)).toOption.map (fun mem => mem.loads.map span)
      = some [⟨0x1000, 0x1008⟩] := by
    decide +kernel
  cases hok : noteMemoryRefs (noteInstruction false) [readOf 0x1004 4, readOf 0x1000 3]
      (.reset fun _ => 0) with
  | error e =>
      rw [hok] at hrun
      cases hrun
  | ok mem =>
      have hexact := h _ _ _ _ _ (promised_reads (l := [(0x1004, 4), (0x1000, 3)])
        (by simp)) hok
      rw [hok] at hrun
      have hspans : mem.loads.map span = [⟨0x1000, 0x1008⟩] := Option.some.inj hrun
      have hmem : (⟨0x1000, 0x1008⟩ : Span) ∈ mem.loads.map span := by
        rw [hspans]
        exact List.mem_singleton_self _
      obtain ⟨r, hr, hspan⟩ := List.mem_map.mp hmem
      have hva : r.Contains 0x1003 := by
        rw [contains_iff, hspan]
        decide +kernel
      obtain ⟨a, ha, htouch⟩ := (hexact.1 false).touched r hr 0x1003 hva
      have hnone : ∀ a ∈ [readOf 0x1004 4, readOf 0x1000 3], ¬a.Touches 0x1003 := by decide +kernel
      exact hnone a (mem_recordsOf.mp ha).1 htouch

end AsimFeeder.SoftSDV
