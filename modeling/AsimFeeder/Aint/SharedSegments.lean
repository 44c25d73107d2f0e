/-
What AINT's address spaces keep to while segments are shared and attached.

`Sound` is the invariant.  Every page that a process has touched has one entry.  A page of
no region lies in memory of its own; a page of a region lies where the shared segment has
it.  Attaching touches nothing: the region is put where the process has nothing yet.
-/
import AsimFeeder.Aint.AddressSpace

namespace AsimFeeder.Aint

open Lib

/-! ### Pages and offsets -/

theorem toInt64_eq (addr : UInt64) :
    addr.toInt64.toInt = if 2 * addr.toNat < 2 ^ 64 then (addr.toNat : Int)
      else (addr.toNat : Int) - (2 ^ 64 : Nat) :=
  BitVec.toInt_eq_toNat_cond addr.toBitVec

/-- The key and the tag of a page give the page back. -/
theorem vpage_inj {v w : Int} (hkey : TB_KEY v = TB_KEY w) (htag : TB_TAG v = TB_TAG w) :
    v = w := by
  unfold TB_KEY TB_SIZE at hkey
  unfold TB_TAG TB_SIZE at htag
  omega

theorem vpage_eq_iff {a b : UInt64} :
    TB_VPAGE a = TB_VPAGE b ↔ a.toNat / 65536 = b.toNat / 65536 := by
  have ha := a.toNat_lt
  have hb := b.toNat_lt
  unfold TB_VPAGE
  rw [toInt64_eq, toInt64_eq]
  split <;> split <;> omega

theorem toNat_roundDown (v : UInt64) : (BASE2ROUNDDOWN v).toNat = v.toNat - v.toNat % 65536 := by
  unfold BASE2ROUNDDOWN TB_PAGESIZE
  rw [UInt64.toNat_sub_of_le]
  · rw [UInt64.toNat_mod]
    rfl
  · rw [UInt64.le_iff_toNat_le, UInt64.toNat_mod]
    exact Nat.mod_le _ _

theorem toNat_pageaddr (v : UInt64) : (pageaddr v).toNat = v.toNat - v.toNat % 8192 := by
  unfold pageaddr M_ALIGN
  rw [UInt64.toNat_sub_of_le]
  · rw [UInt64.toNat_mod]
    rfl
  · rw [UInt64.le_iff_toNat_le, UInt64.toNat_mod]
    exact Nat.mod_le _ _

theorem roundDown_of_aligned {v : UInt64} (h : v.toNat % 65536 = 0) : BASE2ROUNDDOWN v = v := by
  apply UInt64.toNat_inj.mp
  rw [toNat_roundDown, h, Nat.sub_zero]

/-- A multiple of the page size is rounded up to itself. -/
theorem roundUp_of_aligned {v : UInt64} (h : v.toNat % 65536 = 0) : BASE2ROUNDUP v = v := by
  have hv := v.toNat_lt
  apply UInt64.toNat_inj.mp
  unfold BASE2ROUNDUP
  rw [toNat_roundDown, UInt64.toNat_add]
  show (v.toNat + 65535) % 2 ^ 64 - (v.toNat + 65535) % 2 ^ 64 % 65536 = v.toNat
  omega

/-! ### Regions -/

/-- A region of whole pages that ends before the address space does. -/
structure Shm_ds.Whole (shmds : Shm_ds) : Prop where
  addr : shmds.addr.toNat % 65536 = 0
  size : shmds.size.toNat % 65536 = 0
  bound : shmds.addr.toNat + shmds.size.toNat < 2 ^ 64

theorem Shm_ds.Whole.contains_iff {r : Shm_ds} (h : r.Whole) {a : UInt64} :
    r.contains a = true ↔ r.addr.toNat ≤ a.toNat ∧ a.toNat < r.addr.toNat + r.size.toNat := by
  unfold Shm_ds.contains
  rw [Bool.and_eq_true, decide_eq_true_iff, decide_eq_true_iff, UInt64.le_iff_toNat_le,
    UInt64.lt_iff_toNat_lt, UInt64.toNat_add, Nat.mod_eq_of_lt h.bound]

/-- A region has all of a page or nothing of it. -/
theorem Shm_ds.Whole.contains_page {r : Shm_ds} (h : r.Whole) {a b : UInt64}
    (hab : TB_VPAGE a = TB_VPAGE b) (ha : r.contains a = true) : r.contains b = true := by
  have haddr := h.addr
  have hsize := h.size
  rw [vpage_eq_iff] at hab
  rw [h.contains_iff] at *
  omega

/-- A byte of a region lies between its ends. -/
theorem Shm_ds.Whole.between {r : Shm_ds} (h : r.Whole) {a : UInt64}
    (ha : r.contains a = true) : r.addr ≤ a ∧ a ≤ r.addr + r.size - 1 := by
  have hbound := h.bound
  rw [h.contains_iff] at ha
  have hone : (1 : UInt64).toNat = 1 := rfl
  have hsum : (r.addr + r.size).toNat = r.addr.toNat + r.size.toNat := by
    rw [UInt64.toNat_add, Nat.mod_eq_of_lt hbound]
  rw [UInt64.le_iff_toNat_le, UInt64.le_iff_toNat_le, UInt64.toNat_sub_of_le _ _
    (UInt64.le_iff_toNat_le.mpr (by omega)), hsum, hone]
  omega

theorem segment_contains_iff {segment : Segment} {a : UInt64} :
    segment_contains segment a = true ↔ segment.start ≤ a ∧ a ≤ segment.last := by
  unfold segment_contains
  rw [Bool.and_eq_true, decide_eq_true_iff, decide_eq_true_iff]

/-! ### What a lookup does -/

namespace Process

variable {process : Process} {Shmseg : Fin MAX_SHMSEG → Sysv_shm}

/-- The three things that a lookup comes to. -/
inductive Looked (process : Process) (Shmseg : Fin MAX_SHMSEG → Sysv_shm) (addr : UInt64)
    (fresh : Nat) : Option Mapping × Process → Prop
  | hit {pg : Mapping} {chain : Chain Int Mapping}
      (hpg : (process.TB (TB_KEY (TB_VPAGE addr))).Maps (TB_TAG (TB_VPAGE addr)) pg)
      (haimed : chain.Aimed)
      (hsame : ∀ tag pg, chain.Maps tag pg ↔
        (process.TB (TB_KEY (TB_VPAGE addr))).Maps tag pg) :
      Looked process Shmseg addr fresh (some pg,
        { process with TB := Function.update process.TB (TB_KEY (TB_VPAGE addr)) chain })
  | filled {segment : Segment} (hsegment : process.process_find_segment addr = some segment)
      (hnew : ∀ pg, ¬ (process.TB (TB_KEY (TB_VPAGE addr))).Maps (TB_TAG (TB_VPAGE addr)) pg) :
      Looked process Shmseg addr fresh (some (process.newMapping Shmseg addr segment fresh),
        { process with
          TB := Function.update process.TB (TB_KEY (TB_VPAGE addr))
            ((process.TB (TB_KEY (TB_VPAGE addr))).push (TB_TAG (TB_VPAGE addr))
              (process.newMapping Shmseg addr segment fresh)) })
  | none (hsegment : process.process_find_segment addr = none) :
      Looked process Shmseg addr fresh (none, process)

theorem newMapping_page_ne_zero (process : Process) (Shmseg : Fin MAX_SHMSEG → Sysv_shm)
    (addr : UInt64) (segment : Segment) {fresh : Nat} (h : fresh ≠ 0) :
    (process.newMapping Shmseg addr segment fresh).page ≠ 0 := by
  unfold newMapping
  dsimp only
  split <;> split <;> assumption

/-- **A lookup neither aborts nor fails an assertion, as long as the chains are aimed.** -/
theorem tlb_lookup_looked (Shmseg : Fin MAX_SHMSEG → Sysv_shm) {addr : UInt64} {fresh : Nat}
    (h : (process.TB (TB_KEY (TB_VPAGE addr))).Aimed) (hfresh : fresh ≠ 0) :
    ∃ r, process.tlb_lookup Shmseg addr fresh = .ok r ∧ Looked process Shmseg addr fresh r := by
  unfold tlb_lookup
  dsimp only
  have hfound := h.look (TB_TAG (TB_VPAGE addr))
  revert hfound
  generalize (process.TB (TB_KEY (TB_VPAGE addr))).look (TB_TAG (TB_VPAGE addr)) = looked
  intro hfound
  cases hfound with
  | hit hcell hd hmaps => exact ⟨_, rfl, .hit hcell hd hmaps⟩
  | miss hnew =>
      unfold tlb_miss
      dsimp only
      cases hsegment : process.process_find_segment addr with
      | none => exact ⟨_, rfl, .none hsegment⟩
      | some segment =>
          -- the new entry is the head, and what the head remembers
          have hpage := newMapping_page_ne_zero process Shmseg addr segment hfresh
          obtain ⟨phys, hphys⟩ := Nat.exists_eq_succ_of_ne_zero
            (show (process.newMapping Shmseg addr segment fresh).page + TB_OFFSET addr ≠ 0 by omega)
          refine ⟨_, ?_, .filled hsegment hnew⟩
          dsimp only
          rw [hphys]
          simp only [Function.update_self, Chain.remembered_push, if_true]

end Process

/-! ### What is kept -/

namespace AddrSpaces

variable {s t : AddrSpaces}

/-- The entry for a page. -/
def Maps (s : AddrSpaces) (pid : Nat) (v : Int) (page : Nat) : Prop :=
  ∃ flags prot, ((s.process pid).TB (TB_KEY v)).Maps (TB_TAG v) ⟨page, flags, prot⟩

/-- No attached region has a byte of the page. -/
def Private (s : AddrSpaces) (pid : Nat) (v : Int) : Prop :=
  ∀ r ∈ (s.process pid).Shmem_regions, ∀ a, TB_VPAGE a = v → r.contains a = false

/-- A physical byte of a shared segment's memory. -/
def InShm (s : AddrSpaces) (shmid : Fin MAX_SHMSEG) (z : Nat) : Prop :=
  (s.Shmseg shmid).paddr ≠ 0 ∧ (s.Shmseg shmid).paddr ≤ z ∧
    z < (s.Shmseg shmid).paddr + (s.Shmseg shmid).attachSize.toNat

/-- A physical byte that is in use. -/
def InUse (s : AddrSpaces) (z : Nat) : Prop :=
  (∃ pid v page, s.Maps pid v page ∧ page ≤ z ∧ z < page + 65536) ∨ ∃ shmid, s.InShm shmid z

/-- What `allocate_pages` may return. -/
structure Fresh (s : AddrSpaces) (base size : Nat) : Prop where
  aligned : base % 65536 = 0
  notNull : base ≠ 0
  free : ∀ z, base ≤ z → z < base + size → ¬ s.InUse z

/-- No segment, no region and no entry of the process has a byte of what is attached. -/
structure Free (s : AddrSpaces) (pid : Nat) (attached size : UInt64) : Prop where
  bound : attached.toNat + size.toNat < 2 ^ 64
  region : ∀ a, attached ≤ a → a ≤ attached + size - 1 →
    ∀ r ∈ (s.process pid).Shmem_regions, r.contains a = false
  segment : ∀ a, attached ≤ a → a ≤ attached + size - 1 →
    ∀ segment ∈ (s.process pid).segments, segment_contains segment a = false
  untouched : ∀ a, attached ≤ a → a ≤ attached + size - 1 →
    ∀ page, ¬ s.Maps pid (TB_VPAGE a) page

/-- New memory is fresh, and regions are attached where nothing is. -/
def Legal (s : AddrSpaces) : MemEvent → Prop
  | .shmget _ _ _ => True
  | .shmat pid shmid addr fresh =>
      ∀ i : Fin MAX_SHMSEG, (i.val : Int) = shmid →
        ((s.Shmseg i).paddr = 0 → s.Fresh fresh (s.Shmseg i).attachSize.toNat) ∧
        s.Free pid (attachAddr (s.process pid) addr) (s.Shmseg i).attachSize
  | .addr2phys _ _ fresh => s.Fresh fresh 65536

/-- A page of a region is first touched in its first 8 KB. -/
def TouchedLow (s : AddrSpaces) : MemEvent → Prop
  | .addr2phys pid addr _ =>
      (∃ r ∈ (s.process pid).Shmem_regions, r.contains addr = true) →
        (∀ page, ¬ s.Maps pid (TB_VPAGE addr) page) → TB_OFFSET addr < M_ALIGN.toNat
  | _ => True

/-- Nothing is attached and nothing is touched. -/
structure Start (s : AddrSpaces) : Prop where
  TB : ∀ pid k, (s.process pid).TB k = []
  Shmem_regions : ∀ pid, (s.process pid).Shmem_regions = []
  Shmseg : ∀ i, (s.Shmseg i).inuse = false ∧ (s.Shmseg i).paddr = 0
  log : s.log = []

def Step (s t : AddrSpaces) : Prop := ∃ e, s.Legal e ∧ s.exec e = some t

/-- The steps that touch the pages of regions low. -/
def LowStep (s t : AddrSpaces) : Prop := ∃ e, s.Legal e ∧ s.TouchedLow e ∧ s.exec e = some t

structure Sound (s : AddrSpaces) : Prop where
  aimed : ∀ pid k, ((s.process pid).TB k).Aimed
  whole : ∀ pid, ∀ r ∈ (s.process pid).Shmem_regions, r.Whole
  attached : ∀ pid, ∀ r ∈ (s.process pid).Shmem_regions,
    (s.Shmseg r.shmid).paddr ≠ 0 ∧ r.size = (s.Shmseg r.shmid).attachSize
  apart : ∀ pid, ∀ r ∈ (s.process pid).Shmem_regions, ∀ r' ∈ (s.process pid).Shmem_regions,
    ∀ a, r.contains a = true → r'.contains a = true → r = r'
  shared : ∀ pid, ∀ r ∈ (s.process pid).Shmem_regions, ∀ segment ∈ (s.process pid).segments,
    ∀ a, r.contains a = true → segment_contains segment a = true →
      segment.flags &&& MAP_SHARED ≠ 0
  paddr : ∀ i, (s.Shmseg i).paddr % 65536 = 0
  inuse : ∀ i, (s.Shmseg i).paddr ≠ 0 → (s.Shmseg i).inuse = true
  page : ∀ pid v page, s.Maps pid v page → page % 65536 = 0 ∧ page ≠ 0
  sharedPage : ∀ pid v page, s.Maps pid v page → ∀ r ∈ (s.process pid).Shmem_regions,
    ∀ a, TB_VPAGE a = v → r.contains a = true →
      page + TB_OFFSET a = (s.Shmseg r.shmid).paddr + (a.toNat - r.addr.toNat)
  privatePage : ∀ pid v pid' v' page, s.Maps pid v page → s.Maps pid' v' page →
    s.Private pid v → s.Private pid' v' → pid = pid' ∧ v = v'
  privateShm : ∀ pid v page, s.Maps pid v page → s.Private pid v →
    ∀ i z, s.InShm i z → page ≤ z → ¬ z < page + 65536
  log : ∀ e ∈ s.log, ∃ page, s.Maps e.1 (TB_VPAGE e.2.1) page ∧ e.2.2 = page + TB_OFFSET e.2.1

theorem sound_start (h : s.Start) : s.Sound := by
  have hmaps : ∀ pid v page, ¬ s.Maps pid v page := by
    rintro pid v page ⟨flags, prot, cell, hcell, -⟩
    rw [h.TB] at hcell
    cases hcell
  have hregions : ∀ pid, ∀ r, r ∉ (s.process pid).Shmem_regions := by
    intro pid r hr
    rw [h.Shmem_regions] at hr
    cases hr
  exact {
    aimed := fun pid k => by rw [h.TB]; exact Chain.aimed_nil
    whole := fun pid r hr => absurd hr (hregions pid r)
    attached := fun pid r hr => absurd hr (hregions pid r)
    apart := fun pid r hr => absurd hr (hregions pid r)
    shared := fun pid r hr => absurd hr (hregions pid r)
    paddr := fun i => by rw [(h.Shmseg i).2]
    inuse := fun i hi => absurd (h.Shmseg i).2 hi
    page := fun pid v page hm => absurd hm (hmaps pid v page)
    sharedPage := fun pid v page hm => absurd hm (hmaps pid v page)
    privatePage := fun pid v _ _ page hm => absurd hm (hmaps pid v page)
    privateShm := fun pid v page hm => absurd hm (hmaps pid v page)
    log := fun e he => by rw [h.log] at he; cases he }

/-! ### Shared segments -/

/-- A segment that has its memory keeps it; memory that a segment gets is nobody's. -/
theorem Sound.withShmseg (h : s.Sound) {Shmseg : Fin MAX_SHMSEG → Sysv_shm} {used : UInt64}
    (hkeep : ∀ i, (s.Shmseg i).paddr ≠ 0 → Shmseg i = s.Shmseg i)
    (hnew : ∀ i, (s.Shmseg i).paddr = 0 → (Shmseg i).paddr ≠ 0 →
      (Shmseg i).paddr % 65536 = 0 ∧ (Shmseg i).inuse = true ∧
      ∀ z, (Shmseg i).paddr ≤ z → z < (Shmseg i).paddr + (Shmseg i).attachSize.toNat →
        ¬ s.InUse z) :
    Sound { s with Shmseg := Shmseg, Shmem_end := used } :=
  { h with
    attached := by
      intro pid r hr
      have hat := h.attached pid r hr
      dsimp only
      rw [hkeep _ hat.1]
      exact hat
    paddr := by
      intro i
      by_cases hi : (s.Shmseg i).paddr = 0
      · by_cases hi' : (Shmseg i).paddr = 0
        · show (Shmseg i).paddr % 65536 = 0
          rw [hi']
        · exact (hnew i hi hi').1
      · show (Shmseg i).paddr % 65536 = 0
        rw [hkeep i hi]
        exact h.paddr i
    inuse := by
      intro i hi'
      by_cases hi : (s.Shmseg i).paddr = 0
      · exact (hnew i hi hi').2.1
      · show (Shmseg i).inuse = true
        rw [hkeep i hi]
        exact h.inuse i hi
    sharedPage := by
      intro pid v page hmaps r hr a hv ha
      show _ = (Shmseg r.shmid).paddr + _
      rw [hkeep _ (h.attached pid r hr).1]
      exact h.sharedPage pid v page hmaps r hr a hv ha
    privateShm := by
      intro pid v page hmaps hpriv i z hz hle hlt
      obtain ⟨hne, hlo, hhi⟩ := hz
      by_cases hi : (s.Shmseg i).paddr = 0
      · exact (hnew i hi hne).2.2 z hlo hhi (.inl ⟨pid, v, page, hmaps, hle, hlt⟩)
      · refine h.privateShm pid v page hmaps hpriv i z ⟨hi, ?_⟩ hle hlt
        rw [← hkeep i hi]
        exact ⟨hlo, hhi⟩ }

theorem shmseg_allocate_cases {key size flags : UInt64} {result : Int} {errno : Errno}
    (h : s.shmseg_allocate key size flags = .ok (result, errno, t)) :
    t = s ∨ ∃ i key size used, (s.Shmseg i).inuse = false ∧
      t = { s with
        Shmseg := Function.update s.Shmseg i ⟨true, key, 0, size⟩
        Shmem_end := used } := by
  unfold shmseg_allocate at h
  dsimp only at h
  split at h
  · split at h <;> cases h <;> exact .inl rfl
  · split at h
    · cases h
      exact .inl rfl
    · split at h
      · cases h
        exact .inl rfl
      · rename_i shmid hfree
        split at h
        · cases h
        · cases h
          have hinuse := List.find?_some hfree
          exact .inr ⟨shmid, _, _, _, by simpa using hinuse, rfl⟩

theorem Sound.shmget (h : s.Sound) {key size flags : UInt64}
    (hexec : s.exec (.shmget key size flags) = some t) : t.Sound := by
  unfold exec at hexec
  dsimp only at hexec
  split at hexec
  · rename_i result errno u hallocate
    cases hexec
    rcases shmseg_allocate_cases hallocate with rfl | ⟨i, key, size, used, hinuse, rfl⟩
    · exact h
    · have hpaddr : (s.Shmseg i).paddr = 0 := by
        by_contra hne
        rw [h.inuse i hne] at hinuse
        cases hinuse
      refine h.withShmseg ?_ ?_
      · intro j hj
        have hne : j ≠ i := by
          rintro rfl
          exact hj hpaddr
        rw [Function.update_of_ne hne]
      · intro j hj hj'
        by_cases hne : j = i
        · rw [hne, Function.update_self] at hj'
          exact absurd rfl hj'
        · rw [Function.update_of_ne hne] at hj'
          exact absurd hj hj'
  · cases hexec

/-! ### Attaching -/

theorem aligned_of_roundDown {v : UInt64} (h : v = BASE2ROUNDDOWN v) : v.toNat % 65536 = 0 := by
  rw [h, toNat_roundDown]
  omega

theorem attachAddr_aligned (process : Process) (addr : UInt64) :
    (attachAddr process addr).toNat % 65536 = 0 := by
  unfold attachAddr BASE2ROUNDUP
  split <;> rw [toNat_roundDown] <;> omega

/-- The state with the memory that the first one to attach allocates. -/
def allocated (s : AddrSpaces) (i : Fin MAX_SHMSEG) (fresh : Nat) : AddrSpaces :=
  { s with
    Shmseg := Function.update s.Shmseg i
      { s.Shmseg i with
        paddr := if (s.Shmseg i).paddr = 0 then fresh else (s.Shmseg i).paddr } }

theorem Shmseg_allocated (s : AddrSpaces) (i : Fin MAX_SHMSEG) (fresh : Nat) :
    (s.allocated i fresh).Shmseg i =
      { s.Shmseg i with
        paddr := if (s.Shmseg i).paddr = 0 then fresh else (s.Shmseg i).paddr } :=
  Function.update_self ..

/-- What `shmseg_attach` does: nothing, allocate and fail, or allocate and attach. -/
inductive Attached (s : AddrSpaces) (pid : Nat) (shmid : Int) (addr : UInt64) (fresh : Nat) :
    AddrSpaces → Prop
  | same : Attached s pid shmid addr fresh s
  | full {i : Fin MAX_SHMSEG} (unsp : UInt64) (hi : (i.val : Int) = shmid)
      (hinuse : (s.Shmseg i).inuse = true) :
      Attached s pid shmid addr fresh
        ((s.allocated i fresh).setProcess pid
          { s.process pid with Unsp_Shmat_Current := unsp })
  | attached {i : Fin MAX_SHMSEG} (unsp : UInt64) (hi : (i.val : Int) = shmid)
      (hinuse : (s.Shmseg i).inuse = true)
      (hsize : (s.Shmseg i).attachSize = BASE2ROUNDDOWN (s.Shmseg i).attachSize) :
      Attached s pid shmid addr fresh
        ((s.allocated i fresh).setProcess pid
          (Process.process_add_segment
            { s.process pid with
              Unsp_Shmat_Current := unsp
              Shmem_regions := ⟨i, (s.Shmseg i).attachSize, attachAddr (s.process pid) addr⟩ ::
                (s.process pid).Shmem_regions }
            (attachAddr (s.process pid) addr) (s.Shmseg i).attachSize
            (PROT_READ ||| PROT_WRITE) MAP_SHARED))

theorem attached_of_exec {pid : Nat} {shmid : Int} {addr : UInt64} {fresh : Nat}
    (h : s.exec (.shmat pid shmid addr fresh) = some t) : Attached s pid shmid addr fresh t := by
  unfold exec at h
  dsimp only at h
  split at h
  · rename_i result errno u hattach
    cases h
    unfold shmseg_attach at hattach
    dsimp only at hattach
    split at hattach
    · cases hattach
      exact .same
    · rename_i hrange
      split at hattach
      · rename_i hlt
        have hi : (((⟨shmid.toNat, hlt⟩ : Fin MAX_SHMSEG).val : Nat) : Int) = shmid := by
          show ((shmid.toNat : Nat) : Int) = shmid
          omega
        split at hattach
        · cases hattach
          exact .same
        · rename_i hinuse
          split at hattach
          · cases hattach
          · rename_i hsize
            split at hattach
            · cases hattach
            · have hinuse' : (s.Shmseg ⟨shmid.toNat, hlt⟩).inuse = true := by simpa using hinuse
              have hsize' := not_not.mp hsize
              by_cases haddr : addr = 0
              · subst haddr
                simp only [if_true, true_and] at hattach
                split at hattach
                · simp only [Option.some.injEq, Except.ok.injEq, Prod.mk.injEq] at hattach
                  obtain ⟨-, -, rfl⟩ := hattach
                  exact .full _ hi hinuse'
                · simp only [Option.some.injEq, Except.ok.injEq, Prod.mk.injEq] at hattach
                  obtain ⟨-, -, rfl⟩ := hattach
                  exact .attached _ hi hinuse' hsize'
              · simp only [haddr, if_false, false_and, Option.some.injEq, Except.ok.injEq,
                  Prod.mk.injEq] at hattach
                obtain ⟨-, -, rfl⟩ := hattach
                exact .attached (s.process pid).Unsp_Shmat_Current hi hinuse' hsize'
      · cases hattach
  · cases h

/-! ### A process changes -/

theorem setProcess_self (s : AddrSpaces) (pid : Nat) (q : Process) :
    (s.setProcess pid q).process pid = q :=
  Function.update_self ..

theorem setProcess_of_ne {s : AddrSpaces} {pid pid' : Nat} (h : pid' ≠ pid) (q : Process) :
    (s.setProcess pid q).process pid' = s.process pid' :=
  Function.update_of_ne h ..

/-- What holds of the new process and of every old one holds of every process. -/
theorem forall_setProcess {s : AddrSpaces} {pid : Nat} {q : Process} {P : Nat → Process → Prop}
    (hq : P pid q) (hs : ∀ pid', P pid' (s.process pid')) (pid' : Nat) :
    P pid' ((s.setProcess pid q).process pid') := by
  by_cases hpid : pid' = pid
  · subst hpid
    rw [setProcess_self]
    exact hq
  · rw [setProcess_of_ne hpid]
    exact hs pid'

theorem maps_setProcess {pid : Nat} {q : Process} (hTB : q.TB = (s.process pid).TB) {pid' : Nat}
    {v : Int} {page : Nat} : (s.setProcess pid q).Maps pid' v page ↔ s.Maps pid' v page := by
  unfold Maps
  by_cases hpid : pid' = pid
  · subst hpid
    rw [setProcess_self, hTB]
  · rw [setProcess_of_ne hpid]

/-- Attaching more regions leaves fewer pages private. -/
theorem private_of_setProcess {pid : Nat} {q : Process}
    (hkept : ∀ r ∈ (s.process pid).Shmem_regions, r ∈ q.Shmem_regions) {pid' : Nat} {v : Int}
    (h : (s.setProcess pid q).Private pid' v) : s.Private pid' v := by
  intro r hr
  refine h r ?_
  by_cases hpid : pid' = pid
  · subst hpid
    rw [setProcess_self]
    exact hkept r hr
  · rwa [setProcess_of_ne hpid]

/-- A process attaches regions where it has touched nothing. -/
theorem Sound.withRegions (h : s.Sound) {pid : Nat} {q : Process}
    (hTB : q.TB = (s.process pid).TB)
    (hkept : ∀ r ∈ (s.process pid).Shmem_regions, r ∈ q.Shmem_regions)
    (hwhole : ∀ r ∈ q.Shmem_regions, r.Whole)
    (hattached : ∀ r ∈ q.Shmem_regions,
      (s.Shmseg r.shmid).paddr ≠ 0 ∧ r.size = (s.Shmseg r.shmid).attachSize)
    (hapart : ∀ r ∈ q.Shmem_regions, ∀ r' ∈ q.Shmem_regions, ∀ a, r.contains a = true →
      r'.contains a = true → r = r')
    (hshared : ∀ r ∈ q.Shmem_regions, ∀ segment ∈ q.segments, ∀ a, r.contains a = true →
      segment_contains segment a = true → segment.flags &&& MAP_SHARED ≠ 0)
    (hnew : ∀ r ∈ q.Shmem_regions, ∀ a page, r.contains a = true →
      s.Maps pid (TB_VPAGE a) page → r ∈ (s.process pid).Shmem_regions) :
    (s.setProcess pid q).Sound where
  aimed pid' k := forall_setProcess (P := fun _ p => (p.TB k).Aimed) (hTB ▸ h.aimed pid k)
    (fun pid' => h.aimed pid' k) pid'
  whole := forall_setProcess (P := fun _ p => ∀ r ∈ p.Shmem_regions, r.Whole) hwhole h.whole
  attached := forall_setProcess (P := fun _ p => ∀ r ∈ p.Shmem_regions,
    (s.Shmseg r.shmid).paddr ≠ 0 ∧ r.size = (s.Shmseg r.shmid).attachSize) hattached h.attached
  apart := forall_setProcess (P := fun _ p => ∀ r ∈ p.Shmem_regions, ∀ r' ∈ p.Shmem_regions,
    ∀ a, r.contains a = true → r'.contains a = true → r = r') hapart h.apart
  shared := forall_setProcess (P := fun _ p => ∀ r ∈ p.Shmem_regions, ∀ segment ∈ p.segments,
    ∀ a, r.contains a = true → segment_contains segment a = true →
      segment.flags &&& MAP_SHARED ≠ 0) hshared h.shared
  paddr := h.paddr
  inuse := h.inuse
  page pid' v page hm := h.page pid' v page ((maps_setProcess hTB).mp hm)
  sharedPage := by
    intro pid' v page hm r hr a hv ha
    have hm' := (maps_setProcess hTB).mp hm
    refine h.sharedPage pid' v page hm' r ?_ a hv ha
    by_cases hpid : pid' = pid
    · subst hpid
      rw [setProcess_self] at hr
      subst hv
      exact hnew r hr a page ha hm'
    · rwa [setProcess_of_ne hpid] at hr
  privatePage pid' v pid'' v' page hm hm' hp hp' :=
    h.privatePage pid' v pid'' v' page ((maps_setProcess hTB).mp hm) ((maps_setProcess hTB).mp hm')
      (private_of_setProcess hkept hp) (private_of_setProcess hkept hp')
  privateShm pid' v page hm hp :=
    h.privateShm pid' v page ((maps_setProcess hTB).mp hm) (private_of_setProcess hkept hp)
  log e he := by
    obtain ⟨page, hm, hphys⟩ := h.log e he
    exact ⟨page, (maps_setProcess hTB).mpr hm, hphys⟩

theorem Sound.allocated (h : s.Sound) {i : Fin MAX_SHMSEG} {fresh : Nat}
    (hinuse : (s.Shmseg i).inuse = true)
    (hfresh : (s.Shmseg i).paddr = 0 → s.Fresh fresh (s.Shmseg i).attachSize.toNat) :
    (s.allocated i fresh).Sound := by
  refine h.withShmseg ?_ ?_
  · intro j hj
    by_cases hji : j = i
    · subst hji
      rw [Function.update_self, if_neg hj]
    · exact Function.update_of_ne hji ..
  · intro j hj hj'
    by_cases hji : j = i
    · subst hji
      have hnew := hfresh hj
      rw [Function.update_self, if_pos hj]
      exact ⟨hnew.aligned, hinuse, hnew.free⟩
    · rw [Function.update_of_ne hji] at hj'
      exact absurd hj hj'

/-- The segments after a region is attached: those before, as far as they reach, and its own. -/
theorem mem_add_segment {process : Process} {start size : UInt64} {prot flags : UInt32}
    {segment : Segment}
    (hsegment : segment ∈ (process.process_add_segment start size prot flags).segments)
    (hstart : start.toNat % 65536 = 0) (hsize : size.toNat % 65536 = 0)
    (hbound : start.toNat + size.toNat < 2 ^ 64)
    (hfree : ∀ a, start ≤ a → a ≤ start + size - 1 →
      ∀ segment ∈ process.segments, segment_contains segment a = false) :
    (∃ old ∈ process.segments, old.flags = segment.flags ∧
      ∀ a, segment_contains segment a = true → segment_contains old a = true) ∨
    (segment.flags = flags ∧ segment.start = start ∧ segment.last = start + size - 1) := by
  have hsum : (start + size).toNat = start.toNat + size.toNat := by
    rw [UInt64.toNat_add, Nat.mod_eq_of_lt hbound]
  unfold Process.process_add_segment at hsegment
  rw [roundDown_of_aligned hstart, roundUp_of_aligned (by omega)] at hsegment
  dsimp only at hsegment
  split at hsegment
  · rcases List.mem_append.mp hsegment with hold | hnew
    · exact .inl ⟨segment, hold, rfl, fun _ h => h⟩
    · rw [List.mem_singleton.mp hnew]
      exact .inr ⟨rfl, rfl, rfl⟩
  · -- a segment that holds one end: nothing is attached, and it reaches as far as before
    rename_i i hfind
    obtain ⟨hi, hends, -⟩ := List.findIdx?_eq_some_iff_getElem.mp hfind
    rw [Bool.or_eq_true] at hends
    have hempty : ¬ start ≤ start + size - 1 := by
      intro hle
      rcases hends with hend | hend
      · rw [hfree start (UInt64.le_refl _) hle _ (List.getElem_mem hi)] at hend
        cases hend
      · rw [hfree _ hle (UInt64.le_refl _) _ (List.getElem_mem hi)] at hend
        cases hend
    obtain ⟨j, hj, rfl⟩ := List.getElem_of_mem hsegment
    rw [List.length_modify] at hj
    rw [List.getElem_modify]
    refine .inl ⟨process.segments[j], List.getElem_mem hj, ?_, ?_⟩
    · split <;> rfl
    · intro a ha
      split at ha
      · rename_i hij
        subst hij
        rw [segment_contains_iff, segment_contains_iff] at hends
        rw [segment_contains_iff] at ha ⊢
        dsimp only at ha
        rw [if_neg, if_neg] at ha
        · exact ha
        · rw [UInt64.lt_iff_toNat_lt]
          simp only [UInt64.le_iff_toNat_le] at hends hempty
          omega
        · rw [UInt64.lt_iff_toNat_lt]
          simp only [UInt64.le_iff_toNat_le] at hends hempty
          omega
      · exact ha

theorem regions_add_segment (process : Process) (start size : UInt64) (prot flags : UInt32) :
    (process.process_add_segment start size prot flags).Shmem_regions =
      process.Shmem_regions := by
  unfold Process.process_add_segment
  dsimp only
  split <;> rfl

theorem TB_add_segment (process : Process) (start size : UInt64) (prot flags : UInt32) :
    (process.process_add_segment start size prot flags).TB = process.TB := by
  unfold Process.process_add_segment
  dsimp only
  split <;> rfl

theorem Sound.shmat (h : s.Sound) {pid : Nat} {shmid : Int} {addr : UInt64} {fresh : Nat}
    (hlegal : s.Legal (.shmat pid shmid addr fresh))
    (hexec : s.exec (.shmat pid shmid addr fresh) = some t) : t.Sound := by
  cases attached_of_exec hexec with
  | same => exact h
  | @full i unsp hi hinuse =>
      have h1 := h.allocated hinuse (hlegal i hi).1
      exact h1.withRegions rfl (fun _ hr => hr) (h1.whole pid) (h1.attached pid) (h1.apart pid)
        (h1.shared pid) (fun _ hr _ _ _ _ => hr)
  | @attached i unsp hi hinuse hsize =>
      obtain ⟨hfresh, hfree⟩ := hlegal i hi
      have h1 := h.allocated hinuse hfresh
      generalize hat : attachAddr (s.process pid) addr = start at hfree
      have hstart : start.toNat % 65536 = 0 := hat ▸ attachAddr_aligned _ _
      have hsize' := aligned_of_roundDown hsize
      have hr : Shm_ds.Whole ⟨i, (s.Shmseg i).attachSize, start⟩ := ⟨hstart, hsize', hfree.bound⟩
      have hpaddr : ((s.allocated i fresh).Shmseg i).paddr ≠ 0 := by
        rw [Shmseg_allocated]
        dsimp only
        split
        · rename_i hnull
          exact (hfresh hnull).notNull
        · assumption
      have hattached : ((s.allocated i fresh).Shmseg i).attachSize = (s.Shmseg i).attachSize := by
        rw [Shmseg_allocated]
        rfl
      apply h1.withRegions
      · exact TB_add_segment ..
      · intro r hr
        rw [regions_add_segment]
        exact List.mem_cons_of_mem _ hr
      · rw [regions_add_segment]
        intro r hmem
        rcases List.mem_cons.mp hmem with rfl | hold
        · exact hr
        · exact h.whole pid r hold
      · rw [regions_add_segment]
        intro r hmem
        rcases List.mem_cons.mp hmem with rfl | hold
        · exact ⟨hpaddr, hattached.symm⟩
        · exact h1.attached pid r hold
      · rw [regions_add_segment]
        intro r hmem r' hmem' a ha ha'
        rcases List.mem_cons.mp hmem with rfl | hold <;>
          rcases List.mem_cons.mp hmem' with rfl | hold'
        · rfl
        · obtain ⟨hlo, hhi⟩ := hr.between ha
          rw [hfree.region a hlo hhi r' hold'] at ha'
          cases ha'
        · obtain ⟨hlo, hhi⟩ := hr.between ha'
          rw [hfree.region a hlo hhi r hold] at ha
          cases ha
        · exact h.apart pid r hold r' hold' a ha ha'
      · rw [regions_add_segment]
        intro r hmem segment hsegment a ha hsa
        rcases mem_add_segment hsegment hstart hsize' hfree.bound hfree.segment with
          ⟨old, hold, hflags, hreach⟩ | ⟨hflags, hlo, hhi⟩
        · rw [← hflags]
          rcases List.mem_cons.mp hmem with rfl | hr'
          · obtain ⟨hlo, hhi⟩ := hr.between ha
            have hin := hreach a hsa
            rw [hfree.segment a hlo hhi old hold] at hin
            cases hin
          · exact h.shared pid r hr' old hold a ha (hreach a hsa)
        · rw [hflags]
          decide
      · rw [regions_add_segment]
        intro r hmem a page ha hmaps
        rcases List.mem_cons.mp hmem with rfl | hold
        · obtain ⟨hlo, hhi⟩ := hr.between ha
          exact absurd hmaps (hfree.untouched a hlo hhi page)
        · exact hold

end AddrSpaces

end AsimFeeder.Aint
