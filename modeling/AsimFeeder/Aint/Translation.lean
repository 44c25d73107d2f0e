/-
What AINT's address spaces map, and when they map shared memory where it is.

A lookup keeps every entry and makes one for a page that had none.  A page of an attached
region gets the memory of the shared segment only if it is first touched in its first
8 KB: the miss handler clears the offset in pages of that size, while entries are for
pages of 64 KB.  Touched higher, the page is shifted for good.
-/
import AsimFeeder.Aint.SharedSegments

namespace AsimFeeder.Aint

open Lib

namespace AddrSpaces

variable {s t : AddrSpaces}

/-! ### Looking up -/

/-- What the memory of a page has to be when its entry is made. -/
structure PageFor (s : AddrSpaces) (pid : Nat) (v : Int) (page : Nat) : Prop where
  aligned : page % 65536 = 0
  notNull : page ≠ 0
  shared : ∀ r ∈ (s.process pid).Shmem_regions, ∀ a, TB_VPAGE a = v → r.contains a = true →
    page + TB_OFFSET a = (s.Shmseg r.shmid).paddr + (a.toNat - r.addr.toNat)
  private' : s.Private pid v → ∀ z, page ≤ z → z < page + 65536 → ¬ s.InUse z

/-- The state after the chain for `key` has changed. -/
def withChain (s : AddrSpaces) (pid key : Nat) (chain : Chain Int Mapping) : AddrSpaces :=
  s.setProcess pid { s.process pid with TB := Function.update (s.process pid).TB key chain }

theorem TB_withChain_self (s : AddrSpaces) (pid key : Nat) (chain : Chain Int Mapping) :
    ((s.withChain pid key chain).process pid).TB key = chain := by
  unfold withChain
  rw [setProcess_self]
  exact Function.update_self ..

theorem TB_withChain_of_ne {pid key pid' key' : Nat} {chain : Chain Int Mapping}
    (h : pid' ≠ pid ∨ key' ≠ key) :
    ((s.withChain pid key chain).process pid').TB key' = (s.process pid').TB key' := by
  unfold withChain
  by_cases hpid : pid' = pid
  · subst hpid
    rw [setProcess_self]
    exact Function.update_of_ne (h.resolve_left (not_not.mpr rfl)) ..
  · rw [setProcess_of_ne hpid]

theorem regions_withChain (s : AddrSpaces) (pid key pid' : Nat) (chain : Chain Int Mapping) :
    ((s.withChain pid key chain).process pid').Shmem_regions =
      (s.process pid').Shmem_regions := by
  unfold withChain
  by_cases hpid : pid' = pid
  · subst hpid
    rw [setProcess_self]
  · rw [setProcess_of_ne hpid]

theorem segments_withChain (s : AddrSpaces) (pid key pid' : Nat) (chain : Chain Int Mapping) :
    ((s.withChain pid key chain).process pid').segments = (s.process pid').segments := by
  unfold withChain
  by_cases hpid : pid' = pid
  · subst hpid
    rw [setProcess_self]
  · rw [setProcess_of_ne hpid]

theorem private_withChain {pid key pid' : Nat} {chain : Chain Int Mapping} {v : Int} :
    (s.withChain pid key chain).Private pid' v ↔ s.Private pid' v := by
  unfold Private
  rw [regions_withChain]

/-- **A lookup keeps every entry, and makes at most one for a page that had none.** -/
theorem Sound.withChain (h : s.Sound) {pid key : Nat} {chain : Chain Int Mapping} {v₀ : Int}
    (haimed : chain.Aimed)
    (hkept : ∀ tag pg, ((s.process pid).TB key).Maps tag pg → chain.Maps tag pg)
    (hnew : ∀ v page flags prot, TB_KEY v = key → chain.Maps (TB_TAG v) ⟨page, flags, prot⟩ →
      s.Maps pid v page ∨ v = v₀ ∧ s.PageFor pid v₀ page) :
    (s.withChain pid key chain).Sound := by
  have hold : ∀ {pid' v page}, s.Maps pid' v page →
      (s.withChain pid key chain).Maps pid' v page := by
    rintro pid' v page ⟨flags, prot, hmaps⟩
    refine ⟨flags, prot, ?_⟩
    by_cases hat : pid' = pid ∧ TB_KEY v = key
    · obtain ⟨rfl, rfl⟩ := hat
      rw [TB_withChain_self]
      exact hkept _ _ hmaps
    · rw [TB_withChain_of_ne (by tauto)]
      exact hmaps
  have hcases : ∀ {pid' v page}, (s.withChain pid key chain).Maps pid' v page →
      s.Maps pid' v page ∨ pid' = pid ∧ v = v₀ ∧ s.PageFor pid v₀ page := by
    rintro pid' v page ⟨flags, prot, hmaps⟩
    by_cases hat : pid' = pid ∧ TB_KEY v = key
    · obtain ⟨rfl, rfl⟩ := hat
      rw [TB_withChain_self] at hmaps
      rcases hnew v page flags prot rfl hmaps with hs | ⟨hv, hpage⟩
      · exact .inl hs
      · exact .inr ⟨rfl, hv, hpage⟩
    · rw [TB_withChain_of_ne (by tauto)] at hmaps
      exact .inl ⟨flags, prot, hmaps⟩
  exact {
    aimed := by
      intro pid' k
      by_cases hat : pid' = pid ∧ k = key
      · obtain ⟨rfl, rfl⟩ := hat
        rw [TB_withChain_self]
        exact haimed
      · rw [TB_withChain_of_ne (by tauto)]
        exact h.aimed pid' k
    whole := fun pid' => by rw [regions_withChain]; exact h.whole pid'
    attached := fun pid' => by rw [regions_withChain]; exact h.attached pid'
    apart := fun pid' => by rw [regions_withChain]; exact h.apart pid'
    shared := fun pid' => by rw [regions_withChain, segments_withChain]; exact h.shared pid'
    paddr := h.paddr
    inuse := h.inuse
    page := by
      intro pid' v page hmaps
      rcases hcases hmaps with hs | ⟨-, -, hpage⟩
      · exact h.page pid' v page hs
      · exact ⟨hpage.aligned, hpage.notNull⟩
    sharedPage := by
      intro pid' v page hmaps
      rw [regions_withChain]
      rcases hcases hmaps with hs | ⟨rfl, rfl, hpage⟩
      · exact h.sharedPage pid' v page hs
      · exact hpage.shared
    privatePage := by
      intro pid' v pid'' v' page hm hm' hp hp'
      rw [private_withChain] at hp hp'
      rcases hcases hm with hs | ⟨rfl, rfl, hpage⟩ <;>
        rcases hcases hm' with hs' | ⟨rfl, rfl, hpage'⟩
      · exact h.privatePage pid' v pid'' v' page hs hs' hp hp'
      · exact absurd (.inl ⟨pid', v, page, hs, Nat.le_refl _, by omega⟩)
          (hpage'.private' hp' page (Nat.le_refl _) (by omega))
      · exact absurd (.inl ⟨pid'', v', page, hs', Nat.le_refl _, by omega⟩)
          (hpage.private' hp page (Nat.le_refl _) (by omega))
      · exact ⟨rfl, rfl⟩
    privateShm := by
      intro pid' v page hm hp i z hz hle hlt
      rw [private_withChain] at hp
      rcases hcases hm with hs | ⟨rfl, rfl, hpage⟩
      · exact h.privateShm pid' v page hs hp i z hz hle hlt
      · exact hpage.private' hp z hle hlt (.inr ⟨i, hz⟩)
    log := by
      intro e he
      obtain ⟨page, hmaps, hphys⟩ := h.log e he
      exact ⟨page, hold hmaps, hphys⟩ }

/-- Logging a translation by its entry. -/
theorem Sound.logged (h : s.Sound) {pid page : Nat} {addr : UInt64}
    (hmaps : s.Maps pid (TB_VPAGE addr) page) :
    Sound { s with log := (pid, addr, page + TB_OFFSET addr) :: s.log } :=
  { h with
    log := by
      intro e he
      rcases List.mem_cons.mp he with rfl | hold
      · exact ⟨page, hmaps, rfl⟩
      · exact h.log e hold }

/-- The memory of a new page that no region has is new. -/
theorem newMapping_private {pid : Nat} {addr : UInt64} {fresh : Nat} {segment : Segment}
    (h : ∀ r ∈ (s.process pid).Shmem_regions, ¬ r.contains addr = true) :
    ((s.process pid).newMapping s.Shmseg addr segment fresh).page = fresh := by
  have hfind : (s.process pid).Shmem_regions.find? (·.contains addr) = none :=
    List.find?_eq_none.mpr h
  unfold Process.newMapping Process.sharedPage
  dsimp only
  rw [hfind, ite_self, if_pos rfl]

/-- The memory of a new page in a region: the offset is cleared in pages of 8 KB. -/
theorem Sound.newMapping_shared (h : s.Sound) {pid : Nat} {addr : UInt64} (fresh : Nat)
    {segment : Segment} {r : Shm_ds} (hr : r ∈ (s.process pid).Shmem_regions)
    (hin : r.contains addr = true)
    (hsegment : (s.process pid).process_find_segment addr = some segment) :
    ((s.process pid).newMapping s.Shmseg addr segment fresh).page =
      (s.Shmseg r.shmid).paddr + (addr.toNat - addr.toNat % 8192 - r.addr.toNat) := by
  have hsa : segment_contains segment addr = true := by
    have := List.find?_some hsegment
    exact this
  have hflags := h.shared pid r hr segment (List.mem_of_find?_eq_some hsegment) addr hin hsa
  have hpaddr := (h.attached pid r hr).1
  have hraddr := (h.whole pid r hr).addr
  have hbounds := (h.whole pid r hr).contains_iff.mp hin
  have hle : r.addr ≤ pageaddr addr := by
    rw [UInt64.le_iff_toNat_le, toNat_pageaddr]
    omega
  have hfind : (s.process pid).Shmem_regions.find? (·.contains addr) = some r := by
    cases hfind : (s.process pid).Shmem_regions.find? (·.contains addr) with
    | none => exact absurd hin (List.find?_eq_none.mp hfind r hr)
    | some r' =>
        have hin' := List.find?_some hfind
        rw [h.apart pid r' (List.mem_of_find?_eq_some hfind) r hr addr hin' hin]
  unfold Process.newMapping Process.sharedPage
  dsimp only
  rw [hfind, if_pos hflags]
  dsimp only
  rw [if_neg (by omega), UInt64.toNat_sub_of_le _ _ hle, toNat_pageaddr]

/-- A page of a region that is first touched low, or a page of no region, gets its memory. -/
theorem Sound.pageFor (h : s.Sound) {pid : Nat} {addr : UInt64} {fresh : Nat} {segment : Segment}
    (hfresh : s.Fresh fresh 65536)
    (hsegment : (s.process pid).process_find_segment addr = some segment)
    (hlow : (∃ r ∈ (s.process pid).Shmem_regions, r.contains addr = true) →
      TB_OFFSET addr < M_ALIGN.toNat) :
    s.PageFor pid (TB_VPAGE addr)
      ((s.process pid).newMapping s.Shmseg addr segment fresh).page := by
  by_cases hregion : ∃ r ∈ (s.process pid).Shmem_regions, r.contains addr = true
  · obtain ⟨r, hr, hin⟩ := hregion
    have hoff : addr.toNat % 65536 < 8192 := hlow ⟨r, hr, hin⟩
    have hwhole := h.whole pid r hr
    have hpaddr := (h.attached pid r hr).1
    have haligned := h.paddr r.shmid
    have hraddr := hwhole.addr
    have hbounds := hwhole.contains_iff.mp hin
    -- within the first 8 KB both masks clear the same bits
    have hlowbits : addr.toNat % 8192 = addr.toNat % 65536 := by omega
    rw [h.newMapping_shared fresh hr hin hsegment, hlowbits]
    exact {
      aligned := by omega
      notNull := by omega
      shared := by
        intro r' hr' a hv ha
        have heq := h.apart pid r' hr' r hr addr ((h.whole pid r' hr').contains_page hv ha) hin
        subst heq
        have hpage := vpage_eq_iff.mp hv
        have ha' := hwhole.contains_iff.mp ha
        unfold TB_OFFSET
        omega
      private' := by
        intro hpriv
        have hout := hpriv r hr addr rfl
        rw [hin] at hout
        cases hout }
  · have hnone : ∀ r ∈ (s.process pid).Shmem_regions, ∀ a, TB_VPAGE a = TB_VPAGE addr →
        ¬ r.contains a = true :=
      fun r hr a hv ha => hregion ⟨r, hr, (h.whole pid r hr).contains_page hv ha⟩
    rw [newMapping_private fun r hr => hnone r hr addr rfl]
    exact {
      aligned := hfresh.aligned
      notNull := hfresh.notNull
      shared := fun r hr a hv ha => absurd ha (hnone r hr a hv)
      private' := fun _ => hfresh.free }

theorem Sound.addr2phys (h : s.Sound) {pid : Nat} {addr : UInt64} {fresh : Nat}
    (hlegal : s.Legal (.addr2phys pid addr fresh))
    (hlow : s.TouchedLow (.addr2phys pid addr fresh))
    (hexec : s.exec (.addr2phys pid addr fresh) = some t) : t.Sound := by
  obtain ⟨r, hlookup, hlooked⟩ := Process.tlb_lookup_looked s.Shmseg
    (h.aimed pid (TB_KEY (TB_VPAGE addr))) hlegal.notNull
  unfold exec Process.addr2phys at hexec
  dsimp only at hexec
  rw [hlookup] at hexec
  cases hlooked with
  | none hsegment =>
      cases hexec
      unfold setProcess
      rw [Function.update_eq_self]
      exact h
  | @hit pg chain hpg haimed hsame =>
      have ht : (s.withChain pid (TB_KEY (TB_VPAGE addr)) chain).Sound := by
        apply h.withChain haimed fun tag pg => (hsame tag pg).mpr
        · intro v page flags prot hv hm
          refine .inl ⟨flags, prot, ?_⟩
          rw [hv]
          exact (hsame _ _).mp hm
        · exact 0
      have hmaps : (s.withChain pid (TB_KEY (TB_VPAGE addr)) chain).Maps pid (TB_VPAGE addr)
          pg.page := by
        refine ⟨pg.flags, pg.prot, ?_⟩
        rw [TB_withChain_self]
        exact (hsame _ _).mpr hpg
      have hne := (ht.page _ _ _ hmaps).2
      dsimp only at hexec
      rw [if_neg (by omega)] at hexec
      cases hexec
      exact ht.logged hmaps
  | @filled segment hsegment hnew =>
      have hpage := h.pageFor hlegal hsegment fun hregion => hlow hregion fun page => by
        rintro ⟨flags, prot, hm⟩
        exact hnew _ hm
      revert hpage hexec
      generalize (s.process pid).newMapping s.Shmseg addr segment fresh = pg
      intro hexec hpage
      generalize hchain : ((s.process pid).TB (TB_KEY (TB_VPAGE addr))).push
        (TB_TAG (TB_VPAGE addr)) pg = chain at hexec
      have hmapped : ∀ tag m, chain.Maps tag m ↔ (tag = TB_TAG (TB_VPAGE addr) ∧ m = pg) ∨
          ((s.process pid).TB (TB_KEY (TB_VPAGE addr))).Maps tag m := by
        intro tag m
        rw [← hchain]
        exact Chain.maps_push
      have ht : (s.withChain pid (TB_KEY (TB_VPAGE addr)) chain).Sound := by
        apply h.withChain (hchain ▸ (h.aimed pid _).push hnew pg)
        · intro tag m hm
          exact (hmapped tag m).mpr (.inr hm)
        · intro v page flags prot hv hm
          rcases (hmapped _ _).mp hm with ⟨htag, hpg⟩ | hold
          · refine .inr ⟨vpage_inj hv htag, ?_⟩
            rw [← hpg] at hpage
            exact hpage
          · refine .inl ⟨flags, prot, ?_⟩
            rw [hv]
            exact hold
      have hmaps : (s.withChain pid (TB_KEY (TB_VPAGE addr)) chain).Maps pid (TB_VPAGE addr)
          pg.page := by
        refine ⟨pg.flags, pg.prot, ?_⟩
        rw [TB_withChain_self]
        exact (hmapped _ _).mpr (.inl ⟨rfl, rfl⟩)
      have hne := hpage.notNull
      dsimp only at hexec
      rw [if_neg (by omega)] at hexec
      cases hexec
      exact ht.logged hmaps

theorem Sound.exec (h : s.Sound) {e : MemEvent} (hlegal : s.Legal e) (hlow : s.TouchedLow e)
    (hexec : s.exec e = some t) : t.Sound := by
  cases e with
  | shmget key size flags => exact h.shmget hexec
  | shmat pid shmid addr fresh => exact h.shmat hlegal hexec
  | addr2phys pid addr fresh => exact h.addr2phys hlegal hlow hexec

theorem sound_of_reaches (h : Reaches Start LowStep s) : s.Sound :=
  h.invariant (fun _ => sound_start) fun _ _ hs ⟨_, hlegal, hlow, hexec⟩ =>
    hs.exec hlegal hlow hexec

/-! ### The map -/

/-- What has been translated fits one map of whole pages, with shared memory where it is. -/
structure Coherent (s : AddrSpaces) : Prop where
  same : ∀ pid addr phys phys', (pid, addr, phys) ∈ s.log → (pid, addr, phys') ∈ s.log →
    phys = phys'
  offset : ∀ pid addr phys, (pid, addr, phys) ∈ s.log → phys % 65536 = TB_OFFSET addr
  onePage : ∀ pid addr addr' phys phys', (pid, addr, phys) ∈ s.log → (pid, addr', phys') ∈ s.log →
    TB_VPAGE addr = TB_VPAGE addr' → phys / 65536 = phys' / 65536
  apart : ∀ pid pid' addr addr' phys phys', (pid, addr, phys) ∈ s.log →
    (pid', addr', phys') ∈ s.log → s.Private pid (TB_VPAGE addr) →
    s.Private pid' (TB_VPAGE addr') → (pid, TB_VPAGE addr) ≠ (pid', TB_VPAGE addr') →
    phys / 65536 ≠ phys' / 65536
  notShared : ∀ pid addr phys, (pid, addr, phys) ∈ s.log → s.Private pid (TB_VPAGE addr) →
    ∀ i z, s.InShm i z → z / 65536 ≠ phys / 65536
  shared : ∀ pid addr phys, (pid, addr, phys) ∈ s.log →
    ∀ r ∈ (s.process pid).Shmem_regions, r.contains addr = true →
      phys = (s.Shmseg r.shmid).paddr + (addr.toNat - r.addr.toNat)

/-- A page has one entry. -/
theorem Sound.maps_inj (h : s.Sound) {pid : Nat} {v : Int} {x y : Nat} (hx : s.Maps pid v x)
    (hy : s.Maps pid v y) : x = y := by
  obtain ⟨flags, prot, hx⟩ := hx
  obtain ⟨flags', prot', hy⟩ := hy
  have heq := (h.aimed pid (TB_KEY v)).maps_inj hx hy
  cases heq
  rfl

/-- What was translated, by its entry. -/
theorem Sound.of_log (h : s.Sound) {pid phys : Nat} {addr : UInt64}
    (hmem : (pid, addr, phys) ∈ s.log) :
    ∃ page, s.Maps pid (TB_VPAGE addr) page ∧ page % 65536 = 0 ∧
      phys = page + TB_OFFSET addr ∧ phys / 65536 = page / 65536 := by
  obtain ⟨page, hmaps, hphys⟩ := h.log _ hmem
  dsimp only at hmaps hphys
  have haligned := (h.page _ _ _ hmaps).1
  refine ⟨page, hmaps, haligned, hphys, ?_⟩
  unfold TB_OFFSET at hphys
  omega

theorem Sound.coherent (h : s.Sound) : s.Coherent where
  same pid addr phys phys' hmem hmem' := by
    obtain ⟨page, hmaps, -, hphys, -⟩ := h.of_log hmem
    obtain ⟨page', hmaps', -, hphys', -⟩ := h.of_log hmem'
    rw [hphys, hphys', h.maps_inj hmaps hmaps']
  offset pid addr phys hmem := by
    obtain ⟨page, -, haligned, hphys, -⟩ := h.of_log hmem
    unfold TB_OFFSET at *
    omega
  onePage pid addr addr' phys phys' hmem hmem' hv := by
    obtain ⟨page, hmaps, -, -, hpage⟩ := h.of_log hmem
    obtain ⟨page', hmaps', -, -, hpage'⟩ := h.of_log hmem'
    rw [← hv] at hmaps'
    rw [hpage, hpage', h.maps_inj hmaps hmaps']
  apart pid pid' addr addr' phys phys' hmem hmem' hp hp' hne heq := by
    obtain ⟨page, hmaps, haligned, -, hpage⟩ := h.of_log hmem
    obtain ⟨page', hmaps', haligned', -, hpage'⟩ := h.of_log hmem'
    obtain rfl : page = page' := by omega
    obtain ⟨rfl, hv⟩ := h.privatePage _ _ _ _ _ hmaps hmaps' hp hp'
    exact hne (by rw [hv])
  notShared pid addr phys hmem hp i z hz heq := by
    obtain ⟨page, hmaps, haligned, -, hpage⟩ := h.of_log hmem
    exact h.privateShm _ _ _ hmaps hp i z hz (by omega) (by omega)
  shared pid addr phys hmem r hr hin := by
    obtain ⟨page, hmaps, -, hphys, -⟩ := h.of_log hmem
    rw [hphys]
    exact h.sharedPage _ _ _ hmaps r hr addr rfl hin

/--
**As long as the pages of regions are first touched low, what is translated fits one map,
and no lookup aborts.**
-/
theorem coherent_of_touchedLow (h : Reaches Start LowStep s) :
    s.Coherent ∧ ∀ pid addr fresh, fresh ≠ 0 →
      ∃ r, (s.process pid).tlb_lookup s.Shmseg addr fresh = .ok r := by
  have hs := sound_of_reaches h
  refine ⟨hs.coherent, fun pid addr fresh hfresh => ?_⟩
  obtain ⟨r, hlookup, -⟩ := Process.tlb_lookup_looked s.Shmseg
    (hs.aimed pid (TB_KEY (TB_VPAGE addr))) hfresh
  exact ⟨r, hlookup⟩

/-- A page of a region that is first touched higher is shifted at once. -/
theorem not_coherent_of_touchedHigh (h : s.Sound) {e : MemEvent} (hlegal : s.Legal e)
    (hhigh : ¬ s.TouchedLow e) (hexec : s.exec e = some t)
    (hsegment : ∀ pid addr fresh, e = .addr2phys pid addr fresh →
      ((s.process pid).process_find_segment addr).isSome = true) : ¬ t.Coherent := by
  cases e with
  | shmget key size flags => exact absurd trivial hhigh
  | shmat pid shmid addr fresh => exact absurd trivial hhigh
  | addr2phys pid addr fresh =>
      intro hcoherent
      unfold TouchedLow at hhigh
      push Not at hhigh
      obtain ⟨⟨r, hr, hin⟩, hnew, hoff⟩ := hhigh
      obtain ⟨looked, hlookup, hlooked⟩ := Process.tlb_lookup_looked s.Shmseg
        (h.aimed pid (TB_KEY (TB_VPAGE addr))) hlegal.notNull
      unfold exec Process.addr2phys at hexec
      dsimp only at hexec
      rw [hlookup] at hexec
      cases hlooked with
      | none hnone =>
          have hsome := hsegment pid addr fresh rfl
          rw [hnone] at hsome
          cases hsome
      | @hit pg chain hpg => exact hnew pg.page ⟨pg.flags, pg.prot, hpg⟩
      | @filled segment hfind =>
          have hpage := h.newMapping_shared fresh hr hin hfind
          have hpaddr := (h.attached pid r hr).1
          have hbounds := (h.whole pid r hr).contains_iff.mp hin
          have hraddr := (h.whole pid r hr).addr
          dsimp only at hexec
          rw [if_neg (by omega)] at hexec
          cases hexec
          have hregions (chain : Chain Int Mapping) :
              r ∈ ((s.withChain pid (TB_KEY (TB_VPAGE addr)) chain).process pid).Shmem_regions := by
            rw [regions_withChain]
            exact hr
          have hat : _ + TB_OFFSET addr = (s.Shmseg r.shmid).paddr + (addr.toNat - r.addr.toNat) :=
            hcoherent.shared pid addr _ List.mem_cons_self r (hregions _) hin
          have hoff' : 8192 ≤ addr.toNat % 65536 := hoff
          rw [hpage] at hat
          unfold TB_OFFSET at hat
          omega

/-! ### A page that is shifted -/

/-- No process has touched or attached anything. -/
def untouched : AddrSpaces where
  Shmseg := fun _ => ⟨false, 0, 0, 0⟩
  Shmem_start := 0x10000
  Shmem_end := 0x10000
  Shmem_size := 0x40000000
  UNSP_SHMAT_END := 0x40010000
  process := fun _ => ⟨fun _ => [], [], 0x10000, []⟩
  log := []

/-- One page is shared, and process 0 has attached it. -/
def attachedPage : AddrSpaces :=
  { untouched with
    Shmseg := Function.update (Function.update untouched.Shmseg 0 ⟨true, 0, 0, 65536⟩) 0
      ⟨true, 0, 0xa0000, 65536⟩
    Shmem_end := 0x20000
    process := Function.update untouched.process 0
      ⟨fun _ => [], [⟨0, 65536, 0x100000⟩], 0x10000, [⟨0x100000, 0x10ffff, 3, 1⟩]⟩ }

theorem not_maps_of_empty (h : ∀ pid k, (s.process pid).TB k = []) (pid : Nat) (v : Int)
    (page : Nat) : ¬ s.Maps pid v page := by
  rintro ⟨flags, prot, cell, hcell, -⟩
  rw [h] at hcell
  cases hcell

theorem reaches_attachedPage : Reaches Start LowStep attachedPage := by
  have hstart : untouched.Start := ⟨fun _ _ => rfl, fun _ => rfl, fun _ => ⟨rfl, rfl⟩, rfl⟩
  refine ((Reaches.start hstart).step ⟨.shmget 0 65536 0, trivial, trivial, rfl⟩).step
    ⟨.shmat 0 0 0x100000 0xa0000, ?_, trivial, rfl⟩
  intro i hi
  obtain rfl : i = 0 := Fin.ext (by simpa using hi)
  refine ⟨fun _ => ⟨rfl, by decide, ?_⟩,
    ⟨by decide, fun _ _ _ r hr => ?_, fun _ _ _ r hr => ?_, ?_⟩⟩
  · rintro z - - (⟨pid, v, page, hmaps, -⟩ | ⟨i, hi, -⟩)
    · exact not_maps_of_empty (fun _ _ => rfl) pid v page hmaps
    · apply hi
      by_cases h0 : i = 0
      · rw [h0]
        rfl
      · show (Function.update untouched.Shmseg 0 (⟨true, 0, 0, 65536⟩ : Sysv_shm) i).paddr = 0
        rw [Function.update_of_ne h0]
        rfl
  · cases hr
  · cases hr
  · intro a _ _ page
    exact not_maps_of_empty (fun _ _ => rfl) 0 _ page

theorem legal_attachedPage (addr : UInt64) :
    attachedPage.Legal (.addr2phys 0 addr 0x640000) := by
  have hTB : ∀ pid k, (attachedPage.process pid).TB k = [] := by
    intro pid k
    by_cases hpid : pid = 0
    · rw [hpid]
      rfl
    · unfold attachedPage
      dsimp only
      rw [Function.update_of_ne hpid]
      rfl
  refine ⟨by decide, by decide, ?_⟩
  rintro z hlo hhi (⟨pid, v, page, hmaps, -⟩ | ⟨i, hi, hle, hlt⟩)
  · exact not_maps_of_empty hTB pid v page hmaps
  · by_cases h0 : i = 0
    · subst h0
      have hend : z < 0xa0000 + 65536 := hlt
      omega
    · apply hi
      unfold attachedPage
      dsimp only
      rw [Function.update_of_ne h0, Function.update_of_ne h0]
      rfl

/-- The shared page, touched 16 bytes from its start. -/
theorem coherent_of_touchedLow_page : ∃ s : AddrSpaces, s.log = [(0, 0x100010, 0xa0010)] ∧
    s.Coherent := by
  have hlegal := legal_attachedPage 0x100010
  have hs := reaches_attachedPage.step
    ⟨.addr2phys 0 0x100010 0x640000, hlegal, fun _ _ => by decide, rfl⟩
  exact ⟨_, rfl, (coherent_of_touchedLow hs).1⟩

/-- The shared page, touched 8 KB from its start: the translation is 16 KB from it. -/
theorem not_always_coherent : ¬ ∀ s : AddrSpaces, Reaches Start Step s → s.Coherent := by
  intro h
  have hreach : Reaches Start Step attachedPage := by
    apply reaches_attachedPage.invariant (P := Reaches Start Step)
    · exact fun s hs => .start hs
    · exact fun s t hs ⟨e, hlegal, _, hexec⟩ => hs.step ⟨e, hlegal, hexec⟩
  have hs := h _ (hreach.step ⟨.addr2phys 0 0x102000 0x640000, legal_attachedPage _, rfl⟩)
  have hat := hs.shared 0 0x102000 _ List.mem_cons_self ⟨0, 65536, 0x100000⟩
    List.mem_cons_self rfl
  exact absurd hat (by decide)

end AddrSpaces

end AsimFeeder.Aint
