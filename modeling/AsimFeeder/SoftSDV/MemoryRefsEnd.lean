/-
Regions and the end of the address space.

Whatever the records are, a region that `NoteMemoryRefs` ends with has a page and less than
4096 bytes.  `PTranslate` compares ends that wrapped, so of a region that reaches the end of
the address space it refuses every byte but the last: the regions are not exact for a record
that has the last byte and another one.
-/
import AsimFeeder.SoftSDV.MemoryRefsRegions

namespace AsimFeeder.SoftSDV

open AsimFeeder.Lib MemAccess

/-- A region that has a page, and a size that `SetSize` accepts. -/
structure Sized (r : MemAccess) : Prop where
  pos : 0 < r.nPages
  small : r.nBytes < 4096

variable {p : NoteParams} {src : MemRefSource} {a : Access} {r r' : MemAccess}
  {l l' : List MemAccess} {list : List Access} {mem mem' : MemRefs} {refData : Nat → UInt8}
  {va : BitVec 64}

/-! ### The first pass -/

theorem Sized.rebased {pa : BitVec 64} {n : Nat} {g r' : MemAccess}
    (hpa : (r.setVA va).setPA pa 0 = .ok g) (hsize : g.setSize n = .ok r') : Sized r' := by
  obtain ⟨hn, -, hbytes, -, hpages, -⟩ := MemAccess.rebased hpa hsize
  refine ⟨?_, by rw [hbytes]; exact hn⟩
  rw [hpages]
  split <;> omega

/-- A region that takes a record has a page then, and one that does not is left as it was. -/
theorem mergeRefs_sized {res : Bool × MemAccess} (h : r.nBytes = 0 ∨ Sized r)
    (hok : mergeRefs a r src = .ok res) :
    res.1 = true ∧ Sized res.2 ∨ res = (false, r) := by
  unfold mergeRefs at hok
  dsimp only at hok
  split at hok
  · cases hok
    exact .inr rfl
  split at hok
  · obtain ⟨g, hpa, hok⟩ := bind_eq_ok hok
    obtain ⟨g', hsize, hok⟩ := bind_eq_ok hok
    cases hok
    exact .inl ⟨rfl, .rebased hpa hsize⟩
  next hbytes =>
  have hr : Sized r := h.resolve_left hbytes
  split at hok
  · split at hok
    · obtain ⟨g, hsize, hok⟩ := bind_eq_ok hok
      cases hok
      obtain ⟨hn, rfl⟩ := setSize_ok hsize
      exact .inl ⟨rfl, hr.pos, hn⟩
    · cases hok
      exact .inl ⟨rfl, hr⟩
  split at hok
  · obtain ⟨g, hpa, hok⟩ := bind_eq_ok hok
    obtain ⟨g', hsize, hok⟩ := bind_eq_ok hok
    cases hok
    exact .inl ⟨rfl, .rebased hpa hsize⟩
  split at hok
  · obtain ⟨g, hpa, hok⟩ := bind_eq_ok hok
    obtain ⟨g', hsize, hok⟩ := bind_eq_ok hok
    cases hok
    exact .inl ⟨rfl, .rebased hpa hsize⟩
  · cases hok
    exact .inr rfl

/-- A new region takes the record. -/
theorem mergeRefs_new {g : MemAccess} {res : Bool × MemAccess}
    (hg : MemAccess.activate src = .ok g) (hok : mergeRefs a g src = .ok res) :
    res.1 = true ∧ Sized res.2 := by
  have hgeq : g = { MemAccess.new with refSource := src } := (Except.ok.inj hg).symm
  subst hgeq
  rcases mergeRefs_sized (.inl rfl) hok with hres | rfl
  · exact hres
  · unfold mergeRefs at hok
    simp only [MemAccess.new, Bool.false_eq_true, ne_eq, not_true_eq_false, or_self, if_false,
      if_true] at hok
    obtain ⟨g, -, hok⟩ := bind_eq_ok hok
    obtain ⟨g', -, hok⟩ := bind_eq_ok hok
    cases hok

theorem noteLoad_sized {slots : Nat} (hl : ∀ r ∈ l, Sized r)
    (hok : noteLoad src a slots l = .ok l') : ∀ r ∈ l', Sized r := by
  induction slots generalizing l l' with
  | zero => cases hok
  | succ slots ih =>
      cases l with
      | nil =>
          unfold noteLoad at hok
          obtain ⟨g, hg, hok⟩ := bind_eq_ok hok
          obtain ⟨⟨merged, ref⟩, hmerge, hok⟩ := bind_eq_ok hok
          obtain ⟨hmerged, hsized⟩ := mergeRefs_new hg hmerge
          dsimp only at hmerged hsized hok
          rw [if_pos hmerged] at hok
          cases hok
          intro r hr
          rw [List.mem_singleton.mp hr]
          exact hsized
      | cons r l =>
          obtain ⟨hr, hrest⟩ := List.forall_mem_cons.mp hl
          unfold noteLoad at hok
          obtain ⟨⟨merged, ref⟩, hmerge, hok⟩ := bind_eq_ok hok
          dsimp only at hok
          rcases mergeRefs_sized (.inr hr) hmerge with ⟨hmerged, hsized⟩ | hsame
          · dsimp only at hmerged
            rw [if_pos hmerged] at hok
            cases hok
            exact List.forall_mem_cons.mpr ⟨hsized, hrest⟩
          · cases hsame
            rw [if_neg Bool.false_ne_true] at hok
            obtain ⟨rest, hnote, rfl⟩ := map_eq_ok hok
            exact List.forall_mem_cons.mpr ⟨hr, ih hrest hnote⟩

theorem noteStore_sized (hl : ∀ r ∈ l, Sized r) (hok : noteStore src a l = .ok l') :
    ∀ r ∈ l', Sized r := by
  cases l with
  | nil =>
      unfold noteStore at hok
      obtain ⟨g, hg, hok⟩ := bind_eq_ok hok
      obtain ⟨⟨merged, ref⟩, hmerge, hok⟩ := bind_eq_ok hok
      obtain ⟨hmerged, hsized⟩ := mergeRefs_new hg hmerge
      dsimp only at hmerged hsized hok
      rw [if_pos hmerged] at hok
      cases hok
      intro r hr
      rw [List.mem_singleton.mp hr]
      exact hsized
  | cons r l =>
      obtain ⟨hr, hrest⟩ := List.forall_mem_cons.mp hl
      unfold noteStore at hok
      obtain ⟨⟨merged, ref⟩, hmerge, hok⟩ := bind_eq_ok hok
      dsimp only at hok
      rcases mergeRefs_sized (.inr hr) hmerge with ⟨hmerged, hsized⟩ | hsame
      · dsimp only at hmerged
        rw [if_pos hmerged] at hok
        cases hok
        exact List.forall_mem_cons.mpr ⟨hsized, hrest⟩
      · cases hsame
        rw [if_neg Bool.false_ne_true] at hok
        cases hok

/-- All regions have a page and are small. -/
def MemRefs.Sized (mem : MemRefs) : Prop :=
  ∀ write, ∀ r ∈ mem.refs write, SoftSDV.Sized r

theorem MemRefs.sized_iff :
    mem.Sized ↔ (∀ r ∈ mem.loads, SoftSDV.Sized r) ∧ ∀ r ∈ mem.stores, SoftSDV.Sized r := by
  refine ⟨fun h => ⟨h false, h true⟩, fun h write => ?_⟩
  cases write with
  | true => exact h.2
  | false => exact h.1

theorem noteAccess_sized (h : mem.Sized) (hok : noteAccess p mem a = .ok mem') : mem'.Sized := by
  obtain ⟨hloads, hstores⟩ := MemRefs.sized_iff.mp h
  rcases noteAccess_cases hok with ⟨-, rfl⟩ | ⟨-, stores, hnote, rfl⟩ | ⟨-, loads, hnote, rfl⟩
  · exact h
  · exact MemRefs.sized_iff.mpr ⟨hloads, noteStore_sized hstores hnote⟩
  · exact MemRefs.sized_iff.mpr ⟨noteLoad_sized hloads hnote, hstores⟩

theorem fuseLoads_sized (hl : ∀ r ∈ l, Sized r) (hok : fuseLoads p l = .ok l') :
    ∀ r ∈ l', Sized r := by
  rcases List.eq_nil_or_concat l with rfl | ⟨ys, last, rfl⟩
  · cases hok
    exact hl
  rcases List.eq_nil_or_concat ys with rfl | ⟨xs, before, rfl⟩
  · cases hok
    exact hl
  rw [List.concat_eq_append, List.concat_eq_append, List.append_assoc, List.singleton_append]
    at hok hl
  rw [fuseLoads_append] at hok
  obtain ⟨l₂, htwo, rfl⟩ := map_eq_ok hok
  have hkept : ∀ r ∈ xs ++ [before, last], Sized r := hl
  unfold fuseLoads at htwo
  split at htwo
  · obtain ⟨pa, -, htwo⟩ := bind_eq_ok htwo
    obtain ⟨⟨merged, ref0⟩, hmerge, htwo⟩ := bind_eq_ok htwo
    dsimp only at htwo
    split at htwo
    · next hmerged =>
        cases htwo
        intro r hr
        rcases List.mem_append.mp hr with hr | hr
        · exact hl r (List.mem_append_left _ hr)
        · rw [List.mem_singleton.mp hr]
          rcases mergeRefs_sized (.inr (hl before (by simp))) hmerge with hres | hsame
          · exact hres.2
          · cases hsame
            cases hmerged.1
    · cases htwo
      exact hkept
  · cases htwo
    exact hkept

theorem coalesce_sized (hok : coalesce p list (.reset refData) = .ok mem) : mem.Sized := by
  unfold coalesce at hok
  obtain ⟨mem₁, hmem₁, hok⟩ := bind_eq_ok hok
  obtain ⟨loads, hloads, rfl⟩ := map_eq_ok hok
  have h : mem₁.Sized := by
    refine foldlM_ok_invariant (fun _ _ _ h hok => noteAccess_sized h hok) ?_ hmem₁
    exact MemRefs.sized_iff.mpr ⟨by simp [MemRefs.reset], by simp [MemRefs.reset]⟩
  obtain ⟨hl, hs⟩ := MemRefs.sized_iff.mp h
  exact MemRefs.sized_iff.mpr ⟨fuseLoads_sized hl hloads, hs⟩

/-! ### Storage and the second pass -/

theorem allocStorage_sized {full : String} {used used' : Nat} (hl : ∀ r ∈ l, Sized r)
    (hok : allocStorage refData full used l = .ok (l', used')) : ∀ r ∈ l', Sized r := by
  induction l generalizing used l' used' with
  | nil =>
      cases hok
      exact hl
  | cons r l ih =>
      obtain ⟨hr, hrest⟩ := List.forall_mem_cons.mp hl
      unfold allocStorage at hok
      split at hok
      · obtain ⟨⟨rest, used₂⟩, hok, hres⟩ := bind_eq_ok hok
        cases hres
        exact List.forall_mem_cons.mpr ⟨hr, ih hrest hok⟩
      · obtain ⟨-, hok⟩ := check_eq_ok hok
        obtain ⟨-, hok⟩ := check_eq_ok hok
        obtain ⟨g, hg, hok⟩ := bind_eq_ok hok
        obtain ⟨⟨rest, used₂⟩, hok, hres⟩ := bind_eq_ok hok
        cases hres
        unfold allocValueStorage at hg
        split at hg
        · cases hg
          exact List.forall_mem_cons.mpr ⟨⟨hr.pos, hr.small⟩, ih hrest hok⟩
        · cases hg

theorem allocValues_sized (h : mem.Sized) (hok : allocValues p mem = .ok mem') : mem'.Sized := by
  obtain ⟨hl, hs⟩ := MemRefs.sized_iff.mp h
  unfold allocValues at hok
  split at hok
  · obtain ⟨⟨loads, used⟩, hloads, hok⟩ := bind_eq_ok hok
    obtain ⟨⟨stores, used'⟩, hstores, hok⟩ := bind_eq_ok hok
    cases hok
    exact MemRefs.sized_iff.mpr ⟨allocStorage_sized hl hloads, allocStorage_sized hs hstores⟩
  · cases hok
    exact h

theorem setPA_sized {pa : BitVec 64} {i : Nat} (h : Sized r) (hok : r.setPA pa i = .ok r') :
    Sized r' := by
  unfold setPA at hok
  split at hok
  · cases hok
    refine ⟨?_, h.small⟩
    have hpos := h.pos
    dsimp only
    split <;> omega
  · cases hok

theorem setSecondPage_sized {pa : BitVec 64} (h : Sized r) (hok : setSecondPage r pa = .ok r') :
    Sized r' := by
  unfold setSecondPage at hok
  split at hok
  · exact setPA_sized h hok
  · obtain ⟨pa1, -, hok⟩ := bind_eq_ok hok
    split at hok
    · exact setPA_sized h hok
    · cases hok

theorem mergeData_sized (h : Sized r) (hok : mergeData p a r = .ok r') : Sized r' := by
  unfold mergeData at hok
  split at hok
  · split at hok
    · unfold setValue at hok
      split at hok
      · split at hok
        · cases hok
        · obtain ⟨storage, -, hok⟩ := bind_eq_ok hok
          cases hok
          exact ⟨h.pos, h.small⟩
      · cases hok
    · cases hok
      exact h
  · cases hok
    exact h

theorem mergePAandData_sized (h : Sized r) (hok : mergePAandData p a r = .ok r') : Sized r' := by
  unfold mergePAandData at hok
  split at hok
  · obtain ⟨g, hdata, hok⟩ := bind_eq_ok hok
    have hg := mergeData_sized h hdata
    unfold mergePA at hok
    obtain ⟨pa0, -, hok⟩ := bind_eq_ok hok
    split at hok
    · exact setSecondPage_sized hg hok
    · cases hok
      exact hg
  · cases hok
    exact h

theorem mapM_sized (hl : ∀ r ∈ l, Sized r) (hok : l.mapM (mergePAandData p a) = .ok l') :
    ∀ r ∈ l', Sized r := by
  intro r' hr'
  obtain ⟨r, hr, hmerge⟩ := exists_of_mapM_ok hok r' hr'
  exact mergePAandData_sized (hl r hr) hmerge

theorem noteDetails_sized (h : mem.Sized) (hok : noteDetails p mem a = .ok mem') :
    mem'.Sized := by
  obtain ⟨hl, hs⟩ := MemRefs.sized_iff.mp h
  unfold noteDetails at hok
  split at hok
  · split at hok
    · obtain ⟨stores, hstores, rfl⟩ := map_eq_ok hok
      exact MemRefs.sized_iff.mpr ⟨hl, mapM_sized hs hstores⟩
    · obtain ⟨loads, hloads, rfl⟩ := map_eq_ok hok
      exact MemRefs.sized_iff.mpr ⟨mapM_sized hl hloads, hs⟩
  · cases hok
    exact h

/-- **Every region has a page and is small**, whatever the records are. -/
theorem noteMemoryRefs_sized (hok : noteMemoryRefs p list (.reset refData) = .ok mem) :
    mem.Sized := by
  unfold noteMemoryRefs at hok
  obtain ⟨mem₀, hcoalesce, hok⟩ := bind_eq_ok hok
  obtain ⟨mem₁, halloc, hok⟩ := bind_eq_ok hok
  have h := allocValues_sized (coalesce_sized hcoalesce) halloc
  exact foldlM_ok_invariant (fun _ _ _ h hok => noteDetails_sized h hok) h hok

/-! ### The end of the address space -/

/-- Of a region that reaches the end `PTranslate` refuses every byte but the last. -/
theorem Sized.pTranslate_error (h : Sized r) (hend : 2 ^ 64 ≤ r.span.hi)
    (hva : va.toNat + 1 < 2 ^ 64) (hlo : r.baseVA.toNat ≤ va.toNat) (pa : BitVec 64) :
    r.pTranslate va ≠ .ok pa := by
  intro hok
  obtain ⟨⟨pa', rest⟩, hok, -⟩ := map_eq_ok hok
  unfold pTranslateRegion at hok
  rw [if_neg h.pos.ne'] at hok
  obtain ⟨hin, -⟩ := check_eq_ok hok
  rw [not_not] at hin
  have hsmall := h.small
  have hlt := r.baseVA.isLt
  simp only [span] at hend
  have hbytes : (BitVec.ofNat 64 r.nBytes).toNat = r.nBytes := by
    rw [BitVec.toNat_ofNat]
    omega
  have hle := hin.2
  simp only [BitVec.le_def, BitVec.toNat_add, hbytes, show (1 : BitVec 64).toNat = 1 from rfl]
    at hle
  omega

end AsimFeeder.SoftSDV
