/-
The regions that the first pass makes of the records.

Where no record reaches the end of the address space, `MergeRefs` joins two stretches of
bytes as `Span.join` does.  The regions of a kind are then at the spans that `Span.joinAll`
makes of the records of the kind, with the last two loads fused as `Span.fuse` does.
-/
import AsimFeeder.SoftSDV.MemoryRefs

namespace AsimFeeder.SoftSDV

open AsimFeeder.Lib

/-- Where the bytes of a virtual page are. -/
def translate (m : Nat → BitVec 64) (va : BitVec 64) : BitVec 64 :=
  m (pageNumber va) + (va &&& ~~~pageMask)

namespace Access

variable {a : Access} {va : BitVec 64}

/-- The bytes of the record, by their addresses without the wrap at 2^64. -/
def span (a : Access) : Span := ⟨a.virtMemAddr.toNat, a.virtMemAddr.toNat + a.size.toNat⟩

/-- One of the bytes of the record is at `va`. -/
def Touches (a : Access) (va : BitVec 64) : Prop := va - a.virtMemAddr < a.size

instance (a : Access) (va : BitVec 64) : Decidable (a.Touches va) :=
  inferInstanceAs (Decidable (_ < _))

/-- Of the origin that is noted, and a write or not. -/
def Is (p : NoteParams) (write : Bool) (a : Access) : Prop :=
  a.origin = p.origin ∧ (a.access == .Write) = write

instance (p : NoteParams) (write : Bool) (a : Access) : Decidable (a.Is p write) :=
  inferInstanceAs (Decidable (_ ∧ _))

/-- The size of a record, and that it is where the page table `m` has it. -/
structure Placed (m : Nat → BitVec 64) (a : Access) : Prop where
  pos : 0 < a.size.toNat
  small : a.size.toNat < 4096
  phys : a.phyMemAddr = translate m a.virtMemAddr

/-- The record does not reach the end of the address space. -/
def Below (a : Access) : Prop := a.span.hi < 2 ^ 64

instance (a : Access) : Decidable a.Below := inferInstanceAs (Decidable (_ < _))

theorem touches_iff (h : a.Below) : a.Touches va ↔ a.span.Has va.toNat := by
  have hva := va.isLt
  have hlo := a.virtMemAddr.isLt
  simp only [Below, span] at h
  simp only [Touches, Span.Has, span, BitVec.lt_def, BitVec.toNat_sub]
  omega

theorem toNat_end (h : a.Below) : (a.virtMemAddr + a.size).toNat = a.span.hi := by
  rw [BitVec.toNat_add]
  exact Nat.mod_eq_of_lt h

end Access

namespace MemAccess

variable {r : MemAccess} {va : BitVec 64}

def span (r : MemAccess) : Span := ⟨r.baseVA.toNat, r.baseVA.toNat + r.nBytes⟩

theorem contains_iff : r.Contains va ↔ r.span.Has va.toNat := Iff.rfl

theorem toNat_end (h : r.span.hi < 2 ^ 64) :
    (r.baseVA + BitVec.ofNat 64 r.nBytes).toNat = r.span.hi := by
  simp only [span] at h ⊢
  rw [BitVec.toNat_add, BitVec.toNat_ofNat]
  omega

theorem setSize_ok {n : Nat} {r' : MemAccess} (h : r.setSize n = .ok r') :
    n < 4096 ∧ r' = { r with nBytes := n } := by
  unfold setSize at h
  split at h
  · next hlt => exact ⟨hlt, (Except.ok.inj h).symm⟩
  · cases h

/-- The descriptor was moved to a new place. -/
theorem rebased {pa : BitVec 64} {n : Nat} {g r' : MemAccess}
    (hpa : (r.setVA va).setPA pa 0 = .ok g) (hsize : g.setSize n = .ok r') :
    n < 4096 ∧ r'.baseVA = va ∧ r'.nBytes = n ∧ r'.pages 0 = pa &&& pageMask ∧
      r'.nPages = (if r.nPages ≤ 0 then 1 else r.nPages) ∧ r'.valueSet = r.valueSet ∧
      r'.valueStorage = r.valueStorage ∧ r'.refSource = r.refSource := by
  obtain ⟨g', hg', hsame, hpage, -, hpages⟩ := setPA_zero (r.setVA va) pa
  rw [hg'] at hpa
  cases hpa
  obtain ⟨hn, rfl⟩ := setSize_ok hsize
  exact ⟨hn, hsame.baseVA, rfl, hpage, hpages, hsame.valueSet, hsame.valueStorage,
    hsame.refSource⟩

end MemAccess

open MemAccess

variable {p : NoteParams} {m : Nat → BitVec 64} {src : MemRefSource} {a : Access}
  {r r' : MemAccess} {l l' : List MemAccess}

theorem translate_and_pageMask (hm : ∀ n, m n &&& pageMask = m n) (va : BitVec 64) :
    translate m va &&& pageMask = m (pageNumber va) :=
  page_add_offset (hm _) va

/-! ### One record and one region -/

/-- A region of the first pass. -/
structure Fresh (m : Nat → BitVec 64) (src : MemRefSource) (r : MemAccess) : Prop where
  valueSet : r.valueSet = false
  valueStorage : r.valueStorage = none
  refSource : r.refSource = src
  nPages : r.nPages = 1
  page : r.pages 0 = m (pageNumber r.baseVA)
  pos : 0 < r.nBytes
  small : r.nBytes < 4096
  below : r.span.hi < 2 ^ 64

section MergeRefs

variable (ha : a.Placed m) (hbelow : a.Below) (hm : ∀ n, m n &&& pageMask = m n)
  (hr : Fresh m src r)

include ha hbelow

section

include hm

theorem mergeRefs_activate {g : MemAccess} {res : Bool × MemAccess}
    (hg : MemAccess.activate src = .ok g) (hok : mergeRefs a g src = .ok res) :
    res.1 = true ∧ Fresh m src res.2 ∧ res.2.span = a.span := by
  have hgeq : g = { MemAccess.new with refSource := src } := by
    exact (Except.ok.inj hg).symm
  subst hgeq
  unfold mergeRefs at hok
  simp only [MemAccess.new, Bool.false_eq_true, ne_eq, not_true_eq_false, or_self, if_false,
    if_true] at hok
  obtain ⟨g, hpa, hok⟩ := bind_eq_ok hok
  obtain ⟨g', hsize, hok⟩ := bind_eq_ok hok
  cases hok
  obtain ⟨hn, hbase, hbytes, hpage, hpages, hset, hstorage, hsrc⟩ := rebased hpa hsize
  have hspan : g'.span = a.span := by
    rw [span, Access.span, hbase, hbytes]
  refine ⟨rfl, ⟨hset, hstorage, hsrc, hpages, ?_, by rw [hbytes]; exact ha.pos,
    by rw [hbytes]; exact hn, by rw [hspan]; exact hbelow⟩, hspan⟩
  rw [hpage, ha.phys, translate_and_pageMask hm, hbase]

end

include hr

theorem mergeRefs_far (hfar : ¬a.span.Near r.span) : mergeRefs a r src = .ok (false, r) := by
  have hend := toNat_end hr.below
  have haend := Access.toNat_end hbelow
  have hbelow' := hbelow
  have hr' := hr.below
  have hpos := ha.pos
  have hrpos := hr.pos
  unfold Access.Below at hbelow'
  simp only [Span.Near, Access.span, span] at hfar hend haend hbelow' hr'
  unfold mergeRefs
  simp only [hr.valueSet, hr.refSource, Bool.false_eq_true, ne_eq, not_true_eq_false, or_self,
    if_false, hr.pos.ne', BitVec.le_def, BitVec.toNat_add _ (1 : BitVec 64), hend, haend]
  rw [if_neg (by omega), if_neg (by simp; omega), if_neg (by omega)]

include hm

theorem mergeRefs_near {res : Bool × MemAccess} (hnear : a.span.Near r.span)
    (hok : mergeRefs a r src = .ok res) :
    res.1 = true ∧ Fresh m src res.2 ∧ res.2.span = a.span.hull r.span := by
  have hend := toNat_end hr.below
  have haend := Access.toNat_end hbelow
  have hbelow' := hbelow
  have hr' := hr.below
  have hpos := ha.pos
  have hrpos := hr.pos
  unfold Access.Below at hbelow'
  simp only [Span.Near, Access.span, span] at hnear hend haend hbelow' hr'
  -- a region that begins where the record does
  have hmoved : ∀ {n : Nat} {g g' : MemAccess},
      (r.setVA a.virtMemAddr).setPA a.phyMemAddr 0 = .ok g → g.setSize n = .ok g' →
      a.virtMemAddr.toNat ≤ r.baseVA.toNat →
      a.virtMemAddr.toNat + n = max a.span.hi r.span.hi →
      Fresh m src g' ∧ g'.span = a.span.hull r.span := by
    intro n g g' hpa hsize hlo hhi
    obtain ⟨hn, hbase, hbytes, hpage, hpages, hset, hstorage, hsrc⟩ := rebased hpa hsize
    have hspan : g'.span = a.span.hull r.span := by
      rw [span, hbase, hbytes, Span.hull, hhi]
      exact congrArg (Span.mk · _) (min_eq_left hlo).symm
    simp only [Access.span, span] at hhi
    refine ⟨⟨hset.trans hr.valueSet, hstorage.trans hr.valueStorage, hsrc.trans hr.refSource,
      ?_, ?_, by omega, by omega, ?_⟩, hspan⟩
    · rw [hpages, hr.nPages]
      rfl
    · rw [hpage, ha.phys, translate_and_pageMask hm, hbase]
    · rw [hspan]
      exact max_lt hbelow hr.below
  unfold mergeRefs at hok
  simp only [hr.valueSet, hr.refSource, Bool.false_eq_true, ne_eq, not_true_eq_false, or_self,
    if_false, hr.pos.ne', BitVec.le_def, BitVec.lt_def, BitVec.toNat_add _ (1 : BitVec 64), hend,
    haend] at hok
  split at hok
  · next hin =>
      -- New region begins in or just after the old region
      split at hok
      · next hlong =>
          obtain ⟨g, hsize, hok⟩ := bind_eq_ok hok
          cases hok
          obtain ⟨hn, rfl⟩ := setSize_ok hsize
          have hn' : (a.virtMemAddr + a.size - r.baseVA).toNat =
              a.virtMemAddr.toNat + a.size.toNat - r.baseVA.toNat := by
            rw [BitVec.toNat_sub, haend]
            omega
          rw [hn'] at hn ⊢
          refine ⟨rfl, ⟨hr.valueSet, hr.valueStorage, hr.refSource, hr.nPages, hr.page,
            by dsimp only; omega, hn, ?_⟩, ?_⟩
          · simp only [span]
            omega
          · simp only [span, Span.hull, Access.span, Span.mk.injEq]
            omega
      · next hshort =>
          cases hok
          refine ⟨rfl, hr, ?_⟩
          simp only [span, Span.hull, Access.span, Span.mk.injEq]
          omega
  · next hout =>
      split at hok
      · next hbefore =>
          -- New region ends in or just before old region
          obtain ⟨g, hpa, hok⟩ := bind_eq_ok hok
          obtain ⟨g', hsize, hok⟩ := bind_eq_ok hok
          cases hok
          refine ⟨rfl, hmoved hpa hsize (by omega) ?_⟩
          rw [BitVec.toNat_sub, hend]
          simp only [Access.span, span]
          omega
      · next hnot =>
          split at hok
          · next hsub =>
              -- New region subsumes the old region
              obtain ⟨g, hpa, hok⟩ := bind_eq_ok hok
              obtain ⟨g', hsize, hok⟩ := bind_eq_ok hok
              cases hok
              refine ⟨rfl, hmoved hpa hsize hsub.1 ?_⟩
              simp only [Access.span, span]
              omega
          · next hfar =>
              have hone : (1 : BitVec 64).toNat = 1 := rfl
              rw [hone] at hnot
              omega

/-! ### One record and the regions of its kind -/

omit hr in
theorem noteLoad_spec {slots : Nat} (hl : ∀ r ∈ l, Fresh m src r)
    (hok : noteLoad src a slots l = .ok l') :
    (∀ r ∈ l', Fresh m src r) ∧ l'.map span = a.span.join (l.map span) := by
  induction slots generalizing l l' with
  | zero => cases hok
  | succ slots ih =>
      cases l with
      | nil =>
          unfold noteLoad at hok
          obtain ⟨g, hg, hok⟩ := bind_eq_ok hok
          obtain ⟨⟨merged, ref⟩, hmerge, hok⟩ := bind_eq_ok hok
          obtain ⟨hmerged, hfresh, hspan⟩ := mergeRefs_activate ha hbelow hm hg hmerge
          dsimp only at hmerged hfresh hspan hok
          rw [if_pos hmerged] at hok
          cases hok
          refine ⟨?_, by rw [List.map_singleton, hspan]; rfl⟩
          intro r hr
          rw [List.mem_singleton.mp hr]
          exact hfresh
      | cons r l =>
          have hr := hl r List.mem_cons_self
          unfold noteLoad at hok
          obtain ⟨⟨merged, ref⟩, hmerge, hok⟩ := bind_eq_ok hok
          dsimp only at hok
          by_cases hnear : a.span.Near r.span
          · obtain ⟨hmerged, hfresh, hspan⟩ := mergeRefs_near ha hbelow hm hr hnear hmerge
            dsimp only at hmerged hfresh hspan
            rw [if_pos hmerged] at hok
            cases hok
            refine ⟨List.forall_mem_cons.mpr ⟨hfresh, fun s hs => hl s (List.mem_cons_of_mem r hs)⟩,
              ?_⟩
            rw [List.map_cons, List.map_cons, hspan, Span.join, if_pos hnear]
          · rw [mergeRefs_far ha hbelow hr hnear] at hmerge
            cases hmerge
            rw [if_neg Bool.false_ne_true] at hok
            cases hrest : noteLoad src a slots l with
            | error e =>
                rw [hrest] at hok
                cases hok
            | ok rest =>
                rw [hrest] at hok
                cases hok
                obtain ⟨hfresh, hspan⟩ := ih (fun s hs => hl s (List.mem_cons_of_mem r hs)) hrest
                refine ⟨List.forall_mem_cons.mpr ⟨hr, hfresh⟩, ?_⟩
                rw [List.map_cons, List.map_cons, hspan, Span.join, if_neg hnear]

omit hr in
theorem noteStore_spec (hl : ∀ r ∈ l, Fresh m src r) (hone : l.length ≤ 1)
    (hok : noteStore src a l = .ok l') :
    (∀ r ∈ l', Fresh m src r) ∧ l'.length ≤ 1 ∧ l'.map span = a.span.join (l.map span) := by
  cases l with
  | nil =>
      unfold noteStore at hok
      obtain ⟨g, hg, hok⟩ := bind_eq_ok hok
      obtain ⟨⟨merged, ref⟩, hmerge, hok⟩ := bind_eq_ok hok
      obtain ⟨hmerged, hfresh, hspan⟩ := mergeRefs_activate ha hbelow hm hg hmerge
      dsimp only at hmerged hfresh hspan hok
      rw [if_pos hmerged] at hok
      cases hok
      refine ⟨?_, le_rfl, by rw [List.map_singleton, hspan]; rfl⟩
      intro r hr
      rw [List.mem_singleton.mp hr]
      exact hfresh
  | cons r l =>
      have hr := hl r List.mem_cons_self
      unfold noteStore at hok
      obtain ⟨⟨merged, ref⟩, hmerge, hok⟩ := bind_eq_ok hok
      dsimp only at hok
      by_cases hnear : a.span.Near r.span
      · obtain ⟨hmerged, hfresh, hspan⟩ := mergeRefs_near ha hbelow hm hr hnear hmerge
        dsimp only at hmerged hfresh hspan
        rw [if_pos hmerged] at hok
        cases hok
        refine ⟨List.forall_mem_cons.mpr ⟨hfresh, fun s hs => hl s (List.mem_cons_of_mem r hs)⟩,
          hone, ?_⟩
        rw [List.map_cons, List.map_cons, hspan, Span.join, if_pos hnear]
      · rw [mergeRefs_far ha hbelow hr hnear] at hmerge
        cases hmerge
        cases hok

end MergeRefs

/-! ### All records -/

/-- The references of a kind. -/
def MemRefs.refs (mem : MemRefs) (write : Bool) : List MemAccess :=
  if write then mem.stores else mem.loads

def recordsOf (p : NoteParams) (write : Bool) (list : List Access) : List Access :=
  list.filter fun a => a.Is p write

/-- The bytes of the records of a kind, in list order. -/
def spansOf (p : NoteParams) (write : Bool) (list : List Access) : List Span :=
  (recordsOf p write list).map Access.span

variable {refData : Nat → UInt8} {list : List Access} {mem mem' : MemRefs} {write : Bool}

theorem noteAccesses_snoc (list : List Access) (a : Access) (mem : MemRefs) :
    noteAccesses p (list ++ [a]) mem =
      noteAccesses p list mem >>= fun mem => noteAccess p mem a := by
  unfold noteAccesses
  rw [List.foldlM_append]
  simp only [List.foldlM_cons, List.foldlM_nil, bind_pure]

/-- The regions after the first pass over the list. -/
structure Grouped (p : NoteParams) (m : Nat → BitVec 64) (refData : Nat → UInt8)
    (list : List Access) (mem : MemRefs) : Prop where
  fresh : ∀ write, ∀ r ∈ mem.refs write, Fresh m p.refSource r
  spans : ∀ write, (mem.refs write).map span = Span.joinAll (spansOf p write list)
  one : mem.stores.length ≤ 1
  refUsed : mem.refUsed = 0
  refData : mem.refData = refData

theorem noteAccess_cases (hok : noteAccess p mem a = .ok mem') :
    a.origin ≠ p.origin ∧ mem' = mem ∨
    (a.Is p true ∧ ∃ stores, noteStore p.refSource a mem.stores = .ok stores ∧
      mem' = { mem with stores }) ∨
    a.Is p false ∧ ∃ loads, noteLoad p.refSource a maxLoads mem.loads = .ok loads ∧
      mem' = { mem with loads } := by
  unfold noteAccess at hok
  by_cases horigin : a.origin = p.origin
  · rw [if_pos horigin] at hok
    cases haccess : a.access with
    | Execute =>
        rw [haccess] at hok
        cases hok
    | Write =>
        rw [haccess] at hok
        obtain ⟨stores, hstores, rfl⟩ := map_eq_ok hok
        exact .inr (.inl ⟨⟨horigin, by rw [haccess]; rfl⟩, stores, hstores, rfl⟩)
    | Read =>
        rw [haccess] at hok
        obtain ⟨loads, hloads, rfl⟩ := map_eq_ok hok
        exact .inr (.inr ⟨⟨horigin, by rw [haccess]; rfl⟩, loads, hloads, rfl⟩)
    | RFO =>
        rw [haccess] at hok
        obtain ⟨loads, hloads, rfl⟩ := map_eq_ok hok
        exact .inr (.inr ⟨⟨horigin, by rw [haccess]; rfl⟩, loads, hloads, rfl⟩)
  · rw [if_neg horigin] at hok
    exact .inl ⟨horigin, (Except.ok.inj hok).symm⟩

theorem Access.Is.unique {w w' : Bool} (h : a.Is p w) (h' : a.Is p w') : w = w' :=
  h.2.symm.trans h'.2

/-- A record changes the regions of its kind only. -/
theorem noteAccess_spec (hm : ∀ n, m n &&& pageMask = m n)
    (hown : a.origin = p.origin → a.Placed m ∧ a.Below)
    (hfresh : ∀ write, ∀ r ∈ mem.refs write, Fresh m p.refSource r) (hone : mem.stores.length ≤ 1)
    (hok : noteAccess p mem a = .ok mem') :
    (∀ write, ∀ r ∈ mem'.refs write, Fresh m p.refSource r) ∧ mem'.stores.length ≤ 1 ∧
      mem'.refUsed = mem.refUsed ∧ mem'.refData = mem.refData ∧
      ∀ write, (mem'.refs write).map span =
        if a.Is p write then a.span.join ((mem.refs write).map span)
        else (mem.refs write).map span := by
  rcases noteAccess_cases hok with ⟨hother, rfl⟩ | ⟨his, stores, hstores, rfl⟩ |
    ⟨his, loads, hloads, rfl⟩
  · exact ⟨hfresh, hone, rfl, rfl, fun write => (if_neg fun his => hother his.1).symm⟩
  · obtain ⟨hplaced, hbelow⟩ := hown his.1
    obtain ⟨hnew, hlen, hspan⟩ := noteStore_spec hplaced hbelow hm (hfresh true) hone hstores
    refine ⟨?_, hlen, rfl, rfl, ?_⟩
    · intro write
      cases write with
      | true => exact hnew
      | false => exact hfresh false
    · intro write
      cases write with
      | true => exact hspan.trans (if_pos his).symm
      | false => exact (if_neg fun hread => Bool.false_ne_true (hread.unique his)).symm
  · obtain ⟨hplaced, hbelow⟩ := hown his.1
    obtain ⟨hnew, hspan⟩ := noteLoad_spec hplaced hbelow hm (hfresh false) hloads
    refine ⟨?_, hone, rfl, rfl, ?_⟩
    · intro write
      cases write with
      | true => exact hfresh true
      | false => exact hnew
    · intro write
      cases write with
      | true => exact (if_neg fun hwrite => Bool.false_ne_true (his.unique hwrite)).symm
      | false => exact hspan.trans (if_pos his).symm

theorem filter_snoc {α : Type} (keep : α → Bool) (l : List α) (a : α) :
    (l ++ [a]).filter keep = if keep a = true then l.filter keep ++ [a] else l.filter keep := by
  rw [List.filter_append, List.filter_singleton]
  cases keep a <;> simp

theorem recordsOf_snoc (list : List Access) (a : Access) :
    recordsOf p write (list ++ [a]) =
      if a.Is p write then recordsOf p write list ++ [a] else recordsOf p write list := by
  unfold recordsOf
  rw [filter_snoc]
  simp only [decide_eq_true_eq]

theorem spansOf_snoc (list : List Access) (a : Access) :
    spansOf p write (list ++ [a]) =
      if a.Is p write then spansOf p write list ++ [a.span] else spansOf p write list := by
  unfold spansOf
  rw [recordsOf_snoc]
  split
  · rw [List.map_append, List.map_singleton]
  · rfl

theorem noteAccesses_grouped (hm : ∀ n, m n &&& pageMask = m n)
    (hown : ∀ a ∈ list, a.origin = p.origin → a.Placed m ∧ a.Below)
    (hok : noteAccesses p list (.reset refData) = .ok mem) : Grouped p m refData list mem := by
  induction list using List.reverseRecOn generalizing mem with
  | nil =>
      cases hok
      have hnone : ∀ write, (MemRefs.reset refData).refs write = [] := by
        intro write
        cases write <;> rfl
      refine ⟨?_, ?_, Nat.zero_le 1, rfl, rfl⟩
      · intro write r hr
        rw [hnone] at hr
        cases hr
      · intro write
        rw [hnone]
        rfl
  | append_singleton list a ih =>
      rw [noteAccesses_snoc] at hok
      obtain ⟨mem₁, hmem₁, hok⟩ := bind_eq_ok hok
      have h := ih (fun b hb => hown b (List.mem_append_left _ hb)) hmem₁
      have ha := hown a (List.mem_append_right _ (List.mem_singleton_self a))
      obtain ⟨hfresh, hone, hused, hdata, hspans⟩ := noteAccess_spec hm ha h.fresh h.one hok
      refine ⟨hfresh, ?_, hone, hused.trans h.refUsed, hdata.trans h.refData⟩
      intro write
      rw [hspans, h.spans, spansOf_snoc]
      by_cases his : a.Is p write
      · rw [if_pos his, if_pos his, Span.joinAll_snoc]
      · rw [if_neg his, if_neg his]

/-! ### The last two loads -/

theorem fuseLoads_append (xs : List MemAccess) (before last : MemAccess) :
    fuseLoads p (xs ++ [before, last]) = (fuseLoads p [before, last]).map (xs ++ ·) := by
  induction xs with
  | nil => cases h : fuseLoads p [before, last] <;> rw [List.nil_append, h] <;> rfl
  | cons r xs ih =>
      have hstep : fuseLoads p (r :: xs ++ [before, last])
          = (fuseLoads p (xs ++ [before, last])).map (r :: ·) := by
        cases xs with
        | nil => rfl
        | cons s xs =>
            cases xs <;> rfl
      rw [hstep, ih]
      cases fuseLoads p [before, last] <;> rfl

/-- Two loads that are near become one. -/
theorem fuseLoads_two (hm : ∀ n, m n &&& pageMask = m n) {before last : MemAccess}
    (hbefore : Fresh m p.refSource before) (hlast : Fresh m p.refSource last)
    (hok : fuseLoads p [before, last] = .ok l') :
    (¬last.span.Near before.span ∧ l' = [before, last]) ∨
      last.span.Near before.span ∧ ∃ ref0, Fresh m p.refSource ref0 ∧
        ref0.span = last.span.hull before.span ∧ l' = [ref0] := by
  have hsmall := hlast.small
  have hsize : (BitVec.ofNat 64 last.nBytes).toNat = last.nBytes := by
    rw [BitVec.toNat_ofNat]
    omega
  have hspan : Access.span ⟨.Read, p.origin, BitVec.ofNat 64 last.nBytes,
      translate m last.baseVA, last.baseVA, none⟩ = last.span := by
    simp only [Access.span, span, hsize]
  have hplaced : Access.Placed m ⟨.Read, p.origin, BitVec.ofNat 64 last.nBytes,
      translate m last.baseVA, last.baseVA, none⟩ :=
    ⟨by rw [hsize]; exact hlast.pos, by rw [hsize]; exact hsmall, rfl⟩
  have hbelow : Access.Below ⟨.Read, p.origin, BitVec.ofNat 64 last.nBytes,
      translate m last.baseVA, last.baseVA, none⟩ := by
    rw [Access.Below, hspan]
    exact hlast.below
  have hpa : last.pTranslate last.baseVA = .ok (translate m last.baseVA) := by
    have hpos := hlast.pos
    rw [pTranslate_eq (by rw [hlast.nPages]; omega) hlast.below ⟨le_rfl, by omega⟩, pageOf,
      if_pos (.inl hlast.nPages), hlast.page]
    rfl
  unfold fuseLoads at hok
  rw [if_pos ⟨hlast.valueSet, hbefore.valueSet⟩, hpa] at hok
  obtain ⟨pa, hpa', hok⟩ := bind_eq_ok hok
  cases hpa'
  obtain ⟨⟨merged, ref0⟩, hmerge, hok⟩ := bind_eq_ok hok
  dsimp only at hok
  by_cases hnear : last.span.Near before.span
  · obtain ⟨hmerged, hfresh, hhull⟩ := mergeRefs_near hplaced hbelow hm hbefore
      (by rw [hspan]; exact hnear) hmerge
    dsimp only at hmerged hfresh hhull
    have hle := hfresh.small
    rw [if_pos ⟨hmerged, by omega⟩] at hok
    rw [hspan] at hhull
    exact .inr ⟨hnear, ref0, hfresh, hhull, (Except.ok.inj hok).symm⟩
  · rw [mergeRefs_far hplaced hbelow hbefore (by rw [hspan]; exact hnear)] at hmerge
    cases hmerge
    rw [if_neg fun h => Bool.false_ne_true h.1] at hok
    exact .inl ⟨hnear, (Except.ok.inj hok).symm⟩

theorem fuseLoads_spec (hm : ∀ n, m n &&& pageMask = m n) (hl : ∀ r ∈ l, Fresh m p.refSource r)
    (hok : fuseLoads p l = .ok l') :
    (∀ r ∈ l', Fresh m p.refSource r) ∧ l'.map span = Span.fuse (l.map span) := by
  rcases List.eq_nil_or_concat l with rfl | ⟨ys, last, rfl⟩
  · cases hok
    exact ⟨hl, rfl⟩
  rcases List.eq_nil_or_concat ys with rfl | ⟨xs, before, rfl⟩
  · cases hok
    exact ⟨hl, rfl⟩
  rw [List.concat_eq_append, List.concat_eq_append, List.append_assoc, List.singleton_append]
    at hok hl ⊢
  rw [fuseLoads_append] at hok
  obtain ⟨l₂, htwo, rfl⟩ := map_eq_ok hok
  rw [List.map_append, List.map_append, List.map_cons, List.map_singleton, Span.fuse_append]
  unfold Span.fuse
  rcases fuseLoads_two hm (hl before (by simp)) (hl last (by simp)) htwo with
    ⟨hfar, rfl⟩ | ⟨hnear, ref0, href, hhull, rfl⟩
  · rw [if_neg hfar]
    exact ⟨hl, rfl⟩
  · rw [if_pos hnear, List.map_singleton, hhull]
    refine ⟨?_, rfl⟩
    intro r hr
    rcases List.mem_append.mp hr with hr | hr
    · exact hl r (List.mem_append_left _ hr)
    · rw [List.mem_singleton.mp hr]
      exact href

/-! ### Where the regions of a kind are -/

/-- What the records of a kind make: the last two of the loads are fused. -/
def regionSpans (write : Bool) (came : List Span) : List Span :=
  if write then Span.joinAll came else Span.fuse (Span.joinAll came)

/-- The byte was taken into a region though the record or region it came with does not have it. -/
def TakenIn (write : Bool) (came : List Span) (x : Nat) : Prop :=
  Span.JoinsOver came x ∨ write = false ∧ Span.FusesOver (Span.joinAll came) x

theorem gathers_regionSpans {came : List Span} (h : ∀ s ∈ came, s.lo < s.hi) (write : Bool) :
    Span.Gathers came (TakenIn write came) (regionSpans write came) := by
  have hall := Span.gathers_joinAll h
  cases write with
  | true => exact hall.congr fun x => (or_iff_left fun hx => Bool.noConfusion hx.1).symm
  | false => exact (hall.fuse (Span.joinAll_pos h)).congr fun x =>
      or_congr_right (and_iff_right rfl).symm

/-- The regions before storage is allocated for their values. -/
structure Regions (p : NoteParams) (m : Nat → BitVec 64) (refData : Nat → UInt8)
    (list : List Access) (mem : MemRefs) : Prop where
  fresh : ∀ write, ∀ r ∈ mem.refs write, Fresh m p.refSource r
  spans : ∀ write, (mem.refs write).map span = regionSpans write (spansOf p write list)
  one : mem.stores.length ≤ 1
  refUsed : mem.refUsed = 0
  refData : mem.refData = refData

theorem mem_recordsOf {write : Bool} : a ∈ recordsOf p write list ↔ a ∈ list ∧ a.Is p write := by
  unfold recordsOf
  rw [List.mem_filter, decide_eq_true_iff]

theorem Regions.gathers (h : Regions p m refData list mem)
    (hplaced : ∀ a ∈ list, a.origin = p.origin → a.Placed m) (write : Bool) :
    Span.Gathers (spansOf p write list) (TakenIn write (spansOf p write list))
      ((mem.refs write).map span) := by
  rw [h.spans write]
  refine gathers_regionSpans ?_ write
  intro s hs
  obtain ⟨a, ha, rfl⟩ := List.mem_map.mp hs
  obtain ⟨hmem, horigin, -⟩ := mem_recordsOf.mp ha
  exact Nat.lt_add_of_pos_right (hplaced a hmem horigin).pos

theorem coalesce_regions (hm : ∀ n, m n &&& pageMask = m n)
    (hown : ∀ a ∈ list, a.origin = p.origin → a.Placed m ∧ a.Below)
    (hok : coalesce p list (.reset refData) = .ok mem) : Regions p m refData list mem := by
  unfold coalesce at hok
  obtain ⟨mem₁, hmem₁, hok⟩ := bind_eq_ok hok
  obtain ⟨loads, hloads, rfl⟩ := map_eq_ok hok
  have h := noteAccesses_grouped hm hown hmem₁
  obtain ⟨hfresh, hspans⟩ := fuseLoads_spec hm (h.fresh false) hloads
  refine ⟨?_, ?_, h.one, h.refUsed, h.refData⟩
  · intro write
    cases write with
    | true => exact h.fresh true
    | false => exact hfresh
  · intro write
    cases write with
    | true => exact h.spans true
    | false => exact hspans.trans (congrArg Span.fuse (h.spans false))

end AsimFeeder.SoftSDV
