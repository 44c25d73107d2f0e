/-
What the merge has described after each iteration.

Each operand of the REP has its own references, one of each iteration, and its own
regions.  After some iterations the references seen are the old ones, which the full
regions describe, and the current ones, which the unfinished region describes
(`Merged`).  The next reference either joins the unfinished region or, when that one is
full, begins a new one.
-/
import Mathlib
import AsimFeeder.Lib.Checks
import AsimFeeder.Lib.Covering
import AsimFeeder.SoftSDV.MergeRegions

namespace AsimFeeder.SoftSDV

open AsimFeeder.Lib MemAccess

variable {p : MergeParams} {m m' : Nat → BitVec 64} {old cur done refs : List MemAccess}
  {g r last : MemAccess}

/-! ### The references of one operand -/

/-- How many references fill a region. -/
def perRegion (p : MergeParams) : Nat :=
  refRegionChunk / p.refSize

/-- The physical page `PTranslate` finds an address on. -/
def physPage (r : MemAccess) (va : BitVec 64) : Except String (BitVec 64) :=
  (r.pTranslate va).map (· &&& pageMask)

/--
The references of one operand in all iterations.  They are what the checks of the merge
ask for, each has its own pages, and none reaches the end of the address space.  Those
that come into one region agree where a virtual page is.
-/
structure Accepted (p : MergeParams) (refs : List MemAccess) : Prop where
  source : ∀ r ∈ refs, r.refSource = .instruction
  size : ∀ r ∈ refs, r.nBytes = p.refSize
  contiguous : refs.IsChain (Follows p)
  values : ∀ r ∈ refs, p.useValues = true → r.valueSet = true
  noValues : ∀ i r, refs[i]? = some r → i % perRegion p ≠ 0 → r.valueSet = p.useValues
  pages : ∀ r ∈ refs, 0 < r.nPages
  fits : ∀ r ∈ refs, r.baseVA.toNat + p.refSize < 2 ^ 64
  samePages : ∀ i j r r', refs[i]? = some r → refs[j]? = some r' →
    i / perRegion p = j / perRegion p → ∀ va va', r.Contains va → r'.Contains va' →
      pageNumber va = pageNumber va' → physPage r va = physPage r' va'

theorem Accepted.physPage_eq (h : Accepted p refs) (hr : r ∈ refs) {va : BitVec 64}
    (hva : r.Contains va) : physPage r va = .ok (r.pageOf va) := by
  rw [physPage, pTranslate_eq (h.pages r hr) (by rw [h.size r hr]; exact h.fits r hr) hva]
  exact congrArg Except.ok (page_add_offset (r.pageOf_and_pageMask va) va)

/-- The references of a region share a page table. -/
theorem Accepted.exists_table (h : Accepted p refs) : ∃ M : Nat → Nat → BitVec 64,
    ∀ i r, refs[i]? = some r → RefOk p (M (i / perRegion p)) r := by
  let Byte := { x : Nat × MemAccess × BitVec 64 // refs[x.1]? = some x.2.1 ∧ x.2.1.Contains x.2.2 }
  let place : Byte → Nat × Nat := fun x => (x.1.1 / perRegion p, pageNumber x.1.2.2)
  let page : Byte → BitVec 64 := fun x => x.1.2.1.pageOf x.1.2.2
  have hfactors : page.FactorsThrough place := by
    rintro ⟨⟨i, r, va⟩, hr, hva⟩ ⟨⟨j, r', va'⟩, hr', hva'⟩ hplace
    have hsame := h.samePages i j r r' hr hr' (congrArg Prod.fst hplace) va va' hva hva'
      (congrArg Prod.snd hplace)
    rw [h.physPage_eq (List.mem_of_getElem? hr) hva,
      h.physPage_eq (List.mem_of_getElem? hr') hva'] at hsame
    exact Except.ok.inj hsame
  obtain ⟨M, hM⟩ := (Function.factorsThrough_iff page).mp hfactors
  refine ⟨fun k v => M (k, v), ?_⟩
  intro i r hr
  have hmem := List.mem_of_getElem? hr
  exact
    { source := h.source r hmem
      size := h.size r hmem
      pages := h.pages r hmem
      fits := h.fits r hmem
      values := h.values r hmem
      page := fun va hva => congrFun hM ⟨(i, r, va), hr, hva⟩ }

/-! ### The regions of one operand -/

/-- The full regions `done` describe `old`, and the unfinished region `g` describes `cur`. -/
structure Merged (p : MergeParams) (m : Nat → BitVec 64) (old cur done : List MemAccess)
    (g : MemAccess) : Prop where
  nonempty : cur ≠ []
  covering : Covering Contains Contains (SameMemory p.useValues) old done
  region : RegionOf p m cur (valueShift p g.nBytes) g
  behind : ∀ r ∈ old, ∀ va, r.Contains va →
    if p.moveForward then va.toNat < g.baseVA.toNat else g.baseVA.toNat + g.nBytes ≤ va.toNat
  edge : ∀ last, cur.getLast? = some last → ∀ r, Follows p last r → Follows p g r

/-- The references of the unfinished region are away from the old ones. -/
theorem Merged.apart (h : Merged p m old cur done g) :
    ∀ r ∈ old, ∀ va, r.Contains va → ¬ g.Contains va := by
  intro r hr va hva hg
  have hbehind := h.behind r hr va hva
  obtain ⟨hlo, hhi⟩ := hg
  split at hbehind <;> omega

section Steps

variable (hpos : 0 < p.refSize)

include hpos

theorem merged_first (h8 : p.refSize ≤ 8) (hr : RefOk p m r) :
    ∃ g, initREPRegion p r refRegionChunk = .ok g ∧ g.baseVA = r.baseVA ∧
      g.nBytes = p.refSize ∧ Merged p m [] [r] [] g := by
  obtain ⟨g, hok, hbase, hregion⟩ := initREPRegion_spec hr hpos h8
  have hsize : g.nBytes = p.refSize := by
    rw [hregion.size, List.length_singleton, Nat.one_mul]
  refine ⟨g, hok, hbase, hsize, ?_⟩
  exact
    { nonempty := List.cons_ne_nil r []
      covering := covering_nil
      region := hregion
      behind := fun _ hr' => absurd hr' List.not_mem_nil
      edge := by
        intro last hlast r' hnext
        have hr' : r = last := Option.some.inj hlast
        subst hr'
        unfold Follows at hnext ⊢
        rw [hr.size] at hnext
        rw [hbase, hsize]
        exact hnext }

theorem Merged.merge (h : Merged p m old cur done g) (h8 : p.refSize ≤ 8) (hr : RefOk p m r)
    (hval : r.valueSet = p.useValues) (hlast : cur.getLast? = some last)
    (hnext : Follows p last r) (hroom : g.nBytes + p.refSize ≤ refRegionChunk) :
    ∃ g', mergeREPRegion p g r refRegionChunk = .ok g' ∧ g'.nBytes = g.nBytes + p.refSize ∧
      Merged p m old (cur ++ [r]) done g' := by
  have hfollows := h.edge last hlast r hnext
  obtain ⟨g', hok, hbase, hregion⟩ :=
    mergeREPRegion_spec h.region h.nonempty hr hpos h8 hval hfollows hroom
  have hsize : g'.nBytes = g.nBytes + p.refSize := by
    rw [hregion.size, h.region.size, List.length_append, List.length_singleton, Nat.add_mul,
      Nat.one_mul]
  refine ⟨g', hok, hsize, ?_⟩
  exact
    { nonempty := by simp
      covering := h.covering
      region := hregion
      behind := by
        intro r' hr' va hva
        have hold := h.behind r' hr' va hva
        rw [hbase, hsize]
        rcases hfollows.range with ⟨hfwd, hb, -⟩ | ⟨hfwd, hb, hr''⟩
        · rw [if_pos hfwd] at hold ⊢
          rw [hb]
          exact hold
        · rw [if_neg (by simp [hfwd])] at hold ⊢
          rw [hb]
          omega
      edge := by
        intro last' hlast' r' hnext'
        rw [List.getLast?_concat] at hlast'
        cases hlast'
        unfold Follows at hnext' ⊢
        rw [hbase, hsize]
        rw [hr.size] at hnext'
        rcases hfollows.range with ⟨hfwd, hb, hr''⟩ | ⟨hfwd, hb, -⟩
        · rw [if_pos hfwd] at hnext' ⊢
          rw [hb]
          omega
        · rw [if_neg (by simp [hfwd])] at hnext' ⊢
          rw [hb]
          exact hnext' }

/-- A region whose values are in place is one more of those that describe the references. -/
theorem Merged.close {g' : MemAccess} (h : Merged p m old cur done g)
    (hregion : RegionOf p m cur 0 g') :
    Covering Contains Contains (SameMemory p.useValues) (old ++ cur) (g' :: done) := by
  refine h.covering.push hregion.union ?_ ?_
  · intro r hr va hva
    exact hregion.sameMemory hpos hr hva
  · intro r hr va hva hg'
    exact h.apart r hr va hva ((h.region.union va).mpr ((hregion.union va).mp hg'))

theorem Merged.renew (h : Merged p m old cur done g) (h8 : p.refSize ≤ 8) (hr : RefOk p m' r)
    (hlast : cur.getLast? = some last) (hnext : Follows p last r)
    (hfull : g.nBytes = refRegionChunk) :
    ∃ g', initREPRegion p r refRegionChunk = .ok g' ∧ g'.nBytes = p.refSize ∧
      Merged p m' (old ++ cur) [r] (g :: done) g' := by
  obtain ⟨g', hok, hbase, hsize, hfirst⟩ := merged_first hpos h8 hr
  have hfollows := h.edge last hlast r hnext
  have hzero : valueShift p g.nBytes = 0 := by
    rw [hfull, valueShift]
    split
    · rfl
    · exact Nat.sub_self _
  refine ⟨g', hok, hsize, ?_⟩
  exact
    { nonempty := hfirst.nonempty
      covering := h.close hpos (hzero ▸ h.region)
      region := hfirst.region
      behind := by
        intro r' hr' va hva
        rw [hbase, hsize]
        have hwhere : r' ∈ old ∨ g.Contains va := by
          rcases List.mem_append.mp hr' with hr' | hr'
          · exact Or.inl hr'
          · exact Or.inr ((h.region.union va).mpr ⟨r', hr', hva⟩)
        rcases hfollows.range with ⟨hfwd, -, hb⟩ | ⟨hfwd, -, hb⟩
        · rw [if_pos hfwd]
          rcases hwhere with hr' | ⟨hlo, hhi⟩
          · have hold := h.behind r' hr' va hva
            rw [if_pos hfwd] at hold
            omega
          · omega
        · rw [if_neg (by simp [hfwd])]
          rcases hwhere with hr' | ⟨hlo, hhi⟩
          · have hold := h.behind r' hr' va hva
            rw [if_neg (by simp [hfwd])] at hold
            omega
          · omega
      edge := hfirst.edge }

end Steps

/-! ### All operands -/

/-- The full regions of an operand. -/
def MergeState.doneOf (s : MergeState) (o : Operand) : List MemAccess :=
  (s.newRegions.filter fun x => x.1 = o).map Prod.snd

variable {M : Operand → Nat → Nat → BitVec 64} {ops : List Operand}
    {refsOf : Operand → List MemAccess}
  {n k : Nat} {s : MergeState} {instr : InstInfo}

/-- The merge after `n` iterations, `k` regions of each operand being full. -/
structure Progress (p : MergeParams) (M : Operand → Nat → Nat → BitVec 64) (ops : List Operand)
    (refsOf : Operand → List MemAccess) (n k : Nat) (s : MergeState) : Prop where
  operands : s.newRefs.map Prod.fst = ops
  pushed : s.newRegions.map Prod.fst = (List.replicate k ops.reverse).flatten
  listElements : s.listElements = BitVec.ofNat 32 k
  total : n * p.refSize = k * refRegionChunk + s.newRegionSize
  pos : 0 < s.newRegionSize
  small : s.newRegionSize ≤ refRegionChunk
  sizes : ∀ x ∈ s.newRefs, x.2.nBytes = s.newRegionSize
  merged : ∀ x ∈ s.newRefs, ∃ old cur, (refsOf x.1).take n = old ++ cur ∧
    Merged p (M x.1 k) old cur (s.doneOf x.1) x.2

/-- The sizes of references `MergeREPInstrs` accepts. -/
def SizeOk (refSize : Nat) : Prop :=
  refSize = 1 ∨ refSize = 2 ∨ refSize = 4 ∨ refSize = 8

theorem SizeOk.perRegion_mul (h : SizeOk p.refSize) : perRegion p * p.refSize = refRegionChunk := by
  unfold perRegion refRegionChunk
  rcases h with h | h | h | h <;> rw [h]

theorem SizeOk.bounds (h : SizeOk p.refSize) : 0 < p.refSize ∧ p.refSize ≤ 8 := by
  rcases h with h | h | h | h <;> omega

/-- The next reference joins the region number `k`, and is not the first in it. -/
theorem place_in_region {s per size : Nat} (hper : per * s = refRegionChunk) (hs : 0 < s)
    (htotal : n * s = k * refRegionChunk + size) (hpos : 0 < size) (hroom : size < refRegionChunk) :
    n / per = k ∧ n % per ≠ 0 ∧ size + s ≤ refRegionChunk := by
  rw [← hper, ← Nat.mul_assoc] at htotal
  have hn : n = k * per + size / s ∧ size = size / s * s := by
    have hdvd : s ∣ size := (Nat.dvd_add_right (Nat.dvd_mul_left s (k * per))).mp
      (htotal ▸ Nat.dvd_mul_left s n)
    have hmul := (Nat.div_mul_cancel hdvd).symm
    refine ⟨Nat.eq_of_mul_eq_mul_right hs ?_, hmul⟩
    rw [htotal, Nat.add_mul, ← hmul]
  obtain ⟨hn, hmul⟩ := hn
  generalize size / s = c at hn hmul
  subst hmul
  have hc : c < per := by
    rw [← hper] at hroom
    exact Nat.lt_of_mul_lt_mul_right hroom
  have hc0 : 0 < c := Nat.pos_of_mul_pos_right hpos
  refine ⟨?_, ?_, ?_⟩
  · rw [hn, Nat.mul_comm k, Nat.mul_add_div (by omega), Nat.div_eq_of_lt hc, Nat.add_zero]
  · rw [hn, Nat.mul_add_mod_self_right, Nat.mod_eq_of_lt hc]
    omega
  · rw [← hper, ← Nat.succ_mul]
    exact Nat.mul_le_mul_right s hc

theorem place_of_full {s per : Nat} (hper : per * s = refRegionChunk) (hs : 0 < s)
    (htotal : n * s = k * refRegionChunk + refRegionChunk) : n / per = k + 1 := by
  have hn : n = (k + 1) * per := by
    refine Nat.eq_of_mul_eq_mul_right hs ?_
    rw [htotal, Nat.mul_assoc, hper, Nat.succ_mul]
  have hper' : 0 < per := Nat.pos_of_mul_pos_right (show 0 < per * s by rw [hper]; decide)
  rw [hn, Nat.mul_div_cancel _ hper']

theorem filter_tag {l : List (Operand × MemAccess)} (h : (l.map Prod.fst).Nodup)
    {x : Operand × MemAccess} (hx : x ∈ l) : l.filter (fun y => y.1 = x.1) = [x] := by
  induction l with
  | nil => cases hx
  | cons a l ih =>
      rw [List.map_cons, List.nodup_cons] at h
      rcases List.mem_cons.mp hx with rfl | hx
      · rw [List.filter_cons_of_pos (by simp), List.filter_eq_nil_iff.mpr]
        intro y hy hyx
        exact h.1 (List.mem_map.mpr ⟨y, hy, by simpa using hyx⟩)
      · have hne : a.1 ≠ x.1 := fun he => h.1 (he ▸ List.mem_map.mpr ⟨x, hx, rfl⟩)
        rw [List.filter_cons_of_neg (by simpa using hne), ih h.2 hx]

/-- Where the references of the next iteration stand among those of their operand. -/
structure NextRefs (ops : List Operand) (refsOf : Operand → List MemAccess) (n : Nat)
    (instr : InstInfo) : Prop where
  getRef : ∀ o ∈ ops, ∃ r, instr.getRef o = .ok r ∧ (refsOf o)[n]? = some r

theorem take_next {o : Operand} (hchain : (refsOf o).IsChain (Follows p))
    (hsplit : (refsOf o).take n = old ++ cur) (hne : cur ≠ []) (hr : (refsOf o)[n]? = some r) :
    (refsOf o).take (n + 1) = old ++ (cur ++ [r]) ∧
      ∃ last, cur.getLast? = some last ∧ Follows p last r := by
  have htake : (refsOf o).take (n + 1) = old ++ (cur ++ [r]) := by
    rw [List.take_add_one, hr, hsplit, Option.toList_some, List.append_assoc]
  refine ⟨htake, cur.getLast hne, List.getLast?_eq_some_getLast hne, ?_⟩
  have hpart : (cur ++ [r]).IsChain (Follows p) := by
    have := hchain.take (n + 1)
    rw [htake] at this
    exact (List.isChain_append.mp this).2.1
  exact (List.isChain_append.mp hpart).2.2 _ (List.getLast?_eq_some_getLast hne) r rfl

section Instr

variable (hsize : SizeOk p.refSize) (hnodup : ops.Nodup)
  (hchain : ∀ o ∈ ops, (refsOf o).IsChain (Follows p))
  (hM : ∀ o ∈ ops, ∀ i r, (refsOf o)[i]? = some r → RefOk p (M o (i / perRegion p)) r)

include hsize hM in
theorem initREPRegions_spec (hnext : NextRefs ops refsOf 0 instr) : ∃ newRefs,
    initREPRegions p ops instr = .ok newRefs ∧
      Progress p M ops refsOf 1 0 ⟨newRefs, [], 0, p.refSize⟩ := by
  obtain ⟨hpos, h8⟩ := hsize.bounds
  obtain ⟨newRefs, hok, htags, hall⟩ := mapM_tagged (t := id) (l := ops)
    (P := fun o g => g.nBytes = p.refSize ∧ ∃ r, (refsOf o).take 1 = [r] ∧
      Merged p (M o 0) [] [r] [] g)
    (f := fun o => do
      let newRef ← initREPRegion p (← instr.getRef o) refRegionChunk
      .ok (o, newRef))
    (by
      intro o ho
      obtain ⟨r, hget, hr⟩ := hnext.getRef o ho
      have hok := hM o ho 0 r hr
      rw [Nat.zero_div] at hok
      obtain ⟨g, hinit, -, hg, hmerged⟩ := merged_first hpos h8 hok
      refine ⟨g, ?_, hg, r, ?_, hmerged⟩
      · simp only [bind, Except.bind, hget, hinit, id]
      · rw [List.take_one, List.head?_eq_getElem?, hr]
        rfl)
  rw [List.map_id] at htags
  refine ⟨newRefs, hok, ?_⟩
  exact
    { operands := htags
      pushed := rfl
      listElements := rfl
      total := by rw [Nat.one_mul, Nat.zero_mul, Nat.zero_add]
      pos := hpos
      small := Nat.le_trans h8 (by decide)
      sizes := by
        intro x hx
        obtain ⟨o, -, -, hg, -⟩ := hall x hx
        exact hg
      merged := by
        intro x hx
        obtain ⟨o, -, htag, -, r, htake, hmerged⟩ := hall x hx
        rw [show x.1 = o from htag]
        exact ⟨[], [r], htake, hmerged⟩ }

include hsize hchain hM in
/-- The references of the next iteration join the unfinished regions. -/
theorem mergeInstr_join (h : Progress p M ops refsOf n k s) (hnext : NextRefs ops refsOf n instr)
    (hval : ∀ o ∈ ops, ∀ r, (refsOf o)[n]? = some r → n % perRegion p ≠ 0 →
      r.valueSet = p.useValues)
    (hroom : s.newRegionSize < refRegionChunk) :
    ∃ s', mergeInstr p s instr = .ok s' ∧ Progress p M ops refsOf (n + 1) k s' := by
  obtain ⟨hpos, h8⟩ := hsize.bounds
  obtain ⟨hplace, hmod, hfits⟩ := place_in_region hsize.perRegion_mul hpos h.total h.pos hroom
  obtain ⟨newRefs, hok, htags, hall⟩ := mapM_tagged (t := Prod.fst) (l := s.newRefs)
    (P := fun x g => g.nBytes = s.newRegionSize + p.refSize ∧
      ∃ old cur, (refsOf x.1).take (n + 1) = old ++ cur ∧
        Merged p (M x.1 k) old cur (s.doneOf x.1) g)
    (f := fun x => do
      let mergeRef ← mergeREPRegion p x.2 (← instr.getRef x.1) refRegionChunk
      .ok (x.1, mergeRef))
    (by
      intro x hx
      have hop : x.1 ∈ ops := h.operands ▸ List.mem_map.mpr ⟨x, hx, rfl⟩
      obtain ⟨r, hget, hr⟩ := hnext.getRef x.1 hop
      obtain ⟨old, cur, hsplit, hmerged⟩ := h.merged x hx
      have hrok := hM x.1 hop n r hr
      rw [hplace] at hrok
      obtain ⟨htake, last, hlast, hfollows⟩ :=
        take_next (hchain x.1 hop) hsplit hmerged.nonempty hr
      have hx2 := h.sizes x hx
      obtain ⟨g, hmerge, hg, hmerged'⟩ := hmerged.merge hpos h8 hrok (hval x.1 hop r hr hmod) hlast
        hfollows (by omega)
      refine ⟨g, ?_, by omega, old, cur ++ [r], htake, hmerged'⟩
      simp only [bind, Except.bind, hget, hmerge])
  refine ⟨{ s with newRefs, newRegionSize := s.newRegionSize + p.refSize }, ?_, ?_⟩
  · unfold mergeInstr
    rw [if_neg (by omega), if_neg (by omega), hok]
    rfl
  · exact
      { operands := htags.trans h.operands
        pushed := h.pushed
        listElements := h.listElements
        total := by
          rw [Nat.add_mul, Nat.one_mul, h.total]
          exact Nat.add_assoc ..
        pos := Nat.lt_of_lt_of_le h.pos (Nat.le_add_right ..)
        small := hfits
        sizes := by
          intro y hy
          obtain ⟨x, -, -, hg, -⟩ := hall y hy
          exact hg
        merged := by
          intro y hy
          obtain ⟨x, -, htag, -, hmerged⟩ := hall y hy
          rw [htag]
          exact hmerged }

include hsize hnodup hchain hM in
/-- The unfinished regions are full and the next iteration begins new ones. -/
theorem mergeInstr_renew (h : Progress p M ops refsOf n k s) (hnext : NextRefs ops refsOf n instr)
    (hfull : s.newRegionSize = refRegionChunk) :
    ∃ s', mergeInstr p s instr = .ok s' ∧ Progress p M ops refsOf (n + 1) (k + 1) s' := by
  obtain ⟨hpos, h8⟩ := hsize.bounds
  have hplace := place_of_full hsize.perRegion_mul hpos (hfull ▸ h.total)
  obtain ⟨newRefs, hok, htags, hall⟩ := mapM_tagged (t := id) (l := ops)
    (P := fun o g => g.nBytes = p.refSize ∧ ∃ x ∈ s.newRefs, x.1 = o ∧
      ∃ old cur, (refsOf o).take (n + 1) = old ++ cur ∧
        Merged p (M o (k + 1)) old cur (x.2 :: s.doneOf o) g)
    (f := fun o => do
      let newRef ← initREPRegion p (← instr.getRef o) refRegionChunk
      .ok (o, newRef))
    (by
      intro o ho
      obtain ⟨x, hx, rfl⟩ := List.mem_map.mp (h.operands.symm ▸ ho)
      obtain ⟨r, hget, hr⟩ := hnext.getRef x.1 ho
      obtain ⟨old, cur, hsplit, hmerged⟩ := h.merged x hx
      have hrok := hM x.1 ho n r hr
      rw [hplace] at hrok
      obtain ⟨htake, last, hlast, hfollows⟩ := take_next (hchain x.1 ho) hsplit hmerged.nonempty hr
      obtain ⟨g, hinit, hg, hmerged'⟩ := hmerged.renew hpos h8 hrok hlast hfollows
        ((h.sizes x hx).trans hfull)
      refine ⟨g, ?_, hg, x, hx, rfl, old ++ cur, [r], ?_, hmerged'⟩
      · simp only [bind, Except.bind, hget, hinit, id]
      · rw [htake, List.append_assoc])
  rw [List.map_id] at htags
  refine ⟨⟨newRefs, s.newRefs.reverse ++ s.newRegions, s.listElements + 1, p.refSize⟩, ?_, ?_⟩
  · unfold mergeInstr initREPRegions
    rw [if_neg (by omega), if_pos hfull, h.operands, hok]
    rfl
  · exact
      { operands := htags
        pushed := by
          rw [List.map_append, List.map_reverse, h.operands, h.pushed, List.replicate_succ,
            List.flatten_cons]
        listElements := by
          rw [h.listElements, BitVec.ofNat_add]
          rfl
        total := by
          rw [Nat.add_mul, Nat.one_mul, h.total, hfull, Nat.succ_mul]
        pos := hpos
        small := Nat.le_trans h8 (by decide)
        sizes := by
          intro y hy
          obtain ⟨o, -, -, hg, -⟩ := hall y hy
          exact hg
        merged := by
          intro y hy
          obtain ⟨o, -, htag, -, x, hx, hxo, old, cur, htake, hmerged⟩ := hall y hy
          rw [show y.1 = o from htag]
          refine ⟨old, cur, htake, ?_⟩
          -- The region that was full is the only one of its operand that is pushed.
          have hpushed : s.newRefs.reverse.filter (fun y => y.1 = o) = [x] := by
            rw [← hxo]
            refine filter_tag ?_ (List.mem_reverse.mpr hx)
            rw [List.map_reverse, h.operands]
            exact List.nodup_reverse.mpr hnodup
          unfold MergeState.doneOf at hmerged ⊢
          rw [List.filter_append, hpushed]
          exact hmerged }

end Instr

end AsimFeeder.SoftSDV
