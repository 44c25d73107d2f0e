/-
The regions of a merged REP are exact.

`AcceptedREP` collects what `MergeREPInstrs` checks on the way, for the first iteration
and for those it merges, and what the references of each operand have to agree on.
Under it the merge gets through, unless a refill finds register values missing, and the
regions it attaches describe the references of each operand.
-/
import AsimFeeder.SoftSDV.MergeRuns

namespace AsimFeeder.SoftSDV

open AsimFeeder.Lib MemAccess

variable {Regs : Type} {p : MergeParams} {M : Operand → Nat → Nat → BitVec 64} {ops : List Operand}
  {refsOf : Operand → List MemAccess} {n k nLoads nStores : Nat} {s : MergeState}
  {baseInstr nextInstr : InstInfo} {merged rest : List (SdvInstr InstInfo)}

/-! ### What is accepted -/

/-- The references an instruction has itself, which come first. -/
def ownRefs (refs : List MemAccess) : List MemAccess :=
  refs.takeWhile fun r => r.refSource = .instruction

/-- The iterations `baseInstr` and `merged`; `refsOf` has their references to each operand. -/
structure AcceptedREP (p : MergeParams) (nLoads nStores : Nat) (baseInstr : InstInfo)
    (merged : List (SdvInstr InstInfo)) (refsOf : Operand → List MemAccess) : Prop where
  loads : (ownRefs baseInstr.loads).length = nLoads
  stores : (ownRefs baseInstr.stores).length = nStores
  someRef : 0 < nLoads + nStores
  maxLoads : nLoads ≤ 2
  maxStores : nStores ≤ 1
  size : SizeOk p.refSize
  useValues : ∀ r, baseInstr.getRef (firstOperand nLoads) = .ok r → r.valueSet = p.useValues
  refs : ∀ o ∈ repOperands nLoads nStores,
    (baseInstr :: merged.map SdvInstr.data).map (fun i => i.getRef o) = (refsOf o).map Except.ok
  accepted : ∀ o ∈ repOperands nLoads nStores, Accepted p (refsOf o)
  roomLoads : nLoads * (1 + merged.length * p.refSize / refRegionChunk) < 2 ^ 32
  roomStores : nStores * (1 + merged.length * p.refSize / refRegionChunk) < 2 ^ 32

theorem mem_repOperands {o : Operand} : o ∈ repOperands nLoads nStores ↔
    if o.getLoad then o.idx < nLoads else o.idx < nStores := by
  obtain ⟨getLoad, idx⟩ := o
  cases getLoad <;> simp [repOperands]

theorem nodup_repOperands (nLoads nStores : Nat) : (repOperands nLoads nStores).Nodup := by
  have hmap : ∀ (b : Bool) (n : Nat), ((List.range n).map (Operand.mk b)).Nodup := fun b n =>
    List.nodup_range.map fun i j h => (Operand.mk.inj h).2
  refine List.nodup_append.mpr ⟨hmap true nLoads, hmap false nStores, ?_⟩
  intro o ho o' ho' he
  obtain ⟨i, -, rfl⟩ := List.mem_map.mp ho
  obtain ⟨j, -, hj⟩ := List.mem_map.mp ho'
  have := he.trans hj.symm
  cases this

theorem count_repOperands (nLoads nStores : Nat) (getLoad : Bool) :
    (repOperands nLoads nStores).countP (fun o => o.getLoad = getLoad) =
      if getLoad then nLoads else nStores := by
  cases getLoad <;> simp [repOperands, List.countP_append, List.countP_map, Function.comp_def]

section Accepted

variable (h : AcceptedREP p nLoads nStores baseInstr merged refsOf)

include h

theorem AcceptedREP.nextRefs {i : InstInfo}
    (hi : (baseInstr :: merged.map SdvInstr.data)[n]? = some i) :
    NextRefs (repOperands nLoads nStores) refsOf n i where
  getRef := by
    intro o ho
    have hn := congrArg (fun l => l[n]?) (h.refs o ho)
    simp only [List.getElem?_map, hi, Option.map_some] at hn
    cases hr : (refsOf o)[n]? with
    | none => rw [hr] at hn; cases hn
    | some r =>
        rw [hr] at hn
        exact ⟨r, Option.some.inj hn, rfl⟩

theorem AcceptedREP.length_refs {o : Operand} (ho : o ∈ repOperands nLoads nStores) :
    (refsOf o).length = 1 + merged.length := by
  have hlen := congrArg List.length (h.refs o ho)
  rw [List.length_map, List.length_map, List.length_cons, List.length_map] at hlen
  omega

theorem AcceptedREP.firstOperand_mem : firstOperand nLoads ∈ repOperands nLoads nStores := by
  have hsome := h.someRef
  rw [mem_repOperands, firstOperand]
  by_cases hn : nLoads = 0 <;> simp [hn] <;> omega

/-- The references of the first iteration have the size of the others. -/
theorem AcceptedREP.own_size (getLoad : Bool) {r : MemAccess}
    (hr : r ∈ ownRefs (baseInstr.refs getLoad)) : r.nBytes = p.refSize := by
  obtain ⟨i, hi, hget⟩ := List.mem_iff_getElem.mp hr
  have hlen : (ownRefs (baseInstr.refs getLoad)).length = if getLoad then nLoads else nStores := by
    cases getLoad
    · exact h.stores
    · exact h.loads
  have ho : (⟨getLoad, i⟩ : Operand) ∈ repOperands nLoads nStores := by
    rw [mem_repOperands]
    rw [hlen] at hi
    cases getLoad <;> simpa using hi
  have hat : (baseInstr.refs getLoad)[i]? = some r := by
    rw [← List.takeWhile_append_dropWhile (p := fun r => r.refSource = .instruction)
      (l := baseInstr.refs getLoad), ← hget, ← List.getElem?_eq_getElem hi]
    exact List.getElem?_append_left hi
  obtain ⟨r', hget', hr'⟩ := (h.nextRefs (n := 0) rfl).getRef _ ho
  unfold InstInfo.getRef at hget'
  rw [hat] at hget'
  cases hget'
  exact (h.accepted _ ho).size r (List.mem_of_getElem? hr')

end Accepted

/-! ### Before the loop -/

theorem countRefs_spec {size : Nat} (hsize : 0 < size) : ∀ {refs : List MemAccess} {c s : Nat},
    (∀ r ∈ ownRefs refs, r.nBytes = size) → s = 0 ∨ s = size →
      countRefs refs c s = .ok (c + (ownRefs refs).length,
        if (ownRefs refs).length = 0 then s else size) := by
  intro refs
  induction refs with
  | nil => intro c s _ _; rfl
  | cons r refs ih =>
      intro c s hall hs
      by_cases hr : r.refSource = .instruction
      · have hown : ownRefs (r :: refs) = r :: ownRefs refs :=
          List.takeWhile_cons_of_pos (by simp [hr])
        rw [hown] at hall ⊢
        have hrsize := hall r List.mem_cons_self
        have hrest : ∀ r' ∈ ownRefs refs, r'.nBytes = size :=
          fun r' hr' => hall r' (List.mem_cons_of_mem r hr')
        have hcount := ih (c := c + 1) hrest (Or.inr rfl)
        have hsame : (if (ownRefs refs).length = 0 then size else size) = size := ite_self ..
        rw [hsame] at hcount
        rw [countRefs, if_pos hr, List.length_cons, if_neg (Nat.succ_ne_zero (ownRefs refs).length),
          show c + ((ownRefs refs).length + 1) = c + 1 + (ownRefs refs).length by omega]
        rcases hs with rfl | rfl
        · rw [if_pos rfl, hrsize]
          exact hcount
        · rw [if_neg (Nat.ne_of_gt hsize), if_pos hrsize.symm]
          exact hcount
      · have hown : ownRefs (r :: refs) = [] := List.takeWhile_cons_of_neg (by simp [hr])
        rw [hown, countRefs, if_neg hr]
        rfl

section Before

variable (h : AcceptedREP p nLoads nStores baseInstr merged refsOf)

include h

theorem repRefs_spec : repRefs baseInstr = .ok (nLoads, nStores, p.refSize) := by
  obtain ⟨hpos, h8⟩ := h.size.bounds
  have hsome := h.someRef
  have hloads := countRefs_spec (c := 0) hpos (fun r hr => h.own_size true hr)
    (Or.inl rfl)
  have hstores := countRefs_spec (c := 0) (s := if nLoads = 0 then 0 else p.refSize) hpos
    (fun r hr => h.own_size false hr) (by by_cases hn : nLoads = 0 <;> simp [hn])
  have hpow : (p.refSize - 1) &&& p.refSize = 0 := by
    rcases h.size with hs | hs | hs | hs <;> rw [hs] <;> rfl
  simp only [InstInfo.refs, if_true, Bool.false_eq_true, if_false, h.loads, h.stores,
    Nat.zero_add] at hloads hstores
  unfold repRefs
  rw [hloads]
  simp only [bind, Except.bind, hstores]
  have hsize : (if nStores = 0 then if nLoads = 0 then 0 else p.refSize else p.refSize) =
      p.refSize := by
    by_cases hn : nStores = 0
    · rw [if_pos hn, if_neg (by omega)]
    · rw [if_neg hn]
  rw [hsize, if_neg (not_not.mpr ⟨hsome, h.maxLoads, h.maxStores⟩),
    if_neg (not_not.mpr ⟨hpos, h8, hpow⟩)]

theorem repParams_spec {i : SdvInstr InstInfo} (hi : merged.head? = some i) :
    repParams nLoads p.refSize baseInstr i.data = .ok p := by
  have ho := h.firstOperand_mem
  obtain ⟨hpos, -⟩ := h.size.bounds
  obtain ⟨r, hr, hr0⟩ := (h.nextRefs (n := 0) rfl).getRef _ ho
  have hi1 : (baseInstr :: merged.map SdvInstr.data)[1]? = some i.data := by
    rw [List.getElem?_cons_succ, ← List.head?_eq_getElem?, List.head?_map, hi]
    rfl
  obtain ⟨r', hr', hr1⟩ := (h.nextRefs hi1).getRef _ ho
  have hacc := h.accepted _ ho
  have hfollows : Follows p r r' := by
    have hchain := List.isChain_iff_getElem.mp hacc.contiguous 0
      (List.getElem?_eq_some_iff.mp hr1).1
    rw [List.getElem?_eq_some_iff] at hr0 hr1
    obtain ⟨_, hr0⟩ := hr0
    obtain ⟨_, hr1⟩ := hr1
    rwa [hr0, hr1] at hchain
  have hsize := hacc.size r (List.mem_of_getElem? hr0)
  have hdir : decide (r.baseVA < r'.baseVA) = p.moveForward := by
    unfold Follows at hfollows
    rw [hsize] at hfollows
    cases hfwd : p.moveForward with
    | true =>
        rw [hfwd, if_pos rfl] at hfollows
        exact decide_eq_true (BitVec.lt_def.mpr (by omega))
    | false =>
        rw [hfwd, if_neg Bool.false_ne_true] at hfollows
        exact decide_eq_false (mt BitVec.lt_def.mp (by omega))
  unfold repParams
  rw [hr, hr']
  simp only [bind, Except.bind, hdir, h.useValues r hr]

end Before

/-! ### After the loop -/

/--
Each of the regions belongs to an operand, and the regions of an operand describe its
references: they are disjoint, have the bytes of the references, and say of each byte what
the reference there says.
-/
structure RepMemRegions.Describe (regions : RepMemRegions) (p : MergeParams) (ops : List Operand)
    (refsOf : Operand → List MemAccess) (owned : List (Operand × MemAccess)) : Prop where
  owners : ∀ x ∈ owned, x.1 ∈ ops
  loads : regions.loads = (owned.filter fun x => x.1.getLoad = true).map Prod.snd
  stores : regions.stores = (owned.filter fun x => x.1.getLoad = false).map Prod.snd
  nLoads : regions.nLoads = regions.loads.length
  nStores : regions.nStores = regions.stores.length
  covering : ∀ o ∈ ops, Covering Contains Contains (SameMemory p.useValues) (refsOf o)
    ((owned.filter fun x => x.1 = o).map Prod.snd)

theorem setRegions_spec {nRefs : Nat} {refs : List MemAccess} (hlen : refs.length = nRefs * (1 + k))
    (hroom : nRefs * (1 + k) < 2 ^ 32) :
    setRegions nRefs (BitVec.ofNat 32 k) refs = .ok (refs.length, refs) := by
  have hcount : (BitVec.ofNat 32 nRefs * (1 + BitVec.ofNat 32 k)).toNat = refs.length := by
    rw [show (1 : BitVec 32) = BitVec.ofNat 32 1 from rfl, ← BitVec.ofNat_add, ← BitVec.ofNat_mul,
      BitVec.toNat_ofNat, Nat.mod_eq_of_lt hroom, hlen]
  unfold setRegions
  simp only [hcount, if_pos (Nat.le_refl _)]

theorem InstInfo.getRef_setRef {i : InstInfo} {o o' : Operand} {ref r : MemAccess}
    (h : i.getRef o' = .ok r) : ∃ r', (i.setRef o ref).getRef o' = .ok r' := by
  have hlen : ∀ ld, ((i.setRef o ref).refs ld).length = (i.refs ld).length := by
    intro ld
    unfold InstInfo.setRef InstInfo.refs
    cases o.getLoad <;> cases ld <;> simp
  have hlt : o'.idx < (i.refs o'.getLoad).length := by
    by_contra hge
    unfold InstInfo.getRef at h
    rw [List.getElem?_eq_none (Nat.le_of_not_lt hge)] at h
    cases h
  rw [← hlen] at hlt
  unfold InstInfo.getRef
  rw [List.getElem?_eq_getElem hlt]
  exact ⟨_, rfl⟩

theorem updateVirtualRegions_spec {w : BitVec 32} : ∀ {l : List (Operand × MemAccess)}
    {i : InstInfo}, (∀ x ∈ l, ∃ r, i.getRef x.1 = .ok r) →
      ∃ i', updateVirtualRegions p w l i = .ok i' := by
  intro l
  induction l with
  | nil => intro i _; exact ⟨i, rfl⟩
  | cons x l ih =>
      intro i h
      obtain ⟨r, hr⟩ := h x List.mem_cons_self
      unfold updateVirtualRegions InstInfo.updateVirtualRegion
      simp only [bind, Except.bind, hr]
      refine ih ?_
      intro x' hx'
      obtain ⟨r', hr'⟩ := h x' (List.mem_cons_of_mem x hx')
      exact InstInfo.getRef_setRef hr'

/-- How many regions there are of loads, or of stores. -/
theorem count_regions {newRefs newRegions : List (Operand × MemAccess)}
    (hrefs : newRefs.map Prod.fst = ops)
    (hregions : newRegions.map Prod.fst = (List.replicate k ops.reverse).flatten) (getLoad : Bool) :
    ((newRefs ++ newRegions).filter fun x => x.1.getLoad = getLoad).length =
      ops.countP (fun o => o.getLoad = getLoad) * (1 + k) := by
  have htags : (newRefs ++ newRegions).map Prod.fst =
      ops ++ (List.replicate k ops.reverse).flatten := by
    rw [List.map_append, hrefs, hregions]
  have hcount := congrArg (List.countP fun o => o.getLoad = getLoad) htags
  rw [List.countP_map, @List.countP_append _ _ ops, List.countP_flatten, List.map_replicate,
    List.countP_reverse, List.sum_replicate_nat, Nat.mul_comm k] at hcount
  rw [← List.countP_eq_length_filter, Nat.mul_add, Nat.mul_one]
  exact hcount

theorem Progress.owner_mem (h : Progress p M ops refsOf n k s)
    {newRefs : List (Operand × MemAccess)}
    (hrefs : newRefs.map Prod.fst = ops) : ∀ x ∈ newRefs ++ s.newRegions, x.1 ∈ ops := by
  intro x hx
  rcases List.mem_append.mp hx with hx | hx
  · exact hrefs ▸ List.mem_map.mpr ⟨x, hx, rfl⟩
  · have htag : x.1 ∈ (List.replicate k ops.reverse).flatten :=
      h.pushed ▸ List.mem_map.mpr ⟨x, hx, rfl⟩
    obtain ⟨l, hl, hxl⟩ := List.mem_flatten.mp htag
    rw [List.eq_of_mem_replicate hl] at hxl
    exact List.mem_reverse.mp hxl

section Finish

variable (h : Progress p M ops refsOf n k s) (hsize : SizeOk p.refSize)

include h hsize

/-- The number of full regions, from the number of iterations behind the first. -/
theorem Progress.pushed_eq {c : Nat} (hn : n = 1 + c) : k = c * p.refSize / refRegionChunk := by
  have htotal := h.total
  have hsmall := h.small
  have hle : p.refSize ≤ s.newRegionSize := by
    refine Nat.le_of_dvd h.pos ?_
    rw [← hsize.perRegion_mul, ← Nat.mul_assoc] at htotal
    exact (Nat.dvd_add_right (Nat.dvd_mul_left p.refSize (k * perRegion p))).mp
      (htotal ▸ Nat.dvd_mul_left p.refSize n)
  have hpos := hsize.bounds.1
  rw [hn, Nat.add_mul, Nat.one_mul] at htotal
  rw [show c * p.refSize = refRegionChunk * k + (s.newRegionSize - p.refSize) by
    rw [Nat.mul_comm refRegionChunk]
    omega, Nat.mul_add_div (by decide), Nat.div_eq_of_lt (by omega), Nat.add_zero]

/-- With the values in place, the unfinished regions and the full ones describe everything. -/
theorem Progress.finish (hnodup : ops.Nodup) (hlen : ∀ o ∈ ops, (refsOf o).length = n) :
    ∃ newRefs, (s.newRefs.mapM fun x => do
      let newRef ← shiftValues p s.newRegionSize x.2
      .ok (x.1, newRef)) = .ok newRefs ∧ newRefs.map Prod.fst = ops ∧
    ∀ o ∈ ops, Covering Contains Contains (SameMemory p.useValues) (refsOf o)
      (((newRefs ++ s.newRegions).filter fun x => x.1 = o).map Prod.snd) := by
  obtain ⟨newRefs, hok, htags, hall⟩ := mapM_tagged (t := Prod.fst) (l := s.newRefs)
    (P := fun x g => Covering Contains Contains (SameMemory p.useValues) (refsOf x.1)
      (g :: s.doneOf x.1))
    (f := fun x => do
      let newRef ← shiftValues p s.newRegionSize x.2
      .ok (x.1, newRef))
    (by
      intro x hx
      have hop : x.1 ∈ ops := h.operands ▸ List.mem_map.mpr ⟨x, hx, rfl⟩
      obtain ⟨old, cur, hsplit, hmerged⟩ := h.merged x hx
      rw [List.take_of_length_le (Nat.le_of_eq (hlen x.1 hop))] at hsplit
      obtain ⟨g, hshift, hregion⟩ := shiftValues_spec hmerged.region
      rw [h.sizes x hx] at hshift
      refine ⟨g, ?_, ?_⟩
      · simp only [bind, Except.bind, hshift]
      · rw [hsplit]
        exact hmerged.close hsize.bounds.1 hregion)
  refine ⟨newRefs, hok, htags.trans h.operands, ?_⟩
  intro o ho
  obtain ⟨y, hy, rfl⟩ := List.mem_map.mp ((htags.trans h.operands).symm ▸ ho)
  obtain ⟨x, -, hxy, hcovering⟩ := hall y hy
  have hown : newRefs.filter (fun z => z.1 = y.1) = [y] :=
    filter_tag (by rw [htags, h.operands]; exact hnodup) hy
  rw [List.filter_append, hown, hxy]
  exact hcovering

end Finish

namespace ReplayBuffer

/-- What is left to do after the loop attaches regions that describe the references. -/
theorem finishREP_spec (b : ReplayBuffer InstInfo RepMemRegions Regs) {handle : Ref}
    (hacc : AcceptedREP p nLoads nStores (b.cell handle).softsdvInstr.data merged refsOf)
    (h : Progress p M (repOperands nLoads nStores) refsOf (1 + merged.length) k s) :
    ∃ instr regions owned, b.finishREP handle p nLoads nStores s =
        .ok ((b.setSdvInstr handle instr).setREPMemRegions handle regions) ∧
      regions.Describe p (repOperands nLoads nStores) refsOf owned := by
  obtain ⟨newRefs, hshift, htags, hcovering⟩ := h.finish hacc.size
    (nodup_repOperands nLoads nStores) (fun o ho => hacc.length_refs ho)
  obtain ⟨baseInstr, hupdate⟩ := updateVirtualRegions_spec (p := p)
    (w := BitVec.ofNat 32 s.newRegionSize + s.listElements * BitVec.ofNat 32 refRegionChunk)
    (l := newRefs) (i := (b.cell handle).softsdvInstr.data) (by
      intro x hx
      obtain ⟨r, hr, -⟩ := (hacc.nextRefs (n := 0) rfl).getRef x.1
        (htags ▸ List.mem_map.mpr ⟨x, hx, rfl⟩)
      exact ⟨r, hr⟩)
  have hk := h.pushed_eq hacc.size rfl
  obtain ⟨s', hs'⟩ : ∃ s' : MergeState, s' = { s with newRefs } := ⟨_, rfl⟩
  have hcount : ∀ getLoad, (s'.refs getLoad).length =
      (if getLoad then nLoads else nStores) * (1 + k) := by
    intro getLoad
    rw [hs', MergeState.refs, List.length_map, count_regions htags h.pushed, count_repOperands]
  have hloads := setRegions_spec (hcount true) (by rw [hk]; exact hacc.roomLoads)
  have hstores := setRegions_spec (hcount false) (by rw [hk]; exact hacc.roomStores)
  have hregions : repMemRegions nLoads nStores s' = .ok
      ⟨(s'.refs true).length, (s'.refs false).length, s'.refs true, s'.refs false⟩ := by
    have helements : s'.listElements = BitVec.ofNat 32 k := by rw [hs', h.listElements]
    simp only [if_true, Bool.false_eq_true, if_false] at hloads hstores
    unfold repMemRegions
    simp only [helements, hloads, hstores, bind, Except.bind]
  refine ⟨{ (b.cell handle).softsdvInstr with data := baseInstr },
    ⟨(s'.refs true).length, (s'.refs false).length, s'.refs true, s'.refs false⟩,
    newRefs ++ s.newRegions, ?_, ?_⟩
  · unfold finishREP
    rw [hshift]
    simp only [bind, Except.bind, hupdate]
    rw [← hs', hregions]
  · exact
      { owners := h.owner_mem htags
        loads := by rw [hs']; rfl
        stores := by rw [hs']; rfl
        nLoads := rfl
        nStores := rfl
        covering := hcovering }

/-! ### The merge -/

section Merge

variable {b : ReplayBuffer InstInfo RepMemRegions Regs} {xs ys free : List Ref} {handle : Ref}
  {refills : List (List (Incoming Regs))}

theorem mergeREPInstrs_nothing (h : b.list.WF (xs ++ handle :: ys) free)
    (hrun : RepRun (b.cell handle).softsdvInstr.data.addrVirtual (b.instrs ys)
      (refills.map arrivals) [] rest) : b.mergeREPInstrs handle refills = .ok b := by
  have hnext : (b.cell handle).next = ys.head? := h.next_at
  have hstop : ∀ i ∈ (b.instrs ys).head?,
      ¬ continuesREP (b.cell handle).softsdvInstr.data.addrVirtual i.data := by
    generalize b.instrs ys = queue at hrun ⊢
    cases hrun with
    | stop hstop => exact hstop
  unfold mergeREPInstrs
  rw [hnext]
  cases ys with
  | nil => rfl
  | cons y ys => exact if_pos (hstop _ rfl)

theorem list_attach (b : ReplayBuffer InstInfo RepMemRegions Regs) (r : Ref)
    (instr : SdvInstr InstInfo) (regions : RepMemRegions) :
    ((b.setSdvInstr r instr).setREPMemRegions r regions).list = { b.list with
      entry := Function.update b.list.entry r { b.list.entry r with softsdvInstr := instr } } := by
  rw [setREPMemRegions, list_modify_same _ rfl rfl rfl, list_setSdvInstr]

/-- More passes than there are instructions to merge. -/
theorem merged_lt_fuel (h : b.list.WF (xs ++ handle :: ys) free) {addrVirtual : BitVec 64}
    (hrun : RepRun addrVirtual (b.instrs ys) (refills.map arrivals) merged rest) :
    merged.length < b.nCells + (refills.map List.length).sum + 1 := by
  have hlen := hrun.length_le
  have hcells := length_le_nCells h
  have harrivals : ((refills.map arrivals).map List.length).sum ≤
    (refills.map List.length).sum := by
    clear hrun hlen
    induction refills with
    | nil => exact Nat.le_refl 0
    | cons refill refills ih =>
        have := List.length_filterMap_le Incoming.instr? refill
        simp only [List.map_cons, List.sum_cons, arrivals] at ih ⊢
        omega
  rw [instrs, List.length_map] at hlen
  rw [List.length_append, List.length_cons] at hcells
  omega

/-- The merge runs its loop from the regions of the first iteration. -/
theorem mergeREPInstrs_eq (h : b.list.WF (xs ++ handle :: ys) free) {i : SdvInstr InstInfo}
    (hi : (b.instrs ys).head? = some i)
    (hcontinues : continuesREP (b.cell handle).softsdvInstr.data.addrVirtual i.data)
    (hacc : AcceptedREP p nLoads nStores (b.cell handle).softsdvInstr.data merged refsOf)
    (hhead : merged.head? = some i) {newRefs : List (Operand × MemAccess)}
    (hinit : initREPRegions p (repOperands nLoads nStores) (b.cell handle).softsdvInstr.data =
      .ok newRefs) :
    b.mergeREPInstrs handle refills = (do
      let (b, s) ← b.mergeLoop p (b.cell handle).softsdvInstr.data.addrVirtual handle
        (b.nCells + (refills.map List.length).sum + 1) refills ⟨newRefs, [], 0, p.refSize⟩
      b.finishREP handle p nLoads nStores s) := by
  cases ys with
  | nil => cases hi
  | cons y ys =>
      have hnext : (b.cell handle).next = some y := h.next_at
      have hy : (b.cell y).softsdvInstr = i := Option.some.inj hi
      have hparams := repParams_spec hacc hhead
      unfold mergeREPInstrs
      rw [hnext]
      simp only [hy, if_neg (not_not.mpr hcontinues), repRefs_spec hacc, bind, Except.bind, hparams,
        hinit]

theorem mergeREPInstrs_merged (h : b.list.WF (xs ++ handle :: ys) free)
    (hrun : RepRun (b.cell handle).softsdvInstr.data.addrVirtual (b.instrs ys)
      (refills.map arrivals) merged rest) (hne : merged ≠ [])
    (hacc : AcceptedREP p nLoads nStores (b.cell handle).softsdvInstr.data merged refsOf) :
    (∃ b' regions owned zs free', b.mergeREPInstrs handle refills = .ok b' ∧
      b'.list.WF (xs ++ handle :: (ys.drop merged.length ++ zs)) free' ∧
      b'.instrs (ys.drop merged.length ++ zs) = rest ∧
      (∀ r ∈ xs ++ ys.drop merged.length, b'.list.entry r = b.list.entry r) ∧
      (b'.cell handle).repMemRegions = some regions ∧
      regions.Describe p (repOperands nLoads nStores) refsOf owned) ∨
    b.mergeREPInstrs handle refills = .error registersOutOfOrder := by
  have hnodup := nodup_repOperands nLoads nStores
  choose! M hM using fun o ho => (hacc.accepted o ho).exists_table
  obtain ⟨newRefs, hinit, hprogress⟩ := initREPRegions_spec hacc.size hM (hacc.nextRefs rfl)
  have hnext : NextAll (repOperands nLoads nStores) refsOf 1 merged := by
    intro j i hi
    refine hacc.nextRefs ?_
    rw [Nat.add_comm, List.getElem?_cons_succ, List.getElem?_map, hi]
    rfl
  obtain ⟨i, hi, hqueue, hcontinues⟩ : ∃ i, merged.head? = some i ∧
      (b.instrs ys).head? = some i ∧
      continuesREP (b.cell handle).softsdvInstr.data.addrVirtual i.data := by
    generalize b.instrs ys = queue at hrun ⊢
    cases hrun with
    | stop => exact absurd rfl hne
    | step hi => exact ⟨_, rfl, rfl, hi⟩
  rw [mergeREPInstrs_eq h hqueue hcontinues hacc hi hinit]
  rcases mergeLoop_spec hacc.size hnodup hacc.accepted hM hrun h rfl rfl hprogress hnext
    (merged_lt_fuel h hrun) with ⟨b₁, s, k, zs, free', hloop, hprogress', hwf, hinstrs, hentry,
      hhandle⟩ | herr
  · have hacc₁ : AcceptedREP p nLoads nStores (b₁.cell handle).softsdvInstr.data merged refsOf := by
      have hdata : (b₁.cell handle).softsdvInstr = (b.cell handle).softsdvInstr := hhandle
      rw [hdata]
      exact hacc
    obtain ⟨instr, regions, owned, hfinish, hdescribe⟩ := finishREP_spec b₁ hacc₁ hprogress'
    have hlist := list_attach b₁ handle instr regions
    have hkept : ∀ r ∈ xs ++ (ys.drop merged.length ++ zs),
        ((b₁.setSdvInstr handle instr).setREPMemRegions handle regions).list.entry r =
          b₁.list.entry r := by
      intro r hr
      have hne' : r ≠ handle := by
        intro he
        have hnd := (List.nodup_append.mp hwf.nodup).1
        rw [List.nodup_middle, List.nodup_cons] at hnd
        exact hnd.1 (he ▸ hr)
      rw [hlist]
      exact Function.update_of_ne hne' ..
    refine Or.inl ⟨(b₁.setSdvInstr handle instr).setREPMemRegions handle regions, regions, owned,
      zs, free', ?_, ?_, ?_, ?_, ?_, hdescribe⟩
    · rw [hloop]
      exact hfinish
    · rw [hlist]
      exact hwf.congr (fun _ _ => rfl) (fun _ _ => rfl) rfl rfl rfl hwf.cursor (Nat.le_refl _)
    · rw [← hinstrs]
      exact instrs_congr fun r hr => hkept r (List.mem_append_right _ hr)
    · intro r hr
      rw [hkept r (by rw [← List.append_assoc]; exact List.mem_append_left _ hr), hentry r hr]
    · unfold setREPMemRegions modify
      simp only [Function.update_self]
  · refine Or.inr ?_
    rw [herr]
    rfl

/--
**A merged REP describes the memory of its iterations.**  Behind the handle the loop meets
the instructions `merged`.  When there are none, nothing changes.  Otherwise the merge ends,
unless a refill finds register values missing; the cells of `merged` are gone from the list
and no others; and the regions attached to the handle describe the references of each operand.
-/
theorem mergeREPInstrs_exact (h : b.list.WF (xs ++ handle :: ys) free)
    (hrun : RepRun (b.cell handle).softsdvInstr.data.addrVirtual (b.instrs ys)
      (refills.map arrivals) merged rest)
    (hacc : merged ≠ [] →
      AcceptedREP p nLoads nStores (b.cell handle).softsdvInstr.data merged refsOf) :
    (merged = [] → b.mergeREPInstrs handle refills = .ok b) ∧
    (merged ≠ [] → (∃ b' regions owned zs free', b.mergeREPInstrs handle refills = .ok b' ∧
        b'.list.WF (xs ++ handle :: (ys.drop merged.length ++ zs)) free' ∧
        b'.instrs (ys.drop merged.length ++ zs) = rest ∧
        (∀ r ∈ xs ++ ys.drop merged.length, b'.list.entry r = b.list.entry r) ∧
        (b'.cell handle).repMemRegions = some regions ∧
        regions.Describe p (repOperands nLoads nStores) refsOf owned) ∨
      b.mergeREPInstrs handle refills = .error registersOutOfOrder) := by
  constructor
  · intro hnil
    subst hnil
    exact mergeREPInstrs_nothing h hrun
  · intro hne
    exact mergeREPInstrs_merged h hrun hne (hacc hne)

end Merge

/-! ### Two iterations -/

/-- An iteration that loads four bytes from one page. -/
def loadIteration (va page : BitVec 64) : SdvInstr InstInfo where
  regsUid := 0
  instrTag := none
  data :=
    { addrVirtual := 0x400000
      warmUp := false
      loads := [{
        baseVA := va
        pages := fun _ => page &&& pageMask
        valueStorage := some ⟨4, fun j => UInt8.ofNat (va.toNat + j)⟩
        nPages := 1
        nBytes := 4
        refSource := .instruction
        valueSet := true
        aligned := fun _ => and_pageMask_and page
        nPages_le := by decide
        stored := fun _ => rfl }]
      stores := [] }

/-- The buffer after the two iterations arrived. -/
def twoIterations (page page' : BitVec 64) : ReplayBuffer InstInfo RepMemRegions Unit :=
  let cell := fun _ => ⟨⟨loadIteration 0 0, 0, false, false⟩, none, none, none, none⟩
  let fetched := (empty cell fun _ => ⟨0, ()⟩).fetchIncomingInstructions
    [.instr (loadIteration 0x1000 page), .instr (loadIteration 0x1004 page')]
  match fetched with
  | .ok b => b
  | .error _ => empty cell fun _ => ⟨0, ()⟩

theorem twoIterations_wf (page page' : BitVec 64) :
    (twoIterations page page').list.WF ([] ++ 0 :: [1]) [] where
  seg := ⟨rfl, rfl, rfl, rfl, trivial⟩
  head := rfl
  tail := rfl
  freed := rfl
  nodup := by decide
  bound := by
    exact (by decide : ∀ r ∈ [0, 1], r < 2)
  cursor := by
    intro r hr
    cases hr
    decide

/-- The iterations may disagree where a page is, and then the region has only one answer. -/
theorem mergeREPInstrs_one_page : ∃ b' regions g r,
    (twoIterations 0x10000 0x20000).mergeREPInstrs 0 [] = .ok b' ∧
      (b'.cell 0).repMemRegions = some regions ∧ regions.loads = [g] ∧
      (loadIteration 0x1004 0x20000).data.loads = [r] ∧ r.Contains 0x1004 ∧ g.Contains 0x1004 ∧
      r.pTranslate 0x1004 = .ok 0x20004 ∧ g.pTranslate 0x1004 = .ok 0x10004 := by
  refine ⟨_, _, _, _, rfl, rfl, rfl, rfl, ?_, ?_, ?_, ?_⟩
  · decide
  · decide
  · rfl
  · rfl

/-- The references of the two iterations to their one operand. -/
def twoRefs : List MemAccess :=
  (loadIteration 0x1000 0x10000).data.loads ++ (loadIteration 0x1004 0x10000).data.loads

theorem twoRefs_page {r : MemAccess} (hr : r ∈ twoRefs) {va : BitVec 64} (hva : r.Contains va) :
    physPage r va = .ok 0x10000 := by
  have hone : ∀ r ∈ twoRefs,
      r.nPages = 1 ∧ r.pages 0 = 0x10000 ∧ r.baseVA.toNat + r.nBytes < 2 ^ 64 := by decide
  obtain ⟨hn, hpage, hend⟩ := hone r hr
  have hof : r.pageOf va = 0x10000 := by rw [pageOf, if_pos (Or.inl hn), hpage]
  have hadd := page_add_offset (r.pageOf_and_pageMask va) va
  rw [physPage, pTranslate_eq (by omega) hend hva]
  exact congrArg Except.ok (hadd.trans hof)

theorem accepted_twoRefs : Accepted ⟨4, true, true⟩ twoRefs where
  source := by decide
  size := by decide
  contiguous := List.isChain_pair.mpr rfl
  values := by decide
  noValues := fun _ r hr _ => (by decide : ∀ r ∈ twoRefs, r.valueSet = true) r
    (List.mem_of_getElem? hr)
  pages := by decide
  fits := by decide
  samePages := by
    intro i j r r' hr hr' _ va va' hva hva' _
    rw [twoRefs_page (List.mem_of_getElem? hr) hva, twoRefs_page (List.mem_of_getElem? hr') hva']

theorem mergeREPInstrs_exact_two : ∃ b' regions owned,
    (twoIterations 0x10000 0x10000).mergeREPInstrs 0 [] = .ok b' ∧
      (b'.cell 0).repMemRegions = some regions ∧
      regions.Describe ⟨4, true, true⟩ [⟨true, 0⟩] (fun _ => twoRefs) owned := by
  have hrun : RepRun 0x400000 ((twoIterations 0x10000 0x10000).instrs [1])
    (([] : List (List (Incoming Unit))).map arrivals)
      [(loadIteration 0x1004 0x10000)] [] := RepRun.step (by decide) (RepRun.stop (by simp))
  have hexact := mergeREPInstrs_exact (twoIterations_wf 0x10000 0x10000) hrun
    (fun _ =>
      { loads := rfl
        stores := rfl
        someRef := by decide
        maxLoads := by decide
        maxStores := by decide
        size := Or.inr (Or.inr (Or.inl rfl))
        useValues := by
          intro r hr
          cases hr
          rfl
        refs := by
          intro o ho
          have hone : o ∈ [(⟨true, 0⟩ : Operand)] := ho
          rw [List.mem_singleton.mp hone]
          rfl
        accepted := fun _ _ => accepted_twoRefs
        roomLoads := by decide
        roomStores := by decide })
  rcases hexact.2 (List.cons_ne_nil _ _) with ⟨b', regions, owned, _, _, hok, _, _, _,
    hat, h⟩ | herr
  · exact ⟨b', regions, owned, hok, hat, h⟩
  · cases herr

end ReplayBuffer

end AsimFeeder.SoftSDV
