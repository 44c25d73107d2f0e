/-
What a register that is mapped keeps.

A thread that waits still fetches and commits.  Neither touches a register that the map
names: a fetch writes no register, and a commit frees one that is not mapped any more.
-/
import AsimFeeder.Aint.Renaming

namespace AsimFeeder.Aint

open Lib

namespace RenameThread

variable {t t' : RenameThread} {instid : UInt64} {reg : LogicalRegNum}

/-! ### Only registers are written -/

theorem rollback_congr (hcbif : t'.cbif = t.cbif) (current : UInt64) (fuel : Nat) (i : UInt64)
    (map : LogicalRegNum → Nat) : t'.rollback current fuel i map =
      t.rollback current fuel i map := by
  induction fuel generalizing i map with
  | zero => rfl
  | succ fuel ih =>
      unfold rollback
      rw [hcbif]
      simp only [ih]

/-- What only writes registers. -/
structure Writes (t t' : RenameThread) : Prop where
  eq : t' = { t with regs := t'.regs }
  map : t'.regs.RegMap = t.regs.RegMap

theorem Writes.refl (t : RenameThread) : Writes t t := ⟨rfl, rfl⟩

theorem Writes.trans {t'' : RenameThread} (h : Writes t t') (h' : Writes t' t'') :
    Writes t t'' := by
  refine ⟨?_, h'.map.trans h.map⟩
  rw [h'.eq, h.eq]

theorem Writes.cbif (h : Writes t t') : t'.cbif = t.cbif := by
  rw [h.eq]

theorem Writes.flight (h : Writes t t') : t'.flight = t.flight := by
  rw [h.eq]

theorem Writes.snapshot (h : Writes t t') (instid : UInt64) :
    t'.AINT_regmap_snapshot instid = t.AINT_regmap_snapshot instid := by
  have hinstid : t'.instid = t.instid := by rw [h.eq]
  unfold AINT_regmap_snapshot
  rw [rollback_congr h.cbif, h.map, hinstid]

theorem Writes.cell (h : Writes t t') (instid : UInt64) (target : Target) :
    t'.cell instid target = t.cell instid target := by
  cases target with
  | element arg i =>
      unfold RenameThread.cell
      rw [h.cbif]
  | mapped reg =>
      unfold RenameThread.cell
      rw [h.map]
  | atCall reg =>
      unfold RenameThread.cell
      rw [h.snapshot]

theorem writes_write (t : RenameThread) (pr : Nat) (value : Int) :
    Writes t { t with regs := t.regs.write pr value } := ⟨rfl, rfl⟩

/-- A register that is none of the cells keeps its value. -/
theorem writes_writeCells {writes : List (Target × Int)}
    (h : writeCells instid writes t = some t') :
    Writes t t' ∧ ∀ pr, (∀ w ∈ writes, t.cell instid w.1 ≠ some pr) →
      t'.regs.Reg pr = t.regs.Reg pr := by
  induction writes generalizing t with
  | nil =>
      cases h
      exact ⟨.refl _, fun _ _ => rfl⟩
  | cons w rest ih =>
      rw [writeCells, Option.bind_eq_some_iff] at h
      obtain ⟨cell, hcell, hrest⟩ := h
      obtain ⟨hwrites, hkeeps⟩ := ih hrest
      have hfirst := writes_write t cell w.2
      refine ⟨hfirst.trans hwrites, ?_⟩
      intro pr hpr
      have hne : pr ≠ cell := by
        rintro rfl
        exact hpr w List.mem_cons_self hcell
      rw [hkeeps pr]
      · exact Function.update_of_ne hne _ _
      · intro w' hw'
        rw [hfirst.cell]
        exact hpr w' (List.mem_cons_of_mem w hw')

theorem writes_issue {writes : List (Target × Int)}
    (h : t.AINT_issue_other instid writes = some t') : Writes t t' := by
  unfold AINT_issue_other at h
  dsimp only at h
  split at h
  · cases h
    exact .refl t
  · split at h
    · exact (writes_writeCells h).1
    · exact (writes_write t _ _).trans (writes_writeCells h).1

/-! ### Fetches and commits -/

variable (reg) in
/-- A fetch writes no register, and maps none but the one that its instruction writes. -/
theorem fetch_keeps {picode : Option Icode} (h : t.AINT_fetch_next_instr picode = some t')
    (hleaves : ∀ p dest, picode = some p → p.dest = some dest → p.args dest ≠ reg) :
    t'.regs.Reg = t.regs.Reg ∧ t'.regs.RegMap reg = t.regs.RegMap reg := by
  cases picode with
  | none =>
      cases h
      exact ⟨rfl, rfl⟩
  | some picode =>
      unfold AINT_fetch_next_instr at h
      dsimp only at h
      split at h
      · cases h
      · cases hdest : picode.dest with
        | none =>
            rw [hdest] at h
            cases h
            exact ⟨rfl, rfl⟩
        | some dest =>
            rw [hdest] at h
            obtain ⟨⟨pr, regs⟩, hremap, rfl⟩ := Option.map_eq_some_iff.mp h
            have hne : reg ≠ picode.args dest := Ne.symm (hleaves picode dest rfl hdest)
            unfold RegFile.ReMap at hremap
            dsimp only at hremap
            split at hremap
            · cases hremap
              exact ⟨rfl, rfl⟩
            · split at hremap
              · cases hremap
              · cases hremap
                refine ⟨RegFile.Reg_setFree, ?_⟩
                show Function.update _ _ _ reg = _
                rw [Function.update_of_ne hne, RegFile.RegMap_setFree]

theorem Reg_release_of_ne {r : RegFile} {pr p : Nat} (h : p ≠ pr) :
    (r.release pr).Reg p = r.Reg p := by
  unfold RegFile.release
  dsimp only
  rw [RegFile.Reg_setFree]
  exact Function.update_of_ne h _ _

/-- The oldest instruction keeps no register that is mapped. -/
theorem Conserves.mapped_ne_old (h : t.Conserves) (hreg : isNonzero reg = true)
    {x : InflightInst} {rest : List InflightInst} (hold : t.window = x :: rest) {picode : Icode}
    (hx : x.picode = some picode) {dest : Arg} (hdest : picode.dest = some dest)
    (hkept : x.OldDest_Phys ≠ ZERO_REGISTER) : t.regs.RegMap reg ≠ x.OldDest_Phys := by
  obtain ⟨base, hbase⟩ := h.renames
  have hnonzero : isNonzero (picode.args dest) = true := by
    by_contra hzero
    rw [Bool.not_eq_true] at hzero
    rw [hold] at hbase
    cases hbase with
    | cons hy hl =>
        obtain rfl := Option.some.inj (hy.entry.symm.trans hx)
        apply hkept
        rw [hy.old dest hdest, (Renames.cons hy hl).zero hzero]
        exact h.zero _ hzero
  intro heq
  have hmem := mem_logicals.mpr ⟨hreg, rfl⟩
  have hmem' := mem_logicals.mpr ⟨hnonzero, rfl⟩
  generalize decide (FIRST_VEC_LOGICAL ≤ reg.val) = vec at hmem
  generalize decide (FIRST_VEC_LOGICAL ≤ (picode.args dest).val) = vec' at hmem'
  have hmapped : t.regs.RegMap reg ∈ (logicals vec).map t.regs.RegMap := List.mem_map_of_mem hmem
  have holds : x.OldDest_Phys ∈ t.olds vec' := by
    rw [olds_cons hold]
    apply List.mem_append_left
    unfold InflightInst.old?
    rw [hx, Option.bind_some, hdest, Option.bind_some, if_pos hmem']
    exact List.mem_singleton_self _
  obtain ⟨free, hfree⟩ := h.partition vec
  obtain ⟨free', hfree'⟩ := h.partition vec'
  have hphys := (hfree.of_owned (List.mem_append_left _ hmapped)).2
  have hphys' := (hfree'.of_owned (List.mem_append_right _ holds)).2
  rw [← heq] at hphys' holds
  obtain rfl : vec = vec' := (class_of_mem hphys).1.symm.trans (class_of_mem hphys').1
  have hnodup := hfree.perm.nodup_iff.mpr (nodup_physicals vec)
  exact (List.nodup_append.mp (List.nodup_append.mp hnodup).1).2.2 _ hmapped _ holds rfl

variable (reg) in
/-- **A commit leaves what is mapped as it is.** -/
theorem Conserves.commit_keeps (h : t.Conserves) {l : List UInt64}
    (hflight : t.flight = instid :: l)
    (hcommit : t.AINT_commit_instr instid = some t') :
    t'.regs.RegMap = t.regs.RegMap ∧ (isNonzero reg = true →
      t'.regs.Reg (t.regs.RegMap reg) = t.regs.Reg (t.regs.RegMap reg)) := by
  have hold : t.window = t.cbif instid :: l.map t.cbif := by
    unfold window
    rw [hflight]
    rfl
  unfold AINT_commit_instr at hcommit
  dsimp only at hcommit
  obtain ⟨picode, hpicode, hrest⟩ := Option.bind_eq_some_iff.mp hcommit
  have hregs : t'.regs = if picode.dest.isSome ∧ (t.cbif instid).OldDest_Phys ≠ ZERO_REGISTER then
      t.regs.release (t.cbif instid).OldDest_Phys else t.regs := by
    split at hrest
    · cases hrest
    · split at hrest
      · cases hrest
        rfl
      · cases hrest
        rfl
  rw [hregs]
  by_cases hfrees : picode.dest.isSome ∧ (t.cbif instid).OldDest_Phys ≠ ZERO_REGISTER
  · rw [if_pos hfrees]
    obtain ⟨dest, hdest⟩ := Option.isSome_iff_exists.mp hfrees.1
    refine ⟨RegMap_release _ _, ?_⟩
    intro hreg
    exact Reg_release_of_ne (h.mapped_ne_old hreg hold hpicode hdest hfrees.2)
  · rw [if_neg hfrees]
    exact ⟨rfl, fun _ => rfl⟩

/-! ### The map of an earlier instruction -/

/-- A register that was mapped twice would be owned twice. -/
theorem count_base_le {base map : LogicalRegNum → Nat} {l : List InflightInst}
    (h : Renames base l map) (vec : Bool) (pr : Nat) :
    ((logicals vec).map base).count pr ≤ (Renames.owned vec l map).count pr := by
  induction h with
  | nil =>
      unfold Renames.owned
      rw [List.count_append]
      exact Nat.le_add_right _ _
  | @cons base map x picode l hx hl ih =>
      have hcons : (Renames.owned vec (x :: l) map).count pr
          = (Renames.owned vec l map).count pr + (x.old? vec).toList.count pr := by
        unfold Renames.owned
        rw [List.filterMap_cons, List.count_append, List.count_append]
        cases x.old? vec with
        | none => simp
        | some old =>
            simp only [Option.toList_some, List.count_cons, List.count_nil]
            omega
      rw [hcons]
      by_cases hrenames : ∃ dest, picode.dest = some dest ∧ picode.args dest ∈ logicals vec
      · obtain ⟨dest, hdest, hmem⟩ := hrenames
        have hnonzero : x.args dest ≠ ZERO_REGISTER := by
          rw [Ne, hx.zero dest hdest, (mem_logicals.mp hmem).1]
          decide
        rw [InflightInst.after_dest hdest hnonzero] at ih
        rw [hx.old?_eq hdest hmem]
        have hperm := (perm_rename (nodup_logicals vec) hmem base (x.args dest) [] []).count_eq pr
        simp only [List.nil_append, List.append_nil, List.count_append, List.count_cons,
          List.count_nil] at hperm
        simp only [Option.toList_some, List.count_cons, List.count_nil]
        omega
      · have hsame : (logicals vec).map (x.after base picode) = (logicals vec).map base := by
          apply List.map_congr_left
          intro reg hreg
          apply hx.after_of_ne
          intro dest hdest hargs
          exact absurd ⟨dest, hdest, hargs ▸ hreg⟩ hrenames
        rw [hsame] at ih
        omega

/-- **The map of an instruction in flight names different registers.** -/
theorem Conserves.snapshot_inj (h : t.Conserves) (hmem : instid ∈ t.flight)
    {map : LogicalRegNum → Nat} (hmap : t.AINT_regmap_snapshot instid = some map) {vec : Bool}
    {reg reg' : LogicalRegNum} (hreg : reg ∈ logicals vec) (hreg' : reg' ∈ logicals vec)
    (heq : map reg = map reg') : reg = reg' := by
  obtain ⟨older, younger, mid, hflight, hsnapshot, hyounger, -⟩ := h.regmap_snapshot hmem
  obtain rfl : map = mid := Option.some.inj (hmap.symm.trans hsnapshot)
  obtain ⟨free, hfree⟩ := h.partition vec
  have hnodup : ((logicals vec).map map).Nodup := by
    rw [List.nodup_iff_count_le_one]
    intro pr
    have hbase := count_base_le hyounger vec pr
    have hphys := List.nodup_iff_count_le_one.mp
      (hfree.perm.nodup_iff.mpr (nodup_physicals vec)) pr
    unfold Renames.owned at hbase
    unfold olds window at hphys
    rw [hflight, List.map_append, List.map_cons, List.filterMap_append] at hphys
    rw [List.count_append] at hbase
    rw [List.count_append, List.count_append, List.count_append, List.filterMap_cons] at hphys
    split at hphys
    · omega
    · rw [List.count_cons] at hphys
      omega
  exact List.inj_on_of_nodup_map hnodup hreg hreg' heq

end RenameThread

end AsimFeeder.Aint
