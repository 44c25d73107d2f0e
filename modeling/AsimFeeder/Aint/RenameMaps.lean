/-
What the maps of the instructions in flight hold.

Every instruction was renamed in the map that the one before it left (`Renames`).  So its
arguments, and the maps that a rollback goes through, name registers that are mapped now
or kept by an instruction in flight as its old destination.
-/
import AsimFeeder.Aint.RenameRing

namespace AsimFeeder.Aint

open Lib

/-! ### Classes of registers -/

/-- Not one of the two registers that are always zero. -/
def isNonzero (reg : LogicalRegNum) : Bool :=
  !(reg.val == ZERO_REGISTER || reg.val == FP_ZERO_REGISTER)

/-- The logical registers of a class that are renamed. -/
def logicals (vec : Bool) : List LogicalRegNum :=
  (List.finRange 100).filter fun reg =>
    isNonzero reg && decide (FIRST_VEC_LOGICAL ≤ reg.val) == vec

/-- The physical registers of a class, by their first cells. -/
def physicals (vec : Bool) : List Nat :=
  if vec then
    (List.range (32 * LOG_TO_PHY_RATIO)).map fun i => i * MAX_VECTOR_LENGTH + FIRST_VECTOR_PHYSICAL
  else (List.range TOTAL_SCALAR_PHYSICALS).filter fun pr => pr != ZERO_REGISTER

theorem isNonzero_iff {reg : LogicalRegNum} :
    isNonzero reg = true ↔ ¬ (reg.val = ZERO_REGISTER ∨ reg.val = FP_ZERO_REGISTER) := by
  simp [isNonzero]

theorem mem_logicals {vec : Bool} {reg : LogicalRegNum} :
    reg ∈ logicals vec ↔ isNonzero reg = true ∧ decide (FIRST_VEC_LOGICAL ≤ reg.val) = vec := by
  simp [logicals]

theorem nodup_logicals (vec : Bool) : (logicals vec).Nodup :=
  (List.nodup_finRange 100).filter _

theorem mem_physicals {vec : Bool} {pr : Nat} :
    pr ∈ physicals vec ↔ if vec then 1536 ≤ pr ∧ pr < 67072 ∧ pr % 128 = 0
      else pr < 1536 ∧ pr ≠ 31 := by
  unfold physicals
  cases vec with
  | false => simp [TOTAL_SCALAR_PHYSICALS, LOG_TO_PHY_RATIO, ZERO_REGISTER]
  | true =>
      simp only [if_true, List.mem_map, List.mem_range, LOG_TO_PHY_RATIO, MAX_VECTOR_LENGTH,
        FIRST_VECTOR_PHYSICAL, TOTAL_SCALAR_PHYSICALS]
      constructor
      · rintro ⟨i, hi, rfl⟩
        omega
      · rintro ⟨hlo, hhi, hmod⟩
        exact ⟨(pr - 1536) / 128, by omega, by omega⟩

theorem nodup_physicals (vec : Bool) : (physicals vec).Nodup := by
  unfold physicals
  cases vec with
  | false => exact List.nodup_range.filter _
  | true =>
      rw [if_pos rfl]
      apply List.Nodup.map _ List.nodup_range
      intro i j hij
      simp only [MAX_VECTOR_LENGTH] at hij
      omega

/-- Where a register is released to. -/
theorem class_of_mem {vec : Bool} {pr : Nat} (h : pr ∈ physicals vec) :
    decide (FIRST_VECTOR_PHYSICAL ≤ pr) = vec ∧ pr ≠ ZERO_REGISTER := by
  rw [mem_physicals] at h
  simp only [FIRST_VECTOR_PHYSICAL, TOTAL_SCALAR_PHYSICALS, LOG_TO_PHY_RATIO, ZERO_REGISTER]
  cases vec with
  | false =>
      rw [if_neg Bool.false_ne_true] at h
      exact ⟨decide_eq_false (by omega), h.2⟩
  | true =>
      rw [if_pos rfl] at h
      exact ⟨decide_eq_true (by omega), by omega⟩

/-! ### Renaming, one instruction after the other -/

namespace InflightInst

/-- The instruction was renamed in this map. -/
structure Renamed (map : LogicalRegNum → Nat) (x : InflightInst) (picode : Icode) : Prop where
  entry : x.picode = some picode
  source : ∀ arg, picode.dest ≠ some arg → x.args arg = map (picode.args arg)
  old : ∀ dest, picode.dest = some dest → x.OldDest_Phys = map (picode.args dest)
  zero : ∀ dest, picode.dest = some dest →
    (x.args dest = ZERO_REGISTER ↔ isNonzero (picode.args dest) = false)

/-- The map that it leaves. -/
def after (map : LogicalRegNum → Nat) (x : InflightInst) (picode : Icode) : LogicalRegNum → Nat :=
  match picode.dest with
  | none => map
  | some dest =>
      if x.args dest = ZERO_REGISTER then map
      else Function.update map (picode.args dest) (x.args dest)

/-- What it keeps of a class. -/
def old? (vec : Bool) (x : InflightInst) : Option Nat :=
  x.picode.bind fun picode =>
    picode.dest.bind fun dest =>
      if picode.args dest ∈ logicals vec then some x.OldDest_Phys else none

variable {map : LogicalRegNum → Nat} {x : InflightInst} {picode : Icode}

/-- Undoing gives back the map in which it was renamed. -/
theorem Renamed.undo_after (h : x.Renamed map picode) :
    x.undo picode (x.after map picode) = map := by
  unfold undo after
  cases hdest : picode.dest with
  | none => rfl
  | some dest =>
      dsimp only
      by_cases hzero : x.args dest = ZERO_REGISTER
      · rw [if_pos hzero, if_pos hzero]
      · rw [if_neg hzero, if_neg hzero, Function.update_idem, h.old dest hdest,
          Function.update_eq_self]

theorem Renamed.old?_eq (h : x.Renamed map picode) {dest : Arg} (hdest : picode.dest = some dest)
    {vec : Bool} (hvec : picode.args dest ∈ logicals vec) :
    x.old? vec = some (map (picode.args dest)) := by
  unfold old?
  rw [h.entry, Option.bind_some, hdest, Option.bind_some, if_pos hvec, h.old dest hdest]

theorem Renamed.after_of_ne (h : x.Renamed map picode) {reg : LogicalRegNum}
    (hne : ∀ dest, picode.dest = some dest → picode.args dest = reg → isNonzero reg = false) :
    x.after map picode reg = map reg := by
  unfold after
  cases hdest : picode.dest with
  | none => rfl
  | some dest =>
      dsimp only
      by_cases hzero : x.args dest = ZERO_REGISTER
      · rw [if_pos hzero]
      · rw [if_neg hzero, Function.update_of_ne]
        rintro rfl
        exact hzero ((h.zero dest hdest).mpr (hne dest hdest rfl))

theorem after_zero {dest : Arg} (hdest : picode.dest = some dest)
    (hzero : x.args dest = ZERO_REGISTER) : x.after map picode = map := by
  unfold after
  rw [hdest]
  exact if_pos hzero

theorem after_dest {dest : Arg} (hdest : picode.dest = some dest)
    (hnonzero : x.args dest ≠ ZERO_REGISTER) :
    x.after map picode = Function.update map (picode.args dest) (x.args dest) := by
  unfold after
  rw [hdest]
  exact if_neg hnonzero

/-- An instruction that was just renamed, with its new register. -/
def renamedTo (map : LogicalRegNum → Nat) (picode : Icode) (dest : Arg) (pr fetchnum : Nat) :
    InflightInst :=
  ⟨some picode, Function.update (fun arg => map (picode.args arg)) dest pr,
    map (picode.args dest), fetchnum, false⟩

theorem renamed_renamedTo (map : LogicalRegNum → Nat) {picode : Icode} {dest : Arg}
    (hdest : picode.dest = some dest) {pr : Nat} (fetchnum : Nat)
    (hpr : pr = ZERO_REGISTER ↔ isNonzero (picode.args dest) = false) :
    (renamedTo map picode dest pr fetchnum).Renamed map picode := by
  refine ⟨rfl, fun arg harg => ?_, fun dest' hd => ?_, fun dest' hd => ?_⟩
  · unfold renamedTo
    dsimp only
    rw [Function.update_of_ne]
    rintro rfl
    exact harg hdest
  · obtain rfl : dest = dest' := Option.some.inj (hdest.symm.trans hd)
    rfl
  · obtain rfl : dest = dest' := Option.some.inj (hdest.symm.trans hd)
    unfold renamedTo
    dsimp only
    rw [Function.update_self]
    exact hpr

theorem args_renamedTo (map : LogicalRegNum → Nat) (picode : Icode) (dest : Arg)
    (pr fetchnum : Nat) : (renamedTo map picode dest pr fetchnum).args dest = pr := by
  unfold renamedTo
  dsimp only
  rw [Function.update_self]

end InflightInst

/-- The instructions were renamed in turn, from the map `base` on, and left the map `map`. -/
inductive Renames : (LogicalRegNum → Nat) → List InflightInst → (LogicalRegNum → Nat) → Prop
  | nil {map : LogicalRegNum → Nat} : Renames map [] map
  | cons {base map : LogicalRegNum → Nat} {x : InflightInst} {picode : Icode}
      {l : List InflightInst} (hx : x.Renamed base picode)
      (hl : Renames (x.after base picode) l map) : Renames base (x :: l) map

namespace Renames

variable {base map : LogicalRegNum → Nat} {l : List InflightInst} {x : InflightInst}

theorem concat (h : Renames base l map) {picode : Icode} (hx : x.Renamed map picode) :
    Renames base (l ++ [x]) (x.after map picode) := by
  induction h with
  | nil => exact .cons hx .nil
  | cons hy _ ih => exact .cons hy (ih hx)

/-- The youngest was renamed in the map before it. -/
theorem of_concat (h : Renames base (l ++ [x]) map) :
    ∃ before picode, Renames base l before ∧ x.Renamed before picode ∧
      map = x.after before picode := by
  induction l generalizing base with
  | nil =>
      cases h with
      | cons hx hl =>
          cases hl
          exact ⟨base, _, .nil, hx, rfl⟩
  | cons y l ih =>
      cases h with
      | cons hy hl =>
          obtain ⟨before, picode, hbefore, hx, heq⟩ := ih hl
          exact ⟨before, picode, .cons hy hbefore, hx, heq⟩

/-- What the instructions keep of a class, and what the map names of it. -/
def owned (vec : Bool) (l : List InflightInst) (map : LogicalRegNum → Nat) : List Nat :=
  (logicals vec).map map ++ l.filterMap (InflightInst.old? vec)

theorem owned_cons {vec : Bool} {pr : Nat} (h : pr ∈ owned vec l map) :
    pr ∈ owned vec (x :: l) map := by
  unfold owned at h ⊢
  rw [List.mem_append] at h ⊢
  refine h.imp_right fun hold => ?_
  rw [List.mem_filterMap] at hold ⊢
  obtain ⟨y, hy, hpr⟩ := hold
  exact ⟨y, List.mem_cons_of_mem x hy, hpr⟩

/-- A register that was mapped is mapped, or an instruction keeps it. -/
theorem base_owned (h : Renames base l map) {vec : Bool} {reg : LogicalRegNum}
    (hreg : reg ∈ logicals vec) : base reg ∈ owned vec l map := by
  induction h with
  | nil => exact List.mem_append_left _ (List.mem_map_of_mem hreg)
  | @cons base map y picode l hy hl ih =>
      by_cases hdest : ∃ dest, picode.dest = some dest ∧ picode.args dest = reg
      · obtain ⟨dest, hd, rfl⟩ := hdest
        refine List.mem_append_right _ (List.mem_filterMap.mpr ⟨y, List.mem_cons_self, ?_⟩)
        exact hy.old?_eq hd hreg
      · rw [← hy.after_of_ne fun dest hd hargs => absurd ⟨dest, hd, hargs⟩ hdest]
        exact owned_cons ih

/-- The registers that are always zero stay mapped to the one that is. -/
theorem zero (h : Renames base l map) {reg : LogicalRegNum} (hreg : isNonzero reg = false) :
    base reg = map reg := by
  induction h with
  | nil => rfl
  | cons hy _ ih => rw [← ih, hy.after_of_ne fun _ _ _ => hreg]

/-- So are the arguments of an instruction. -/
theorem args_owned (h : Renames base l map) (hx : x ∈ l) {picode : Icode}
    (hpicode : x.picode = some picode) {vec : Bool} {arg : Arg}
    (hreg : picode.args arg ∈ logicals vec) : x.args arg ∈ owned vec l map := by
  induction h with
  | nil => cases hx
  | @cons base map y ypicode l hy hl ih =>
      rcases List.mem_cons.mp hx with rfl | hx
      · obtain rfl : ypicode = picode := Option.some.inj (hy.entry.symm.trans hpicode)
        by_cases hdest : ypicode.dest = some arg
        · have hnonzero : x.args arg ≠ ZERO_REGISTER := by
            rw [Ne, hy.zero arg hdest, (mem_logicals.mp hreg).1]
            decide
          have hafter := hl.base_owned hreg
          rw [InflightInst.after_dest hdest hnonzero, Function.update_self] at hafter
          exact owned_cons hafter
        · rw [hy.source arg hdest]
          exact (Renames.cons hy hl).base_owned hreg
      · exact owned_cons (ih hx)

theorem args_zero (h : Renames base l map) (hx : x ∈ l) {picode : Icode}
    (hpicode : x.picode = some picode) {arg : Arg} (hreg : isNonzero (picode.args arg) = false)
    (hzero : ∀ reg, isNonzero reg = false → map reg = ZERO_REGISTER) :
    x.args arg = ZERO_REGISTER := by
  induction h with
  | nil => cases hx
  | @cons base map y ypicode l hy hl ih =>
      rcases List.mem_cons.mp hx with rfl | hx
      · obtain rfl : ypicode = picode := Option.some.inj (hy.entry.symm.trans hpicode)
        by_cases hdest : ypicode.dest = some arg
        · exact (hy.zero arg hdest).mpr hreg
        · rw [hy.source arg hdest, (Renames.cons hy hl).zero hreg, hzero _ hreg]
      · exact ih hx hzero

/-- Nor is another register kept for one that names the zero register. -/
theorem old_zero (h : Renames base l map) (hx : x ∈ l) {picode : Icode}
    (hpicode : x.picode = some picode) {dest : Arg} (hdest : picode.dest = some dest)
    (hreg : isNonzero (picode.args dest) = false)
    (hzero : ∀ reg, isNonzero reg = false → map reg = ZERO_REGISTER) :
    x.OldDest_Phys = ZERO_REGISTER := by
  induction h with
  | nil => cases hx
  | @cons base map y ypicode l hy hl ih =>
      rcases List.mem_cons.mp hx with rfl | hx
      · obtain rfl : ypicode = picode := Option.some.inj (hy.entry.symm.trans hpicode)
        rw [hy.old dest hdest, (Renames.cons hy hl).zero hreg, hzero _ hreg]
      · exact ih hx hzero

/-- What an instruction keeps. -/
theorem old_of_mem (h : Renames base l map) (hx : x ∈ l) {picode : Icode}
    (hpicode : x.picode = some picode) {dest : Arg} (hdest : picode.dest = some dest) :
    (∀ vec, picode.args dest ∈ logicals vec → x.OldDest_Phys ∈ owned vec l map) ∧
      (x.args dest = ZERO_REGISTER ↔ isNonzero (picode.args dest) = false) := by
  induction h with
  | nil => cases hx
  | @cons base map y ypicode l hy hl ih =>
      rcases List.mem_cons.mp hx with rfl | hx
      · obtain rfl : ypicode = picode := Option.some.inj (hy.entry.symm.trans hpicode)
        refine ⟨fun vec hvec => ?_, hy.zero dest hdest⟩
        rw [hy.old dest hdest]
        exact (Renames.cons hy hl).base_owned hvec
      · exact ⟨fun vec hvec => owned_cons ((ih hx).1 vec hvec), (ih hx).2⟩

end Renames

end AsimFeeder.Aint
