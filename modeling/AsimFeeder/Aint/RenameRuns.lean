/-
Renaming conserves registers.

The registers of a class are those that the map names, those that instructions in flight
keep, and those on the free list, each once (`Partition`).  A fetch, a commit and a kill
each move one register from one place to another.  The links of the free list are safe
from what instructions write, since no argument of an instruction in flight is free; but
a vector register has only `MAX_VECTOR_LENGTH` cells, and the cell behind them may be a
link.
-/
import AsimFeeder.Aint.RenameMaps

namespace AsimFeeder.Aint

open Lib

/-! ### The free lists -/

namespace RegFile

variable {r : RegFile} {vec other : Bool} {head : Int} {pr : Nat} {reg : LogicalRegNum}

@[simp] theorem Reg_setFree : (r.setFree vec head).Reg = r.Reg := by
  cases vec with
  | false => rfl
  | true => rfl

@[simp] theorem RegMap_setFree : (r.setFree vec head).RegMap = r.RegMap := by
  cases vec with
  | false => rfl
  | true => rfl

@[simp] theorem free_setFree : (r.setFree vec head).free vec = head := by
  cases vec with
  | false => rfl
  | true => rfl

theorem free_setFree_of_ne (h : other ≠ vec) : (r.setFree vec head).free other = r.free other := by
  cases vec with
  | false =>
      obtain rfl : other = true := by simpa using h
      rfl
  | true =>
      obtain rfl : other = false := by simpa using h
      rfl

@[simp] theorem free_write {value : Int} : (r.write pr value).free vec = r.free vec := rfl

@[simp] theorem free_setMap {map : LogicalRegNum → Nat} :
    ({ r with RegMap := map } : RegFile).free vec = r.free vec := rfl

theorem release_eq (h : decide (FIRST_VECTOR_PHYSICAL ≤ pr) = vec) :
    r.release pr = (r.write pr (r.free vec)).setFree vec pr := by
  unfold release
  rw [h]

theorem ReMap_of_zero (h : isNonzero reg = false) : r.ReMap reg = some (ZERO_REGISTER, r) := by
  unfold ReMap
  rw [if_pos]
  by_contra hne
  rw [isNonzero_iff.mpr hne] at h
  cases h

theorem ReMap_of_nonzero (h : reg ∈ logicals vec) : r.ReMap reg =
    if r.free vec = -1 then none
    else some ((r.free vec).toNat,
      (r.setFree vec (r.Reg (r.free vec).toNat)).setMap reg (r.free vec).toNat) := by
  obtain ⟨hnonzero, hvec⟩ := mem_logicals.mp h
  unfold ReMap
  rw [if_neg (isNonzero_iff.mp hnonzero), hvec]

end RegFile

/-- Mapping a register elsewhere exchanges it with the one that is kept. -/
theorem perm_rename {L : List LogicalRegNum} (hL : L.Nodup) {reg : LogicalRegNum} (hreg : reg ∈ L)
    (map : LogicalRegNum → Nat) (pr : Nat) (olds rest : List Nat) :
    (L.map (Function.update map reg pr) ++ (olds ++ [map reg]) ++ rest).Perm
      (L.map map ++ olds ++ (pr :: rest)) := by
  have herase : (L.erase reg).map (Function.update map reg pr) = (L.erase reg).map map := by
    apply List.map_congr_left
    intro x hx
    rw [Function.update_of_ne]
    rintro rfl
    exact hL.not_mem_erase hx
  have hnew := (List.perm_cons_erase hreg).map (Function.update map reg pr)
  have hold := (List.perm_cons_erase hreg).map map
  rw [List.map_cons, Function.update_self, herase] at hnew
  rw [List.map_cons] at hold
  rw [List.perm_iff_count]
  intro x
  have hnew := hnew.count_eq x
  have hold := hold.count_eq x
  simp only [List.count_append, List.count_cons, List.count_nil] at hnew hold ⊢
  omega

/-! ### The partition -/

namespace RenameThread

variable {t t' : RenameThread} {vec : Bool} {free : List Nat} {pr : Nat}

/-- The instructions in flight, the oldest first. -/
def window (t : RenameThread) : List InflightInst := t.flight.map t.cbif

/-- What they keep of a class. -/
def olds (t : RenameThread) (vec : Bool) : List Nat :=
  t.window.filterMap (InflightInst.old? vec)

/-- The registers of a class are mapped, kept or free, and the free ones are linked. -/
structure Partition (t : RenameThread) (vec : Bool) (free : List Nat) : Prop where
  linked : Threaded t.regs.Reg (t.regs.free vec) free
  perm : ((logicals vec).map t.regs.RegMap ++ t.olds vec ++ free).Perm (physicals vec)

structure Conserves (t : RenameThread) : Prop where
  ring : ∃ o, Ring t o
  zero : ∀ reg, isNonzero reg = false → t.regs.RegMap reg = ZERO_REGISTER
  uncommitted : ∀ x ∈ t.window, x.committed = false
  renames : ∃ base, Renames base t.window t.regs.RegMap
  partition : ∀ vec, ∃ free, t.Partition vec free

/-- What is mapped or kept is not free, and belongs to the class. -/
theorem Partition.of_owned (h : t.Partition vec free)
    (hpr : pr ∈ Renames.owned vec t.window t.regs.RegMap) : pr ∉ free ∧ pr ∈ physicals vec := by
  have hnodup := h.perm.nodup_iff.mpr (nodup_physicals vec)
  refine ⟨fun hfree => ?_, h.perm.subset (List.mem_append_left _ hpr)⟩
  exact (List.nodup_append.mp hnodup).2.2 pr hpr pr hfree rfl

theorem Partition.mem_physicals (h : t.Partition vec free) (hpr : pr ∈ free) :
    pr ∈ physicals vec := h.perm.subset (List.mem_append_right _ hpr)

/-- No link of a free list is in the cell. -/
def Safe (t : RenameThread) (pr : Nat) : Prop :=
  ∀ vec free, t.Partition vec free → pr ∉ free

/-- A cell of a register that is mapped or kept holds no link. -/
theorem Conserves.safe_cell (h : t.Conserves) {reg : LogicalRegNum} {i : Nat}
    (howned : ∀ vec, reg ∈ logicals vec → pr ∈ Renames.owned vec t.window t.regs.RegMap)
    (hzero : isNonzero reg = false → pr = ZERO_REGISTER)
    (hi : i = 0 ∨ FIRST_VEC_LOGICAL ≤ reg.val) (hlt : i < MAX_VECTOR_LENGTH) :
    t.Safe (pr + i) := by
  intro vec' free' hfree' hmem
  have hphys := Aint.mem_physicals.mp (hfree'.mem_physicals hmem)
  cases hnonzero : isNonzero reg with
  | false =>
      have hnot : ¬ FIRST_VEC_LOGICAL ≤ reg.val := by
        intro hvec
        have hlogical : isNonzero reg = true := by
          rw [isNonzero_iff]
          unfold FIRST_VEC_LOGICAL TOTAL_SCALAR_LOGICALS at hvec
          unfold FP_ZERO_REGISTER ZERO_REGISTER
          omega
        rw [hlogical] at hnonzero
        cases hnonzero
      obtain rfl := hi.resolve_right hnot
      rw [hzero hnonzero] at hphys
      unfold ZERO_REGISTER at hphys
      cases vec' with
      | false =>
          rw [if_neg Bool.false_ne_true] at hphys
          omega
      | true =>
          rw [if_pos rfl] at hphys
          omega
  | true =>
      obtain ⟨free, hfree⟩ := h.partition (decide (FIRST_VEC_LOGICAL ≤ reg.val))
      obtain ⟨hnotMem, hpr⟩ := hfree.of_owned
        (howned _ (mem_logicals.mpr ⟨hnonzero, rfl⟩))
      rw [Aint.mem_physicals] at hpr
      unfold MAX_VECTOR_LENGTH at hlt
      by_cases hvec : FIRST_VEC_LOGICAL ≤ reg.val
      · rw [decide_eq_true hvec] at hfree hpr
        rw [if_pos rfl] at hpr
        cases vec' with
        | false =>
            rw [if_neg Bool.false_ne_true] at hphys
            omega
        | true =>
            rw [if_pos rfl] at hphys
            obtain rfl : i = 0 := by omega
            rw [hfree.linked.unique hfree'.linked] at hnotMem
            exact hnotMem hmem
      · obtain rfl := hi.resolve_right hvec
        rw [decide_eq_false hvec] at hfree hpr
        rw [if_neg Bool.false_ne_true] at hpr
        cases vec' with
        | false =>
            rw [hfree.linked.unique hfree'.linked] at hnotMem
            exact hnotMem hmem
        | true =>
            rw [if_pos rfl] at hphys
            omega

/-- Writing a cell that holds no link. -/
theorem Conserves.write (h : t.Conserves) (hsafe : t.Safe pr) (value : Int) :
    Conserves { t with regs := t.regs.write pr value } where
  ring := by
    obtain ⟨o, ho⟩ := h.ring
    exact ⟨o, ho.congr rfl rfl rfl⟩
  zero := h.zero
  uncommitted := h.uncommitted
  renames := h.renames
  partition := by
    intro vec
    obtain ⟨free, hfree⟩ := h.partition vec
    refine ⟨free, ?_, hfree.perm⟩
    apply hfree.linked.congr
    intro p hp
    show Function.update t.regs.Reg pr value p = _
    rw [Function.update_of_ne]
    rintro rfl
    exact hsafe vec free hfree hp

/-! ### Fetching -/

theorem window_concat {l : List UInt64} {i : UInt64} (h : t.flight = l ++ [i]) :
    t.window = l.map t.cbif ++ [t.cbif i] := by
  unfold window
  rw [h, List.map_append]
  rfl

/-- A slot that is not in use can be overwritten. -/
theorem map_update {l : List UInt64} {i : UInt64} (hi : i ∉ l) (cbif : UInt64 → InflightInst)
    (x : InflightInst) : l.map (Function.update cbif i x) = l.map cbif := by
  apply List.map_congr_left
  intro j hj
  rw [Function.update_of_ne]
  rintro rfl
  exact hi hj

theorem old?_of_none {x : InflightInst} {picode : Icode} (hx : x.picode = some picode)
    (h : ∀ dest, picode.dest = some dest → picode.args dest ∉ logicals vec) :
    x.old? vec = none := by
  unfold InflightInst.old?
  rw [hx, Option.bind_some]
  cases hdest : picode.dest with
  | none => rfl
  | some dest => rw [Option.bind_some, if_neg (h dest hdest)]

/-- A new instruction in flight, and the map that it leaves. -/
theorem Conserves.enter (h : t.Conserves) (hfree : (t.cbif (SUCC_CIRC t.instid)).picode = none)
    {x : InflightInst} {picode : Icode} (hx : x.Renamed t.regs.RegMap picode)
    (hcommitted : x.committed = false)
    (hinstid : t'.instid = SUCC_CIRC t.instid)
    (hcbif : t'.cbif = Function.update t.cbif (SUCC_CIRC t.instid) x)
    (hflight : t'.flight = t.flight ++ [SUCC_CIRC t.instid])
    (hmap : t'.regs.RegMap = x.after t.regs.RegMap picode)
    (hpartition : t'.window = t.window ++ [x] → ∀ vec, ∃ free, t'.Partition vec free) :
    t'.Conserves := by
  obtain ⟨o, ho⟩ := h.ring
  obtain ⟨base, hbase⟩ := h.renames
  have hwindow : t'.window = t.window ++ [x] := by
    unfold window
    rw [hflight, hcbif, List.map_append, map_update (ho.next_notMem hfree).1]
    simp
  exact {
    ring := ⟨o, ho.enter hfree hx.entry hinstid hcbif hflight⟩
    zero := by
      intro reg hreg
      rw [hmap, hx.after_of_ne fun _ _ _ => hreg]
      exact h.zero reg hreg
    uncommitted := by
      intro y hy
      rw [hwindow] at hy
      rcases List.mem_append.mp hy with hy | hy
      · exact h.uncommitted y hy
      · rw [List.mem_singleton.mp hy]
        exact hcommitted
    renames := by
      rw [hwindow, hmap]
      exact ⟨base, hbase.concat hx⟩
    partition := hpartition hwindow }

/-- Nothing of a class moved. -/
theorem Partition.congr (h : t.Partition vec free) (hReg : ∀ p ∈ free, t'.regs.Reg p = t.regs.Reg p)
    (hhead : t'.regs.free vec = t.regs.free vec)
    (hmap : ∀ reg ∈ logicals vec, t'.regs.RegMap reg = t.regs.RegMap reg)
    (holds : t'.olds vec = t.olds vec) : t'.Partition vec free where
  linked := by
    rw [hhead]
    exact h.linked.congr hReg
  perm := by
    rw [holds, List.map_congr_left hmap]
    exact h.perm

/-- What an instruction that keeps nothing of the class adds to it. -/
theorem olds_concat_none {x : InflightInst} (hwindow : t'.window = t.window ++ [x])
    (hx : x.old? vec = none) : t'.olds vec = t.olds vec := by
  unfold olds
  rw [hwindow, List.filterMap_append, List.filterMap_cons_none hx, List.filterMap_nil,
    List.append_nil]

theorem olds_concat_some {x : InflightInst} (hwindow : t'.window = t.window ++ [x])
    (hx : x.old? vec = some pr) : t'.olds vec = t.olds vec ++ [pr] := by
  unfold olds
  rw [hwindow, List.filterMap_append, List.filterMap_cons_some hx, List.filterMap_nil]

/-- A new register is taken from the free list of its class. -/
theorem Partition.rename (h : t.Partition vec free) (hne : t.regs.free vec ≠ -1)
    {reg : LogicalRegNum} (hreg : reg ∈ logicals vec)
    (hregs : t'.regs = (t.regs.setFree vec (t.regs.Reg (t.regs.free vec).toNat)).setMap reg
      (t.regs.free vec).toNat)
    (holds : t'.olds vec = t.olds vec ++ [t.regs.RegMap reg]) :
    (t.regs.free vec).toNat ∈ free ∧ t'.Partition vec free.tail := by
  cases free with
  | nil => exact absurd h.linked hne
  | cons p rest =>
      obtain ⟨hp, hrest⟩ := h.linked
      rw [hp, Int.toNat_natCast] at hregs ⊢
      refine ⟨List.mem_cons_self, ?_, ?_⟩
      · rw [hregs]
        unfold RegFile.setMap
        rw [RegFile.free_setMap, RegFile.free_setFree]
        show Threaded (t.regs.setFree vec _).Reg _ _
        rw [RegFile.Reg_setFree]
        exact hrest
      · refine List.Perm.trans ?_ h.perm
        rw [hregs, holds]
        show ((logicals vec).map (Function.update (t.regs.setFree vec _).RegMap reg p) ++ _ ++
          _).Perm _
        rw [RegFile.RegMap_setFree]
        exact perm_rename (nodup_logicals vec) hreg _ _ _ _

/-- An instruction that writes a register of the class gets a new one. -/
theorem Conserves.fetchRenamed (h : t.Conserves)
    (hslot : (t.cbif (SUCC_CIRC t.instid)).picode = none) {picode : Icode} {dest : Arg}
    (hdest : picode.dest = some dest) (hreg : picode.args dest ∈ logicals vec)
    (hhead : t.regs.free vec ≠ -1) (hinstid : t'.instid = SUCC_CIRC t.instid)
    (hcbif : t'.cbif = Function.update t.cbif (SUCC_CIRC t.instid)
      (.renamedTo t.regs.RegMap picode dest (t.regs.free vec).toNat t.fetch_count))
    (hflight : t'.flight = t.flight ++ [SUCC_CIRC t.instid])
    (hregs : t'.regs = (t.regs.setFree vec (t.regs.Reg (t.regs.free vec).toNat)).setMap
      (picode.args dest) (t.regs.free vec).toNat) : t'.Conserves := by
  obtain ⟨free, hfree⟩ := h.partition vec
  have hmem : (t.regs.free vec).toNat ∈ free := by
    cases free with
    | nil => exact absurd hfree.linked hhead
    | cons p rest =>
        rw [hfree.linked.1]
        exact List.mem_cons_self
  have hnonzero := (class_of_mem (hfree.mem_physicals hmem)).2
  have hlogical := (mem_logicals.mp hreg).1
  have hzero : (t.regs.free vec).toNat = ZERO_REGISTER ↔
      isNonzero (picode.args dest) = false := by simp [hnonzero, hlogical]
  have hx := InflightInst.renamed_renamedTo t.regs.RegMap hdest t.fetch_count hzero
  refine h.enter hslot hx rfl hinstid hcbif hflight ?_ fun hwindow vec' => ?_
  · rw [InflightInst.after_dest hdest (by rw [InflightInst.args_renamedTo]; exact hnonzero),
      InflightInst.args_renamedTo, hregs]
    unfold RegFile.setMap
    rw [RegFile.RegMap_setFree]
  · by_cases hvec : vec' = vec
    · subst hvec
      exact ⟨free.tail, (hfree.rename hhead hreg hregs
        (olds_concat_some hwindow (hx.old?_eq hdest hreg))).2⟩
    · obtain ⟨free', hfree'⟩ := h.partition vec'
      have hnot : picode.args dest ∉ logicals vec' := by
        intro hmem'
        exact hvec ((mem_logicals.mp hmem').2.symm.trans (mem_logicals.mp hreg).2)
      refine ⟨free', hfree'.congr (fun _ _ => ?_) ?_ (fun reg hreg' => ?_) ?_⟩
      · rw [hregs]
        unfold RegFile.setMap
        rw [RegFile.Reg_setFree]
      · rw [hregs]
        unfold RegFile.setMap
        rw [RegFile.free_setMap, RegFile.free_setFree_of_ne hvec]
      · rw [hregs]
        unfold RegFile.setMap
        dsimp only
        rw [RegFile.RegMap_setFree, Function.update_of_ne]
        rintro rfl
        exact hnot hreg'
      · apply olds_concat_none hwindow
        refine old?_of_none rfl fun dest' hd => ?_
        obtain rfl : dest = dest' := Option.some.inj (hdest.symm.trans hd)
        exact hnot

theorem Conserves.fetch (h : t.Conserves) {picode? : Option Icode}
    (hfetch : t.AINT_fetch_next_instr picode? = some t') : t'.Conserves := by
  cases picode? with
  | none =>
      cases hfetch
      exact h
  | some picode =>
      unfold AINT_fetch_next_instr at hfetch
      dsimp only at hfetch
      cases hslot : (t.cbif (SUCC_CIRC t.instid)).picode with
      | some _ => rw [hslot] at hfetch; cases hfetch
      | none =>
          rw [hslot, if_neg (by decide)] at hfetch
          cases hdest : picode.dest with
          | none =>
              rw [hdest] at hfetch
              cases hfetch
              have hx : InflightInst.Renamed t.regs.RegMap ⟨some picode,
                  fun arg => t.regs.RegMap (picode.args arg), ZERO_REGISTER, t.fetch_count, false⟩
                  picode := ⟨rfl, fun _ _ => rfl, by simp [hdest], by simp [hdest]⟩
              refine h.enter hslot hx rfl rfl rfl rfl ?_ ?_
              · unfold InflightInst.after
                rw [hdest]
              · intro hwindow vec
                obtain ⟨free, hfree⟩ := h.partition vec
                refine ⟨free, hfree.congr (fun _ _ => rfl) rfl (fun _ _ => rfl) ?_⟩
                apply olds_concat_none hwindow
                exact old?_of_none rfl fun dest hd => by rw [hdest] at hd; cases hd
          | some dest =>
              rw [hdest] at hfetch
              obtain ⟨⟨pr, regs⟩, hremap, rfl⟩ := Option.map_eq_some_iff.mp hfetch
              cases hnonzero : isNonzero (picode.args dest) with
              | false =>
                  rw [RegFile.ReMap_of_zero hnonzero] at hremap
                  cases hremap
                  have hzero : ZERO_REGISTER = ZERO_REGISTER ↔
                      isNonzero (picode.args dest) = false := by simp [hnonzero]
                  have hx := InflightInst.renamed_renamedTo t.regs.RegMap hdest t.fetch_count hzero
                  refine h.enter hslot hx rfl rfl rfl rfl ?_ fun hwindow vec => ?_
                  · exact (InflightInst.after_zero hdest (InflightInst.args_renamedTo ..)).symm
                  · obtain ⟨free, hfree⟩ := h.partition vec
                    refine ⟨free, hfree.congr (fun _ _ => rfl) rfl (fun _ _ => rfl) ?_⟩
                    apply olds_concat_none hwindow
                    refine old?_of_none rfl fun dest' hd hmem => ?_
                    obtain rfl : dest = dest' := Option.some.inj (hdest.symm.trans hd)
                    rw [(mem_logicals.mp hmem).1] at hnonzero
                    cases hnonzero
              | true =>
                  have hreg := mem_logicals.mpr ⟨hnonzero, rfl⟩
                  generalize decide (FIRST_VEC_LOGICAL ≤ (picode.args dest).val) = vec₀ at hreg
                  obtain ⟨free₀, hfree₀⟩ := h.partition vec₀
                  rw [RegFile.ReMap_of_nonzero hreg] at hremap
                  by_cases hhead : t.regs.free vec₀ = -1
                  · rw [if_pos hhead] at hremap
                    cases hremap
                  · rw [if_neg hhead] at hremap
                    cases hremap
                    exact h.fetchRenamed hslot hdest hreg hhead rfl rfl rfl rfl

/-! ### Committing and killing -/

/-- A register goes in front of the free list of its class. -/
theorem linked_release {r : RegFile} (h : Threaded r.Reg (r.free vec) free) (hpr : pr ∉ free)
    (hvec : decide (FIRST_VECTOR_PHYSICAL ≤ pr) = vec) :
    Threaded (r.release pr).Reg ((r.release pr).free vec) (pr :: free) := by
  rw [RegFile.release_eq hvec, RegFile.free_setFree, RegFile.Reg_setFree]
  exact h.push hpr

/-- It does not disturb the other one. -/
theorem linked_release_of_ne {r : RegFile} {other : Bool}
    (h : Threaded r.Reg (r.free other) free) (hpr : pr ∉ free)
    (hvec : decide (FIRST_VECTOR_PHYSICAL ≤ pr) = vec) (hne : other ≠ vec) :
    Threaded (r.release pr).Reg ((r.release pr).free other) free := by
  rw [RegFile.release_eq hvec, RegFile.free_setFree_of_ne hne, RegFile.Reg_setFree]
  apply h.congr
  intro p hp
  show Function.update r.Reg pr _ p = _
  rw [Function.update_of_ne]
  rintro rfl
  exact hpr hp

theorem RegMap_release (r : RegFile) (pr : Nat) : (r.release pr).RegMap = r.RegMap := by
  unfold RegFile.release
  dsimp only
  rw [RegFile.RegMap_setFree]
  rfl

/-- What was mapped or kept in one class is in no free list. -/
theorem Conserves.notMem_free (h : t.Conserves) {reg : LogicalRegNum} (hreg : reg ∈ logicals vec)
    (howned : pr ∈ Renames.owned vec t.window t.regs.RegMap) {other : Bool}
    (hfree : t.Partition other free) : pr ∉ free := by
  refine h.safe_cell (fun vec' (hvec' : reg ∈ logicals vec') => ?_) (fun hzero => ?_) (.inl rfl)
    (by decide) other free hfree
  · obtain rfl : vec = vec' := (mem_logicals.mp hreg).2.symm.trans (mem_logicals.mp hvec').2
    exact howned
  · rw [(mem_logicals.mp hreg).1] at hzero
    cases hzero

/-- What was mapped or kept goes in front of the free list of its class. -/
theorem Conserves.release (h : t.Conserves) {reg : LogicalRegNum} (hnonzero : isNonzero reg = true)
    (howned : ∀ vec, reg ∈ logicals vec → pr ∈ Renames.owned vec t.window t.regs.RegMap)
    (hfree : t.Partition vec free) :
    pr ≠ ZERO_REGISTER ∧ Threaded (t.regs.release pr).Reg ((t.regs.release pr).free vec)
      (if reg ∈ logicals vec then pr :: free else free) := by
  have hreg := mem_logicals.mpr ⟨hnonzero, rfl⟩
  generalize decide (FIRST_VEC_LOGICAL ≤ reg.val) = vec₀ at hreg
  obtain ⟨free₀, hfree₀⟩ := h.partition vec₀
  obtain ⟨hvec, hne⟩ := class_of_mem (hfree₀.of_owned (howned vec₀ hreg)).2
  have hnotMem := h.notMem_free hreg (howned vec₀ hreg) hfree
  refine ⟨hne, ?_⟩
  by_cases hmem : reg ∈ logicals vec
  · obtain rfl : vec₀ = vec := (mem_logicals.mp hreg).2.symm.trans (mem_logicals.mp hmem).2
    rw [if_pos hmem]
    exact linked_release hfree.linked hnotMem hvec
  · rw [if_neg hmem]
    apply linked_release_of_ne hfree.linked hnotMem hvec
    rintro rfl
    exact hmem hreg

/-- The registers after the commit of the oldest instruction. -/
theorem Conserves.linked_commit (h : t.Conserves) {x : InflightInst} {rest : List InflightInst}
    (hold : t.window = x :: rest) {picode : Icode} (hx : x.picode = some picode)
    (hfree : t.Partition vec free) {regs : RegFile}
    (hregs : (if picode.dest.isSome ∧ x.OldDest_Phys ≠ ZERO_REGISTER then
      t.regs.release x.OldDest_Phys else t.regs) = regs) :
    Threaded regs.Reg (regs.free vec) ((x.old? vec).toList ++ free) := by
  obtain ⟨base, hbase⟩ := h.renames
  have hmem : x ∈ t.window := by rw [hold]; exact List.mem_cons_self
  cases hdest : picode.dest with
  | none =>
      rw [hdest, if_neg (by simp)] at hregs
      have hnone : x.old? vec = none := old?_of_none hx fun dest hd => by simp [hdest] at hd
      rw [hnone, ← hregs]
      exact hfree.linked
  | some dest =>
      obtain ⟨howned, -⟩ := hbase.old_of_mem hmem hx hdest
      have hold? : x.old? vec =
          if picode.args dest ∈ logicals vec then some x.OldDest_Phys else none := by
        unfold InflightInst.old?
        rw [hx, Option.bind_some, hdest, Option.bind_some]
      cases hnonzero : isNonzero (picode.args dest) with
      | true =>
          obtain ⟨hne, hlinked⟩ := h.release hnonzero howned hfree
          rw [if_pos ⟨by rw [hdest]; rfl, hne⟩] at hregs
          rw [hold?, ← hregs]
          split at hlinked
          · rw [if_pos (by assumption)]
            exact hlinked
          · rw [if_neg (by assumption)]
            exact hlinked
      | false =>
          have hzero : x.OldDest_Phys = ZERO_REGISTER := by
            rw [hold] at hbase
            cases hbase with
            | cons hy hl =>
                obtain rfl := Option.some.inj (hy.entry.symm.trans hx)
                rw [hy.old dest hdest, (Renames.cons hy hl).zero hnonzero]
                exact h.zero _ hnonzero
          rw [if_neg fun hcon => hcon.2 hzero] at hregs
          rw [hold?, if_neg, ← hregs]
          · exact hfree.linked
          · intro hlogical
            rw [(mem_logicals.mp hlogical).1] at hnonzero
            cases hnonzero

theorem olds_cons {x : InflightInst} {rest : List InflightInst} (hold : t.window = x :: rest)
    (vec : Bool) :
    t.olds vec = (x.old? vec).toList ++ rest.filterMap (InflightInst.old? vec) := by
  unfold olds
  rw [hold, List.filterMap_cons]
  cases x.old? vec with
  | none => rfl
  | some _ => rfl

/-- The oldest instruction commits: what it kept of a class becomes free. -/
theorem Conserves.commit (h : t.Conserves) {i : UInt64} {l : List UInt64}
    (hflight : t.flight = i :: l) (hcommit : t.AINT_commit_instr i = some t') : t'.Conserves := by
  obtain ⟨o, ho⟩ := h.ring
  obtain ⟨base, hbase⟩ := h.renames
  have hnodup := ho.nodup
  rw [hflight, List.nodup_cons] at hnodup
  have hold : t.window = t.cbif i :: l.map t.cbif := by
    unfold window
    rw [hflight]
    rfl
  have huncommitted := h.uncommitted (t.cbif i) (by rw [hold]; exact List.mem_cons_self)
  have hcases := hbase
  rw [hold] at hcases
  generalize hx : t.cbif i = x at hold huncommitted hcases
  cases hcases with
  | @cons _ _ _ picode _ hrenamed hrest =>
      unfold AINT_commit_instr at hcommit
      dsimp only at hcommit
      rw [hx, hrenamed.entry, Option.bind_some] at hcommit
      split at hcommit
      · cases hcommit
      · rw [huncommitted, if_neg Bool.false_ne_true] at hcommit
        cases hcommit
        generalize hregs : (if picode.dest.isSome ∧ x.OldDest_Phys ≠ ZERO_REGISTER then
          t.regs.release x.OldDest_Phys else t.regs) = regs
        have hmap : regs.RegMap = t.regs.RegMap := by
          rw [← hregs]
          split
          · exact RegMap_release _ _
          · rfl
        have htail : t.flight.tail = l := by rw [hflight]; rfl
        have hcbif : t.flight.tail.map (Function.update t.cbif i
            { x with picode := none, committed := true }) = l.map t.cbif := by
          rw [htail, map_update hnodup.1]
        exact {
          ring := ⟨o + 1, ho.leaveFirst hflight rfl rfl rfl htail⟩
          zero := by
            show ∀ reg, isNonzero reg = false → regs.RegMap reg = ZERO_REGISTER
            rw [hmap]
            exact h.zero
          uncommitted := by
            intro y hy
            unfold window at hy
            dsimp only at hy
            rw [hcbif] at hy
            exact h.uncommitted y (by rw [hold]; exact List.mem_cons_of_mem x hy)
          renames := by
            unfold window
            dsimp only
            rw [hcbif, hmap]
            exact ⟨_, hrest⟩
          partition := by
            intro vec
            obtain ⟨free, hfree⟩ := h.partition vec
            refine ⟨(x.old? vec).toList ++ free,
              h.linked_commit hold hrenamed.entry hfree hregs, ?_⟩
            have holds : RenameThread.olds { t with
                regs := regs
                cbif := Function.update t.cbif i { x with picode := none, committed := true }
                flight := t.flight.tail } vec =
                (l.map t.cbif).filterMap (InflightInst.old? vec) := by
              rw [← hcbif]
              rfl
            have hperm := hfree.perm
            rw [olds_cons hold] at hperm
            rw [holds, hmap]
            refine List.Perm.trans ?_ hperm
            rw [List.perm_iff_count]
            intro p
            simp only [List.count_append]
            omega }

end RenameThread

end AsimFeeder.Aint
