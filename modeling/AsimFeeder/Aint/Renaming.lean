/-
Register renaming over whole runs.

Whatever is fetched, issued, committed and killed, the registers of a class are mapped,
kept or free, each once, and the free list is intact: provided that no instruction writes
outside of its own registers.  Vector instructions write the elements or the mask bits up to
the vector length, or from there on, and nothing bounds the vector length.
-/
import AsimFeeder.Aint.RenameBack

namespace AsimFeeder.Aint

open Lib

/-- The element is one that the register has. -/
def Target.within (x : InflightInst) : Target → Bool
  | .element arg i =>
      decide (i = 0) || decide (0 ≤ i ∧ i < MAX_VECTOR_LENGTH) &&
        x.picode.any fun picode => decide (FIRST_VEC_LOGICAL ≤ (picode.args arg).val)
  | .mapped _ => true
  | .atCall _ => true

theorem Target.within_element {x : InflightInst} {picode : Icode} (hpicode : x.picode = some picode)
    {arg : Arg} {i : Int} (h : (Target.element arg i).within x = true) :
    ∃ j : Nat, i = j ∧ (j = 0 ∨ FIRST_VEC_LOGICAL ≤ (picode.args arg).val) ∧
      j < MAX_VECTOR_LENGTH := by
  unfold Target.within at h
  rw [hpicode] at h
  simp only [Bool.or_eq_true, Bool.and_eq_true, decide_eq_true_eq, Option.any_some] at h
  rcases h with rfl | ⟨⟨hnonneg, hlt⟩, hvec⟩
  · exact ⟨0, rfl, .inl rfl, by decide⟩
  · exact ⟨i.toNat, (Int.toNat_of_nonneg hnonneg).symm, .inr hvec, by omega⟩

theorem Target.within_of_cell {x : InflightInst} {picode : Icode}
    (hpicode : x.picode = some picode) {arg : Arg} {j : Nat}
    (hj : j = 0 ∨ FIRST_VEC_LOGICAL ≤ (picode.args arg).val) (hlt : j < MAX_VECTOR_LENGTH) :
    (Target.element arg j).within x = true := by
  unfold Target.within
  rw [hpicode]
  rcases hj with rfl | hvec
  · rfl
  · simp only [Bool.or_eq_true, Bool.and_eq_true, decide_eq_true_eq, Option.any_some]
    exact .inr ⟨⟨Int.natCast_nonneg j, by omega⟩, hvec⟩

namespace RenameThread

variable {t t' : RenameThread} {vec : Bool} {free : List Nat}

/-! ### Issuing -/

/-- No cell of what the map names, now or at an earlier instruction, holds a link. -/
theorem Conserves.safe_mapped_cell (h : t.Conserves) {older younger : List UInt64}
    {mid : LogicalRegNum → Nat} (hflight : t.flight = older ++ younger)
    (hmid : Renames mid (younger.map t.cbif) t.regs.RegMap) {reg : LogicalRegNum} {i : Nat}
    (hi : i = 0 ∨ FIRST_VEC_LOGICAL ≤ reg.val) (hlt : i < MAX_VECTOR_LENGTH) :
    t.Safe (mid reg + i) := by
  refine h.safe_cell (fun vec (hreg : reg ∈ logicals vec) => ?_) (fun hreg => ?_) hi hlt
  · have howned := hmid.base_owned hreg
    unfold Renames.owned at howned ⊢
    unfold window
    rw [hflight, List.map_append, List.filterMap_append]
    rw [List.mem_append] at howned ⊢
    exact howned.imp_right (List.mem_append_right _)
  · rw [hmid.zero hreg]
    exact h.zero reg hreg

theorem Conserves.safe_mapped (h : t.Conserves) {older younger : List UInt64}
    {mid : LogicalRegNum → Nat} (hflight : t.flight = older ++ younger)
    (hmid : Renames mid (younger.map t.cbif) t.regs.RegMap) (reg : LogicalRegNum) :
    t.Safe (mid reg) := h.safe_mapped_cell hflight hmid (.inl rfl) (by decide)

/-- No link is in a cell that an instruction in flight writes. -/
theorem Conserves.safe_target (h : t.Conserves) {instid : UInt64} (hmem : instid ∈ t.flight)
    {target : Target} (hwithin : target.within (t.cbif instid) = true) {pr : Nat}
    (hcell : t.cell instid target = some pr) : t.Safe pr := by
  obtain ⟨o, ho⟩ := h.ring
  obtain ⟨base, hbase⟩ := h.renames
  cases target with
  | element arg i =>
      obtain ⟨picode, hpicode⟩ := ho.alive instid hmem
      obtain ⟨j, rfl, hj, hlt⟩ := Target.within_element hpicode hwithin
      obtain rfl : (t.cbif instid).args arg + j = pr := Option.some.inj hcell
      have hx : t.cbif instid ∈ t.window := List.mem_map_of_mem hmem
      exact h.safe_cell (fun vec hreg => hbase.args_owned hx hpicode hreg)
        (fun hreg => hbase.args_zero hx hpicode hreg h.zero) hj hlt
  | mapped reg =>
      obtain rfl := Option.some.inj hcell
      exact h.safe_mapped (List.append_nil t.flight).symm .nil reg
  | atCall reg =>
      obtain ⟨older, younger, mid, hflight, hsnapshot, hyounger, -⟩ := h.regmap_snapshot hmem
      unfold cell at hcell
      dsimp only at hcell
      rw [hsnapshot] at hcell
      obtain rfl := Option.some.inj hcell
      have hsplit : t.flight = (older ++ [instid]) ++ younger := by
        rw [hflight, List.append_assoc]
        rfl
      exact h.safe_mapped hsplit hyounger reg

/-- Nor in the first cell of one of its registers. -/
theorem Conserves.safe_arg (h : t.Conserves) {instid : UInt64} (hmem : instid ∈ t.flight)
    (arg : Arg) : t.Safe ((t.cbif instid).args arg) :=
  have hwithin : (Target.element arg 0).within (t.cbif instid) = true := rfl
  h.safe_target hmem hwithin rfl

theorem Conserves.writeCells (h : t.Conserves) {instid : UInt64} (hmem : instid ∈ t.flight)
    {writes : List (Target × Int)} (hwithin : ∀ w ∈ writes, w.1.within (t.cbif instid) = true)
    (hwrites : RenameThread.writeCells instid writes t = some t') : t'.Conserves := by
  induction writes generalizing t with
  | nil =>
      cases hwrites
      exact h
  | cons w rest ih =>
      obtain ⟨target, value⟩ := w
      rw [RenameThread.writeCells, Option.bind_eq_some_iff] at hwrites
      obtain ⟨pr, hcell, hrest⟩ := hwrites
      have hsafe := h.safe_target hmem (hwithin _ List.mem_cons_self) hcell
      refine ih (h.write hsafe value) hmem (fun w hw => ?_) hrest
      exact hwithin w (List.mem_cons_of_mem _ hw)

theorem Conserves.issue (h : t.Conserves) {instid : UInt64} (hmem : instid ∈ t.flight)
    {writes : List (Target × Int)} (hwithin : ∀ w ∈ writes, w.1.within (t.cbif instid) = true)
    (hissue : t.AINT_issue_other instid writes = some t') : t'.Conserves := by
  obtain ⟨o, ho⟩ := h.ring
  obtain ⟨picode, hpicode⟩ := ho.alive instid hmem
  unfold AINT_issue_other at hissue
  dsimp only at hissue
  rw [hpicode] at hissue
  dsimp only at hissue
  cases hdest : picode.dest with
  | none =>
      rw [hdest] at hissue
      exact h.writeCells hmem hwithin hissue
  | some dest =>
      rw [hdest] at hissue
      exact (h.write (h.safe_arg hmem dest) _).writeCells hmem hwithin hissue

/-! ### The start -/

/-- Registers that are released one after the other are linked in front of the others. -/
theorem linked_foldl_release {r : RegFile} {l : List Nat}
    (h : Threaded r.Reg (r.free vec) free) (hnodup : l.Nodup) (hfree : ∀ p ∈ l, p ∉ free) :
    Threaded (l.foldl RegFile.release r).Reg ((l.foldl RegFile.release r).free vec)
      ((l.filter fun p => decide (FIRST_VECTOR_PHYSICAL ≤ p) == vec).reverse ++ free) := by
  induction l generalizing r free with
  | nil => exact h
  | cons p l ih =>
      rw [List.nodup_cons] at hnodup
      have hp := hfree p List.mem_cons_self
      by_cases hvec : decide (FIRST_VECTOR_PHYSICAL ≤ p) = vec
      · rw [List.filter_cons_of_pos (by simpa using hvec), List.reverse_cons, List.append_assoc]
        refine ih (linked_release h hp hvec) hnodup.2 fun q hq => ?_
        rw [List.singleton_append, List.mem_cons, not_or]
        refine ⟨?_, hfree q (List.mem_cons_of_mem p hq)⟩
        rintro rfl
        exact hnodup.1 hq
      · rw [List.filter_cons_of_neg (by simpa using hvec)]
        refine ih (linked_release_of_ne h hp rfl (Ne.symm hvec)) hnodup.2 fun q hq => ?_
        exact hfree q (List.mem_cons_of_mem p hq)

theorem RegMap_foldl_release (l : List Nat) (r : RegFile) :
    (l.foldl RegFile.release r).RegMap = r.RegMap := by
  induction l generalizing r with
  | nil => rfl
  | cons p l ih => rw [List.foldl_cons, ih, RegMap_release]

theorem mem_initialFree {pr : Nat} : pr ∈ initialFree ↔ 68 ≤ pr ∧ pr < 1536 ∨ pr = 63 := by
  unfold initialFree
  simp [List.mem_range'_1, TOTAL_SCALAR_LOGICALS, TOTAL_SCALAR_PHYSICALS, LOG_TO_PHY_RATIO,
    FP_ZERO_REGISTER, ZERO_REGISTER]

theorem mem_initialVectorFree {pr : Nat} :
    pr ∈ initialVectorFree ↔ 5632 ≤ pr ∧ pr < 67072 ∧ pr % 128 = 0 := by
  unfold initialVectorFree
  simp only [List.mem_map, List.mem_range'_1, LOG_TO_PHY_RATIO, MAX_VECTOR_LENGTH,
    FIRST_VECTOR_PHYSICAL, TOTAL_SCALAR_PHYSICALS]
  constructor
  · rintro ⟨i, hi, rfl⟩
    omega
  · rintro ⟨hlo, hhi, hmod⟩
    exact ⟨(pr - 1536) / 128, by omega, by omega⟩

theorem nodup_initial : (initialFree ++ initialVectorFree).Nodup := by
  rw [List.nodup_append]
  refine ⟨?_, ?_, ?_⟩
  · unfold initialFree
    rw [List.nodup_append]
    refine ⟨List.nodup_reverse.mpr List.nodup_range', List.nodup_singleton _, ?_⟩
    intro p hp q hq
    simp only [List.mem_reverse, List.mem_range'_1, List.mem_singleton, TOTAL_SCALAR_LOGICALS,
      FP_ZERO_REGISTER, ZERO_REGISTER] at hp hq
    omega
  · unfold initialVectorFree
    apply List.Nodup.map _ List.nodup_range'
    intro i j hij
    simp only [MAX_VECTOR_LENGTH] at hij
    omega
  · intro p hp q hq
    rw [mem_initialFree] at hp
    rw [mem_initialVectorFree] at hq
    omega

theorem mem_logicals_scalar {reg : LogicalRegNum} :
    reg ∈ logicals false ↔ reg.val < 68 ∧ reg.val ≠ 31 ∧ reg.val ≠ 63 := by
  rw [mem_logicals, isNonzero_iff, decide_eq_false_iff_not]
  simp only [FIRST_VEC_LOGICAL, TOTAL_SCALAR_LOGICALS, ZERO_REGISTER, FP_ZERO_REGISTER]
  omega

theorem mem_logicals_vector {reg : LogicalRegNum} : reg ∈ logicals true ↔ 68 ≤ reg.val := by
  rw [mem_logicals, isNonzero_iff, decide_eq_true_iff]
  simp only [FIRST_VEC_LOGICAL, TOTAL_SCALAR_LOGICALS, ZERO_REGISTER, FP_ZERO_REGISTER]
  omega

theorem initialMap_scalar {reg : LogicalRegNum} (h : reg ∈ logicals false) :
    initialMap reg = reg.val := by
  obtain ⟨hlt, -, hfpzero⟩ := mem_logicals_scalar.mp h
  unfold initialMap
  rw [if_pos (show reg.val < TOTAL_SCALAR_LOGICALS from hlt),
    if_neg (show ¬ reg.val = FP_ZERO_REGISTER from hfpzero)]

theorem initialMap_vector {reg : LogicalRegNum} (h : reg ∈ logicals true) :
    initialMap reg = (reg.val - 68) * 128 + 1536 := by
  have hge := mem_logicals_vector.mp h
  unfold initialMap
  rw [if_neg (show ¬ reg.val < TOTAL_SCALAR_LOGICALS from Nat.not_lt.mpr hge)]
  rfl

theorem mem_map_initialMap {pr : Nat} :
    pr ∈ (logicals vec).map initialMap ↔
      if vec then 1536 ≤ pr ∧ pr < 5632 ∧ pr % 128 = 0 else pr < 68 ∧ pr ≠ 31 ∧ pr ≠ 63 := by
  rw [List.mem_map]
  cases vec with
  | false =>
      rw [if_neg Bool.false_ne_true]
      constructor
      · rintro ⟨reg, hreg, rfl⟩
        rw [initialMap_scalar hreg]
        exact mem_logicals_scalar.mp hreg
      · intro hpr
        have hreg : (⟨pr, by omega⟩ : LogicalRegNum) ∈ logicals false := mem_logicals_scalar.mpr hpr
        exact ⟨_, hreg, initialMap_scalar hreg⟩
  | true =>
      rw [if_pos rfl]
      constructor
      · rintro ⟨reg, hreg, rfl⟩
        have hge := mem_logicals_vector.mp hreg
        have hlt := reg.isLt
        rw [initialMap_vector hreg]
        omega
      · rintro ⟨hlo, hhi, hmod⟩
        have hreg : (⟨(pr - 1536) / 128 + 68, by omega⟩ : LogicalRegNum) ∈ logicals true :=
          mem_logicals_vector.mpr (Nat.le_add_left _ _)
        refine ⟨_, hreg, ?_⟩
        rw [initialMap_vector hreg]
        dsimp only
        omega

theorem nodup_map_initialMap (vec : Bool) : ((logicals vec).map initialMap).Nodup := by
  apply List.Nodup.map_on _ (nodup_logicals vec)
  intro reg hreg reg' hreg' heq
  apply Fin.ext
  cases vec with
  | false => rwa [initialMap_scalar hreg, initialMap_scalar hreg'] at heq
  | true =>
      have hge := mem_logicals_vector.mp hreg
      have hge' := mem_logicals_vector.mp hreg'
      rw [initialMap_vector hreg, initialMap_vector hreg'] at heq
      omega

theorem init_regs_RegMap : RegFile.init.RegMap = initialMap := by
  unfold RegFile.init
  rw [RegMap_foldl_release]

/-- The free list of a class at the start. -/
def startFree (vec : Bool) : List Nat :=
  ((initialFree ++ initialVectorFree).filter fun p =>
    decide (FIRST_VECTOR_PHYSICAL ≤ p) == vec).reverse

theorem linked_init {l : List Nat} (hl : startFree vec = l) :
    Threaded RegFile.init.Reg (RegFile.init.free vec) l := by
  have hstart : Threaded (⟨-1, -1, fun _ => 0, initialMap⟩ : RegFile).Reg
      ((⟨-1, -1, fun _ => 0, initialMap⟩ : RegFile).free vec) [] := by
    cases vec with
    | false => rfl
    | true => rfl
  have hnodup := nodup_initial
  rw [← hl]
  unfold RegFile.init startFree
  -- nothing is to be computed here
  generalize initialFree ++ initialVectorFree = l at hnodup ⊢
  rw [← List.append_nil (List.reverse _)]
  exact linked_foldl_release hstart hnodup fun _ _ => List.not_mem_nil

theorem mem_startFree {pr : Nat} : pr ∈ startFree vec ↔
    if vec then 5632 ≤ pr ∧ pr < 67072 ∧ pr % 128 = 0
      else 68 ≤ pr ∧ pr < 1536 ∨ pr = 63 := by
  unfold startFree
  rw [List.mem_reverse, List.mem_filter, List.mem_append, mem_initialFree, mem_initialVectorFree]
  cases vec with
  | false =>
      rw [beq_false, Bool.not_eq_true', decide_eq_false_iff_not, if_neg Bool.false_ne_true]
      simp only [FIRST_VECTOR_PHYSICAL, TOTAL_SCALAR_PHYSICALS, LOG_TO_PHY_RATIO]
      omega
  | true =>
      rw [beq_true, decide_eq_true_eq, if_pos rfl]
      simp only [FIRST_VECTOR_PHYSICAL, TOTAL_SCALAR_PHYSICALS, LOG_TO_PHY_RATIO]
      omega

theorem nodup_startFree (vec : Bool) : (startFree vec).Nodup :=
  List.nodup_reverse.mpr (nodup_initial.filter _)

theorem perm_init (vec : Bool) :
    ((logicals vec).map initialMap ++ startFree vec).Perm (physicals vec) := by
  apply (List.perm_ext_iff_of_nodup ?_ (nodup_physicals vec)).mpr
  · intro pr
    rw [List.mem_append, mem_map_initialMap, mem_startFree, mem_physicals]
    cases vec with
    | false =>
        simp only [Bool.false_eq_true, if_false]
        omega
    | true =>
        simp only [if_true]
        omega
  · rw [List.nodup_append]
    refine ⟨nodup_map_initialMap vec, nodup_startFree vec, ?_⟩
    intro p hp q hq
    rw [mem_map_initialMap] at hp
    rw [mem_startFree] at hq
    cases vec with
    | false =>
        rw [if_neg Bool.false_ne_true] at hp hq
        omega
    | true =>
        rw [if_pos rfl] at hp hq
        omega

theorem init_regs : init.regs = RegFile.init := by
  unfold init
  dsimp only

theorem partition_init (vec : Bool) : init.Partition vec (startFree vec) where
  linked := by
    rw [init_regs]
    generalize hl : startFree vec = l
    exact linked_init hl
  perm := by
    have holds : init.olds vec = [] := rfl
    rw [init_regs, holds, init_regs_RegMap, List.append_nil]
    exact perm_init vec

theorem conserves_init : init.Conserves where
  ring := ⟨1024, .init⟩
  zero := by
    intro reg hreg
    have hzero : reg.val = 31 ∨ reg.val = 63 := by
      by_contra hne
      rw [isNonzero_iff.mpr hne] at hreg
      cases hreg
    rw [init_regs, init_regs_RegMap]
    unfold initialMap TOTAL_SCALAR_LOGICALS FP_ZERO_REGISTER ZERO_REGISTER
    split
    · split
      · rfl
      · omega
    · omega
  uncommitted := fun x hx => by cases hx
  renames := ⟨_, .nil⟩
  partition := fun vec => ⟨startFree vec, partition_init vec⟩

/-! ### Runs -/

/-- Instructions in flight are issued and killed, and the oldest of them commits. -/
def legal (t : RenameThread) : RenameEvent → Bool
  | .fetch _ => true
  | .issue instid _ => t.flight.contains instid
  | .commit instid => t.flight.head? == some instid
  | .kill instid => t.flight.contains instid || instid == SUCC_CIRC t.instid

/-- No instruction writes outside of its own registers. -/
def careful (t : RenameThread) : RenameEvent → Bool
  | .fetch _ => true
  | .issue instid writes => writes.all fun w => w.1.within (t.cbif instid)
  | .commit _ => true
  | .kill _ => true

def Start (t : RenameThread) : Prop := t = init

def Step (t t' : RenameThread) : Prop := ∃ e, t.legal e = true ∧ t.exec e = some t'

def CarefulStep (t t' : RenameThread) : Prop :=
  ∃ e, (t.legal e && t.careful e) = true ∧ t.exec e = some t'

theorem Conserves.step (h : t.Conserves) (hstep : CarefulStep t t') : t'.Conserves := by
  obtain ⟨e, hok, hexec⟩ := hstep
  obtain ⟨hlegal, hcareful⟩ := Bool.and_eq_true_iff.mp hok
  cases e with
  | fetch picode? => exact h.fetch hexec
  | issue instid writes =>
      exact h.issue (List.contains_iff_mem.mp hlegal) (List.all_eq_true.mp hcareful) hexec
  | commit instid =>
      obtain ⟨l, hl⟩ := List.head?_eq_some_iff.mp (eq_of_beq hlegal)
      exact h.commit hl hexec
  | kill instid => exact h.killLoop hexec

/-- The registers are mapped, kept or free, each once; nothing is shared, and a fetch runs
out of registers only when all that are not mapped are kept. -/
structure Conserved (t : RenameThread) : Prop where
  partition : ∀ vec, ∃ free, t.Partition vec free ∧ free.Nodup
  zero : ∀ reg, isNonzero reg = false → t.regs.RegMap reg = ZERO_REGISTER
  distinct : ∀ reg reg', isNonzero reg = true → isNonzero reg' = true →
    t.regs.RegMap reg = t.regs.RegMap reg' → reg = reg'
  full : ∀ vec, ∀ reg ∈ logicals vec, t.regs.ReMap reg = none ↔
    (t.olds vec).length + (logicals vec).length = (physicals vec).length

theorem Conserves.distinct (h : t.Conserves) {reg reg' : LogicalRegNum}
    (hreg : isNonzero reg = true) (hreg' : isNonzero reg' = true)
    (heq : t.regs.RegMap reg = t.regs.RegMap reg') : reg = reg' := by
  have hmem := mem_logicals.mpr ⟨hreg, rfl⟩
  have hmem' := mem_logicals.mpr ⟨hreg', rfl⟩
  generalize decide (FIRST_VEC_LOGICAL ≤ reg.val) = vec at hmem
  generalize decide (FIRST_VEC_LOGICAL ≤ reg'.val) = vec' at hmem'
  obtain ⟨free, hfree⟩ := h.partition vec
  obtain ⟨free', hfree'⟩ := h.partition vec'
  have hphys := (hfree.of_owned (List.mem_append_left _ (List.mem_map_of_mem hmem))).2
  have hphys' := (hfree'.of_owned (List.mem_append_left _ (List.mem_map_of_mem hmem'))).2
  rw [← heq] at hphys'
  obtain rfl : vec = vec' := (class_of_mem hphys).1.symm.trans (class_of_mem hphys').1
  have hnodup := hfree.perm.nodup_iff.mpr (nodup_physicals vec)
  have hmapped := (List.nodup_append.mp (List.nodup_append.mp hnodup).1).1
  exact List.inj_on_of_nodup_map hmapped hmem hmem' heq

theorem Partition.full (h : t.Partition vec free) {reg : LogicalRegNum}
    (hreg : reg ∈ logicals vec) : t.regs.ReMap reg = none ↔
      (t.olds vec).length + (logicals vec).length = (physicals vec).length := by
  have hlength := h.perm.length_eq
  rw [List.length_append, List.length_append, List.length_map] at hlength
  have hempty : t.regs.ReMap reg = none ↔ t.regs.free vec = -1 := by
    rw [RegFile.ReMap_of_nonzero hreg]
    split
    · simp [*]
    · simp [*]
  rw [hempty, h.linked.head_eq, ← List.length_eq_zero_iff]
  omega

/-- **As long as no instruction writes outside of its own registers, no register is lost and
none is free twice.** -/
theorem conserved_of_careful (h : Reaches Start CarefulStep t) : t.Conserved := by
  have hconserves : t.Conserves := by
    refine h.invariant (fun s hs => ?_) fun s s' hs hstep => hs.step hstep
    rw [hs]
    exact conserves_init
  exact {
    partition := by
      intro vec
      obtain ⟨free, hfree⟩ := hconserves.partition vec
      have hnodup := hfree.perm.nodup_iff.mpr (nodup_physicals vec)
      exact ⟨free, hfree, (List.nodup_append.mp hnodup).2.1⟩
    zero := hconserves.zero
    distinct := fun _ _ hreg hreg' heq => hconserves.distinct hreg hreg' heq
    full := by
      intro vec reg hreg
      obtain ⟨free, hfree⟩ := hconserves.partition vec
      exact hfree.full hreg }

/-- An instruction that writes a vector register. -/
def vectorTo (reg : LogicalRegNum) : Icode := ⟨fun _ => reg, some .RC⟩

/-- The second instruction gets the register that the first one replaced, and writes `n`
elements of it. -/
def vectorRun (n : Nat) : List RenameEvent :=
  [.fetch (some (vectorTo 99)), .issue 0 [], .commit 0, .fetch (some (vectorTo 99)),
    .issue 1 ((List.range n).map fun i => (.element .RC i, 5))]

/-- A vector register has 128 elements. -/
theorem conserved_of_careful_vector : ∃ t : RenameThread,
    Lib.after exec (fun t e => t.legal e && t.careful e) (vectorRun 128) init = some t ∧
      t.Conserved := by
  have hrun : (Lib.after exec (fun t e => t.legal e && t.careful e)
    (vectorRun 128) init).isSome := by
    decide +kernel
  obtain ⟨t, ht⟩ := Option.isSome_iff_exists.mp hrun
  refine ⟨t, ht, conserved_of_careful ?_⟩
  exact .after (fun s e s' hok hexec => ⟨e, hok, hexec⟩) (.start rfl) ht

/-- The cell behind the register is a link of the free list. -/
theorem not_conserved_by_long_vector :
    ¬ ∀ t : RenameThread, Reaches Start Step t → t.Conserved := by
  intro hall
  have hrun : (Lib.after exec legal (vectorRun 129) init).map (fun t =>
      (((logicals true).map t.regs.RegMap ++ t.olds true).contains 5632, t.regs.Reg 5632)) =
        some (false, 5) := by
    decide +kernel
  obtain ⟨t, ht, hvalue⟩ := Option.map_eq_some_iff.mp hrun
  obtain ⟨hmapped, hlink⟩ := Prod.mk.inj hvalue
  have hreaches : Reaches Start Step t :=
    .after (fun s e s' hok hexec => ⟨e, hok, hexec⟩) (.start rfl) ht
  obtain ⟨free, hfree, -⟩ := (hall t hreaches).partition true
  have hmem : 5632 ∈ free := by
    have hphys : 5632 ∈ physicals true := mem_physicals.mpr (by decide)
    refine (List.mem_append.mp (hfree.perm.mem_iff.mpr hphys)).resolve_left fun hcon => ?_
    rw [List.contains_iff_mem.mpr hcon] at hmapped
    cases hmapped
  rcases hfree.linked.next hmem with hlast | ⟨q, hq, hnext⟩
  · rw [hlink] at hlast
    cases hlast
  · have hphys := Aint.mem_physicals.mp (hfree.mem_physicals hq)
    rw [hlink] at hnext
    rw [if_pos rfl] at hphys
    omega

end RenameThread

end AsimFeeder.Aint
