/-
The zero register over whole runs.

Only an issue and a memory operation write it: a fetch writes no register, and what is freed
is never the zero register.  A routine that clears it leaves it zero whatever it has written.
The others write nothing, or are those of `newinst.c`, which write the register that `RC` was
renamed to; this is the zero register only if `RC` names it.
-/
import AsimFeeder.Aint.ZeroRegister
import AsimFeeder.Aint.RenameReads

namespace AsimFeeder.Aint

open Lib

/-! ### What a routine writes -/

/-- A routine writes an argument or nothing; one that does not clear the zero register writes
`RC`, and is one of `newinst.c`. -/
structure ScalarIcode.Writes (i : ScalarIcode) (x : InflightInst) (r r' : RegFile) : Prop where
  writes : ∃ between, (between = r ∨ ∃ arg value, between = r.write (x.args arg) value) ∧
    r' = if i.clears then between.ZERO_ZERO_REG else between
  keeps : i.clears = false → r' = r ∧ i.dest = none ∨
    ∃ name value, i.func = .newinst name ∧ r' = r.write (x.args .RC) value

theorem ScalarIcode.run_writes {host : Host} {asked : Asked} {i : ScalarIcode} {x : InflightInst}
    {r r' : RegFile} (h : i.run host asked x r = some r') : i.Writes x r r' := by
  obtain ⟨func, ra, rb, rc, literal, immed⟩ := i
  have hwrite : ∀ {j : ScalarIcode} (arg : Arg) (value : Int), j.clears = true →
      j.Writes x r (r.write (x.args arg) value).ZERO_ZERO_REG := by
    intro j arg value hclears
    refine ⟨⟨_, .inr ⟨arg, value, rfl⟩, (if_pos hclears).symm⟩, ?_⟩
    intro hnot
    rw [hclears] at hnot
    cases hnot
  cases func with
  | lda =>
      cases h
      exact hwrite _ _ rfl
  | ldah =>
      cases h
      exact hwrite _ _ rfl
  | ldq_u =>
      cases h
      exact hwrite _ _ rfl
  | stq_u =>
      cases h
      exact ⟨⟨r, .inl rfl, rfl⟩, fun _ => .inl ⟨rfl, rfl⟩⟩
  | opfmt name =>
      cases h
      exact hwrite _ _ rfl
  | cmov cond =>
      cases h
      refine ⟨?_, fun hnot => by cases hnot⟩
      by_cases hcond : cond.holds (r.Reg (x.args .RA)) = true
      · simp only [hcond, if_true]
        exact ⟨_, .inr ⟨_, _, rfl⟩, rfl⟩
      · simp only [hcond]
        exact ⟨r, .inl rfl, rfl⟩
  | amask =>
      cases h
      exact hwrite _ _ rfl
  | implver =>
      cases h
      exact hwrite _ _ rfl
  | empty =>
      cases h
      exact ⟨⟨r, .inl rfl, rfl⟩, fun _ => .inl ⟨rfl, rfl⟩⟩
  | rpcc =>
      cases h
      exact hwrite _ _ rfl
  | jump =>
      cases h
      exact hwrite _ _ rfl
  | pal1b =>
      cases h
      exact hwrite _ _ rfl
  | newinst name =>
      obtain ⟨value, -, rfl⟩ := Option.map_eq_some_iff.mp h
      exact ⟨⟨_, .inr ⟨_, _, rfl⟩, rfl⟩, fun _ => .inr ⟨name, _, rfl, rfl⟩⟩

namespace RenameThread

variable {t t' : RenameThread} {instid : UInt64}

/-! ### Writes keep the registers apart -/

theorem Conserves.writeArg (h : t.Conserves) (hmem : instid ∈ t.flight) (arg : Arg) (value : Int) :
    Conserves { t with regs := t.regs.write ((t.cbif instid).args arg) value } :=
  h.write (h.safe_arg hmem arg) value

theorem Conserves.zeroZeroReg (h : t.Conserves) (hmem : instid ∈ t.flight) :
    Conserves { t with regs := t.regs.ZERO_ZERO_REG } := by
  have hcell : t.cell instid (.mapped 31) = some 31 := congrArg some (h.zero 31 (by decide))
  have hwithin : (Target.mapped 31).within (t.cbif instid) = true := rfl
  apply h.write
  exact h.safe_target hmem hwithin hcell

/-! ### The zero register is not freed -/

/-- The register is as it was, and what is in flight was before. -/
structure Leaves (t t' : RenameThread) : Prop where
  zero : t'.regs.Reg ZERO_REGISTER = t.regs.Reg ZERO_REGISTER
  picode : ∀ i picode, (t'.cbif i).picode = some picode → (t.cbif i).picode = some picode

theorem Leaves.refl (t : RenameThread) : Leaves t t := ⟨rfl, fun _ _ h => h⟩

theorem Leaves.trans {t'' : RenameThread} (h : Leaves t t') (h' : Leaves t' t'') : Leaves t t'' :=
  ⟨h'.zero.trans h.zero, fun i picode hi => h.picode i picode (h'.picode i picode hi)⟩

theorem Reg_release_zero {r : RegFile} {pr : Nat} (h : pr ≠ ZERO_REGISTER) :
    (r.release pr).Reg ZERO_REGISTER = r.Reg ZERO_REGISTER := Reg_release_of_ne (Ne.symm h)

/-- An entry is not in use any more. -/
theorem picode_update {cbif : UInt64 → InflightInst} {j : UInt64} {x : InflightInst}
    (hx : x.picode = none) {i : UInt64} {picode : Icode}
    (h : (Function.update cbif j x i).picode = some picode) : (cbif i).picode = some picode := by
  by_cases hij : i = j
  · rw [hij, Function.update_self, hx] at h
    cases h
  · rw [Function.update_of_ne hij] at h
    exact h

theorem commit_leaves (h : t.AINT_commit_instr instid = some t') : Leaves t t' := by
  unfold AINT_commit_instr at h
  dsimp only at h
  obtain ⟨picode, -, hrest⟩ := Option.bind_eq_some_iff.mp h
  have hzero : (if picode.dest.isSome ∧ (t.cbif instid).OldDest_Phys ≠ ZERO_REGISTER then
      t.regs.release (t.cbif instid).OldDest_Phys else t.regs).Reg ZERO_REGISTER
        = t.regs.Reg ZERO_REGISTER := by
    by_cases hfrees : picode.dest.isSome ∧ (t.cbif instid).OldDest_Phys ≠ ZERO_REGISTER
    · rw [if_pos hfrees]
      exact Reg_release_zero hfrees.2
    · rw [if_neg hfrees]
  split at hrest
  · cases hrest
  · split at hrest
    · cases hrest
      exact ⟨hzero, fun _ _ hi => hi⟩
    · cases hrest
      exact ⟨hzero, fun _ _ hi => picode_update rfl hi⟩

theorem killYoungest_leaves (t : RenameThread) (picode : Icode) :
    Leaves t (t.killYoungest picode) := by
  refine ⟨?_, fun _ _ hi => picode_update rfl hi⟩
  unfold killYoungest
  dsimp only
  cases picode.dest with
  | none => rfl
  | some dest =>
      by_cases hzero : (t.cbif t.instid).args dest = ZERO_REGISTER
      · simp only [hzero, if_true]
      · simp only [hzero, if_false]
        exact Reg_release_zero hzero

theorem killLoop_leaves {stop : UInt64} {fuel : Nat} (h : killLoop stop fuel t = some t') :
    Leaves t t' := by
  induction fuel generalizing t with
  | zero =>
      rw [killLoop] at h
      split at h
      · cases h
        exact .refl _
      · cases h
  | succ fuel ih =>
      rw [killLoop] at h
      split at h
      · cases h
        exact .refl _
      · split at h
        · cases h
        · cases hpicode : (t.cbif t.instid).picode with
          | none =>
              rw [hpicode] at h
              cases h
              exact .refl _
          | some picode =>
              rw [hpicode] at h
              exact (killYoungest_leaves t picode).trans (ih h)

/-- A fetch writes no register. -/
theorem fetch_Reg {picode : Option Icode} (h : t.AINT_fetch_next_instr picode = some t') :
    t'.regs.Reg = t.regs.Reg := by
  cases picode with
  | none =>
      cases h
      rfl
  | some picode =>
      unfold AINT_fetch_next_instr at h
      dsimp only at h
      split at h
      · cases h
      · cases hdest : picode.dest with
        | none =>
            rw [hdest] at h
            cases h
            rfl
        | some dest =>
            rw [hdest] at h
            obtain ⟨⟨pr, regs⟩, hremap, rfl⟩ := Option.map_eq_some_iff.mp h
            unfold RegFile.ReMap at hremap
            dsimp only at hremap
            split at hremap
            · cases hremap
              rfl
            · split at hremap
              · cases hremap
              · cases hremap
                exact RegFile.Reg_setFree

end RenameThread

namespace ScalarThread

variable {host : Host} {s s' : ScalarThread} {instid : UInt64} {asked : Asked}

/-! ### The invariant -/

structure Sound (s : ScalarThread) : Prop where
  conserves : s.rename.Conserves
  zero : s.rename.regs.Reg ZERO_REGISTER = 0
  picode : ∀ i picode, (s.rename.cbif i).picode = some picode → picode = (s.picode i).icode

theorem Start.sound (h : s.Start) : s.Sound := by
  have hrename : s.rename = .init := h
  refine ⟨?_, ?_, ?_⟩
  · rw [hrename]
    exact RenameThread.conserves_init
  · rw [hrename]
    decide +kernel
  · intro i picode hi
    rw [hrename] at hi
    cases hi

/-- What leaves the zero register and the entries leaves a thread sound. -/
theorem Sound.leaves (h : s.Sound) {t : RenameThread} (hconserves : t.Conserves)
    (hleaves : RenameThread.Leaves s.rename t) : Sound { s with rename := t } where
  conserves := hconserves
  zero := hleaves.zero.trans h.zero
  picode := fun i picode hi => h.picode i picode (hleaves.picode i picode hi)

theorem Sound.fetch (h : s.Sound) {picode : Option ScalarIcode}
    (hfetch : s.AINT_fetch_next_instr picode = some s') : s'.Sound := by
  obtain ⟨t, ht, rfl⟩ := Option.map_eq_some_iff.mp hfetch
  have hzero : t.regs.Reg ZERO_REGISTER = 0 := by
    rw [RenameThread.fetch_Reg ht]
    exact h.zero
  cases picode with
  | none =>
      cases ht
      exact h
  | some picode =>
      refine ⟨h.conserves.fetch ht, hzero, ?_⟩
      obtain ⟨-, args, old, regs, rfl⟩ := RenameThread.fetch_eq ht
      intro i entry hi
      by_cases hslot : i = SUCC_CIRC s.rename.instid
      · subst hslot
        simp only [Function.update_self] at hi ⊢
        exact (Option.some.inj hi).symm
      · simp only [Function.update_of_ne hslot] at hi ⊢
        exact h.picode i entry hi

/-- The entry of an instruction in flight. -/
theorem Sound.entry (h : s.Sound) (hmem : instid ∈ s.rename.flight) :
    (s.rename.cbif instid).picode = some (s.picode instid).icode := by
  obtain ⟨o, ho⟩ := h.conserves.ring
  obtain ⟨picode, hpicode⟩ := ho.alive instid hmem
  rw [hpicode, h.picode instid picode hpicode]

/-- What names the zero register was renamed to it. -/
theorem Sound.args_zero (h : s.Sound) (hmem : instid ∈ s.rename.flight) {arg : Arg}
    (harg : isNonzero ((s.picode instid).args arg) = false) :
    (s.rename.cbif instid).args arg = ZERO_REGISTER := by
  obtain ⟨base, hbase⟩ := h.conserves.renames
  exact hbase.args_zero (List.mem_map_of_mem hmem) (h.entry hmem) harg h.conserves.zero

theorem isNonzero_logicalOf {reg : Fin 32} (h : reg ≠ 31) : isNonzero (logicalOf reg) = true := by
  have hlt := reg.isLt
  have hne : reg.val ≠ 31 := fun heq => h (Fin.ext heq)
  rw [isNonzero_iff]
  unfold logicalOf FP_ZERO_REGISTER ZERO_REGISTER
  dsimp only
  omega

/-- A destination that is the zero register names it, and the old value is that of the zero
register as well. -/
theorem Sound.old_zero (h : s.Sound) (hmem : instid ∈ s.rename.flight) {dest : Arg}
    (hdest : (s.picode instid).dest = some dest)
    (hzero : (s.rename.cbif instid).args dest = ZERO_REGISTER) :
    (s.rename.cbif instid).OldDest_Phys = ZERO_REGISTER := by
  obtain ⟨base, hbase⟩ := h.conserves.renames
  have hmap := List.mem_map_of_mem (f := s.rename.cbif) hmem
  have hreg := (hbase.old_of_mem hmap (h.entry hmem) hdest).2.mp hzero
  exact hbase.old_zero hmap (h.entry hmem) hdest hreg h.conserves.zero

/-- An `RC` that does not name the zero register was renamed to another one. -/
theorem Sound.args_nonzero (h : s.Sound) (hmem : instid ∈ s.rename.flight)
    (hdest : (s.picode instid).dest = some .RC) (hrc : (s.picode instid).rc ≠ 31) :
    (s.rename.cbif instid).args .RC ≠ ZERO_REGISTER := by
  obtain ⟨base, hbase⟩ := h.conserves.renames
  have hargs : (s.picode instid).icode.args .RC = logicalOf (s.picode instid).rc := if_pos hdest
  have hiff := (hbase.old_of_mem (List.mem_map_of_mem hmem) (h.entry hmem) hdest).2
  rw [Ne, hiff, hargs, isNonzero_logicalOf hrc]
  decide

/-- The routine runs on registers with the zero register zero, if it does not clear it. -/
theorem Sound.routine (h : s.Sound) (hmem : instid ∈ s.rename.flight)
    (hcareful : ∀ name, (s.picode instid).func = .newinst name → (s.picode instid).rc ≠ 31)
    {r regs : RegFile} (hr : RenameThread.Conserves { s.rename with regs := r })
    (hzero : (s.picode instid).clears = false → r.Reg ZERO_REGISTER = 0)
    (hrun : (s.picode instid).run host asked (s.rename.cbif instid) r = some regs) :
    Sound { s with rename := { s.rename with regs := regs } } := by
  obtain ⟨⟨between, hbetween, hregs⟩, hkeeps⟩ := ScalarIcode.run_writes hrun
  have hconserves : RenameThread.Conserves { s.rename with regs := between } := by
    rcases hbetween with rfl | ⟨arg, value, rfl⟩
    · exact hr
    · exact hr.writeArg hmem arg value
  cases hclears : (s.picode instid).clears with
  | true =>
      rw [hclears, if_pos rfl] at hregs
      subst hregs
      have hcleared : between.ZERO_ZERO_REG.Reg ZERO_REGISTER = 0 :=
        Function.update_self 31 0 between.Reg
      exact ⟨hconserves.zeroZeroReg hmem, hcleared, h.picode⟩
  | false =>
      have hsame : regs = between := by
        rw [hregs, hclears, if_neg Bool.false_ne_true]
      refine ⟨hsame ▸ hconserves, ?_, h.picode⟩
      rcases hkeeps hclears with ⟨rfl, -⟩ | ⟨name, value, hname, rfl⟩
      · exact hzero hclears
      · have hdest : (s.picode instid).dest = some .RC := by
          unfold ScalarIcode.dest
          rw [hname]
        have hne := h.args_nonzero hmem hdest (hcareful name hname)
        exact (Function.update_of_ne (Ne.symm hne) _ _).trans (hzero hclears)

/-- Whatever an issue runs. -/
theorem Sound.issued (h : s.Sound) (hmem : instid ∈ s.rename.flight)
    (hcareful : ∀ name, (s.picode instid).func = .newinst name → (s.picode instid).rc ≠ 31)
    {r regs : RegFile} (hr : RenameThread.Conserves { s.rename with regs := r })
    (hzero : r.Reg ZERO_REGISTER = 0)
    (hissue : (s.picode instid).issue host asked (s.rename.cbif instid) r = some regs) :
    Sound { s with rename := { s.rename with regs := regs } } := by
  unfold ScalarIcode.issue at hissue
  split at hissue
  · cases hissue
    exact ⟨hr, hzero, h.picode⟩
  · exact h.routine hmem hcareful hr (fun _ => hzero) hissue

/-- **An issue leaves the zero register zero, unless it is the `RC` of `newinst.c`.** -/
theorem Sound.issue (h : s.Sound) (hmem : instid ∈ s.rename.flight)
    (hcareful : ∀ name, (s.picode instid).func = .newinst name → (s.picode instid).rc ≠ 31)
    (hissue : s.AINT_issue_other host instid asked = some s') : s'.Sound := by
  unfold AINT_issue_other at hissue
  dsimp only at hissue
  rw [h.entry hmem, Option.isSome_some, if_pos rfl] at hissue
  obtain ⟨regs, hrun, rfl⟩ := Option.map_eq_some_iff.mp hissue
  cases hdest : (s.picode instid).dest with
  | none =>
      rw [hdest] at hrun
      exact h.issued hmem hcareful h.conserves h.zero hrun
  | some dest =>
      rw [hdest] at hrun
      refine h.issued hmem hcareful (h.conserves.writeArg hmem dest _) ?_ hrun
      by_cases hzero : (s.rename.cbif instid).args dest = ZERO_REGISTER
      · -- the zero register is copied to itself
        rw [h.old_zero hmem hdest hzero]
        unfold RegFile.write
        dsimp only
        rw [hzero, Function.update_self]
        exact h.zero
      · exact (Function.update_of_ne (Ne.symm hzero) _ _).trans h.zero

theorem Sound.step (h : s.Sound) (hstep : Step host careful s s') : s'.Sound := by
  obtain ⟨e, hok, hexec⟩ := hstep
  obtain ⟨hlegal, hcareful⟩ := Bool.and_eq_true_iff.mp hok
  cases e with
  | fetch picode => exact h.fetch hexec
  | issue instid asked =>
      apply h.issue (List.contains_iff_mem.mp hlegal) _ hexec
      intro name hname
      simp only [hname] at hcareful
      exact of_decide_eq_true hcareful
  | memop instid asked =>
      obtain ⟨hmem, hmemref⟩ := Bool.and_eq_true_iff.mp hlegal
      obtain ⟨regs, hrun, rfl⟩ := Option.map_eq_some_iff.mp hexec
      apply h.routine (List.contains_iff_mem.mp hmem) _ h.conserves (fun _ => h.zero) hrun
      intro name hname
      unfold ScalarIcode.isMemRef at hmemref
      rw [hname] at hmemref
      cases hmemref
  | commit instid =>
      obtain ⟨t, ht, rfl⟩ := Option.map_eq_some_iff.mp hexec
      obtain ⟨l, hl⟩ := List.head?_eq_some_iff.mp (eq_of_beq hlegal)
      exact h.leaves (h.conserves.commit hl ht) (RenameThread.commit_leaves ht)
  | kill instid =>
      obtain ⟨t, ht, rfl⟩ := Option.map_eq_some_iff.mp hexec
      exact h.leaves (h.conserves.killLoop ht) (RenameThread.killLoop_leaves ht)

/-- **If no instruction of `newinst.c` is issued that has the zero register as `RC`, it always
reads zero.** -/
theorem readsZero_of_careful (h : Reaches Start (Step host careful) s) : s.ReadsZero careful := by
  have hs : s.Sound := by
    refine h.invariant (P := Sound) ?_ ?_
    · intro s hs
      exact hs.sound
    · intro s s' hs hstep
      exact hs.step hstep
  refine ⟨?_, ?_⟩
  · intro instid asked hok
    exact hs.zero
  · intro instid asked arg hok hne harg
    have hlegal := (Bool.and_eq_true_iff.mp hok).1
    rw [hs.args_zero (List.contains_iff_mem.mp hlegal) harg]
    exact hs.zero

/-! ### Two runs -/

def init : ScalarThread := ⟨.init, fun _ => ⟨.empty, 0, 0, 0, none, 0⟩⟩

/-- A host whose instructions compute nothing. -/
def idle : Host := ⟨fun _ _ _ => 0, 0, 0⟩

/-- `lda R1, 7(R31)`, and `sextb R1` into some register. -/
def loadAndExtend (rc : Fin 32) : List ScalarEvent :=
  [.fetch (some ⟨.lda, 1, 31, 0, none, 7⟩), .fetch (some ⟨.newinst .sextb, 0, 1, rc, none, 0⟩),
    .issue 0 ⟨0, 0, 0⟩, .issue 1 ⟨0, 0, 0⟩]

theorem init_start : Start init := rfl

theorem reaches_after {ok : ScalarThread → ScalarEvent → Bool} {es : List ScalarEvent}
    (h : after (fun s e => s.exec host e) ok es init = some s) :
    Reaches Start (Step host ok) s :=
  Reaches.after (fun _ e _ hok hexec => ⟨e, hok, hexec⟩) (.start init_start) h

theorem readsZero_of_careful_extend : ∃ s,
    after (fun s e => exec s idle e) careful (loadAndExtend 2) init = some s ∧
      s.ReadsZero careful := by
  have hrun : (after (fun s e => exec s idle e) careful (loadAndExtend 2) init).isSome := by
    decide +kernel
  obtain ⟨s, hs⟩ := Option.isSome_iff_exists.mp hrun
  exact ⟨s, hs, readsZero_of_careful (reaches_after hs)⟩

/-- **The zero register holds seven.** -/
theorem not_readsZero_extend : ¬ ∀ host s, Reaches Start (Step host legal) s →
    s.ReadsZero legal := by
  intro hall
  have hrun : (after (fun s e => exec s idle e) legal (loadAndExtend 31) init).map (fun s =>
      (s.legal (.issue 1 ⟨0, 0, 0⟩), s.rename.regs.Reg ZERO_REGISTER)) = some (true, 7) := by
    decide +kernel
  obtain ⟨s, hs, hvalues⟩ := Option.map_eq_some_iff.mp hrun
  obtain ⟨hlegal, hvalue⟩ := Prod.mk.inj hvalues
  have hzero := (hall idle s (reaches_after hs)).register 1 ⟨0, 0, 0⟩ hlegal
  rw [hvalue] at hzero
  cases hzero

end ScalarThread

end AsimFeeder.Aint
