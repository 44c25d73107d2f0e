/-
Taking instructions back.

The instructions that were handed out lie one behind the other: each was renamed in the map
that the one before it left, a no-op leaves the map as it is (`Handed`).  So the youngest of
them can be taken back, and what is left was there before it was fetched (`Undone`).  A kill
does that again and again, until it stops where it should.
-/
import AsimFeeder.Aint.Feed
import AsimFeeder.Aint.RenameReads

namespace AsimFeeder.Aint

open Lib

/-! ### One behind the other -/

/-- It was handed out in this map. -/
structure HandedInst.HandedIn (t : AintThread) (base : LogicalRegNum → Nat) (x : HandedInst) :
    Prop where
  before : x.before = base
  noop : x.instid? = none → x.after = base
  slot : ∀ i, x.instid? = some i → ∃ picode, (t.rename.cbif i).Renamed base picode ∧
    x.after = (t.rename.cbif i).after base picode ∧ (t.memops i).vl = base VL_REG

inductive Handed (t : AintThread) :
    (LogicalRegNum → Nat) → List HandedInst → (LogicalRegNum → Nat) → Prop
  | nil {map : LogicalRegNum → Nat} : Handed t map [] map
  | cons {base map : LogicalRegNum → Nat} {x : HandedInst} {l : List HandedInst}
      (hx : x.HandedIn t base) (hl : Handed t x.after l map) : Handed t base (x :: l) map

theorem instids_append (l r : List HandedInst) : instids (l ++ r) = instids l ++ instids r :=
  List.filterMap_append

theorem instids_noop {x : HandedInst} (h : x.instid? = none) (l : List HandedInst) :
    instids (l ++ [x]) = instids l := by
  rw [instids_append, instids, instids, List.filterMap_cons_none h, List.filterMap_nil,
    List.append_nil]

theorem instids_slot {x : HandedInst} {i : UInt64} (h : x.instid? = some i)
    (l : List HandedInst) : instids (l ++ [x]) = instids l ++ [i] := by
  rw [instids_append, instids, instids, List.filterMap_cons_some h, List.filterMap_nil]

namespace Handed

variable {t t' : AintThread} {base mid map : LogicalRegNum → Nat} {l r : List HandedInst}
  {x : HandedInst}

theorem append (h : Handed t base l mid) (hr : Handed t mid r map) :
    Handed t base (l ++ r) map := by
  induction h with
  | nil => exact hr
  | cons hx _ ih => exact .cons hx (ih hr)

theorem of_append (h : Handed t base (l ++ r) map) :
    ∃ mid, Handed t base l mid ∧ Handed t mid r map := by
  induction l generalizing base with
  | nil => exact ⟨base, .nil, h⟩
  | cons y l ih =>
      cases h with
      | cons hy hl =>
          obtain ⟨mid, hl, hr⟩ := ih hl
          exact ⟨mid, .cons hy hl, hr⟩

/-- The map that the last one left. -/
theorem last (h : Handed t base (l ++ [x]) map) :
    ∃ mid, Handed t base l mid ∧ x.HandedIn t mid ∧ x.after = map := by
  obtain ⟨mid, hl, hr⟩ := h.of_append
  cases hr with
  | cons hx hnil =>
      cases hnil
      exact ⟨mid, hl, hx, rfl⟩

/-- Only their slots matter. -/
theorem congr (h : Handed t base l map) (hsame : ∀ i ∈ instids l,
    t'.rename.cbif i = t.rename.cbif i ∧ (t'.memops i).vl = (t.memops i).vl) :
    Handed t' base l map := by
  induction h with
  | nil => exact .nil
  | @cons base map x l hx hl ih =>
      refine .cons ⟨hx.before, hx.noop, fun i hi => ?_⟩ (ih fun i hi => hsame i ?_)
      · have hmem : i ∈ instids (x :: l) := by
          rw [instids, List.filterMap_cons_some hi]
          exact List.mem_cons_self
        rw [(hsame i hmem).1, (hsame i hmem).2]
        exact hx.slot i hi
      · show i ∈ instids ([x] ++ l)
        rw [instids_append]
        exact List.mem_append_right _ hi

/-- They were renamed in turn. -/
theorem renames (h : Handed t base l map) :
    Renames base ((instids l).map t.rename.cbif) map := by
  induction h with
  | nil => exact .nil
  | @cons base map x l hx hl ih =>
      cases hinstid : x.instid? with
      | none =>
          rw [hx.noop hinstid] at ih
          rw [instids, List.filterMap_cons_none hinstid]
          exact ih
      | some i =>
          obtain ⟨picode, hrenamed, hafter, -⟩ := hx.slot i hinstid
          rw [hafter] at ih
          rw [instids, List.filterMap_cons_some hinstid]
          exact .cons hrenamed ih

end Handed

/-! ### What is taken back -/

/-- From `s`, some of the instructions behind those in these slots are taken back. -/
structure Undone (s t : AintThread) (kept : List UInt64) : Prop where
  entries : ∀ i ∈ kept, t.rename.cbif i = s.rename.cbif i ∧ t.memops i = s.memops i
  memory : t.memory = s.memory
  free : ∀ vec free, s.rename.Partition vec free →
    ∃ new, t.rename.Partition vec (new ++ free)
  cells : ∀ pr, t.rename.Safe pr → t.rename.regs.Reg pr = s.rename.regs.Reg pr

namespace Undone

variable {s t u : AintThread} {kept : List UInt64}

theorem refl (t : AintThread) (kept : List UInt64) : Undone t t kept :=
  ⟨fun _ _ => ⟨rfl, rfl⟩, rfl, fun _ _ hfree => ⟨[], hfree⟩, fun _ _ => rfl⟩

/-- What is safe afterwards was safe before. -/
theorem safe (h : Undone s t kept) {pr : Nat} (hsafe : t.rename.Safe pr) : s.rename.Safe pr := by
  intro vec free hfree hmem
  obtain ⟨new, hnew⟩ := h.free vec free hfree
  exact hsafe vec _ hnew (List.mem_append_right _ hmem)

theorem trans (h : Undone s t kept) (h' : Undone t u kept) : Undone s u kept where
  entries := by
    intro i hi
    exact ⟨(h'.entries i hi).1.trans (h.entries i hi).1,
      (h'.entries i hi).2.trans (h.entries i hi).2⟩
  memory := h'.memory.trans h.memory
  free := by
    intro vec free hfree
    obtain ⟨new, hnew⟩ := h.free vec free hfree
    obtain ⟨new', hnew'⟩ := h'.free vec _ hnew
    rw [← List.append_assoc] at hnew'
    exact ⟨_, hnew'⟩
  cells := by
    intro pr hsafe
    rw [h'.cells pr hsafe, h.cells pr (h'.safe hsafe)]

theorem mono (h : Undone s t kept) {l : List UInt64} (hl : ∀ i ∈ l, i ∈ kept) : Undone s t l :=
  ⟨fun i hi => h.entries i (hl i hi), h.memory, h.free, h.cells⟩

end Undone

/-- A cell that is safe afterwards is not the one that became free. -/
theorem RenameThread.killYoungest_Reg {t : RenameThread} {picode : Icode}
    (h : (t.killYoungest picode).Conserves) {pr : Nat} (hsafe : (t.killYoungest picode).Safe pr) :
    (t.killYoungest picode).regs.Reg pr = t.regs.Reg pr := by
  cases hdest : picode.dest with
  | none =>
      unfold RenameThread.killYoungest
      rw [hdest]
  | some dest =>
      have hregs : { (t.killYoungest picode).regs with RegMap := t.regs.RegMap } =
          if (t.cbif t.instid).args dest = ZERO_REGISTER then t.regs
          else t.regs.release ((t.cbif t.instid).args dest) := by
        unfold RenameThread.killYoungest
        rw [hdest]
        dsimp only
        split
        · rfl
        · rw [← RegMap_release]
      have hReg := congrArg RegFile.Reg hregs
      dsimp only at hReg
      by_cases hzero : (t.cbif t.instid).args dest = ZERO_REGISTER
      · rw [hReg, if_pos hzero]
      · rw [if_neg hzero] at hregs hReg
        generalize (t.cbif t.instid).args dest = released at hregs hReg
        generalize hvec : decide (FIRST_VECTOR_PHYSICAL ≤ released) = vec
        have hhead := congrArg (RegFile.free · vec) hregs
        dsimp only at hhead
        rw [RegFile.free_setMap] at hhead
        obtain ⟨free, hfree⟩ := h.partition vec
        have hmem : released ∈ free := by
          have hlinked := hfree.linked
          rw [hhead, RegFile.release_eq hvec, RegFile.free_setFree] at hlinked
          cases free with
          | nil => cases hlinked
          | cons p rest =>
              rw [Int.ofNat.inj hlinked.1]
              exact List.mem_cons_self
        have hne : pr ≠ released := by
          rintro rfl
          exact hsafe vec free hfree hmem
        rw [hReg, RegFile.release_eq hvec, RegFile.Reg_setFree]
        exact Function.update_of_ne hne _ _

/-! ### The youngest goes -/

namespace FeedThread

/-- What every step keeps. -/
structure Feeding (t : FeedThread) : Prop where
  conserves : t.aint.rename.Conserves
  buffers : t.aint.Buffers
  flight : t.aint.rename.flight = instids t.handed
  handed : ∃ base, Handed t.aint base t.handed t.aint.rename.regs.RegMap

variable {a a' : AintThread} {l kept gone : List HandedInst} {x : HandedInst} {i : UInt64}

/-- The vector length register of an instruction is one that is mapped or kept. -/
theorem Feeding.safe_vl (h : Feeding ⟨a, l⟩) (hi : i ∈ instids l) :
    a.rename.Safe (a.memops i).vl := by
  obtain ⟨base, hbase⟩ := h.handed
  obtain ⟨x, hx, hxi⟩ := List.mem_filterMap.mp hi
  obtain ⟨pre, post, rfl⟩ := List.append_of_mem hx
  obtain ⟨mid, -, hmid⟩ := hbase.of_append
  have hflight : a.rename.flight = instids pre ++ instids (x :: post) := by
    rw [h.flight, instids_append]
  have hrenames := hmid.renames
  cases hmid with
  | cons hx' _ =>
      obtain ⟨_, -, -, hvl⟩ := hx'.slot i hxi
      rw [hvl]
      exact h.conserves.safe_mapped hflight hrenames VL_REG

/-- What is safe holds what it held, and so does a vector length. -/
theorem VL_eq {rename rename' : RenameThread} {y : Memop}
    (h : rename'.regs.Reg y.vl = rename.regs.Reg y.vl) :
    AintThread.VL rename' y = AintThread.VL rename y := by
  unfold AintThread.VL
  rw [h]

theorem safeCleanup_of_found {VL : Nat} {y : Memop} {others : List StqEntry}
    (h : found VL y others = true) : y.SafeCleanup VL others := by
  obtain ⟨haddress, hlength⟩ := Bool.and_eq_true_iff.mp h
  refine ⟨fun u hu halone => ?_, fun hvector array harray => ?_⟩
  · rw [hu, Option.all_some, Bool.or_eq_true] at haddress
    rcases haddress with hother | hplace
    · obtain ⟨v, hv, hvu⟩ := List.any_eq_true.mp hother
      exact absurd (eq_of_beq hvu) (halone v hv)
    · exact eq_of_beq hplace
  · rw [hvector, harray] at hlength
    exact eq_of_beq hlength

/-- Taking back a no-op leaves the thread as it is. -/
theorem Feeding.noop (h : Feeding ⟨a, l ++ [x]⟩) (hx : x.instid? = none) : Feeding ⟨a, l⟩ where
  conserves := h.conserves
  buffers := h.buffers
  flight := by
    show a.rename.flight = instids l
    rw [← instids_noop hx l]
    exact h.flight
  handed := by
    obtain ⟨base, hbase⟩ := h.handed
    obtain ⟨mid, hl, hmid, hafter⟩ := hbase.last
    refine ⟨base, ?_⟩
    rw [← hafter, hmid.noop hx]
    exact hl

/-- **The youngest instruction is taken back**: the map is the one in which it was renamed. -/
theorem Feeding.killYoungest (h : Feeding ⟨a, l ++ [x]⟩) (hx : x.instid? = some i)
    (hfound : found (AintThread.VL a.rename (a.memops i)) (a.memops i)
      (((instids l).map a.memops).flatMap Memop.held) = true) :
    a.rename.instid = i ∧ ∃ picode a', (a.rename.cbif i).picode = some picode ∧
      a.killYoungest picode = .ok a' ∧ Feeding ⟨a', l⟩ ∧ Undone a a' (instids l) ∧
      a'.rename.instid = PRED_CIRC i ∧ a'.rename.regs.RegMap = x.before := by
  have hflight : a.rename.flight = instids l ++ [i] := by
    rw [← instids_slot hx]
    exact h.flight
  obtain ⟨o, ho⟩ := h.conserves.ring
  obtain ⟨rfl, -, -⟩ := ho.last hflight
  obtain ⟨base, hbase⟩ := h.handed
  obtain ⟨mid, hl, hmid, hafter⟩ := hbase.last
  obtain ⟨picode, hrenamed, hafter', hvl⟩ := hmid.slot _ hx
  obtain ⟨hconserves, hfree, -⟩ := h.conserves.killYoungest hflight hrenamed.entry
  have hmap : (a.rename.killYoungest picode).regs.RegMap = mid := by
    show (a.rename.cbif a.rename.instid).undo picode a.rename.regs.RegMap = mid
    rw [← hrenamed.undo_after, ← hafter', hafter]
  have hsafe : (a.rename.killYoungest picode).Safe (a.memops a.rename.instid).vl := by
    rw [hvl, ← hmap]
    exact hconserves.safe_mapped (List.append_nil _).symm .nil VL_REG
  have hVL := VL_eq (RenameThread.killYoungest_Reg hconserves hsafe)
  obtain ⟨a', hkill, hbuffers, hrename, hflight', hmemops, hmemory⟩ :=
    h.buffers.killYoungest hflight picode (by
      rw [hVL]
      exact safeCleanup_of_found hfound)
  have hnodup := h.buffers.nodup
  rw [hflight] at hnodup
  have hentries : ∀ j ∈ instids l,
      a'.rename.cbif j = a.rename.cbif j ∧ a'.memops j = a.memops j := by
    intro j hj
    refine ⟨?_, hmemops j hj⟩
    rw [hrename]
    show Function.update a.rename.cbif a.rename.instid _ j = _
    rw [Function.update_of_ne]
    rintro rfl
    exact (List.nodup_append.mp hnodup).2.2 _ hj _ (List.mem_singleton.mpr rfl) rfl
  refine ⟨rfl, picode, a', hrenamed.entry, hkill, ?_, ?_, ?_, ?_⟩
  · refine ⟨by rw [hrename]; exact hconserves, hbuffers, hflight', base, ?_⟩
    show Handed a' base l a'.rename.regs.RegMap
    rw [hrename, hmap]
    exact hl.congr fun j hj => ⟨(hentries j hj).1, by rw [(hentries j hj).2]⟩
  · refine ⟨hentries, hmemory, ?_, ?_⟩
    · rw [hrename]
      exact hfree
    · rw [hrename]
      exact fun pr hpr => RenameThread.killYoungest_Reg hconserves hpr
  · rw [hrename]
    rfl
  · rw [hrename, hmap, hmid.before]

/-! ### The loop of a kill -/

theorem foundAll_concat {older rest : List UInt64} (h : foundAll a older (rest ++ [i]) = true) :
    foundAll a older rest = true ∧
      found (AintThread.VL a.rename (a.memops i)) (a.memops i)
        (((older ++ rest).map a.memops).flatMap Memop.held) = true := by
  induction rest generalizing older with
  | nil =>
      rw [List.nil_append, foundAll, foundAll, Bool.and_true] at h
      rw [List.append_nil]
      exact ⟨rfl, h⟩
  | cons j rest ih =>
      rw [List.cons_append, foundAll, Bool.and_eq_true] at h
      obtain ⟨hrest, hi⟩ := ih h.2
      rw [List.append_assoc, List.singleton_append] at hi
      rw [foundAll, Bool.and_eq_true]
      exact ⟨⟨h.1, hrest⟩, hi⟩

theorem foundAll_congr {older rest : List UInt64}
    (hmemops : ∀ j ∈ older ++ rest, a'.memops j = a.memops j)
    (hVL : ∀ j ∈ rest, a'.rename.regs.Reg (a.memops j).vl = a.rename.regs.Reg (a.memops j).vl) :
    foundAll a' older rest = foundAll a older rest := by
  induction rest generalizing older with
  | nil => rfl
  | cons j rest ih =>
      have holder : older.map a'.memops = older.map a.memops :=
        List.map_congr_left fun k hk => hmemops k (List.mem_append_left _ hk)
      rw [foundAll, foundAll, hmemops j (by simp), VL_eq (hVL j List.mem_cons_self), holder,
        ih (by simpa using hmemops) fun k hk => hVL k (List.mem_cons_of_mem j hk)]

/-- The walk that stops behind the others stops behind one less. -/
theorem stopsAt_concat {instid stop : UInt64} {keptIds rest : List UInt64}
    (h : stopsAt instid stop keptIds (rest ++ [i]) = true) :
    i ≠ stop ∧ stopsAt (PRED_CIRC i) stop keptIds rest = true := by
  unfold stopsAt at h ⊢
  obtain ⟨hnot, hlast⟩ := Bool.and_eq_true_iff.mp h
  simp only [List.contains_eq_mem, List.mem_append, List.mem_singleton, Bool.not_eq_true',
    decide_eq_false_iff_not, not_or] at hnot
  refine ⟨Ne.symm hnot.2, ?_⟩
  rw [Bool.and_eq_true]
  refine ⟨by simpa using hnot.1, ?_⟩
  cases rest with
  | nil => exact hlast
  | cons j rest => exact hlast

/-- Where the walk stops at once. -/
theorem killLoop_stopped {stop : UInt64} {fuel : Nat} (h : Feeding ⟨a, l⟩)
    (hstop : stopsAt a.rename.instid stop (instids l) [] = true) :
    AintThread.killLoop stop (fuel + 1) a = .ok a := by
  rw [AintThread.killLoop]
  have hlast : (a.rename.instid == stop ||
      (instids l).isEmpty && decide (a.rename.instid < CBIF_SIZE)) = true := hstop
  by_cases heq : a.rename.instid = stop
  · exact if_pos heq
  · rw [Bool.or_eq_true, beq_iff_eq, Bool.and_eq_true, decide_eq_true_eq] at hlast
    obtain ⟨hempty, hlt⟩ := hlast.resolve_left heq
    have hnone : (a.rename.cbif a.rename.instid).picode = none := by
      obtain ⟨o, ho⟩ := h.conserves.ring
      refine ho.others _ hlt fun hmem => ?_
      rw [h.flight, List.isEmpty_iff.mp hempty] at hmem
      cases hmem
    rw [if_neg heq, if_neg (UInt64.not_le.mpr hlt), hnone]

/-- **The walk takes back what is behind the instructions that stay**, and leaves the map that
was in force there. -/
theorem Feeding.killLoop {stop : UInt64} {fuel : Nat} {mid : LogicalRegNum → Nat}
    (h : Feeding ⟨a, kept ++ gone⟩) (hfuel : (instids gone).length < fuel)
    (hmid : Handed a mid gone a.rename.regs.RegMap)
    (hstop : stopsAt a.rename.instid stop (instids kept) (instids gone) = true)
    (hfound : foundAll a (instids kept) (instids gone) = true) :
    ∃ a', AintThread.killLoop stop fuel a = .ok a' ∧ Feeding ⟨a', kept⟩ ∧
      Undone a a' (instids kept) ∧ a'.rename.regs.RegMap = mid := by
  induction gone using List.reverseRecOn generalizing a fuel with
  | nil =>
      obtain ⟨fuel, rfl⟩ := Nat.exists_eq_succ_of_ne_zero (Nat.ne_of_gt hfuel)
      rw [List.append_nil] at h
      cases hmid
      exact ⟨a, killLoop_stopped h hstop, h, .refl a _, rfl⟩
  | append_singleton gone x ih =>
      obtain ⟨before, hgone, hx, hafter⟩ := hmid.last
      rw [← List.append_assoc] at h
      cases hinstid : x.instid? with
      | none =>
          rw [instids_noop hinstid] at hfuel hstop hfound
          rw [← hx.noop hinstid, hafter] at hgone
          exact ih (h.noop hinstid) hfuel hgone hstop hfound
      | some i =>
          rw [instids_slot hinstid] at hfuel hstop hfound
          rw [List.length_append, List.length_singleton] at hfuel
          obtain ⟨fuel, rfl⟩ := Nat.exists_eq_succ_of_ne_zero (Nat.ne_of_gt (Nat.lt_of_le_of_lt
            (Nat.zero_le _) hfuel))
          obtain ⟨hne, hstop'⟩ := stopsAt_concat hstop
          obtain ⟨hfound', hlast⟩ := foundAll_concat hfound
          rw [← instids_append] at hlast
          obtain ⟨hyoungest, picode, a₁, hpicode, hkill, h₁, hundone, hinstid₁, hmap₁⟩ :=
            h.killYoungest hinstid hlast
          have hlt : ¬ CBIF_SIZE ≤ i := by
            obtain ⟨o, ho⟩ := h.conserves.ring
            have hflight : a.rename.flight = instids (kept ++ gone) ++ [i] := by
              rw [← instids_slot hinstid]
              exact h.flight
            rw [(ho.last hflight).2.2]
            exact UInt64.not_le.mpr (slotOf_lt _)
          have hgone₁ : Handed a₁ mid gone a₁.rename.regs.RegMap := by
            rw [hmap₁, hx.before]
            refine hgone.congr fun j hj => ?_
            have hj' : j ∈ instids (kept ++ gone) := by
              rw [instids_append]
              exact List.mem_append_right _ hj
            exact ⟨(hundone.entries j hj').1, by rw [(hundone.entries j hj').2]⟩
          have hfound₁ : foundAll a₁ (instids kept) (instids gone) = true := by
            rw [foundAll_congr (a := a) ?_ ?_]
            · exact hfound'
            · intro j hj
              rw [← instids_append] at hj
              exact (hundone.entries j hj).2
            · intro j hj
              have hj' : j ∈ instids (kept ++ gone) := by
                rw [instids_append]
                exact List.mem_append_right _ hj
              rw [← (hundone.entries j hj').2]
              exact hundone.cells _ (h₁.safe_vl hj')
          rw [← hinstid₁] at hstop'
          obtain ⟨a', hloop, h', hundone', hmap'⟩ :=
            ih h₁ (Nat.lt_of_succ_lt_succ hfuel) hgone₁ hstop' hfound₁
          refine ⟨a', ?_, h', ?_, hmap'⟩
          · rw [AintThread.killLoop, hyoungest, if_neg hne, if_neg hlt, hpicode]
            dsimp only
            rw [hkill]
            exact hloop
          · refine (hundone.mono fun j hj => ?_).trans hundone'
            rw [instids_append]
            exact List.mem_append_left _ hj

/-- The walk ends in time: a slot is left where it stops. -/
theorem Feeding.length_lt (h : Feeding ⟨a, l⟩) {stop : UInt64} (hstop : stop < CBIF_SIZE)
    {ids : List UInt64} (hsub : ids.Sublist (instids l)) (hnot : stop ∉ ids) :
    ids.length < CBIF_SIZE.toNat := by
  obtain ⟨o, ho⟩ := h.conserves.ring
  have hnodup : (stop :: ids).Nodup := by
    have hflight := h.buffers.nodup
    rw [h.flight] at hflight
    exact List.nodup_cons.mpr ⟨hnot, hflight.sublist hsub⟩
  have hlt : ∀ j ∈ stop :: ids, j < CBIF_SIZE := by
    intro j hj
    rcases List.mem_cons.mp hj with rfl | hj
    · exact hstop
    · have hmem : j ∈ a.rename.flight := by
        rw [h.flight]
        exact hsub.subset hj
      rw [ho.flight, mem_slots] at hmem
      obtain ⟨p, -, -, rfl⟩ := hmem
      exact slotOf_lt p
  have hrange : (stop :: ids).map UInt64.toNat ⊆ List.range CBIF_SIZE.toNat := by
    intro n hn
    obtain ⟨j, hj, rfl⟩ := List.mem_map.mp hn
    exact List.mem_range.mpr (UInt64.lt_iff_toNat_lt.mp (hlt j hj))
  have hle := (List.subperm_of_subset (hnodup.map fun _ _ => UInt64.toNat.inj) hrange).length_le
  rw [List.length_map, List.length_range, List.length_cons] at hle
  exact hle

end FeedThread

end AsimFeeder.Aint
