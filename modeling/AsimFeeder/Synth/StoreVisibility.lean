/-
What the feeder keeps of the stores that only their thread sees.

A store that becomes visible locally is to have one memop until it is globally visible or
killed, and the map is to find it.  But `found` is set before anything is looked for, so no
memop is ever put into the map.  When the store becomes globally visible it gets a second
memop, and a kill finds nothing to take back: what became locally visible stays so.

Compare-exchanges are never only locally visible, so as long as no other store does
`DoSpecWrite`, each memop is made and reclaimed in one step, and nothing is amiss.
-/
import AsimFeeder.Lib.Runs
import AsimFeeder.MemoryValues.MemoryStores
import AsimFeeder.Synth.ThreadMgmt

namespace AsimFeeder.Synth

open Lib MemoryValues

namespace ThreadMgmt

variable {s t : ThreadMgmt} {inst : AsimInst} {streamId : Nat}

/-- No memop can be found. -/
def Forgetful (s : ThreadMgmt) : Prop := ∀ uid, s.asim_inst_to_memop_map uid = none

/-- The state with one memop more, for a store that is about to become visible. -/
def withMemop (s : ThreadMgmt) (inst : AsimInst) (streamId : Nat) (st : MemState) (bits : Nat)
    (pa : BitVec 64) (value : UWord128) : ThreadMgmt :=
  { s.new_memop bits streamId pa inst.uid value with
    ops := Function.update s.ops s.made
      { (MemOp.new bits streamId pa).setValue128 value with state := st } }

/-- What is left to do for a store that is visible now. -/
def finish (st : MemState) (inst : AsimInst) (streamId : Nat) (m : Ref) (s : ThreadMgmt) :
    ThreadMgmt :=
  if st = .globallyVisible then (s.reclaim_memop m).remove_si_value streamId inst else s

/-- **Every store that becomes visible gets a memop of its own.** -/
theorem one_write_eq (h : s.Forgetful) {st : MemState} (hst : st ≠ .uninit) (bits : Nat)
    (pa : BitVec 64) (value : UWord128) :
    s.handle_mvm_one_write inst streamId st bits pa value =
      (s.doing_conditional_store inst streamId).bind fun doing =>
        if doing then
          ((s.withMemop inst streamId st bits pa value).store_visible s.made st).map
            (finish st inst streamId s.made)
        else .ok (s.remove_si_value streamId inst) := by
  have hnone : s.find_memop_in_map inst.uid = none := h inst.uid
  have hmake : s.find_or_make inst streamId bits pa value =
      (s.new_memop bits streamId pa inst.uid value, s.made) := by
    unfold find_or_make
    rw [hnone]
  have hstate : (s.new_memop bits streamId pa inst.uid value).set_state s.made st =
      .ok (s.withMemop inst streamId st bits pa value) := by
    have hop : (s.new_memop bits streamId pa inst.uid value).ops s.made =
        (MemOp.new bits streamId pa).setValue128 value := Function.update_self ..
    unfold set_state
    rw [hop]
    unfold MemOp.setState
    rw [if_pos (show st ≠ ((MemOp.new bits streamId pa).setValue128 value).state from hst)]
    unfold withMemop new_memop
    simp only [Except.map, Function.update_idem]
  unfold handle_mvm_one_write
  dsimp only [bind, Except.bind]
  cases s.doing_conditional_store inst streamId with
  | error message => rfl
  | ok doing =>
      cases doing with
      | false =>
          dsimp only
          rw [if_neg Bool.false_ne_true, if_neg Bool.false_ne_true, hnone]
      | true =>
          dsimp only
          rw [if_pos rfl, if_pos rfl, hmake]
          dsimp only
          rw [hstate]
          dsimp only
          cases hvisible : (s.withMemop inst streamId st bits pa value).store_visible s.made st with
          | error message => rfl
          | ok u =>
              dsimp only [Except.map]
              unfold finish
              by_cases hglobal : st = .globallyVisible
              · rw [if_pos hglobal, if_pos hglobal]
              · rw [if_neg hglobal, if_neg hglobal]
                rfl

/-- A write stores nothing, or makes a memop and hands it to the model. -/
theorem one_write_spec (h : s.Forgetful) {st : MemState} (hst : st ≠ .uninit) {bits : Nat}
    {pa : BitVec 64} {value : UWord128}
    (hwrite : s.handle_mvm_one_write inst streamId st bits pa value = .ok t) :
    (s.doing_conditional_store inst streamId = .ok false ∧ t = s.remove_si_value streamId inst) ∨
      (s.doing_conditional_store inst streamId = .ok true ∧
        ∃ u, (s.withMemop inst streamId st bits pa value).store_visible s.made st = .ok u ∧
          t = finish st inst streamId s.made u) := by
  rw [one_write_eq h hst] at hwrite
  cases hdoing : s.doing_conditional_store inst streamId with
  | error message => rw [hdoing] at hwrite; cases hwrite
  | ok doing =>
      rw [hdoing] at hwrite
      cases doing with
      | false =>
          cases hwrite
          exact .inl ⟨rfl, rfl⟩
      | true =>
          refine .inr ⟨rfl, ?_⟩
          dsimp only [Except.bind] at hwrite
          rw [if_pos rfl] at hwrite
          cases hvisible : (s.withMemop inst streamId st bits pa value).store_visible s.made st with
          | error message => rw [hvisible] at hwrite; cases hwrite
          | ok u =>
              rw [hvisible] at hwrite
              cases hwrite
              exact ⟨u, rfl, rfl⟩

/-- What an operation of the model does not touch. -/
structure SameMemops (s t : ThreadMgmt) : Prop where
  map : t.asim_inst_to_memop_map = s.asim_inst_to_memop_map
  mvm : t.mvm = s.mvm
  live : ∀ m, t.live m ↔ s.live m
  asim_uid : t.asim_uid = s.asim_uid

theorem SameMemops.refl (s : ThreadMgmt) : SameMemops s s := ⟨rfl, rfl, fun _ => Iff.rfl, rfl⟩

theorem same_setThread (s : ThreadMgmt) (streamId : Nat) (thread : CannedThread) :
    SameMemops s (s.setThread streamId thread) :=
  ⟨rfl, rfl, fun _ => Iff.rfl, rfl⟩

/-- A kill finds no memop. -/
theorem kill_memops_eq (h : s.Forgetful) (streamId uid : Nat) (killMe : Bool) :
    s.kill_memops streamId uid killMe = .ok s := by
  unfold kill_memops
  induction (s.threads streamId).issued with
  | nil => rfl
  | cons p l ih =>
      have hone : kill_memop (uid % 2 ^ 32) killMe s p = .ok s := by
        unfold kill_memop
        split
        · rw [show s.find_memop_in_map p.uid = none from h p.uid]
        · rfl
      rw [List.foldlM_cons, hone]
      exact ih

/-- What becomes visible locally is in the list of its thread, and stays alive. -/
theorem local_spec (h : s.Forgetful) (hinst : inst.isCompareExchange = false) {bits : Nat}
    {pa : BitVec 64} {value : UWord128}
    (hwrite : s.handle_mvm_one_write inst streamId .locallyVisible bits pa value = .ok t) :
    t.Forgetful ∧ t.live s.made := by
  rcases one_write_spec h (by decide) hwrite with ⟨hdoing, -⟩ | ⟨-, u, hvisible, rfl⟩
  · unfold doing_conditional_store at hdoing
    rw [if_neg (by rw [hinst]; exact Bool.false_ne_true)] at hdoing
    cases hdoing
  · unfold store_visible at hvisible
    obtain ⟨mvm, -, hu⟩ := map_eq_ok hvisible
    subst hu
    refine ⟨h, ?_⟩
    exact ⟨Nat.lt_succ_self _, .inl (Function.update_self ..)⟩

/-- What becomes visible globally leaves no memop behind, and no other local store. -/
theorem global_spec (h : s.Forgetful) {bits : Nat} {pa : BitVec 64} {value : UWord128}
    (hwrite : s.handle_mvm_one_write inst streamId .globallyVisible bits pa value = .ok t) :
    t.Forgetful ∧ (∀ m, t.live m ↔ s.live m) ∧
      ∀ key p, ∀ m ∈ t.mvm.localStores key p, m ∈ s.mvm.localStores key p := by
  rcases one_write_spec h (by decide) hwrite with ⟨-, rfl⟩ | ⟨-, u, hvisible, rfl⟩
  · exact ⟨h, fun _ => Iff.rfl, fun _ _ _ hm => hm⟩
  · unfold store_visible at hvisible
    obtain ⟨mvm, hmvm, hu⟩ := map_eq_ok hvisible
    subst hu
    refine ⟨?_, ?_, ?_⟩
    · intro uid
      refine (Function.update_apply s.asim_inst_to_memop_map _ none uid).trans ?_
      split
      · rfl
      · exact h uid
    · intro m
      have hmvm_cares : Function.update (Function.update s.mvm_cares s.made false) s.made false m =
          Function.update s.mvm_cares s.made false m := by
        rw [Function.update_idem]
      have hfeeder_cares :
          Function.update (Function.update s.feeder_cares s.made true) s.made false m =
            Function.update s.feeder_cares s.made false m := by
        rw [Function.update_idem]
      show m < s.made + 1 ∧
        (Function.update (Function.update s.mvm_cares s.made false) s.made false m = true ∨
          Function.update (Function.update s.feeder_cares s.made true) s.made false m = true) ↔ _
      rw [hmvm_cares, hfeeder_cares]
      by_cases hm : m = s.made
      · rw [hm, Function.update_self, Function.update_self]
        exact ⟨fun hlive => by simpa using hlive.2, fun hlive => absurd hlive.1 (lt_irrefl _)⟩
      · rw [Function.update_of_ne hm, Function.update_of_ne hm]
        have hlt : m < s.made + 1 ↔ m < s.made :=
          Nat.lt_succ_iff_lt_or_eq.trans (or_iff_left hm)
        exact and_congr_left fun _ => hlt
    · intro key p m hm
      have heffect := MemoryValueModel.storeGloballyVisibleNow_spec hmvm
      have hm' : m ∈ mvm.localStores key p := hm
      rw [heffect.stores] at hm'
      split at hm'
      · exact List.mem_of_mem_filter hm'
      · exact hm'

end ThreadMgmt

/-! ### Runs -/

/-- The threads, and what the simulator knows of the instructions. -/
structure MgmtRun where
  mgmt : ThreadMgmt
  /-- The numbers of instructions so far are below. -/
  bound : Nat
  inFlight : Nat → List AsimInst
  /-- Stores that did `DoSpecWrite`, with their thread. -/
  specs : List (Nat × Nat)
  /-- Instructions that did `DoWrite`. -/
  written : List Nat
  dead : List Nat

inductive MgmtEvent
  | fetch (streamId : Nat) (predicted_pc : Iaddr) (uid : Nat)
  | doRead (streamId : Nat) (inst : AsimInst)
  | doSpecWrite (streamId : Nat) (inst : AsimInst)
  | doWrite (streamId : Nat) (inst : AsimInst)
  | kill (streamId : Nat) (inst : AsimInst) (killMe : Bool)
  | commit (streamId : Nat) (inst : AsimInst)

namespace MgmtRun

variable {g : Nat → GenableProgram} {r t : MgmtRun} {e : MgmtEvent}

def start : MgmtRun := ⟨.new, 0, fun _ => [], [], [], []⟩

def Start (r : MgmtRun) : Prop := r = start

def exec (g : Nat → GenableProgram) (r : MgmtRun) : MgmtEvent → Except String MgmtRun
  | .fetch streamId predicted_pc uid =>
      (r.mgmt.Fetch (g streamId) streamId predicted_pc uid).map fun x =>
        { r with
          mgmt := x.1
          bound := uid + 1
          inFlight := Function.update r.inFlight streamId (r.inFlight streamId ++ [x.2]) }
  | .doRead streamId inst =>
      (r.mgmt.DoRead inst streamId).map fun mgmt => { r with mgmt := mgmt }
  | .doSpecWrite streamId inst =>
      (r.mgmt.DoSpecWrite inst streamId).map fun mgmt =>
        { r with
          mgmt := mgmt
          specs := if inst.isSemaphore then r.specs else (streamId, inst.uid) :: r.specs }
  | .doWrite streamId inst =>
      (r.mgmt.DoWrite inst streamId).map fun mgmt =>
        { r with mgmt := mgmt, written := inst.uid :: r.written }
  | .kill streamId inst killMe =>
      (r.mgmt.Kill inst streamId killMe).map fun mgmt =>
        { r with
          mgmt := mgmt
          inFlight := Function.update r.inFlight streamId
            ((r.inFlight streamId).filter fun i => ¬ Window.Killed AsimInst.uid inst.uid killMe i)
          dead := ((r.inFlight streamId).filter fun i =>
            Window.Killed AsimInst.uid inst.uid killMe i).map AsimInst.uid ++ r.dead }
  | .commit streamId inst =>
      (r.mgmt.Commit inst streamId).map fun mgmt =>
        { r with
          mgmt := mgmt
          inFlight := Function.update r.inFlight streamId
            ((r.inFlight streamId).filter fun i => inst.uid < i.uid) }

/-- Stores do `DoSpecWrite` at most once, and before `DoWrite`. -/
def Legal (r : MgmtRun) : MgmtEvent → Prop
  | .fetch _ _ uid => r.bound ≤ uid
  | .doRead streamId inst => inst ∈ r.inFlight streamId
  | .doSpecWrite streamId inst => inst ∈ r.inFlight streamId ∧
      (inst.isStore || inst.isCompareExchange) = true ∧ (streamId, inst.uid) ∉ r.specs ∧
        inst.uid ∉ r.written
  | .doWrite streamId inst => inst ∈ r.inFlight streamId ∧
      (inst.isStore || inst.isCompareExchange) = true ∧ inst.uid ∉ r.written
  | .kill streamId inst _ => inst ∈ r.inFlight streamId
  | .commit streamId inst => ∃ before p after,
      (r.mgmt.threads streamId).issued = before ++ p :: after ∧ p.uid = inst.uid ∧
        ∀ q ∈ before, q.isNOP = true

def Step (g : Nat → GenableProgram) (r t : MgmtRun) : Prop :=
  ∃ e, r.Legal e ∧ r.exec g e = .ok t

/-- The model has a store of this instruction among those that only its thread sees. -/
def Visible (r : MgmtRun) (streamId uid : Nat) : Prop :=
  ∃ key, ∃ m ∈ r.mgmt.mvm.localStores key streamId, r.mgmt.asim_uid m = uid

/-- The bookkeeping is exact. -/
structure Exact (r : MgmtRun) : Prop where
  /-- What is locally visible did `DoSpecWrite`, and nothing else since. -/
  visible : ∀ streamId uid, r.Visible streamId uid ↔
    (streamId, uid) ∈ r.specs ∧ uid ∉ r.written ∧ uid ∉ r.dead
  /-- A store has at most one memop. -/
  one : ∀ m m', r.mgmt.live m → r.mgmt.live m' → r.mgmt.asim_uid m = r.mgmt.asim_uid m' → m = m'
  /-- The map finds the memop as long as it lives. -/
  found : ∀ uid m, r.mgmt.find_memop_in_map uid = some m ↔
    r.mgmt.live m ∧ r.mgmt.asim_uid m = uid

/-- Nothing is remembered: nothing is left over as long as nothing would have to be. -/
structure Leaks (r : MgmtRun) : Prop where
  forgetful : r.mgmt.Forgetful
  clean : r.specs = [] → (∀ key p, r.mgmt.mvm.localStores key p = []) ∧ ∀ m, ¬ r.mgmt.live m
  leaked : r.specs ≠ [] → ∃ m, r.mgmt.live m

theorem Leaks.start : start.Leaks where
  forgetful := fun _ => rfl
  clean := fun _ => ⟨fun _ p => MemCell.stores_new p, fun m hm => absurd hm.1 (Nat.not_lt_zero m)⟩
  leaked := fun h => absurd rfl h

/-- A step that leaves the memops alone. -/
theorem Leaks.same (h : r.Leaks) {mgmt : ThreadMgmt} (hsame : ThreadMgmt.SameMemops r.mgmt mgmt)
    (hmgmt : t.mgmt = mgmt) (hspecs : t.specs = r.specs) : t.Leaks where
  forgetful := by
    intro uid
    rw [hmgmt, hsame.map]
    exact h.forgetful uid
  clean := by
    intro hnil
    rw [hmgmt, hsame.mvm]
    rw [hspecs] at hnil
    exact ⟨(h.clean hnil).1, fun m hm => (h.clean hnil).2 m ((hsame.live m).mp hm)⟩
  leaked := by
    intro hne
    rw [hspecs] at hne
    obtain ⟨m, hm⟩ := h.leaked hne
    rw [hmgmt]
    exact ⟨m, (hsame.live m).mpr hm⟩

theorem Leaks.exec (h : r.Leaks) (hlegal : r.Legal e) (hexec : r.exec g e = .ok t) : t.Leaks := by
  cases e with
  | fetch streamId predicted_pc uid =>
      obtain ⟨x, hx, rfl⟩ := map_eq_ok hexec
      obtain ⟨y, -, rfl⟩ := map_eq_ok hx
      exact h.same (ThreadMgmt.same_setThread r.mgmt streamId y.1) rfl rfl
  | doRead streamId inst =>
      obtain ⟨mgmt, hread, rfl⟩ := map_eq_ok hexec
      obtain ⟨m, -, hread⟩ := bind_eq_ok hread
      obtain ⟨thread, -, hread⟩ := bind_eq_ok hread
      cases hread
      exact h.same (ThreadMgmt.same_setThread r.mgmt streamId thread) rfl rfl
  | doSpecWrite streamId inst =>
      obtain ⟨mgmt, hwrite, rfl⟩ := map_eq_ok hexec
      unfold ThreadMgmt.DoSpecWrite at hwrite
      cases hsemaphore : inst.isSemaphore with
      | true =>
          rw [if_pos hsemaphore] at hwrite
          cases hwrite
          exact h.same (ThreadMgmt.SameMemops.refl r.mgmt) rfl rfl
      | false =>
          rw [if_neg (by rw [hsemaphore]; exact Bool.false_ne_true)] at hwrite
          obtain ⟨hforgetful, hlive⟩ := ThreadMgmt.local_spec h.forgetful hsemaphore hwrite
          exact {
            forgetful := hforgetful
            clean := by
              intro hnil
              have hcons : (streamId, inst.uid) :: r.specs = [] := hnil
              cases hcons
            leaked := fun _ => ⟨_, hlive⟩ }
  | doWrite streamId inst =>
      obtain ⟨mgmt, hwrite, rfl⟩ := map_eq_ok hexec
      obtain ⟨hforgetful, hlive, hstores⟩ := ThreadMgmt.global_spec h.forgetful hwrite
      exact {
        forgetful := hforgetful
        clean := by
          intro hnil
          obtain ⟨hclean, hdead⟩ := h.clean hnil
          refine ⟨fun key p => List.eq_nil_iff_forall_not_mem.mpr fun m hm => ?_,
            fun m hm => hdead m ((hlive m).mp hm)⟩
          have hmem := hstores key p m hm
          rw [hclean key p] at hmem
          cases hmem
        leaked := by
          intro hne
          obtain ⟨m, hm⟩ := h.leaked hne
          exact ⟨m, (hlive m).mpr hm⟩ }
  | kill streamId inst killMe =>
      obtain ⟨mgmt, hkill, rfl⟩ := map_eq_ok hexec
      unfold ThreadMgmt.Kill at hkill
      rw [ThreadMgmt.kill_memops_eq h.forgetful] at hkill
      obtain ⟨u, hu, hkill⟩ := bind_eq_ok hkill
      cases hu
      obtain ⟨thread, -, hkill⟩ := bind_eq_ok hkill
      cases hkill
      exact h.same (ThreadMgmt.same_setThread r.mgmt streamId thread) rfl rfl
  | commit streamId inst =>
      obtain ⟨mgmt, hcommit, rfl⟩ := map_eq_ok hexec
      obtain ⟨thread, -, rfl⟩ := map_eq_ok hcommit
      exact h.same (ThreadMgmt.same_setThread r.mgmt streamId thread) rfl rfl

theorem Leaks.of_reaches (h : Reaches Start (Step g) r) : r.Leaks :=
  h.invariant (fun _ hs => hs ▸ Leaks.start) fun _ _ hr ⟨_, hlegal, hexec⟩ => hr.exec hlegal hexec

theorem Leaks.exact_iff (h : r.Leaks) : r.Exact ↔ r.specs = [] := by
  constructor
  · intro hexact
    by_contra hne
    obtain ⟨m, hm⟩ := h.leaked hne
    have hfound := (hexact.found (r.mgmt.asim_uid m) m).mpr ⟨hm, rfl⟩
    rw [show r.mgmt.find_memop_in_map (r.mgmt.asim_uid m) = none from h.forgetful _] at hfound
    cases hfound
  · intro hnil
    obtain ⟨hclean, hdead⟩ := h.clean hnil
    refine ⟨fun streamId uid => ?_, fun m _ hm => absurd hm (hdead m), fun uid m => ?_⟩
    · refine iff_of_false ?_ ?_
      · rintro ⟨key, m, hm, -⟩
        rw [hclean key streamId] at hm
        cases hm
      · rintro ⟨hmem, -⟩
        rw [hnil] at hmem
        cases hmem
    · refine iff_of_false ?_ fun hm => hdead m hm.1
      rw [show r.mgmt.find_memop_in_map uid = none from h.forgetful uid]
      exact fun hsome => by cases hsome

/-- **The bookkeeping is exact as long as no store did `DoSpecWrite`, and then no more.** -/
theorem store_visibility_exact_iff (h : Reaches Start (Step g) r) : r.Exact ↔ r.specs = [] :=
  (Leaks.of_reaches h).exact_iff

/-- All threads run the lock at address 0, without delays. -/
def lockPrograms : Nat → GenableProgram := fun _ => .make_synchronization_routine 0 0 0

/-- A legal step, commits apart. -/
def legalStep (r : MgmtRun) : MgmtEvent → Bool
  | .fetch _ _ uid => r.bound ≤ uid
  | .doRead streamId inst => inst ∈ r.inFlight streamId
  | .doSpecWrite streamId inst => inst ∈ r.inFlight streamId ∧
      (inst.isStore || inst.isCompareExchange) = true ∧ (streamId, inst.uid) ∉ r.specs ∧
        inst.uid ∉ r.written
  | .doWrite streamId inst => inst ∈ r.inFlight streamId ∧
      (inst.isStore || inst.isCompareExchange) = true ∧ inst.uid ∉ r.written
  | .kill streamId inst _ => inst ∈ r.inFlight streamId
  | .commit _ _ => false

theorem legal_of_legalStep (h : r.legalStep e = true) : r.Legal e := by
  cases e with
  | commit streamId inst => cases h
  | fetch streamId predicted_pc uid =>
      have hbound : r.bound ≤ uid := of_decide_eq_true h
      exact hbound
  | doRead streamId inst =>
      have hmem : inst ∈ r.inFlight streamId := of_decide_eq_true h
      exact hmem
  | doSpecWrite streamId inst =>
      have hstore : inst ∈ r.inFlight streamId ∧ (inst.isStore || inst.isCompareExchange) = true ∧
          (streamId, inst.uid) ∉ r.specs ∧ inst.uid ∉ r.written := of_decide_eq_true h
      exact hstore
  | doWrite streamId inst =>
      have hstore : inst ∈ r.inFlight streamId ∧ (inst.isStore || inst.isCompareExchange) = true ∧
          inst.uid ∉ r.written := of_decide_eq_true h
      exact hstore
  | kill streamId inst killMe =>
      have hmem : inst ∈ r.inFlight streamId := of_decide_eq_true h
      exact hmem

/-- The state after some events. -/
def run (events : List MgmtEvent) : Option MgmtRun :=
  after (fun r e => (r.exec lockPrograms e).toOption) legalStep events start

theorem reaches_run {events : List MgmtEvent} (h : run events = some r) :
    Reaches Start (Step lockPrograms) r := by
  refine Reaches.after ?_ (.start (Eq.refl start)) h
  intro r e t hok hexec
  exact ⟨e, legal_of_legalStep hok, eq_ok_of_toOption hexec⟩

/-- A thread takes the lock. -/
theorem store_visibility_exact_iff_locked : ∃ r : MgmtRun, r.written = [1] ∧
    (r.Exact ↔ r.specs = []) := by
  let cmpxch : AsimInst := ⟨1, .compareExchange, false, 0, 1⟩
  let events : List MgmtEvent :=
    [.fetch 0 ⟨0, 0⟩ 0, .fetch 0 ⟨48, 0⟩ 1, .doRead 0 cmpxch, .doWrite 0 cmpxch]
  have hrun : (run events).any (fun r => r.written == [1]) = true := by
    decide +kernel
  obtain ⟨r, hr, hwritten⟩ := (Option.any_eq_true ..).mp hrun
  exact ⟨r, eq_of_beq hwritten, store_visibility_exact_iff (reaches_run hr)⟩

/-- A store of the lock becomes visible for its thread, and its memop is lost. -/
theorem store_visibility_not_always_exact :
    ∃ r, Reaches Start (Step lockPrograms) r ∧ ¬ r.Exact := by
  let store : AsimInst := ⟨1, .store, false, 0, 1⟩
  let events : List MgmtEvent := [.fetch 0 ⟨0, 0⟩ 0, .fetch 0 ⟨96, 0⟩ 1, .doSpecWrite 0 store]
  have hrun : (run events).any (fun r => r.specs == [(0, 1)]) = true := by
    decide +kernel
  obtain ⟨r, hr, hspecs⟩ := (Option.any_eq_true ..).mp hrun
  refine ⟨r, reaches_run hr, fun hexact => ?_⟩
  have hnil := (Leaks.of_reaches (reaches_run hr)).exact_iff.mp hexact
  rw [eq_of_beq hspecs] at hnil
  cases hnil

end MgmtRun

end AsimFeeder.Synth
