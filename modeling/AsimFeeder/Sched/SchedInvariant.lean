/-
The map of software contexts onto hardware contexts, over whole runs.

Software and hardware contexts are paired in two tables, which `Linked` says mirror each
other.  Nothing that can run is left waiting while a hardware context is free: where one
is, there is at most the one software context to run that was just descheduled or has just
been added (`OnlyFor`), and that one is what `PickSoftwareContext` finds.
-/
import AsimFeeder.Sched.ContextSched
import AsimFeeder.Lib.Pairing
import AsimFeeder.Lib.Runs
import AsimFeeder.Lib.Checks

namespace AsimFeeder.Sched

open Lib

namespace ContextScheduler

variable {maxNumSwcs : Nat} {s t : ContextScheduler} {swc hwc i : Nat}

/-- The hardware context that a software context says it is mapped to. -/
def hwcOf (s : ContextScheduler) (swc : Nat) : Option Nat :=
  if (s.swcs swc).mappedToHWC then (s.swcs swc).hwc else none

/-- The software context that a hardware context runs. -/
def runningSWC (s : ContextScheduler) (hwc : Nat) : Option Nat := (s.hwcs hwc).swc

/-- The two tables mirror each other, and the flags and the list go with them. -/
structure Linked (maxNumSwcs : Nat) (s : ContextScheduler) : Prop where
  mirror : Mirror s.hwcOf s.runningSWC
  placed : ∀ swc, (s.swcs swc).mappedToHWC = true → ∃ hwc, (s.swcs swc).hwc = some hwc
  pending : ∀ swc, (s.swcs swc).deschedulePending = true → (s.swcs swc).mappedToHWC = true
  listed : ∀ swc, (s.swcs swc).mappedToHWC = true →
    ∃ i < maxNumSwcs, s.swContextList i = some swc
  slot : ∀ i < maxNumSwcs, ∀ j < maxNumSwcs, ∀ swc, s.swContextList i = some swc →
    s.swContextList j = some swc → i = j
  next : ∀ i < maxNumSwcs, s.nextSWCToTry < maxNumSwcs
  warned : notPickedWarning ∉ s.warnings

/-- While a hardware context is free, nothing but `swc` is there to be run. -/
def OnlyFor (maxNumSwcs : Nat) (s : ContextScheduler) (swc : Nat) : Prop :=
  ∀ hwc ∈ s.hwContextList, s.runningSWC hwc = none →
    ∀ i < maxNumSwcs, s.active i = true → s.swContextList i = some swc

/-- While a hardware context is free, nothing is there to be run. -/
def Conserving (maxNumSwcs : Nat) (s : ContextScheduler) : Prop :=
  ∀ hwc ∈ s.hwContextList, s.runningSWC hwc = none → ∀ i < maxNumSwcs, s.active i = false

/-- What holds of the scheduler between two calls. -/
structure Ok (maxNumSwcs : Nat) (s : ContextScheduler) : Prop where
  linked : Linked maxNumSwcs s
  conserving : Conserving maxNumSwcs s
  priority : ∀ hwc ∈ s.hwContextList, Int32.minValue < (s.hwcs hwc).priority

theorem Fresh.ok (h : s.Fresh) : Ok maxNumSwcs s where
  linked := {
    mirror := by
      intro swc hwc
      unfold hwcOf runningSWC
      simp [h.swcs swc, h.hwcs hwc, SwContext.new]
    placed := by
      intro swc hmapped
      simp [h.swcs swc, SwContext.new] at hmapped
    pending := by
      intro swc hpending
      simp [h.swcs swc, SwContext.new] at hpending
    listed := by
      intro swc hmapped
      simp [h.swcs swc, SwContext.new] at hmapped
    slot := by
      intro i hi j hj swc hslot
      simp [h.swContextList i] at hslot
    next := by
      intro i hi
      rw [h.nextSWCToTry]
      exact Nat.zero_lt_of_lt hi
    warned := by simp [h.warnings] }
  conserving := by
    intro hwc hin hfree i hi
    unfold active
    rw [h.swContextList i]
  priority := h.priority

/-- No call touches a software context that is not in the list, or puts it there. -/
def Kept (maxNumSwcs : Nat) (s t : ContextScheduler) : Prop :=
  ∀ swc, (∀ i < maxNumSwcs, s.swContextList i ≠ some swc) →
    t.swcs swc = s.swcs swc ∧ ∀ i < maxNumSwcs, t.swContextList i ≠ some swc

theorem Kept.refl (s : ContextScheduler) : Kept maxNumSwcs s s := fun _ hout => ⟨rfl, hout⟩

theorem Kept.trans {u : ContextScheduler} (h : Kept maxNumSwcs s t) (h' : Kept maxNumSwcs t u) :
    Kept maxNumSwcs s u := by
  intro swc hout
  obtain ⟨hsame, hout'⟩ := h swc hout
  obtain ⟨hsame', hout''⟩ := h' swc hout'
  exact ⟨hsame'.trans hsame, hout''⟩

/-- What changes only software contexts of the list keeps the others. -/
theorem Kept.of_listed (hlist : ∀ i < maxNumSwcs, ∀ swc, t.swContextList i = some swc →
      s.swContextList i = some swc)
    (hswcs : ∀ swc, t.swcs swc ≠ s.swcs swc → ∃ i < maxNumSwcs, s.swContextList i = some swc) :
    Kept maxNumSwcs s t := by
  intro swc hout
  refine ⟨?_, fun i hi hslot => hout i hi (hlist i hi swc hslot)⟩
  by_contra hne
  obtain ⟨i, hi, hslot⟩ := hswcs swc hne
  exact hout i hi hslot

/-- What a software context keeps when it is mapped or is not any more. -/
def unmapped (c : SwContext) : SwContext := { c with mappedToHWC := false, hwc := none }

/-! ### Flags -/

@[simp] theorem setSwc_self (f : SwContext → SwContext) :
    (s.setSwc swc f).swcs swc = f (s.swcs swc) := Function.update_self ..

@[simp] theorem setSwc_of_ne {swc' : Nat} (hne : swc' ≠ swc) (f : SwContext → SwContext) :
    (s.setSwc swc f).swcs swc' = s.swcs swc' := Function.update_of_ne hne ..

/-- A change of flags that maps nothing and makes nothing runnable. -/
structure FlagsOnly (f : SwContext → SwContext) (c : SwContext) : Prop where
  mapped : (f c).mappedToHWC = c.mappedToHWC
  hwc : (f c).hwc = c.hwc
  runnable : (f c).runnable = true → c.runnable = true
  pending : (f c).deschedulePending = true → c.deschedulePending = true ∨ c.mappedToHWC = true

theorem hwcOf_setSwc {f : SwContext → SwContext} (hf : FlagsOnly f (s.swcs swc)) :
    (s.setSwc swc f).hwcOf = s.hwcOf := by
  funext swc'
  unfold hwcOf
  by_cases hne : swc' = swc
  · rw [hne, setSwc_self, hf.mapped, hf.hwc]
  · rw [setSwc_of_ne hne]

theorem active_setSwc {f : SwContext → SwContext} (hf : FlagsOnly f (s.swcs swc))
    (hactive : (s.setSwc swc f).active i = true) : s.active i = true := by
  have hslots : (s.setSwc swc f).swContextList i = s.swContextList i := rfl
  unfold active at hactive ⊢
  rw [hslots] at hactive
  cases hslot : s.swContextList i with
  | none => rw [hslot] at hactive; cases hactive
  | some swc' =>
      rw [hslot] at hactive
      dsimp only at hactive ⊢
      by_cases hne : swc' = swc
      · rw [hne, setSwc_self, hf.mapped] at hactive
        rw [hne]
        simp only [Bool.and_eq_true] at hactive ⊢
        exact ⟨hf.runnable hactive.1, hactive.2⟩
      · rwa [setSwc_of_ne hne] at hactive

theorem Linked.setSwc (h : Linked maxNumSwcs s) {f : SwContext → SwContext}
    (hf : FlagsOnly f (s.swcs swc)) : Linked maxNumSwcs (s.setSwc swc f) where
  mirror := by
    rw [hwcOf_setSwc hf]
    exact h.mirror
  placed := by
    intro swc' hmapped
    by_cases hne : swc' = swc
    · rw [hne, setSwc_self] at hmapped ⊢
      rw [hf.mapped] at hmapped
      rw [hf.hwc]
      exact h.placed swc hmapped
    · rw [setSwc_of_ne hne] at hmapped ⊢
      exact h.placed swc' hmapped
  pending := by
    intro swc' hpending
    by_cases hne : swc' = swc
    · rw [hne, setSwc_self] at hpending ⊢
      rw [hf.mapped]
      exact (hf.pending hpending).elim (h.pending swc) id
    · rw [setSwc_of_ne hne] at hpending ⊢
      exact h.pending swc' hpending
  listed := by
    intro swc' hmapped
    refine h.listed swc' ?_
    by_cases hne : swc' = swc
    · rw [hne, setSwc_self, hf.mapped] at hmapped
      rw [hne]
      exact hmapped
    · rwa [setSwc_of_ne hne] at hmapped
  slot := h.slot
  next := h.next
  warned := h.warned

theorem Ok.setSwc (h : Ok maxNumSwcs s) {f : SwContext → SwContext}
    (hf : FlagsOnly f (s.swcs swc)) : Ok maxNumSwcs (s.setSwc swc f) where
  linked := h.linked.setSwc hf
  conserving := by
    intro hwc hin hfree i hi
    by_contra hactive
    rw [Bool.not_eq_false] at hactive
    have hidle := h.conserving hwc hin hfree i hi
    exact Bool.false_ne_true (hidle.symm.trans (active_setSwc hf hactive))
  priority := h.priority

theorem Ok.warn (h : Ok maxNumSwcs s) {message : String} (hmessage : notPickedWarning ≠ message) :
    Ok maxNumSwcs (s.warn message) where
  linked := { h.linked with
    warned := by
      unfold ContextScheduler.warn
      simp [hmessage, h.linked.warned] }
  conserving := h.conserving
  priority := h.priority

theorem Ok.kept_setSwc (h : Ok maxNumSwcs s) (hmapped : (s.swcs swc).mappedToHWC = true)
    (f : SwContext → SwContext) : Kept maxNumSwcs s (s.setSwc swc f) := by
  refine Kept.of_listed (fun _ _ _ hslot => hslot) ?_
  intro swc' hne
  by_cases hswc : swc' = swc
  · rw [hswc]
    exact h.linked.listed swc hmapped
  · exact absurd (setSwc_of_ne hswc f) hne

/-- Whatever is mapped can be made to deschedule. -/
theorem Ok.startDeschedule (h : Ok maxNumSwcs s) (hmapped : (s.swcs swc).mappedToHWC = true) :
    ∃ t, s.startDeschedule swc = .ok t ∧ Ok maxNumSwcs t ∧ Kept maxNumSwcs s t ∧
      t.swcs = Function.update s.swcs swc { s.swcs swc with deschedulePending := true } ∧
      ((s.swcs swc).deschedulePending = false → t.warnings = s.warnings) := by
  unfold ContextScheduler.startDeschedule
  rw [if_pos hmapped]
  dsimp only
  split
  · rename_i hpending
    have hwarned : Ok maxNumSwcs (s.warn deschedulePendingWarning) := h.warn (by decide)
    refine ⟨_, rfl, hwarned.setSwc ⟨rfl, rfl, id, fun _ => Or.inr hmapped⟩,
      hwarned.kept_setSwc hmapped _, rfl, fun hnot => ?_⟩
    rw [hnot] at hpending
    cases hpending
  · exact ⟨_, rfl, h.setSwc ⟨rfl, rfl, id, fun _ => Or.inr hmapped⟩, h.kept_setSwc hmapped _, rfl,
      fun _ => rfl⟩

/-! ### Picking and running -/

/-- What `active` finds in a slot is a software context that can be run. -/
theorem active_iff : s.active i = true ↔
    ∃ swc, s.swContextList i = some swc ∧ (s.swcs swc).runnable = true ∧
      (s.swcs swc).mappedToHWC = false := by
  unfold active
  cases hslot : s.swContextList i with
  | none => simp
  | some swc => simp

/-- A search that finds nothing leaves the scheduler as it is. -/
theorem findActive_none (hnone : searchFrom s.active maxNumSwcs s.nextSWCToTry maxNumSwcs
    s.nextSWCToTry = maxNumSwcs) :
    s.findActiveSoftwareContext maxNumSwcs = (maxNumSwcs, s) := by
  unfold findActiveSoftwareContext
  dsimp only
  rw [hnone]
  split
  · rw [if_neg (by omega)]
  · rfl

/-- What it finds has no deschedule pending, so there is no warning. -/
theorem findActive_some (hpending : ∀ swc, (s.swcs swc).deschedulePending = true →
      (s.swcs swc).mappedToHWC = true)
    (hsome : searchFrom s.active maxNumSwcs s.nextSWCToTry maxNumSwcs s.nextSWCToTry <
      maxNumSwcs) :
    s.findActiveSoftwareContext maxNumSwcs =
      (searchFrom s.active maxNumSwcs s.nextSWCToTry maxNumSwcs s.nextSWCToTry, s) := by
  obtain ⟨swc, hslot, -, hunmapped⟩ := active_iff.mp (hit_searchFrom hsome)
  unfold findActiveSoftwareContext
  dsimp only
  rw [hslot]
  dsimp only
  rw [if_neg]
  rintro ⟨-, hpending'⟩
  have hmapped := hpending swc hpending'
  rw [hunmapped] at hmapped
  cases hmapped

/-- **What `PickSoftwareContext` returns can be run, and it returns nothing only when
nothing can.** -/
theorem pickSoftwareContext_spec (hpending : ∀ swc, (s.swcs swc).deschedulePending = true →
      (s.swcs swc).mappedToHWC = true)
    (hnext : ∀ i < maxNumSwcs, s.nextSWCToTry < maxNumSwcs) :
    ∃ k, (∀ i < maxNumSwcs, k < maxNumSwcs) ∧
      ((s.pickSoftwareContext maxNumSwcs = (none, { s with nextSWCToTry := k }) ∧
          ∀ i < maxNumSwcs, s.active i = false) ∨
        ∃ i < maxNumSwcs, ∃ swc, s.swContextList i = some swc ∧ s.active i = true ∧
          s.pickSoftwareContext maxNumSwcs = (some swc, { s with nextSWCToTry := k })) := by
  by_cases hsome : searchFrom s.active maxNumSwcs s.nextSWCToTry maxNumSwcs s.nextSWCToTry <
      maxNumSwcs
  · have hfind := findActive_some hpending hsome
    have hactive := hit_searchFrom hsome
    obtain ⟨swc, hslot, -, -⟩ := active_iff.mp hactive
    refine ⟨(searchFrom s.active maxNumSwcs s.nextSWCToTry maxNumSwcs s.nextSWCToTry + 1) %
      maxNumSwcs, fun i hi => Nat.mod_lt _ (Nat.zero_lt_of_lt hi),
      Or.inr ⟨_, hsome, swc, hslot, hactive, ?_⟩⟩
    unfold pickSoftwareContext
    rw [hfind]
    dsimp only
    rw [if_neg hsome.ne]
    dsimp only
    rw [if_neg hsome.ne]
    dsimp only
    rw [if_neg hsome.ne, hslot]
  · have hnone : searchFrom s.active maxNumSwcs s.nextSWCToTry maxNumSwcs s.nextSWCToTry =
        maxNumSwcs := by
      cases maxNumSwcs with
      | zero => rfl
      | succ n => exact le_antisymm (searchFrom_le (hnext 0 n.succ_pos)) (Nat.le_of_not_lt hsome)
    have hfind := findActive_none hnone
    refine ⟨(s.nextSWCToTry + 1) % maxNumSwcs, fun i hi => Nat.mod_lt _ (Nat.zero_lt_of_lt hi),
      Or.inl ⟨?_, fun i hi => no_hit_of_searchFrom (hnext i hi) hnone hi⟩⟩
    unfold pickSoftwareContext checkStreamResumption
    rw [hfind]
    dsimp only
    rw [if_pos rfl, hfind]
    dsimp only
    rw [if_pos rfl, hfind]
    dsimp only
    rw [if_pos rfl]

@[simp] theorem setHwc_swcs (x : Option Nat) : (s.setHwc hwc x).swcs = s.swcs := rfl

@[simp] theorem runningSWC_setHwc (x : Option Nat) :
    (s.setHwc hwc x).runningSWC = Function.update s.runningSWC hwc x := by
  funext hwc'
  unfold runningSWC setHwc
  dsimp only
  by_cases hne : hwc' = hwc
  · rw [hne, Function.update_self, Function.update_self]
  · rw [Function.update_of_ne hne, Function.update_of_ne hne]

theorem priority_setHwc (x : Option Nat) (hwc' : Nat) :
    ((s.setHwc hwc x).hwcs hwc').priority = (s.hwcs hwc').priority := by
  unfold setHwc
  dsimp only
  by_cases hne : hwc' = hwc
  · rw [hne, Function.update_self]
  · rw [Function.update_of_ne hne]

@[simp] theorem hwcOf_map :
    (s.setSwc swc (.scheduled hwc)).hwcOf =
      Function.update s.hwcOf swc (some hwc) := by
  funext swc'
  unfold hwcOf
  by_cases hne : swc' = swc
  · rw [hne, setSwc_self, Function.update_self]
    rfl
  · rw [setSwc_of_ne hne, Function.update_of_ne hne]

@[simp] theorem hwcOf_unmap :
    (s.setSwc swc .descheduled).hwcOf = Function.update s.hwcOf swc none := by
  funext swc'
  unfold hwcOf
  by_cases hne : swc' = swc
  · rw [hne, setSwc_self, Function.update_self]
    rfl
  · rw [setSwc_of_ne hne, Function.update_of_ne hne]

/-- What `RunSoftwareContext` does. -/
structure Ran (s t : ContextScheduler) (swc hwc : Nat) : Prop where
  swcs : t.swcs = Function.update s.swcs swc
    ((s.swcs swc).scheduled hwc)
  running : t.runningSWC = Function.update s.runningSWC hwc (some swc)
  swContextList : t.swContextList = s.swContextList
  hwContextList : t.hwContextList = s.hwContextList
  priority : ∀ hwc, (t.hwcs hwc).priority = (s.hwcs hwc).priority
  warnings : t.warnings = s.warnings

/-- The hardware context that was vacated runs the software context that was picked. -/
theorem Linked.run (h : Linked maxNumSwcs (s.setHwc hwc none)) (hi : i < maxNumSwcs)
    (hslot : s.swContextList i = some swc) (hactive : s.active i = true) :
    ∃ t, s.runSoftwareContext swc hwc = .ok t ∧ Linked maxNumSwcs t ∧ Ran s t swc hwc := by
  obtain ⟨swc', hslot', hrunnable, hunmapped⟩ := active_iff.mp hactive
  obtain rfl : swc' = swc := Option.some.inj (hslot'.symm.trans hslot)
  have hpending : (s.swcs swc').deschedulePending ≠ true := by
    intro hpending
    have hmapped := h.pending swc' hpending
    change (s.swcs swc').mappedToHWC = true at hmapped
    rw [hunmapped] at hmapped
    cases hmapped
  unfold runSoftwareContext
  rw [if_neg (by simp [hunmapped]), if_neg hpending, if_neg (by simp [hrunnable])]
  have hnone : s.hwcOf swc' = none := by
    unfold hwcOf
    simp [hunmapped]
  have hself : ((s.setSwc swc' (.scheduled hwc)).setHwc hwc (some swc')).swcs swc' =
      (s.swcs swc').scheduled hwc := by
    rw [setHwc_swcs]
    exact setSwc_self _
  have hother : ∀ swc ≠ swc', ((s.setSwc swc' (.scheduled hwc)).setHwc hwc (some swc')).swcs swc =
      s.swcs swc := by
    intro swc hne
    rw [setHwc_swcs]
    exact setSwc_of_ne hne _
  refine ⟨_, rfl, ⟨?_, ?_, ?_, ?_, h.slot, h.next, h.warned⟩, rfl, runningSWC_setHwc _, rfl, rfl,
    priority_setHwc _, rfl⟩
  · have hmirror := h.mirror
    rw [runningSWC_setHwc] at hmirror
    have hlink := hmirror.link (a := swc') (b := hwc) hnone (Function.update_self ..)
    rw [Function.update_idem] at hlink
    rw [runningSWC_setHwc]
    exact hwcOf_map ▸ hlink
  · intro swc hmapped
    by_cases hne : swc = swc'
    · rw [hne, hself]
      exact ⟨hwc, rfl⟩
    · rw [hother swc hne] at hmapped ⊢
      exact h.placed swc hmapped
  · intro swc hpending'
    by_cases hne : swc = swc'
    · rw [hne, hself]
      rfl
    · rw [hother swc hne] at hpending' ⊢
      exact h.pending swc hpending'
  · intro swc hmapped
    by_cases hne : swc = swc'
    · rw [hne]
      exact ⟨i, hi, hslot⟩
    · rw [hother swc hne] at hmapped
      exact h.listed swc hmapped

/-- When nothing else was there to be run, nothing is left. -/
theorem OnlyFor.conserving (h : OnlyFor maxNumSwcs s swc) (hi : i < maxNumSwcs) {picked : Nat}
    (hslot : s.swContextList i = some picked) (hactive : s.active i = true)
    (hran : Ran s t picked hwc) : Conserving maxNumSwcs t := by
  intro hwc' hin hfree j hj
  by_contra hactive'
  rw [Bool.not_eq_false] at hactive'
  obtain ⟨swc', hslot', hrunnable, hunmapped⟩ := active_iff.mp hactive'
  rw [hran.swContextList] at hslot'
  rw [hran.hwContextList] at hin
  have hne : swc' ≠ picked := by
    intro heq
    rw [heq, hran.swcs, Function.update_self] at hunmapped
    cases hunmapped
  rw [hran.swcs, Function.update_of_ne hne] at hrunnable hunmapped
  have hactive₀ : s.active j = true := active_iff.mpr ⟨swc', hslot', hrunnable, hunmapped⟩
  have hfree₀ : s.runningSWC hwc' = none := by
    rw [hran.running] at hfree
    by_cases hhwc : hwc' = hwc
    · rw [hhwc, Function.update_self] at hfree
      cases hfree
    · rwa [Function.update_of_ne hhwc] at hfree
  have hpicked := h hwc' hin hfree₀ i hi hactive
  have hswc' := h hwc' hin hfree₀ j hj hactive₀
  rw [hslot] at hpicked
  rw [hslot'] at hswc'
  exact hne (Option.some.inj (hswc'.trans hpicked.symm))

theorem Linked.setNext (h : Linked maxNumSwcs s) {k : Nat} (hk : ∀ i < maxNumSwcs, k < maxNumSwcs) :
    Linked maxNumSwcs { s with nextSWCToTry := k } :=
  { h with next := hk }

/-- **The end of a switch leaves the scheduler in order.** -/
theorem Linked.reschedule (h : Linked maxNumSwcs (s.setHwc hwc none))
    (honly : OnlyFor maxNumSwcs s swc)
    (hpriority : ∀ hwc ∈ s.hwContextList, Int32.minValue < (s.hwcs hwc).priority) :
    ∃ t, s.reschedule maxNumSwcs hwc = .ok t ∧ Ok maxNumSwcs t ∧ Kept maxNumSwcs s t ∧
      t.warnings = s.warnings ∧ ∀ swc, unmapped (t.swcs swc) = unmapped (s.swcs swc) := by
  obtain ⟨k, hk, ⟨hpick, hidle⟩ | ⟨i, hi, picked, hslot, hactive, hpick⟩⟩ :=
    pickSoftwareContext_spec (s := s) h.pending h.next
  · unfold ContextScheduler.reschedule
    rw [hpick]
    refine ⟨_, rfl, ⟨h.setNext hk, fun _ _ _ => hidle, ?_⟩, Kept.refl s, rfl, fun _ => rfl⟩
    intro hwc' hin
    rw [priority_setHwc]
    exact hpriority hwc' hin
  · unfold ContextScheduler.reschedule
    rw [hpick]
    have hnext : Linked maxNumSwcs
        (setHwc { s with nextSWCToTry := k } hwc none) := h.setNext hk
    obtain ⟨t, hrun, hlinked, hran⟩ := hnext.run hi hslot hactive
    have hran' : Ran s t picked hwc :=
      ⟨hran.swcs, hran.running, hran.swContextList, hran.hwContextList, hran.priority,
        hran.warnings⟩
    have hother : ∀ swc ≠ picked, t.swcs swc = s.swcs swc := by
      intro swc hne
      rw [hran'.swcs, Function.update_of_ne hne]
    refine ⟨t, hrun, ⟨hlinked, honly.conserving hi hslot hactive hran', ?_⟩, ?_, hran.warnings, ?_⟩
    · intro hwc' hin
      rw [hran'.hwContextList] at hin
      rw [hran'.priority]
      exact hpriority hwc' hin
    · refine Kept.of_listed (fun j _ swc hslot => hran'.swContextList ▸ hslot) ?_
      intro swc hne
      by_cases hswc : swc = picked
      · rw [hswc]
        exact ⟨i, hi, hslot⟩
      · exact absurd (hother swc hswc) hne
    · intro swc
      by_cases hswc : swc = picked
      · rw [hswc, hran'.swcs, Function.update_self]
        rfl
      · rw [hother swc hswc]

/-! ### The end of a context switch -/

theorem firstSlot_some {x : Option Nat} (h : s.firstSlot maxNumSwcs x = some i) :
    i < maxNumSwcs ∧ s.swContextList i = x := by
  unfold firstSlot at h
  have hin := List.mem_of_find?_eq_some h
  have hslot := List.find?_some h
  exact ⟨List.mem_range.mp hin, of_decide_eq_true hslot⟩

theorem firstSlot_of_mem {x : Option Nat} (hi : i < maxNumSwcs) (hslot : s.swContextList i = x) :
    ∃ j, s.firstSlot maxNumSwcs x = some j := by
  unfold firstSlot
  rw [← Option.isSome_iff_exists, List.find?_isSome]
  exact ⟨i, List.mem_range.mpr hi, decide_eq_true hslot⟩

/-- The hardware context is vacated. -/
theorem Linked.unmap (h : Linked maxNumSwcs s) (hmapped : (s.swcs swc).mappedToHWC = true)
    (hhwc : (s.swcs swc).hwc = some hwc) :
    Linked maxNumSwcs ((s.setSwc swc .descheduled).setHwc hwc none) := by
  have hself : (((s.setSwc swc .descheduled).setHwc hwc none).swcs swc).mappedToHWC = false := by
    rw [setHwc_swcs, setSwc_self]
    rfl
  have hother : ∀ swc' ≠ swc, ((s.setSwc swc .descheduled).setHwc hwc none).swcs swc' =
      s.swcs swc' := by
    intro swc' hne
    rw [setHwc_swcs]
    exact setSwc_of_ne hne _
  have hne_of_mapped : ∀ swc', (((s.setSwc swc .descheduled).setHwc hwc none).swcs
      swc').mappedToHWC = true → swc' ≠ swc := by
    intro swc' hmapped' heq
    rw [heq, hself] at hmapped'
    cases hmapped'
  refine ⟨?_, ?_, ?_, ?_, h.slot, h.next, h.warned⟩
  · have hof : s.hwcOf swc = some hwc := by
      unfold hwcOf
      rw [if_pos hmapped, hhwc]
    rw [runningSWC_setHwc]
    have hunlinked := h.mirror.unlink hof
    rw [← hwcOf_unmap] at hunlinked
    exact hunlinked
  · intro swc' hmapped'
    have hne := hne_of_mapped swc' hmapped'
    rw [hother swc' hne] at hmapped' ⊢
    exact h.placed swc' hmapped'
  · intro swc' hpending
    by_cases hne : swc' = swc
    · rw [hne, setHwc_swcs, setSwc_self] at hpending
      cases hpending
    · rw [hother swc' hne] at hpending ⊢
      exact h.pending swc' hpending
  · intro swc' hmapped'
    rw [hother swc' (hne_of_mapped swc' hmapped')] at hmapped'
    exact h.listed swc' hmapped'

theorem Linked.remove (h : Linked maxNumSwcs s) (hslot : s.swContextList i = some swc)
    (hunmapped : (s.swcs swc).mappedToHWC = false) :
    Linked maxNumSwcs { s with swContextList := Function.update s.swContextList i none } where
  mirror := h.mirror
  placed := h.placed
  pending := h.pending
  listed := by
    intro swc' hmapped
    obtain ⟨j, hj, hslot'⟩ := h.listed swc' hmapped
    refine ⟨j, hj, ?_⟩
    have hne : j ≠ i := by
      intro heq
      rw [heq, hslot] at hslot'
      cases hslot'
      rw [hunmapped] at hmapped
      cases hmapped
    exact (Function.update_of_ne hne ..).trans hslot'
  slot := by
    have hkept : ∀ j swc', Function.update s.swContextList i none j = some swc' →
        s.swContextList j = some swc' := by
      intro j swc' hslot'
      by_cases hj : j = i
      · rw [hj, Function.update_self] at hslot'
        cases hslot'
      · rwa [Function.update_of_ne hj] at hslot'
    intro j hj k hk swc' hslot' hslot''
    exact h.slot j hj k hk swc' (hkept j swc' hslot') (hkept k swc' hslot'')
  next := h.next
  warned := h.warned

theorem removeSoftwareContext_eq (hi : s.firstSlot maxNumSwcs (some swc) = some i) :
    s.removeSoftwareContext maxNumSwcs swc =
      .ok { s with swContextList := Function.update s.swContextList i none } := by
  unfold removeSoftwareContext
  rw [hi]

/-- Only the software context that was just taken off may wait for a free hardware context. -/
theorem Conserving.onlyFor (h : Conserving maxNumSwcs s) (hhwcs : t.hwContextList = s.hwContextList)
    (hrunning : t.runningSWC = s.runningSWC)
    (hlist : ∀ i < maxNumSwcs, ∀ swc', t.swContextList i = some swc' →
      s.swContextList i = some swc')
    (hswcs : ∀ swc' ≠ swc, t.swcs swc' = s.swcs swc') : OnlyFor maxNumSwcs t swc := by
  intro hwc hin hfree i hi hactive
  obtain ⟨swc', hslot, hrunnable, hunmapped⟩ := active_iff.mp hactive
  by_contra hne
  have hne' : swc' ≠ swc := fun heq => hne (heq ▸ hslot)
  rw [hswcs swc' hne'] at hrunnable hunmapped
  have hidle := h hwc (hhwcs ▸ hin) (hrunning ▸ hfree) i hi
  rw [active_iff.mpr ⟨swc', hlist i hi swc' hslot, hrunnable, hunmapped⟩] at hidle
  cases hidle

/-- What `ContextSwitchCompleted` takes off, and puts on if it can be run again. -/
structure SwitchedOff (s t : ContextScheduler) (swc : Nat) : Prop where
  self : unmapped (t.swcs swc) = unmapped (s.swcs swc).descheduled
  other : ∀ swc' ≠ swc, unmapped (t.swcs swc') = unmapped (s.swcs swc')
  warnings : t.warnings = s.warnings

/-- **`ContextSwitchCompleted` takes a software context off that is being descheduled.** -/
theorem Ok.contextSwitchCompleted (h : Ok maxNumSwcs s)
    (hpending : (s.swcs swc).deschedulePending = true) :
    ∃ t, s.contextSwitchCompleted maxNumSwcs swc = .ok t ∧ Ok maxNumSwcs t ∧
      Kept maxNumSwcs s t ∧ SwitchedOff s t swc ∧
      ((s.swcs swc).deletePending = true → ∀ i < maxNumSwcs, t.swContextList i ≠ some swc) := by
  have hmapped := h.linked.pending swc hpending
  obtain ⟨hwc, hhwc⟩ := h.linked.placed swc hmapped
  have hself : (s.setSwc swc .descheduled).swcs swc = (s.swcs swc).descheduled := setSwc_self _
  have hother : ∀ swc' ≠ swc, (s.setSwc swc .descheduled).swcs swc' = s.swcs swc' :=
    fun swc' hne => setSwc_of_ne hne _
  have hlinked := h.linked.unmap hmapped hhwc
  have hswitched : ∀ {t : ContextScheduler}, t.warnings = s.warnings →
      (∀ swc', unmapped (t.swcs swc') = unmapped ((s.setSwc swc .descheduled).swcs swc')) →
      SwitchedOff s t swc := by
    intro t hwarnings hsame
    refine ⟨?_, fun swc' hne => ?_, hwarnings⟩
    · rw [hsame swc, hself]
    · rw [hsame swc', hother swc' hne]
  have hkept : Kept maxNumSwcs s (s.setSwc swc .descheduled) := h.kept_setSwc hmapped _
  unfold ContextScheduler.contextSwitchCompleted
  rw [if_neg (by simp [hmapped]), if_neg (by simp [hpending]), hhwc]
  dsimp only
  have hdelete : ((s.setSwc swc .descheduled).swcs swc).deletePending =
      (s.swcs swc).deletePending := by
    rw [hself]
    rfl
  rw [hdelete]
  cases hdel : (s.swcs swc).deletePending with
  | false =>
      have honly : OnlyFor maxNumSwcs (s.setSwc swc .descheduled) swc :=
        h.conserving.onlyFor rfl rfl (fun _ _ _ hslot => hslot) hother
      obtain ⟨t, hresched, hok, hkept', hwarnings, hsame⟩ :=
        hlinked.reschedule honly h.priority
      exact ⟨t, hresched, hok, hkept.trans hkept', hswitched hwarnings hsame, nofun⟩
  | true =>
      obtain ⟨i, hi, hslot⟩ := h.linked.listed swc hmapped
      obtain ⟨j, hj⟩ := firstSlot_of_mem (s := s.setSwc swc .descheduled) hi hslot
      obtain ⟨hjlt, hjslot⟩ := firstSlot_some hj
      have hlist : ∀ k < maxNumSwcs, ∀ swc',
          Function.update s.swContextList j none k = some swc' →
          s.swContextList k = some swc' := by
        intro k _ swc' hslot'
        by_cases hk : k = j
        · rw [hk, Function.update_self] at hslot'
          cases hslot'
        · rwa [Function.update_of_ne hk] at hslot'
      have hremoved : ∀ k < maxNumSwcs, Function.update s.swContextList j none k ≠ some swc := by
        intro k hk hslot'
        have heq := h.linked.slot k hk j hjlt swc (hlist k hk swc hslot') hjslot
        rw [heq, Function.update_self] at hslot'
        cases hslot'
      have hlinked' := hlinked.remove hjslot (by rw [setHwc_swcs, hself]; rfl)
      have honly : OnlyFor maxNumSwcs { s.setSwc swc .descheduled with
          swContextList := Function.update s.swContextList j none } swc :=
        h.conserving.onlyFor rfl rfl hlist hother
      obtain ⟨t, hresched, hok, hkept', hwarnings, hsame⟩ :=
        Linked.reschedule hlinked' honly h.priority
      have hkept'' : Kept maxNumSwcs s { s.setSwc swc .descheduled with
          swContextList := Function.update s.swContextList j none } := by
        intro swc' hout
        exact ⟨(hkept swc' hout).1, fun k hk hslot' => hout k hk (hlist k hk swc' hslot')⟩
      refine ⟨t, ?_, hok, hkept''.trans hkept', hswitched hwarnings hsame,
        fun _ => (hkept' swc hremoved).2⟩
      rw [if_pos rfl, removeSoftwareContext_eq hj]
      exact hresched

/-! ### A new software context -/

/-- The search for a free hardware context, from the best one known so far. -/
theorem findFree_from (s : ContextScheduler) (hwcs : List Nat) (best : Option Nat × Int32)
    (hbest : best.1 = none → best.2 = Int32.minValue)
    (hpriority : ∀ hwc ∈ hwcs, Int32.minValue < (s.hwcs hwc).priority) :
    let found := (hwcs.foldl (fun (free : Option Nat × Int32) i =>
      if (s.hwcs i).swc = none ∧ free.2 < (s.hwcs i).priority then (some i, (s.hwcs i).priority)
      else free) best).1
    (∀ hwc, found = some hwc → best.1 = some hwc ∨ (hwc ∈ hwcs ∧ s.runningSWC hwc = none)) ∧
      (found = none → best.1 = none ∧ ∀ hwc ∈ hwcs, s.runningSWC hwc ≠ none) := by
  induction hwcs generalizing best with
  | nil => exact ⟨fun _ hfound => Or.inl hfound, fun hfound => ⟨hfound, nofun⟩⟩
  | cons hwc hwcs ih =>
      have hrest := fun hwc' hin => hpriority hwc' (List.mem_cons_of_mem hwc hin)
      rw [List.foldl_cons]
      by_cases hfree : (s.hwcs hwc).swc = none ∧ best.2 < (s.hwcs hwc).priority
      · rw [if_pos hfree]
        obtain ⟨hsome, hnone⟩ := ih (some hwc, (s.hwcs hwc).priority) nofun hrest
        refine ⟨?_, fun hfound => absurd (hnone hfound).1 nofun⟩
        intro hwc' hfound
        obtain hsame | ⟨hin, hfree'⟩ := hsome hwc' hfound
        · obtain rfl : hwc = hwc' := Option.some.inj hsame
          exact Or.inr ⟨List.mem_cons_self, hfree.1⟩
        · exact Or.inr ⟨List.mem_cons_of_mem hwc hin, hfree'⟩
      · rw [if_neg hfree]
        obtain ⟨hsome, hnone⟩ := ih best hbest hrest
        refine ⟨?_, ?_⟩
        · intro hwc' hfound
          obtain hsame | ⟨hin, hfree'⟩ := hsome hwc' hfound
          · exact Or.inl hsame
          · exact Or.inr ⟨List.mem_cons_of_mem hwc hin, hfree'⟩
        · intro hfound
          obtain ⟨hbest', hrunning⟩ := hnone hfound
          refine ⟨hbest', ?_⟩
          intro hwc' hin hfree'
          obtain rfl | hin := List.mem_cons.mp hin
          · refine hfree ⟨hfree', ?_⟩
            rw [hbest hbest']
            exact hpriority hwc' List.mem_cons_self
          · exact hrunning hwc' hin hfree'

theorem findFree_spec (hpriority : ∀ hwc ∈ s.hwContextList,
    Int32.minValue < (s.hwcs hwc).priority) :
    (∀ hwc, s.findFreeHardwareContext = some hwc →
        hwc ∈ s.hwContextList ∧ s.runningSWC hwc = none) ∧
      (s.findFreeHardwareContext = none → ∀ hwc ∈ s.hwContextList, s.runningSWC hwc ≠ none) := by
  obtain ⟨hsome, hnone⟩ := findFree_from s s.hwContextList (none, Int32.minValue) (fun _ => rfl)
    hpriority
  refine ⟨?_, fun hfound => (hnone hfound).2⟩
  intro hwc hfound
  obtain hbest | hfree := hsome hwc hfound
  · cases hbest
  · exact hfree

theorem setHwc_self (hfree : s.runningSWC hwc = none) : s.setHwc hwc none = s := by
  have hsame : ({ s.hwcs hwc with swc := none } : HwContext) = s.hwcs hwc := by
    rw [← show (s.hwcs hwc).swc = none from hfree]
  unfold setHwc
  rw [hsame, Function.update_eq_self]

/-- **The new software context is the one that is picked.** -/
theorem Linked.tryRunning (h : Linked maxNumSwcs s) (honly : OnlyFor maxNumSwcs s swc)
    (hpriority : ∀ hwc ∈ s.hwContextList, Int32.minValue < (s.hwcs hwc).priority) :
    ∃ t, s.tryRunningSoftwareContext maxNumSwcs swc = .ok t ∧ Ok maxNumSwcs t ∧
      Kept maxNumSwcs s t ∧ t.warnings = s.warnings ∧
      ∀ swc, unmapped (t.swcs swc) = unmapped (s.swcs swc) := by
  obtain ⟨hsome, hnone⟩ := findFree_spec hpriority
  unfold tryRunningSoftwareContext
  cases hfind : s.findFreeHardwareContext with
  | none =>
      refine ⟨s, rfl, ⟨h, ?_, hpriority⟩, Kept.refl s, rfl, fun _ => rfl⟩
      intro hwc hin hfree
      exact absurd hfree (hnone hfind hwc hin)
  | some hwc =>
      obtain ⟨hin, hfree⟩ := hsome hwc hfind
      have hvacant : Linked maxNumSwcs (s.setHwc hwc none) := by rwa [setHwc_self hfree]
      obtain ⟨t, hresched, hok, hkept, hwarnings, hsame⟩ := hvacant.reschedule honly hpriority
      obtain ⟨k, hk, ⟨hpick, hidle⟩ | ⟨i, hi, picked, hslot, hactive, hpick⟩⟩ :=
        pickSoftwareContext_spec h.pending h.next
      · dsimp only
        rw [hpick]
        exact ⟨_, rfl, ⟨h.setNext hk, fun _ _ _ => hidle, hpriority⟩, Kept.refl s, rfl,
          fun _ => rfl⟩
      · have hpicked := honly hwc hin hfree i hi hactive
        rw [hslot] at hpicked
        obtain rfl : picked = swc := Option.some.inj hpicked
        refine ⟨t, ?_, hok, hkept, hwarnings, hsame⟩
        unfold ContextScheduler.reschedule at hresched
        rw [hpick] at hresched ⊢
        dsimp only at hresched ⊢
        rw [if_pos rfl]
        exact hresched

/-- A software context that is new is added where there is room. -/
theorem Ok.startThread (h : Ok maxNumSwcs s) (hroom : s.firstSlot maxNumSwcs none ≠ none)
    (hnew : s.swcs swc = .new) (hout : ∀ i < maxNumSwcs, s.swContextList i ≠ some swc) :
    ∃ t, s.startThread maxNumSwcs swc = .ok t ∧ Ok maxNumSwcs t ∧
      (∀ swc' ≠ swc, (∀ i < maxNumSwcs, s.swContextList i ≠ some swc') →
        t.swcs swc' = s.swcs swc' ∧ ∀ i < maxNumSwcs, t.swContextList i ≠ some swc') ∧
      t.warnings = s.warnings ∧ ∀ swc, unmapped (t.swcs swc) = unmapped (s.swcs swc) := by
  obtain ⟨i, hi⟩ := Option.ne_none_iff_exists'.mp hroom
  obtain ⟨hilt, hifree⟩ := firstSlot_some hi
  have hsame : s.setSwc swc (fun _ => .new) = s := by
    unfold ContextScheduler.setSwc
    rw [← hnew, Function.update_eq_self]
  have hslot : ∀ j < maxNumSwcs, ∀ swc' ≠ swc,
      Function.update s.swContextList i (some swc) j = some swc' →
      s.swContextList j = some swc' := by
    intro j _ swc' hne hslot'
    by_cases hj : j = i
    · rw [hj, Function.update_self] at hslot'
      exact absurd (Option.some.inj hslot').symm hne
    · rwa [Function.update_of_ne hj] at hslot'
  have hself : ∀ j < maxNumSwcs, Function.update s.swContextList i (some swc) j = some swc →
      j = i := by
    intro j hj hslot'
    by_contra hne
    rw [Function.update_of_ne hne] at hslot'
    exact hout j hj hslot'
  have hlinked : Linked maxNumSwcs
      { s with swContextList := Function.update s.swContextList i (some swc) } := by
    refine ⟨h.linked.mirror, h.linked.placed, h.linked.pending, ?_, ?_, h.linked.next,
      h.linked.warned⟩
    · intro swc' hmapped
      obtain ⟨j, hj, hslot'⟩ := h.linked.listed swc' hmapped
      refine ⟨j, hj, ?_⟩
      have hne : j ≠ i := by
        intro heq
        rw [heq, hifree] at hslot'
        cases hslot'
      exact (Function.update_of_ne hne ..).trans hslot'
    · intro j hj k hk swc' hslot' hslot''
      by_cases hne : swc' = swc
      · rw [hne] at hslot' hslot''
        rw [hself j hj hslot', hself k hk hslot'']
      · exact h.linked.slot j hj k hk swc' (hslot j hj swc' hne hslot')
          (hslot k hk swc' hne hslot'')
  have honly : OnlyFor maxNumSwcs
      { s with swContextList := Function.update s.swContextList i (some swc) } swc := by
    intro hwc hin hfree j hj hactive
    obtain ⟨swc', hslot', hrunnable, hunmapped⟩ := active_iff.mp hactive
    by_contra hne
    have hne' : swc' ≠ swc := fun heq => hne (heq ▸ hslot')
    have hidle := h.conserving hwc hin hfree j hj
    rw [active_iff.mpr ⟨swc', hslot j hj swc' hne' hslot', hrunnable, hunmapped⟩] at hidle
    cases hidle
  obtain ⟨t, htry, hok, hkept, hwarnings, hunmapped⟩ := hlinked.tryRunning honly h.priority
  refine ⟨t, ?_, hok, ?_, hwarnings, hunmapped⟩
  · unfold ContextScheduler.startThread addSoftwareContext
    rw [hsame, hi]
    exact htry
  · intro swc' hne hout'
    exact hkept swc' fun j hj hslot' => hout' j hj (hslot j hj swc' hne hslot')

end ContextScheduler

end AsimFeeder.Sched
