/-
Runs of the context scheduler.

`SchedRun` adds to the scheduler which software contexts there have been, for which of
them `SoftwareContextExited` was called, and which of these are gone.  Its calls come in
any order: new threads, the clock, an interval timer, a software context that pauses or
waits while it is mapped or exits while it is in the list, and the end of a switch that
was asked for.
-/
import AsimFeeder.Sched.SchedInvariant

namespace AsimFeeder.Sched

open Lib

namespace ContextScheduler

variable {maxNumSwcs : Nat} {s : ContextScheduler} {swc hwc : Nat}

theorem mapped_of_running (h : Linked maxNumSwcs s) (hrunning : s.runningSWC hwc = some swc) :
    (s.swcs swc).mappedToHWC = true := by
  have hof := (h.mirror swc hwc).mpr hrunning
  unfold hwcOf at hof
  split at hof
  · assumption
  · cases hof

/-- `IntervalTimer` for a hardware context that runs something. -/
theorem Ok.intervalTimer (h : Ok maxNumSwcs s) (hrunning : s.runningSWC hwc = some swc) :
    ∃ t, s.intervalTimer hwc = .ok t ∧ Ok maxNumSwcs t ∧ Kept maxNumSwcs s t := by
  have hmapped := mapped_of_running h.linked hrunning
  unfold ContextScheduler.intervalTimer
  rw [show (s.hwcs hwc).swc = some swc from hrunning]
  dsimp only
  split
  · exact ⟨s, rfl, h, Kept.refl s⟩
  · have hinitiated : Ok maxNumSwcs (s.initiateContextSwitch swc) ∧
        Kept maxNumSwcs s (s.initiateContextSwitch swc) := by
      unfold initiateContextSwitch
      dsimp only
      split
      · exact ⟨h.setSwc ⟨rfl, rfl, id, Or.inl⟩, h.kept_setSwc hmapped _⟩
      · have hwarned : Ok maxNumSwcs (s.warn initiateWarning) := h.warn (by decide)
        exact ⟨hwarned.setSwc ⟨rfl, rfl, id, Or.inl⟩, hwarned.kept_setSwc hmapped _⟩
    have hmapped' : ((s.initiateContextSwitch swc).swcs swc).mappedToHWC = true := by
      unfold initiateContextSwitch
      dsimp only
      split
      · rw [setSwc_self]
        exact hmapped
      · rw [setSwc_self]
        exact hmapped
    obtain ⟨t, hstart, hok, hkept, -⟩ := hinitiated.1.startDeschedule hmapped'
    exact ⟨t, hstart, hok, hinitiated.2.trans hkept⟩

theorem Ok.clockLoop (h : Ok maxNumSwcs s) (reschedule : Bool) (hwcs : List Nat) :
    ∃ t, clockLoop reschedule hwcs s = .ok t ∧ Ok maxNumSwcs t ∧ Kept maxNumSwcs s t := by
  induction hwcs generalizing s with
  | nil => exact ⟨s, rfl, h, Kept.refl s⟩
  | cons hwc hwcs ih =>
      unfold ContextScheduler.clockLoop
      by_cases hdo : (s.hwcs hwc).swc ≠ none ∧ reschedule = true
      · obtain ⟨swc, hrunning⟩ := Option.ne_none_iff_exists'.mp hdo.1
        obtain ⟨t, htimer, hok, hkept⟩ := h.intervalTimer hrunning
        obtain ⟨u, hloop, hok', hkept'⟩ := ih hok
        refine ⟨u, ?_, hok', hkept.trans hkept'⟩
        rw [if_pos hdo, htimer]
        exact hloop
      · obtain ⟨u, hloop, hok', hkept'⟩ := ih h
        refine ⟨u, ?_, hok', hkept'⟩
        rw [if_neg hdo]
        exact hloop

theorem Ok.setNotRunnable (h : Ok maxNumSwcs s) (hmapped : (s.swcs swc).mappedToHWC = true) :
    Ok maxNumSwcs (s.setSwc swc fun c => { c with runnable := false }) ∧
      Kept maxNumSwcs s (s.setSwc swc fun c => { c with runnable := false }) ∧
      ((s.setSwc swc fun c => { c with runnable := false }).swcs swc).mappedToHWC = true := by
  refine ⟨h.setSwc ⟨rfl, rfl, nofun, Or.inl⟩, h.kept_setSwc hmapped _, ?_⟩
  rw [setSwc_self]
  exact hmapped

theorem Ok.softwareContextPaused (h : Ok maxNumSwcs s)
    (hmapped : (s.swcs swc).mappedToHWC = true) :
    ∃ t, s.softwareContextPaused swc = .ok t ∧ Ok maxNumSwcs t ∧ Kept maxNumSwcs s t := by
  obtain ⟨hok, hkept, hmapped'⟩ := h.setNotRunnable hmapped
  obtain ⟨t, hstart, hok', hkept', -⟩ := hok.startDeschedule hmapped'
  exact ⟨t, hstart, hok', hkept.trans hkept'⟩

/-- The one that exits is mapped, and is deleted when it is switched off. -/
theorem Ok.softwareContextExited (h : Ok maxNumSwcs s)
    (hmapped : (s.swcs swc).mappedToHWC = true) :
    ∃ t, s.softwareContextExited maxNumSwcs swc = .ok t ∧ Ok maxNumSwcs t ∧
      Kept maxNumSwcs s t ∧ (t.swcs swc).deletePending = true := by
  obtain ⟨hok, hkept, hmapped'⟩ := h.setNotRunnable hmapped
  unfold ContextScheduler.softwareContextExited
  dsimp only
  rw [if_neg (by simp [hmapped])]
  have hok' : Ok maxNumSwcs ((s.setSwc swc fun c => { c with runnable := false }).setSwc swc
      fun c => { c with deletePending := true }) := hok.setSwc ⟨rfl, rfl, id, Or.inl⟩
  have hkept' := hok.kept_setSwc hmapped' fun c => { c with deletePending := true }
  obtain ⟨t, hstart, hok'', hkept'', hswcs, -⟩ := hok'.startDeschedule
    (by rw [setSwc_self]; exact hmapped')
  refine ⟨t, hstart, hok'', (hkept.trans hkept').trans hkept'', ?_⟩
  rw [hswcs, Function.update_self, setSwc_self]

/-- The one that exits is not mapped, and is taken off the list at once. -/
theorem Ok.softwareContextExited_unmapped (h : Ok maxNumSwcs s)
    (hunmapped : (s.swcs swc).mappedToHWC = false) {i : Nat} (hi : i < maxNumSwcs)
    (hslot : s.swContextList i = some swc) :
    ∃ t, s.softwareContextExited maxNumSwcs swc = .ok t ∧ Ok maxNumSwcs t ∧
      Kept maxNumSwcs s t ∧ ∀ k < maxNumSwcs, t.swContextList k ≠ some swc := by
  unfold ContextScheduler.softwareContextExited
  dsimp only
  have hok : Ok maxNumSwcs (s.setSwc swc fun c => { c with runnable := false }) :=
    h.setSwc ⟨rfl, rfl, nofun, Or.inl⟩
  have hself : ((s.setSwc swc fun c => { c with runnable := false }).swcs swc).mappedToHWC =
      false := by
    rw [setSwc_self]
    exact hunmapped
  have hother : ∀ swc' ≠ swc,
      (s.setSwc swc fun c => { c with runnable := false }).swcs swc' = s.swcs swc' :=
    fun swc' hne => setSwc_of_ne hne _
  have hslot' : (s.setSwc swc fun c => { c with runnable := false }).swContextList i =
      some swc := hslot
  have hlists : (s.setSwc swc fun c => { c with runnable := false }).swContextList =
      s.swContextList := rfl
  revert hok hself hother hslot' hlists
  generalize (s.setSwc swc fun c => { c with runnable := false }) = u
  intro hok hself hother hslot' hlists
  obtain ⟨j, hj⟩ := firstSlot_of_mem hi hslot'
  obtain ⟨hjlt, hjslot⟩ := firstSlot_some hj
  have hlist : ∀ k swc', Function.update u.swContextList j none k = some swc' →
      u.swContextList k = some swc' := by
    intro k swc' hupdate
    by_cases hk : k = j
    · rw [hk, Function.update_self] at hupdate
      cases hupdate
    · rwa [Function.update_of_ne hk] at hupdate
  rw [if_pos hself, removeSoftwareContext_eq hj]
  refine ⟨_, rfl, ⟨hok.linked.remove hjslot hself, ?_, hok.priority⟩, ?_, ?_⟩
  · intro hwc hin hfree k hk
    by_contra hactive
    rw [Bool.not_eq_false] at hactive
    obtain ⟨swc', hupdate, hwaiting⟩ := active_iff.mp hactive
    have hidle := hok.conserving hwc hin hfree k hk
    rw [active_iff.mpr ⟨swc', hlist k swc' hupdate, hwaiting⟩] at hidle
    cases hidle
  · refine Kept.of_listed (fun k _ swc' hupdate => hlists ▸ hlist k swc' hupdate) fun swc' hne => ?_
    by_cases hswc : swc' = swc
    · rw [hswc]
      exact ⟨i, hi, hslot⟩
    · exact absurd (hother swc' hswc) hne
  · intro k hk hupdate
    have heq := hok.linked.slot k hk j hjlt swc (hlist k swc hupdate) hjslot
    have hnone : Function.update u.swContextList j none k = some swc := hupdate
    rw [heq, Function.update_self] at hnone
    cases hnone

theorem Ok.startTimedWait (h : Ok maxNumSwcs s) (hmapped : (s.swcs swc).mappedToHWC = true)
    (descheduleRequest : Bool) :
    ∃ t, s.startTimedWait swc descheduleRequest = .ok t ∧ Ok maxNumSwcs t ∧
      Kept maxNumSwcs s t := by
  cases descheduleRequest with
  | false => exact ⟨s, rfl, h, Kept.refl s⟩
  | true => exact h.softwareContextPaused hmapped

/-! ### What is to be deleted -/

/-- What is marked as preparing to be deleted stays so. -/
def Deleting (s t : ContextScheduler) : Prop :=
  ∀ swc, (s.swcs swc).deletePending = true → (t.swcs swc).deletePending = true

theorem Deleting.refl (s : ContextScheduler) : Deleting s s := fun _ hdelete => hdelete

theorem Deleting.trans {t u : ContextScheduler} (h : Deleting s t) (h' : Deleting t u) :
    Deleting s u :=
  fun swc hdelete => h' swc (h swc hdelete)

theorem Deleting.of_unmapped {t : ContextScheduler}
    (h : ∀ swc, unmapped (t.swcs swc) = unmapped (s.swcs swc)) : Deleting s t := by
  intro swc hdelete
  have hsame := congrArg (·.deletePending) (h swc)
  exact hsame.trans hdelete

theorem deleting_setSwc (s : ContextScheduler) (swc : Nat) {f : SwContext → SwContext}
    (hf : ∀ c : SwContext, c.deletePending = true → (f c).deletePending = true) :
    Deleting s (s.setSwc swc f) := by
  intro swc' hdelete
  by_cases hne : swc' = swc
  · rw [hne] at hdelete ⊢
    rw [setSwc_self]
    exact hf _ hdelete
  · rwa [setSwc_of_ne hne]

theorem deleting_setNotRunnable (s : ContextScheduler) (swc : Nat) :
    Deleting s (s.setSwc swc fun c => { c with runnable := false }) :=
  deleting_setSwc s swc fun _ hdelete => hdelete

section

variable {t : ContextScheduler}

theorem deleting_startDeschedule (h : s.startDeschedule swc = .ok t) : Deleting s t := by
  have hset (s : ContextScheduler) :
      Deleting s (s.setSwc swc fun c => { c with deschedulePending := true }) :=
    deleting_setSwc s swc fun _ hdelete => hdelete
  unfold startDeschedule at h
  dsimp only at h
  split at h
  · split at h
    · cases h
      exact hset (s.warn deschedulePendingWarning)
    · cases h
      exact hset s
  · cases h

theorem deleting_softwareContextPaused (h : s.softwareContextPaused swc = .ok t) :
    Deleting s t := by
  unfold softwareContextPaused at h
  exact (deleting_setNotRunnable s swc).trans (deleting_startDeschedule h)

theorem deleting_softwareContextExited (h : s.softwareContextExited maxNumSwcs swc = .ok t) :
    Deleting s t := by
  unfold softwareContextExited at h
  dsimp only at h
  split at h
  · unfold removeSoftwareContext at h
    split at h
    · cases h
      exact deleting_setNotRunnable s swc
    · cases h
  · exact ((deleting_setNotRunnable s swc).trans (deleting_setSwc _ swc fun _ _ => rfl)).trans
      (deleting_startDeschedule h)

theorem deleting_startTimedWait {descheduleRequest : Bool}
    (h : s.startTimedWait swc descheduleRequest = .ok t) : Deleting s t := by
  unfold startTimedWait at h
  split at h
  · exact (deleting_setNotRunnable s swc).trans (deleting_startDeschedule h)
  · cases h
    exact Deleting.refl _

theorem deleting_intervalTimer (h : s.intervalTimer hwc = .ok t) : Deleting s t := by
  unfold intervalTimer at h
  split at h
  · cases h
  · rename_i oldSWC hold
    split at h
    · cases h
      exact Deleting.refl _
    · refine Deleting.trans (t := s.initiateContextSwitch oldSWC) ?_ (deleting_startDeschedule h)
      unfold initiateContextSwitch
      dsimp only
      split
      · exact deleting_setSwc s oldSWC fun _ hdelete => hdelete
      · exact deleting_setSwc (s.warn initiateWarning) oldSWC fun _ hdelete => hdelete

theorem deleting_clockLoop {reschedule : Bool} {hwcs : List Nat}
    (h : ContextScheduler.clockLoop reschedule hwcs s = .ok t) : Deleting s t := by
  induction hwcs generalizing s with
  | nil =>
      cases h
      exact Deleting.refl _
  | cons hwc hwcs ih =>
      unfold ContextScheduler.clockLoop at h
      split at h
      · cases htimer : s.intervalTimer hwc with
        | error message => rw [htimer] at h; cases h
        | ok u =>
            rw [htimer] at h
            exact (deleting_intervalTimer htimer).trans (ih h)
      · exact ih h

theorem SwitchedOff.deleting (h : SwitchedOff s t swc) : Deleting s t := by
  intro swc' hdelete
  by_cases hne : swc' = swc
  · rw [hne] at hdelete ⊢
    have hsame := congrArg (·.deletePending) h.self
    exact hsame.trans hdelete
  · have hsame := congrArg (·.deletePending) (h.other swc' hne)
    exact hsame.trans hdelete

end

end ContextScheduler

/-- The scheduler, and the software contexts that were added, that have exited, and that are
gone: after an exit their switch was completed, or they were not mapped when they exited.
The three lists are the history of the calls; no code reads them. -/
structure SchedRun where
  sched : ContextScheduler
  added : List Nat
  exited : List Nat
  gone : List Nat

inductive SchedEvent
  | startThread (swc : Nat)
  | clock (cycle : UInt64)
  | intervalTimer (hwc : Nat)
  | softwareContextPaused (swc : Nat)
  | softwareContextExited (swc : Nat)
  | startTimedWait (swc : Nat) (descheduleRequest : Bool)
  | contextSwitchCompleted (swc : Nat)
  deriving DecidableEq, Repr

namespace SchedRun

variable (maxNumSwcs : Nat) (intervalTimer : UInt64) (r : SchedRun)

/-- All hardware contexts have been added, and no software context. -/
def Start : Prop := r.sched.Fresh ∧ r.added = [] ∧ r.exited = [] ∧ r.gone = []

/-- Who calls what, and when. -/
def Allowed : SchedEvent → Prop
  | .startThread swc => swc ∉ r.added ∧ r.sched.firstSlot maxNumSwcs none ≠ none
  | .clock _ => True
  | .intervalTimer hwc => (r.sched.hwcs hwc).swc ≠ none
  | .softwareContextPaused swc | .startTimedWait swc _ => (r.sched.swcs swc).mappedToHWC = true
  | .softwareContextExited swc => r.sched.firstSlot maxNumSwcs (some swc) ≠ none
  | .contextSwitchCompleted swc => (r.sched.swcs swc).deschedulePending = true

def schedExec : SchedEvent → Except String ContextScheduler
  | .startThread swc => r.sched.startThread maxNumSwcs swc
  | .clock cycle => r.sched.clock intervalTimer cycle
  | .intervalTimer hwc => r.sched.intervalTimer hwc
  | .softwareContextPaused swc => r.sched.softwareContextPaused swc
  | .softwareContextExited swc => r.sched.softwareContextExited maxNumSwcs swc
  | .startTimedWait swc descheduleRequest => r.sched.startTimedWait swc descheduleRequest
  | .contextSwitchCompleted swc => r.sched.contextSwitchCompleted maxNumSwcs swc

/-- A call, and what it adds to the history. -/
def exec (e : SchedEvent) : Except String SchedRun := do
  let sched ← r.schedExec maxNumSwcs intervalTimer e
  match e with
  | .startThread swc => .ok ⟨sched, swc :: r.added, r.exited, r.gone⟩
  | .softwareContextExited swc =>
      .ok ⟨sched, r.added, swc :: r.exited,
        if (r.sched.swcs swc).mappedToHWC then r.gone else swc :: r.gone⟩
  | .contextSwitchCompleted swc =>
      .ok ⟨sched, r.added, r.exited, if swc ∈ r.exited then swc :: r.gone else r.gone⟩
  | _ => .ok ⟨sched, r.added, r.exited, r.gone⟩

def Step (r r' : SchedRun) : Prop :=
  ∃ e, r.Allowed maxNumSwcs e ∧ r.exec maxNumSwcs intervalTimer e = .ok r'

/-- What is not there, not yet or not any more, is in no slot, and what has exited and is
still there is to be deleted. -/
structure Ok : Prop where
  sched : r.sched.Ok maxNumSwcs
  fresh : ∀ swc ∉ r.added, r.sched.swcs swc = .new ∧
    ∀ i < maxNumSwcs, r.sched.swContextList i ≠ some swc
  exited : ∀ swc ∈ r.exited, swc ∈ r.gone ∨ (r.sched.swcs swc).deletePending = true
  gone : ∀ swc ∈ r.gone, swc ∈ r.added ∧ ∀ i < maxNumSwcs, r.sched.swContextList i ≠ some swc

variable {maxNumSwcs intervalTimer} {r}

theorem Start.ok (h : r.Start) : r.Ok maxNumSwcs where
  sched := h.1.ok
  fresh := fun swc _ => ⟨h.1.swcs swc, fun i _ => by simp [h.1.swContextList i]⟩
  exited := by
    rw [h.2.2.1]
    nofun
  gone := by
    rw [h.2.2.2]
    nofun

/-- A software context that is in a slot was added. -/
theorem Ok.added (h : r.Ok maxNumSwcs) {swc i : Nat} (hi : i < maxNumSwcs)
    (hslot : r.sched.swContextList i = some swc) : swc ∈ r.added := by
  by_contra hnew
  exact (h.fresh swc hnew).2 i hi hslot

/-- A call that adds nothing and takes nothing off. -/
theorem Ok.kept (h : r.Ok maxNumSwcs) {sched : ContextScheduler} (hok : sched.Ok maxNumSwcs)
    (hkept : ContextScheduler.Kept maxNumSwcs r.sched sched)
    (hdeleting : ContextScheduler.Deleting r.sched sched) :
    Ok maxNumSwcs ⟨sched, r.added, r.exited, r.gone⟩ where
  sched := hok
  fresh := by
    intro swc hnew
    obtain ⟨hsame, hout⟩ := h.fresh swc hnew
    obtain ⟨hsame', hout'⟩ := hkept swc hout
    exact ⟨hsame'.trans hsame, hout'⟩
  exited := fun swc hexited => (h.exited swc hexited).imp_right (hdeleting swc)
  gone := fun swc hgone => ⟨(h.gone swc hgone).1, (hkept swc (h.gone swc hgone).2).2⟩

theorem Ok.startThread (h : r.Ok maxNumSwcs) (intervalTimer : UInt64) {swc : Nat}
    (hallowed : r.Allowed maxNumSwcs (.startThread swc)) :
    ∃ r', r.exec maxNumSwcs intervalTimer (.startThread swc) = .ok r' ∧ r'.Ok maxNumSwcs := by
  obtain ⟨hnew, hroom⟩ := hallowed
  obtain ⟨hrecord, hout⟩ := h.fresh swc hnew
  obtain ⟨t, hstart, hok, hkept, -, hunmapped⟩ := h.sched.startThread hroom hrecord hout
  refine ⟨⟨t, swc :: r.added, r.exited, r.gone⟩, ?_, hok, ?_,
    fun swc' hexited => (h.exited swc' hexited).imp_right
      (ContextScheduler.Deleting.of_unmapped hunmapped swc'), ?_⟩
  · unfold SchedRun.exec schedExec
    dsimp only
    rw [hstart]
    rfl
  · intro swc' hnew'
    have hne : swc' ≠ swc := fun heq => hnew' (heq ▸ List.mem_cons_self)
    have hnew₀ : swc' ∉ r.added := fun hin => hnew' (List.mem_cons_of_mem swc hin)
    obtain ⟨hrecord', hout'⟩ := h.fresh swc' hnew₀
    obtain ⟨hsame, hout''⟩ := hkept swc' hne hout'
    exact ⟨hsame.trans hrecord', hout''⟩
  · intro swc' hgone
    obtain ⟨hadded, hout'⟩ := h.gone swc' hgone
    have hne : swc' ≠ swc := fun heq => hnew (heq ▸ hadded)
    exact ⟨List.mem_cons_of_mem swc hadded, (hkept swc' hne hout').2⟩

/-- The exit of a mapped context: it is to be deleted when its switch is completed. -/
theorem Ok.softwareContextExited (h : r.Ok maxNumSwcs) (intervalTimer : UInt64) {swc : Nat}
    (hmapped : (r.sched.swcs swc).mappedToHWC = true) :
    ∃ r', r.exec maxNumSwcs intervalTimer (.softwareContextExited swc) = .ok r' ∧
      r'.Ok maxNumSwcs := by
  obtain ⟨t, hexited, hok, hkept, hdelete⟩ := h.sched.softwareContextExited hmapped
  have hkeptOk := h.kept hok hkept (ContextScheduler.deleting_softwareContextExited hexited)
  refine ⟨⟨t, r.added, swc :: r.exited, r.gone⟩, ?_, hok, hkeptOk.fresh, ?_, hkeptOk.gone⟩
  · unfold SchedRun.exec schedExec
    dsimp only
    rw [hexited, hmapped]
    rfl
  · intro swc' hexited'
    obtain rfl | hexited' := List.mem_cons.mp hexited'
    · exact .inr hdelete
    · exact hkeptOk.exited swc' hexited'

/-- The exit of a context that is not mapped: it leaves the list at once. -/
theorem Ok.softwareContextExited_unmapped (h : r.Ok maxNumSwcs) (intervalTimer : UInt64)
    {swc i : Nat} (hmapped : (r.sched.swcs swc).mappedToHWC = false) (hi : i < maxNumSwcs)
    (hslot : r.sched.swContextList i = some swc) :
    ∃ r', r.exec maxNumSwcs intervalTimer (.softwareContextExited swc) = .ok r' ∧
      r'.Ok maxNumSwcs := by
  obtain ⟨t, hexited, hok, hkept, hremoved⟩ :=
    h.sched.softwareContextExited_unmapped hmapped hi hslot
  have hkeptOk := h.kept hok hkept (ContextScheduler.deleting_softwareContextExited hexited)
  refine ⟨⟨t, r.added, swc :: r.exited, swc :: r.gone⟩, ?_, hok, hkeptOk.fresh, ?_, ?_⟩
  · unfold SchedRun.exec schedExec
    dsimp only
    rw [hexited, hmapped]
    rfl
  · intro swc' hexited'
    obtain rfl | hexited' := List.mem_cons.mp hexited'
    · exact .inl List.mem_cons_self
    · exact (hkeptOk.exited swc' hexited').imp_left (List.mem_cons_of_mem swc)
  · intro swc' hgone
    obtain rfl | hgone := List.mem_cons.mp hgone
    · exact ⟨h.added hi hslot, hremoved⟩
    · exact hkeptOk.gone swc' hgone

theorem Ok.contextSwitchCompleted (h : r.Ok maxNumSwcs) (intervalTimer : UInt64) {swc : Nat}
    (hallowed : r.Allowed maxNumSwcs (.contextSwitchCompleted swc)) :
    ∃ r', r.exec maxNumSwcs intervalTimer (.contextSwitchCompleted swc) = .ok r' ∧
      r'.Ok maxNumSwcs := by
  have hmapped := h.sched.linked.pending swc hallowed
  obtain ⟨i, hi, hslot⟩ := h.sched.linked.listed swc hmapped
  obtain ⟨t, hcompleted, hok, hkept, hswitched, hremoved⟩ :=
    h.sched.contextSwitchCompleted hallowed
  have hkeptOk := h.kept hok hkept hswitched.deleting
  refine ⟨⟨t, r.added, r.exited, if swc ∈ r.exited then swc :: r.gone else r.gone⟩,
    ?_, hok, hkeptOk.fresh, ?_, ?_⟩
  · unfold SchedRun.exec schedExec
    dsimp only
    rw [hcompleted]
    rfl
  · intro swc' hexited'
    refine (hkeptOk.exited swc' hexited').imp_left fun hgone => ?_
    split
    · exact List.mem_cons_of_mem swc hgone
    · exact hgone
  · intro swc' hgone
    dsimp only at hgone
    split at hgone
    · rename_i hexited
      obtain rfl | hgone := List.mem_cons.mp hgone
      · -- it is in a slot, so it is not gone yet
        have hdelete := (h.exited swc' hexited).resolve_left fun hgone =>
          (h.gone swc' hgone).2 i hi hslot
        exact ⟨h.added hi hslot, hremoved hdelete⟩
      · exact hkeptOk.gone swc' hgone
    · exact hkeptOk.gone swc' hgone

/-- **No call that is allowed fails, and each leaves the run in order.** -/
theorem Ok.exec (h : r.Ok maxNumSwcs) (intervalTimer : UInt64) {e : SchedEvent}
    (hallowed : r.Allowed maxNumSwcs e) :
    ∃ r', r.exec maxNumSwcs intervalTimer e = .ok r' ∧ r'.Ok maxNumSwcs := by
  cases e with
  | startThread swc => exact h.startThread intervalTimer hallowed
  | clock cycle =>
      obtain ⟨t, hclock, hok, hkept⟩ := h.sched.clockLoop
        (intervalTimer ≠ 0 ∧ cycle % intervalTimer = 0 ∧ cycle ≠ 0) r.sched.hwContextList
      refine ⟨_, ?_, h.kept hok hkept (ContextScheduler.deleting_clockLoop hclock)⟩
      unfold SchedRun.exec schedExec ContextScheduler.clock
      dsimp only
      rw [hclock]
      rfl
  | intervalTimer hwc =>
      obtain ⟨swc, hrunning⟩ := Option.ne_none_iff_exists'.mp hallowed
      obtain ⟨t, htimer, hok, hkept⟩ := h.sched.intervalTimer hrunning
      refine ⟨_, ?_, h.kept hok hkept (ContextScheduler.deleting_intervalTimer htimer)⟩
      unfold SchedRun.exec schedExec
      dsimp only
      rw [htimer]
      rfl
  | softwareContextPaused swc =>
      obtain ⟨t, hpaused, hok, hkept⟩ := h.sched.softwareContextPaused hallowed
      refine ⟨_, ?_, h.kept hok hkept (ContextScheduler.deleting_softwareContextPaused hpaused)⟩
      unfold SchedRun.exec schedExec
      dsimp only
      rw [hpaused]
      rfl
  | softwareContextExited swc =>
      obtain ⟨i, hi⟩ := Option.ne_none_iff_exists'.mp hallowed
      obtain ⟨hilt, hslot⟩ := ContextScheduler.firstSlot_some hi
      cases hmapped : (r.sched.swcs swc).mappedToHWC with
      | true => exact h.softwareContextExited intervalTimer hmapped
      | false => exact h.softwareContextExited_unmapped intervalTimer hmapped hilt hslot
  | startTimedWait swc descheduleRequest =>
      obtain ⟨t, hwait, hok, hkept⟩ := h.sched.startTimedWait hallowed descheduleRequest
      refine ⟨_, ?_, h.kept hok hkept (ContextScheduler.deleting_startTimedWait hwait)⟩
      unfold SchedRun.exec schedExec
      dsimp only
      rw [hwait]
      rfl
  | contextSwitchCompleted swc => exact h.contextSwitchCompleted intervalTimer hallowed

theorem ok_of_reaches (h : Reaches Start (Step maxNumSwcs intervalTimer) r) : r.Ok maxNumSwcs := by
  refine h.invariant (fun r hstart => hstart.ok) ?_
  rintro r r' hok ⟨e, hallowed, hexec⟩
  obtain ⟨r'', hexec', hok'⟩ := hok.exec intervalTimer hallowed
  rw [hexec] at hexec'
  cases hexec'
  exact hok'

/--
**The scheduler pairs software with hardware contexts, and leaves none waiting.**

A software context says that it is mapped to a hardware context just when that one runs
it, and no two say so of one hardware context.  One that is being descheduled is mapped,
and one whose exit was followed by the end of its switch is not.  While a hardware context is free,
no software context in the list is runnable and not mapped; so a new one is always the one
that is picked, and no call fails.
-/
theorem contextScheduler_pairs (h : Reaches Start (Step maxNumSwcs intervalTimer) r) :
    (∀ swc hwc, (r.sched.swcs swc).mappedToHWC = true ∧ (r.sched.swcs swc).hwc = some hwc ↔
        (r.sched.hwcs hwc).swc = some swc) ∧
      (∀ swc swc' hwc, (r.sched.swcs swc).mappedToHWC = true →
        (r.sched.swcs swc').mappedToHWC = true → (r.sched.swcs swc).hwc = some hwc →
        (r.sched.swcs swc').hwc = some hwc → swc = swc') ∧
      (∀ swc, (r.sched.swcs swc).deschedulePending = true →
        (r.sched.swcs swc).mappedToHWC = true) ∧
      (∀ swc ∈ r.gone, (r.sched.swcs swc).mappedToHWC = false) ∧
      (∀ hwc ∈ r.sched.hwContextList, (r.sched.hwcs hwc).swc = none → ∀ i < maxNumSwcs, ∀ swc,
        r.sched.swContextList i = some swc →
        ¬ ((r.sched.swcs swc).runnable = true ∧ (r.sched.swcs swc).mappedToHWC = false)) ∧
      notPickedWarning ∉ r.sched.warnings ∧
      ∀ e, r.Allowed maxNumSwcs e → ∃ r', r.exec maxNumSwcs intervalTimer e = .ok r' := by
  have hok := ok_of_reaches h
  have hlinked := hok.sched.linked
  have hiff : ∀ swc hwc, (r.sched.swcs swc).mappedToHWC = true ∧
      (r.sched.swcs swc).hwc = some hwc ↔ (r.sched.hwcs hwc).swc = some swc := by
    intro swc hwc
    have hmirror := hlinked.mirror swc hwc
    unfold ContextScheduler.hwcOf ContextScheduler.runningSWC at hmirror
    cases hmapped : (r.sched.swcs swc).mappedToHWC with
    | true =>
        rw [hmapped, if_pos rfl] at hmirror
        simpa using hmirror
    | false =>
        rw [hmapped, if_neg Bool.false_ne_true] at hmirror
        simpa using hmirror
  refine ⟨hiff, ?_, hlinked.pending, ?_, ?_, hlinked.warned, ?_⟩
  · intro swc swc' hwc hmapped hmapped' hhwc hhwc'
    have hruns := (hiff swc hwc).mp ⟨hmapped, hhwc⟩
    have hruns' := (hiff swc' hwc).mp ⟨hmapped', hhwc'⟩
    exact Option.some.inj (hruns.symm.trans hruns')
  · intro swc hgone
    by_contra hmapped
    rw [Bool.not_eq_false] at hmapped
    obtain ⟨i, hi, hslot⟩ := hlinked.listed swc hmapped
    exact (hok.gone swc hgone).2 i hi hslot
  · intro hwc hin hfree i hi swc hslot hwaiting
    have hidle := hok.sched.conserving hwc hin hfree i hi
    rw [ContextScheduler.active_iff.mpr ⟨swc, hslot, hwaiting⟩] at hidle
    cases hidle
  · intro e hallowed
    obtain ⟨r', hexec, -⟩ := hok.exec intervalTimer hallowed
    exact ⟨r', hexec⟩

instance (e : SchedEvent) : Decidable (r.Allowed maxNumSwcs e) := by
  unfold Allowed
  cases e <;> infer_instance

/-- One hardware context, and two threads that take turns; then the first one exits, and
its switch is completed.  The second one is switched off and on again. -/
def twoThreads : List SchedEvent :=
  [.startThread 0, .startThread 1, .clock 100, .contextSwitchCompleted 0, .clock 200,
    .contextSwitchCompleted 1, .softwareContextExited 0, .contextSwitchCompleted 0, .clock 300,
    .contextSwitchCompleted 1]

def oneContext : SchedRun :=
  ⟨⟨fun _ => none, [0], 0, fun _ => .new, fun _ => ⟨none, 0⟩, []⟩, [], [], []⟩

theorem start_oneContext : oneContext.Start :=
  ⟨⟨fun _ => rfl, rfl, fun _ => rfl, fun _ => rfl, by decide, rfl⟩, rfl, rfl, rfl⟩

theorem contextScheduler_pairs_two : ∃ r, after (fun r e => (r.exec 128 100 e).toOption)
      (fun r e => decide (r.Allowed 128 e)) twoThreads oneContext = some r ∧
    (r.sched.hwcs 0).swc = some 1 ∧ 0 ∈ r.gone ∧
    ((r.sched.swcs 1).mappedToHWC = true ∧ (r.sched.swcs 1).hwc = some 0) ∧
    (r.sched.swcs 0).mappedToHWC = false ∧
    ∀ e, r.Allowed 128 e → ∃ r', r.exec 128 100 e = .ok r' := by
  have hrun : (after (fun r e => (r.exec 128 100 e).toOption)
      (fun r e => decide (r.Allowed 128 e)) twoThreads oneContext).map
      (fun r => ((r.sched.hwcs 0).swc, r.gone)) = some (some 1, [0]) := by decide +kernel
  obtain ⟨r, hr, hends⟩ := Option.map_eq_some_iff.mp hrun
  obtain ⟨hruns, hgone⟩ := Prod.mk.inj hends
  have hzero : 0 ∈ r.gone := by
    rw [hgone]
    exact List.mem_cons_self
  have hreach : Reaches Start (Step 128 100) r := by
    refine Reaches.after ?_ (Reaches.start start_oneContext) hr
    intro s e t hok hexec
    exact ⟨e, of_decide_eq_true hok, eq_ok_of_toOption hexec⟩
  have hpairs := contextScheduler_pairs hreach
  exact ⟨r, hr, hruns, hzero, (hpairs.1 1 0).mpr hruns, hpairs.2.2.2.1 0 hzero,
    hpairs.2.2.2.2.2.2⟩

end SchedRun

end AsimFeeder.Sched
