/-
The software context and the scheduler stay in step.

The state of the switch is the software context's, the flag that a deschedule is pending
is set and cleared by the scheduler.  `InStep` says that they go together, and that the
history of a software context is one of requests that are each followed by their
completion, with ordinary instructions fetched only in between.
-/
import AsimFeeder.Sched.SwContext

namespace AsimFeeder.Sched

open Lib

/--
Whether a request has not been completed yet, if requests and completions take turns and no
ordinary instruction is fetched after a request and before its completion.
-/
def awaiting : List SwitchMark → Option Bool
  | [] => some false
  | .requested :: history => if awaiting history = some false then some true else none
  | .completed :: history => if awaiting history = some true then some false else none
  | .fetched :: history => if awaiting history = some false then some false else none

/-- The state of the switch goes with the flag and with the history. -/
structure SwContext.InStep (c : SwContext) : Prop where
  pending : c.deschedulePending = true →
    c.contextSwitchState = .requested ∨ c.contextSwitchState = .sent
  idle : c.deschedulePending = false → c.contextSwitchState = .none
  csDone : c.csDone = false
  history : awaiting c.history = some c.deschedulePending

namespace SwContext.InStep

variable {c c' : SwContext}

theorem new : SwContext.InStep .new := ⟨nofun, fun _ => rfl, rfl, rfl⟩

/-- Being mapped has nothing to do with it. -/
theorem congr (h : ContextScheduler.unmapped c' = ContextScheduler.unmapped c) (hc : c.InStep) :
    c'.InStep := by
  unfold ContextScheduler.unmapped at h
  injection h with _ hstate _ _ hpending _ _ _ hdone hhistory
  refine ⟨?_, ?_, ?_, ?_⟩
  · rw [hstate, hpending]
    exact hc.pending
  · rw [hstate, hpending]
    exact hc.idle
  · rw [hdone]
    exact hc.csDone
  · rw [hhistory, hpending]
    exact hc.history

theorem switching_iff (hc : c.InStep) : c.switching = true ↔ c.deschedulePending = true := by
  unfold SwContext.switching
  rw [Bool.or_eq_true, decide_eq_true_iff, decide_eq_true_iff]
  constructor
  · intro hstate
    by_contra hpending
    rw [Bool.not_eq_true] at hpending
    have hidle := hc.idle hpending
    obtain hstate | hstate := hstate <;> rw [hidle] at hstate <;> cases hstate
  · exact hc.pending

end SwContext.InStep

namespace ContextScheduler

variable {maxNumSwcs : Nat} {s t : ContextScheduler} {swc hwc : Nat}

/-- Everybody is in step, and nobody was warned. -/
structure InStep (maxNumSwcs : Nat) (s : ContextScheduler) : Prop where
  ok : s.Ok maxNumSwcs
  inStep : ∀ swc, (s.swcs swc).InStep
  warnings : s.warnings = []

/-- A request: the state and the history of the software context, and the flag. -/
def asked (c : SwContext) : SwContext :=
  { c with
    contextSwitchState := .requested
    deschedulePending := true
    history := .requested :: c.history }

theorem asked_inStep {c : SwContext} (hc : c.InStep) (hpending : c.deschedulePending = false) :
    (asked c).InStep := by
  refine ⟨fun _ => Or.inl rfl, nofun, hc.csDone, ?_⟩
  change (if awaiting c.history = some false then some true else none) = some true
  rw [hc.history, hpending, if_pos rfl]

/-- Those whose record did not change are in step as they were. -/
theorem inStep_update (h : ∀ swc, (s.swcs swc).InStep)
    (hswcs : ∀ swc' ≠ swc, t.swcs swc' = s.swcs swc') (hself : (t.swcs swc).InStep) :
    ∀ swc, (t.swcs swc).InStep := by
  intro swc'
  by_cases hne : swc' = swc
  · rw [hne]
    exact hself
  · rw [hswcs swc' hne]
    exact h swc'

theorem setSwc_setSwc (f g : SwContext → SwContext) :
    (s.setSwc swc f).setSwc swc g = s.setSwc swc fun c => g (f c) := by
  unfold ContextScheduler.setSwc
  simp only [Function.update_self, Function.update_idem]

theorem setSwc_congr {f g : SwContext → SwContext} (h : f (s.swcs swc) = g (s.swcs swc)) :
    s.setSwc swc f = s.setSwc swc g := by
  unfold ContextScheduler.setSwc
  rw [h]

/-- What is mapped and not being descheduled yet is, without a warning. -/
theorem startDeschedule_eq (hmapped : (s.swcs swc).mappedToHWC = true)
    (hpending : (s.swcs swc).deschedulePending = false) :
    s.startDeschedule swc = .ok (s.setSwc swc fun c => { c with deschedulePending := true }) := by
  unfold ContextScheduler.startDeschedule
  rw [if_pos hmapped]
  dsimp only
  rw [if_neg (by simp [hpending])]

theorem intervalTimer_eq (hrunning : s.runningSWC hwc = some swc)
    (hmapped : (s.swcs swc).mappedToHWC = true) (hc : (s.swcs swc).InStep) :
    s.intervalTimer hwc =
      .ok (if (s.swcs swc).deschedulePending then s else s.setSwc swc asked) := by
  unfold ContextScheduler.intervalTimer
  rw [show (s.hwcs hwc).swc = some swc from hrunning]
  dsimp only
  cases hpending : (s.swcs swc).deschedulePending with
  | true => rfl
  | false =>
      have hinitiate : s.initiateContextSwitch swc = s.setSwc swc fun c =>
          { c with contextSwitchState := .requested, history := .requested :: c.history } := by
        unfold initiateContextSwitch
        rw [if_pos (hc.idle hpending)]
      rw [if_neg Bool.false_ne_true, if_neg Bool.false_ne_true, hinitiate, startDeschedule_eq,
        setSwc_setSwc]
      · rfl
      · rw [setSwc_self]
        exact hmapped
      · rw [setSwc_self]
        exact hpending

theorem InStep.setSwc (h : s.InStep maxNumSwcs) {f : SwContext → SwContext}
    (hflags : FlagsOnly f (s.swcs swc)) (hf : (f (s.swcs swc)).InStep) :
    (s.setSwc swc f).InStep maxNumSwcs where
  ok := h.ok.setSwc hflags
  inStep := inStep_update h.inStep (fun swc' hne => setSwc_of_ne hne f) (by rwa [setSwc_self])
  warnings := h.warnings

/-- A switch is left as it is or is over, or there is a new request. -/
def Moved (s t : ContextScheduler) : Prop :=
  ∀ swc, ((t.swcs swc).requests = (s.swcs swc).requests ∧
      ((t.swcs swc).contextSwitchState = (s.swcs swc).contextSwitchState ∨
        (t.swcs swc).contextSwitchState = .none)) ∨
    ((s.swcs swc).requests < (t.swcs swc).requests ∧ (t.swcs swc).contextSwitchState ≠ .sent)

theorem Moved.refl (s : ContextScheduler) : Moved s s := fun _ => Or.inl ⟨rfl, Or.inl rfl⟩

theorem descheduled_requests (c : SwContext) : c.descheduled.requests = c.requests := by
  unfold SwContext.requests SwContext.descheduled
  simp

theorem same_of_unmapped {c c' : SwContext} (h : unmapped c' = unmapped c) :
    c'.requests = c.requests ∧ c'.contextSwitchState = c.contextSwitchState := by
  unfold unmapped at h
  injection h with _ hstate _ _ _ _ _ _ _ hhistory
  unfold SwContext.requests
  rw [hhistory]
  exact ⟨rfl, hstate⟩

theorem Moved.of_unmapped
    (h : ∀ swc, unmapped (t.swcs swc) = unmapped (s.swcs swc)) : Moved s t := by
  intro swc
  obtain ⟨hrequests, hstate⟩ := same_of_unmapped (h swc)
  exact Or.inl ⟨hrequests, Or.inl hstate⟩

theorem Moved.trans {u : ContextScheduler} (h : Moved s t) (h' : Moved t u) : Moved s u := by
  intro swc
  obtain ⟨hrequests', hstate'⟩ | ⟨hmore', hstate'⟩ := h' swc
  · obtain ⟨hrequests, hstate⟩ | ⟨hmore, hstate⟩ := h swc
    · refine Or.inl ⟨hrequests'.trans hrequests, ?_⟩
      obtain hsame | hnone := hstate'
      · rw [hsame]
        exact hstate
      · exact Or.inr hnone
    · refine Or.inr ⟨hrequests' ▸ hmore, ?_⟩
      obtain hsame | hnone := hstate'
      · rwa [hsame]
      · rw [hnone]
        exact nofun
  · obtain ⟨hrequests, -⟩ | ⟨hmore, -⟩ := h swc
    · exact Or.inr ⟨hrequests ▸ hmore', hstate'⟩
    · exact Or.inr ⟨hmore.trans hmore', hstate'⟩

/-- Who has sent a context switch had sent it before, for the same request. -/
theorem Moved.sent (h : Moved s t) (hsent : (t.swcs swc).contextSwitchState = .sent) :
    (s.swcs swc).contextSwitchState = .sent ∧ (t.swcs swc).requests = (s.swcs swc).requests := by
  obtain ⟨hrequests, hsame | hnone⟩ | ⟨-, hstate⟩ := h swc
  · exact ⟨hsame ▸ hsent, hrequests⟩
  · rw [hsent] at hnone
    cases hnone
  · exact absurd hsent hstate

theorem moved_asked (s : ContextScheduler) (swc : Nat) : Moved s (s.setSwc swc asked) := by
  intro swc'
  by_cases hne : swc' = swc
  · rw [hne, setSwc_self]
    refine Or.inr ⟨?_, nofun⟩
    unfold SwContext.requests asked
    rw [List.count_cons_self]
    exact Nat.lt_succ_self _
  · rw [setSwc_of_ne hne]
    exact Or.inl ⟨rfl, Or.inl rfl⟩

theorem InStep.intervalTimer (h : s.InStep maxNumSwcs) (hrunning : s.runningSWC hwc = some swc) :
    ∃ t, s.intervalTimer hwc = .ok t ∧ t.InStep maxNumSwcs ∧ Kept maxNumSwcs s t ∧
      Moved s t := by
  have hmapped := mapped_of_running h.ok.linked hrunning
  refine ⟨_, intervalTimer_eq hrunning hmapped (h.inStep swc), ?_⟩
  cases hpending : (s.swcs swc).deschedulePending with
  | true => exact ⟨h, Kept.refl s, Moved.refl s⟩
  | false =>
      exact ⟨h.setSwc ⟨rfl, rfl, id, fun _ => Or.inr hmapped⟩
        (asked_inStep (h.inStep swc) hpending), h.ok.kept_setSwc hmapped _,
        moved_asked s swc⟩

theorem InStep.clockLoop (h : s.InStep maxNumSwcs) (reschedule : Bool) (hwcs : List Nat) :
    ∃ t, clockLoop reschedule hwcs s = .ok t ∧ t.InStep maxNumSwcs ∧ Kept maxNumSwcs s t ∧
      Moved s t := by
  induction hwcs generalizing s with
  | nil => exact ⟨s, rfl, h, Kept.refl s, Moved.refl s⟩
  | cons hwc hwcs ih =>
      unfold ContextScheduler.clockLoop
      by_cases hdo : (s.hwcs hwc).swc ≠ none ∧ reschedule = true
      · obtain ⟨swc, hrunning⟩ := Option.ne_none_iff_exists'.mp hdo.1
        obtain ⟨t, htimer, hstep, hkept, hmoved⟩ := h.intervalTimer hrunning
        obtain ⟨u, hloop, hstep', hkept', hmoved'⟩ := ih hstep
        refine ⟨u, ?_, hstep', hkept.trans hkept', hmoved.trans hmoved'⟩
        rw [if_pos hdo, htimer]
        exact hloop
      · obtain ⟨u, hloop, hstep', hkept'⟩ := ih h
        refine ⟨u, ?_, hstep', hkept'⟩
        rw [if_neg hdo]
        exact hloop

/-- What the end of its thread does to a software context that is mapped. -/
def ended (c : SwContext) : SwContext :=
  { asked c with runnable := false, deletePending := true, streamEnded := true }

theorem handleEndThread_eq (hmapped : (s.swcs swc).mappedToHWC = true)
    (hpending : (s.swcs swc).deschedulePending = false) :
    s.handleEndThread maxNumSwcs swc = .ok (s.setSwc swc ended) := by
  unfold handleEndThread ContextScheduler.softwareContextExited
  dsimp only
  rw [setSwc_setSwc, if_neg (by simp [hmapped]), setSwc_setSwc, startDeschedule_eq, setSwc_setSwc]
  · change Except.ok _ = _
    rw [setSwc_setSwc]
    rfl
  · rw [setSwc_self]
    exact hmapped
  · rw [setSwc_self]
    exact hpending

/-- An ordinary instruction is fetched. -/
def fetchedOne (c : SwContext) : SwContext :=
  { c with running := true, history := .fetched :: c.history }

theorem fetchedOne_inStep {c : SwContext} (hc : c.InStep) (hpending : c.deschedulePending = false) :
    (fetchedOne c).InStep := by
  refine ⟨hc.pending, hc.idle, hc.csDone, ?_⟩
  change (if awaiting c.history = some false then some false else none) = some c.deschedulePending
  rw [hc.history, hpending, if_pos rfl]

theorem fetch_eq (hmapped : (s.swcs swc).mappedToHWC = true) (hc : (s.swcs swc).InStep)
    (success : Bool) :
    s.fetch maxNumSwcs swc success =
      if (s.swcs swc).deschedulePending then
        if success then .ok (s.setSwc swc fun c => { c with contextSwitchState := .sent })
        else .error assertSuccess
      else if success then .ok (s.setSwc swc fetchedOne)
      else .ok (s.setSwc swc fun c => ended (fetchedOne c)) := by
  unfold fetch
  cases hpending : (s.swcs swc).deschedulePending with
  | true =>
      rw [if_pos (hc.switching_iff.mpr hpending), if_pos rfl]
  | false =>
      have hswitching : ¬ (s.swcs swc).switching = true := by
        rw [hc.switching_iff, hpending]
        exact Bool.false_ne_true
      rw [if_neg hswitching, if_neg Bool.false_ne_true]
      dsimp only
      rw [handleEndThread_eq, setSwc_setSwc]
      · rfl
      · rw [setSwc_self]
        exact hmapped
      · rw [setSwc_self]
        exact hpending

/-- A fetch fails only when the feeder has no context switch instruction. -/
theorem InStep.fetch (h : s.InStep maxNumSwcs) (hmapped : (s.swcs swc).mappedToHWC = true)
    (success : Bool) :
    s.fetch maxNumSwcs swc success = .error assertSuccess ∨
      ∃ t, s.fetch maxNumSwcs swc success = .ok t ∧ t.InStep maxNumSwcs ∧
        Kept maxNumSwcs s t := by
  rw [fetch_eq hmapped (h.inStep swc)]
  have hc := h.inStep swc
  cases hpending : (s.swcs swc).deschedulePending with
  | true =>
      cases success with
      | false => exact Or.inl rfl
      | true =>
          have hsent : SwContext.InStep { s.swcs swc with contextSwitchState := .sent } := by
            refine ⟨fun _ => Or.inr rfl, ?_, hc.csDone, hc.history⟩
            intro hidle
            rw [hpending] at hidle
            cases hidle
          exact Or.inr ⟨_, rfl, h.setSwc ⟨rfl, rfl, id, Or.inl⟩ hsent, h.ok.kept_setSwc hmapped _⟩
  | false =>
      have hfetched := fetchedOne_inStep hc hpending
      cases success with
      | true =>
          exact Or.inr ⟨_, rfl, h.setSwc ⟨rfl, rfl, id, Or.inl⟩ hfetched,
            h.ok.kept_setSwc hmapped _⟩
      | false =>
          have hasked := asked_inStep hfetched hpending
          have hended : (ended (fetchedOne (s.swcs swc))).InStep :=
            ⟨hasked.pending, hasked.idle, hasked.csDone, hasked.history⟩
          exact Or.inr ⟨_, rfl, h.setSwc ⟨rfl, rfl, nofun, fun _ => Or.inr hmapped⟩ hended,
            h.ok.kept_setSwc hmapped _⟩

/-- **The commit of a context switch instruction completes a request, or does nothing.** -/
theorem InStep.commitSwitch (h : s.InStep maxNumSwcs) (swc : Nat) :
    ∃ t, s.commitSwitch maxNumSwcs swc = .ok t ∧ t.InStep maxNumSwcs ∧ Kept maxNumSwcs s t ∧
      Moved s t ∧ ((s.swcs swc).contextSwitchState = .sent →
        (t.swcs swc).contextSwitchState = .none) := by
  unfold ContextScheduler.commitSwitch
  by_cases hsent : (s.swcs swc).contextSwitchState = .sent
  · have hc := h.inStep swc
    have hpending : (s.swcs swc).deschedulePending = true := by
      apply hc.switching_iff.mp
      unfold SwContext.switching
      simp [hsent]
    have hmapped := h.ok.linked.pending swc hpending
    obtain ⟨t, hcompleted, hok, hkept, hoff, -⟩ := h.ok.contextSwitchCompleted hpending
    rw [if_pos hsent, if_neg (by simp [hc.csDone]), hcompleted]
    refine ⟨_, rfl, ⟨hok.setSwc ⟨rfl, rfl, id, Or.inl⟩, ?_, ?_⟩, ?_, ?_, ?_⟩
    · intro swc'
      by_cases hne : swc' = swc
      · rw [hne, setSwc_self]
        have hself := hoff.self
        unfold unmapped SwContext.descheduled at hself
        injection hself with _ _ _ _ hpending' _ _ _ hdone hhistory
        dsimp only at hpending' hdone hhistory
        refine ⟨?_, fun _ => rfl, hdone.trans hc.csDone, ?_⟩
        · intro hset
          dsimp only at hset
          rw [hpending'] at hset
          cases hset
        · dsimp only
          rw [hpending', hhistory]
          unfold awaiting
          rw [hc.history, hpending, if_pos rfl]
      · rw [setSwc_of_ne hne]
        exact (h.inStep swc').congr (hoff.other swc' hne)
    · exact hoff.warnings.trans h.warnings
    · intro swc' hout
      have hne : swc' ≠ swc := by
        intro heq
        obtain ⟨i, hi, hslot⟩ := h.ok.linked.listed swc hmapped
        exact hout i hi (heq ▸ hslot)
      obtain ⟨hsame, hout'⟩ := hkept swc' hout
      exact ⟨(setSwc_of_ne hne _).trans hsame, hout'⟩
    · intro swc'
      by_cases hne : swc' = swc
      · rw [hne, setSwc_self]
        refine Or.inl ⟨?_, Or.inr rfl⟩
        obtain ⟨hrequests, -⟩ := same_of_unmapped hoff.self
        exact hrequests.trans (descheduled_requests _)
      · rw [setSwc_of_ne hne]
        obtain ⟨hrequests, hstate⟩ := same_of_unmapped (hoff.other swc' hne)
        exact Or.inl ⟨hrequests, Or.inl hstate⟩
    · intro _
      rw [setSwc_self]
  · rw [if_neg hsent]
    exact ⟨s, rfl, h, Kept.refl s, Moved.refl s, fun hsent' => absurd hsent' hsent⟩

end ContextScheduler

namespace SwitchRun

variable {maxNumSwcs : Nat} {intervalTimer : UInt64} {r r' : SwitchRun}

/-- Everybody is in step, and who is not there yet is in no slot. -/
structure Ok (maxNumSwcs : Nat) (r : SwitchRun) : Prop where
  inStep : r.sched.InStep maxNumSwcs
  fresh : ∀ swc ∉ r.added, r.sched.swcs swc = .new ∧
    ∀ i < maxNumSwcs, r.sched.swContextList i ≠ some swc

theorem Start.ok (h : r.Start) : r.Ok maxNumSwcs where
  inStep := {
    ok := h.1.ok
    inStep := fun swc => h.1.swcs swc ▸ SwContext.InStep.new
    warnings := h.1.warnings }
  fresh := fun swc _ => ⟨h.1.swcs swc, fun i _ => by simp [h.1.swContextList i]⟩

theorem Ok.kept (h : r.Ok maxNumSwcs) {sched : ContextScheduler}
    (hstep : sched.InStep maxNumSwcs) (hkept : ContextScheduler.Kept maxNumSwcs r.sched sched)
    (inFlight : Nat → List AsimInst) : Ok maxNumSwcs { r with sched, inFlight } where
  inStep := hstep
  fresh := by
    intro swc hnew
    obtain ⟨hsame, hout⟩ := h.fresh swc hnew
    obtain ⟨hsame', hout'⟩ := hkept swc hout
    exact ⟨hsame'.trans hsame, hout'⟩

/-- **What is done either leaves everybody in step or trips over an assertion.** -/
theorem Ok.exec (h : r.Ok maxNumSwcs) (intervalTimer : UInt64) {e : SwitchEvent}
    (hallowed : r.Allowed maxNumSwcs e) :
    r.exec maxNumSwcs intervalTimer e = .error assertSuccess ∨
      ∃ r', r.exec maxNumSwcs intervalTimer e = .ok r' ∧ r'.Ok maxNumSwcs := by
  cases e with
  | startThread swc =>
      obtain ⟨hnew, hroom⟩ := hallowed
      obtain ⟨hrecord, hout⟩ := h.fresh swc hnew
      obtain ⟨t, hstart, hok, hkept, hwarnings, hsame⟩ :=
        h.inStep.ok.startThread hroom hrecord hout
      refine Or.inr ⟨{ r with sched := t, added := swc :: r.added }, ?_, ⟨hok, ?_, ?_⟩, ?_⟩
      · unfold SwitchRun.exec
        dsimp only
        rw [hstart]
        rfl
      · exact fun swc' => (h.inStep.inStep swc').congr (hsame swc')
      · exact hwarnings.trans h.inStep.warnings
      · intro swc' hnew'
        have hne : swc' ≠ swc := fun heq => hnew' (heq ▸ List.mem_cons_self)
        have hnew₀ : swc' ∉ r.added := fun hin => hnew' (List.mem_cons_of_mem swc hin)
        obtain ⟨hrecord', hout'⟩ := h.fresh swc' hnew₀
        obtain ⟨hsame', hout''⟩ := hkept swc' hne hout'
        exact ⟨hsame'.trans hrecord', hout''⟩
  | clock cycle =>
      obtain ⟨t, hclock, hstep, hkept, -⟩ := h.inStep.clockLoop
        (intervalTimer ≠ 0 ∧ cycle % intervalTimer = 0 ∧ cycle ≠ 0) r.sched.hwContextList
      refine Or.inr ⟨_, ?_, h.kept hstep hkept r.inFlight⟩
      unfold SwitchRun.exec ContextScheduler.clock
      dsimp only
      rw [hclock]
      rfl
  | fetch hwc success =>
      obtain ⟨swc, hrunning⟩ := Option.ne_none_iff_exists'.mp hallowed
      have hmapped := ContextScheduler.mapped_of_running h.inStep.ok.linked hrunning
      unfold SwitchRun.exec
      dsimp only
      rw [hrunning]
      dsimp only
      obtain hassert | ⟨t, hfetch, hstep, hkept⟩ := h.inStep.fetch hmapped success
      · rw [hassert]
        exact Or.inl rfl
      · rw [hfetch]
        exact Or.inr ⟨_, rfl, h.kept hstep hkept _⟩
  | commit swc k =>
      obtain ⟨ainst, hainst⟩ : ∃ ainst, (r.inFlight swc)[k]? = some ainst :=
        ⟨_, List.getElem?_eq_getElem hallowed⟩
      unfold SwitchRun.exec
      dsimp only
      rw [hainst]
      dsimp only
      split
      · obtain ⟨t, hcommit, hstep, hkept, -⟩ := h.inStep.commitSwitch swc
        rw [hcommit]
        exact Or.inr ⟨_, rfl, h.kept hstep hkept _⟩
      · exact Or.inr ⟨_, rfl, h.kept h.inStep (ContextScheduler.Kept.refl _) _⟩
  | kill swc n => exact Or.inr ⟨_, rfl, h.kept h.inStep (ContextScheduler.Kept.refl _) _⟩

theorem ok_of_reaches (h : Reaches Start (Step maxNumSwcs intervalTimer) r) : r.Ok maxNumSwcs := by
  refine h.invariant (fun r hstart => hstart.ok) ?_
  rintro r r' hok ⟨e, hallowed, hexec⟩
  obtain hassert | ⟨r'', hexec', hok'⟩ := hok.exec intervalTimer hallowed
  · rw [hexec] at hassert
    cases hassert
  · rw [hexec] at hexec'
    cases hexec'
    exact hok'

/--
**The switch of a software context stays in step with the scheduler.**

A software context has been asked to switch, or has sent its context switch, just when the
scheduler has a deschedule of it pending.  In its history requests and completions take
turns, with no ordinary instruction fetched after a request and before its completion.
`InitiateContextSwitch` never warns, and nothing fails but the assertion that the feeder
provides a context switch instruction.
-/
theorem switch_inStep (h : Reaches Start (Step maxNumSwcs intervalTimer) r) :
    (∀ swc, ((r.sched.swcs swc).contextSwitchState = .requested ∨
        (r.sched.swcs swc).contextSwitchState = .sent) ↔
        (r.sched.swcs swc).deschedulePending = true) ∧
      (∀ swc, awaiting (r.sched.swcs swc).history =
        some (r.sched.swcs swc).deschedulePending) ∧
      initiateWarning ∉ r.sched.warnings ∧
      ∀ e message, r.Allowed maxNumSwcs e → r.exec maxNumSwcs intervalTimer e = .error message →
        message = assertSuccess := by
  have hok := ok_of_reaches h
  refine ⟨?_, fun swc => (hok.inStep.inStep swc).history, ?_, ?_⟩
  · intro swc
    rw [← (hok.inStep.inStep swc).switching_iff]
    unfold SwContext.switching
    simp
  · rw [hok.inStep.warnings]
    exact List.not_mem_nil
  · intro e message hallowed hfail
    obtain hassert | ⟨r', hexec, -⟩ := hok.exec intervalTimer hallowed
    · rw [hassert] at hfail
      exact (Except.error.inj hfail).symm
    · rw [hexec] at hfail
      cases hfail

instance (e : SwitchEvent) : Decidable (r.Allowed maxNumSwcs e) := by
  unfold Allowed
  cases e <;> infer_instance

/-- One hardware context and no software context. -/
def oneIdle : SwitchRun := ⟨SchedRun.oneContext.sched, [], fun _ => []⟩

theorem start_oneIdle : oneIdle.Start :=
  ⟨⟨fun _ => rfl, rfl, fun _ => rfl, fun _ => rfl, by decide, rfl⟩, rfl, fun _ => rfl⟩

/-- The run of some events that are allowed, with an interval timer of 100 cycles. -/
def runOf (es : List SwitchEvent) : Option SwitchRun :=
  after (fun r e => (r.exec 128 100 e).toOption) (fun r e => decide (r.Allowed 128 e)) es oneIdle

theorem reaches_runOf {es : List SwitchEvent} (h : runOf es = some r) :
    Reaches Start (Step 128 100) r := by
  refine Reaches.after ?_ (Reaches.start start_oneIdle) h
  intro s e t hok hexec
  exact ⟨e, of_decide_eq_true hok, eq_ok_of_toOption hexec⟩

/-- A thread is asked to switch, and its context switch instruction is fetched. -/
theorem switch_inStep_sent :
    ∃ r, runOf [.startThread 0, .fetch 0 true, .clock 100, .fetch 0 true] = some r ∧
      (r.sched.swcs 0).contextSwitchState = .sent ∧
      (r.sched.swcs 0).deschedulePending = true := by
  have hrun : (runOf [.startThread 0, .fetch 0 true, .clock 100, .fetch 0 true]).map
      (fun r => (r.sched.swcs 0).contextSwitchState) = some .sent := by decide +kernel
  obtain ⟨r, hr, hsent⟩ := Option.map_eq_some_iff.mp hrun
  have hstep := switch_inStep (reaches_runOf hr)
  exact ⟨r, hr, hsent, (hstep.1 0).mp (Or.inr hsent)⟩

end SwitchRun

end AsimFeeder.Sched
