/-
Which context switch instruction completes a switch.

A context feeds context switch instructions until one of them commits, and takes any that
commits while its state is SENT for the one it waits for.  The others are still in flight
then, and commit or are killed later.  When the context is scheduled again, asked to switch
again and has sent the first instruction of the new switch before they are gone, one of
them completes the new switch, with ordinary instructions behind it still in flight.

As long as the first instruction of a switch is fetched only when none of an earlier one
is in flight, the instructions in flight are ordinary ones first and then those of the
switch, and a switch completes when the ordinary ones are gone.
-/
import AsimFeeder.Sched.SwitchProtocol

namespace AsimFeeder.Sched

open Lib

namespace SwitchRun

variable (maxNumSwcs : Nat) (intervalTimer : UInt64) (r : SwitchRun)

/-- Instructions of a software context commit in the order in which they were fetched. -/
def InOrder : SwitchEvent → Prop
  | .commit _ k => k = 0
  | _ => True

instance : (e : SwitchEvent) → Decidable (InOrder e)
  | .commit _ k => inferInstanceAs (Decidable (k = 0))
  | .startThread _ | .clock _ | .fetch _ _ | .kill _ _ => inferInstanceAs (Decidable True)

def InOrderStep (r r' : SwitchRun) : Prop :=
  ∃ e, InOrder e ∧ r.Allowed maxNumSwcs e ∧ r.exec maxNumSwcs intervalTimer e = .ok r'

/-- The commit of this instruction calls `ContextSwitchCompleted`. -/
def Completes (swc : Nat) (ainst : AsimInst) : Prop :=
  (r.inFlight swc).head? = some ainst ∧ ainst.asimSchedulerContextSwitch = true ∧
    (r.sched.swcs swc).contextSwitchState = .sent ∧ (r.sched.swcs swc).csDone = false

/--
The instruction was fetched for the last request, and no ordinary instruction that was
fetched before that is in flight.
-/
def Drained (swc : Nat) (ainst : AsimInst) : Prop :=
  ainst.request = (r.sched.swcs swc).requests ∧
    ∀ other ∈ r.inFlight swc, other.asimSchedulerContextSwitch = false →
      (r.sched.swcs swc).requests ≤ other.request

/-- The first instruction of a switch is fetched when none of an earlier one is in flight. -/
def Alone : SwitchEvent → Prop
  | .fetch hwc _ => ∀ swc, (r.sched.hwcs hwc).swc = some swc →
      (r.sched.swcs swc).contextSwitchState = .requested →
      ∀ ainst ∈ r.inFlight swc, ainst.asimSchedulerContextSwitch = false
  | _ => True

def AloneStep (r r' : SwitchRun) : Prop :=
  ∃ e, r.Alone e ∧ InOrder e ∧ r.Allowed maxNumSwcs e ∧
    r.exec maxNumSwcs intervalTimer e = .ok r'

/-- What is in flight of a context that has sent a switch. -/
def Sorted (request : Nat) (inFlight : List AsimInst) : Prop :=
  ∃ before switch, inFlight = before ++ switch ∧
    (∀ ainst ∈ before, ainst.asimSchedulerContextSwitch = false) ∧
    ∀ ainst ∈ switch, ainst = ⟨true, request⟩

end SwitchRun

theorem SwitchRun.Sorted.take {request n : Nat} {inFlight : List AsimInst}
    (h : SwitchRun.Sorted request inFlight) : SwitchRun.Sorted request (inFlight.take n) := by
  obtain ⟨before, switch, rfl, hbefore, hswitch⟩ := h
  refine ⟨before.take n, switch.take (n - before.length), List.take_append, ?_, ?_⟩
  · exact fun ainst hin => hbefore ainst (List.mem_of_mem_take hin)
  · exact fun ainst hin => hswitch ainst (List.mem_of_mem_take hin)

theorem SwitchRun.Sorted.append {request : Nat} {inFlight : List AsimInst}
    (h : SwitchRun.Sorted request inFlight) :
    SwitchRun.Sorted request (inFlight ++ [⟨true, request⟩]) := by
  obtain ⟨before, switch, rfl, hbefore, hswitch⟩ := h
  refine ⟨before, switch ++ [⟨true, request⟩], List.append_assoc .., hbefore, ?_⟩
  intro ainst hin
  obtain hin | hin := List.mem_append.mp hin
  · exact hswitch ainst hin
  · exact List.mem_singleton.mp hin

/-- The oldest one is ordinary, and then it goes, or all of them belong to the switch. -/
theorem SwitchRun.Sorted.tail {request : Nat} {ainst : AsimInst} {inFlight : List AsimInst}
    (h : SwitchRun.Sorted request (ainst :: inFlight)) :
    (ainst.asimSchedulerContextSwitch = false ∧ SwitchRun.Sorted request inFlight) ∨
      ∀ other ∈ ainst :: inFlight, other = ⟨true, request⟩ := by
  obtain ⟨before, switch, heq, hbefore, hswitch⟩ := h
  cases before with
  | nil => exact Or.inr (heq ▸ hswitch)
  | cons first before =>
      rw [List.cons_append, List.cons.injEq] at heq
      obtain ⟨rfl, rfl⟩ := heq
      exact Or.inl ⟨hbefore ainst List.mem_cons_self, before, switch, rfl,
        fun other hin => hbefore other (List.mem_cons_of_mem ainst hin), hswitch⟩

namespace SwitchRun

variable {maxNumSwcs : Nat} {intervalTimer : UInt64} {r r' : SwitchRun} {swc hwc : Nat}

/-! ### What a step does -/

theorem exec_startThread (h : r.Ok maxNumSwcs) (hallowed : r.Allowed maxNumSwcs (.startThread swc))
    (hexec : r.exec maxNumSwcs intervalTimer (.startThread swc) = .ok r') :
    r'.inFlight = r.inFlight ∧ ∀ swc, ContextScheduler.unmapped (r'.sched.swcs swc) =
      ContextScheduler.unmapped (r.sched.swcs swc) := by
  obtain ⟨hnew, hroom⟩ := hallowed
  obtain ⟨hrecord, hout⟩ := h.fresh swc hnew
  obtain ⟨t, hstart, -, -, -, hsame⟩ := h.inStep.ok.startThread hroom hrecord hout
  unfold SwitchRun.exec at hexec
  dsimp only at hexec
  rw [hstart] at hexec
  cases hexec
  exact ⟨rfl, hsame⟩

theorem exec_clock (h : r.Ok maxNumSwcs) {cycle : UInt64}
    (hexec : r.exec maxNumSwcs intervalTimer (.clock cycle) = .ok r') :
    r'.inFlight = r.inFlight ∧ ContextScheduler.Moved r.sched r'.sched := by
  obtain ⟨t, hclock, -, -, hmoved⟩ := h.inStep.clockLoop
    (intervalTimer ≠ 0 ∧ cycle % intervalTimer = 0 ∧ cycle ≠ 0) r.sched.hwContextList
  unfold SwitchRun.exec ContextScheduler.clock at hexec
  dsimp only at hexec
  rw [hclock] at hexec
  cases hexec
  exact ⟨rfl, hmoved⟩

/-- What a fetch does to the record of the software context. -/
def fetchOf (c : SwContext) (success : Bool) : SwContext :=
  if c.deschedulePending then { c with contextSwitchState := .sent }
  else if success then ContextScheduler.fetchedOne c
  else ContextScheduler.ended (ContextScheduler.fetchedOne c)

theorem exec_fetch (h : r.Ok maxNumSwcs) {success : Bool}
    (hrunning : (r.sched.hwcs hwc).swc = some swc)
    (hexec : r.exec maxNumSwcs intervalTimer (.fetch hwc success) = .ok r') :
    r'.sched = r.sched.setSwc swc (fun c => fetchOf c success) ∧
      r'.inFlight = Function.update r.inFlight swc (r.inFlight swc ++ [r.fetched swc]) := by
  have hmapped := ContextScheduler.mapped_of_running h.inStep.ok.linked hrunning
  unfold SwitchRun.exec at hexec
  dsimp only at hexec
  rw [hrunning] at hexec
  dsimp only at hexec
  rw [ContextScheduler.fetch_eq hmapped (h.inStep.inStep swc)] at hexec
  cases hpending : (r.sched.swcs swc).deschedulePending with
  | true =>
      rw [hpending, if_pos rfl] at hexec
      cases success with
      | false => cases hexec
      | true =>
          have hsame : r.sched.setSwc swc (fun c => fetchOf c true) =
              r.sched.setSwc swc fun c => { c with contextSwitchState := .sent } :=
            ContextScheduler.setSwc_congr (by rw [fetchOf, hpending, if_pos rfl])
          cases hexec
          rw [hsame]
          exact ⟨rfl, rfl⟩
  | false =>
      rw [hpending, if_neg Bool.false_ne_true] at hexec
      cases success with
      | false =>
          have hsame : r.sched.setSwc swc (fun c => fetchOf c false) =
              r.sched.setSwc swc fun c =>
                ContextScheduler.ended (ContextScheduler.fetchedOne c) :=
            ContextScheduler.setSwc_congr
              (by rw [fetchOf, hpending, if_neg Bool.false_ne_true, if_neg Bool.false_ne_true])
          cases hexec
          rw [hsame]
          exact ⟨rfl, rfl⟩
      | true =>
          have hsame : r.sched.setSwc swc (fun c => fetchOf c true) =
              r.sched.setSwc swc ContextScheduler.fetchedOne :=
            ContextScheduler.setSwc_congr
              (by rw [fetchOf, hpending, if_neg Bool.false_ne_true, if_pos rfl])
          cases hexec
          rw [hsame]
          exact ⟨rfl, rfl⟩

theorem exec_commit (h : r.Ok maxNumSwcs) {ainst : AsimInst} {rest : List AsimInst}
    (hhead : r.inFlight swc = ainst :: rest)
    (hexec : r.exec maxNumSwcs intervalTimer (.commit swc 0) = .ok r') :
    r'.inFlight = Function.update r.inFlight swc rest ∧
      ContextScheduler.Moved r.sched r'.sched ∧
      (ainst.asimSchedulerContextSwitch = true →
        (r'.sched.swcs swc).contextSwitchState ≠ .sent) ∧
      (ainst.asimSchedulerContextSwitch = false → r'.sched = r.sched) := by
  unfold SwitchRun.exec at hexec
  dsimp only at hexec
  rw [hhead] at hexec
  dsimp only [List.getElem?_cons_zero, List.eraseIdx_cons_zero] at hexec
  cases hcs : ainst.asimSchedulerContextSwitch with
  | true =>
      obtain ⟨t, hcommit, -, -, hmoved, hnone⟩ := h.inStep.commitSwitch swc
      rw [hcs, if_pos rfl, hcommit] at hexec
      cases hexec
      refine ⟨rfl, hmoved, ?_, nofun⟩
      intro _ hsent
      have hstate := hnone (hmoved.sent hsent).1
      rw [hsent] at hstate
      cases hstate
  | false =>
      rw [hcs, if_neg Bool.false_ne_true] at hexec
      cases hexec
      exact ⟨rfl, ContextScheduler.Moved.refl _, nofun, fun _ => rfl⟩

theorem Step.of_inOrder (h : InOrderStep maxNumSwcs intervalTimer r r') :
    Step maxNumSwcs intervalTimer r r' := by
  obtain ⟨e, -, hallowed, hexec⟩ := h
  exact ⟨e, hallowed, hexec⟩

theorem InOrderStep.of_alone (h : AloneStep maxNumSwcs intervalTimer r r') :
    InOrderStep maxNumSwcs intervalTimer r r' := by
  obtain ⟨e, -, hinOrder, hallowed, hexec⟩ := h
  exact ⟨e, hinOrder, hallowed, hexec⟩

theorem Ok.step (h : r.Ok maxNumSwcs) (hstep : Step maxNumSwcs intervalTimer r r') :
    r'.Ok maxNumSwcs := by
  obtain ⟨e, hallowed, hexec⟩ := hstep
  obtain hassert | ⟨r'', hexec', hok'⟩ := h.exec intervalTimer hallowed
  · rw [hexec] at hassert
    cases hassert
  · rw [hexec] at hexec'
    cases hexec'
    exact hok'

/-! ### Switches that are alone -/

/-- What is in flight of those that have sent a switch is sorted. -/
structure Timely (maxNumSwcs : Nat) (r : SwitchRun) : Prop where
  ok : r.Ok maxNumSwcs
  sorted : ∀ swc, (r.sched.swcs swc).contextSwitchState = .sent →
    Sorted (r.sched.swcs swc).requests (r.inFlight swc)

theorem sorted_of_moved
    (h : ∀ swc, (r.sched.swcs swc).contextSwitchState = .sent →
      Sorted (r.sched.swcs swc).requests (r.inFlight swc))
    (hmoved : ContextScheduler.Moved r.sched r'.sched)
    (hsent : (r'.sched.swcs swc).contextSwitchState = .sent)
    (hsame : r'.inFlight swc = r.inFlight swc) :
    Sorted (r'.sched.swcs swc).requests (r'.inFlight swc) := by
  obtain ⟨hsent', hrequests⟩ := hmoved.sent hsent
  rw [hsame, hrequests]
  exact h swc hsent'

/-- **Every step keeps them sorted, when each switch is alone.** -/
theorem Timely.step (h : r.Timely maxNumSwcs) (hstep : AloneStep maxNumSwcs intervalTimer r r') :
    r'.Timely maxNumSwcs := by
  refine ⟨h.ok.step (.of_inOrder (.of_alone hstep)), ?_⟩
  obtain ⟨e, halone, hinOrder, hallowed, hexec⟩ := hstep
  intro swc' hsent
  cases e with
  | startThread swc =>
      obtain ⟨hinFlight, hsame⟩ := exec_startThread h.ok hallowed hexec
      exact sorted_of_moved h.sorted (.of_unmapped hsame) hsent (by rw [hinFlight])
  | clock cycle =>
      obtain ⟨hinFlight, hmoved⟩ := exec_clock h.ok hexec
      exact sorted_of_moved h.sorted hmoved hsent (by rw [hinFlight])
  | fetch hwc success =>
      obtain ⟨swc, hrunning⟩ := Option.ne_none_iff_exists'.mp hallowed
      obtain ⟨hsched, hinFlight⟩ := exec_fetch h.ok hrunning hexec
      rw [hsched] at hsent ⊢
      rw [hinFlight]
      by_cases hne : swc' = swc
      · subst hne
        rw [ContextScheduler.setSwc_self] at hsent ⊢
        rw [Function.update_self]
        have hc := h.ok.inStep.inStep swc'
        cases hpending : (r.sched.swcs swc').deschedulePending with
        | true =>
            have hfetched : r.fetched swc' = ⟨true, (r.sched.swcs swc').requests⟩ := by
              unfold fetched
              rw [hc.switching_iff.mpr hpending]
            have hrequests : (fetchOf (r.sched.swcs swc') success).requests =
                (r.sched.swcs swc').requests := by
              unfold fetchOf
              rw [hpending]
              rfl
            rw [hfetched, hrequests]
            obtain hasked | hsent' := hc.pending hpending
            · exact ⟨r.inFlight swc', [⟨true, (r.sched.swcs swc').requests⟩], rfl,
                halone swc' hrunning hasked, fun ainst hin => List.mem_singleton.mp hin⟩
            · exact (h.sorted swc' hsent').append
        | false =>
            unfold fetchOf at hsent
            rw [hpending, if_neg Bool.false_ne_true] at hsent
            have hidle := hc.idle hpending
            cases success with
            | true =>
                change (r.sched.swcs swc').contextSwitchState = .sent at hsent
                rw [hidle] at hsent
                cases hsent
            | false => cases hsent
      · rw [ContextScheduler.setSwc_of_ne hne] at hsent ⊢
        rw [Function.update_of_ne hne]
        exact h.sorted swc' hsent
  | commit swc k =>
      obtain rfl : k = 0 := hinOrder
      obtain ⟨ainst, rest, hhead⟩ := List.exists_cons_of_length_pos hallowed
      obtain ⟨hinFlight, hmoved, hswitch, -⟩ := exec_commit h.ok hhead hexec
      by_cases hne : swc' = swc
      · subst hne
        obtain ⟨hsent', hrequests⟩ := hmoved.sent hsent
        rw [hinFlight, Function.update_self, hrequests]
        have hsorted := h.sorted swc' hsent'
        rw [hhead] at hsorted
        obtain ⟨-, hrest⟩ | hall := hsorted.tail
        · exact hrest
        · have hcs : ainst.asimSchedulerContextSwitch = true := by
            rw [hall ainst List.mem_cons_self]
          exact absurd hsent (hswitch hcs)
      · refine sorted_of_moved h.sorted hmoved hsent ?_
        rw [hinFlight, Function.update_of_ne hne]
  | kill swc n =>
      cases hexec
      by_cases hne : swc' = swc
      · subst hne
        dsimp only
        rw [Function.update_self]
        exact (h.sorted swc' hsent).take
      · dsimp only
        rw [Function.update_of_ne hne]
        exact h.sorted swc' hsent

theorem Timely.drained (h : r.Timely maxNumSwcs) {ainst : AsimInst}
    (hcompletes : r.Completes swc ainst) : r.Drained swc ainst := by
  obtain ⟨hhead, hcs, hsent, -⟩ := hcompletes
  obtain ⟨rest, hinFlight⟩ : ∃ rest, r.inFlight swc = ainst :: rest := by
    cases hlist : r.inFlight swc with
    | nil => rw [hlist] at hhead; cases hhead
    | cons first rest =>
        rw [hlist] at hhead
        cases hhead
        exact ⟨rest, rfl⟩
  have hsorted := h.sorted swc hsent
  rw [hinFlight] at hsorted
  obtain ⟨hordinary, -⟩ | hall := hsorted.tail
  · rw [hcs] at hordinary
    cases hordinary
  · refine ⟨?_, ?_⟩
    · rw [hall ainst List.mem_cons_self]
    · intro other hin hordinary
      rw [hinFlight] at hin
      rw [hall other hin] at hordinary
      cases hordinary

/-! ### Switches that are not -/

/-- Nothing in flight was fetched for a request that is still to come. -/
structure Numbered (maxNumSwcs : Nat) (r : SwitchRun) : Prop where
  ok : r.Ok maxNumSwcs
  le : ∀ swc, ∀ ainst ∈ r.inFlight swc, ainst.request ≤ (r.sched.swcs swc).requests
  lt : ∀ swc, (r.sched.swcs swc).contextSwitchState = .requested →
    ∀ ainst ∈ r.inFlight swc, ainst.request < (r.sched.swcs swc).requests

/-- What a fetch does to the number of requests. -/
theorem fetchOf_requests {c : SwContext} (hc : c.InStep) (success : Bool) :
    (fetchOf c success).requests = c.requests ∧
        (fetchOf c success).contextSwitchState ≠ .requested ∨
      c.requests < (fetchOf c success).requests := by
  unfold fetchOf
  cases hpending : c.deschedulePending with
  | true =>
      rw [if_pos rfl]
      exact Or.inl ⟨rfl, nofun⟩
  | false =>
      rw [if_neg Bool.false_ne_true]
      have hfetched : (ContextScheduler.fetchedOne c).requests = c.requests := by
        unfold SwContext.requests ContextScheduler.fetchedOne
        simp
      cases success with
      | true =>
          rw [if_pos rfl]
          refine Or.inl ⟨hfetched, ?_⟩
          change c.contextSwitchState ≠ .requested
          rw [hc.idle hpending]
          exact nofun
      | false =>
          rw [if_neg Bool.false_ne_true]
          refine Or.inr ?_
          have hasked : (ContextScheduler.ended (ContextScheduler.fetchedOne c)).requests =
              (ContextScheduler.fetchedOne c).requests + 1 := List.count_cons_self
          rw [hasked, hfetched]
          exact Nat.lt_succ_self _

theorem Numbered.of_moved (h : r.Numbered maxNumSwcs) (hok : r'.Ok maxNumSwcs)
    (hmoved : ContextScheduler.Moved r.sched r'.sched)
    (hinFlight : ∀ swc, (r'.inFlight swc).Sublist (r.inFlight swc)) : r'.Numbered maxNumSwcs where
  ok := hok
  le := by
    intro swc ainst hin
    have hle := h.le swc ainst ((hinFlight swc).subset hin)
    obtain ⟨hrequests, -⟩ | ⟨hmore, -⟩ := hmoved swc
    · rwa [hrequests]
    · exact hle.trans hmore.le
  lt := by
    intro swc hrequested ainst hin
    have hin' := (hinFlight swc).subset hin
    obtain ⟨hrequests, hsame | hnone⟩ | ⟨hmore, -⟩ := hmoved swc
    · rw [hrequests]
      exact h.lt swc (hsame ▸ hrequested) ainst hin'
    · rw [hrequested] at hnone
      cases hnone
    · exact (h.le swc ainst hin').trans_lt hmore

theorem Numbered.step (h : r.Numbered maxNumSwcs)
    (hstep : InOrderStep maxNumSwcs intervalTimer r r') : r'.Numbered maxNumSwcs := by
  have hok := h.ok.step (.of_inOrder hstep)
  obtain ⟨e, hinOrder, hallowed, hexec⟩ := hstep
  cases e with
  | startThread swc =>
      obtain ⟨hinFlight, hsame⟩ := exec_startThread h.ok hallowed hexec
      exact h.of_moved hok (.of_unmapped hsame) fun swc => by rw [hinFlight]
  | clock cycle =>
      obtain ⟨hinFlight, hmoved⟩ := exec_clock h.ok hexec
      exact h.of_moved hok hmoved fun swc => by rw [hinFlight]
  | fetch hwc success =>
      obtain ⟨swc, hrunning⟩ := Option.ne_none_iff_exists'.mp hallowed
      obtain ⟨hsched, hinFlight⟩ := exec_fetch h.ok hrunning hexec
      have hle : ∀ ainst ∈ r.inFlight swc ++ [r.fetched swc],
          ainst.request ≤ (r.sched.swcs swc).requests := by
        intro ainst hin
        obtain hin | hin := List.mem_append.mp hin
        · exact h.le swc ainst hin
        · rw [List.mem_singleton.mp hin]
          exact le_refl _
      have hrequests := fetchOf_requests (h.ok.inStep.inStep swc) success
      refine ⟨hok, ?_, ?_⟩
      · intro swc' ainst hin
        rw [hinFlight] at hin
        rw [hsched]
        by_cases hne : swc' = swc
        · subst hne
          rw [Function.update_self] at hin
          rw [ContextScheduler.setSwc_self]
          obtain ⟨hsame, -⟩ | hmore := hrequests
          · rw [hsame]
            exact hle ainst hin
          · exact (hle ainst hin).trans hmore.le
        · rw [Function.update_of_ne hne] at hin
          rw [ContextScheduler.setSwc_of_ne hne]
          exact h.le swc' ainst hin
      · intro swc' hrequested ainst hin
        rw [hinFlight] at hin
        rw [hsched] at hrequested ⊢
        by_cases hne : swc' = swc
        · subst hne
          rw [Function.update_self] at hin
          rw [ContextScheduler.setSwc_self] at hrequested ⊢
          obtain ⟨-, hnot⟩ | hmore := hrequests
          · exact absurd hrequested hnot
          · exact (hle ainst hin).trans_lt hmore
        · rw [Function.update_of_ne hne] at hin
          rw [ContextScheduler.setSwc_of_ne hne] at hrequested ⊢
          exact h.lt swc' hrequested ainst hin
  | commit swc k =>
      obtain rfl : k = 0 := hinOrder
      obtain ⟨ainst, rest, hhead⟩ := List.exists_cons_of_length_pos hallowed
      obtain ⟨hinFlight, hmoved, -, -⟩ := exec_commit h.ok hhead hexec
      refine h.of_moved hok hmoved fun swc' => ?_
      rw [hinFlight]
      by_cases hne : swc' = swc
      · rw [hne, Function.update_self, hhead]
        exact List.sublist_cons_self ainst rest
      · rw [Function.update_of_ne hne]
  | kill swc n =>
      cases hexec
      refine h.of_moved hok (ContextScheduler.Moved.refl _) fun swc' => ?_
      dsimp only
      by_cases hne : swc' = swc
      · rw [hne, Function.update_self]
        exact List.take_sublist n _
      · rw [Function.update_of_ne hne]

theorem Start.numbered (h : r.Start) : r.Numbered maxNumSwcs where
  ok := h.ok
  le := by
    intro swc ainst hin
    rw [h.2.2 swc] at hin
    cases hin
  lt := by
    intro swc _ ainst hin
    rw [h.2.2 swc] at hin
    cases hin

theorem numbered_of_reaches (h : Reaches Start (InOrderStep maxNumSwcs intervalTimer) r) :
    r.Numbered maxNumSwcs :=
  h.invariant (fun _ hstart => hstart.numbered) fun _ _ hnumbered hstep => hnumbered.step hstep

/-- Ordinary instructions commit until an old context switch instruction is the oldest. -/
theorem reaches_oldest {before after : List AsimInst} {old : AsimInst}
    (h : Reaches Start (InOrderStep maxNumSwcs intervalTimer) r)
    (hinFlight : r.inFlight swc = before ++ old :: after)
    (hbefore : ∀ ainst ∈ before, ainst.asimSchedulerContextSwitch = false)
    (hold : old.asimSchedulerContextSwitch = true)
    (hrequest : old.request < (r.sched.swcs swc).requests)
    (hsent : (r.sched.swcs swc).contextSwitchState = .sent) :
    ∃ r', Reaches (· = r) (InOrderStep maxNumSwcs intervalTimer) r' ∧
      ∃ ainst, r'.Completes swc ainst ∧ ¬ r'.Drained swc ainst := by
  induction before generalizing r with
  | nil =>
      have hok := (numbered_of_reaches h).ok
      refine ⟨r, .start rfl, old,
        ⟨by rw [hinFlight]; rfl, hold, hsent, (hok.inStep.inStep swc).csDone⟩, ?_⟩
      rintro ⟨hsame, -⟩
      exact hrequest.ne hsame
  | cons first before ih =>
      have hok := (numbered_of_reaches h).ok
      have hlength : 0 < (r.inFlight swc).length := by
        rw [hinFlight]
        exact Nat.zero_lt_succ _
      have hordinary := hbefore first List.mem_cons_self
      have hexec : r.exec maxNumSwcs intervalTimer (.commit swc 0) = .ok { r with
          inFlight := Function.update r.inFlight swc (before ++ old :: after) } := by
        unfold SwitchRun.exec
        dsimp only
        rw [hinFlight]
        dsimp only [List.cons_append, List.getElem?_cons_zero, List.eraseIdx_cons_zero]
        rw [hordinary]
        rfl
      have hcommit : InOrderStep maxNumSwcs intervalTimer r { r with
          inFlight := Function.update r.inFlight swc (before ++ old :: after) } :=
        ⟨.commit swc 0, rfl, hlength, hexec⟩
      obtain ⟨r', hgoes, hbad⟩ := ih (h.step hcommit) (Function.update_self ..)
        (fun ainst hin => hbefore ainst (List.mem_cons_of_mem first hin)) hrequest hsent
      have hfrom : Reaches (· = r) (InOrderStep maxNumSwcs intervalTimer) r := .start rfl
      exact ⟨r', (hfrom.step hcommit).trans hgoes, hbad⟩

/-- **After a switch that is not alone, one may complete with ordinary instructions in
flight.** -/
theorem not_drained_of_not_alone (h : Reaches Start (InOrderStep maxNumSwcs intervalTimer) r)
    {e : SwitchEvent} (hallowed : r.Allowed maxNumSwcs e) (halone : ¬ r.Alone e)
    (hexec : r.exec maxNumSwcs intervalTimer e = .ok r') :
    ∃ r'', Reaches (· = r') (InOrderStep maxNumSwcs intervalTimer) r'' ∧
      ∃ swc ainst, r''.Completes swc ainst ∧ ¬ r''.Drained swc ainst := by
  have hnumbered := numbered_of_reaches h
  cases e with
  | fetch hwc success =>
      unfold Alone at halone
      push Not at halone
      obtain ⟨swc, hrunning, hrequested, switch, hin, hswitch⟩ := halone
      have hc := hnumbered.ok.inStep.inStep swc
      have hpending : (r.sched.swcs swc).deschedulePending = true := by
        apply hc.switching_iff.mp
        unfold SwContext.switching
        simp [hrequested]
      obtain ⟨hsched, hinFlight⟩ := exec_fetch hnumbered.ok hrunning hexec
      have hreach := h.step ⟨.fetch hwc success, trivial, hallowed, hexec⟩
      have hself : r'.sched.swcs swc =
          { r.sched.swcs swc with contextSwitchState := .sent } := by
        rw [hsched, ContextScheduler.setSwc_self, fetchOf, if_pos hpending]
      have hfind : ((r.inFlight swc).find? AsimInst.asimSchedulerContextSwitch).isSome := by
        rw [List.find?_isSome]
        exact ⟨switch, hin, by simpa using hswitch⟩
      obtain ⟨old, hfind⟩ := Option.isSome_iff_exists.mp hfind
      obtain ⟨hold, before, after, hsplit, hbefore⟩ := List.find?_eq_some_iff_append.mp hfind
      have hrequest : old.request < (r'.sched.swcs swc).requests := by
        rw [hself]
        refine hnumbered.lt swc hrequested old ?_
        rw [hsplit]
        exact List.mem_append_right before List.mem_cons_self
      have hinFlight' : r'.inFlight swc = before ++ old :: (after ++ [r.fetched swc]) := by
        rw [hinFlight, Function.update_self, hsplit, List.append_assoc, List.cons_append]
      obtain ⟨r'', hgoes, ainst, hcompletes, hnot⟩ := reaches_oldest hreach hinFlight'
        (fun ainst hin => by simpa using hbefore ainst hin) hold hrequest (by rw [hself])
      exact ⟨r'', hgoes, swc, ainst, hcompletes, hnot⟩
  | startThread swc => exact absurd trivial halone
  | clock cycle => exact absurd trivial halone
  | commit swc k => exact absurd trivial halone
  | kill swc n => exact absurd trivial halone

theorem timely_of_reaches (h : Reaches Start (AloneStep maxNumSwcs intervalTimer) r) :
    r.Timely maxNumSwcs := by
  refine h.invariant ?_ fun _ _ htimely hstep => htimely.step hstep
  intro r hstart
  refine ⟨hstart.ok, ?_⟩
  intro swc hsent
  rw [hstart.1.swcs swc] at hsent
  cases hsent

/--
**A context switch completes on a drained context when switches are alone, and only then.**

In a run in which the first instruction of every switch is fetched when no context switch
instruction of an earlier one is in flight, a switch is completed by an instruction that
was fetched for it, and no ordinary instruction from before it is in flight.  A run that has
fetched one that is not alone can go on so that a switch is completed otherwise.
-/
theorem drained_iff_alone :
    (∀ r, Reaches Start (AloneStep maxNumSwcs intervalTimer) r →
        ∀ swc ainst, r.Completes swc ainst → r.Drained swc ainst) ∧
      ∀ r e r', Reaches Start (InOrderStep maxNumSwcs intervalTimer) r →
        r.Allowed maxNumSwcs e → ¬ r.Alone e → r.exec maxNumSwcs intervalTimer e = .ok r' →
        ∃ r'', Reaches (· = r') (InOrderStep maxNumSwcs intervalTimer) r'' ∧
          ∃ swc ainst, r''.Completes swc ainst ∧ ¬ r''.Drained swc ainst :=
  ⟨fun _ h _ _ hcompletes => (timely_of_reaches h).drained hcompletes,
    fun _ _ _ h hallowed halone hexec => not_drained_of_not_alone h hallowed halone hexec⟩

/-- A second context switch instruction is left over when the context runs again. -/
def leftover : List SwitchEvent :=
  [.startThread 0, .clock 100, .fetch 0 true, .fetch 0 true, .commit 0 0, .fetch 0 true,
    .clock 200, .fetch 0 true]

theorem not_always_drained :
    ¬ ∀ r, Reaches Start (InOrderStep 128 100) r →
      ∀ swc ainst, r.Completes swc ainst → r.Drained swc ainst := by
  intro hall
  have hrun : (after (fun r e => (SwitchRun.exec 128 100 r e).toOption)
      (fun r e => decide (r.Allowed 128 e ∧ InOrder e)) leftover oneIdle).map
      (fun r => (r.inFlight 0, (r.sched.swcs 0).contextSwitchState, (r.sched.swcs 0).csDone,
        (r.sched.swcs 0).requests)) =
      some ([⟨true, 1⟩, ⟨false, 1⟩, ⟨true, 2⟩], .sent, false, 2) := by decide +kernel
  obtain ⟨r, hr, hstate⟩ := Option.map_eq_some_iff.mp hrun
  simp only [Prod.mk.injEq] at hstate
  obtain ⟨hinFlight, hsent, hdone, hrequests⟩ := hstate
  have hreach : Reaches Start (InOrderStep 128 100) r := by
    refine Reaches.after ?_ (Reaches.start start_oneIdle) hr
    intro s e t hok hexec
    obtain ⟨hallowed, hinOrder⟩ := of_decide_eq_true hok
    exact ⟨e, hinOrder, hallowed, eq_ok_of_toOption hexec⟩
  obtain ⟨hsame, -⟩ := hall r hreach 0 ⟨true, 1⟩ ⟨by rw [hinFlight]; rfl, rfl, hsent, hdone⟩
  rw [hrequests] at hsame
  cases hsame

end SwitchRun

end AsimFeeder.Sched
