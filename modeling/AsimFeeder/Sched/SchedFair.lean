/-
No software context that waits is starved.

While a software context is in the list, runnable and not mapped, every search for one to
run finds one, since it is there to be found.  Each search starts past the slot of the one
that was picked last, so it comes nearer to the slot of the one that waits, and none that
was picked is met again before it.
-/
import AsimFeeder.Sched.SchedRuns

namespace AsimFeeder.Sched

open Lib

namespace ContextScheduler

variable {maxNumSwcs : Nat} {s t : ContextScheduler} {swc hwc i : Nat}

/-! ### What is picked -/

section Picks

variable (maxNumSwcs) (s)

/-- What `PickSoftwareContext` returns where `TryRunningSoftwareContext` calls it. -/
def picksOfTry : List (Option Nat) :=
  match s.findFreeHardwareContext with
  | none => []
  | some _ => [(s.pickSoftwareContext maxNumSwcs).1]

def picksOfStart (swc : Nat) : List (Option Nat) :=
  let s := s.setSwc swc fun _ => .new
  match s.firstSlot maxNumSwcs none with
  | some i => { s with swContextList := Function.update s.swContextList i (some swc) }.picksOfTry
      maxNumSwcs
  | none => []

/-- The scheduler when `swc` is off its hardware context, and not yet another one on it. -/
def switchedOff (swc : Nat) : Except String ContextScheduler :=
  let s := s.setSwc swc .descheduled
  if (s.swcs swc).deletePending then s.removeSoftwareContext maxNumSwcs swc else .ok s

def picksOfSwitch (swc : Nat) : List (Option Nat) :=
  match s.switchedOff maxNumSwcs swc with
  | .ok s => [(s.pickSoftwareContext maxNumSwcs).1]
  | .error _ => []

end Picks

/-- The end of a switch is to switch one off and pick another one. -/
theorem contextSwitchCompleted_eq (hmapped : (s.swcs swc).mappedToHWC = true)
    (hpending : (s.swcs swc).deschedulePending = true) (hhwc : (s.swcs swc).hwc = some hwc) :
    s.contextSwitchCompleted maxNumSwcs swc =
      (s.switchedOff maxNumSwcs swc).bind fun t => t.reschedule maxNumSwcs hwc := by
  unfold contextSwitchCompleted switchedOff
  rw [hmapped, hpending, hhwc, if_neg (by decide), if_neg (by decide)]
  dsimp only
  split
  · rfl
  · rfl

/-- **What is picked is no farther than what waits.** -/
theorem pick_near (hpending : ∀ swc, (s.swcs swc).deschedulePending = true →
      (s.swcs swc).mappedToHWC = true)
    (hnext : s.nextSWCToTry < maxNumSwcs) (hi : i < maxNumSwcs) (hactive : s.active i = true) :
    ∃ p < maxNumSwcs, ∃ picked, s.swContextList p = some picked ∧ s.active p = true ∧
      gap maxNumSwcs p i ≤ gap maxNumSwcs s.nextSWCToTry i ∧
      s.pickSoftwareContext maxNumSwcs =
        (some picked, { s with nextSWCToTry := (p + 1) % maxNumSwcs }) := by
  obtain ⟨hlt, hnear⟩ := searchFrom_near hnext hi hactive
  have hfind := findActive_some hpending hlt
  have hhit := hit_searchFrom hlt
  obtain ⟨picked, hslot, -, -⟩ := active_iff.mp hhit
  refine ⟨_, hlt, picked, hslot, hhit, hnear, ?_⟩
  unfold pickSoftwareContext
  rw [hfind]
  dsimp only
  rw [if_neg hlt.ne]
  dsimp only
  rw [if_neg hlt.ne]
  dsimp only
  rw [if_neg hlt.ne, hslot]

/-- Nothing is picked for a new software context while one waits. -/
theorem picksOfStart_eq_nil (h : Ok maxNumSwcs s) (hi : i < maxNumSwcs)
    (hactive : s.active i = true) (swc : Nat) : s.picksOfStart maxNumSwcs swc = [] := by
  have hbusy : ∀ hwc ∈ s.hwContextList, s.runningSWC hwc ≠ none := by
    intro hwc hin hfree
    have hidle := h.conserving hwc hin hfree i hi
    rw [hactive] at hidle
    cases hidle
  unfold picksOfStart
  dsimp only
  split
  · rename_i j hj
    unfold picksOfTry
    split
    · rfl
    · rename_i hwc hfree
      have hfound := (findFree_spec (s := { s.setSwc swc (fun _ => .new) with
        swContextList := Function.update s.swContextList j (some swc) }) h.priority).1 hwc hfree
      exact absurd hfound.2 (hbusy hwc hfound.1)
  · rfl

/-! ### Where software contexts are -/

/-- The list and the place to try next are the same. -/
def SameList (s t : ContextScheduler) : Prop :=
  t.swContextList = s.swContextList ∧ t.nextSWCToTry = s.nextSWCToTry

theorem SameList.trans {u : ContextScheduler} (h : SameList s t) (h' : SameList t u) :
    SameList s u :=
  ⟨h'.1.trans h.1, h'.2.trans h.2⟩

theorem sameList_setSwc (s : ContextScheduler) (swc : Nat) (f : SwContext → SwContext) :
    SameList s (s.setSwc swc f) :=
  ⟨rfl, rfl⟩

theorem sameList_startDeschedule (h : s.startDeschedule swc = .ok t) : SameList s t := by
  unfold startDeschedule at h
  dsimp only at h
  split at h
  · split at h
    · cases h
      exact ⟨rfl, rfl⟩
    · cases h
      exact ⟨rfl, rfl⟩
  · cases h

theorem sameList_softwareContextPaused (h : s.softwareContextPaused swc = .ok t) :
    SameList s t := by
  unfold softwareContextPaused at h
  exact (sameList_setSwc s swc _).trans (sameList_startDeschedule h)

theorem sameList_softwareContextExited (hmapped : (s.swcs swc).mappedToHWC = true)
    (h : s.softwareContextExited maxNumSwcs swc = .ok t) : SameList s t := by
  unfold softwareContextExited at h
  dsimp only at h
  rw [setSwc_self, if_neg (by simp [hmapped])] at h
  exact ((sameList_setSwc s swc _).trans (sameList_setSwc _ swc _)).trans
    (sameList_startDeschedule h)

/-- A context is taken out of its slot. -/
theorem removeSoftwareContext_slots (h : s.removeSoftwareContext maxNumSwcs swc = .ok t) :
    t.nextSWCToTry = s.nextSWCToTry ∧ t.swcs = s.swcs ∧
      (∀ p swc', t.swContextList p = some swc' → s.swContextList p = some swc') ∧
      ∀ p swc', swc' ≠ swc → s.swContextList p = some swc' → t.swContextList p = some swc' := by
  unfold removeSoftwareContext at h
  split at h
  · rename_i j hj
    cases h
    obtain ⟨-, hjslot⟩ := firstSlot_some hj
    refine ⟨rfl, rfl, fun p swc' hslot => ?_, fun p swc' hne hslot => ?_⟩
    · have hupdate : Function.update s.swContextList j none p = some swc' := hslot
      by_cases hp : p = j
      · rw [hp, Function.update_self] at hupdate
        cases hupdate
      · rwa [Function.update_of_ne hp] at hupdate
    · show Function.update s.swContextList j none p = some swc'
      have hp : p ≠ j := by
        intro heq
        rw [heq, hjslot] at hslot
        exact hne (Option.some.inj hslot).symm
      rw [Function.update_of_ne hp]
      exact hslot
  · cases h

/-- The exit of one that is not mapped takes it out of the list. -/
theorem softwareContextExited_slots (hunmapped : (s.swcs swc).mappedToHWC = false)
    (h : s.softwareContextExited maxNumSwcs swc = .ok t) :
    t.nextSWCToTry = s.nextSWCToTry ∧
      (∀ p swc', t.swContextList p = some swc' → s.swContextList p = some swc') ∧
      (∀ p swc', swc' ≠ swc → s.swContextList p = some swc' → t.swContextList p = some swc') ∧
      (t.swcs swc).runnable = false := by
  unfold softwareContextExited at h
  dsimp only at h
  rw [setSwc_self, if_pos hunmapped] at h
  obtain ⟨hnext, hswcs, hbefore, hafter⟩ := removeSoftwareContext_slots h
  refine ⟨hnext, hbefore, hafter, ?_⟩
  rw [hswcs, setSwc_self]

theorem sameList_startTimedWait {descheduleRequest : Bool}
    (h : s.startTimedWait swc descheduleRequest = .ok t) : SameList s t := by
  unfold startTimedWait at h
  split at h
  · exact (sameList_setSwc s swc _).trans (sameList_startDeschedule h)
  · cases h
    exact ⟨rfl, rfl⟩

theorem sameList_intervalTimer (h : s.intervalTimer hwc = .ok t) : SameList s t := by
  unfold intervalTimer at h
  split at h
  · cases h
  · split at h
    · cases h
      exact ⟨rfl, rfl⟩
    · refine SameList.trans (t := s.initiateContextSwitch _) ?_ (sameList_startDeschedule h)
      unfold initiateContextSwitch
      dsimp only
      split
      · exact ⟨rfl, rfl⟩
      · exact ⟨rfl, rfl⟩

theorem sameList_clockLoop {reschedule : Bool} {hwcs : List Nat}
    (h : clockLoop reschedule hwcs s = .ok t) : SameList s t := by
  induction hwcs generalizing s with
  | nil =>
      cases h
      exact ⟨rfl, rfl⟩
  | cons hwc hwcs ih =>
      unfold clockLoop at h
      split at h
      · cases htimer : s.intervalTimer hwc with
        | error message => rw [htimer] at h; cases h
        | ok u =>
            rw [htimer] at h
            exact (sameList_intervalTimer htimer).trans (ih h)
      · exact ih h

/-- A new software context is put into a slot, and waits. -/
theorem startThread_slots (hidle : s.picksOfStart maxNumSwcs swc = [])
    (h : s.startThread maxNumSwcs swc = .ok t) :
    t.nextSWCToTry = s.nextSWCToTry ∧
      (∀ p swc', t.swContextList p = some swc' → s.swContextList p = some swc' ∨ swc' = swc) ∧
      ∀ p swc', s.swContextList p = some swc' → t.swContextList p = some swc' := by
  unfold startThread addSoftwareContext at h
  unfold picksOfStart at hidle
  dsimp only at h hidle
  split at h
  · rename_i i hi
    rw [hi] at hidle
    dsimp only at hidle
    unfold tryRunningSoftwareContext at h
    unfold picksOfTry at hidle
    split at h
    · cases h
      obtain ⟨-, hifree⟩ := firstSlot_some hi
      refine ⟨rfl, fun p swc' hslot => ?_, fun p swc' hslot => ?_⟩
      · have hupdate : Function.update s.swContextList i (some swc) p = some swc' := hslot
        by_cases hp : p = i
        · rw [hp, Function.update_self] at hupdate
          exact .inr (Option.some.inj hupdate).symm
        · rw [Function.update_of_ne hp] at hupdate
          exact .inl hupdate
      · show Function.update s.swContextList i (some swc) p = some swc'
        have hp : p ≠ i := by
          intro heq
          have hfree : s.swContextList i = none := hifree
          rw [heq, hfree] at hslot
          cases hslot
        rw [Function.update_of_ne hp]
        exact hslot
    · rename_i hwc hfree
      rw [hfree] at hidle
      cases hidle
  · cases h

theorem runSoftwareContext_ok (h : s.runSoftwareContext swc hwc = .ok t) :
    SameList s t ∧ (t.swcs swc).mappedToHWC = true := by
  unfold runSoftwareContext at h
  split at h
  · cases h
  · split at h
    · cases h
    · split at h
      · cases h
      · cases h
        refine ⟨⟨rfl, rfl⟩, ?_⟩
        rw [setHwc_swcs, setSwc_self]
        rfl

/-- Switching one off takes at most that one out of the list. -/
theorem switchedOff_ok (h : s.switchedOff maxNumSwcs swc = .ok t) :
    t.nextSWCToTry = s.nextSWCToTry ∧ t.swcs = (s.setSwc swc .descheduled).swcs ∧
      (∀ p swc', t.swContextList p = some swc' → s.swContextList p = some swc') ∧
      ∀ p swc', swc' ≠ swc → s.swContextList p = some swc' → t.swContextList p = some swc' := by
  unfold switchedOff at h
  dsimp only at h
  split at h
  · exact removeSoftwareContext_slots h
  · cases h
    exact ⟨rfl, rfl, fun _ _ hslot => hslot, fun _ _ _ hslot => hslot⟩

end ContextScheduler

namespace SchedRun

section Picks

variable (maxNumSwcs : Nat) (intervalTimer : UInt64) (r : SchedRun)

/-- The software context is in the list, runnable and not mapped. -/
def waits (swc : Nat) : Bool :=
  (List.range maxNumSwcs).any fun i =>
    decide (r.sched.swContextList i = some swc) && r.sched.active i

/-- What `PickSoftwareContext` returns when it is called in a call. -/
def picks : SchedEvent → List (Option Nat)
  | .startThread swc => r.sched.picksOfStart maxNumSwcs swc
  | .contextSwitchCompleted swc => r.sched.picksOfSwitch maxNumSwcs swc
  | _ => []

/-- What is picked in a run of calls, all of which are made while `swc` waits. -/
def picksDuring (swc : Nat) : List SchedEvent → SchedRun → Option (List (Option Nat))
  | [], _ => some []
  | e :: es, r =>
      if r.waits maxNumSwcs swc ∧ r.Allowed maxNumSwcs e then
        match r.exec maxNumSwcs intervalTimer e with
        | .ok r' => (picksDuring swc es r').map (r.picks maxNumSwcs e ++ ·)
        | .error _ => none
      else none

end Picks

variable {maxNumSwcs : Nat} {intervalTimer : UInt64} {r r' : SchedRun} {swc i x : Nat}
  {old : List Nat} {e : SchedEvent}

/-- While `swc` waits in slot `i`, what was picked is behind: in a slot that is farther than
the one to try next. -/
structure Watched (maxNumSwcs swc i : Nat) (old : List Nat) (r : SchedRun) : Prop where
  ok : r.Ok maxNumSwcs
  lt : i < maxNumSwcs
  slot : r.sched.swContextList i = some swc
  near : old.length + gap maxNumSwcs r.sched.nextSWCToTry i < maxNumSwcs
  behind : ∀ x ∈ old, ∀ p < maxNumSwcs, r.sched.swContextList p = some x →
    gap maxNumSwcs r.sched.nextSWCToTry i < gap maxNumSwcs p i
  added : ∀ x ∈ old, x ∈ r.added
  nodup : old.Nodup
  other : swc ∉ old

theorem waits_iff : r.waits maxNumSwcs swc = true ↔
    ∃ i < maxNumSwcs, r.sched.swContextList i = some swc ∧ r.sched.active i = true := by
  unfold waits
  simp only [List.any_eq_true, List.mem_range, Bool.and_eq_true, decide_eq_true_eq]

theorem Watched.active (h : r.Watched maxNumSwcs swc i old)
    (hwaits : r.waits maxNumSwcs swc = true) :
    r.sched.active i = true := by
  obtain ⟨j, hj, hslot, hactive⟩ := waits_iff.mp hwaits
  rwa [h.ok.sched.linked.slot i h.lt j hj swc h.slot hslot]

/-- A call that picks nothing. -/
theorem Watched.quiet (h : r.Watched maxNumSwcs swc i old) (hok : r'.Ok maxNumSwcs)
    (hslot : r'.sched.swContextList i = some swc)
    (hnext : r'.sched.nextSWCToTry = r.sched.nextSWCToTry)
    (hslots : ∀ p x, r'.sched.swContextList p = some x →
      r.sched.swContextList p = some x ∨ x ∉ r.added)
    (hadded : ∀ x ∈ r.added, x ∈ r'.added) : r'.Watched maxNumSwcs swc i old where
  ok := hok
  lt := h.lt
  slot := hslot
  near := by
    rw [hnext]
    exact h.near
  behind := by
    intro x hx p hp hslot
    rw [hnext]
    rcases hslots p x hslot with hbefore | hnew
    · exact h.behind x hx p hp hbefore
    · exact absurd (h.added x hx) hnew
  added := fun x hx => hadded x (h.added x hx)
  nodup := h.nodup
  other := h.other

/-- **A call that picks another one** comes nearer. -/
theorem Watched.picked (h : r.Watched maxNumSwcs swc i old) (hok : r'.Ok maxNumSwcs)
    (hslot : r'.sched.swContextList i = some swc) {p : Nat} (hp : p < maxNumSwcs)
    (hpicked : r.sched.swContextList p = some x) (hne : x ≠ swc)
    (hnear : gap maxNumSwcs p i ≤ gap maxNumSwcs r.sched.nextSWCToTry i)
    (hnext : r'.sched.nextSWCToTry = (p + 1) % maxNumSwcs)
    (hslots : ∀ q y, r'.sched.swContextList q = some y → r.sched.swContextList q = some y)
    (hadded : r'.added = r.added) : r'.Watched maxNumSwcs swc i (old ++ [x]) := by
  have hpi : p ≠ i := by
    intro heq
    rw [heq, h.slot] at hpicked
    exact hne (Option.some.inj hpicked).symm
  have hgap := gap_succ hp h.lt hpi
  have hgone : x ∉ old := by
    intro hx
    have hbehind := h.behind x hx p hp hpicked
    omega
  refine ⟨hok, h.lt, hslot, ?_, fun y hy q hq hyslot => ?_, fun y hy => ?_, ?_, ?_⟩
  · have hbefore := h.near
    rw [hnext, List.length_append, List.length_singleton]
    omega
  · rw [hnext]
    have hbefore := hslots q y hyslot
    rcases List.mem_append.mp hy with hy | hy
    · have hbehind := h.behind y hy q hq hbefore
      omega
    · rw [List.mem_singleton.mp hy] at hbefore
      rw [h.ok.sched.linked.slot q hq p hp x hbefore hpicked]
      omega
  · rw [hadded]
    rcases List.mem_append.mp hy with hy | hy
    · exact h.added y hy
    · by_contra hnew
      rw [List.mem_singleton.mp hy] at hnew
      exact (h.ok.fresh x hnew).2 p hp hpicked
  · rw [List.nodup_append]
    refine ⟨h.nodup, List.nodup_singleton x, fun y hy z hz heq => ?_⟩
    rw [List.mem_singleton.mp hz] at heq
    exact hgone (heq ▸ hy)
  · rw [List.mem_append, not_or]
    exact ⟨h.other, fun hx => hne (List.mem_singleton.mp hx).symm⟩

/-- What a call does while `swc` waits; the one that waits may exit. -/
inductive Waited (maxNumSwcs swc i : Nat) (old : List Nat) (r' : SchedRun) :
    List (Option Nat) → Prop
  | quiet (h : r'.Watched maxNumSwcs swc i old) : Waited maxNumSwcs swc i old r' []
  | other {x : Nat} (h : r'.Watched maxNumSwcs swc i (old ++ [x])) :
      Waited maxNumSwcs swc i old r' [some x]
  | picked (h : (r'.sched.swcs swc).mappedToHWC = true) : Waited maxNumSwcs swc i old r' [some swc]
  | exited (h : r'.waits maxNumSwcs swc = false) : Waited maxNumSwcs swc i old r' []

/-- **The end of a switch** picks a software context. -/
theorem Watched.contextSwitchCompleted {off : Nat} (h : r.Watched maxNumSwcs swc i old)
    (hactive : r.sched.active i = true)
    (hpending : (r.sched.swcs off).deschedulePending = true)
    (hok : r'.Ok maxNumSwcs) (hadded : r'.added = r.added)
    (hexec : r.sched.contextSwitchCompleted maxNumSwcs off = .ok r'.sched) :
    Waited maxNumSwcs swc i old r' (r.sched.picksOfSwitch maxNumSwcs off) := by
  have hlinked := h.ok.sched.linked
  have hmapped := hlinked.pending off hpending
  obtain ⟨hwc, hhwc⟩ := hlinked.placed off hmapped
  rw [ContextScheduler.contextSwitchCompleted_eq hmapped hpending hhwc] at hexec
  unfold ContextScheduler.picksOfSwitch
  cases hoff : r.sched.switchedOff maxNumSwcs off with
  | error message =>
      rw [hoff] at hexec
      cases hexec
  | ok s =>
      rw [hoff] at hexec
      have hresched : s.reschedule maxNumSwcs hwc = .ok r'.sched := hexec
      obtain ⟨hnext, hswcs, hslots, hstays⟩ := ContextScheduler.switchedOff_ok hoff
      obtain ⟨w, hw, hrunnable, hunmapped⟩ := ContextScheduler.active_iff.mp hactive
      obtain rfl : w = swc := Option.some.inj (hw.symm.trans h.slot)
      have hne : w ≠ off := by
        intro heq
        rw [heq, hmapped] at hunmapped
        cases hunmapped
      have hwslot : s.swContextList i = some w := hstays i w hne h.slot
      have hwactive : s.active i = true := by
        refine ContextScheduler.active_iff.mpr ⟨w, hwslot, ?_, ?_⟩
        · rw [hswcs, ContextScheduler.setSwc_of_ne hne]
          exact hrunnable
        · rw [hswcs, ContextScheduler.setSwc_of_ne hne]
          exact hunmapped
      have hspending : ∀ y, (s.swcs y).deschedulePending = true →
        (s.swcs y).mappedToHWC = true := by
        intro y hy
        rw [hswcs] at hy ⊢
        by_cases hyoff : y = off
        · rw [hyoff, ContextScheduler.setSwc_self] at hy
          cases hy
        · rw [ContextScheduler.setSwc_of_ne hyoff] at hy ⊢
          exact hlinked.pending y hy
      have hlt : s.nextSWCToTry < maxNumSwcs := by
        rw [hnext]
        exact hlinked.next i h.lt
      obtain ⟨p, hp, x, hpslot, -, hnear, hpick⟩ :=
        ContextScheduler.pick_near hspending hlt h.lt hwactive
      unfold ContextScheduler.reschedule at hresched
      dsimp only
      rw [hpick] at hresched ⊢
      dsimp only at hresched ⊢
      obtain ⟨⟨hlist, hnext'⟩, hxmapped⟩ := ContextScheduler.runSoftwareContext_ok hresched
      dsimp only at hlist hnext'
      by_cases hx : x = w
      · rw [hx] at hxmapped ⊢
        exact .picked hxmapped
      · rw [hnext] at hnear
        refine .other (h.picked hok ?_ hp (hslots p x hpslot) hx hnear hnext' ?_ hadded)
        · rw [hlist]
          exact hwslot
        · intro q y hy
          rw [hlist] at hy
          exact hslots q y hy

/-- The software contexts that were added, with the one a call adds. -/
def addedBy (r : SchedRun) : SchedEvent → List Nat
  | .startThread swc => swc :: r.added
  | _ => r.added

theorem exec_sched (h : r.exec maxNumSwcs intervalTimer e = .ok r') :
    r.schedExec maxNumSwcs intervalTimer e = .ok r'.sched ∧ r'.added = r.addedBy e := by
  unfold exec at h
  cases hsched : r.schedExec maxNumSwcs intervalTimer e with
  | error message => rw [hsched] at h; cases h
  | ok sched =>
      rw [hsched] at h
      cases e with
      | startThread swc =>
          cases h
          exact ⟨rfl, rfl⟩
      | _ =>
          cases h
          exact ⟨rfl, rfl⟩

/-- A call that leaves the list as it is picks nothing. -/
theorem Watched.sameList (h : r.Watched maxNumSwcs swc i old) (hok : r'.Ok maxNumSwcs)
    (hadded : r'.added = r.added) (hsame : ContextScheduler.SameList r.sched r'.sched) :
    r'.Watched maxNumSwcs swc i old := by
  obtain ⟨hlist, hnext⟩ := hsame
  refine h.quiet hok ?_ hnext (fun p x hslot => .inl ?_) fun x hx => ?_
  · rw [hlist]
    exact h.slot
  · rwa [hlist] at hslot
  · rwa [hadded]

/-- **A call while `swc` waits** picks nothing, or another one and comes nearer, or `swc`. -/
theorem Watched.step (h : r.Watched maxNumSwcs swc i old)
    (hwaits : r.waits maxNumSwcs swc = true) (hallowed : r.Allowed maxNumSwcs e)
    (hexec : r.exec maxNumSwcs intervalTimer e = .ok r') :
    Waited maxNumSwcs swc i old r' (r.picks maxNumSwcs e) := by
  have hactive := h.active hwaits
  obtain ⟨r'', hexec', hok⟩ := h.ok.exec intervalTimer hallowed
  rw [hexec] at hexec'
  cases hexec'
  obtain ⟨hsched, hadded⟩ := exec_sched hexec
  cases e with
  | startThread new =>
      have hquiet := ContextScheduler.picksOfStart_eq_nil h.ok.sched h.lt hactive new
      obtain ⟨hnext, hslots, hstays⟩ := ContextScheduler.startThread_slots hquiet hsched
      have hpicks : r.picks maxNumSwcs (.startThread new) = [] := hquiet
      rw [hpicks]
      refine .quiet (h.quiet hok (hstays i swc h.slot) hnext (fun p x hslot => ?_) fun x hx => ?_)
      · rcases hslots p x hslot with hbefore | hnew
        · exact .inl hbefore
        · rw [hnew]
          exact .inr hallowed.1
      · rw [hadded]
        exact List.mem_cons_of_mem new hx
  | contextSwitchCompleted off =>
      exact h.contextSwitchCompleted hactive hallowed hok hadded hsched
  | clock cycle =>
      exact .quiet (h.sameList hok hadded (ContextScheduler.sameList_clockLoop hsched))
  | intervalTimer hwc =>
      exact .quiet (h.sameList hok hadded (ContextScheduler.sameList_intervalTimer hsched))
  | softwareContextPaused off =>
      exact .quiet (h.sameList hok hadded (ContextScheduler.sameList_softwareContextPaused hsched))
  | softwareContextExited off =>
      cases hmapped : (r.sched.swcs off).mappedToHWC with
      | true =>
          exact .quiet (h.sameList hok hadded
            (ContextScheduler.sameList_softwareContextExited hmapped hsched))
      | false =>
          obtain ⟨hnext, hslots, hstays, hoff⟩ :=
            ContextScheduler.softwareContextExited_slots hmapped hsched
          by_cases hself : off = swc
          · refine .exited (Bool.eq_false_iff.mpr fun hwaits' => ?_)
            obtain ⟨p, hp, hslot, hactive'⟩ := waits_iff.mp hwaits'
            obtain ⟨w, hw, hrunnable, -⟩ := ContextScheduler.active_iff.mp hactive'
            obtain rfl : w = swc := Option.some.inj (hw.symm.trans hslot)
            rw [← hself, hoff] at hrunnable
            cases hrunnable
          · exact .quiet (h.quiet hok (hstays i swc (Ne.symm hself) h.slot) hnext
              (fun p x hslot => .inl (hslots p x hslot)) fun x hx => hadded ▸ hx)
  | startTimedWait off descheduleRequest =>
      exact .quiet (h.sameList hok hadded (ContextScheduler.sameList_startTimedWait hsched))

/-- What was picked before, and what is picked in a run of calls while `swc` waits. -/
theorem Watched.run {es : List SchedEvent} {picked : List (Option Nat)}
    (h : r.Watched maxNumSwcs swc i old)
    (hrun : picksDuring maxNumSwcs intervalTimer swc es r = some picked) :
    ∃ others : List Nat, (old.map some ++ picked = others.map some ∨
        old.map some ++ picked = others.map some ++ [some swc]) ∧
      others.Nodup ∧ swc ∉ others ∧ others.length < maxNumSwcs := by
  have hold : old.length < maxNumSwcs := Nat.lt_of_le_of_lt (Nat.le_add_right _ _) h.near
  induction es generalizing r old picked with
  | nil =>
      cases hrun
      exact ⟨old, .inl (List.append_nil _), h.nodup, h.other, hold⟩
  | cons e es ih =>
      rw [picksDuring] at hrun
      split at hrun
      · rename_i hok
        cases hexec : r.exec maxNumSwcs intervalTimer e with
        | error message => rw [hexec] at hrun; cases hrun
        | ok r' =>
            rw [hexec] at hrun
            obtain ⟨rest, hrest, rfl⟩ := Option.map_eq_some_iff.mp hrun
            have hstep := h.step hok.1 hok.2 hexec
            generalize r.picks maxNumSwcs e = now at hstep
            cases hstep with
            | quiet h' => exact ih h' hrest hold
            | other h' =>
                rename_i x
                obtain ⟨others, hothers⟩ := ih h' hrest
                  (Nat.lt_of_le_of_lt (Nat.le_add_right _ _) h'.near)
                refine ⟨others, ?_⟩
                rw [List.map_append, List.append_assoc] at hothers
                exact hothers
            | picked hmapped =>
                -- it waits no more, so the run ends here
                cases es with
                | nil =>
                    cases hrest
                    exact ⟨old, .inr rfl, h.nodup, h.other, hold⟩
                | cons e' es =>
                    rw [picksDuring] at hrest
                    split at hrest
                    · rename_i hwaits
                      obtain ⟨j, -, hslot, hactive⟩ := waits_iff.mp hwaits.1
                      obtain ⟨w, hw, -, hunmapped⟩ := ContextScheduler.active_iff.mp hactive
                      rw [hslot] at hw
                      rw [← Option.some.inj hw, hmapped] at hunmapped
                      cases hunmapped
                    · cases hrest
            | exited hnot =>
                cases es with
                | nil =>
                    cases hrest
                    exact ⟨old, .inl (List.append_nil _), h.nodup, h.other, hold⟩
                | cons e' es =>
                    rw [picksDuring] at hrest
                    split at hrest
                    · rename_i hwaits
                      rw [hnot] at hwaits
                      cases hwaits.1
                    · cases hrest
      · cases hrun

/--
**No software context that waits is starved.**

As long as a software context is in the list, runnable and not mapped, every search for
one to run picks one; it is picked after at most `MAX_NUM_SWCS - 1` others, and of these
none is picked twice.
-/
theorem nobody_starves {es : List SchedEvent} {picked : List (Option Nat)}
    (h : Reaches Start (Step maxNumSwcs intervalTimer) r)
    (hrun : picksDuring maxNumSwcs intervalTimer swc es r = some picked) :
    ∃ others : List Nat, (picked = others.map some ∨ picked = others.map some ++ [some swc]) ∧
      others.Nodup ∧ swc ∉ others ∧ others.length ≤ maxNumSwcs - 1 := by
  have hok := ok_of_reaches h
  cases es with
  | nil =>
      cases hrun
      exact ⟨[], .inl rfl, List.nodup_nil, List.not_mem_nil, Nat.zero_le _⟩
  | cons e es =>
      have hwaits : r.waits maxNumSwcs swc = true := by
        rw [picksDuring] at hrun
        split at hrun
        · rename_i hwaits
          exact hwaits.1
        · cases hrun
      obtain ⟨i, hi, hslot, -⟩ := waits_iff.mp hwaits
      have hwatched : r.Watched maxNumSwcs swc i [] :=
        ⟨hok, hi, hslot, by simpa using gap_lt hi, nofun, nofun, List.nodup_nil, List.not_mem_nil⟩
      obtain ⟨others, hothers, hnodup, hswc, hlt⟩ := hwatched.run hrun
      exact ⟨others, hothers, hnodup, hswc, by omega⟩

/-- One hardware context, and three threads. -/
def threeThreads : List SchedEvent := [.startThread 0, .startThread 1, .startThread 2]

/-- The first two are switched off while the third one waits. -/
def twoSwitches : List SchedEvent :=
  [.clock 100, .contextSwitchCompleted 0, .clock 200, .contextSwitchCompleted 1]

theorem nobody_starves_three : ∃ r, after (fun r e => (r.exec 128 100 e).toOption)
      (fun r e => decide (r.Allowed 128 e)) threeThreads oneContext = some r ∧
    picksDuring 128 100 2 twoSwitches r = some [some 1, some 2] ∧
    ∃ others : List Nat, ([some 1, some 2] = others.map some ∨
        [some 1, some 2] = others.map some ++ [some 2]) ∧
      others.Nodup ∧ 2 ∉ others ∧ others.length ≤ 128 - 1 := by
  have hrun : (after (fun r e => (r.exec 128 100 e).toOption)
      (fun r e => decide (r.Allowed 128 e)) threeThreads oneContext).bind
      (picksDuring 128 100 2 twoSwitches) = some [some 1, some 2] := by decide +kernel
  obtain ⟨r, hr, hpicks⟩ := Option.bind_eq_some_iff.mp hrun
  have hreach : Reaches Start (Step 128 100) r := by
    refine Reaches.after ?_ (Reaches.start start_oneContext) hr
    intro s e t hok hexec
    exact ⟨e, of_decide_eq_true hok, eq_ok_of_toOption hexec⟩
  exact ⟨r, hr, hpicks, nobody_starves hreach hpicks⟩

end SchedRun

end AsimFeeder.Sched
