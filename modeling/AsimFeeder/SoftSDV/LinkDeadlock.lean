/-
How the two processes come to wait for each other.

Asim empties the register ring before it waits for an instruction and again when it has
one, but not while it waits.  Requests of all CPUs are served in order, and each may note
register values any number of times; so while Asim waits for one CPU the others may fill
the ring, and then SoftSDV waits for Asim.

`NoDrainAhead` says when that can happen: Asim has a wait ahead of it, and no
`CheckForIncomingRegValues` before that.  As long as SoftSDV then starts to note register
values only when the ring has a free slot, the two never wait for each other; the first
time that it does not, they will.
-/
import AsimFeeder.SoftSDV.LinkCredit

namespace AsimFeeder.SoftSDV

open Lib

namespace Link

variable (c : LinkConfig)

/-- Asim has to wait, in this phase or later, before it looks at the register ring again. -/
def NoDrainAhead (s : Link) : AsimPhase → Prop
  | .initial cpu => c.requestQueue.freeSlots s.requests.length < c.nCpus - cpu
  | .openInstr cpu _ _ => s.instrRing cpu = []
  | .buffer _ chunk i => chunk ≤ i + 1 ∧ c.requestQueue.freeSlots s.requests.length = 0
  | .openRequest _ _ => c.requestQueue.freeSlots s.requests.length = 0
  | .warmUp | .idle | .checkRegs _ _ _ | .checkAgain _ _ _ _ => False

/--
SoftSDV starts to note register values only when the register ring takes them or Asim
empties it before it waits, and Asim never asks for a chunk of nothing.
-/
def NotesInTime (s : Link) : LinkEvent → Prop
  | .beginGroup true => s.fetchInstrsRemaining ≠ 0 → s.NoDrainAhead c s.asim →
      c.regRing.freeSlots s.regRing.length ≠ 0
  | .fetch _ chunk => chunk ≠ 0
  | _ => True

/-- A step of a run that notes registers in time. -/
def TimelyStep (s t : Link) : Prop := ∃ e, s.NotesInTime c e ∧ s.exec c e = .ok t

/-- Where Asim may wait first, SoftSDV's wait for a register slot ends without it. -/
structure Timely (s : Link) : Prop where
  openRegs : ∀ cid, s.soft = .openRegs cid → s.NoDrainAhead c s.asim →
    c.regRing.freeSlots s.regRing.length ≠ 0
  initial : ∀ cpu, s.asim = .initial cpu → cpu < c.nCpus

variable {c} {s t : Link}

/-- An empty ring has a free slot. -/
theorem freeSlots_nil (n : RingSize) {α : Type} {used : List α} (h : used = []) :
    n.freeSlots used.length ≠ 0 := by
  have hsize := n.two_le_size
  rw [h, List.length_nil]
  unfold RingSize.freeSlots
  omega

/-! ### Noting in time is enough -/

/-- SoftSDV waits for a register slot only from the start of a group on. -/
theorem softExec_openRegs {p : SoftPhase} (hs : s.soft = p) {e : LinkEvent} {cid : Nat}
    (hexec : s.softExec c p e = .ok t) (ht : t.soft = .openRegs cid) :
    e = .beginGroup true ∧ s.fetchInstrsRemaining ≠ 0 ∧ t = { s with soft := .openRegs cid } := by
  unfold Link.softExec at hexec
  split at hexec
  · split at hexec <;> cases hexec
    cases ht
  · split at hexec <;> cases hexec
    · cases ht
    · unfold Link.serve at ht
      dsimp only at ht
      split at ht <;> cases ht
  · cases hexec
    cases ht
  · unfold Link.takeRequest at hexec
    split at hexec <;> cases hexec
    unfold Link.serve at ht
    dsimp only at ht
    split at ht <;> cases ht
  · rename_i cid' noteRegs
    unfold Link.beginGroup at hexec
    split at hexec
    · cases hexec
      cases ht
    · rename_i hremaining
      split at hexec
      · cases hexec
      · split at hexec
        · cases hexec
        · cases hexec
          cases noteRegs
          · cases ht
          · cases ht
            exact ⟨rfl, hremaining, rfl⟩
  · unfold Link.closeRegs at hexec
    split at hexec <;> cases hexec
    cases ht
  · split at hexec <;> cases hexec
    cases ht
  · rename_i early _
    unfold Link.deliver at hexec
    split at hexec
    · cases hexec
      cases early <;> cases ht
    · cases hexec
      cases ht
    · split at hexec <;> cases hexec
      cases ht
  · cases hexec

/-- The events of Asim leave SoftSDV where it is. -/
theorem asimExec_soft {p : AsimPhase} {e : LinkEvent} (hexec : s.asimExec c p e = .ok t) :
    t.soft = s.soft := by
  unfold Link.asimExec Link.sendRequest Link.drainReg Link.drainDone at hexec
  repeat' split at hexec
  all_goals cases hexec
  all_goals rfl

theorem sendRequest_ok {request : Request} {next : AsimPhase}
    (hexec : s.sendRequest c request next = .ok t) :
    c.requestQueue.freeSlots s.requests.length ≠ 0 ∧
      t = { s with requests := s.requests ++ [request], asim := next } := by
  unfold Link.sendRequest at hexec
  split at hexec
  · cases hexec
  · rename_i hfree
    cases hexec
    exact ⟨hfree, rfl⟩

theorem drainDone_ok {next : AsimPhase} (hexec : s.drainDone next = .ok t) :
    t.regRing = [] ∧ t = { s with asim := next } := by
  unfold Link.drainDone at hexec
  split at hexec
  · rename_i hnil
    cases hexec
    exact ⟨hnil, rfl⟩
  · cases hexec

/--
When an event of Asim leaves it with a wait ahead, either that wait was ahead before, or
Asim has just emptied the register ring, or nothing has started yet.
-/
theorem asimExec_noDrainAhead {p : AsimPhase} (hs : s.asim = p) {e : LinkEvent}
    (htimely : s.NotesInTime c e) (hexec : s.asimExec c p e = .ok t)
    (ht : t.NoDrainAhead c t.asim) :
    (s.NoDrainAhead c s.asim ∧ t.regRing = s.regRing) ∨ t.regRing = [] ∨ s.asim = .warmUp := by
  unfold Link.asimExec at hexec
  split at hexec
  · exact Or.inr (Or.inr hs)
  · obtain ⟨hfree, rfl⟩ := sendRequest_ok hexec
    refine Or.inl ⟨?_, rfl⟩
    rw [hs]
    unfold initialFrom at ht
    split at ht
    · simp only [NoDrainAhead, RingSize.freeSlots, List.length_append,
        List.length_singleton] at ht hfree ⊢
      omega
    · cases ht
  · split at hexec
    · cases hexec
      unfold fetchFrom at ht
      rw [if_pos (Nat.pos_of_ne_zero htimely)] at ht
      cases ht
    · cases hexec
  · unfold Link.drainReg at hexec
    split at hexec
    · cases hexec
    · cases hexec
      rw [hs] at ht
      cases ht
  · exact Or.inr (Or.inl (drainDone_ok hexec).1)
  · split at hexec
    · cases hexec
      cases ht
    · split at hexec
      · cases hexec
        cases ht
      · cases hexec
  · unfold Link.drainReg at hexec
    split at hexec
    · cases hexec
    · cases hexec
      rw [hs] at ht
      cases ht
  · exact Or.inr (Or.inl (drainDone_ok hexec).1)
  · cases hexec
    refine Or.inl ⟨?_, rfl⟩
    rw [hs]
    unfold fetchFrom at ht
    split at ht
    · cases ht
    · rename_i hlast
      exact ⟨by omega, ht⟩
  · split at hexec
    · cases hexec
      cases ht
    · obtain ⟨-, rfl⟩ := sendRequest_ok hexec
      cases ht
  · cases hexec

theorem Credit.waitWarmUp (h : Credit c s) (hs : s.asim = .warmUp) : s.soft = .waitWarmUp := by
  by_contra hne
  exact (h.greeted hne).1 hs

theorem asimExec_initial {p : AsimPhase} (hs : s.asim = p) {e : LinkEvent}
    (hexec : s.asimExec c p e = .ok t) {cpu : Nat} (ht : t.asim = .initial cpu) :
    cpu < c.nCpus := by
  have hfrom : ∀ first, initialFrom c first = .initial cpu → cpu < c.nCpus := by
    intro first hfirst
    unfold initialFrom at hfirst
    split at hfirst
    · rename_i hlt
      cases hfirst
      exact hlt
    · cases hfirst
  have hloop : ∀ cpuNum chunk i, fetchFrom cpuNum chunk i ≠ .initial cpu := by
    intro cpuNum chunk i
    unfold fetchFrom
    split <;> simp
  unfold Link.asimExec at hexec
  split at hexec
  · obtain ⟨-, rfl⟩ := sendRequest_ok hexec
    exact hfrom _ ht
  · obtain ⟨-, rfl⟩ := sendRequest_ok hexec
    exact hfrom _ ht
  · split at hexec <;> cases hexec
    exact absurd ht (hloop _ _ _)
  · unfold Link.drainReg at hexec
    split at hexec <;> cases hexec
    rw [hs] at ht
    cases ht
  · obtain ⟨-, rfl⟩ := drainDone_ok hexec
    cases ht
  · repeat' split at hexec
    all_goals cases hexec
    all_goals cases ht
  · unfold Link.drainReg at hexec
    split at hexec <;> cases hexec
    rw [hs] at ht
    cases ht
  · rename_i newInstr
    obtain ⟨-, rfl⟩ := drainDone_ok hexec
    cases newInstr <;> cases ht
  · cases hexec
    exact absurd ht (hloop _ _ _)
  · split at hexec
    · cases hexec
      cases ht
    · obtain ⟨-, rfl⟩ := sendRequest_ok hexec
      cases ht
  · cases hexec

/-- The events of SoftSDV leave Asim where it is. -/
theorem softExec_asim {p : SoftPhase} {e : LinkEvent} (hexec : s.softExec c p e = .ok t) :
    t.asim = s.asim := by
  unfold Link.softExec Link.takeRequest Link.beginGroup Link.closeRegs Link.deliver at hexec
  repeat' split at hexec
  all_goals cases hexec
  all_goals rfl

theorem timely_start : Timely c start where
  openRegs := fun _ hs => by cases hs
  initial := fun _ hs => by cases hs

theorem Timely.step (h : Timely c s) (hcredit : Credit c s) {e : LinkEvent}
    (htimely : s.NotesInTime c e) (hexec : s.exec c e = .ok t) : Timely c t := by
  have hasim : ∀ p, s.asim = p → s.asimExec c p e = .ok t → Timely c t := by
    intro p hp hexec
    have hsoft := asimExec_soft hexec
    refine ⟨?_, fun cpu ht => asimExec_initial hp hexec ht⟩
    intro cid ht hahead
    rcases asimExec_noDrainAhead hp htimely hexec hahead with ⟨hbefore, hregs⟩ | hnil | hwarm
    · rw [hregs]
      exact h.openRegs cid (hsoft ▸ ht) hbefore
    · exact freeSlots_nil _ hnil
    · rw [hsoft, hcredit.waitWarmUp hwarm] at ht
      cases ht
  unfold Link.exec at hexec
  split at hexec
  case h_7 =>
    refine ⟨?_, fun cpu ht => h.initial cpu (softExec_asim hexec ▸ ht)⟩
    intro cid ht hahead
    obtain ⟨rfl, hremaining, rfl⟩ := softExec_openRegs rfl hexec ht
    exact htimely hremaining hahead
  all_goals exact hasim _ rfl hexec

theorem Timely.not_deadlocked (h : Timely c s) (hcredit : Credit c s) : ¬ s.Deadlocked c := by
  intro hdead
  obtain ⟨⟨⟨cid, hsoft⟩, hfull⟩, hwaits⟩ := hdead
  refine h.openRegs cid hsoft ?_ hfull
  rcases hwaits with ⟨cpu, chunk, i, hasim, hnil⟩ | ⟨hopens, hqueue⟩
  · rw [hasim]
    exact hnil
  · cases hasim : s.asim with
    | warmUp =>
        rw [hcredit.waitWarmUp hasim] at hsoft
        cases hsoft
    | initial cpu =>
        have hcpu := h.initial cpu hasim
        show c.requestQueue.freeSlots s.requests.length < c.nCpus - cpu
        omega
    | openRequest cpu chunk => exact hqueue
    | _ =>
        rw [hasim] at hopens
        cases hopens

theorem timely_of_reaches (h : Reaches (· = start) (TimelyStep c) s) :
    Credit c s ∧ Timely c s := by
  refine h.invariant (P := fun s => Credit c s ∧ Timely c s) ?_ ?_
  · intro s hs
    exact hs ▸ ⟨credit_start, timely_start⟩
  · intro s t hinv hstep
    obtain ⟨e, htimely, hexec⟩ := hstep
    exact ⟨hinv.1.exec hexec, hinv.2.step hinv.1 htimely hexec⟩

/-! ### Noting too late is a deadlock -/

theorem run_cons {e : LinkEvent} {es : List LinkEvent} (hexec : s.exec c e = .ok t) :
    s.run c (e :: es) = t.run c es := by
  simp [run, Lib.after, hexec, Except.toOption]

/-- Asim sends initial requests until the queue is full. -/
theorem deadlock_initial {free : Nat} : ∀ {s : Link} {cid cpu : Nat}, s.soft = .openRegs cid →
    c.regRing.freeSlots s.regRing.length = 0 → s.asim = .initial cpu →
    c.requestQueue.freeSlots s.requests.length = free → free < c.nCpus - cpu →
    ∃ es u, s.run c es = some u ∧ u.Deadlocked c := by
  induction free with
  | zero =>
      intro s cid cpu hsoft hfull hasim hfree _
      refine ⟨[], s, rfl, ⟨⟨cid, hsoft⟩, hfull⟩, Or.inr ⟨?_, hfree⟩⟩
      rw [hasim]
      rfl
  | succ free ih =>
      intro s cid cpu hsoft hfull hasim hfree hlt
      let t : Link := { s with
        requests := s.requests ++ [.fetch cpu c.warmupChunk]
        asim := .initial (cpu + 1) }
      have hexec : s.exec c .sendRequest = .ok t := by
        show s.asimExec c s.asim .sendRequest = _
        rw [hasim]
        show s.sendRequest c _ _ = _
        unfold Link.sendRequest initialFrom
        rw [if_neg (by omega), if_pos (by omega)]
      have hfree' : c.requestQueue.freeSlots t.requests.length = free := by
        simp only [t, RingSize.freeSlots, List.length_append, List.length_singleton] at hfree ⊢
        omega
      obtain ⟨es, u, hrun, hdead⟩ := ih (s := t) hsoft hfull rfl hfree' (by omega)
      exact ⟨.sendRequest :: es, u, (run_cons hexec).trans hrun, hdead⟩

/-- SoftSDV waits for a slot, and Asim will wait before it makes one. -/
theorem deadlock_of_noDrainAhead {cid : Nat} (hsoft : s.soft = .openRegs cid)
    (hfull : c.regRing.freeSlots s.regRing.length = 0) (hahead : s.NoDrainAhead c s.asim) :
    ∃ es u, s.run c es = some u ∧ u.Deadlocked c := by
  cases hasim : s.asim with
  | initial cpu =>
      rw [hasim] at hahead
      exact deadlock_initial hsoft hfull hasim rfl hahead
  | openInstr cpu chunk i =>
      rw [hasim] at hahead
      exact ⟨[], s, rfl, ⟨⟨cid, hsoft⟩, hfull⟩, Or.inl ⟨cpu, chunk, i, hasim, hahead⟩⟩
  | buffer cpu chunk i =>
      rw [hasim] at hahead
      obtain ⟨hlast, hqueue⟩ := hahead
      let t : Link := { s with
        instrRing := Function.update s.instrRing cpu (s.instrRing cpu).tail
        asim := .openRequest cpu chunk }
      have hexec : s.exec c .bufferInstr = .ok t := by
        show s.asimExec c s.asim .bufferInstr = _
        rw [hasim]
        show Except.ok _ = _
        unfold fetchFrom
        rw [if_neg (by omega)]
      exact ⟨[.bufferInstr], t, run_cons hexec, ⟨⟨cid, hsoft⟩, hfull⟩, Or.inr ⟨rfl, hqueue⟩⟩
  | openRequest cpu chunk =>
      rw [hasim] at hahead
      refine ⟨[], s, rfl, ⟨⟨cid, hsoft⟩, hfull⟩, Or.inr ⟨?_, hahead⟩⟩
      rw [hasim]
      rfl
  | _ =>
      rw [hasim] at hahead
      exact hahead.elim

/-- SoftSDV has started to note register values too late. -/
theorem deadlock_of_late (hexec : s.exec c (.beginGroup true) = .ok t)
    (hlate : ¬ s.NotesInTime c (.beginGroup true)) :
    ∃ es u, t.run c es = some u ∧ u.Deadlocked c := by
  simp only [NotesInTime, Classical.not_imp, not_not] at hlate
  obtain ⟨hremaining, hahead, hfull⟩ := hlate
  have hstart : ∃ cid, t = { s with soft := .openRegs cid } := by
    change s.softExec c s.soft (.beginGroup true) = .ok t at hexec
    cases hs : s.soft with
    | nextGroup cid =>
        rw [hs] at hexec
        change s.beginGroup c cid true = .ok t at hexec
        unfold Link.beginGroup at hexec
        rw [if_neg hremaining] at hexec
        split at hexec
        · cases hexec
        · split at hexec
          · cases hexec
          · cases hexec
            exact ⟨cid, rfl⟩
    | _ =>
        rw [hs] at hexec
        cases hexec
  obtain ⟨cid, rfl⟩ := hstart
  exact deadlock_of_noDrainAhead rfl hfull hahead

/--
**Asim and SoftSDV do not wait for each other as long as SoftSDV notes register values in
time**, and where it starts to note them too late, they come to wait for each other.
-/
theorem registerRing_deadlock (c : LinkConfig) :
    (∀ s, Reaches (· = start) (TimelyStep c) s → ¬ s.Deadlocked c) ∧
      ∀ s t, Reaches (· = start) (Step c) s → s.exec c (.beginGroup true) = .ok t →
        ¬ s.NotesInTime c (.beginGroup true) → ∃ es u, t.run c es = some u ∧ u.Deadlocked c := by
  constructor
  · intro s hs
    obtain ⟨hcredit, htimely⟩ := timely_of_reaches hs
    exact htimely.not_deadlocked hcredit
  · intro s t _ hexec hlate
    exact deadlock_of_late hexec hlate

/-- A group of one instruction that follows an interrupt on CPU 0, and the next call. -/
def interruptedGroup : List LinkEvent :=
  [.beginGroup true, .closeRegs, .stepReference [.instr], .deliver, .deliver, .executeAsim 0]

/-- Asim waits for CPU 1, while SoftSDV serves the first request, which is CPU 0's. -/
def otherCpuFirst : List LinkEvent :=
  [.sendRequest, .takeRequest, .sendRequest, .sendRequest, .fetch 1 32, .drainDone,
    .executeAsim 0, .takeRequest] ++
    (List.replicate 31 interruptedGroup).flatten ++ [.beginGroup true]

/-- Each side waits for the other after 32 groups of another CPU than the one awaited. -/
theorem registerRing_deadlocks : ¬ ∀ (c : LinkConfig) (s : Link),
    Reaches (· = start) (Step c) s → ¬ s.Deadlocked c := by
  intro hnever
  have hrun : (start.run stubConfig otherCpuFirst).map
      (fun s => (s.soft, s.asim, stubConfig.regRing.freeSlots s.regRing.length, s.instrRing 1)) =
      some (.openRegs 0, .openInstr 1 32 0, 0, []) := by decide +kernel
  obtain ⟨s, hs, hstate⟩ := Option.map_eq_some_iff.mp hrun
  simp only [Prod.mk.injEq] at hstate
  obtain ⟨hsoft, hasim, hfull, hnil⟩ := hstate
  exact hnever stubConfig s (reaches_run hs)
    ⟨⟨⟨0, hsoft⟩, hfull⟩, Or.inl ⟨1, 32, 0, hasim, hnil⟩⟩

end Link
end AsimFeeder.SoftSDV
