/-
What the lock-step tool prints when the streams first differ (`arch_x86/lockstep_x86.cpp`).

The history is a ring, and its slots are those of the events at their positions, with slots in
front that nothing was written to.  The dump starts behind the last slot and ends before it, so
that the event that ended the interval is not printed, and the ones before it are, oldest first.
-/
import AsimFeeder.SoftSDV.LockstepRuns
import AsimFeeder.Lib.Slots

namespace AsimFeeder.SoftSDV.Lockstep

open AsimFeeder.Lib

/-! ### The ring and its positions -/

/-- The slots from the beginning on, if the ring were a list: `n + 1` that were never written to,
and then one for each event. -/
def slots (n : Nat) (events : List Event) : List (Option Event) :=
  List.replicate (n + 1) none ++ events.map fun e => some e.entry

theorem slots_length (n : Nat) (events : List Event) :
    (slots n events).length = n + 1 + events.length := by
  simp [slots]

theorem slots_append (n : Nat) (events : List Event) (e : Event) :
    slots n (events ++ [e]) = slots n events ++ [some e.entry] := by
  simp [slots]

/-- The history holds the last `n` slots. -/
structure Recorded (n : Nat) (p : Process) : Prop where
  last : p.historyLast = p.events.length % n
  slot : ∀ q, p.events.length < q → q ≤ p.events.length + n →
    p.history (q % n) = (slots n p.events).getD q none

theorem nextSlot_mod {n : Nat} (hn : 0 < n) (q : Nat) :
    Process.nextSlot n (q % n) = (q + 1) % n := by
  have hlt := Nat.mod_lt q hn
  have hsum : (q + 1) % n = (q % n + 1) % n := by rw [Nat.mod_add_mod]
  unfold Process.nextSlot
  by_cases hwrap : q % n + 1 = n
  · rw [if_pos hwrap, hsum, hwrap, Nat.mod_self]
  · have hlt' : q % n + 1 < n := by omega
    rw [if_neg hwrap, hsum, Nat.mod_eq_of_lt hlt']

theorem Recorded.new (n : Nat) (m : MD5) : Recorded n (Process.new m) where
  last := by simp [Process.new]
  slot := by
    intro q _ hq
    simp only [Process.new, List.length_nil, Nat.zero_add] at hq
    simp [Process.new, slots]

theorem Recorded.note {P : Params} {p : Process} (h : Recorded P.nHistoryInstrs p)
    (hn : 0 < P.nHistoryInstrs) (e : Event) : Recorded P.nHistoryInstrs (p.note P e) where
  last := by
    simp only [Process.note, h.last, nextSlot_mod hn, List.length_append, List.length_singleton]
  slot := by
    intro q hlo hhi
    simp only [Process.note, List.length_append, List.length_singleton, h.last, nextSlot_mod hn]
      at hlo hhi ⊢
    rw [slots_append]
    by_cases hlast : q = p.events.length + 1 + P.nHistoryInstrs
    · rw [hlast, Nat.add_mod_right, Function.update_self,
        List.getD_append_right _ _ _ _ (by rw [slots_length]; omega), slots_length]
      simp [show p.events.length + 1 + P.nHistoryInstrs
        - (P.nHistoryInstrs + 1 + p.events.length) = 0
        by omega]
    · have hne : q % P.nHistoryInstrs ≠ (p.events.length + 1) % P.nHistoryInstrs := by
        intro heq
        have := mod_inj heq (by omega) (by omega)
        omega
      rw [Function.update_of_ne hne, List.getD_append _ _ _ _ (by rw [slots_length]; omega)]
      exact h.slot q (by omega) (by omega)

/-! ### The dump -/

/-- The loop prints the slots from the one behind the last on. -/
theorem printHistory_eq {n : Nat} (hn : 0 < n) {history : Nat → Option Event} {L : Nat}
    {l : List (Option Event)}
    (hlen : l.length = L + n + 1) (hslot : ∀ q, L < q → q ≤ L + n → history (q % n) = l.getD q none)
    (fuel q : Nat) (hlo : L < q) (hhi : q + fuel = L + n + 1) :
    Process.printHistory n history (L % n) fuel (q % n) =
      ((l.take (L + n)).drop q).reduceOption := by
  induction fuel generalizing q with
  | zero =>
      have hdrop : (l.take (L + n)).drop q = [] := by
        rw [List.drop_eq_nil_iff, List.length_take]
        omega
      rw [Process.printHistory, hdrop]
      rfl
  | succ fuel ih =>
      rw [Process.printHistory]
      by_cases hlast : q % n = L % n
      · have hq : q = L + n := by
          have := mod_inj (n := n) (p := q) (q := L + n) (by rw [hlast, Nat.add_mod_right])
            (by omega) (by omega)
          exact this
        have hdrop : (l.take (L + n)).drop q = [] := by
          rw [List.drop_eq_nil_iff, List.length_take]
          omega
        rw [if_pos hlast, hdrop]
        rfl
      · have hq : q < L + n := by
          by_contra hq
          have hq : q = L + n := by omega
          rw [hq, Nat.add_mod_right] at hlast
          exact hlast rfl
        have hqlen : q < (l.take (L + n)).length := by
          rw [List.length_take]
          omega
        have hdrop : (l.take (L + n)).drop q = l.getD q none :: (l.take (L + n)).drop (q + 1) := by
          rw [List.drop_eq_getElem_cons hqlen, List.getElem_take,
            List.getD_eq_getElem _ _ (by omega)]
        rw [if_neg hlast, nextSlot_mod hn, ih (q + 1) (by omega) (by omega),
          hslot q hlo (by omega), hdrop]
        cases l.getD q none <;> rfl

/-- Of the slots only the events are printed. -/
theorem reduceOption_slots (n k : Nat) (l : List Event) :
    ((slots n l).drop k).reduceOption = (l.map Event.entry).drop (k - (n + 1)) := by
  have hmap : (l.map fun e => some e.entry) = (l.map Event.entry).map some := by simp
  rw [slots, hmap, List.drop_append, List.length_replicate, List.drop_replicate, ← List.map_drop,
    List.reduceOption_append, List.reduceOption_replicate_none, List.nil_append]
  simp [List.reduceOption]

/-- What is printed: the events before the last one, as many as the ring has room for. -/
theorem Recorded.printed {n : Nat} {p : Process} (h : Recorded n p) (hn : 0 < n) :
    Process.printHistory n p.history p.historyLast n (Process.nextSlot n p.historyLast) =
      (p.events.dropLast.map Event.entry).rtake (n - 1) := by
  have hprint := printHistory_eq hn (l := slots n p.events) (by rw [slots_length]; omega) h.slot n
    (p.events.length + 1) (by omega) (by omega)
  rw [h.last, nextSlot_mod hn, hprint]
  rcases List.eq_nil_or_concat p.events with hnil | ⟨l, e, hl⟩
  · simp [hnil, slots]
  · have htake : (slots n (l ++ [e])).take ((l ++ [e]).length + n) = slots n l := by
      rw [slots_append, List.take_append_of_le_length (by simp [slots_length]; omega),
        List.take_of_length_le (by simp [slots_length]; omega)]
    rw [hl, List.concat_eq_append, htake, reduceOption_slots, List.dropLast_concat, List.rtake,
      List.length_map, List.length_append, List.length_singleton]
    congr 1
    omega

/-! ### Along a run -/

variable {P : Params}

/-- What a process has printed. -/
structure Printed (P : Params) (p : Process) : Prop where
  quiet : p.streamsSame = true → p.dumped = [] ∧ Recorded P.nHistoryInstrs p
  told : p.streamsSame = false →
    (p.events.dropLast.map Event.entry).rtake (P.nHistoryInstrs - 1) <+: p.dumped

theorem Printed.goto {p : Process} (h : Printed P p) (pc : Pc) : Printed P (p.goto pc) := by
  refine ⟨?_, h.told⟩
  intro hs
  obtain ⟨hnone, hrec⟩ := h.quiet hs
  exact ⟨hnone, hrec.last, hrec.slot⟩

theorem Printed.execute {p : Process} (h : Printed P p) (hn : 0 < P.nHistoryInstrs) (e : Event) :
    Printed P (p.execute P e) := by
  by_cases hsame : p.streamsSame = true
  · obtain ⟨hnone, hrec⟩ := h.quiet hsame
    have hnote := hrec.note hn e
    cases e with
    | dma addr size =>
        simp only [Process.execute, if_pos hsame]
        refine ⟨fun _ => ⟨hnone, hnote⟩, ?_⟩
        intro hs
        have hs : p.streamsSame = false := hs
        rw [hsame] at hs
        cases hs
    | instr =>
        simp only [Process.execute, if_pos hsame]
        split
        all_goals
          refine ⟨fun _ => ⟨hnone, hnote.last, hnote.slot⟩, ?_⟩
          intro hs
          have hs : p.streamsSame = false := hs
          rw [hsame] at hs
          cases hs
  · have htold := h.told (by simpa using hsame)
    simp only [Process.execute, if_neg hsame]
    split
    · cases e with
      | dma addr size => exact ⟨fun hs => absurd hs hsame,
        fun _ => htold.trans (List.prefix_append _ _)⟩
      | instr => exact ⟨fun hs => absurd hs hsame, fun _ => htold.trans (List.prefix_append _ _)⟩
    · exact h

theorem Printed.compared {p : Process} (h : Printed P p) (hn : 0 < P.nHistoryInstrs)
    (hp : p.streamsSame = true) (same : Bool) : Printed P (p.compared P same) := by
  obtain ⟨hnone, hrec⟩ := h.quiet hp
  cases same with
  | true => exact ⟨fun _ => ⟨hnone, hrec.last, hrec.slot⟩, fun hs => by cases hs⟩
  | false =>
      refine ⟨fun hs => (by cases hs), fun _ => ?_⟩
      simp only [Process.compared, hnone, List.nil_append, Bool.false_eq_true, if_false,
        hrec.printed hn]
      exact List.prefix_refl _

theorem Printed.step {p p' : Process} {e : Event} {out inb out' inb' : CommBuffer} (h : Printed P p)
    (hn : 0 < P.nHistoryInstrs) (hl : Local P p)
    (hstep : p.step P e out inb = some (p', out', inb')) : Printed P p' := by
  unfold Process.step at hstep
  cases hpc : p.pc with
  | run =>
      simp only [hpc, Option.some.injEq, Prod.mk.injEq] at hstep
      rw [← hstep.1]
      exact h.execute hn e
  | ackIn same hello =>
      simp only [hpc, Option.some.injEq, Prod.mk.injEq] at hstep
      rw [← hstep.1]
      cases hello with
      | true => exact h.goto _
      | false => exact h.compared hn (hl.same (by simp [hpc])) same
  | waitHello | waitOut | waitIn =>
      simp only [hpc, Option.ite_none_right_eq_some, Option.some.injEq, Prod.mk.injEq] at hstep
      rw [← hstep.2.1]
      exact h.goto _
  | _ =>
      simp only [hpc, Option.some.injEq, Prod.mk.injEq] at hstep
      rw [← hstep.1]
      exact h.goto _

/-- **When the streams differ, the events before the last one are printed, oldest first, as many as
the history holds; before that nothing is.** -/
theorem history_printed {s : State} (hn : 0 < P.nHistoryInstrs) (h : Reaches Start (Step P) s)
    (x : Side) :
    if (s.procs x).streamsSame then (s.procs x).dumped = []
    else ((s.procs x).events.dropLast.map Event.entry).rtake (P.nHistoryInstrs - 1) <+:
      (s.procs x).dumped := by
  have hall : ∀ x, Printed P (s.procs x) := by
    refine (Reaches.invariant (P := fun s => Inv P s ∧ ∀ x, Printed P (s.procs x)) ?_ ?_ h).2
    · intro s hs
      refine ⟨Inv.start hs, fun x => ?_⟩
      obtain ⟨m, hm⟩ := hs x
      rw [hm]
      exact ⟨fun _ => ⟨rfl, Recorded.new _ m⟩, fun hc => (by cases hc)⟩
    · rintro s t ⟨hinv, hall⟩ hst
      refine ⟨hinv.step hst, ?_⟩
      obtain ⟨y, e, hst⟩ := hst
      obtain ⟨p, out, inb, hstep, hp, hq, -⟩ := step_cases hst
      refine Side.both y ?_ ?_
      · rw [hp]
        exact (hall y).step hn (hinv.alone y) hstep
      · rw [hq]
        exact hall y.other
  cases hsame : (s.procs x).streamsSame with
  | true => exact ((hall x).quiet hsame).1
  | false => exact (hall x).told hsame

theorem history_printed_differ : ∃ s : State,
    State.stale.steps { interval := 2, nHistoryInstrs := 4 }
        (constructing ++ List.replicate 39 (.left, .short) ++ [(.right, .dma 16 8)] ++
          List.replicate 39 (.right, .short)) = some s ∧
      (s.procs .right).streamsSame = false ∧
      ((s.procs .right).events.dropLast.map Event.entry).rtake 3 <+: (s.procs .right).dumped := by
  have h : (State.stale.steps { interval := 2, nHistoryInstrs := 4 }
      (constructing ++ List.replicate 39 (.left, .short) ++ [(.right, .dma 16 8)] ++
        List.replicate 39 (.right, .short))).map (fun s => (s.procs .right).streamsSame) =
      some false := by decide +kernel
  rw [Option.map_eq_some_iff] at h
  obtain ⟨s, hs, hsame⟩ := h
  have hprinted := history_printed (by decide) (reaches_steps (.start stale_start) hs) .right
  rw [hsame] at hprinted
  exact ⟨s, hs, hsame, hprinted⟩

end AsimFeeder.SoftSDV.Lockstep
