/-
Calls of `FEED_Skip` whose steps are all careful.

A step goes wrong in three ways: a thread takes its turn whose address was never collected, or
after as many instructions as were asked for, or with an instruction that blocks; the loop goes
on while none of the threads that were asked for can run, or is left while one can; and a pc is
set at the end for a thread begun during the call.  `Careful` says that the step does not.
-/
import AsimFeeder.Aint.Skip
import AsimFeeder.Lib.Variant

namespace AsimFeeder.Aint.Skip

open Lib

variable {E : Type} {m : Machine E} {p : Params} {r : Run E}

namespace Run

variable (p) in
/-- What `FEED_Skip` is to do, as far as it has got. -/
structure Right (r : Run E) : Prop where
  along : ∀ e ∈ r.executed, e.pc = e.due
  counted : r.state.instructions.toNat = r.executed.length
  bounded : r.executed.length ≤ p.limit.toNat
  continues : r.state.place = .returned →
    ∀ tid, r.state.asked p tid → r.state.virtualPc tid = r.due tid
  finished : r.state.place = .returned → r.executed.length = p.limit.toNat ∨
    r.state.stopSkipping = true ∨ ∀ tid ∈ p.tids, tid ∉ r.state.threadMask
  alive : ∀ message, r.state.place ≠ .stopped message

variable (m p) in
def CarefulAt (r : Run E) : Place → Prop
  | .head =>
      (r.state.goesOn p → ∃ tid ∈ p.tids, tid ∈ r.state.threadMask) ∧
        (¬r.state.goesOn p →
          (∀ tid ∈ p.tids, tid ∈ r.state.threadActiveMask → tid ∈ r.known) ∧
            (r.state.instructions < p.limit → r.state.stopSkipping = false →
              ∀ tid ∈ p.tids, tid ∉ r.state.threadMask))
  | .turns (tid :: _) => tid ∈ r.state.threadMask →
      tid ∈ r.known ∧ r.state.instructions < p.limit ∧
        ∀ call ∈ (m.exec r.state.env tid (r.state.nextpc tid)).2.2, call.blocks = false
  | _ => True

variable (m p) in
/-- The next step does not go wrong. -/
def Careful (r : Run E) : Prop := r.CarefulAt m p r.state.place

instance (r : Run E) : (place : Place) → Decidable (r.CarefulAt m p place)
  | .head => inferInstanceAs (Decidable ((_ → _) ∧ (_ → _)))
  | .turns (_ :: _) => inferInstanceAs (Decidable (_ → _))
  | .turns [] => .isTrue trivial
  | .returned => .isTrue trivial
  | .stopped _ => .isTrue trivial

instance (r : Run E) : Decidable (r.Careful m p) :=
  inferInstanceAs (Decidable (r.CarefulAt m p r.state.place))

/-- Where the call has collected an address, it is the one that is due. -/
structure Sound (p : Params) (r : Run E) : Prop extends Right p r where
  knows : ∀ tid ∈ r.known, r.state.nextpc tid = r.due tid

end Run

open Run

/-! ### One instruction -/

theorem threadCalls_ok {calls : List ThreadCall} (h : ∀ call ∈ calls, call.blocks = false)
    (a : Threads E) : ∃ a', calls.foldlM (threadCall m) a = .ok a' := by
  induction calls generalizing a with
  | nil => exact ⟨a, rfl⟩
  | cons call calls ih =>
      obtain ⟨hcall, hrest⟩ := List.forall_mem_cons.mp h
      cases call with
      | threadBegin tid vpc running => exact ih hrest _
      | threadEnd tid => exact ih hrest _
      | threadBlock tid => cases hcall
      | threadUnblock tid => exact ih hrest _
      | endSkipping => exact ih hrest _

/-- What is due changes for the threads that are begun only, and these are no longer known. -/
theorem watchCall_known (call : ThreadCall) (w : (Nat → UInt64) × Finset Nat) {tid : Nat}
    (h : tid ∈ (watchCall m w call).2) :
    tid ∈ w.2 ∧ (watchCall m w call).1 tid = w.1 tid := by
  cases call with
  | threadBegin t vpc running =>
      unfold watchCall at h ⊢
      dsimp only at h ⊢
      by_cases hshadow : m.shadow = true ∧ t = 1
      · rw [if_pos hshadow] at h ⊢
        exact ⟨h, rfl⟩
      · rw [if_neg hshadow] at h ⊢
        obtain ⟨hne, hmem⟩ := Finset.mem_erase.mp h
        exact ⟨hmem, Function.update_of_ne hne ..⟩
  | threadEnd t => exact ⟨h, rfl⟩
  | threadBlock t => exact ⟨h, rfl⟩
  | threadUnblock t => exact ⟨h, rfl⟩
  | endSkipping => exact ⟨h, rfl⟩

theorem watchCalls_known (calls : List ThreadCall) (w : (Nat → UInt64) × Finset Nat) {tid : Nat}
    (h : tid ∈ (calls.foldl (watchCall m) w).2) :
    tid ∈ w.2 ∧ (calls.foldl (watchCall m) w).1 tid = w.1 tid := by
  induction calls generalizing w with
  | nil => exact ⟨h, rfl⟩
  | cons call calls ih =>
      obtain ⟨hmem, hdue⟩ := ih (watchCall m w call) h
      obtain ⟨hmem', hdue'⟩ := watchCall_known call w hmem
      exact ⟨hmem', hdue.trans hdue'⟩

/-- A thread's turn is one instruction, at the address that the call has for it. -/
theorem turn_spec {s : SkipState E} {tid : Nat} (rest : List Nat)
    (h : ∀ call ∈ (m.exec s.env tid (s.nextpc tid)).2.2, call.blocks = false) :
    (turn m p s tid rest).place = .turns rest ∧
      (turn m p s tid rest).instructions = s.instructions + 1 ∧
      (turn m p s tid rest).nextpc =
        Function.update s.nextpc tid (m.exec s.env tid (s.nextpc tid)).2.1 := by
  obtain ⟨a, ha⟩ := threadCalls_ok (m := m) h
    { s.toThreads with env := (m.exec s.env tid (s.nextpc tid)).1 }
  unfold turn
  simp only [ha, and_self]

namespace Run

theorem Sound.start (a : Threads E) (nextpc : Nat → UInt64) :
    Sound p (Run.start p a nextpc) where
  along := fun _ he => absurd he List.not_mem_nil
  counted := rfl
  bounded := Nat.zero_le _
  continues := fun h => Place.noConfusion h
  finished := fun h => Place.noConfusion h
  alive := fun _ h => Place.noConfusion h
  knows := by
    intro tid htid
    obtain ⟨hactive, hasked⟩ := Finset.mem_filter.mp htid
    exact if_pos ⟨hasked, hactive⟩

/-! ### One step -/

theorem turn_due (r : Run E) (tid : Nat) : (r.turn m p tid).due =
    Function.update ((m.exec r.state.env tid (r.state.nextpc tid)).2.2.foldl (watchCall m)
      (r.due, r.known)).1 tid (m.exec r.state.env tid (r.state.nextpc tid)).2.1 := rfl

theorem step_eq_turn {tid : Nat} {rest : List Nat} (hplace : r.state.place = .turns (tid :: rest))
    (hmask : tid ∈ r.state.threadMask) :
    r.step m p = r.turn m p tid ∧ (r.step m p).state = Skip.turn m p r.state tid rest := by
  have hstep : r.step m p = r.turn m p tid := by
    unfold Run.step
    rw [hplace]
    exact if_pos hmask
  refine ⟨hstep, ?_⟩
  rw [hstep]
  show Skip.step m p r.state = _
  unfold Skip.step
  rw [hplace]
  exact if_pos hmask

/-- Every other step executes nothing. -/
theorem step_eq_same (h : ∀ tid rest, r.state.place = .turns (tid :: rest) →
    tid ∉ r.state.threadMask) : r.step m p = { r with state := Skip.step m p r.state } := by
  unfold Run.step
  cases hplace : r.state.place with
  | turns l =>
      cases l with
      | nil => rfl
      | cons tid rest => exact if_neg (h tid rest hplace)
  | head => rfl
  | returned => rfl
  | stopped message => rfl

theorem step_skip {tid : Nat} {rest : List Nat} (hplace : r.state.place = .turns (tid :: rest))
    (hmask : tid ∉ r.state.threadMask) :
    r.step m p = { r with state := { r.state with place := .turns rest } } := by
  rw [step_eq_same fun t l hturns => by rw [hplace] at hturns; cases hturns; exact hmask]
  unfold Skip.step
  rw [hplace]
  dsimp only
  rw [if_neg hmask]

theorem Sound.turn {tid : Nat} {rest : List Nat} (h : r.Sound p)
    (hplace : r.state.place = .turns (tid :: rest)) (hmask : tid ∈ r.state.threadMask)
    (hcareful : r.Careful m p) : (r.step m p).Sound p ∧
      (r.step m p).state.place = .turns rest ∧
      (r.step m p).executed.length = r.executed.length + 1 := by
  unfold Careful at hcareful
  rw [hplace] at hcareful
  obtain ⟨hknown, hlt, hblock⟩ := hcareful hmask
  obtain ⟨hstep, hstate⟩ := step_eq_turn (m := m) (p := p) hplace hmask
  obtain ⟨hturns, hcount, hnext⟩ := turn_spec (p := p) rest hblock
  have hexecuted : (r.step m p).executed =
      r.executed ++ [⟨tid, r.state.nextpc tid, r.due tid⟩] := by
    rw [hstep]
    rfl
  have hlen : (r.step m p).executed.length = r.executed.length + 1 := by
    rw [hexecuted, List.length_append, List.length_singleton]
  rw [← hstate] at hturns hcount hnext
  have hcounted := h.counted
  have hlt' : r.state.instructions.toNat < p.limit.toNat := hlt
  refine ⟨⟨⟨?_, ?_, ?_, ?_, ?_, ?_⟩, ?_⟩, hturns, hlen⟩
  · intro e he
    rw [hexecuted] at he
    rcases List.mem_append.mp he with he | he
    · exact h.along e he
    · rw [List.mem_singleton.mp he]
      exact h.knows tid hknown
  · have hbound := p.limit.toNat_lt
    rw [hcount, hlen, UInt64.toNat_add, show (1 : UInt64).toNat = 1 from rfl]
    omega
  · omega
  · intro hback
    rw [hturns] at hback
    cases hback
  · intro hback
    rw [hturns] at hback
    cases hback
  · intro message hback
    rw [hturns] at hback
    cases hback
  · intro t ht
    rw [hnext, hstep]
    rw [hstep] at ht
    obtain ⟨hmem, hdue⟩ := watchCalls_known _ _ ht
    rw [turn_due]
    by_cases htid : t = tid
    · rw [htid, Function.update_self, Function.update_self]
    · rw [Function.update_of_ne htid, Function.update_of_ne htid, hdue]
      exact h.knows t hmem

theorem Sound.step (h : r.Sound p) (hcareful : r.Careful m p) : (r.step m p).Sound p := by
  cases hplace : r.state.place with
  | head =>
      unfold Careful at hcareful
      rw [hplace] at hcareful
      unfold CarefulAt at hcareful
      rw [step_eq_same fun tid rest hturns => by rw [hplace] at hturns; cases hturns]
      unfold Skip.step
      rw [hplace]
      dsimp only
      by_cases hon : r.state.goesOn p
      · rw [if_pos hon]
        exact ⟨⟨h.along, h.counted, h.bounded, fun hback => Place.noConfusion hback,
          fun hback => Place.noConfusion hback, fun _ hback => Place.noConfusion hback⟩, h.knows⟩
      · rw [if_neg hon]
        obtain ⟨hknown, hnone⟩ := hcareful.2 hon
        refine ⟨⟨h.along, h.counted, h.bounded, ?_, ?_, fun _ hback => Place.noConfusion hback⟩,
          h.knows⟩
        · intro _ tid htid
          exact (if_pos htid).trans (h.knows tid (hknown tid htid.1 htid.2))
        · intro _
          have hcounted := h.counted
          have hbounded := h.bounded
          by_cases hlt : r.state.instructions < p.limit
          · cases hstop : r.state.stopSkipping with
            | true => exact .inr (.inl hstop)
            | false => exact .inr (.inr (hnone hlt hstop))
          · have hle : p.limit.toNat ≤ r.state.instructions.toNat := Nat.le_of_not_lt hlt
            exact .inl (by dsimp only; omega)
  | turns l =>
      cases l with
      | nil =>
          rw [step_eq_same fun tid rest hturns => by rw [hplace] at hturns; cases hturns]
          unfold Skip.step
          rw [hplace]
          exact ⟨⟨h.along, h.counted, h.bounded, fun hback => Place.noConfusion hback,
            fun hback => Place.noConfusion hback, fun _ hback => Place.noConfusion hback⟩, h.knows⟩
      | cons tid rest =>
          by_cases hmask : tid ∈ r.state.threadMask
          · exact (h.turn hplace hmask hcareful).1
          · rw [step_skip hplace hmask]
            exact ⟨⟨h.along, h.counted, h.bounded, fun hback => Place.noConfusion hback,
              fun hback => Place.noConfusion hback, fun _ hback => Place.noConfusion hback⟩,
              h.knows⟩
  | returned =>
      rw [step_eq_same fun tid rest hturns => by rw [hplace] at hturns; cases hturns]
      unfold Skip.step
      rw [hplace]
      exact h
  | stopped message => exact (h.alive message hplace).elim

/-! ### One round -/

/-- **A round comes back to the head of the loop**, and has executed something if a thread could
run when it began. -/
theorem Sound.round {l : List Nat} (hcareful : ∀ k, ((Run.step m p)^[k] r).Careful m p)
    (h : r.Sound p) (hplace : r.state.place = .turns l) :
    ∃ k, ((Run.step m p)^[k] r).state.place = .head ∧
      r.executed.length ≤ ((Run.step m p)^[k] r).executed.length ∧
      ((∃ tid ∈ l, tid ∈ r.state.threadMask) →
        r.executed.length < ((Run.step m p)^[k] r).executed.length) := by
  induction l generalizing r with
  | nil =>
      have hstep : Run.step m p r = { r with state := { r.state with place := .head } } := by
        rw [step_eq_same fun tid rest hturns => by rw [hplace] at hturns; cases hturns]
        unfold Skip.step
        rw [hplace]
      refine ⟨1, ?_⟩
      rw [Function.iterate_one, hstep]
      refine ⟨rfl, le_rfl, ?_⟩
      rintro ⟨tid, htid, -⟩
      cases htid
  | cons tid rest ih =>
      by_cases hmask : tid ∈ r.state.threadMask
      · obtain ⟨hsound, hturns, hlen⟩ := h.turn hplace hmask (hcareful 0)
        obtain ⟨k, hhead, hle, -⟩ := ih (iterate_tail hcareful) hsound hturns
        refine ⟨k + 1, ?_⟩
        rw [Function.iterate_succ_apply]
        exact ⟨hhead, by omega, fun _ => by omega⟩
      · -- the masks stay as they are until something is executed
        have hstep := step_skip (m := m) (p := p) hplace hmask
        have hsound := h.step (hcareful 0)
        have hturns : (Run.step m p r).state.place = .turns rest := by rw [hstep]
        have hrest := ih (iterate_tail hcareful) hsound hturns
        obtain ⟨k, hhead, hle, hlt⟩ := hrest
        refine ⟨k + 1, ?_⟩
        rw [Function.iterate_succ_apply]
        have hsame : (Run.step m p r).executed = r.executed := by rw [hstep]
        have hmasks : (Run.step m p r).state.threadMask = r.state.threadMask := by rw [hstep]
        rw [hsame] at hle hlt
        rw [hmasks] at hlt
        refine ⟨hhead, hle, ?_⟩
        rintro ⟨t, ht, htmask⟩
        rcases List.mem_cons.mp ht with rfl | ht
        · exact (hmask htmask).elim
        · exact hlt ⟨t, ht, htmask⟩

variable (m p) in
/-- At the head of the loop, with a careful rest of the call. -/
structure Heading (r : Run E) : Prop where
  careful : ∀ k, ((Run.step m p)^[k] r).Careful m p
  sound : ∀ k, ((Run.step m p)^[k] r).Sound p
  head : r.state.place = .head

variable (p) in
def Leaving (r : Run E) : Prop := r.state.place = .head ∧ ¬r.state.goesOn p

/-- Each time around something is executed, and no more is executed than was asked for. -/
theorem Heading.round (h : r.Heading m p) : r.Leaving p ∨
    ∃ k, ((Run.step m p)^[k] r).Heading m p ∧
      p.limit.toNat - ((Run.step m p)^[k] r).executed.length <
        p.limit.toNat - r.executed.length := by
  by_cases hon : r.state.goesOn p
  · have hcareful := h.careful 0
    unfold Careful at hcareful
    rw [Function.iterate_zero_apply, h.head] at hcareful
    unfold CarefulAt at hcareful
    have hstep : Run.step m p r = { r with state := { r.state with place := .turns p.tids } } := by
      rw [step_eq_same fun tid rest hturns => by rw [h.head] at hturns; cases hturns]
      unfold Skip.step
      rw [h.head]
      dsimp only
      rw [if_pos hon]
    have hturns : (Run.step m p r).state.place = .turns p.tids := by rw [hstep]
    have hsame : (Run.step m p r).executed = r.executed := by rw [hstep]
    have hmasks : (Run.step m p r).state.threadMask = r.state.threadMask := by rw [hstep]
    obtain ⟨k, hhead, -, hlt⟩ := (h.sound 1).round (iterate_tail h.careful) hturns
    rw [hsame, hmasks] at hlt
    have hmore := hlt (hcareful.1 hon)
    have hbounded := (h.sound (k + 1)).bounded
    rw [Function.iterate_succ_apply] at hbounded
    refine .inr ⟨k + 1, ?_⟩
    rw [Function.iterate_succ_apply]
    exact ⟨⟨iterate_rest (iterate_tail h.careful) k, iterate_rest (iterate_tail h.sound) k, hhead⟩,
      by omega⟩
  · exact .inl ⟨h.head, hon⟩

/-- Instructions that go on with the next word. -/
def plain : Machine Unit := ⟨fun _ _ pc => ((), pc + 4, []), fun _ _ _ _ => false, false⟩

/-- Threads that have not run yet. -/
def fresh (tids : Finset Nat) : Threads Unit :=
  ⟨(), tids, tids, fun _ => false, fun _ => 0, fun _ => 0x1000, fun _ => 0, false⟩

end Run

end AsimFeeder.Aint.Skip
