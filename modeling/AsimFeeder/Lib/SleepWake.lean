/-
Two parties that announce that they are about to sleep.

Each party has a flag that it sets before it suspends itself.  Having set it, it looks
at the other's flag; and a party that finds the other's flag set takes it back and sends
a signal, which stays pending until the other waits for it.

Nothing is assumed about when a party decides to sleep.  What holds is that an
announcement is never lost: it is in exactly one place, which is the flag, the hands of
the other party, or the pending signal.  So two parties never sleep with nothing on its
way to either of them.
-/
import Mathlib

namespace AsimFeeder.Lib

/-- How far a party is with going to sleep. -/
inductive Mode
  | awake | announced | looked
  deriving DecidableEq, Repr

/-- What a party does next, once it has sent a signal. -/
def Mode.afterKill : Mode → Mode
  | .announced => .looked
  | m => m

/-- How far a party is with waking the other. -/
inductive Hand
  | free | taking | killing
  deriving DecidableEq, Repr

/-- A party: its flag and its signal are what the other one writes. -/
@[ext] structure Sleeper where
  mode : Mode
  flag : Bool
  signal : Bool
  hand : Hand
  deriving DecidableEq, Repr

namespace Sleeper

/-- A step of the first of two parties. -/
inductive Step : Sleeper → Sleeper → Sleeper → Sleeper → Prop
  | skip (me you : Sleeper) : Step me you me you
  | announce {me you : Sleeper} (hawake : me.mode = .awake) (hfree : me.hand = .free) :
      Step me you { me with mode := .announced, flag := true } you
  | look {me you : Sleeper} (hannounced : me.mode = .announced) (hfree : me.hand = .free)
      (hflag : you.flag = false) : Step me you { me with mode := .looked } you
  | find {me you : Sleeper} (hup : me.mode ≠ .looked) (hfree : me.hand = .free)
      (hflag : you.flag = true) : Step me you { me with hand := .taking } you
  | take {me you : Sleeper} (htaking : me.hand = .taking) :
      Step me you { me with hand := .killing } { you with flag := false }
  | kill {me you : Sleeper} (hkilling : me.hand = .killing) :
      Step me you { me with hand := .free, mode := me.mode.afterKill }
        { you with signal := true }
  | wake {me you : Sleeper} (hlooked : me.mode = .looked) (hsignal : me.signal = true) :
      Step me you { me with mode := .awake, signal := false } you

/-- In how many places the announcement of a party is. -/
def tokens (me you : Sleeper) : Nat :=
  me.flag.toNat + me.signal.toNat + if you.hand = .killing then 1 else 0

/-- What holds of a party, with what the other one may have in hand. -/
structure Kept (me you : Sleeper) : Prop where
  once : tokens me you = if me.mode = .awake then 0 else 1
  taking : you.hand = .taking → me.flag = true
  free : me.mode = .looked → me.hand = .free

/-- Each announcement is kept, and of two parties that have looked one saw the other's. -/
structure Sound (me you : Sleeper) : Prop where
  mine : Kept me you
  yours : Kept you me
  seen : me.mode = .looked → you.mode = .looked → ¬ (me.flag = true ∧ you.flag = true)

variable {me you me' you' : Sleeper}

theorem Sound.symm (h : Sound me you) : Sound you me :=
  ⟨h.yours, h.mine, fun hyou hme hflags => h.seen hme hyou hflags.symm⟩

theorem sound_awake {me you : Sleeper} (hme : me = ⟨.awake, false, false, .free⟩)
    (hyou : you = ⟨.awake, false, false, .free⟩) : Sound me you := by
  subst hme hyou
  exact ⟨⟨rfl, nofun, nofun⟩, ⟨rfl, nofun, nofun⟩, nofun⟩

/-- A party that has announced itself, and holds its announcement no more, is to be woken. -/
theorem Kept.flag_of_silent (h : Kept me you) (hmode : me.mode ≠ .awake)
    (hsignal : me.signal = false) (hhand : you.hand ≠ .killing) : me.flag = true := by
  have honce := h.once
  unfold tokens at honce
  rw [if_neg hmode, if_neg hhand, hsignal] at honce
  cases hflag : me.flag with
  | true => rfl
  | false => rw [hflag] at honce; cases honce

theorem Kept.flag_false_of_awake (h : Kept me you) (hmode : me.mode = .awake) :
    me.flag = false := by
  have honce := h.once
  unfold tokens at honce
  rw [if_pos hmode] at honce
  cases hflag : me.flag with
  | false => rfl
  | true => rw [hflag] at honce; simp at honce

theorem Kept.signal_false_of_awake (h : Kept me you) (hmode : me.mode = .awake) :
    me.signal = false := by
  have honce := h.once
  unfold tokens at honce
  rw [if_pos hmode] at honce
  cases hsignal : me.signal with
  | false => rfl
  | true => rw [hsignal] at honce; simp at honce

/-- While a party is about to send the signal, there is nothing else on its way. -/
theorem Kept.silent_of_killing (h : Kept me you) (hhand : you.hand = .killing) :
    me.flag = false ∧ me.signal = false ∧ me.mode ≠ .awake := by
  have honce := h.once
  unfold tokens at honce
  rw [if_pos hhand] at honce
  have hmode : me.mode ≠ .awake := by
    intro hmode
    rw [if_pos hmode] at honce
    omega
  rw [if_neg hmode] at honce
  refine ⟨?_, ?_, hmode⟩
  · cases hflag : me.flag with
    | false => rfl
    | true => rw [hflag, Bool.toNat_true] at honce; omega
  · cases hsignal : me.signal with
    | false => rfl
    | true => rw [hsignal, Bool.toNat_true] at honce; omega

/-- **An announcement is never lost, whatever a party does.** -/
theorem Sound.step (h : Sound me you) (hstep : Step me you me' you') : Sound me' you' := by
  obtain ⟨hmine, hyours, hseen⟩ := h
  have honce := hmine.once
  have honce' := hyours.once
  unfold tokens at honce honce'
  cases hstep with
  | skip => exact ⟨hmine, hyours, hseen⟩
  | announce hawake hfree =>
      rw [if_pos hawake] at honce
      refine ⟨⟨?_, fun _ => rfl, nofun⟩, ⟨?_, ?_, hyours.free⟩, nofun⟩
      · unfold tokens
        simp only [reduceCtorEq, if_false, Bool.toNat_true]
        omega
      · unfold tokens
        exact honce'
      · exact hyours.taking
  | look hannounced hfree hflag =>
      rw [hannounced] at honce
      refine ⟨⟨?_, hmine.taking, fun _ => hfree⟩, ⟨honce', hyours.taking, hyours.free⟩, ?_⟩
      · unfold tokens
        simpa using honce
      · intro _ _ hflags
        rw [hflag] at hflags
        cases hflags.2
  | find hup hfree hflag =>
      refine ⟨⟨honce, hmine.taking, fun hlooked => absurd hlooked hup⟩, ?_,
        fun hlooked => absurd hlooked hup⟩
      refine ⟨?_, fun _ => hflag, hyours.free⟩
      unfold tokens
      simpa [hfree] using honce'
  | take htaking =>
      have hflag := hyours.taking htaking
      have hup : me.mode ≠ .looked := by
        intro hlooked
        rw [hmine.free hlooked] at htaking
        cases htaking
      refine ⟨⟨honce, hmine.taking, fun hlooked => absurd hlooked hup⟩, ⟨?_, nofun, hyours.free⟩,
        fun hlooked => absurd hlooked hup⟩
      unfold tokens
      rw [hflag, htaking] at honce'
      simp only [Bool.toNat_true, reduceCtorEq, if_false] at honce'
      simp only [Bool.toNat_false, if_true]
      omega
  | kill hkilling =>
      obtain ⟨hflag, hsignal, hdown⟩ := hyours.silent_of_killing hkilling
      have hup : me.mode ≠ .looked := by
        intro hlooked
        rw [hmine.free hlooked] at hkilling
        cases hkilling
      have hawake : me.mode.afterKill = .awake ↔ me.mode = .awake := by
        cases me.mode <;> simp [Mode.afterKill]
      refine ⟨⟨?_, hmine.taking, fun _ => rfl⟩, ⟨?_, nofun, hyours.free⟩, ?_⟩
      · unfold tokens
        simp only [hawake]
        exact honce
      · unfold tokens
        simp [hflag, hdown]
      · intro _ _ hflags
        dsimp only at hflags
        rw [hflag] at hflags
        cases hflags.2
  | wake hlooked hsignal =>
      have hdown : me.mode ≠ .awake := by simp [hlooked]
      rw [if_neg hdown, hsignal, Bool.toNat_true] at honce
      refine ⟨⟨?_, hmine.taking, nofun⟩, ⟨honce', hyours.taking, hyours.free⟩, nofun⟩
      unfold tokens
      rw [if_pos rfl, Bool.toNat_false]
      dsimp only
      omega

/-- A party goes to sleep only when the other's announcement is not there to be seen. -/
theorem Sound.looked (h : Sound me you) (hstep : Step me you me' you')
    (hlooked : me'.mode = .looked) : me.mode = .looked ∨ you'.flag = false := by
  cases hstep with
  | skip => exact Or.inl hlooked
  | announce hawake hfree => cases hlooked
  | look hannounced hfree hflag => exact Or.inr hflag
  | find hup hfree hflag => exact Or.inl hlooked
  | take htaking => exact Or.inr rfl
  | kill hkilling => exact Or.inr (h.yours.silent_of_killing hkilling).1
  | wake hlooked' hsignal => cases hlooked

/-- **Never do both sleep with no signal on its way.** -/
theorem Sound.not_both_asleep (h : Sound me you) (hme : me.mode = .looked)
    (hyou : you.mode = .looked) (hsignal : me.signal = false) : you.signal = true := by
  by_contra hsilent
  rw [Bool.not_eq_true] at hsilent
  have hflag := h.mine.flag_of_silent (by simp [hme]) hsignal (by simp [h.yours.free hyou])
  have hflag' := h.yours.flag_of_silent (by simp [hyou]) hsilent (by simp [h.mine.free hme])
  exact h.seen hme hyou ⟨hflag, hflag'⟩

end Sleeper

end AsimFeeder.Lib
