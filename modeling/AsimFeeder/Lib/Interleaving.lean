/-
Calls of several clients on one state, in any order.

While the calls are made, a history is kept: each call goes through a number of points, and
at each of them something is noted.  A client is undisturbed when every point of its calls
is fine by the history so far.

What the state has in common with the state of a process where the client is alone is a
relation that goes by the history.  The client's own calls keep it where they are fine, and
the calls of the others keep it anyway.
-/
import AsimFeeder.Lib.Checks

namespace AsimFeeder.Lib

variable {ι σ ο ε η π : Type}

/-! ### Points and the history -/

/-- Each point is fine by the history before it. -/
def fineAlong (fine : η → π → Bool) (note : η → π → η) : List π → η → Bool
  | [], _ => true
  | p :: ps, h => fine h p && fineAlong fine note ps (note h p)

theorem fineAlong_append {fine : η → π → Bool} {note : η → π → η} {ps qs : List π} {h : η} :
    fineAlong fine note (ps ++ qs) h = true ↔
      fineAlong fine note ps h = true ∧ fineAlong fine note qs (ps.foldl note h) = true := by
  induction ps generalizing h with
  | nil => exact ⟨fun hqs => ⟨rfl, hqs⟩, fun hqs => hqs.2⟩
  | cons p ps ih =>
      simp only [List.cons_append, fineAlong, Bool.and_eq_true, List.foldl_cons, ih, and_assoc]

theorem fineAlong_cons {fine : η → π → Bool} {note : η → π → η} {p : π} {ps : List π} {h : η} :
    fineAlong fine note (p :: ps) h = true ↔
      fine h p = true ∧ fineAlong fine note ps (note h p) = true := by
  simp only [fineAlong, Bool.and_eq_true]

/-! ### Outcomes -/

variable (call : ι → σ → Except ε (ο × σ))

/-- What the calls return, each with its client, up to the first one that fails. -/
def outcomes : List ι → σ → List (ι × Except ε ο)
  | [], _ => []
  | i :: is, s =>
      match call i s with
      | .ok (o, s) => (i, .ok o) :: outcomes is s
      | .error e => [(i, .error e)]

/-- The calls that are made. -/
def made (is : List ι) (s : σ) : List ι :=
  is.take (outcomes call is s).length

variable {call}

theorem made_cons_ok {i : ι} {is : List ι} {s s' : σ} {o : ο} (h : call i s = .ok (o, s')) :
    made call (i :: is) s = i :: made call is s' := by
  simp only [made, outcomes, h, List.length_cons, List.take_succ_cons]

theorem made_cons_error {i : ι} {is : List ι} {s : σ} {e : ε} (h : call i s = .error e) :
    made call (i :: is) s = [i] := by
  simp only [made, outcomes, h, List.length_cons, List.length_nil, List.take_succ_cons,
    List.take_zero]

/-! ### A client that is undisturbed -/

variable [DecidableEq ι] (call) (points : ι → σ → List π) (note : ι → η → π → η)
  (fine : ι → η → π → Bool)

/-- Each point of the calls of `i` is fine. -/
def undisturbedAlong (i : ι) : List ι → σ → η → Bool
  | [], _, _ => true
  | j :: js, s, h =>
      (j ≠ i || fineAlong (fine i) (note i) (points j s) h) &&
        match call j s with
        | .ok (_, s') => undisturbedAlong i js s' ((points j s).foldl (note j) h)
        | .error _ => true

variable {call points note fine}

/-- **A client that is undisturbed gets what it gets alone.** -/
theorem outcomes_filter {R : ι → η → σ → σ → Prop} {i : ι}
    (hown : ∀ h s t, R i h s t → fineAlong (fine i) (note i) (points i s) h = true →
      Tied (R i ((points i s).foldl (note i) h)) (call i s) (call i t))
    (hother : ∀ j h s t o s', j ≠ i → R i h s t → call j s = .ok (o, s') →
      R i ((points j s).foldl (note j) h) s' t)
    {is : List ι} {h : η} {s t : σ} (hR : R i h s t)
    (hfine : undisturbedAlong call points note fine i is s h = true) :
    (outcomes call is s).filter (·.1 = i) =
      outcomes call ((made call is s).filter (· = i)) t := by
  induction is generalizing h s t with
  | nil => rfl
  | cons j is ih =>
      unfold undisturbedAlong at hfine
      obtain ⟨hcalled, hrest⟩ := Bool.and_eq_true_iff.mp hfine
      by_cases hj : j = i
      · subst hj
        have htied := hown h s t hR (by simpa using hcalled)
        cases hcall : call j s with
        | error e =>
            rw [hcall] at htied
            cases hcall' : call j t with
            | ok r => rw [hcall'] at htied; cases htied
            | error e' =>
                rw [hcall'] at htied
                cases htied
                rw [made_cons_error hcall]
                simp [outcomes, hcall, hcall']
        | ok r =>
            obtain ⟨o, s'⟩ := r
            cases hcall' : call j t with
            | error e => rw [hcall, hcall'] at htied; cases htied
            | ok r' =>
                obtain ⟨o', t'⟩ := r'
                rw [hcall, hcall'] at htied
                cases htied with
                | ok _ hR' =>
                    rw [hcall] at hrest
                    have hih := ih hR' hrest
                    rw [made_cons_ok hcall]
                    simp [outcomes, hcall, hcall', hih]
      · cases hcall : call j s with
        | error e =>
            rw [made_cons_error hcall]
            simp [outcomes, hcall, hj]
        | ok r =>
            obtain ⟨o, s'⟩ := r
            rw [hcall] at hrest
            have hih := ih (hother j h s t o s' hj hR hcall) hrest
            rw [made_cons_ok hcall]
            simp [outcomes, hcall, hj, hih]

end AsimFeeder.Lib
