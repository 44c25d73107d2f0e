/-
Runs whose steps may stop at a check.
-/
import Mathlib

namespace AsimFeeder.Lib

variable {α β ε : Type}

theorem bind_eq_ok {x : Except ε α} {f : α → Except ε β} {b : β} (h : x >>= f = .ok b) :
    ∃ a, x = .ok a ∧ f a = .ok b := by
  cases x with
  | ok a => exact ⟨a, rfl, h⟩
  | error e => cases h

theorem map_eq_ok {x : Except ε α} {f : α → β} {b : β} (h : x.map f = .ok b) :
    ∃ a, x = .ok a ∧ f a = b := by
  cases x with
  | ok a => exact ⟨a, rfl, Except.ok.inj h⟩
  | error e => cases h

theorem eq_ok_of_toOption {x : Except ε α} {a : α} (h : x.toOption = some a) : x = .ok a := by
  cases x with
  | ok b => exact congrArg Except.ok (Option.some.inj h)
  | error e => cases h

/-- A check that did not fail. -/
theorem check_eq_ok {p : Prop} [Decidable p] {e : ε} {x : Except ε α} {a : α}
    (h : (if p then .error e else x) = .ok a) : ¬p ∧ x = .ok a := by
  by_cases hp : p
  · rw [if_pos hp] at h
    cases h
  · rw [if_neg hp] at h
    exact ⟨hp, h⟩

/-- A loop over a list gets through when each of its steps does; `t` is kept with each result. -/
theorem mapM_tagged {γ : Type} {f : α → Except ε (γ × β)} {t : α → γ} {P : α → β → Prop}
    {l : List α} (h : ∀ a ∈ l, ∃ b, f a = .ok (t a, b) ∧ P a b) :
    ∃ l', l.mapM f = .ok l' ∧ l'.map Prod.fst = l.map t ∧
      ∀ y ∈ l', ∃ a ∈ l, y.1 = t a ∧ P a y.2 := by
  induction l with
  | nil => exact ⟨[], rfl, rfl, by simp⟩
  | cons a l ih =>
      obtain ⟨b, hb, hP⟩ := h a List.mem_cons_self
      obtain ⟨l', hl', htags, hall⟩ := ih fun x hx => h x (List.mem_cons_of_mem a hx)
      refine ⟨(t a, b) :: l', ?_, by rw [List.map_cons, List.map_cons, htags], ?_⟩
      · rw [List.mapM_cons, hb, hl']
        rfl
      · intro y hy
        rcases List.mem_cons.mp hy with rfl | hy
        · exact ⟨a, List.mem_cons_self, rfl, hP⟩
        · obtain ⟨x, hx, hxy⟩ := hall y hy
          exact ⟨x, List.mem_cons_of_mem a hx, hxy⟩

/-- Each result of a loop that got through is that of one of its steps. -/
theorem exists_of_mapM_ok {f : α → Except ε β} {l : List α} {l' : List β}
    (h : l.mapM f = .ok l') : ∀ b ∈ l', ∃ a ∈ l, f a = .ok b := by
  induction l generalizing l' with
  | nil =>
      intro b hb
      cases h
      cases hb
  | cons a l ih =>
      rw [List.mapM_cons] at h
      obtain ⟨b, hb, h⟩ := bind_eq_ok h
      obtain ⟨l₁, hl₁, h⟩ := bind_eq_ok h
      cases h
      intro y hy
      rcases List.mem_cons.mp hy with rfl | hy
      · exact ⟨a, List.mem_cons_self, hb⟩
      · obtain ⟨x, hx, hxy⟩ := ih hl₁ y hy
        exact ⟨x, List.mem_cons_of_mem a hx, hxy⟩

/-- What every step of a loop keeps holds after a loop that got through. -/
theorem foldlM_ok_invariant {f : β → α → Except ε β} {P : β → Prop} {l : List α} {b b' : β}
    (hstep : ∀ a b b', P b → f b a = .ok b' → P b') (hb : P b) (h : l.foldlM f b = .ok b') :
    P b' := by
  induction l generalizing b with
  | nil =>
      cases h
      exact hb
  | cons a l ih =>
      rw [List.foldlM_cons] at h
      obtain ⟨b₁, hb₁, h⟩ := bind_eq_ok h
      exact ih (hstep a b b₁ hb hb₁) h

/-! ### Two runs that return the same -/

section Tied

variable {σ τ : Type} {R : σ → σ → Prop} {x y : Except ε (α × σ)}

/-- Both return the same with states in relation, or both stop at the same check. -/
inductive Tied (R : σ → σ → Prop) : Except ε (α × σ) → Except ε (α × σ) → Prop
  | ok (a : α) {s t : σ} (h : R s t) : Tied R (.ok (a, s)) (.ok (a, t))
  | error (e : ε) : Tied R (.error e) (.error e)

theorem Tied.bind_of_eq {R' : τ → τ → Prop} {f g : α × σ → Except ε (β × τ)} (h : Tied R x y)
    (hfg : ∀ a s t, x = .ok (a, s) → y = .ok (a, t) → R s t → Tied R' (f (a, s)) (g (a, t))) :
    Tied R' (x >>= f) (y >>= g) := by
  cases h with
  | ok a h => exact hfg a _ _ rfl rfl h
  | error e => exact .error e

theorem Tied.bind {R' : τ → τ → Prop} {f g : α × σ → Except ε (β × τ)} (h : Tied R x y)
    (hfg : ∀ a s t, R s t → Tied R' (f (a, s)) (g (a, t))) : Tied R' (x >>= f) (y >>= g) :=
  h.bind_of_eq fun a s t _ _ hst => hfg a s t hst

end Tied

end AsimFeeder.Lib
