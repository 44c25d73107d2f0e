/-
Monitors.

A mutex is held by one thread, and the others stand in its line.  A condition has a line
too.  A thread that gets out of the line of a condition takes the mutex, or joins the line
of the mutex.

What keeps a monitor orderly is that a thread stands in one line, once, and that nobody
stands in the line of a mutex that nobody holds.
-/
import Mathlib

namespace AsimFeeder.Lib

/-- Who holds each mutex, and who stands in the line of each mutex and each condition. -/
structure Monitor (K C T : Type) where
  holder : K → Option T
  line : K ⊕ C → List T

namespace Monitor

variable {K C T : Type} [DecidableEq K] [DecidableEq C] (m : Monitor K C T)

def setHolder (k : K) (t : Option T) : Monitor K C T :=
  { m with holder := Function.update m.holder k t }

def setLine (p : K ⊕ C) (ts : List T) : Monitor K C T :=
  { m with line := Function.update m.line p ts }

def acquire (k : K) (t : T) : Monitor K C T :=
  if m.holder k = none then m.setHolder k (some t)
  else m.setLine (.inl k) (m.line (.inl k) ++ [t])

/-- The mutex goes to the first of its line. -/
def release (k : K) : Monitor K C T :=
  (m.setHolder k (m.line (.inl k)).head?).setLine (.inl k) (m.line (.inl k)).tail

def wait (c : C) (t : T) : Monitor K C T :=
  m.setLine (.inr c) (m.line (.inr c) ++ [t])

/-- The first of the line of `c`, if there is one, acquires `k`. -/
def signal (c : C) (k : K) : Monitor K C T :=
  match m.line (.inr c) with
  | [] => m
  | t :: ts => (m.setLine (.inr c) ts).acquire k t

/-- All of the line of `c` acquire `k`, the first one first. -/
def broadcast (c : C) (k : K) : Monitor K C T :=
  (m.line (.inr c)).foldl (fun m t => m.acquire k t) (m.setLine (.inr c) [])

variable {m}

theorem signal_nil {c : C} (h : m.line (.inr c) = []) (k : K) : m.signal c k = m := by
  unfold signal
  rw [h]

theorem signal_cons {c : C} {t : T} {ts : List T} (h : m.line (.inr c) = t :: ts) (k : K) :
    m.signal c k = (m.setLine (.inr c) ts).acquire k t := by
  unfold signal
  rw [h]

@[simp] theorem line_setLine (p q : K ⊕ C) (ts : List T) :
    (m.setLine p ts).line q = if q = p then ts else m.line q :=
  Function.update_apply m.line p ts q

omit [DecidableEq C] in
@[simp] theorem holder_setHolder (k k' : K) (t : Option T) :
    (m.setHolder k t).holder k' = if k' = k then t else m.holder k' :=
  Function.update_apply m.holder k t k'

@[simp] theorem holder_setLine (p : K ⊕ C) (ts : List T) : (m.setLine p ts).holder = m.holder := rfl

omit [DecidableEq C] in
@[simp] theorem line_setHolder (k : K) (t : Option T) : (m.setHolder k t).line = m.line := rfl

omit [DecidableEq C] in
theorem setHolder_setHolder (k : K) (t u : Option T) :
    (m.setHolder k t).setHolder k u = m.setHolder k u := by
  unfold setHolder
  simp

theorem setLine_setLine (p : K ⊕ C) (ts us : List T) :
    (m.setLine p ts).setLine p us = m.setLine p us := by
  unfold setLine
  simp

@[simp] theorem setLine_line (p : K ⊕ C) : m.setLine p (m.line p) = m := by
  unfold setLine
  rw [Function.update_eq_self]

/-- Who acquires a mutex does not touch the line of a condition. -/
theorem setLine_acquire (c : C) (ts : List T) (k : K) (t : T) :
    (m.acquire k t).setLine (.inr c) ts = (m.setLine (.inr c) ts).acquire k t := by
  unfold acquire
  by_cases hfree : m.holder k = none
  · rw [if_pos hfree, holder_setLine, if_pos hfree]
    rfl
  · rw [if_neg hfree, holder_setLine, if_neg hfree]
    simp only [line_setLine, if_neg (Sum.inl_ne_inr : Sum.inl k ≠ Sum.inr c)]
    unfold setLine
    rw [Function.update_comm Sum.inr_ne_inl]

theorem line_acquire_inr (c : C) (k : K) (t : T) :
    (m.acquire k t).line (.inr c) = m.line (.inr c) := by
  unfold acquire
  by_cases hfree : m.holder k = none
  · rw [if_pos hfree, line_setHolder]
  · rw [if_neg hfree, line_setLine, if_neg Sum.inr_ne_inl]

theorem broadcast_nil {c : C} {k : K} (h : m.line (.inr c) = []) : m.broadcast c k = m := by
  unfold broadcast
  rw [h, List.foldl_nil, ← h]
  unfold setLine
  rw [Function.update_eq_self]

/-- **A broadcast is a signal, and a broadcast to the others.** -/
theorem broadcast_cons {c : C} {k : K} {t : T} {ts : List T} (h : m.line (.inr c) = t :: ts) :
    m.broadcast c k = ((m.setLine (.inr c) ts).acquire k t).broadcast c k := by
  unfold broadcast
  rw [h, List.foldl_cons, line_acquire_inr, line_setLine, if_pos rfl, setLine_acquire,
    setLine_setLine]

/-! ### Orderly monitors -/

variable (m) in
structure Orderly : Prop where
  nodup : ∀ p, (m.line p).Nodup
  once : ∀ p q t, t ∈ m.line p → t ∈ m.line q → p = q
  idle : ∀ k, m.holder k = none → m.line (.inl k) = []

variable (m) in
def Waits (t : T) : Prop := ∃ p, t ∈ m.line p

/-- A thread that stands nowhere may join the line of a condition, or of a held mutex. -/
theorem Orderly.join (h : m.Orderly) {t : T} (ht : ¬ m.Waits t) {p : K ⊕ C}
    (hp : ∀ k, p = .inl k → m.holder k ≠ none) :
    (m.setLine p (m.line p ++ [t])).Orderly := by
  have hnot : ∀ q, t ∉ m.line q := fun q hq => ht ⟨q, hq⟩
  have hmem : ∀ q u, u ∈ (m.setLine p (m.line p ++ [t])).line q → u ∈ m.line q ∨ u = t ∧ q = p := by
    intro q u hu
    rw [line_setLine] at hu
    by_cases hq : q = p
    · rw [if_pos hq, List.mem_append, List.mem_singleton] at hu
      exact hu.imp (fun hu => hq ▸ hu) (fun hu => ⟨hu, hq⟩)
    · rw [if_neg hq] at hu
      exact Or.inl hu
  constructor
  · intro q
    rw [line_setLine]
    by_cases hq : q = p
    · rw [if_pos hq, List.nodup_append]
      refine ⟨h.nodup p, List.nodup_singleton t, ?_⟩
      intro u hu v hv huv
      rw [List.mem_singleton] at hv
      exact hnot p (hv ▸ huv ▸ hu)
    · rw [if_neg hq]
      exact h.nodup q
  · intro q r u hq hr
    rcases hmem q u hq with hq | ⟨hu, hq⟩
    · rcases hmem r u hr with hr | ⟨hu, hr⟩
      · exact h.once q r u hq hr
      · exact absurd (hu ▸ hq) (hnot q)
    · rcases hmem r u hr with hr | ⟨hu, hr⟩
      · exact absurd (hu ▸ hr) (hnot r)
      · rw [hq, hr]
  · intro k hk
    rw [holder_setLine] at hk
    rw [line_setLine, if_neg fun heq => hp k heq.symm hk]
    exact h.idle k hk

theorem waits_join (p : K ⊕ C) (t u : T) :
    (m.setLine p (m.line p ++ [t])).Waits u ↔ m.Waits u ∨ u = t := by
  constructor
  · rintro ⟨q, hq⟩
    rw [line_setLine] at hq
    by_cases hqp : q = p
    · rw [if_pos hqp, List.mem_append, List.mem_singleton] at hq
      exact hq.imp_left fun hu => ⟨p, hu⟩
    · rw [if_neg hqp] at hq
      exact Or.inl ⟨q, hq⟩
  · rintro (⟨q, hq⟩ | rfl)
    · refine ⟨q, ?_⟩
      rw [line_setLine]
      by_cases hqp : q = p
      · subst hqp
        rw [if_pos rfl]
        exact List.mem_append_left _ hq
      · rw [if_neg hqp]
        exact hq
    · exact ⟨p, by simp⟩

/-- The first of a line may leave it. -/
theorem Orderly.leave (h : m.Orderly) {p : K ⊕ C} {t : T} {ts : List T} (hp : m.line p = t :: ts) :
    (m.setLine p ts).Orderly := by
  have hsub : ∀ q u, u ∈ (m.setLine p ts).line q → u ∈ m.line q := by
    intro q u hu
    rw [line_setLine] at hu
    by_cases hq : q = p
    · rw [if_pos hq] at hu
      rw [hq, hp]
      exact List.mem_cons_of_mem t hu
    · rwa [if_neg hq] at hu
  constructor
  · intro q
    rw [line_setLine]
    by_cases hq : q = p
    · rw [if_pos hq]
      exact (hp ▸ h.nodup p).of_cons
    · rw [if_neg hq]
      exact h.nodup q
  · intro q r u hq hr
    exact h.once q r u (hsub q u hq) (hsub r u hr)
  · intro k hk
    rw [holder_setLine] at hk
    rw [line_setLine]
    by_cases hq : (Sum.inl k : K ⊕ C) = p
    · have hnil := h.idle k hk
      rw [hq, hp] at hnil
      cases hnil
    · rw [if_neg hq]
      exact h.idle k hk

theorem Orderly.waits_leave (h : m.Orderly) {p : K ⊕ C} {t : T} {ts : List T}
    (hp : m.line p = t :: ts) (u : T) : (m.setLine p ts).Waits u ↔ m.Waits u ∧ u ≠ t := by
  have hnodup : t ∉ ts := (List.nodup_cons.mp (hp ▸ h.nodup p)).1
  have ht : t ∈ m.line p := by
    rw [hp]
    exact List.mem_cons_self
  constructor
  · rintro ⟨q, hq⟩
    rw [line_setLine] at hq
    by_cases hqp : q = p
    · rw [if_pos hqp] at hq
      refine ⟨⟨p, hp ▸ List.mem_cons_of_mem t hq⟩, ?_⟩
      rintro rfl
      exact hnodup hq
    · rw [if_neg hqp] at hq
      refine ⟨⟨q, hq⟩, ?_⟩
      rintro rfl
      exact hqp (h.once q p u hq ht)
  · rintro ⟨⟨q, hq⟩, hne⟩
    refine ⟨q, ?_⟩
    rw [line_setLine]
    by_cases hqp : q = p
    · subst hqp
      rw [if_pos rfl]
      rw [hp] at hq
      exact (List.mem_cons.mp hq).resolve_left hne
    · rw [if_neg hqp]
      exact hq

omit [DecidableEq C] in
theorem Orderly.setHolder (h : m.Orderly) {k : K} {t : Option T}
    (hk : t = none → m.line (.inl k) = []) : (m.setHolder k t).Orderly := by
  refine ⟨h.nodup, h.once, ?_⟩
  intro k' hk'
  rw [holder_setHolder] at hk'
  rw [line_setHolder]
  by_cases heq : k' = k
  · subst heq
    rw [if_pos rfl] at hk'
    exact hk hk'
  · rw [if_neg heq] at hk'
    exact h.idle k' hk'

/-! ### The operations keep a monitor orderly -/

theorem Orderly.acquire (h : m.Orderly) (k : K) {t : T} (ht : ¬ m.Waits t) :
    (m.acquire k t).Orderly := by
  unfold Monitor.acquire
  by_cases hfree : m.holder k = none
  · rw [if_pos hfree]
    exact h.setHolder fun hsome => absurd hsome (Option.some_ne_none t)
  · rw [if_neg hfree]
    refine h.join ht ?_
    intro k' hk'
    rw [← Sum.inl.inj hk']
    exact hfree

theorem waits_acquire (k : K) (t u : T) :
    (m.acquire k t).Waits u ↔ m.Waits u ∨ u = t ∧ m.holder k ≠ none := by
  unfold acquire
  by_cases hfree : m.holder k = none
  · rw [if_pos hfree]
    simp only [hfree, ne_eq, not_true_eq_false, and_false, or_false]
    exact Iff.rfl
  · rw [if_neg hfree, waits_join]
    simp [hfree]

theorem Orderly.release (h : m.Orderly) (k : K) : (m.release k).Orderly := by
  unfold Monitor.release
  cases hline : m.line (.inl k) with
  | nil =>
      have hsame : (m.setHolder k none).setLine (.inl k) [] = m.setHolder k none := by
        unfold setLine
        rw [← hline, line_setHolder, Function.update_eq_self]
        rfl
      rw [List.head?_nil, List.tail_nil, hsame]
      exact h.setHolder fun _ => hline
  | cons t ts =>
      have hheld : (m.setHolder k (some t)).Orderly :=
        h.setHolder fun hsome => absurd hsome (Option.some_ne_none t)
      exact hheld.leave hline

/-- Who gets the mutex waits no longer. -/
theorem Orderly.waits_release (h : m.Orderly) (k : K) (u : T) :
    (m.release k).Waits u ↔ m.Waits u ∧ (m.line (.inl k)).head? ≠ some u := by
  have hset : (m.release k).Waits u ↔ (m.setLine (.inl k) (m.line (.inl k)).tail).Waits u := Iff.rfl
  rw [hset]
  cases hline : m.line (.inl k) with
  | nil =>
      have hsame : m.setLine (.inl k) [] = m := by
        unfold setLine
        rw [← hline, Function.update_eq_self]
      rw [List.tail_nil, hsame]
      simp
  | cons t ts =>
      rw [List.tail_cons, h.waits_leave hline, List.head?_cons, ne_eq, ne_eq, Option.some_inj]
      exact and_congr_right fun _ => not_congr eq_comm

theorem Orderly.wait (h : m.Orderly) (c : C) {t : T} (ht : ¬ m.Waits t) : (m.wait c t).Orderly :=
  h.join ht fun _ heq => absurd heq Sum.inr_ne_inl

end Monitor

end AsimFeeder.Lib
