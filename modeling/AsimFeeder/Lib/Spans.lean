/-
Stretches of places that are joined as they come.

A list of spans takes in one more: the first span of the list that is near it becomes the
hull of both, and where there is none it is a span of its own.  Near includes a span that
ends one place before the other begins, so that a hull can have one place which neither of
the two has.  `Gathers` says what a list of spans is then worth: each span that came lies in
one of them, and they have no other places than these `swallowed` ones.

`joinAll` is what all that came makes, and `fuse` then joins the last two.
-/
import Mathlib

namespace AsimFeeder.Lib

/-- The places from `lo` on, before `hi`. -/
structure Span where
  lo : Nat
  hi : Nat
deriving DecidableEq

namespace Span

def Has (s : Span) (x : Nat) : Prop := s.lo ≤ x ∧ x < s.hi

def Within (s t : Span) : Prop := t.lo ≤ s.lo ∧ s.hi ≤ t.hi

/-- They share a place, or the one begins where the other ends, or `s` ends one place before
`t` begins. -/
def Near (s t : Span) : Prop := s.lo ≤ t.hi ∧ t.lo ≤ s.hi + 1

instance (s : Span) (x : Nat) : Decidable (s.Has x) := inferInstanceAs (Decidable (_ ∧ _))
instance (s t : Span) : Decidable (s.Within t) := inferInstanceAs (Decidable (_ ∧ _))
instance (s t : Span) : Decidable (s.Near t) := inferInstanceAs (Decidable (_ ∧ _))

def hull (s t : Span) : Span := ⟨min s.lo t.lo, max s.hi t.hi⟩

/-- The place between them is in neither of them. -/
def Swallows (s t : Span) (x : Nat) : Prop := s.hi + 1 = t.lo ∧ x = s.hi

variable {s t u : Span} {x : Nat}

theorem Within.refl (s : Span) : s.Within s := ⟨le_rfl, le_rfl⟩

theorem Within.trans (h : s.Within t) (h' : t.Within u) : s.Within u :=
  ⟨h'.1.trans h.1, h.2.trans h'.2⟩

theorem Within.has (h : s.Within t) (hx : s.Has x) : t.Has x :=
  ⟨h.1.trans hx.1, hx.2.trans_le h.2⟩

theorem within_hull_left (s t : Span) : s.Within (s.hull t) :=
  ⟨min_le_left .., le_max_left ..⟩

theorem within_hull_right (s t : Span) : t.Within (s.hull t) :=
  ⟨min_le_right .., le_max_right ..⟩

theorem Near.has_hull (h : s.Near t) (hx : (s.hull t).Has x) :
    s.Has x ∨ t.Has x ∨ s.Swallows t x := by
  obtain ⟨hlo, hhi⟩ := hx
  obtain ⟨hleft, hright⟩ := h
  simp only [hull] at hlo hhi
  unfold Has Swallows
  omega

theorem Swallows.has_hull (h : s.Swallows t x) (hs : s.lo ≤ s.hi) (ht : t.lo < t.hi) :
    (s.hull t).Has x := by
  obtain ⟨hgap, rfl⟩ := h
  simp only [Has, hull]
  omega

/-- The end of a hull is the end of one of the two, which begins where the hull does or later. -/
theorem hi_hull (s t : Span) : (s.hull t).hi = s.hi ∧ (s.hull t).lo ≤ s.lo ∨
    (s.hull t).hi = t.hi ∧ (s.hull t).lo ≤ t.lo := by
  simp only [hull]
  omega

/-! ### A list of spans -/

/-- The first span that is near is joined. -/
def join (a : Span) : List Span → List Span
  | [] => [a]
  | s :: rest => if a.Near s then a.hull s :: rest else s :: join a rest

/-- The place that the list takes in when `a` is joined, though `a` does not have it. -/
def JoinSwallows (a : Span) (l : List Span) (x : Nat) : Prop :=
  ∃ s, l.find? (fun s => a.Near s) = some s ∧ a.Swallows s x

variable {a : Span} {l l' : List Span} {came : List Span} {swallowed swallowed' : Nat → Prop}

/--
What came to the list: it has all of it, nothing but that and what was swallowed, and each
of its spans ends with something that came and lies in the span.
-/
structure Gathers (came : List Span) (swallowed : Nat → Prop) (l : List Span) : Prop where
  within : ∀ a ∈ came, ∃ s ∈ l, a.Within s
  only : ∀ s ∈ l, ∀ x, s.Has x → (∃ a ∈ came, a.Has x) ∨ swallowed x
  has : ∀ x, swallowed x → ∃ s ∈ l, s.Has x
  ends : ∀ s ∈ l, ∃ a ∈ came, a.hi = s.hi ∧ s.lo ≤ a.lo

theorem Gathers.nil : Gathers [] (fun _ => False) [] := by
  refine ⟨?_, ?_, ?_, ?_⟩
  · intro _ ha
    cases ha
  · intro _ hs
    cases hs
  · intro _ hx
    exact hx.elim
  · intro _ hs
    cases hs

theorem Gathers.congr (h : Gathers came swallowed l) (hiff : ∀ x, swallowed x ↔ swallowed' x) :
    Gathers came swallowed' l := by
  rw [show swallowed' = swallowed from funext fun x => propext (hiff x).symm]
  exact h

/-- Where a list is replaced by a wider one with no other places, the same came to it. -/
theorem Gathers.widen (h : Gathers came swallowed l) {new : List Span}
    (hwide : ∀ s ∈ l, ∃ t ∈ l', s.Within t) (hnew : ∀ a ∈ new, ∃ t ∈ l', a.Within t)
    (honly : ∀ t ∈ l', ∀ x, t.Has x →
      (∃ s ∈ l, s.Has x) ∨ (∃ a ∈ new, a.Has x) ∨ swallowed' x)
    (hhas : ∀ x, swallowed' x → ∃ t ∈ l', t.Has x)
    (hends : ∀ t ∈ l',
      (∃ s ∈ l, s.hi = t.hi ∧ t.lo ≤ s.lo) ∨ ∃ a ∈ new, a.hi = t.hi ∧ t.lo ≤ a.lo) :
    Gathers (came ++ new) (fun x => swallowed x ∨ swallowed' x) l' := by
  refine ⟨?_, ?_, ?_, ?_⟩
  · intro a ha
    rcases List.mem_append.mp ha with ha | ha
    · obtain ⟨s, hs, hin⟩ := h.within a ha
      obtain ⟨t, ht, hst⟩ := hwide s hs
      exact ⟨t, ht, hin.trans hst⟩
    · exact hnew a ha
  · intro t ht x hx
    rcases honly t ht x hx with ⟨s, hs, hsx⟩ | ⟨a, ha, hax⟩ | hsw
    · rcases h.only s hs x hsx with ⟨a, ha, hax⟩ | hsw
      · exact .inl ⟨a, List.mem_append_left _ ha, hax⟩
      · exact .inr (.inl hsw)
    · exact .inl ⟨a, List.mem_append_right _ ha, hax⟩
    · exact .inr (.inr hsw)
  · intro x hx
    rcases hx with hx | hx
    · obtain ⟨s, hs, hsx⟩ := h.has x hx
      obtain ⟨t, ht, hst⟩ := hwide s hs
      exact ⟨t, ht, hst.has hsx⟩
    · exact hhas x hx
  · intro t ht
    rcases hends t ht with ⟨s, hs, heq, hle⟩ | ⟨a, ha, heq, hle⟩
    · obtain ⟨a, ha, haeq, hale⟩ := h.ends s hs
      exact ⟨a, List.mem_append_left _ ha, haeq.trans heq, hle.trans hale⟩
    · exact ⟨a, List.mem_append_right _ ha, heq, hle⟩

/-! ### Joining -/

theorem join_eq_of_find (h : l.find? (fun s => a.Near s) = some s) : ∃ xs ys,
    l = xs ++ s :: ys ∧ join a l = xs ++ a.hull s :: ys := by
  induction l with
  | nil => cases h
  | cons t l ih =>
      by_cases hnear : a.Near t
      · rw [List.find?_cons_of_pos (by simpa using hnear)] at h
        cases h
        refine ⟨[], l, rfl, ?_⟩
        unfold join
        rw [if_pos hnear]
        rfl
      · rw [List.find?_cons_of_neg (by simpa using hnear)] at h
        obtain ⟨xs, ys, rfl, heq⟩ := ih h
        refine ⟨t :: xs, ys, rfl, ?_⟩
        unfold join
        rw [if_neg hnear, heq]
        rfl

theorem join_eq_of_not_find (h : l.find? (fun s => a.Near s) = none) : join a l = l ++ [a] := by
  induction l with
  | nil => rfl
  | cons t l ih =>
      by_cases hnear : a.Near t
      · rw [List.find?_cons_of_pos (by simpa using hnear)] at h
        cases h
      · rw [List.find?_cons_of_neg (by simpa using hnear)] at h
        unfold join
        rw [if_neg hnear, ih h]
        rfl

/-- One span of the list is replaced by its hull with a span that is near it. -/
theorem replaced (xs ys : List Span) (hnear : a.Near s) (hlo : a.lo ≤ a.hi) (hs : s.lo < s.hi) :
    (∀ t ∈ xs ++ s :: ys, ∃ u ∈ xs ++ a.hull s :: ys, t.Within u) ∧
    (∃ u ∈ xs ++ a.hull s :: ys, a.Within u) ∧
    (∀ u ∈ xs ++ a.hull s :: ys, ∀ x, u.Has x →
      (∃ t ∈ xs ++ s :: ys, t.Has x) ∨ a.Has x ∨ a.Swallows s x) ∧
    (∀ x, a.Swallows s x → ∃ u ∈ xs ++ a.hull s :: ys, u.Has x) ∧
    ∀ u ∈ xs ++ a.hull s :: ys, (∃ t ∈ xs ++ s :: ys, t.hi = u.hi ∧ u.lo ≤ t.lo) ∨
      a.hi = u.hi ∧ u.lo ≤ a.lo := by
  have hmem : a.hull s ∈ xs ++ a.hull s :: ys := by simp
  have hold : ∀ u ∈ xs ++ a.hull s :: ys, u = a.hull s ∨ u ∈ xs ++ s :: ys := by
    intro u hu
    rcases List.mem_append.mp hu with hu | hu
    · exact .inr (List.mem_append_left _ hu)
    · rcases List.mem_cons.mp hu with hu | hu
      · exact .inl hu
      · exact .inr (List.mem_append_right _ (List.mem_cons_of_mem _ hu))
  refine ⟨?_, ⟨_, hmem, within_hull_left a s⟩, ?_, fun x hx => ⟨_, hmem, hx.has_hull hlo hs⟩, ?_⟩
  · intro t ht
    rcases List.mem_append.mp ht with ht | ht
    · exact ⟨t, List.mem_append_left _ ht, .refl t⟩
    · rcases List.mem_cons.mp ht with rfl | ht
      · exact ⟨_, hmem, within_hull_right a t⟩
      · exact ⟨t, List.mem_append_right _ (List.mem_cons_of_mem _ ht), .refl t⟩
  · intro u hu x hx
    rcases hold u hu with rfl | hu
    · rcases hnear.has_hull hx with hx | hx | hx
      · exact .inr (.inl hx)
      · exact .inl ⟨s, by simp, hx⟩
      · exact .inr (.inr hx)
    · exact .inl ⟨u, hu, hx⟩
  · intro u hu
    rcases hold u hu with rfl | hu
    · rcases hi_hull a s with ⟨heq, hle⟩ | ⟨heq, hle⟩
      · exact .inr ⟨heq.symm, hle⟩
      · exact .inl ⟨s, by simp, heq.symm, hle⟩
    · exact .inl ⟨u, hu, rfl, le_rfl⟩

theorem Gathers.join (h : Gathers came swallowed l) (hlo : a.lo ≤ a.hi)
    (hl : ∀ s ∈ l, s.lo < s.hi) :
    Gathers (came ++ [a]) (fun x => swallowed x ∨ a.JoinSwallows l x) (join a l) := by
  cases hfind : l.find? (fun s => a.Near s) with
  | none =>
      rw [join_eq_of_not_find hfind]
      have hno : ∀ x, ¬a.JoinSwallows l x := by
        rintro x ⟨s, hs, -⟩
        rw [hfind] at hs
        cases hs
      refine h.widen (fun s hs => ⟨s, List.mem_append_left _ hs, .refl s⟩) ?_ ?_
        (fun x hx => (hno x hx).elim) ?_
      · intro b hb
        exact ⟨b, List.mem_append_right _ hb, .refl b⟩
      · intro t ht x hx
        rcases List.mem_append.mp ht with ht | ht
        · exact .inl ⟨t, ht, hx⟩
        · exact .inr (.inl ⟨t, ht, hx⟩)
      · intro t ht
        rcases List.mem_append.mp ht with ht | ht
        · exact .inl ⟨t, ht, rfl, le_rfl⟩
        · exact .inr ⟨t, ht, rfl, le_rfl⟩
  | some s =>
      obtain ⟨xs, ys, rfl, heq⟩ := join_eq_of_find hfind
      have hnear : a.Near s := by simpa using List.find?_some hfind
      have hsw : ∀ x, a.JoinSwallows (xs ++ s :: ys) x ↔ a.Swallows s x := by
        intro x
        refine ⟨?_, fun hx => ⟨s, hfind, hx⟩⟩
        rintro ⟨t, ht, hx⟩
        rw [hfind] at ht
        cases ht
        exact hx
      obtain ⟨hwide, hnew, honly, hhas, hends⟩ := replaced xs ys hnear hlo (hl s (by simp))
      rw [heq]
      refine h.widen hwide ?_ ?_ (fun x hx => hhas x ((hsw x).mp hx)) ?_
      · intro b hb
        rw [List.mem_singleton.mp hb]
        exact hnew
      · intro t ht x hx
        rcases honly t ht x hx with hx | hx | hx
        · exact .inl hx
        · exact .inr (.inl ⟨a, List.mem_singleton_self a, hx⟩)
        · exact .inr (.inr ((hsw x).mpr hx))
      · intro t ht
        rcases hends t ht with ht | ht
        · exact .inl ht
        · exact .inr ⟨a, List.mem_singleton_self a, ht⟩

/-- The last span is joined to the one before it. -/
theorem Gathers.hull {xs : List Span} (h : Gathers came swallowed (xs ++ [s, t]))
    (hs : s.lo < s.hi) (ht : t.lo < t.hi) (hnear : t.Near s) :
    Gathers came (fun x => swallowed x ∨ t.Swallows s x) (xs ++ [t.hull s]) := by
  obtain ⟨hwide, ⟨v, hv, htv⟩, honly, hhas, hends⟩ := replaced xs [] hnear ht.le hs
  have hmem : t ∈ xs ++ [s, t] := by simp
  have hold : ∀ u ∈ xs ++ [s], u ∈ xs ++ [s, t] := by
    intro u hu
    simp only [List.mem_append, List.mem_cons, List.not_mem_nil, or_false] at hu ⊢
    tauto
  rw [← List.append_nil came]
  refine h.widen ?_ (fun _ ha => absurd ha List.not_mem_nil) ?_ hhas ?_
  · intro u hu
    simp only [List.mem_append, List.mem_cons, List.not_mem_nil, or_false] at hu
    rcases hu with hu | rfl | rfl
    · exact hwide u (List.mem_append_left _ hu)
    · exact hwide u (by simp)
    · exact ⟨v, hv, htv⟩
  · intro u hu x hx
    rcases honly u hu x hx with ⟨w, hw, hwx⟩ | hx | hx
    · exact .inl ⟨w, hold w hw, hwx⟩
    · exact .inl ⟨t, hmem, hx⟩
    · exact .inr (.inr hx)
  · intro u hu
    rcases hends u hu with ⟨w, hw, hwu⟩ | hu
    · exact .inl ⟨w, hold w hw, hwu⟩
    · exact .inl ⟨t, hmem, hu⟩

/-! ### All that came, and the last two -/

/-- The spans that came, joined in this order. -/
def joinAll (came : List Span) : List Span :=
  came.foldl (fun l a => a.join l) []

/-- One of them took the place in when it was joined, though it does not have it. -/
def JoinsOver (came : List Span) (x : Nat) : Prop :=
  ∃ pre a post, came = pre ++ a :: post ∧ a.JoinSwallows (joinAll pre) x

theorem joinAll_snoc (came : List Span) (a : Span) :
    joinAll (came ++ [a]) = a.join (joinAll came) := by
  unfold joinAll
  rw [List.foldl_append]
  rfl

theorem joinsOver_nil : ¬JoinsOver [] x := by
  rintro ⟨pre, a, post, heq, -⟩
  simp at heq

theorem joinsOver_snoc :
    JoinsOver (came ++ [a]) x ↔ JoinsOver came x ∨ a.JoinSwallows (joinAll came) x := by
  constructor
  · rintro ⟨pre, b, post, heq, hsw⟩
    rcases List.eq_nil_or_concat post with rfl | ⟨post', c, rfl⟩
    · obtain ⟨rfl, hab⟩ := List.append_inj' heq rfl
      cases hab
      exact .inr hsw
    · rw [List.concat_eq_append, ← List.cons_append, ← List.append_assoc] at heq
      obtain ⟨rfl, -⟩ := List.append_inj' heq rfl
      exact .inl ⟨pre, b, post', rfl, hsw⟩
  · rintro (⟨pre, b, post, rfl, hsw⟩ | hsw)
    · exact ⟨pre, b, post ++ [a], by simp, hsw⟩
    · exact ⟨came, a, [], rfl, hsw⟩

theorem join_pos (ha : a.lo < a.hi) (hl : ∀ s ∈ l, s.lo < s.hi) : ∀ s ∈ a.join l, s.lo < s.hi := by
  intro t ht
  cases hfind : l.find? (fun s => a.Near s) with
  | none =>
      rw [join_eq_of_not_find hfind] at ht
      rcases List.mem_append.mp ht with ht | ht
      · exact hl t ht
      · rw [List.mem_singleton.mp ht]
        exact ha
  | some s =>
      obtain ⟨xs, ys, rfl, heq⟩ := join_eq_of_find hfind
      rw [heq] at ht
      rcases List.mem_append.mp ht with ht | ht
      · exact hl t (List.mem_append_left _ ht)
      · rcases List.mem_cons.mp ht with rfl | ht
        · have hs := hl s (by simp)
          simp only [hull]
          omega
        · exact hl t (List.mem_append_right _ (List.mem_cons_of_mem _ ht))

theorem joinAll_pos (h : ∀ a ∈ came, a.lo < a.hi) : ∀ s ∈ joinAll came, s.lo < s.hi := by
  induction came using List.reverseRecOn with
  | nil =>
      intro s hs
      cases hs
  | append_singleton came a ih =>
      rw [joinAll_snoc]
      exact join_pos (h a (by simp)) (ih fun b hb => h b (List.mem_append_left _ hb))

theorem gathers_joinAll (h : ∀ a ∈ came, a.lo < a.hi) :
    Gathers came (JoinsOver came) (joinAll came) := by
  induction came using List.reverseRecOn with
  | nil => exact Gathers.nil.congr fun _ => ⟨False.elim, joinsOver_nil⟩
  | append_singleton came a ih =>
      have hcame : ∀ b ∈ came, b.lo < b.hi := fun b hb => h b (List.mem_append_left _ hb)
      rw [joinAll_snoc]
      exact ((ih hcame).join (h a (by simp)).le (joinAll_pos hcame)).congr
        fun _ => joinsOver_snoc.symm

/-- The last span is joined to the one before it, where it is near. -/
def fuse : List Span → List Span
  | [s, t] => if t.Near s then [t.hull s] else [s, t]
  | s :: rest => s :: fuse rest
  | [] => []

/-- The last span took the place in when it was joined to the one before it. -/
def FusesOver (l : List Span) (x : Nat) : Prop :=
  ∃ xs s t, l = xs ++ [s, t] ∧ t.Swallows s x

theorem fuse_append (xs : List Span) (s t : Span) : fuse (xs ++ [s, t]) = xs ++ fuse [s, t] := by
  induction xs with
  | nil => rfl
  | cons u xs ih =>
      have hstep : fuse (u :: xs ++ [s, t]) = u :: fuse (xs ++ [s, t]) := by
        cases xs with
        | nil => rfl
        | cons v xs =>
            cases xs <;> rfl
      rw [hstep, ih]
      rfl

theorem fusesOver_append {xs : List Span} : FusesOver (xs ++ [s, t]) x ↔ t.Swallows s x := by
  refine ⟨?_, fun h => ⟨xs, s, t, rfl, h⟩⟩
  rintro ⟨xs', s', t', heq, hsw⟩
  obtain ⟨-, htwo⟩ := List.append_inj' heq rfl
  cases htwo
  exact hsw

theorem Swallows.near (h : s.Swallows t x) (hs : s.lo ≤ s.hi) (ht : t.lo ≤ t.hi) : s.Near t := by
  obtain ⟨hgap, -⟩ := h
  exact ⟨by omega, by omega⟩

theorem Gathers.fuse (h : Gathers came swallowed l) (hl : ∀ s ∈ l, s.lo < s.hi) :
    Gathers came (fun x => swallowed x ∨ FusesOver l x) (fuse l) := by
  have hshort : ∀ {l : List Span}, l.length < 2 → ∀ x, ¬FusesOver l x := by
    rintro l hlen x ⟨xs, s, t, rfl, -⟩
    rw [List.length_append] at hlen
    exact absurd hlen (by simp)
  rcases List.eq_nil_or_concat l with rfl | ⟨ys, t, rfl⟩
  · exact h.congr fun x => (or_iff_left (hshort (by simp) x)).symm
  rcases List.eq_nil_or_concat ys with rfl | ⟨xs, s, rfl⟩
  · exact h.congr fun x => (or_iff_left (hshort (by simp) x)).symm
  rw [List.concat_eq_append, List.concat_eq_append, List.append_assoc,
    List.singleton_append] at h hl ⊢
  have hs := hl s (by simp)
  have ht := hl t (by simp)
  rw [fuse_append]
  unfold Span.fuse
  by_cases hnear : t.Near s
  · rw [if_pos hnear]
    exact (h.hull hs ht hnear).congr fun x => or_congr_right fusesOver_append.symm
  · rw [if_neg hnear]
    refine h.congr fun x => (or_iff_left fun hover => ?_).symm
    exact hnear ((fusesOver_append.mp hover).near ht.le hs.le)

end Span

end AsimFeeder.Lib
