/-
Items that are in flight, and items that come again.

A feeder hands items out in order and remembers them in `issued`, the oldest first.  When
an item is killed, those that were handed out after it go back in front of `replay`, from
where they are handed out again; when one is committed, it leaves `issued`, with the items
before it that nobody commits.  Each time an item is handed out it gets a larger number.

The lists are looked at the way programs do it: from the back, until an item is not
younger, or from the front.  Popping from the back asks for the item behind the one that
was popped, so it needs one that stays; and it is only the numbers, increasing, that make
a search by number find what it should.
-/
import Mathlib

namespace AsimFeeder.Lib

structure Window (α : Type) where
  issued : List α
  replay : List α
  deriving DecidableEq, Repr

namespace Window

variable {α κ : Type} [LinearOrder κ] (uid : α → κ) (skip : α → Bool) (ref : κ)

/-- All of them, in order. -/
def all (w : Window α) : List α := w.issued ++ w.replay

/-- Pop those that are younger, from the youngest on; nothing, if none is left behind them. -/
def copyBack : List α → List α → Option (Window α)
  | [], _ => none
  | p :: older, replay =>
      if ref < uid p then copyBack older (p :: replay) else some ⟨(p :: older).reverse, replay⟩

def copyToReplay (w : Window α) : Option (Window α) :=
  if w.issued.isEmpty then some w else copyBack uid ref w.issued.reverse w.replay

/-- Search from the oldest on, and take out what was found. -/
def takeOut : List α → Option (α × List α)
  | [] => none
  | p :: rest =>
      if uid p = ref then some (p, rest)
      else (takeOut rest).map fun (q, rest) => (q, p :: rest)

/-- Replay the item itself: the youngest, or one that has to be searched for. -/
def replayThis (w : Window α) : Window α :=
  match w.issued.getLast? with
  | none => w
  | some p =>
      if uid p = ref then ⟨w.issued.dropLast, p :: w.replay⟩
      else
        match takeOut uid ref w.issued with
        | some (q, rest) => ⟨rest, q :: w.replay⟩
        | none => w

def kill (killMe : Bool) (w : Window α) : Option (Window α) :=
  (copyToReplay uid ref w).map fun w => if killMe then replayThis uid ref w else w

/--
Commit the item, and what is skipped on the way to it: what left, what stays, and whether
it was found.  Nothing, if there is an item before it that is not skipped.
-/
def commitSkipping : List α → Option (List α × List α × Bool)
  | [] => some ([], [], false)
  | p :: rest =>
      if uid p = ref then some ([p], rest, true)
      else if skip p then
        (commitSkipping rest).map fun (left, rest, found) => (p :: left, rest, found)
      else none

variable {uid skip ref}

/-- The numbers increase. -/
def Increasing (uid : α → κ) (l : List α) : Prop := l.Pairwise fun p q => uid p < uid q

/-- The item is killed with `ref`. -/
def Killed (uid : α → κ) (ref : κ) (killMe : Bool) (p : α) : Prop :=
  ref < uid p ∨ killMe = true ∧ uid p = ref

instance (uid : α → κ) (ref : κ) (killMe : Bool) : DecidablePred (Killed uid ref killMe) :=
  fun p => inferInstanceAs (Decidable (ref < uid p ∨ killMe = true ∧ uid p = ref))

/-! ### Popping -/

theorem copyBack_eq_none {l replay : List α} :
    copyBack uid ref l replay = none ↔ ∀ p ∈ l, ref < uid p := by
  induction l generalizing replay with
  | nil => simp [copyBack]
  | cons p older ih =>
      unfold copyBack
      by_cases hp : ref < uid p
      · rw [if_pos hp, ih, List.forall_mem_cons]
        exact ⟨fun h => ⟨hp, h⟩, And.right⟩
      · rw [if_neg hp, List.forall_mem_cons]
        exact ⟨fun h => (by cases h), fun h => absurd h.1 hp⟩

/-- What is popped is younger, and what stays ends with an item that is not. -/
theorem copyBack_eq_some {l replay : List α} {w : Window α}
    (h : copyBack uid ref l replay = some w) :
    ∃ young, l.reverse = w.issued ++ young ∧ w.replay = young ++ replay ∧
      (∀ p ∈ young, ref < uid p) ∧ ∃ p, w.issued.getLast? = some p ∧ uid p ≤ ref := by
  induction l generalizing replay with
  | nil => cases h
  | cons p older ih =>
      unfold copyBack at h
      by_cases hp : ref < uid p
      · rw [if_pos hp] at h
        obtain ⟨young, hsplit, hreplay, hyoung, hlast⟩ := ih h
        refine ⟨young ++ [p], ?_, ?_, ?_, hlast⟩
        · rw [List.reverse_cons, hsplit, List.append_assoc]
        · rw [hreplay, List.append_assoc, List.singleton_append]
        · intro q hq
          rcases List.mem_append.mp hq with hq | hq
          · exact hyoung q hq
          · rwa [List.mem_singleton.mp hq]
      · rw [if_neg hp] at h
        cases h
        refine ⟨[], (List.append_nil _).symm, rfl, fun _ hq => (by cases hq), p, ?_, not_lt.mp hp⟩
        rw [List.reverse_cons, List.getLast?_concat]

/-- The last of increasing numbers is the largest. -/
theorem Increasing.le_last {l : List α} (h : Increasing uid l) {p : α}
    (hp : l.getLast? = some p) : ∀ q ∈ l, uid q ≤ uid p := by
  obtain ⟨init, rfl⟩ := List.getLast?_eq_some_iff.mp hp
  intro q hq
  rcases List.mem_append.mp hq with hq | hq
  · exact le_of_lt ((List.pairwise_append.mp h).2.2 q hq p (List.mem_singleton.mpr rfl))
  · rw [List.mem_singleton.mp hq]

/-- **Popping fails exactly when everything in flight is younger.** -/
theorem copyToReplay_eq_none {w : Window α} :
    copyToReplay uid ref w = none ↔ w.issued ≠ [] ∧ ∀ p ∈ w.issued, ref < uid p := by
  unfold copyToReplay
  by_cases hempty : w.issued = []
  · simp [hempty]
  · rw [if_neg (by simpa using hempty), copyBack_eq_none]
    simp [hempty]

theorem copyToReplay_eq_some {w v : Window α} (hinc : Increasing uid w.issued)
    (h : copyToReplay uid ref w = some v) :
    ∃ young, w.issued = v.issued ++ young ∧ v.replay = young ++ w.replay ∧
      (∀ p ∈ young, ref < uid p) ∧ ∀ p ∈ v.issued, uid p ≤ ref := by
  unfold copyToReplay at h
  by_cases hempty : w.issued = []
  · rw [hempty] at h
    cases h
    rw [hempty]
    exact ⟨[], rfl, rfl, fun _ hp => (by cases hp), fun _ hp => (by cases hp)⟩
  · rw [if_neg (by simpa using hempty)] at h
    obtain ⟨young, hsplit, hreplay, hyoung, p, hlast, hp⟩ := copyBack_eq_some h
    rw [List.reverse_reverse] at hsplit
    refine ⟨young, hsplit, hreplay, hyoung, fun q hq => ?_⟩
    rw [hsplit] at hinc
    exact le_trans (Increasing.le_last (List.pairwise_append.mp hinc).1 hlast q hq) hp

/-! ### Killing -/

theorem takeOut_eq_none {l : List α} (h : ∀ p ∈ l, uid p ≠ ref) : takeOut uid ref l = none := by
  induction l with
  | nil => rfl
  | cons p rest ih =>
      unfold takeOut
      rw [if_neg (h p List.mem_cons_self), ih fun q hq => h q (List.mem_cons_of_mem p hq)]
      rfl

/-- With nothing younger left, the item itself is the last or is not there. -/
theorem replayThis_spec {w : Window α} (hinc : Increasing uid w.issued)
    (hle : ∀ p ∈ w.issued, uid p ≤ ref) :
    ∃ mine, w.issued = (replayThis uid ref w).issued ++ mine ∧
      (replayThis uid ref w).replay = mine ++ w.replay ∧ (∀ p ∈ mine, uid p = ref) ∧
      ∀ p ∈ (replayThis uid ref w).issued, uid p < ref := by
  unfold replayThis
  cases hlast : w.issued.getLast? with
  | none =>
      rw [List.getLast?_eq_none_iff] at hlast
      dsimp only
      rw [hlast]
      exact ⟨[], rfl, rfl, fun _ hp => (by cases hp), fun _ hp => (by cases hp)⟩
  | some p =>
      obtain ⟨init, hinit⟩ := List.getLast?_eq_some_iff.mp hlast
      dsimp only
      by_cases hp : uid p = ref
      · rw [if_pos hp]
        refine ⟨[p], ?_, rfl, ?_, ?_⟩
        · rw [hinit, List.dropLast_concat]
        · intro q hq
          rw [List.mem_singleton.mp hq, hp]
        · rw [hinit, List.dropLast_concat]
          intro q hq
          rw [hinit] at hinc
          exact hp ▸ (List.pairwise_append.mp hinc).2.2 q hq p (List.mem_singleton.mpr rfl)
      · have hlt : ∀ q ∈ w.issued, uid q < ref := by
          intro q hq
          refine lt_of_le_of_lt (hinc.le_last hlast q hq) (lt_of_le_of_ne (hle p ?_) hp)
          rw [hinit]
          exact List.mem_append_right _ (List.mem_singleton.mpr rfl)
        rw [if_neg hp, takeOut_eq_none fun q hq => ne_of_lt (hlt q hq)]
        exact ⟨[], (List.append_nil _).symm, rfl, fun _ hq => (by cases hq), hlt⟩

/-- A kill fails exactly when all that is in flight is younger. -/
theorem kill_isSome (killMe : Bool) (w : Window α) :
    (kill uid ref killMe w).isSome = true ↔ w.issued = [] ∨ ∃ p ∈ w.issued, uid p ≤ ref := by
  unfold kill
  rw [Option.isSome_map, Option.isSome_iff_ne_none, Ne, copyToReplay_eq_none]
  push Not
  rw [imp_iff_not_or, not_not]

/-- **A kill moves exactly what is killed in front of what comes again.** -/
theorem kill_eq_some {killMe : Bool} {w v : Window α} (hinc : Increasing uid w.issued)
    (h : kill uid ref killMe w = some v) :
    ∃ dead, w.issued = v.issued ++ dead ∧ v.replay = dead ++ w.replay ∧
      (∀ p ∈ dead, Killed uid ref killMe p) ∧ ∀ p ∈ v.issued, ¬ Killed uid ref killMe p := by
  obtain ⟨u, hcopy, rfl⟩ := Option.map_eq_some_iff.mp h
  obtain ⟨young, hsplit, hreplay, hyoung, hold⟩ := copyToReplay_eq_some hinc hcopy
  cases killMe with
  | false =>
      refine ⟨young, hsplit, hreplay, fun p hp => .inl (hyoung p hp), ?_⟩
      rintro p hp (hlt | ⟨hfalse, -⟩)
      · exact absurd hlt (not_lt.mpr (hold p hp))
      · cases hfalse
  | true =>
      rw [hsplit] at hinc
      obtain ⟨mine, hmine, hreplay', hrefs, hlt⟩ :=
        replayThis_spec (List.pairwise_append.mp hinc).1 hold
      rw [if_pos rfl]
      refine ⟨mine ++ young, ?_, ?_, ?_, ?_⟩
      · rw [hsplit, ← List.append_assoc, ← hmine]
      · rw [hreplay', hreplay, List.append_assoc]
      · intro p hp
        rcases List.mem_append.mp hp with hp | hp
        · exact .inr ⟨rfl, hrefs p hp⟩
        · exact .inl (hyoung p hp)
      · rintro p hp (hgt | ⟨-, heq⟩)
        · exact absurd hgt (not_lt_of_gt (hlt p hp))
        · exact absurd heq (ne_of_lt (hlt p hp))

/-- What is killed comes behind what stays. -/
theorem Increasing.filter_killed {killMe : Bool} {l : List α} (h : Increasing uid l) :
    l.filter (fun p => ¬ Killed uid ref killMe p) ++ l.filter (fun p => Killed uid ref killMe p) =
      l := by
  induction l with
  | nil => rfl
  | cons p l ih =>
      by_cases hp : Killed uid ref killMe p
      · have hrest : ∀ q ∈ l, Killed uid ref killMe q := by
          intro q hq
          have hlt := List.rel_of_pairwise_cons h hq
          rcases hp with hp | ⟨-, hp⟩
          · exact .inl (hp.trans hlt)
          · exact .inl (hp ▸ hlt)
        have hnone : (p :: l).filter (fun p => ¬ Killed uid ref killMe p) = [] := by
          rw [List.filter_eq_nil_iff]
          intro q hq hkept
          exact of_decide_eq_true hkept (List.forall_mem_cons.mpr ⟨hp, hrest⟩ q hq)
        have hall : (p :: l).filter (fun p => Killed uid ref killMe p) = p :: l := by
          rw [List.filter_eq_self]
          intro q hq
          exact decide_eq_true (List.forall_mem_cons.mpr ⟨hp, hrest⟩ q hq)
        rw [hnone, hall, List.nil_append]
      · rw [List.filter_cons_of_pos (by simpa using hp),
          List.filter_cons_of_neg (by simpa using hp), List.cons_append,
          ih (List.Pairwise.of_cons h)]

theorem issued_of_kill {killMe : Bool} {w v : Window α} (hinc : Increasing uid w.issued)
    (h : kill uid ref killMe w = some v) :
    v.issued = w.issued.filter fun p => ¬ Killed uid ref killMe p := by
  obtain ⟨dead, hissued, -, hdead, hstays⟩ := kill_eq_some hinc h
  have hkeep : v.issued.filter (fun p => ¬ Killed uid ref killMe p) = v.issued := by
    rw [List.filter_eq_self]
    intro p hp
    exact decide_eq_true (hstays p hp)
  have hdrop : dead.filter (fun p => ¬ Killed uid ref killMe p) = [] := by
    rw [List.filter_eq_nil_iff]
    intro p hp hkept
    exact of_decide_eq_true hkept (hdead p hp)
  rw [hissued, List.filter_append, hkeep, hdrop, List.append_nil]

/-! ### Committing -/

/-- Those before an item have the smaller numbers. -/
theorem Increasing.filter_lt {before after : List α} {p : α}
    (h : Increasing uid (before ++ p :: after)) :
    (before ++ p :: after).filter (fun q => uid q < uid p) = before := by
  obtain ⟨-, hafter, hbefore⟩ := List.pairwise_append.mp h
  have hkeep : before.filter (fun q => uid q < uid p) = before := by
    rw [List.filter_eq_self]
    intro q hq
    exact decide_eq_true (hbefore q hq p List.mem_cons_self)
  have hdrop : (p :: after).filter (fun q => uid q < uid p) = [] := by
    rw [List.filter_eq_nil_iff]
    intro q hq hlt
    rcases List.mem_cons.mp hq with rfl | hq
    · exact lt_irrefl _ (of_decide_eq_true hlt)
    · exact lt_asymm (of_decide_eq_true hlt) (List.rel_of_pairwise_cons hafter hq)
  rw [List.filter_append, hkeep, hdrop, List.append_nil]

theorem Increasing.filter_le {before after : List α} {p : α}
    (h : Increasing uid (before ++ p :: after)) :
    (before ++ p :: after).filter (fun q => uid q ≤ uid p) = before ++ [p] := by
  obtain ⟨-, hafter, hbefore⟩ := List.pairwise_append.mp h
  have hkeep : (before ++ [p]).filter (fun q => uid q ≤ uid p) = before ++ [p] := by
    rw [List.filter_eq_self]
    intro q hq
    rcases List.mem_append.mp hq with hq | hq
    · exact decide_eq_true (le_of_lt (hbefore q hq p List.mem_cons_self))
    · rw [List.mem_singleton.mp hq]
      exact decide_eq_true le_rfl
  have hdrop : after.filter (fun q => uid q ≤ uid p) = [] := by
    rw [List.filter_eq_nil_iff]
    intro q hq hle
    exact absurd (of_decide_eq_true hle) (not_le_of_gt (List.rel_of_pairwise_cons hafter hq))
  rw [List.append_cons, List.filter_append, hkeep, hdrop, List.append_nil]

/-- Those behind it have the larger ones. -/
theorem Increasing.filter_gt {before after : List α} {p : α}
    (h : Increasing uid (before ++ p :: after)) :
    (before ++ p :: after).filter (fun q => uid p < uid q) = after := by
  obtain ⟨-, hafter, hbefore⟩ := List.pairwise_append.mp h
  have hdrop : (before ++ [p]).filter (fun q => uid p < uid q) = [] := by
    rw [List.filter_eq_nil_iff]
    intro q hq hlt
    rcases List.mem_append.mp hq with hq | hq
    · exact lt_asymm (of_decide_eq_true hlt) (hbefore q hq p List.mem_cons_self)
    · rw [List.mem_singleton.mp hq] at hlt
      exact lt_irrefl _ (of_decide_eq_true hlt)
  have hkeep : after.filter (fun q => uid p < uid q) = after := by
    rw [List.filter_eq_self]
    intro q hq
    exact decide_eq_true (List.rel_of_pairwise_cons hafter hq)
  rw [List.append_cons, List.filter_append, hdrop, hkeep, List.nil_append]

/-- Searching for an item that is not there skips all, or stops at one that is not skipped. -/
theorem commitSkipping_of_missing {l : List α} (h : ∀ p ∈ l, uid p ≠ ref) :
    commitSkipping uid skip ref l =
      if ∀ p ∈ l, skip p = true then some (l, [], false) else none := by
  induction l with
  | nil => rfl
  | cons p rest ih =>
      rw [commitSkipping, if_neg (h p List.mem_cons_self),
        ih fun q hq => h q (List.mem_cons_of_mem p hq)]
      by_cases hp : skip p = true
      · rw [if_pos hp]
        by_cases hrest : ∀ q ∈ rest, skip q = true
        · rw [if_pos hrest,
            if_pos (List.forall_mem_cons (p := fun q => skip q = true).mpr ⟨hp, hrest⟩)]
          rfl
        · rw [if_neg hrest, if_neg fun hall => hrest fun q hq => hall q (.tail p hq)]
          rfl
      · rw [if_neg hp, if_neg fun hall => hp (hall p (.head rest))]

/-- **What is committed is the item and what was skipped before it.** -/
theorem commitSkipping_of_split {l before after : List α} {p : α} (hl : l = before ++ p :: after)
    (hinc : Increasing uid l) (hskip : ∀ q ∈ before, skip q = true) :
    commitSkipping uid skip (uid p) l = some (before ++ [p], after, true) := by
  subst hl
  induction before with
  | nil =>
      rw [List.nil_append, commitSkipping, if_pos rfl]
      rfl
  | cons q before ih =>
      have hne : uid q ≠ uid p :=
        ne_of_lt (List.rel_of_pairwise_cons hinc (List.mem_append_right _ List.mem_cons_self))
      rw [List.cons_append, commitSkipping, if_neg hne, if_pos (hskip q List.mem_cons_self),
        ih (fun r hr => hskip r (List.mem_cons_of_mem q hr)) (List.Pairwise.of_cons hinc)]
      rfl

end Window

end AsimFeeder.Lib
