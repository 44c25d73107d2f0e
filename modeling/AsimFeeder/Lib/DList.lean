/-
Doubly linked lists in a heap.

The cells of a heap carry two links each.  A list of cells is a segment of the heap
when the links of every cell lead to its neighbours in the list, the first cell's
`prev` to what is left of the segment and the last cell's `next` to what is right of
it.  Segments split where lists do (`seg_append`), so an operation that touches one
cell is told by what it does to the segment on either side: a cell outside the
segment may be changed freely, and the two border links may be redirected.

A singly linked free list is a `Chain` of the `next` links alone.
-/
import Mathlib

namespace AsimFeeder.Lib

variable {ρ : Type*}

/-- The two links of every cell; `none` is the null link. -/
structure Links (ρ : Type*) where
  next : ρ → Option ρ
  prev : ρ → Option ρ

namespace Links

/-! ### Chains -/

/-- Following `next` from `start` passes the cells of the list and ends at the null link. -/
def Chain (next : ρ → Option ρ) : Option ρ → List ρ → Prop
  | start, [] => start = none
  | start, a :: l => start = some a ∧ Chain next (next a) l

/-- A chain only depends on the links of its own cells. -/
theorem Chain.congr {next next' : ρ → Option ρ} {l : List ρ} {start : Option ρ}
    (h : Chain next start l) (hnext : ∀ r ∈ l, next' r = next r) : Chain next' start l := by
  induction l generalizing start with
  | nil => exact h
  | cons a l ih =>
      obtain ⟨hstart, hrest⟩ := h
      refine ⟨hstart, ?_⟩
      rw [hnext a List.mem_cons_self]
      exact ih hrest fun r hr => hnext r (List.mem_cons_of_mem _ hr)

theorem Chain.frame [DecidableEq ρ] {next : ρ → Option ρ} {r : ρ} {n : Option ρ} {l : List ρ}
    {start : Option ρ} (h : Chain next start l) (hr : r ∉ l) :
    Chain (Function.update next r n) start l := by
  refine h.congr fun s hs => ?_
  have hne : s ≠ r := fun e => hr (e ▸ hs)
  exact Function.update_of_ne hne ..

/-- Putting a cell in front of a chain it is not part of. -/
theorem Chain.push [DecidableEq ρ] {next : ρ → Option ρ} {r : ρ} {l : List ρ} {start : Option ρ}
    (h : Chain next start l) (hr : r ∉ l) :
    Chain (Function.update next r start) (some r) (r :: l) :=
  ⟨rfl, by rw [Function.update_self]; exact h.frame hr⟩

/-! ### Segments -/

/-- The link that leads into `l` from the left, with `q` to its right. -/
def first (l : List ρ) (q : Option ρ) : Option ρ := l.head?.or q

/-- The link that leads into `l` from the right, with `p` to its left. -/
def last (p : Option ρ) (l : List ρ) : Option ρ := l.getLast?.or p

@[simp] theorem first_nil (q : Option ρ) : first [] q = q := rfl
@[simp] theorem first_cons (a : ρ) (l : List ρ) (q : Option ρ) : first (a :: l) q = some a := rfl
@[simp] theorem first_none (l : List ρ) : first l none = l.head? := by simp [first]
@[simp] theorem last_nil (p : Option ρ) : last p [] = p := rfl
@[simp] theorem last_none (l : List ρ) : last none l = l.getLast? := by simp [last]

@[simp] theorem last_concat (p : Option ρ) (l : List ρ) (a : ρ) : last p (l ++ [a]) = some a := by
  simp [last]

theorem last_cons (p : Option ρ) (a : ρ) (l : List ρ) : last p (a :: l) = last (some a) l := by
  cases l with
  | nil => rfl
  | cons b l => simp [last, List.getLast?_cons]

theorem first_append (xs ys : List ρ) (q : Option ρ) :
    first (xs ++ ys) q = first xs (first ys q) := by
  cases xs <;> rfl

/-- The links of the cells of `l` lead through it, from `p` on its left to `q` on its right. -/
def Seg (h : Links ρ) : Option ρ → List ρ → Option ρ → Prop
  | _, [], _ => True
  | p, a :: l, q => h.prev a = p ∧ h.next a = first l q ∧ Seg h (some a) l q

instance Seg.decidable [DecidableEq ρ] (h : Links ρ) :
    (p : Option ρ) → (l : List ρ) → (q : Option ρ) → Decidable (Seg h p l q)
  | _, [], _ => .isTrue trivial
  | p, a :: l, q =>
      have := Seg.decidable h (some a) l q
      inferInstanceAs (Decidable (h.prev a = p ∧ h.next a = first l q ∧ Seg h (some a) l q))

variable {h : Links ρ} {p q : Option ρ}

theorem seg_append {xs ys : List ρ} :
    Seg h p (xs ++ ys) q ↔ Seg h p xs (first ys q) ∧ Seg h (last p xs) ys q := by
  induction xs generalizing p with
  | nil => exact ⟨fun hy => ⟨trivial, hy⟩, fun hxy => hxy.2⟩
  | cons a xs ih =>
      rw [last_cons]
      constructor
      · rintro ⟨hprev, hnext, hrest⟩
        obtain ⟨hx, hy⟩ := ih.mp hrest
        exact ⟨⟨hprev, hnext.trans (first_append ..), hx⟩, hy⟩
      · rintro ⟨⟨hprev, hnext, hx⟩, hy⟩
        exact ⟨hprev, hnext.trans (first_append ..).symm, ih.mpr ⟨hx, hy⟩⟩

theorem Seg.chain {l : List ρ} (hseg : Seg h p l none) : Chain h.next l.head? l := by
  induction l generalizing p with
  | nil => rfl
  | cons a l ih =>
      obtain ⟨-, hnext, hrest⟩ := hseg
      rw [first_none] at hnext
      exact ⟨rfl, hnext ▸ ih hrest⟩

/-- The links of one cell of a segment. -/
theorem Seg.at {xs ys : List ρ} {r : ρ} (hseg : Seg h p (xs ++ r :: ys) q) :
    h.prev r = last p xs ∧ h.next r = first ys q := by
  obtain ⟨-, hprev, hnext, -⟩ := seg_append.mp hseg
  exact ⟨hprev, hnext⟩

/-- In a segment with nothing beyond either end, `prev` undoes `next` and `next` undoes `prev`. -/
theorem Seg.next_eq_iff {l : List ρ} (hseg : Seg h none l none) (hnd : l.Nodup) {r s : ρ}
    (hr : r ∈ l) (hs : s ∈ l) : h.next r = some s ↔ h.prev s = some r := by
  constructor
  · intro hnext
    obtain ⟨xs, ys, rfl⟩ := List.append_of_mem hr
    rw [hseg.at.2, first_none] at hnext
    cases ys with
    | nil => cases hnext
    | cons b ys =>
        cases hnext
        have hs' := (show Seg h none ((xs ++ [r]) ++ s :: ys) none by simpa using hseg).at.1
        rw [hs', last_concat]
  · intro hprev
    obtain ⟨xs, ys, rfl⟩ := List.append_of_mem hs
    rw [hseg.at.1, last_none] at hprev
    rcases List.eq_nil_or_concat xs with rfl | ⟨zs, b, rfl⟩
    · cases hprev
    · have hb : b = r := by simpa using hprev
      subst hb
      have hr' := (show Seg h none (zs ++ b :: s :: ys) none by simpa using hseg).at.2
      rw [hr', first_cons]

/-! ### Changing links -/

/-- A segment only depends on the links of its own cells. -/
theorem Seg.congr {h' : Links ρ} {l : List ρ} (hseg : Seg h p l q)
    (hnext : ∀ r ∈ l, h'.next r = h.next r) (hprev : ∀ r ∈ l, h'.prev r = h.prev r) :
    Seg h' p l q := by
  induction l generalizing p with
  | nil => trivial
  | cons a l ih =>
      obtain ⟨hp, hn, hrest⟩ := hseg
      refine ⟨?_, ?_, ?_⟩
      · rw [hprev a List.mem_cons_self, hp]
      · rw [hnext a List.mem_cons_self, hn]
      · exact ih hrest (fun r hr => hnext r (List.mem_cons_of_mem _ hr))
          (fun r hr => hprev r (List.mem_cons_of_mem _ hr))

/-- The two halves of a list share no cell. -/
theorem not_mem_left {xs ys : List ρ} (hnd : (xs ++ ys).Nodup) : ∀ r ∈ ys, r ∉ xs :=
  fun r hy hx => (List.nodup_append.mp hnd).2.2 r hx r hy rfl

theorem not_mem_right {xs ys : List ρ} (hnd : (xs ++ ys).Nodup) : ∀ r ∈ xs, r ∉ ys :=
  fun r hx hy => (List.nodup_append.mp hnd).2.2 r hx r hy rfl

variable [DecidableEq ρ]

def setNext (h : Links ρ) (r : ρ) (n : Option ρ) : Links ρ :=
  { h with next := Function.update h.next r n }

def setPrev (h : Links ρ) (r : ρ) (n : Option ρ) : Links ρ :=
  { h with prev := Function.update h.prev r n }

variable {r : ρ} {n : Option ρ}

@[simp] theorem setNext_next_self : (h.setNext r n).next r = n := Function.update_self ..
@[simp] theorem setPrev_prev_self : (h.setPrev r n).prev r = n := Function.update_self ..
@[simp] theorem setNext_prev : (h.setNext r n).prev = h.prev := rfl
@[simp] theorem setPrev_next : (h.setPrev r n).next = h.next := rfl

theorem setPrev_comm {s : ρ} {m : Option ρ} (hne : r ≠ s) :
    (h.setPrev r n).setPrev s m = (h.setPrev s m).setPrev r n := by
  unfold Links.setPrev
  dsimp only
  rw [Function.update_comm hne]

theorem setNext_comm {s : ρ} {m : Option ρ} (hne : r ≠ s) :
    (h.setNext r n).setNext s m = (h.setNext s m).setNext r n := by
  unfold Links.setNext
  dsimp only
  rw [Function.update_comm hne]

theorem Seg.setNext {l : List ρ} (hseg : Seg h p l q) (hr : r ∉ l) :
    Seg (h.setNext r n) p l q := by
  refine hseg.congr (fun s hs => ?_) fun _ _ => rfl
  have hne : s ≠ r := fun e => hr (e ▸ hs)
  exact Function.update_of_ne hne ..

theorem Seg.setPrev {l : List ρ} (hseg : Seg h p l q) (hr : r ∉ l) :
    Seg (h.setPrev r n) p l q := by
  refine hseg.congr (fun _ _ => rfl) fun s hs => ?_
  have hne : s ≠ r := fun e => hr (e ▸ hs)
  exact Function.update_of_ne hne ..

/-- Let the cell on the left, if there is one, lead to `n`. -/
def joinRight (h : Links ρ) : Option ρ → Option ρ → Links ρ
  | none, _ => h
  | some r, n => h.setNext r n

/-- Let the cell on the right, if there is one, lead back to `n`. -/
def joinLeft (h : Links ρ) : Option ρ → Option ρ → Links ρ
  | none, _ => h
  | some r, n => h.setPrev r n

@[simp] theorem joinLeft_next {a : Option ρ} : (h.joinLeft a n).next = h.next := by
  cases a <;> rfl

@[simp] theorem joinRight_prev {a : Option ρ} : (h.joinRight a n).prev = h.prev := by
  cases a <;> rfl

theorem joinRight_joinLeft {a b m : Option ρ} :
    (h.joinRight a n).joinLeft b m = (h.joinLeft b m).joinRight a n := by
  cases a <;> cases b <;> rfl

theorem Seg.frameRight {l : List ρ} {a : Option ρ} (hseg : Seg h p l q) (ha : ∀ r ∈ a, r ∉ l) :
    Seg (h.joinRight a n) p l q := by
  cases a with
  | none => exact hseg
  | some r => exact hseg.setNext (ha r rfl)

theorem Seg.frameLeft {l : List ρ} {a : Option ρ} (hseg : Seg h p l q) (ha : ∀ r ∈ a, r ∉ l) :
    Seg (h.joinLeft a n) p l q := by
  cases a with
  | none => exact hseg
  | some r => exact hseg.setPrev (ha r rfl)

theorem Chain.frameRight {l : List ρ} {a start : Option ρ} (hchain : Chain h.next start l)
    (ha : ∀ r ∈ a, r ∉ l) : Chain (h.joinRight a n).next start l := by
  cases a with
  | none => exact hchain
  | some r => exact hchain.frame (ha r rfl)

/-- Redirecting the `next` of the last cell moves the segment's right border. -/
theorem Seg.relinkRight {l : List ρ} (hseg : Seg h p l q) (hnd : l.Nodup) :
    Seg (h.joinRight l.getLast? n) p l n := by
  rcases List.eq_nil_or_concat l with rfl | ⟨l, r, rfl⟩
  · trivial
  · rw [List.concat_eq_append] at *
    have hr : r ∉ l := by
      have := List.nodup_append.mp hnd
      exact fun hmem => this.2.2 r hmem r (List.mem_singleton.mpr rfl) rfl
    rw [List.getLast?_concat]
    obtain ⟨hl, hprev, -, -⟩ := seg_append.mp hseg
    exact seg_append.mpr ⟨hl.setNext hr, hprev, setNext_next_self, trivial⟩

/-- Redirecting the `prev` of the first cell moves the segment's left border. -/
theorem Seg.relinkLeft {l : List ρ} (hseg : Seg h p l q) (hnd : l.Nodup) :
    Seg (h.joinLeft l.head? n) n l q := by
  cases l with
  | nil => trivial
  | cons r l =>
      obtain ⟨-, hnext, hrest⟩ := hseg
      exact ⟨setPrev_prev_self, hnext, hrest.setPrev (List.nodup_cons.mp hnd).1⟩

/-- Joining the two neighbours of a cell takes it out of the list. -/
theorem Seg.remove {xs ys : List ρ} (hseg : Seg h none (xs ++ r :: ys) none)
    (hnd : (xs ++ r :: ys).Nodup) :
    Seg ((h.joinRight xs.getLast? ys.head?).joinLeft ys.head? xs.getLast?) none (xs ++ ys)
      none := by
  have hnd' : (xs ++ ys).Nodup := hnd.sublist (by simp)
  obtain ⟨hx, -, -, hy⟩ := seg_append.mp hseg
  refine seg_append.mpr ⟨?_, ?_⟩
  · rw [first_none]
    refine (hx.relinkRight (List.nodup_append.mp hnd').1).frameLeft ?_
    exact fun s hs => not_mem_left hnd' s (List.mem_of_mem_head? hs)
  · rw [last_none, joinRight_joinLeft]
    refine (hy.relinkLeft (List.nodup_append.mp hnd').2.1).frameRight ?_
    exact fun s hs => not_mem_right hnd' s (List.mem_of_mem_getLast? hs)

/-- Joining a fresh cell to two neighbours puts it between them. -/
theorem Seg.insert {xs ys : List ρ} (hseg : Seg h none (xs ++ ys) none)
    (hnd : (xs ++ r :: ys).Nodup) (hnext : h.next r = ys.head?) (hprev : h.prev r = xs.getLast?) :
    Seg ((h.joinRight xs.getLast? (some r)).joinLeft ys.head? (some r)) none (xs ++ r :: ys)
      none := by
  have hnd' : (xs ++ ys).Nodup := hnd.sublist (by simp)
  have hrx : r ∉ xs := not_mem_left hnd r List.mem_cons_self
  have hry : r ∉ ys := (List.nodup_cons.mp (List.nodup_append.mp hnd).2.1).1
  obtain ⟨hx, hy⟩ := seg_append.mp hseg
  refine seg_append.mpr ⟨?_, ?_, ?_, ?_⟩
  · rw [first_cons]
    refine (hx.relinkRight (List.nodup_append.mp hnd').1).frameLeft ?_
    exact fun s hs => not_mem_left hnd' s (List.mem_of_mem_head? hs)
  · rw [last_none, ← hprev]
    cases ys with
    | nil => exact congrFun joinRight_prev r
    | cons b ys =>
        have hne : r ≠ b := fun e => hry (e ▸ List.mem_cons_self)
        show Function.update (h.joinRight _ _).prev b _ r = _
        rw [Function.update_of_ne hne, joinRight_prev]
  · rw [first_none, joinLeft_next, ← hnext]
    rcases List.eq_nil_or_concat xs with rfl | ⟨zs, z, rfl⟩
    · rfl
    · rw [List.concat_eq_append] at *
      have hne : r ≠ z := fun e => hrx (by simp [e])
      rw [List.getLast?_concat]
      exact Function.update_of_ne hne ..
  · rw [joinRight_joinLeft]
    refine (hy.relinkLeft (List.nodup_append.mp hnd').2.1).frameRight ?_
    exact fun s hs => not_mem_right hnd' s (List.mem_of_mem_getLast? hs)

/-- Taking a cell out and putting it in front. -/
theorem Seg.toFront {a : ρ} {xs ys : List ρ} (hseg : Seg h none (a :: xs ++ r :: ys) none)
    (hnd : (a :: xs ++ r :: ys).Nodup) :
    Seg ((((((h.joinRight (h.prev r) (h.next r)).joinLeft (h.next r) (h.prev r)).joinLeft
      (some a) (some r)).setPrev r none).setNext r (some a))) none (r :: (a :: xs ++ ys)) none := by
  have hremoved := hseg.remove hnd
  have hperm : (r :: (a :: xs ++ ys)).Perm (a :: xs ++ r :: ys) := List.perm_middle.symm
  have hnd' : (r :: (a :: xs ++ ys)).Nodup := hperm.nodup_iff.mpr hnd
  have hr : r ∉ a :: xs ++ ys := (List.nodup_cons.mp hnd').1
  have hne : a ≠ r := fun e => hr (by simp [e])
  rw [hseg.at.1, hseg.at.2, last_none, first_none]
  have hfree := (hremoved.setPrev (n := none) hr).setNext (n := some a) hr
  rw [← List.nil_append (a :: xs ++ ys)] at hfree
  have hput := hfree.insert hnd' setNext_next_self setPrev_prev_self
  show Seg (((Links.setPrev _ a (some r)).setPrev r none).setNext r (some a)) _ _ _
  rw [setPrev_comm hne]
  exact hput

/-- Taking a cell out and putting it at the end. -/
theorem Seg.toBack {b : ρ} {xs ys : List ρ} (hseg : Seg h none (xs ++ r :: (ys ++ [b])) none)
    (hnd : (xs ++ r :: (ys ++ [b])).Nodup) :
    Seg ((((((h.joinRight (h.prev r) (h.next r)).joinLeft (h.next r) (h.prev r)).joinRight
      (some b) (some r)).setPrev r (some b)).setNext r none)) none (xs ++ (ys ++ [b]) ++ [r])
      none := by
  have hremoved := hseg.remove hnd
  have hperm : (xs ++ (ys ++ [b]) ++ [r]).Perm (xs ++ r :: (ys ++ [b])) := by
    rw [List.append_assoc]
    exact List.Perm.append_left xs (List.perm_append_singleton r _)
  have hnd' : (xs ++ (ys ++ [b]) ++ [r]).Nodup := hperm.nodup_iff.mpr hnd
  have hr : r ∉ xs ++ (ys ++ [b]) := fun hmem =>
    (List.nodup_append.mp hnd').2.2 r hmem r (List.mem_singleton.mpr rfl) rfl
  have hne : b ≠ r := fun e => hr (by simp [e])
  have hlast : (xs ++ (ys ++ [b])).getLast? = some b := by
    rw [← List.append_assoc, List.getLast?_concat]
  rw [hseg.at.1, hseg.at.2, last_none, first_none]
  have hfree := (hremoved.setPrev (n := some b) hr).setNext (n := none) hr
  rw [← List.append_nil (xs ++ (ys ++ [b]))] at hfree
  have hput := hfree.insert hnd' setNext_next_self (by rw [hlast]; exact setPrev_prev_self)
  rw [hlast] at hput
  show Seg (((Links.setPrev _ r (some b)).setNext b (some r)).setNext r none) _ _ _
  rw [setNext_comm hne]
  exact hput

end Links

end AsimFeeder.Lib
