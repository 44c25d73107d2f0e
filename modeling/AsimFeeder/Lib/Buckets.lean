/-
Buckets.

A list of buckets, each under a key of its own, none of them empty, and every element in
the bucket of its key.  The search is linear; what counts is the content: taking an
element away and putting one in change it by just that element, and a bucket holds what
the content has under its key, in the order that the buckets keep.
-/
import Mathlib

namespace AsimFeeder.Lib

structure Bucket (κ α : Type) where
  key : κ
  items : List α

variable {κ α : Type} {key : α → κ} {r : α → α → Prop}
  {bs : List (Bucket κ α)} {b : Bucket κ α} {k : κ} {l : List α} {a : α}

namespace Bucket

/-- All that is in the buckets. -/
def contents (bs : List (Bucket κ α)) : List α := bs.flatMap Bucket.items

/-- One bucket for each key, in order and not empty. -/
structure Valid (key : α → κ) (r : α → α → Prop) (bs : List (Bucket κ α)) : Prop where
  keys : (bs.map Bucket.key).Nodup
  nonempty : ∀ b ∈ bs, b.items ≠ []
  placed : ∀ b ∈ bs, ∀ a ∈ b.items, key a = b.key
  ordered : ∀ b ∈ bs, b.items.Pairwise r

theorem contents_append (bs bs' : List (Bucket κ α)) :
    contents (bs ++ bs') = contents bs ++ contents bs' := List.flatMap_append

theorem contents_cons (b : Bucket κ α) (bs : List (Bucket κ α)) :
    contents (b :: bs) = b.items ++ contents bs := List.flatMap_cons

theorem mem_contents : a ∈ contents bs ↔ ∃ b ∈ bs, a ∈ b.items := List.mem_flatMap

theorem valid_nil : Valid key r ([] : List (Bucket κ α)) where
  keys := List.nodup_nil
  nonempty := fun _ hb => by cases hb
  placed := fun _ hb => by cases hb
  ordered := fun _ hb => by cases hb

theorem Valid.sublist (h : Valid key r bs) {bs' : List (Bucket κ α)} (hsub : bs'.Sublist bs) :
    Valid key r bs' where
  keys := h.keys.sublist (hsub.map Bucket.key)
  nonempty := fun b hb => h.nonempty b (hsub.subset hb)
  placed := fun b hb => h.placed b (hsub.subset hb)
  ordered := fun b hb => h.ordered b (hsub.subset hb)

variable [DecidableEq κ]

/-- The bucket of a key. -/
def search (k : κ) (bs : List (Bucket κ α)) : Option (Bucket κ α) := bs.find? fun b => b.key = k

def setItems (k : κ) (l : List α) (bs : List (Bucket κ α)) : List (Bucket κ α) :=
  bs.map fun b => if b.key = k then ⟨k, l⟩ else b

def remove (k : κ) (bs : List (Bucket κ α)) : List (Bucket κ α) := bs.eraseP fun b => b.key = k

theorem search_mem (hb : search k bs = some b) : b ∈ bs ∧ b.key = k :=
  ⟨List.mem_of_find?_eq_some hb, of_decide_eq_true (List.find?_eq_some_iff_append.mp hb).1⟩

/-- Where the bucket of a key is. -/
theorem search_split (h : (bs.map Bucket.key).Nodup) (hb : search k bs = some b) :
    b.key = k ∧ ∃ pre post, bs = pre ++ b :: post ∧ (∀ c ∈ pre, c.key ≠ k) ∧
      ∀ c ∈ post, c.key ≠ k := by
  obtain ⟨hkey, pre, post, rfl, hpre⟩ := List.find?_eq_some_iff_append.mp hb
  have hkey : b.key = k := of_decide_eq_true hkey
  refine ⟨hkey, pre, post, rfl, fun c hc => by simpa using hpre c hc, fun c hc => ?_⟩
  rw [List.map_append, List.map_cons, List.nodup_append, List.nodup_cons] at h
  rintro rfl
  exact h.2.1.1 (hkey ▸ List.mem_map_of_mem hc)

theorem setItems_of_ne (h : ∀ c ∈ bs, c.key ≠ k) : setItems k l bs = bs := by
  unfold setItems
  rw [List.map_congr_left (g := id), List.map_id]
  intro c hc
  rw [if_neg (h c hc)]
  rfl

theorem setItems_split {pre post : List (Bucket κ α)} (hkey : b.key = k)
    (hpre : ∀ c ∈ pre, c.key ≠ k) (hpost : ∀ c ∈ post, c.key ≠ k) :
    setItems k l (pre ++ b :: post) = pre ++ ⟨k, l⟩ :: post := by
  have hpre := setItems_of_ne (l := l) hpre
  have hpost := setItems_of_ne (l := l) hpost
  unfold setItems at hpre hpost ⊢
  rw [List.map_append, List.map_cons, hpre, hpost, if_pos hkey]

theorem remove_split {pre post : List (Bucket κ α)} (hkey : b.key = k)
    (hpre : ∀ c ∈ pre, c.key ≠ k) : remove k (pre ++ b :: post) = pre ++ post := by
  unfold remove
  rw [List.eraseP_append_right _ (by simpa using hpre),
    List.eraseP_cons_of_pos (by simpa using hkey)]

/-- A bucket under a key that had none. -/
theorem Valid.cons (h : Valid key r bs) (hnone : search k bs = none) (hne : l ≠ [])
    (hplaced : ∀ a ∈ l, key a = k) (hordered : l.Pairwise r) : Valid key r (⟨k, l⟩ :: bs) where
  keys := by
    rw [List.map_cons, List.nodup_cons]
    refine ⟨fun hmem => ?_, h.keys⟩
    obtain ⟨c, hc, hkey⟩ := List.mem_map.mp hmem
    have hnot := List.find?_eq_none.mp hnone c hc
    exact hnot (decide_eq_true hkey)
  nonempty := List.forall_mem_cons.mpr ⟨hne, h.nonempty⟩
  placed := List.forall_mem_cons.mpr ⟨hplaced, h.placed⟩
  ordered := List.forall_mem_cons.mpr ⟨hordered, h.ordered⟩

/-- **The items of a bucket are exchanged.** -/
theorem Valid.exchange (h : Valid key r bs) (hb : search k bs = some b) (hne : l ≠ [])
    (hplaced : ∀ a ∈ l, key a = k) (hordered : l.Pairwise r) :
    Valid key r (setItems k l bs) ∧
      (contents (setItems k l bs) ++ b.items).Perm (contents bs ++ l) := by
  obtain ⟨hkey, pre, post, rfl, hpre, hpost⟩ := search_split h.keys hb
  rw [setItems_split hkey hpre hpost]
  refine ⟨?_, ?_⟩
  · have hkeys := h.keys
    have hnonempty := h.nonempty
    have hplaced' := h.placed
    have hordered' := h.ordered
    simp only [List.forall_mem_append, List.forall_mem_cons] at hnonempty hplaced' hordered'
    exact {
      keys := by
        rw [List.map_append, List.map_cons] at hkeys ⊢
        rw [← hkey]
        exact hkeys
      nonempty := by
        simp only [List.forall_mem_append, List.forall_mem_cons]
        exact ⟨hnonempty.1, hne, hnonempty.2.2⟩
      placed := by
        simp only [List.forall_mem_append, List.forall_mem_cons]
        exact ⟨hplaced'.1, hplaced, hplaced'.2.2⟩
      ordered := by
        simp only [List.forall_mem_append, List.forall_mem_cons]
        exact ⟨hordered'.1, hordered, hordered'.2.2⟩ }
  · rw [contents_append, contents_append, contents_cons, contents_cons]
    classical
    rw [List.perm_iff_count]
    intro a
    simp only [List.count_append]
    omega

/-- The exchanged bucket is found, and goes like the one before. -/
theorem Valid.search_setItems (h : Valid key r bs) (hb : search k bs = some b) (l : List α) :
    search k (setItems k l bs) = some ⟨k, l⟩ ∧ remove k (setItems k l bs) = remove k bs := by
  obtain ⟨hkey, pre, post, rfl, hpre, hpost⟩ := search_split h.keys hb
  rw [setItems_split hkey hpre hpost, remove_split hkey hpre]
  refine ⟨?_, remove_split (b := ⟨k, l⟩) rfl hpre⟩
  unfold search
  rw [List.find?_append, List.find?_eq_none.mpr (by simpa using hpre), Option.none_or,
    List.find?_cons_of_pos (by simp)]

/-- **A bucket goes.** -/
theorem Valid.leave (h : Valid key r bs) (hb : search k bs = some b) :
    Valid key r (remove k bs) ∧ (contents (remove k bs) ++ b.items).Perm (contents bs) := by
  obtain ⟨hkey, pre, post, rfl, hpre, -⟩ := search_split h.keys hb
  rw [remove_split hkey hpre]
  refine ⟨h.sublist (List.Sublist.append_left (List.sublist_cons_self b post) pre), ?_⟩
  rw [contents_append, contents_append, contents_cons]
  classical
  rw [List.perm_iff_count]
  intro a
  simp only [List.count_append]
  omega

/-- **A bucket holds what the content has under its key.** -/
theorem Valid.items_eq (h : Valid key r bs) (hb : search k bs = some b) :
    b.items = (contents bs).filter fun a => key a = k := by
  obtain ⟨hkey, pre, post, rfl, hpre, hpost⟩ := search_split h.keys hb
  have hplaced := h.placed
  simp only [List.forall_mem_append, List.forall_mem_cons] at hplaced
  have hothers (cs : List (Bucket κ α)) (hcs : ∀ c ∈ cs, c.key ≠ k)
      (hp : ∀ c ∈ cs, ∀ a ∈ c.items, key a = c.key) :
      ((contents cs).filter fun a => key a = k) = [] := by
    rw [List.filter_eq_nil_iff]
    intro a ha
    obtain ⟨c, hc, hac⟩ := mem_contents.mp ha
    rw [hp c hc a hac]
    simpa using hcs c hc
  rw [contents_append, contents_cons, List.filter_append, List.filter_append,
    hothers pre hpre hplaced.1, hothers post hpost hplaced.2.2, List.nil_append, List.append_nil,
    List.filter_eq_self.mpr]
  intro a ha
  exact decide_eq_true ((hplaced.2.1 a ha).trans hkey)

theorem Valid.search_eq_none (h : Valid key r bs) :
    search k bs = none ↔ ∀ a ∈ contents bs, key a ≠ k := by
  constructor
  · intro hnone a ha hk
    obtain ⟨c, hc, hac⟩ := mem_contents.mp ha
    have hnot := List.find?_eq_none.mp hnone c hc
    rw [← hk, ← h.placed c hc a hac] at hnot
    simp at hnot
  · intro hall
    rw [search, List.find?_eq_none]
    intro c hc hkey
    obtain ⟨a, ha⟩ := List.exists_mem_of_ne_nil c.items (h.nonempty c hc)
    exact hall a (mem_contents.mpr ⟨c, hc, ha⟩)
      ((h.placed c hc a ha).trans (of_decide_eq_true hkey))

/-- An element is in the bucket of its key. -/
theorem Valid.search_of_mem (h : Valid key r bs) (ha : a ∈ contents bs) :
    ∃ b, search (key a) bs = some b ∧ a ∈ b.items := by
  cases hb : search (key a) bs with
  | none => exact absurd rfl (h.search_eq_none.mp hb a ha)
  | some b =>
      refine ⟨b, rfl, ?_⟩
      rw [h.items_eq hb, List.mem_filter]
      exact ⟨ha, decide_eq_true rfl⟩

end Bucket

end AsimFeeder.Lib
