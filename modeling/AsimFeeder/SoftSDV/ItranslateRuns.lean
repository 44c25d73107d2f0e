/-
The table of translations refines the translations that were used last.

The slots, from the head on, are the translations in their order and then those that are
free.  A use brings a slot to the front, what is dropped goes to the end, and both leave the
others in their order.  This takes a slot that is free never to be used as it is, which
would happen if page 0 was asked for.
-/
import AsimFeeder.SoftSDV.Itranslate

namespace AsimFeeder.SoftSDV.Itranslate

open Lib

variable {t : Table} {i : Slot} {l xs ys : List Slot} {page : UInt64}

/-! ### The slots -/

/-- The slots in their order. -/
structure Linked (t : Table) (l : List Slot) : Prop where
  nodup : l.Nodup
  length : l.length = 50
  seg : Links.Seg t.links none l none
  head : t.head = l.head?
  tail : t.tail = l.getLast?

theorem Linked.mem (h : Linked t l) (i : Slot) : i ∈ l := by
  have hcard : l.toFinset = Finset.univ := by
    apply Finset.eq_univ_of_card
    rw [List.toFinset_card_of_nodup h.nodup, h.length, Fintype.card_fin]
  exact List.mem_toFinset.mp (hcard ▸ Finset.mem_univ i)

theorem Linked.setEntry (h : Linked t l) (i : Slot) (e : Translation) :
    Linked (t.setEntry i e) l :=
  ⟨h.nodup, h.length, h.seg, h.head, h.tail⟩

theorem map_setEntry (h : i ∉ l) (e : Translation) :
    l.map (t.setEntry i e).entry = l.map t.entry := by
  refine List.map_congr_left fun j hj => ?_
  have hne : j ≠ i := by
    rintro rfl
    exact h hj
  exact Function.update_of_ne hne ..

theorem entry_MoveEntryToHead (t : Table) (i : Slot) :
    (t.MoveEntryToHead i).entry =
      Function.update t.entry i { t.entry i with softsdvUid := t.lastSoftsdvUid } := by
  unfold Table.MoveEntryToHead
  dsimp only
  split <;> rfl

theorem last_MoveEntryToHead (t : Table) (i : Slot) :
    (t.MoveEntryToHead i).lastSoftsdvUid = t.lastSoftsdvUid := by
  unfold Table.MoveEntryToHead
  dsimp only
  split <;> rfl

theorem Linked.move (h : Linked t (xs ++ i :: ys)) :
    Linked (t.MoveEntryToHead i) (i :: (xs ++ ys)) := by
  have hperm : (i :: (xs ++ ys)).Perm (xs ++ i :: ys) := List.perm_middle.symm
  have hu := h.setEntry i { t.entry i with softsdvUid := t.lastSoftsdvUid }
  unfold Table.MoveEntryToHead
  dsimp only
  generalize t.setEntry i _ = u at hu ⊢
  cases xs with
  | nil =>
      have hhead : u.head = some i := hu.head
      rw [if_pos hhead]
      exact hu
  | cons a xs =>
      have hne : a ≠ i := by
        rintro rfl
        exact (List.nodup_cons.mp h.nodup).1 (by simp)
      have hhead : u.head = some a := hu.head
      have hnotHead : ¬ u.head = some i := fun heq => hne (Option.some.inj (hhead.symm.trans heq))
      obtain ⟨hprev, hnext⟩ := hu.seg.at
      rw [Links.last_none] at hprev
      rw [Links.first_none] at hnext
      rw [if_neg hnotHead]
      refine ⟨hperm.nodup_iff.mpr h.nodup, hperm.length_eq.trans h.length, ?_, rfl, ?_⟩
      · dsimp only
        rw [hhead]
        exact hu.seg.toFront h.nodup
      · dsimp only
        rw [hnext, hprev, hu.tail]
        cases ys with
        | nil => simp [List.getLast?_cons]
        | cons b ys => simp [List.getLast?_cons]

theorem Linked.delete (h : Linked t (xs ++ i :: ys)) :
    Linked (t.DeleteEntry i) (xs ++ ys ++ [i]) := by
  have hperm : (xs ++ ys ++ [i]).Perm (xs ++ i :: ys) := by
    rw [List.append_assoc]
    exact List.Perm.append_left xs (List.perm_append_singleton i ys)
  unfold Table.DeleteEntry
  dsimp only
  refine Linked.setEntry ?_ _ _
  rcases List.eq_nil_or_concat ys with rfl | ⟨ys, b, rfl⟩
  · have htail : t.tail = some i := by
      rw [h.tail, List.getLast?_concat]
    rw [if_pos htail, List.append_nil]
    exact h
  · rw [List.concat_eq_append] at *
    have htail : t.tail = some b := by
      rw [h.tail]
      simp [List.getLast?_cons]
    have hne : b ≠ i := by
      rintro rfl
      have hnodup := (List.nodup_append.mp h.nodup).2.1
      exact (List.nodup_cons.mp hnodup).1 (by simp)
    have hnotTail : ¬ t.tail = some i := fun heq => hne (Option.some.inj (htail.symm.trans heq))
    obtain ⟨hprev, hnext⟩ := h.seg.at
    rw [Links.last_none] at hprev
    rw [Links.first_none] at hnext
    rw [if_neg hnotTail]
    refine ⟨hperm.nodup_iff.mpr h.nodup, hperm.length_eq.trans h.length, ?_, ?_, ?_⟩
    · dsimp only
      rw [htail]
      exact h.seg.toBack h.nodup
    · dsimp only
      rw [hnext, hprev, h.head]
      cases xs with
      | nil => simp [List.head?_append]
      | cons a xs => simp
    · dsimp only
      rw [List.getLast?_concat]

theorem entry_DeleteEntry (t : Table) (i : Slot) :
    (t.DeleteEntry i).entry = Function.update t.entry i unused := by
  unfold Table.DeleteEntry
  dsimp only
  split <;> rfl

theorem last_DeleteEntry (t : Table) (i : Slot) :
    (t.DeleteEntry i).lastSoftsdvUid = t.lastSoftsdvUid := by
  unfold Table.DeleteEntry
  dsimp only
  split <;> rfl

/-! ### Looking for a page -/

theorem find_eq_none {fuel steps : Nat} {start : Option Slot}
    (h : Links.Chain t.links.next start l) (hnone : ∀ i ∈ l, (t.entry i).virtualPage ≠ page) :
    t.find page fuel steps start = none := by
  induction l generalizing fuel steps start with
  | nil =>
      cases fuel with
      | zero => rfl
      | succ fuel =>
          obtain rfl : start = none := h
          rfl
  | cons i l ih =>
      obtain ⟨rfl, hrest⟩ := h
      cases fuel with
      | zero => rfl
      | succ fuel =>
          rw [Table.find, if_neg (hnone i List.mem_cons_self)]
          exact ih hrest fun j hj => hnone j (List.mem_cons_of_mem i hj)

theorem find_eq_some {fuel steps : Nat} {start : Option Slot}
    (h : Links.Chain t.links.next start (xs ++ i :: ys)) (hfuel : xs.length < fuel)
    (hbefore : ∀ j ∈ xs, (t.entry j).virtualPage ≠ page) (hi : (t.entry i).virtualPage = page) :
    t.find page fuel steps start = some (i, steps + xs.length) := by
  induction xs generalizing fuel steps start with
  | nil =>
      obtain ⟨rfl, -⟩ := h
      cases fuel with
      | zero => cases hfuel
      | succ fuel =>
          rw [Table.find, if_pos hi]
          rfl
  | cons j xs ih =>
      obtain ⟨rfl, hrest⟩ := h
      cases fuel with
      | zero => cases hfuel
      | succ fuel =>
          rw [Table.find, if_neg (hbefore j List.mem_cons_self)]
          rw [List.length_cons] at hfuel ⊢
          rw [ih hrest (by omega) fun k hk => hbefore k (List.mem_cons_of_mem j hk)]
          congr 2
          omega

theorem Linked.findPage_eq_none (h : Linked t l) {va : UInt64}
    (hnone : ∀ i, (t.entry i).virtualPage ≠ Page va) : t.findPage va = none := by
  unfold Table.findPage
  rw [h.head]
  exact find_eq_none h.seg.chain fun i _ => hnone i

theorem Linked.findPage_eq_some (h : Linked t (xs ++ i :: ys)) {va : UInt64}
    (hbefore : ∀ j ∈ xs, (t.entry j).virtualPage ≠ Page va)
    (hi : (t.entry i).virtualPage = Page va) : t.findPage va = some (i, 1 + xs.length) := by
  have hlength := h.length
  rw [List.length_append, List.length_cons] at hlength
  unfold Table.findPage
  rw [h.head]
  exact find_eq_some h.seg.chain (by omega) hbefore hi

/-! ### The invariant -/

/-- The slots are the translations in their order and then those that are free. -/
structure Tracks (t : Table) (s : Lru) (l : List Slot) : Prop extends Linked t l where
  entries : l.map t.entry = s.live ++ List.replicate (50 - s.live.length) unused
  bounded : s.live.length ≤ 50
  distinct : (s.live.map Translation.virtualPage).Nodup
  last : t.lastSoftsdvUid = s.lastSoftsdvUid

variable {s : Lru} {e : Translation} {va : UInt64}

/-- Where a translation is, among the others and among the slots. -/
structure Placed (t : Table) (s : Lru) (e : Translation) (as bs : List Translation)
    (xs : List Slot) (i : Slot) (ys : List Slot) : Prop where
  live : s.live = as ++ e :: bs
  others : ∀ e' ∈ as ++ bs, e'.virtualPage ≠ e.virtualPage
  before : xs.map t.entry = as
  entry : t.entry i = e
  behind : ys.map t.entry = bs ++ List.replicate (50 - s.live.length) unused

theorem Tracks.placed (h : Tracks t s l) (he : s.lookup page = some e) :
    e.virtualPage = page ∧ ∃ as bs xs i ys, l = xs ++ i :: ys ∧ Placed t s e as bs xs i ys := by
  have hpage := List.find?_some he
  rw [decide_eq_true_eq] at hpage
  obtain ⟨-, as, bs, hlive, -⟩ := List.find?_eq_some_iff_append.mp he
  refine ⟨hpage, as, bs, ?_⟩
  have hentries := h.entries
  rw [hlive, List.append_assoc, List.cons_append] at hentries
  obtain ⟨xs, rest, rfl, hxs, hrest⟩ := List.map_eq_append_iff.mp hentries
  obtain ⟨i, ys, rfl, hi, hys⟩ := List.map_eq_cons_iff.mp hrest
  refine ⟨xs, i, ys, rfl, hlive, ?_, hxs, hi, ?_⟩
  · have hdistinct := h.distinct
    rw [hlive, List.map_append, List.map_cons] at hdistinct
    have hnodup := (List.perm_middle.nodup_iff.mp hdistinct)
    have hnot := (List.nodup_cons.mp hnodup).1
    rw [← List.map_append] at hnot
    intro e' he' heq
    exact hnot (heq ▸ List.mem_map_of_mem he')
  · rw [hlive]
    exact hys

theorem filter_others {as bs : List Translation}
    (h : ∀ e' ∈ as ++ bs, e'.virtualPage ≠ e.virtualPage) :
    (as ++ e :: bs).filter (fun e' => e'.virtualPage ≠ e.virtualPage) = as ++ bs := by
  rw [List.filter_append, List.filter_cons_of_neg (by simp), ← List.filter_append]
  exact List.filter_eq_self.mpr fun e' he' => by simpa using h e' he'

/-- The slot that the table finds is that of the translation. -/
theorem Placed.findPage (hplaced : Placed t s e as bs xs i ys) (h : Linked t (xs ++ i :: ys))
    (hpage : e.virtualPage = Page va) : t.findPage va = some (i, 1 + xs.length) := by
  refine h.findPage_eq_some ?_ ?_
  · intro j hj
    rw [← hpage]
    refine hplaced.others _ (List.mem_append_left _ ?_)
    rw [← hplaced.before]
    exact List.mem_map_of_mem hj
  · rw [hplaced.entry, hpage]

/-! ### What the operations do -/

/-- A use of the translation. -/
theorem Tracks.use {as bs : List Translation} (h : Tracks t s (xs ++ i :: ys))
    (hplaced : Placed t s e as bs xs i ys) (he : s.lookup e.virtualPage = some e) :
    Tracks (t.MoveEntryToHead i) (s.use e.virtualPage) (i :: (xs ++ ys)) := by
  have hlive : (s.use e.virtualPage).live
      = { e with softsdvUid := s.lastSoftsdvUid } :: (as ++ bs) := by
    unfold Lru.use
    rw [he]
    dsimp only
    rw [hplaced.live, filter_others hplaced.others]
  have hlast : (s.use e.virtualPage).lastSoftsdvUid = s.lastSoftsdvUid := by
    unfold Lru.use
    rw [he]
  have hlength : (s.use e.virtualPage).live.length = s.live.length := by
    rw [hlive, hplaced.live]
    simp
    omega
  have hlinked := h.toLinked.move
  refine ⟨hlinked, ?_, by rw [hlength]; exact h.bounded, ?_, ?_⟩
  · have hnot := (List.nodup_cons.mp hlinked.nodup).1
    have hsame : (xs ++ ys).map (t.MoveEntryToHead i).entry = (xs ++ ys).map t.entry := by
      rw [entry_MoveEntryToHead]
      exact map_setEntry hnot _
    rw [List.map_cons, hsame, hlength, hlive, List.map_append, hplaced.before, hplaced.behind,
      entry_MoveEntryToHead, Function.update_self, hplaced.entry, h.last]
    simp
  · have hdistinct := h.distinct
    rw [hplaced.live, List.map_append, List.map_cons] at hdistinct
    rw [hlive, List.map_cons, List.map_append]
    exact List.perm_middle.nodup_iff.mp hdistinct
  · rw [last_MoveEntryToHead, h.last, hlast]

/-- A translation is dropped. -/
theorem Tracks.drop {as bs : List Translation} (h : Tracks t s (xs ++ i :: ys))
    (hplaced : Placed t s e as bs xs i ys) :
    Tracks (t.DeleteEntry i) { s with live := as ++ bs } (xs ++ ys ++ [i]) := by
  have hlinked := h.toLinked.delete
  have hlength : s.live.length = (as ++ bs).length + 1 := by
    rw [hplaced.live]
    simp
    omega
  have hbounded := h.bounded
  refine ⟨hlinked, ?_, ?_, ?_, ?_⟩
  · have hnot : i ∉ xs ++ ys := fun hmem =>
      (List.nodup_append.mp hlinked.nodup).2.2 i hmem i (List.mem_singleton.mpr rfl) rfl
    have hsame : (xs ++ ys).map (t.DeleteEntry i).entry = (xs ++ ys).map t.entry := by
      rw [entry_DeleteEntry]
      exact map_setEntry hnot _
    have hmore : 50 - (as ++ bs).length = (50 - s.live.length) + 1 := by omega
    rw [List.map_append, hsame, List.map_append, hplaced.before, hplaced.behind, hmore,
      List.replicate_succ', List.map_singleton, entry_DeleteEntry, Function.update_self]
    simp
  · dsimp only
    omega
  · have hdistinct := h.distinct
    rw [hplaced.live, List.map_append, List.map_cons] at hdistinct
    dsimp only
    rw [List.map_append]
    exact (List.nodup_cons.mp (List.perm_middle.nodup_iff.mp hdistinct)).2
  · rw [last_DeleteEntry]
    exact h.last

/-- A slot that is free is dropped once more. -/
theorem Tracks.dropFree (h : Tracks t s (xs ++ i :: ys)) (hi : t.entry i = unused)
    (hlive : unused ∉ s.live) : Tracks (t.DeleteEntry i) s (xs ++ ys ++ [i]) := by
  have hlinked := h.toLinked.delete
  refine ⟨hlinked, ?_, h.bounded, h.distinct, ?_⟩
  · have hnot : i ∉ xs ++ ys := fun hmem =>
      (List.nodup_append.mp hlinked.nodup).2.2 i hmem i (List.mem_singleton.mpr rfl) rfl
    have hsame : (xs ++ ys).map (t.DeleteEntry i).entry = (xs ++ ys).map t.entry := by
      rw [entry_DeleteEntry]
      exact map_setEntry hnot _
    have hentries := h.entries
    rw [List.map_append, List.map_cons, hi] at hentries
    rw [List.map_append, hsame, List.map_append, List.map_singleton, entry_DeleteEntry,
      Function.update_self]
    generalize xs.map t.entry = before at hentries ⊢
    generalize ys.map t.entry = behind at hentries ⊢
    generalize 50 - s.live.length = n at hentries ⊢
    -- what is before the slot are the translations and some that are free
    obtain ⟨a, ha⟩ : ∃ a, before = s.live ++ List.replicate a unused := by
      rcases List.append_eq_append_iff.mp hentries with ⟨m, hm, hrest⟩ | ⟨m, hm, hrest⟩
      · cases m with
        | nil => exact ⟨0, by simpa using hm.symm⟩
        | cons e m =>
            obtain ⟨rfl, -⟩ := List.cons.inj hrest
            exact absurd (hm ▸ List.mem_append_right _ List.mem_cons_self) hlive
      · have hsub : ∀ e ∈ m, e = unused := fun e he =>
          List.eq_of_mem_replicate (hrest ▸ List.mem_append_left _ he)
        refine ⟨m.length, hm.trans ?_⟩
        rw [← List.eq_replicate_of_mem hsub]
    rw [ha, List.append_assoc, List.append_right_inj] at hentries
    have hbehind : behind = List.replicate behind.length unused := by
      refine List.eq_replicate_of_mem fun e he => ?_
      refine List.eq_of_mem_replicate (n := n) ?_
      rw [← hentries]
      exact List.mem_append_right _ (List.mem_cons_of_mem _ he)
    have hcount := congrArg List.length hentries
    rw [List.length_append, List.length_cons, List.length_replicate, List.length_replicate]
      at hcount
    rw [ha, hbehind, List.append_assoc, List.append_assoc, ← List.replicate_succ',
      List.replicate_append_replicate]
    congr 2
  · rw [last_DeleteEntry]
    exact h.last

theorem Lru.add_of_none (hnone : s.lookup page = none) (physicalPage softsdvUid : UInt64)
    (artificial : Bool) : s.add page physicalPage softsdvUid artificial =
      ⟨⟨softsdvUid, page, physicalPage, artificial⟩ ::
        if s.live.length = 50 then s.live.dropLast else s.live, softsdvUid⟩ := by
  unfold Lru.lookup at hnone
  unfold Lru.add Lru.lookup
  dsimp only
  rw [hnone]

theorem Lru.add_of_some (he : s.lookup page = some e) (physicalPage softsdvUid : UInt64)
    (artificial : Bool) : s.add page physicalPage softsdvUid artificial =
      Lru.use { s with lastSoftsdvUid := softsdvUid } page := by
  unfold Lru.lookup at he
  unfold Lru.add Lru.lookup
  dsimp only
  rw [he]

theorem Lru.findable_of_none (hnone : s.lookup page = none)
    (hfind : page ≠ 0 ∨ (s.lookup 0).isSome ∨ s.live.length = 50) :
    page ≠ 0 ∨ s.live.length = 50 := by
  rcases hfind with hpage | hzero | hfull
  · exact .inl hpage
  · refine .inl fun hpage => ?_
    rw [← hpage, hnone] at hzero
    cases hzero
  · exact .inr hfull

/-- No slot has a page that is not there, unless one that is free is taken for it. -/
theorem Tracks.absent (h : Tracks t s l) (hnone : s.lookup page = none)
    (hfind : page ≠ 0 ∨ s.live.length = 50) (i : Slot) : (t.entry i).virtualPage ≠ page := by
  intro hi
  have hmem : t.entry i ∈ l.map t.entry := List.mem_map_of_mem (h.mem i)
  rw [h.entries] at hmem
  rcases List.mem_append.mp hmem with hlive | hfree
  · have hnot := List.find?_eq_none.mp hnone _ hlive
    exact hnot (by simpa using hi)
  · obtain ⟨hcount, heq⟩ := List.mem_replicate.mp hfree
    rw [heq] at hi
    rcases hfind with hpage | hfull
    · exact hpage hi.symm
    · omega

/-- A page that is not there takes the last slot. -/
theorem Tracks.fill (h : Tracks t s l) (hnone : s.lookup page = none)
    (hfind : page ≠ 0 ∨ s.live.length = 50) (pa : UInt64) (artificial : Bool)
    (hpage : page = Page va) :
    ∃ i l', t.tail = some i ∧
      (t.MoveEntryToHead i).fillHead va pa artificial = (false,
        (t.MoveEntryToHead i).setEntry i ⟨t.lastSoftsdvUid, page, Page pa, artificial⟩) ∧
      Tracks ((t.MoveEntryToHead i).setEntry i ⟨t.lastSoftsdvUid, page, Page pa, artificial⟩)
        (s.add page (Page pa) s.lastSoftsdvUid artificial) l' := by
  have hlength := h.length
  have hbounded := h.bounded
  rcases List.eq_nil_or_concat l with rfl | ⟨xs, i, rfl⟩
  · cases hlength
  · rw [List.concat_eq_append] at h hlength
    have htail : t.tail = some i := by rw [h.tail, List.getLast?_concat]
    have hlinked := h.toLinked.move
    rw [List.append_nil] at hlinked
    have hhead : (t.MoveEntryToHead i).head = some i := hlinked.head
    have hentry : (t.MoveEntryToHead i).entry i
        = { t.entry i with softsdvUid := t.lastSoftsdvUid } := by
      rw [entry_MoveEntryToHead, Function.update_self]
    have habsent := h.absent hnone hfind i
    refine ⟨i, i :: xs, htail, ?_, ?_⟩
    · unfold Table.fillHead
      rw [hhead]
      dsimp only
      rw [hentry, if_pos (by rw [← hpage]; exact habsent), ← hpage]
    · rw [Lru.add_of_none hnone]
      have hnot := (List.nodup_cons.mp hlinked.nodup).1
      have hothers : xs.map ((t.MoveEntryToHead i).setEntry i
          ⟨t.lastSoftsdvUid, page, Page pa, artificial⟩).entry = xs.map t.entry := by
        rw [map_setEntry hnot, entry_MoveEntryToHead]
        exact map_setEntry hnot _
      have hself : ((t.MoveEntryToHead i).setEntry i
          ⟨t.lastSoftsdvUid, page, Page pa, artificial⟩).entry i
            = ⟨s.lastSoftsdvUid, page, Page pa, artificial⟩ := by
        rw [← h.last]
        exact Function.update_self ..
      -- what was before the last slot
      have hentries := congrArg List.dropLast h.entries
      rw [List.map_append, List.map_singleton, List.dropLast_concat] at hentries
      have hkept : xs.map t.entry = (if s.live.length = 50 then s.live.dropLast else s.live) ++
          List.replicate (49 - (if s.live.length = 50 then s.live.dropLast else s.live).length)
            unused := by
        rw [hentries]
        by_cases hfull : s.live.length = 50
        · rw [if_pos hfull, hfull]
          simp [hfull]
        · have hmore : 50 - s.live.length = (49 - s.live.length) + 1 := by omega
          rw [if_neg hfull, hmore, List.replicate_succ', ← List.append_assoc, List.dropLast_concat]
      have hsub : (if s.live.length = 50 then s.live.dropLast else s.live).Sublist s.live := by
        split
        · exact List.dropLast_sublist _
        · exact List.Sublist.refl _
      have hless : (if s.live.length = 50 then s.live.dropLast else s.live).length ≤ 49 := by
        split
        · rw [List.length_dropLast]
          omega
        · omega
      generalize (if s.live.length = 50 then s.live.dropLast else s.live) = kept
        at hkept hsub hless ⊢
      refine ⟨hlinked.setEntry _ _, ?_, ?_, ?_, ?_⟩
      · have hcount : 50 - (kept.length + 1) = 49 - kept.length := by omega
        rw [List.map_cons, hself, hothers, hkept]
        dsimp only
        rw [List.length_cons, hcount, List.cons_append]
      · dsimp only
        rw [List.length_cons]
        omega
      · dsimp only
        rw [List.map_cons]
        refine List.nodup_cons.mpr ⟨?_, h.distinct.sublist (hsub.map _)⟩
        intro hmem
        obtain ⟨e, he, hepage⟩ := List.mem_map.mp hmem
        have hne := List.find?_eq_none.mp hnone e (hsub.subset he)
        exact hne (by simpa using hepage)
      · show (t.MoveEntryToHead i).lastSoftsdvUid = _
        rw [last_MoveEntryToHead, h.last]

/-! ### The calls -/

theorem Tracks.withLast (h : Tracks t s l) (softsdvUid : UInt64) :
    Tracks { t with lastSoftsdvUid := softsdvUid } { s with lastSoftsdvUid := softsdvUid } l :=
  ⟨⟨h.nodup, h.length, h.seg, h.head, h.tail⟩, h.entries, h.bounded, h.distinct, rfl⟩

/-- **A lookup that takes no free slot for a translation finds what is there.** -/
theorem Tracks.lookup (h : Tracks t s l)
    (hfind : Page va ≠ 0 ∨ (s.lookup 0).isSome ∨ s.live.length = 50) :
    (∃ l', Tracks (t.Lookup va).2.2 (s.use (Page va)) l') ∧
      ((t.Lookup va).1 ≠ 0 ↔ (s.lookup (Page va)).isSome) ∧
      ∀ e, s.lookup (Page va) = some e → (t.Lookup va).2.1 = e.physicalPage + PageOffset va := by
  unfold Table.Lookup
  cases he : s.lookup (Page va) with
  | none =>
      rw [h.toLinked.findPage_eq_none fun i => h.absent he (Lru.findable_of_none he hfind) i]
      have huse : s.use (Page va) = s := by
        unfold Lru.use
        rw [he]
      rw [huse]
      exact ⟨⟨l, h⟩, by simp, fun e he' => by cases he'⟩
  | some e =>
      obtain ⟨hpage, as, bs, xs, i, ys, rfl, hplaced⟩ := h.placed he
      rw [hplaced.findPage h.toLinked hpage]
      refine ⟨⟨i :: (xs ++ ys), ?_⟩, ?_, ?_⟩
      · rw [← hpage]
        exact h.use hplaced (hpage ▸ he)
      · simp
      · intro e' he'
        cases he'
        dsimp only
        rw [hplaced.entry]

/-- **So does an entry that is added.** -/
theorem Tracks.add (h : Tracks t s l)
    (hfind : Page va ≠ 0 ∨ (s.lookup 0).isSome ∨ s.live.length = 50) (pa softsdvUid : UInt64)
    (artificial : Bool) :
    ∃ l', Tracks (t.add va pa softsdvUid artificial).2
      (s.add (Page va) (Page pa) softsdvUid artificial) l' := by
  have hu := h.withLast softsdvUid
  unfold Table.add
  dsimp only
  generalize { t with lastSoftsdvUid := softsdvUid } = u at hu ⊢
  cases he : s.lookup (Page va) with
  | none =>
      have hfree := Lru.findable_of_none he hfind
      have hmiss : u.Lookup va = (0, 0, u) := by
        unfold Table.Lookup
        rw [hu.toLinked.findPage_eq_none fun i => hu.absent he hfree i]
      obtain ⟨i, l', htail, hfill, htracks⟩ := hu.fill he hfree pa artificial rfl
      rw [hmiss]
      dsimp only
      rw [htail]
      dsimp only
      rw [hfill]
      exact ⟨l', htracks⟩
  | some e =>
      obtain ⟨hpage, as, bs, xs, i, ys, rfl, hplaced⟩ := hu.placed he
      have hmoved := hu.use hplaced (hpage ▸ he)
      have hhit : u.Lookup va
          = (xs.length + 1, e.physicalPage + PageOffset va, u.MoveEntryToHead i) := by
        unfold Table.Lookup
        rw [hplaced.findPage hu.toLinked hpage]
        dsimp only
        rw [hplaced.entry, Nat.add_comm]
      have hentry : ((u.MoveEntryToHead i).entry i).virtualPage = Page va := by
        rw [entry_MoveEntryToHead, Function.update_self, hplaced.entry]
        exact hpage
      have hkept :
          (u.MoveEntryToHead i).fillHead va pa artificial = (true, u.MoveEntryToHead i) := by
        have hhead : (u.MoveEntryToHead i).head = some i := hmoved.head
        unfold Table.fillHead
        rw [hhead]
        dsimp only
        rw [if_neg (not_not.mpr hentry)]
      rw [hhit, Lru.add_of_some he, ← hpage]
      dsimp only
      rw [hkept]
      refine ⟨i :: (xs ++ ys), ?_⟩
      split <;> exact hmoved

theorem find_page {fuel steps : Nat} {start : Option Slot} {n : Nat}
    (h : t.find page fuel steps start = some (i, n)) : (t.entry i).virtualPage = page := by
  induction fuel generalizing steps start with
  | zero => cases h
  | succ fuel ih =>
      cases start with
      | none => cases h
      | some j =>
          rw [Table.find] at h
          by_cases hj : (t.entry j).virtualPage = page
          · rw [if_pos hj] at h
            cases h
            exact hj
          · rw [if_neg hj] at h
            exact ih h

theorem Tracks.mem_live (h : Tracks t s l) (hi : t.entry i ≠ unused) : t.entry i ∈ s.live := by
  have hmem : t.entry i ∈ l.map t.entry := List.mem_map_of_mem (h.mem i)
  rw [h.entries] at hmem
  rcases List.mem_append.mp hmem with hlive | hfree
  · exact hlive
  · exact absurd (List.eq_of_mem_replicate hfree) hi

/-- **What is dropped is gone, and nothing else.** -/
theorem Tracks.dropTranslation (h : Tracks t s l) (va : UInt64) :
    ∃ l', Tracks (t.DropTranslation va) (s.drop (Page va)) l' := by
  unfold Table.DropTranslation
  cases he : s.lookup (Page va) with
  | none =>
      have hsame : s.drop (Page va) = s := by
        have hlive : s.live.filter (fun e => e.virtualPage ≠ Page va) = s.live :=
          List.filter_eq_self.mpr fun e hmem => by simpa using List.find?_eq_none.mp he e hmem
        unfold Lru.drop
        rw [hlive]
      rw [hsame]
      cases hfound : t.findPage va with
      | none => exact ⟨l, h⟩
      | some found =>
          obtain ⟨i, n⟩ := found
          have hpage : (t.entry i).virtualPage = Page va := find_page hfound
          -- only a slot that is free can have the page
          have hi : t.entry i = unused := by
            by_contra hne
            exact List.find?_eq_none.mp he _ (h.mem_live hne) (by simpa using hpage)
          have hzero : Page va = 0 := by
            rw [← hpage, hi]
            rfl
          have hlive : unused ∉ s.live := fun hmem =>
            List.find?_eq_none.mp he _ hmem (by rw [hzero]; rfl)
          obtain ⟨xs, ys, rfl⟩ := List.append_of_mem (h.mem i)
          exact ⟨_, h.dropFree hi hlive⟩
  | some e =>
      obtain ⟨hpage, as, bs, xs, i, ys, rfl, hplaced⟩ := h.placed he
      have hothers : s.drop (Page va) = { s with live := as ++ bs } := by
        unfold Lru.drop
        rw [← hpage, hplaced.live, filter_others hplaced.others]
      rw [hplaced.findPage h.toLinked hpage, hothers]
      exact ⟨_, h.drop hplaced⟩

/-! ### Dropping what is old -/

theorem Tracks.placedAt (h : Tracks t s (xs ++ i :: ys)) (hi : t.entry i ≠ unused) :
    ∃ as bs, Placed t s (t.entry i) as bs xs i ys := by
  have hentries := h.entries
  rw [List.map_append, List.map_cons] at hentries
  have hplaced : ∃ bs, s.live = xs.map t.entry ++ t.entry i :: bs ∧
      ys.map t.entry = bs ++ List.replicate (50 - s.live.length) unused := by
    rcases List.append_eq_append_iff.mp hentries with ⟨m, hm, hrest⟩ | ⟨m, -, hrest⟩
    · cases m with
      | nil =>
          rw [List.nil_append] at hrest
          have hmem : t.entry i ∈ List.replicate (50 - s.live.length) unused :=
            hrest ▸ List.mem_cons_self
          exact absurd (List.eq_of_mem_replicate hmem) hi
      | cons e m =>
          obtain ⟨rfl, hys⟩ := List.cons.inj hrest
          exact ⟨m, hm, hys⟩
    · have hmem : t.entry i ∈ List.replicate (50 - s.live.length) unused :=
        hrest ▸ List.mem_append_right m List.mem_cons_self
      exact absurd (List.eq_of_mem_replicate hmem) hi
  obtain ⟨bs, hlive, hbehind⟩ := hplaced
  refine ⟨xs.map t.entry, bs, hlive, ?_, rfl, rfl, hbehind⟩
  have hdistinct := h.distinct
  rw [hlive, List.map_append, List.map_cons] at hdistinct
  have hnot := (List.nodup_cons.mp (List.perm_middle.nodup_iff.mp hdistinct)).1
  rw [← List.map_append] at hnot
  intro e' he' heq
  exact hnot (heq ▸ List.mem_map_of_mem he')

/-- What is not old, after some of the slots. -/
structure Swept (softsdvUid : UInt64) (s : Lru) (done : List Slot) (t : Table) (s' : Lru)
    (l : List Slot) : Prop extends Tracks t s' l where
  same : s'.lastSoftsdvUid = s.lastSoftsdvUid
  left : (s'.live.filter fun e => !Table.isOld softsdvUid e)
    = s.live.filter fun e => !Table.isOld softsdvUid e
  young : ∀ i ∈ done, Table.isOld softsdvUid (t.entry i) = false

theorem Swept.step {softsdvUid : UInt64} {s' : Lru} {done : List Slot}
    (h : Swept softsdvUid s done t s' l) (i : Slot) :
    ∃ s'' l', Swept softsdvUid s (done ++ [i])
      (if Table.isOld softsdvUid (t.entry i) then t.DeleteEntry i else t) s'' l' := by
  by_cases hold : Table.isOld softsdvUid (t.entry i) = true
  · have hi : t.entry i ≠ unused := by
      intro heq
      rw [heq] at hold
      simp [Table.isOld, unused] at hold
    obtain ⟨xs, ys, rfl⟩ := List.append_of_mem (h.mem i)
    obtain ⟨as, bs, hplaced⟩ := h.placedAt hi
    rw [if_pos hold]
    refine ⟨{ s' with live := as ++ bs }, _, h.drop hplaced, h.same, ?_, ?_⟩
    · rw [← h.left, hplaced.live, List.filter_append, List.filter_append,
        List.filter_cons_of_neg (by simp [hold])]
    · intro j hj
      rw [entry_DeleteEntry]
      by_cases hji : j = i
      · subst hji
        rw [Function.update_self]
        simp [Table.isOld, unused]
      · rw [Function.update_of_ne hji]
        exact h.young j ((List.mem_append.mp hj).resolve_right fun hmem =>
          hji (List.mem_singleton.mp hmem))
  · rw [if_neg hold]
    refine ⟨s', l, h.toTracks, h.same, h.left, ?_⟩
    intro j hj
    rcases List.mem_append.mp hj with hdone | hlast
    · exact h.young j hdone
    · rw [List.mem_singleton.mp hlast]
      exact Bool.not_eq_true _ ▸ hold

theorem Swept.run {softsdvUid : UInt64} (todo : List Slot) {s' : Lru} {done : List Slot}
    (h : Swept softsdvUid s done t s' l) :
    ∃ s'' l', Swept softsdvUid s (done ++ todo)
      (todo.foldl (fun t i => if Table.isOld softsdvUid (t.entry i) then t.DeleteEntry i else t) t)
      s'' l' := by
  induction todo generalizing t s' done l with
  | nil => exact ⟨s', l, by rwa [List.append_nil]⟩
  | cons i todo ih =>
      obtain ⟨s'', l', hstep⟩ := h.step i
      obtain ⟨s₁, l₁, hrest⟩ := ih hstep
      rw [List.append_assoc, List.singleton_append] at hrest
      exact ⟨s₁, l₁, hrest⟩

/-- **The translations that are old are dropped, and no others.** -/
theorem Tracks.dropOld (h : Tracks t s l) (softsdvUid : UInt64) :
    ∃ l', Tracks (t.DropOldUserSpaceTranslations softsdvUid) (s.dropOld softsdvUid) l' := by
  have hstart : Swept softsdvUid s [] t s l := ⟨h, rfl, rfl, by simp⟩
  obtain ⟨s', l', hswept⟩ := hstart.run (List.finRange 50)
  refine ⟨l', ?_⟩
  have hyoung : (s'.live.filter fun e => !Table.isOld softsdvUid e) = s'.live := by
    refine List.filter_eq_self.mpr fun e he => ?_
    have hmem : e ∈ l'.map _ := hswept.entries ▸ List.mem_append_left _ he
    obtain ⟨i, -, rfl⟩ := List.mem_map.mp hmem
    rw [hswept.young i (by simp)]
    rfl
  have hs' : s' = s.dropOld softsdvUid := by
    unfold Lru.dropOld
    rw [← hswept.left, hyoung, ← hswept.same]
  rw [← hs']
  exact hswept.toTracks

/-! ### Runs -/

theorem tracks_init : Tracks .init ⟨[], 0⟩ (List.finRange 50) := by
  refine ⟨⟨List.nodup_finRange 50, List.length_finRange, ?_, ?_, ?_⟩, ?_, by simp, by simp, rfl⟩
  · decide +kernel
  · decide
  · decide
  · refine List.eq_replicate_of_mem fun e he => ?_
    obtain ⟨i, -, rfl⟩ := List.mem_map.mp he
    rfl

namespace Run

theorem findable_iff {r : Run} : r.findable va = true ↔
    Page va ≠ 0 ∨ (r.lru.lookup 0).isSome ∨ r.lru.live.length = 50 := by
  simp [findable, or_assoc]

/-- What holds all along a run. -/
def Ok (r : Run) : Prop := ∃ l, Tracks r.table r.lru l

theorem Ok.exec {r : Run} (h : r.Ok) (e : Event) (hok : careful r e = true) : (r.exec e).Ok := by
  obtain ⟨l, h⟩ := h
  cases e with
  | add va pa softsdvUid => exact h.add (findable_iff.mp hok) pa softsdvUid false
  | addArtificial va pa =>
      have hadded := h.add (findable_iff.mp hok) pa r.lru.lastSoftsdvUid true
      rw [← h.last] at hadded
      show ∃ l', Tracks (r.table.AddArtificialEntry va pa).2
        (r.lru.add (Page va) (Page pa) r.lru.lastSoftsdvUid true) l'
      rw [← h.last]
      exact hadded
  | lookup va => exact (h.lookup (findable_iff.mp hok)).1
  | drop va => exact h.dropTranslation va
  | dropOld softsdvUid =>
      obtain ⟨l', hdropped⟩ := h.dropOld softsdvUid
      refine ⟨l', ?_⟩
      rw [Run.exec]
      dsimp only
      exact hdropped

theorem Ok.correct {r : Run} (h : r.Ok) : r.Correct careful := by
  obtain ⟨l, h⟩ := h
  exact
    { linked := ⟨l, h.nodup, h.length, h.seg, h.head, h.tail, h.entries⟩
      bounded := h.bounded
      distinct := h.distinct
      found := fun va hok => (h.lookup (findable_iff.mp hok)).2.1
      translated := fun va e hok => (h.lookup (findable_iff.mp hok)).2.2 e }

/-- **As long as no free slot can be taken for a translation, the table keeps the 50
translations that were used last.** -/
theorem lru_of_careful {r : Run} (h : Reaches Start (Step careful) r) : r.Correct careful := by
  refine Ok.correct (h.invariant (fun r hr => ?_) fun r r' hr hstep => ?_)
  · obtain rfl := hr
    exact ⟨_, tracks_init⟩
  · obtain ⟨e, hok, rfl⟩ := hstep
    exact hr.exec e hok

theorem lru_of_careful_used :
    ((init.exec (.add 0x4000 0x8000 1)).exec (.lookup 0x4001)).Correct careful := by
  have hinit : Reaches Start (Step careful) init := .start rfl
  have hadded := hinit.step ⟨.add 0x4000 0x8000 1, by decide, rfl⟩
  exact lru_of_careful (hadded.step ⟨.lookup 0x4001, by decide +kernel, rfl⟩)

/-- **A table without any translation has one for page 0.** -/
theorem not_always_lru : ¬ ∀ r, Reaches Start (Step legal) r → r.Correct legal := by
  intro hall
  have hfound := (hall init (.start rfl)).found 0 rfl
  have hhit : (init.table.Lookup 0).1 ≠ 0 := by decide +kernel
  have hnone : (init.lru.lookup (Page 0)).isSome = false := rfl
  rw [hfound.mp hhit] at hnone
  cases hnone

end Run

end AsimFeeder.SoftSDV.Itranslate
