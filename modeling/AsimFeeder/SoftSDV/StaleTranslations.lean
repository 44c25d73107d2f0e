/-
What a context switch leaves of the table of translations.

Beside the table stands, for each slot, the last SoftSDV uid seen when the translation in it
was used last; nothing for a slot that holds none.  The translations that are live are those
of the slots with a last use, from the head of the table on.

A lookup of page 0 while a slot is free takes this slot for a translation, and makes it one.
So no call has to be left out here: what is live stands before what is free in any case.
-/
import AsimFeeder.SoftSDV.ItranslateRuns

namespace AsimFeeder.SoftSDV.Itranslate

open Lib

/-- Following `next`. -/
def follow (next : Slot → Option Slot) : Nat → Option Slot → List Slot
  | 0, _ => []
  | _ + 1, none => []
  | fuel + 1, some i => i :: follow next fuel (next i)

/-- The slots from the head on. -/
def Table.slots (t : Table) : List Slot := follow t.links.next 50 t.head

/-- A translation, and the last SoftSDV uid seen when it was used last. -/
structure Live where
  lastUse : UInt64
  virtualPage : UInt64
  physicalPage : UInt64
  deriving DecidableEq, Repr

/-- What the slots hold from the head on, a free one nothing but zeros. -/
def Table.contents (t : Table) : List Live :=
  t.slots.map fun i =>
    ⟨(t.entry i).softsdvUid, (t.entry i).virtualPage, (t.entry i).physicalPage⟩

/-- A user space translation whose last use was below the uid. -/
def Live.stale (softsdvUid : UInt64) (e : Live) : Bool :=
  e.lastUse < softsdvUid && e.virtualPage < userSpaceEnd

/-- The table, the last SoftSDV uid seen, and the last uses. -/
structure Uses where
  table : Table
  lastSeen : UInt64
  lastUse : Slot → Option UInt64

namespace Uses

variable (s : Uses)

def init : Uses := ⟨.init, 0, fun _ => none⟩

/-- What a call used is at the head now. -/
def usedHead (table : Table) (lastSeen : UInt64) : Slot → Option UInt64 :=
  match table.head with
  | some i => Function.update s.lastUse i (some lastSeen)
  | none => s.lastUse

/-- The slot of a translation that is dropped holds none. -/
def droppedPage (va : UInt64) : Slot → Option UInt64 :=
  match s.table.findPage va with
  | some (i, _) => Function.update s.lastUse i none
  | none => s.lastUse

/-- The slots that a call emptied hold none. -/
def emptied (table : Table) : Slot → Option UInt64 := fun i =>
  if table.entry i = unused ∧ s.table.entry i ≠ unused then none else s.lastUse i

def exec : Event → Uses
  | .add va pa softsdvUid =>
      let table := (s.table.AddEntry va pa softsdvUid).2
      ⟨table, softsdvUid, s.usedHead table softsdvUid⟩
  | .addArtificial va pa =>
      let table := (s.table.AddArtificialEntry va pa).2
      ⟨table, s.lastSeen, s.usedHead table s.lastSeen⟩
  | .lookup va =>
      let found := s.table.Lookup va
      ⟨found.2.2, s.lastSeen,
        if found.1 = 0 then s.lastUse else s.usedHead found.2.2 s.lastSeen⟩
  | .drop va => ⟨s.table.DropTranslation va, s.lastSeen, s.droppedPage va⟩
  | .dropOld softsdvUid =>
      let table := s.table.DropOldUserSpaceTranslations softsdvUid
      ⟨table, s.lastSeen, s.emptied table⟩

/-- The translation in a slot. -/
def entryAt (i : Slot) : Option Live :=
  (s.lastUse i).map fun lastUse =>
    ⟨lastUse, (s.table.entry i).virtualPage, (s.table.entry i).physicalPage⟩

/-- The translations, the one that was used last first. -/
def live : List Live := s.table.slots.filterMap s.entryAt

def Start (s : Uses) : Prop := s = init

def Step (s s' : Uses) : Prop := ∃ e, s' = s.exec e

/-- What is stale is dropped and nothing else, and the rest keeps its order and is found.  A
page that is dropped is not found, unless a free slot is taken for it. -/
structure SwitchesExactly (softsdvUid : UInt64) : Prop where
  left : (s.exec (.dropOld softsdvUid)).live = s.live.filter fun e => !e.stale softsdvUid
  table : ∃ nFree, (s.table.DropOldUserSpaceTranslations softsdvUid).contents
    = (s.live.filter fun e => !e.stale softsdvUid) ++ List.replicate nFree ⟨0, 0, 0⟩
  kept : ∀ e ∈ s.live, e.stale softsdvUid = false → ∀ va, Page va = e.virtualPage →
    ((s.table.DropOldUserSpaceTranslations softsdvUid).Lookup va).1 ≠ 0 ∧
      ((s.table.DropOldUserSpaceTranslations softsdvUid).Lookup va).2.1
        = e.physicalPage + PageOffset va
  gone : ∀ e ∈ s.live, e.stale softsdvUid = true → ∀ va, Page va = e.virtualPage →
    Page va ≠ 0 → ((s.table.DropOldUserSpaceTranslations softsdvUid).Lookup va).1 = 0

end Uses

/-! ### The slots in their order -/

variable {t : Table} {i : Slot} {l xs ys : List Slot} {va : UInt64}

theorem follow_eq {next : Slot → Option Slot} {fuel : Nat} {start : Option Slot}
    (h : Links.Chain next start l) (hfuel : l.length ≤ fuel) : follow next fuel start = l := by
  induction l generalizing fuel start with
  | nil =>
      obtain rfl : start = none := h
      cases fuel <;> rfl
  | cons i l ih =>
      obtain ⟨rfl, hrest⟩ := h
      cases fuel with
      | zero => simp at hfuel
      | succ fuel =>
          rw [follow, ih hrest (by simpa using hfuel)]

theorem Linked.slots (h : Linked t l) : t.slots = l := by
  unfold Table.slots
  rw [h.head]
  exact follow_eq h.seg.chain h.length.le

/-- Slots that are live, and then slots that are free. -/
structure Sorted (s : Uses) (xs ys : List Slot) : Prop where
  linked : Linked s.table (xs ++ ys)
  seen : s.table.lastSoftsdvUid = s.lastSeen
  used : ∀ i ∈ xs, s.lastUse i = some (s.table.entry i).softsdvUid
  free : ∀ i ∈ ys, s.lastUse i = none ∧ s.table.entry i = unused
  distinct : (xs.map fun i => (s.table.entry i).virtualPage).Nodup

namespace Sorted

variable {s : Uses}

theorem live_eq (h : Sorted s xs ys) : s.live = xs.filterMap s.entryAt := by
  have hfree : ys.filterMap s.entryAt = [] := by
    refine List.filterMap_eq_nil_iff.mpr fun i hi => ?_
    rw [Uses.entryAt, (h.free i hi).1]
    rfl
  rw [Uses.live, h.linked.slots, List.filterMap_append, hfree, List.append_nil]

theorem entryAt_eq (h : Sorted s xs ys) (hi : i ∈ xs) :
    s.entryAt i = some ⟨(s.table.entry i).softsdvUid, (s.table.entry i).virtualPage,
      (s.table.entry i).physicalPage⟩ := by
  rw [Uses.entryAt, h.used i hi]
  rfl

/-- The table holds what is live, and zeros behind it. -/
theorem contents_eq (h : Sorted s xs ys) :
    s.table.contents = s.live ++ List.replicate ys.length ⟨0, 0, 0⟩ := by
  have hfree : ∀ i ∈ ys, Live.mk (s.table.entry i).softsdvUid (s.table.entry i).virtualPage
      (s.table.entry i).physicalPage = ⟨0, 0, 0⟩ := by
    intro i hi
    rw [(h.free i hi).2]
    rfl
  rw [h.live_eq, Table.contents, h.linked.slots, List.map_append, List.map_congr_left hfree,
    List.map_const', List.filterMap_congr fun i hi => h.entryAt_eq hi, List.filterMap_eq_map']

/-! ### A slot that is used, and one that is dropped -/

variable {u : Table} {e : Translation} {xs' ys' : List Slot}

/-- The slot comes to the front, with what it holds now. -/
theorem front (h : Sorted s xs ys) (hlinked : Linked u (i :: (xs' ++ ys')))
    (hlast : u.lastSoftsdvUid = s.lastSeen) (hentry : u.entry = Function.update s.table.entry i e)
    (he : e.softsdvUid = s.lastSeen) (hxs : xs'.Sublist xs) (hys : ys'.Sublist ys)
    (hpage : ∀ j ∈ xs', (s.table.entry j).virtualPage ≠ e.virtualPage) :
    Sorted ⟨u, s.lastSeen, s.usedHead u s.lastSeen⟩ (i :: xs') ys' := by
  have hnot := (List.nodup_cons.mp hlinked.nodup).1
  have hxsNe : ∀ j ∈ xs', j ≠ i := by
    rintro j hj rfl
    exact hnot (List.mem_append_left _ hj)
  have hysNe : ∀ j ∈ ys', j ≠ i := by
    rintro j hj rfl
    exact hnot (List.mem_append_right _ hj)
  have huse : s.usedHead u s.lastSeen = Function.update s.lastUse i (some s.lastSeen) := by
    unfold Uses.usedHead
    rw [hlinked.head]
    rfl
  refine ⟨hlinked, hlast, ?_, ?_, ?_⟩
  · intro j hj
    dsimp only
    rw [huse, hentry]
    rcases List.mem_cons.mp hj with rfl | hj
    · rw [Function.update_self, Function.update_self, he]
    · rw [Function.update_of_ne (hxsNe j hj), Function.update_of_ne (hxsNe j hj)]
      exact h.used j (hxs.subset hj)
  · intro j hj
    dsimp only
    rw [huse, hentry, Function.update_of_ne (hysNe j hj), Function.update_of_ne (hysNe j hj)]
    exact h.free j (hys.subset hj)
  · dsimp only
    rw [hentry, List.map_cons, Function.update_self]
    have hsame : xs'.map (fun j => (Function.update s.table.entry i e j).virtualPage)
        = xs'.map fun j => (s.table.entry j).virtualPage :=
      List.map_congr_left fun j hj => by rw [Function.update_of_ne (hxsNe j hj)]
    rw [hsame]
    refine List.nodup_cons.mpr ⟨fun hmem => ?_, h.distinct.sublist (hxs.map _)⟩
    obtain ⟨j, hj, heq⟩ := List.mem_map.mp hmem
    exact hpage j hj heq

/-- The slot is emptied and goes to the end. -/
theorem back (h : Sorted s xs ys) (hlinked : Linked u (xs' ++ ys' ++ [i]))
    (hlast : u.lastSoftsdvUid = s.lastSeen)
    (hentry : u.entry = Function.update s.table.entry i unused) (hxs : xs'.Sublist xs)
    (hys : ys'.Sublist ys) :
    Sorted ⟨u, s.lastSeen, Function.update s.lastUse i none⟩ xs' (ys' ++ [i]) := by
  have hnot : ∀ j ∈ xs' ++ ys', j ≠ i := fun j hj hji =>
    (List.nodup_append.mp hlinked.nodup).2.2 j hj i List.mem_cons_self hji
  have hxsNe : ∀ j ∈ xs', j ≠ i := fun j hj => hnot j (List.mem_append_left _ hj)
  have hysNe : ∀ j ∈ ys', j ≠ i := fun j hj => hnot j (List.mem_append_right _ hj)
  refine ⟨by rwa [← List.append_assoc], hlast, ?_, ?_, ?_⟩
  · intro j hj
    dsimp only
    rw [hentry, Function.update_of_ne (hxsNe j hj), Function.update_of_ne (hxsNe j hj)]
    exact h.used j (hxs.subset hj)
  · intro j hj
    dsimp only
    rw [hentry]
    rcases List.mem_append.mp hj with hj | hj
    · rw [Function.update_of_ne (hysNe j hj), Function.update_of_ne (hysNe j hj)]
      exact h.free j (hys.subset hj)
    · rw [List.mem_singleton.mp hj, Function.update_self, Function.update_self]
      exact ⟨rfl, rfl⟩
  · dsimp only
    rw [hentry]
    have hsame : xs'.map (fun j => (Function.update s.table.entry i unused j).virtualPage)
        = xs'.map fun j => (s.table.entry j).virtualPage :=
      List.map_congr_left fun j hj => by rw [Function.update_of_ne (hxsNe j hj)]
    rw [hsame]
    exact h.distinct.sublist (hxs.map _)

theorem entry_front (t : Table) (i : Slot) (e : Translation) :
    ((t.MoveEntryToHead i).setEntry i e).entry = Function.update t.entry i e := by
  unfold Table.setEntry
  dsimp only
  rw [entry_MoveEntryToHead, Function.update_idem]

/-- A use of a slot: its translation is now `e`, whose page no other slot has. -/
theorem use (h : Sorted s xs ys) (he : e.softsdvUid = s.lastSeen)
    (hpage : ∀ j ∈ xs, j ≠ i → (s.table.entry j).virtualPage ≠ e.virtualPage) :
    (∃ xs' ys', Sorted ⟨(s.table.MoveEntryToHead i).setEntry i e, s.lastSeen,
        s.usedHead ((s.table.MoveEntryToHead i).setEntry i e) s.lastSeen⟩ xs' ys') ∧
      (s.table.MoveEntryToHead i).head = some i := by
  have hlast : ((s.table.MoveEntryToHead i).setEntry i e).lastSoftsdvUid = s.lastSeen :=
    (last_MoveEntryToHead _ _).trans h.seen
  have hentry := entry_front s.table i e
  rcases List.mem_append.mp (h.linked.mem i) with hi | hi
  · obtain ⟨as, bs, rfl⟩ := List.append_of_mem hi
    have hlinked := h.linked
    rw [List.append_assoc, List.cons_append] at hlinked
    have hmoved := hlinked.move
    rw [← List.append_assoc] at hmoved
    have hnot := (List.nodup_cons.mp hmoved.nodup).1
    refine ⟨⟨i :: (as ++ bs), ys, h.front (hmoved.setEntry i e) hlast hentry he ?_
      (List.Sublist.refl _) ?_⟩, hmoved.head⟩
    · exact List.Sublist.append_left (List.sublist_cons_self i bs) as
    · intro j hj
      refine hpage j ?_ fun hji => hnot (List.mem_append_left _ (hji ▸ hj))
      exact (List.Sublist.append_left (List.sublist_cons_self i bs) as).subset hj
  · obtain ⟨as, bs, rfl⟩ := List.append_of_mem hi
    have hlinked := h.linked
    rw [← List.append_assoc] at hlinked
    have hmoved := hlinked.move
    rw [List.append_assoc] at hmoved
    have hnot := (List.nodup_cons.mp hmoved.nodup).1
    refine ⟨⟨i :: xs, as ++ bs, h.front (hmoved.setEntry i e) hlast hentry he
      (List.Sublist.refl _) ?_ ?_⟩, hmoved.head⟩
    · exact List.Sublist.append_left (List.sublist_cons_self i bs) as
    · exact fun j hj => hpage j hj fun hji => hnot (List.mem_append_left _ (hji ▸ hj))

/-- A translation is dropped: the others keep their order. -/
theorem dropUsed {as bs : List Slot} (h : Sorted s (as ++ i :: bs) ys) :
    Sorted ⟨s.table.DeleteEntry i, s.lastSeen, Function.update s.lastUse i none⟩
      (as ++ bs) (ys ++ [i]) := by
  have hlinked := h.linked
  rw [List.append_assoc, List.cons_append] at hlinked
  have hdeleted := hlinked.delete
  rw [← List.append_assoc as bs ys] at hdeleted
  exact h.back hdeleted ((last_DeleteEntry _ _).trans h.seen) (entry_DeleteEntry s.table i)
    (List.Sublist.append_left (List.sublist_cons_self i bs) as) (List.Sublist.refl _)

theorem dropFree {as bs : List Slot} (h : Sorted s xs (as ++ i :: bs)) :
    Sorted ⟨s.table.DeleteEntry i, s.lastSeen, Function.update s.lastUse i none⟩
      xs (as ++ bs ++ [i]) := by
  have hlinked := h.linked
  rw [← List.append_assoc] at hlinked
  have hdeleted := hlinked.delete
  rw [List.append_assoc xs as bs] at hdeleted
  exact h.back hdeleted ((last_DeleteEntry _ _).trans h.seen) (entry_DeleteEntry s.table i)
    (List.Sublist.refl _) (List.Sublist.append_left (List.sublist_cons_self i bs) as)

/-! ### Looking for a page -/

/-- Either no slot has the page, or the first slot that has it is found, and no other slot
that is live has it. -/
theorem findPage (h : Sorted s xs ys) (va : UInt64) :
    (s.table.findPage va = none ∧ ∀ i, (s.table.entry i).virtualPage ≠ Page va) ∨
      ∃ i n, s.table.findPage va = some (i, n + 1) ∧ (s.table.entry i).virtualPage = Page va ∧
        ∀ j ∈ xs, j ≠ i → (s.table.entry j).virtualPage ≠ Page va := by
  cases hfind : (xs ++ ys).find? fun i => (s.table.entry i).virtualPage = Page va with
  | none =>
      have hnone : ∀ i, (s.table.entry i).virtualPage ≠ Page va := fun i => by
        simpa using List.find?_eq_none.mp hfind i (h.linked.mem i)
      exact .inl ⟨h.linked.findPage_eq_none hnone, hnone⟩
  | some i =>
      obtain ⟨hi, as, bs, heq, hbefore⟩ := List.find?_eq_some_iff_append.mp hfind
      have hi : (s.table.entry i).virtualPage = Page va := by simpa using hi
      have hbefore : ∀ j ∈ as, (s.table.entry j).virtualPage ≠ Page va := by simpa using hbefore
      have hlinked := h.linked
      rw [heq] at hlinked
      refine .inr ⟨i, as.length, ?_, hi, ?_⟩
      · rw [hlinked.findPage_eq_some hbefore hi, Nat.add_comm]
      · intro j hj hji hpage
        by_cases hmem : i ∈ xs
        · exact hji (List.inj_on_of_nodup_map h.distinct hj hmem (hpage.trans hi.symm))
        · -- then all that is live stands before the slot
          rcases List.append_eq_append_iff.mp heq with ⟨m, rfl, -⟩ | ⟨m, hxs, hrest⟩
          · exact hbefore j (List.mem_append_left _ hj) hpage
          · cases m with
            | nil =>
                rw [List.append_nil] at hxs
                exact hbefore j (hxs ▸ hj) hpage
            | cons k m =>
                obtain ⟨rfl, -⟩ := List.cons.inj hrest
                exact hmem (hxs ▸ List.mem_append_right _ List.mem_cons_self)

/-- A translation that is live is found. -/
theorem lookup_of_mem (h : Sorted s xs ys) {e : Live} (he : e ∈ s.live)
    (hpage : Page va = e.virtualPage) :
    (s.table.Lookup va).1 ≠ 0 ∧ (s.table.Lookup va).2.1 = e.physicalPage + PageOffset va := by
  rw [h.live_eq] at he
  obtain ⟨j, hj, hje⟩ := List.mem_filterMap.mp he
  rw [h.entryAt_eq hj] at hje
  obtain rfl := Option.some.inj hje
  rcases h.findPage va with ⟨-, hnone⟩ | ⟨i, n, hfound, -, hothers⟩
  · exact absurd hpage.symm (hnone j)
  · have hji : j = i := by
      by_contra hne
      exact hothers j hj hne hpage.symm
    unfold Table.Lookup
    rw [hfound]
    exact ⟨Nat.succ_ne_zero n, by rw [hji]⟩

/-- A page of which there is no translation is not found, unless it is page 0. -/
theorem lookup_of_not_mem (h : Sorted s xs ys) (hnone : ∀ e ∈ s.live, e.virtualPage ≠ Page va)
    (hzero : Page va ≠ 0) : (s.table.Lookup va).1 = 0 := by
  have hslots : ∀ i, (s.table.entry i).virtualPage ≠ Page va := by
    intro i hi
    rcases List.mem_append.mp (h.linked.mem i) with hmem | hmem
    · refine hnone ⟨(s.table.entry i).softsdvUid, (s.table.entry i).virtualPage,
        (s.table.entry i).physicalPage⟩ ?_ hi
      rw [h.live_eq]
      exact List.mem_filterMap.mpr ⟨i, hmem, h.entryAt_eq hmem⟩
    · rw [(h.free i hmem).2] at hi
      exact hzero hi.symm
  unfold Table.Lookup
  rw [h.linked.findPage_eq_none hslots]

/-! ### The calls -/

theorem setEntry_self (t : Table) (i : Slot) : t.setEntry i (t.entry i) = t := by
  unfold Table.setEntry
  rw [Function.update_eq_self]

/-- A use that leaves the translation as it is. -/
theorem touch (h : Sorted s xs ys) (hi : (s.table.entry i).virtualPage = Page va)
    (hothers : ∀ j ∈ xs, j ≠ i → (s.table.entry j).virtualPage ≠ Page va) :
    (∃ xs' ys', Sorted ⟨s.table.MoveEntryToHead i, s.lastSeen,
        s.usedHead (s.table.MoveEntryToHead i) s.lastSeen⟩ xs' ys') ∧
      (s.table.MoveEntryToHead i).head = some i := by
  have hused := h.use (e := { s.table.entry i with softsdvUid := s.lastSeen }) (i := i) rfl
    (by rwa [hi])
  have hentry : (s.table.MoveEntryToHead i).entry i
      = { s.table.entry i with softsdvUid := s.lastSeen } := by
    rw [entry_MoveEntryToHead, Function.update_self, h.seen]
  rwa [← hentry, setEntry_self] at hused

theorem lookup (h : Sorted s xs ys) (va : UInt64) :
    ∃ xs' ys', Sorted (s.exec (.lookup va)) xs' ys' := by
  unfold Uses.exec
  dsimp only
  rcases h.findPage va with ⟨hmiss, -⟩ | ⟨i, n, hfound, hi, hothers⟩
  · have hlookup : s.table.Lookup va = (0, 0, s.table) := by
      unfold Table.Lookup
      rw [hmiss]
    rw [hlookup]
    exact ⟨xs, ys, h⟩
  · have hlookup : s.table.Lookup va = (n + 1, (s.table.entry i).physicalPage + PageOffset va,
        s.table.MoveEntryToHead i) := by
      unfold Table.Lookup
      rw [hfound]
    rw [hlookup]
    exact (h.touch hi hothers).1

theorem withLast (h : Sorted s xs ys) (softsdvUid : UInt64) :
    Sorted ⟨{ s.table with lastSoftsdvUid := softsdvUid }, softsdvUid, s.lastUse⟩ xs ys :=
  ⟨⟨h.linked.nodup, h.linked.length, h.linked.seg, h.linked.head, h.linked.tail⟩, rfl, h.used,
    h.free, h.distinct⟩

/-- The second form of `AddEntry` is the first with the last uid. -/
theorem add (h : Sorted s xs ys) (va pa softsdvUid : UInt64) (artificial : Bool) :
    ∃ xs' ys', Sorted ⟨(s.table.add va pa softsdvUid artificial).2, softsdvUid,
      s.usedHead (s.table.add va pa softsdvUid artificial).2 softsdvUid⟩ xs' ys' := by
  have hu := h.withLast softsdvUid
  unfold Table.add
  dsimp only
  generalize { s.table with lastSoftsdvUid := softsdvUid } = u at hu ⊢
  rcases hu.findPage va with ⟨hmiss, hnone⟩ | ⟨i, n, hfound, hi, hothers⟩
  · -- the page takes the last slot
    have hlookup : u.Lookup va = (0, 0, u) := by
      unfold Table.Lookup
      rw [hmiss]
    obtain ⟨i, htail⟩ : ∃ i, u.tail = some i := by
      rw [hu.linked.tail]
      cases hlast : (xs ++ ys).getLast? with
      | some i => exact ⟨i, rfl⟩
      | none =>
          have hlength := hu.linked.length
          rw [List.getLast?_eq_none_iff.mp hlast] at hlength
          cases hlength
    have hused := hu.use (e := ⟨softsdvUid, Page va, Page pa, artificial⟩) (i := i) rfl
      fun j _ _ => hnone j
    have hentry : (u.MoveEntryToHead i).entry i
        = { u.entry i with softsdvUid := u.lastSoftsdvUid } := by
      rw [entry_MoveEntryToHead, Function.update_self]
    have hfill : (u.MoveEntryToHead i).fillHead va pa artificial = (false,
        (u.MoveEntryToHead i).setEntry i ⟨softsdvUid, Page va, Page pa, artificial⟩) := by
      unfold Table.fillHead
      rw [hused.2]
      dsimp only
      rw [hentry, if_pos (hnone i), hu.seen]
    rw [hlookup]
    dsimp only
    rw [htail]
    dsimp only
    rw [hfill]
    exact hused.1
  · have hlookup : u.Lookup va = (n + 1, (u.entry i).physicalPage + PageOffset va,
        u.MoveEntryToHead i) := by
      unfold Table.Lookup
      rw [hfound]
    have htouched := hu.touch hi hothers
    have hentry : ((u.MoveEntryToHead i).entry i).virtualPage = Page va := by
      rw [entry_MoveEntryToHead, Function.update_self]
      exact hi
    have hkept : (u.MoveEntryToHead i).fillHead va pa artificial
        = (true, u.MoveEntryToHead i) := by
      unfold Table.fillHead
      rw [htouched.2]
      dsimp only
      rw [if_neg (not_not.mpr hentry)]
    rw [hlookup]
    dsimp only
    rw [hkept, ite_self]
    exact htouched.1

theorem dropTranslation (h : Sorted s xs ys) (va : UInt64) :
    ∃ xs' ys', Sorted (s.exec (.drop va)) xs' ys' := by
  unfold Uses.exec Uses.droppedPage Table.DropTranslation
  dsimp only
  cases hfound : s.table.findPage va with
  | none => exact ⟨xs, ys, h⟩
  | some found =>
      obtain ⟨i, n⟩ := found
      dsimp only
      rcases List.mem_append.mp (h.linked.mem i) with hi | hi
      · obtain ⟨as, bs, rfl⟩ := List.append_of_mem hi
        exact ⟨_, _, h.dropUsed⟩
      · obtain ⟨as, bs, rfl⟩ := List.append_of_mem hi
        exact ⟨_, _, h.dropFree⟩

end Sorted

/-! ### Dropping what is old -/

/-- One round of the loop. -/
def Uses.sweep (softsdvUid : UInt64) (s : Uses) (i : Slot) : Uses :=
  if Table.isOld softsdvUid (s.table.entry i) then
    ⟨s.table.DeleteEntry i, s.lastSeen, Function.update s.lastUse i none⟩
  else s

/-- What the loop takes for old. -/
def Live.isOld (softsdvUid : UInt64) (e : Live) : Bool := e.lastUse ≠ 0 && e.stale softsdvUid

variable {s s' : Uses} {softsdvUid : UInt64}

theorem isOld_unused : Table.isOld softsdvUid unused = false := by
  simp [Table.isOld, unused]

theorem foldl_sweep (todo : List Slot) (s : Uses) :
    todo.foldl (Uses.sweep softsdvUid) s =
      ⟨todo.foldl
          (fun t i => if Table.isOld softsdvUid (t.entry i) then t.DeleteEntry i else t) s.table,
        s.lastSeen,
        fun j => if j ∈ todo ∧ Table.isOld softsdvUid (s.table.entry j) then none
          else s.lastUse j⟩ := by
  induction todo generalizing s with
  | nil => simp
  | cons i todo ih =>
      rw [List.foldl_cons, ih, List.foldl_cons]
      unfold Uses.sweep
      by_cases hold : Table.isOld softsdvUid (s.table.entry i) = true
      · rw [if_pos hold, if_pos hold]
        dsimp only
        congr 1
        funext j
        rw [entry_DeleteEntry]
        by_cases hji : j = i
        · subst hji
          simp [hold, isOld_unused]
        · simp [hji]
      · rw [if_neg hold, if_neg hold]
        congr 1
        funext j
        by_cases hji : j = i
        · subst hji
          simp [hold]
        · simp [hji]

theorem entry_foldl_delete (todo : List Slot) (t : Table) (j : Slot) :
    (todo.foldl (fun t i => if Table.isOld softsdvUid (t.entry i) then t.DeleteEntry i else t)
      t).entry j
      = if j ∈ todo ∧ Table.isOld softsdvUid (t.entry j) = true then unused else t.entry j := by
  induction todo generalizing t with
  | nil => simp
  | cons i todo ih =>
      rw [List.foldl_cons, ih]
      by_cases hold : Table.isOld softsdvUid (t.entry i) = true
      · rw [if_pos hold, entry_DeleteEntry]
        by_cases hji : j = i
        · subst hji
          simp [hold, isOld_unused]
        · simp [hji]
      · rw [if_neg hold]
        by_cases hji : j = i
        · subst hji
          simp [hold]
        · simp [hji]

/-- The slots that the loop empties are those that it takes for old. -/
theorem emptied_eq (s : Uses) (softsdvUid : UInt64) :
    s.emptied (s.table.DropOldUserSpaceTranslations softsdvUid)
      = fun i => if Table.isOld softsdvUid (s.table.entry i) then none else s.lastUse i := by
  funext i
  have hentry : (s.table.DropOldUserSpaceTranslations softsdvUid).entry i
      = if Table.isOld softsdvUid (s.table.entry i) = true then unused else s.table.entry i := by
    rw [Table.DropOldUserSpaceTranslations, entry_foldl_delete]
    simp only [List.mem_finRange, true_and]
  unfold Uses.emptied
  rw [hentry]
  by_cases hold : Table.isOld softsdvUid (s.table.entry i) = true
  · have hused : s.table.entry i ≠ unused := by
      intro hfree
      rw [hfree, isOld_unused] at hold
      cases hold
    rw [if_pos hold, if_pos ⟨rfl, hused⟩, if_pos hold]
  · rw [if_neg hold, if_neg fun h => h.2 h.1, if_neg hold]

theorem exec_dropOld (s : Uses) (softsdvUid : UInt64) :
    s.exec (.dropOld softsdvUid) = (List.finRange 50).foldl (Uses.sweep softsdvUid) s := by
  rw [foldl_sweep, Uses.exec, emptied_eq]
  simp only [List.mem_finRange, true_and]
  rfl

theorem Sorted.isOld_eq {xs ys : List Slot} (h : Sorted s xs ys) (softsdvUid : UInt64) {i : Slot}
    (hi : i ∈ xs) {e : Live} (he : s.entryAt i = some e) :
    e.isOld softsdvUid = Table.isOld softsdvUid (s.table.entry i) := by
  rw [h.entryAt_eq hi] at he
  obtain rfl := Option.some.inj he
  unfold Live.isOld Live.stale Table.isOld
  rw [Bool.and_assoc]

/-- After some of the rounds. -/
structure SweptTo (softsdvUid : UInt64) (s₀ : Uses) (done : List Slot) (s : Uses) : Prop where
  sorted : ∃ xs ys, Sorted s xs ys
  left : (s.live.filter fun e => !e.isOld softsdvUid)
    = s₀.live.filter fun e => !e.isOld softsdvUid
  young : ∀ i ∈ done, Table.isOld softsdvUid (s.table.entry i) = false

theorem SweptTo.step {s₀ : Uses} {done : List Slot} (h : SweptTo softsdvUid s₀ done s) (i : Slot) :
    SweptTo softsdvUid s₀ (done ++ [i]) (s.sweep softsdvUid i) := by
  obtain ⟨xs, ys, hs⟩ := h.sorted
  unfold Uses.sweep
  by_cases hold : Table.isOld softsdvUid (s.table.entry i) = true
  · rw [if_pos hold]
    have hi : i ∈ xs := by
      refine (List.mem_append.mp (hs.linked.mem i)).resolve_right fun hfree => ?_
      rw [(hs.free i hfree).2, isOld_unused] at hold
      cases hold
    obtain ⟨as, bs, rfl⟩ := List.append_of_mem hi
    have hdropped := hs.dropUsed
    refine ⟨⟨_, _, hdropped⟩, ?_, ?_⟩
    · rw [← h.left, hs.live_eq, hdropped.live_eq]
      have hnot : ∀ j ∈ as ++ bs, j ≠ i := fun j hj hji => by
        have hnodup := (List.perm_middle.nodup_iff.mp (List.nodup_append.mp hs.linked.nodup).1)
        exact (List.nodup_cons.mp hnodup).1 (hji ▸ hj)
      have hsame : (as ++ bs).filterMap (Uses.entryAt ⟨s.table.DeleteEntry i, s.lastSeen,
          Function.update s.lastUse i none⟩) = (as ++ bs).filterMap s.entryAt := by
        refine List.filterMap_congr fun j hj => ?_
        unfold Uses.entryAt
        dsimp only
        rw [entry_DeleteEntry, Function.update_of_ne (hnot j hj),
          Function.update_of_ne (hnot j hj)]
      have hi' := hs.entryAt_eq hi
      have hgone := hs.isOld_eq softsdvUid hi hi'
      rw [hsame, List.filterMap_append, List.filterMap_append, List.filterMap_cons_some hi',
        List.filter_append, List.filter_append, List.filter_cons_of_neg (by simp [hgone, hold])]
    · intro j hj
      dsimp only
      rw [entry_DeleteEntry]
      by_cases hji : j = i
      · rw [hji, Function.update_self, isOld_unused]
      · rw [Function.update_of_ne hji]
        exact h.young j ((List.mem_append.mp hj).resolve_right fun hmem =>
          hji (List.mem_singleton.mp hmem))
  · rw [if_neg hold]
    refine ⟨h.sorted, h.left, fun j hj => ?_⟩
    rcases List.mem_append.mp hj with hj | hj
    · exact h.young j hj
    · rw [List.mem_singleton.mp hj]
      exact Bool.not_eq_true _ ▸ hold

theorem SweptTo.run {s₀ : Uses} (todo : List Slot) {done : List Slot} {s : Uses}
    (h : SweptTo softsdvUid s₀ done s) :
    SweptTo softsdvUid s₀ (done ++ todo) (todo.foldl (Uses.sweep softsdvUid) s) := by
  induction todo generalizing done s with
  | nil => rwa [List.append_nil]
  | cons i todo ih =>
      have hrest := ih (h.step i)
      rwa [List.append_assoc, List.singleton_append] at hrest

/-- What is left is what the loop does not take for old. -/
theorem Sorted.dropOld {xs ys : List Slot} (h : Sorted s xs ys) (softsdvUid : UInt64) :
    (∃ xs' ys', Sorted (s.exec (.dropOld softsdvUid)) xs' ys') ∧
      (s.exec (.dropOld softsdvUid)).live = s.live.filter fun e => !e.isOld softsdvUid := by
  have hstart : SweptTo softsdvUid s [] s := ⟨⟨xs, ys, h⟩, rfl, by simp⟩
  have hswept := hstart.run (List.finRange 50)
  rw [← exec_dropOld] at hswept
  refine ⟨hswept.sorted, ?_⟩
  rw [← hswept.left]
  refine (List.filter_eq_self.mpr fun e he => ?_).symm
  obtain ⟨xs', ys', hsorted⟩ := hswept.sorted
  rw [hsorted.live_eq] at he
  obtain ⟨i, hi, hie⟩ := List.mem_filterMap.mp he
  rw [hsorted.isOld_eq softsdvUid hi hie, hswept.young i (by simp)]
  rfl

/-! ### Runs -/

theorem Sorted.exec {xs ys : List Slot} (h : Sorted s xs ys) (e : Event) :
    ∃ xs' ys', Sorted (s.exec e) xs' ys' := by
  cases e with
  | add va pa softsdvUid => exact h.add va pa softsdvUid false
  | addArtificial va pa =>
      have hadded := h.add va pa s.lastSeen true
      unfold Uses.exec Table.AddArtificialEntry
      rw [h.seen]
      exact hadded
  | lookup va => exact h.lookup va
  | drop va => exact h.dropTranslation va
  | dropOld softsdvUid => exact (h.dropOld softsdvUid).1

theorem sorted_init : Sorted .init [] (List.finRange 50) :=
  ⟨tracks_init.toLinked, rfl, by simp, fun _ _ => ⟨rfl, rfl⟩, List.nodup_nil⟩

/-- There is one translation of a page. -/
theorem Sorted.eq_of_page {xs ys : List Slot} (h : Sorted s xs ys) {e e' : Live} (he : e ∈ s.live)
    (he' : e' ∈ s.live) (hpage : e.virtualPage = e'.virtualPage) : e = e' := by
  rw [h.live_eq] at he he'
  obtain ⟨i, hi, hie⟩ := List.mem_filterMap.mp he
  obtain ⟨j, hj, hje⟩ := List.mem_filterMap.mp he'
  have hi' := h.entryAt_eq hi
  have hj' := h.entryAt_eq hj
  have hij : i = j := by
    refine List.inj_on_of_nodup_map h.distinct hi hj ?_
    rw [hie] at hi'
    rw [hje] at hj'
    rw [Option.some.inj hi', Option.some.inj hj'] at hpage
    exact hpage
  exact Option.some.inj (hie.symm.trans (hij ▸ hje))

/-- The loop takes for old just what is stale, unless it was used last at uid 0. -/
theorem isOld_iff_stale {live : List Live} :
    (∀ e ∈ live, e.isOld softsdvUid = e.stale softsdvUid) ↔
      softsdvUid = 0 ∨ ∀ e ∈ live, e.lastUse = 0 → userSpaceEnd ≤ e.virtualPage := by
  constructor
  · intro hsame
    by_contra hnot
    obtain ⟨huid, hsome⟩ := not_or.mp hnot
    push Not at hsome
    obtain ⟨e, he, hzero, huser⟩ := hsome
    have hstale : e.stale softsdvUid = true := by
      have hpos : 0 < softsdvUid := UInt64.pos_iff_ne_zero.mpr huid
      simp [Live.stale, hzero, hpos, UInt64.not_le.mp huser]
    have heq := hsame e he
    rw [Live.isOld, hstale, hzero] at heq
    simp at heq
  · rintro (rfl | hkernel) e he
    · simp [Live.isOld, Live.stale]
    · unfold Live.isOld
      by_cases hzero : e.lastUse = 0
      · have huser : ¬ e.virtualPage < userSpaceEnd := UInt64.not_lt.mpr (hkernel e he hzero)
        simp [hzero, Live.stale, huser]
      · simp [hzero]

namespace Uses

/-- **A context switch drops just what is stale if and only if no user space translation was
used last while the last uid seen was 0.** -/
theorem switchesExactly_iff (s : Uses) (h : Reaches Start Step s) (softsdvUid : UInt64) :
    s.SwitchesExactly softsdvUid ↔
      softsdvUid = 0 ∨ ∀ e ∈ s.live, e.lastUse = 0 → userSpaceEnd ≤ e.virtualPage := by
  obtain ⟨xs, ys, hs⟩ : ∃ xs ys, Sorted s xs ys := by
    refine h.invariant (P := fun s => ∃ xs ys, Sorted s xs ys) (fun s hs => ?_)
      fun s s' hs hst => ?_
    · obtain rfl := hs
      exact ⟨_, _, sorted_init⟩
    · obtain ⟨e, rfl⟩ := hst
      obtain ⟨xs, ys, hs⟩ := hs
      exact hs.exec e
  obtain ⟨⟨xs', ys', hdropped⟩, hleft⟩ := hs.dropOld softsdvUid
  rw [← isOld_iff_stale]
  constructor
  · intro hexact e he
    by_contra hne
    have hstale : e.stale softsdvUid = true := by
      by_contra hnot
      simp [Live.isOld, hnot] at hne
    have hyoung : e.isOld softsdvUid = false := by
      by_contra hnot
      rw [hstale] at hne
      exact hne (by simpa using hnot)
    have hmem : e ∈ s.live.filter fun e => !e.isOld softsdvUid :=
      List.mem_filter.mpr ⟨he, by simp [hyoung]⟩
    rw [← hleft, hexact.left] at hmem
    have hfresh := (List.mem_filter.mp hmem).2
    rw [hstale] at hfresh
    cases hfresh
  · intro hsame
    have hstales : (s.live.filter fun e => !e.isOld softsdvUid)
        = s.live.filter fun e => !e.stale softsdvUid :=
      List.filter_congr fun e he => by rw [hsame e he]
    rw [hstales] at hleft
    have htable : (s.exec (.dropOld softsdvUid)).table
        = s.table.DropOldUserSpaceTranslations softsdvUid := by
      rw [Uses.exec]
    refine ⟨hleft, ⟨ys'.length, ?_⟩, ?_, ?_⟩
    · rw [← htable, hdropped.contents_eq, hleft]
    · intro e he hfresh va hpage
      have hmem : e ∈ (s.exec (.dropOld softsdvUid)).live := by
        rw [hleft]
        exact List.mem_filter.mpr ⟨he, by simp [hfresh]⟩
      rw [← htable]
      exact hdropped.lookup_of_mem hmem hpage
    · intro e he hstale va hpage hzero
      rw [← htable]
      refine hdropped.lookup_of_not_mem (fun e' he' heq => ?_) hzero
      rw [hleft] at he'
      obtain ⟨he', hfresh⟩ := List.mem_filter.mp he'
      rw [hs.eq_of_page he' he (heq.trans hpage), hstale] at hfresh
      cases hfresh

theorem switchesExactly_iff_kept :
    ((init.exec (.add 0x4000 0x8000 5)).exec (.addArtificial 0xe000000000000000 0)).SwitchesExactly
      6 := by
  have hadded : Reaches Start Step (init.exec (.add 0x4000 0x8000 5)) :=
    Reaches.step (.start rfl) ⟨.add 0x4000 0x8000 5, rfl⟩
  have hstep := fun s => (⟨.addArtificial 0xe000000000000000 0, rfl⟩ :
    Step s (s.exec (.addArtificial 0xe000000000000000 0)))
  exact (switchesExactly_iff _ (hadded.step (hstep _)) 6).mpr (.inr (by decide +kernel))

/-- **A translation that was made up before any uid was seen is never dropped.** -/
theorem not_always_switchesExactly :
    ¬ ∀ s, Reaches Start Step s → ∀ softsdvUid, s.SwitchesExactly softsdvUid := by
  intro hall
  have hadded : Reaches Start Step (init.exec (.addArtificial 0x4000 0)) :=
    Reaches.step (.start rfl) ⟨.addArtificial 0x4000 0, rfl⟩
  have hleft := (hall _ hadded 1).left
  have hbefore : (init.exec (.addArtificial 0x4000 0)).live = [⟨0, 0x4000, 0⟩] := by
    decide +kernel
  have hafter : ((init.exec (.addArtificial 0x4000 0)).exec (.dropOld 1)).live
      = [⟨0, 0x4000, 0⟩] := by
    decide +kernel
  rw [hbefore, hafter] at hleft
  exact absurd hleft (by decide)

end Uses

end AsimFeeder.SoftSDV.Itranslate
