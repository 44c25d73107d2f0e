/-
What each operation of the replay buffer does to its list.

Each operation has one lemma, which says for a list cut where the operation acts what
the new list is, which entries changed, and where the cursor went.  None of them fails
on a well-formed list, except that `AddInstruction` may find its register values
missing.
-/
import Mathlib
import AsimFeeder.SoftSDV.ReplayList

namespace AsimFeeder.SoftSDV

open AsimFeeder.Lib AsimFeeder.Lib.Links

variable {Data Rep Regs : Type}

namespace ReplayBuffer

/-! ### Adding cells -/

variable {b : ReplayBuffer Data Rep Regs} {live free xs ys : List Ref} {r : Ref}

/-- `l'` is `l` after the cell `r` was taken for a new entry. -/
structure Fresh (l l' : ReplayList Data) (live : List Ref) (r : Ref) (free : List Ref) : Prop where
  wf : l'.WF live free
  notMem : r ∉ live ++ free
  bound : r < l'.nCells
  entry : ∀ s ∈ live, l'.entry s = l.entry s
  nextFetch : l'.nextFetch = l.nextFetch
  uid : l'.uid = l.uid

theorem allocateLiveInstr_spec (h : b.list.WF live free) :
    ∃ free', Fresh b.list b.allocateLiveInstr.1.list live b.allocateLiveInstr.2 free' := by
  have hfreed := h.freed
  cases hf : b.freeList with
  | none =>
      have hnew : b.allocateLiveInstr.2 = b.nCells := by unfold allocateLiveInstr; rw [hf]
      have hnot : b.nCells ∉ live := fun hmem =>
        Nat.lt_irrefl _ (h.bound _ (List.mem_append_left _ hmem))
      have hnil : free = [] := by
        rw [show b.list.freeList = none from hf] at hfreed
        cases free with
        | nil => rfl
        | cons a free => cases hfreed.1
      subst hnil
      rw [hnew]
      unfold allocateLiveInstr
      rw [hf]
      have hne : ∀ s ∈ live, s ≠ b.nCells := fun s hs e => hnot (e ▸ hs)
      refine ⟨[], ⟨?_, by simpa using hnot, Nat.lt_succ_self _, ?_, rfl, rfl⟩⟩
      · refine h.congr ?_ ?_ rfl rfl hf.symm h.cursor (Nat.le_succ _)
        · intro s hs
          rw [list_modify]
          exact Function.update_of_ne (hne s (by simpa using hs)) ..
        · intro s hs
          rw [list_modify]
          exact Function.update_of_ne (hne s hs) ..
      · intro s hs
        rw [list_modify]
        exact Function.update_of_ne (hne s hs) ..
  | some r =>
      unfold allocateLiveInstr
      rw [hf]
      rw [show b.list.freeList = some r from hf] at hfreed
      cases free with
      | nil => cases hfreed
      | cons a rest =>
          obtain ⟨ha, hrest⟩ := hfreed
          cases ha
          have hperm : (live ++ r :: rest).Perm (r :: (live ++ rest)) := List.perm_middle
          have hnd := List.nodup_cons.mp (hperm.nodup_iff.mp h.nodup)
          refine ⟨rest, ⟨?_, hnd.1, h.bound r (by simp), fun _ _ => rfl, rfl, rfl⟩⟩
          exact
            { seg := h.seg
              head := h.head
              tail := h.tail
              freed := hrest
              nodup := hnd.2
              bound := fun s hs => h.bound s (hperm.mem_iff.mpr (List.mem_cons_of_mem _ hs))
              cursor := h.cursor }

theorem list_linkAtTail (h : b.list.WF live free) :
    (b.linkAtTail r).list = { b.list with
      links := b.list.links.joinRight live.getLast? (some r)
      head := (live ++ [r]).head?
      tail := some r } := by
  have htail : b.tail = live.getLast? := h.tail
  have hhead : b.list.head = live.head? := h.head
  unfold linkAtTail
  rw [← htail]
  cases ht : b.tail with
  | none =>
      have hnil : live = [] := List.getLast?_eq_none_iff.mp (htail ▸ ht)
      subst hnil
      rfl
  | some t =>
      have hhead' : (live ++ [r]).head? = b.list.head := by
        rw [hhead]
        cases live with
        | nil => rw [htail] at ht; cases ht
        | cons a l => rfl
      rw [hhead']
      exact congrArg (fun l => { l with tail := some r }) (list_setNext b t (some r))

/-- What an operation that added the cell `r` did to the entries and the cursor. -/
structure Added (l l' : ReplayList Data) (live : List Ref) (r : Ref) (e : Entry Data) : Prop where
  notMem : r ∉ live
  entry : ∀ s ∈ live, l'.entry s = l.entry s
  new : l'.entry r = e
  uid : l'.uid = l.uid + 1
  nextFetch : l'.nextFetch = l.nextFetch.or (some r)

theorem addInstruction_spec (h : b.list.WF live free) (newInstr : SdvInstr Data) :
    (∃ b' r free', b.addInstruction newInstr = .ok (b', r) ∧ b'.list.WF (live ++ [r]) free' ∧
      Added b.list b'.list live r ⟨newInstr, b.uid + 1, false, false⟩) ∨
    b.addInstruction newInstr = .error registersOutOfOrder := by
  obtain ⟨free', hfresh⟩ := allocateLiveInstr_spec h
  unfold addInstruction
  generalize b.allocateLiveInstr = b₁ at hfresh
  obtain ⟨b₁, r⟩ := b₁
  simp only at hfresh ⊢
  have hlive : r ∉ live := fun hmem => hfresh.notMem (List.mem_append_left _ hmem)
  have hne : ∀ {l : List Ref}, r ∉ l → ∀ s ∈ l, s ≠ r := fun hr s hs e => hr (e ▸ hs)
  have huid : b₁.uid = b.uid := hfresh.uid
  -- The cell is written before it is linked.
  have hwrite : ({ b₁ with uid := b₁.uid + 1 }.modify r fun i => { i with
      softsdvInstr := newInstr
      inputRegValues := none
      uid := b₁.uid + 1
      next := none
      prev := b₁.tail
      implicitCommit := false
      artificialInstr := false }).list = { b₁.list with
        links := (b₁.list.links.setNext r none).setPrev r b₁.tail
        entry := Function.update b₁.list.entry r ⟨newInstr, b₁.uid + 1, false, false⟩
        uid := b₁.uid + 1 } := list_modify _ _ _
  rcases attachRegisterValues_spec _ r newInstr.regsUid with ⟨b₃, hb₃, hlist⟩ | herr
  · rw [hb₃]
    rw [hwrite] at hlist
    have hwf₃ : b₃.list.WF live free' := by
      rw [hlist]
      refine hfresh.wf.congr ?_ ?_ rfl rfl rfl hfresh.wf.cursor (Nat.le_refl _)
      · intro s hs
        exact Function.update_of_ne (hne hfresh.notMem s hs) ..
      · intro s hs
        exact Function.update_of_ne (hne hlive s hs) ..
    have hfinal : ((b₃.linkAtTail r).keepFetchable r).list = { b₃.list with
        links := b₃.list.links.joinRight live.getLast? (some r)
        head := (live ++ [r]).head?
        tail := some r
        nextFetch := b₃.list.nextFetch.or (some r) } := by
      rw [list_keepFetchable, list_linkAtTail hwf₃]
    have hnext : b₃.list.links.next r = none := by
      rw [hlist]
      exact Function.update_self ..
    have hprev : b₃.list.links.prev r = live.getLast? := by
      rw [hlist, ← hfresh.wf.tail]
      exact Function.update_self ..
    have hnextFetch : b₃.list.nextFetch = b.list.nextFetch := by
      rw [hlist]
      exact hfresh.nextFetch
    refine Or.inl ⟨_, r, free', rfl, ?_, ?_⟩
    · have hwf : b₃.list.WF (live ++ []) free' := by rw [List.append_nil]; exact hwf₃
      refine hwf.insert (r := r) ?_ ?_ hnext hprev ?_ ?_ ?_ ?_ ?_ ?_
      · simpa using hfresh.notMem
      · rw [hlist]
        exact hfresh.bound
      all_goals rw [hfinal]
      · rfl
      · exact List.getLast?_concat.symm
    · exact
        { notMem := hlive
          entry := by
            intro s hs
            rw [hfinal, hlist]
            exact (Function.update_of_ne (hne hlive s hs) ..).trans (hfresh.entry s hs)
          new := by
            rw [hfinal, hlist, ← huid]
            exact Function.update_self ..
          uid := by
            rw [hfinal, hlist]
            exact congrArg (· + 1) huid
          nextFetch := by rw [hfinal, hnextFetch] }
  · rw [herr]
    exact Or.inr rfl

theorem list_linkToPrev (xs ys : List Ref) (h : (b.cell r).prev = xs.getLast?)
    (hhead : b.list.head = (xs ++ ys).head?) :
    (b.linkToPrev r).list = { b.list with
      links := b.list.links.joinRight xs.getLast? (some r)
      head := (xs ++ r :: ys).head? } := by
  unfold linkToPrev
  rw [h]
  cases xs with
  | nil => rfl
  | cons a xs =>
      rw [List.getLast?_cons]
      simp only [list_setNext]
      rw [show ((a :: xs) ++ r :: ys).head? = b.list.head from hhead.symm]
      rfl

theorem addArtificialPlaceHolder_spec {realInstr : Ref}
    (h : b.list.WF (xs ++ realInstr :: ys) free) :
    ∃ b' r free', b.addArtificialPlaceHolder realInstr = (b', r) ∧
      b'.list.WF (xs ++ r :: realInstr :: ys) free' ∧
      Added b.list b'.list (xs ++ realInstr :: ys) r
        ⟨(b.list.entry realInstr).softsdvInstr, b.uid + 1, true, true⟩ := by
  obtain ⟨free', hfresh⟩ := allocateLiveInstr_spec h
  unfold addArtificialPlaceHolder
  generalize b.allocateLiveInstr = b₁ at hfresh
  obtain ⟨b₁, r⟩ := b₁
  simp only at hfresh ⊢
  have hlive : r ∉ xs ++ realInstr :: ys := fun hmem =>
    hfresh.notMem (List.mem_append_left _ hmem)
  have hne : ∀ {l : List Ref}, r ∉ l → ∀ s ∈ l, s ≠ r := fun hr s hs e => hr (e ▸ hs)
  have hreal : realInstr ≠ r := hne hlive _ (by simp)
  have huid : b₁.uid = b.uid := hfresh.uid
  have hprevReal : (b₁.cell realInstr).prev = xs.getLast? := hfresh.wf.prev_at
  -- The cell is written before its neighbours are linked to it.
  have hwrite : ({ b₁ with uid := b₁.uid + 1 }.modify r fun i => { i with
      inputRegValues := none
      uid := b₁.uid + 1
      implicitCommit := true
      artificialInstr := true
      prev := (b₁.cell realInstr).prev
      next := some realInstr }).list = { b₁.list with
        links := (b₁.list.links.setNext r (some realInstr)).setPrev r (b₁.cell realInstr).prev
        entry := Function.update b₁.list.entry r
          ⟨(b₁.cell r).softsdvInstr, b₁.uid + 1, true, true⟩
        uid := b₁.uid + 1 } := list_modify _ _ _
  generalize { b₁ with uid := b₁.uid + 1 }.modify r _ = b₂ at hwrite
  rw [hprevReal] at hwrite
  have hwf₂ : b₂.list.WF (xs ++ realInstr :: ys) free' := by
    rw [hwrite]
    refine hfresh.wf.congr ?_ ?_ rfl rfl rfl hfresh.wf.cursor (Nat.le_refl _)
    · intro s hs
      exact Function.update_of_ne (hne hfresh.notMem s hs) ..
    · intro s hs
      exact Function.update_of_ne (hne hlive s hs) ..
  have hprev : b₂.list.links.prev r = xs.getLast? := by
    rw [hwrite]
    exact Function.update_self ..
  have hnext : b₂.list.links.next r = some realInstr := by
    rw [hwrite]
    exact Function.update_self ..
  have hentry : ∀ s, s ≠ r → b₂.list.entry s = b₁.list.entry s := by
    intro s hs
    rw [hwrite]
    exact Function.update_of_ne hs ..
  have hentryR : b₂.list.entry r = ⟨(b₁.cell r).softsdvInstr, b₁.uid + 1, true, true⟩ := by
    rw [hwrite]
    exact Function.update_self ..
  have hlinked : ((b₂.setPrev realInstr (some r)).linkToPrev r).list = { b₂.list with
      links := (b₂.list.links.setPrev realInstr (some r)).joinRight xs.getLast? (some r)
      head := (xs ++ r :: realInstr :: ys).head? } := by
    rw [list_linkToPrev xs (realInstr :: ys), list_setPrev]
    · show (b₂.setPrev realInstr (some r)).list.links.prev r = _
      rw [list_setPrev]
      exact (Function.update_of_ne hreal.symm ..).trans hprev
    · rw [list_setPrev]
      exact hwf₂.head
  generalize (b₂.setPrev realInstr (some r)).linkToPrev r = b₃ at hlinked
  have hfinal : ((b₃.setSdvInstr r (b₃.list.entry realInstr).softsdvInstr).keepFetchable r).list =
      { b₃.list with
        entry := Function.update b₃.list.entry r { b₃.list.entry r with
          softsdvInstr := (b₃.list.entry realInstr).softsdvInstr }
        nextFetch := b₃.list.nextFetch.or (some r) } := by
    rw [list_keepFetchable, list_setSdvInstr]
  refine ⟨(b₃.setSdvInstr r (b₃.list.entry realInstr).softsdvInstr).keepFetchable r, r, free', rfl,
    ?_, ?_⟩
  · refine hwf₂.insert (r := r) hfresh.notMem ?_ hnext hprev ?_ ?_ ?_ ?_ ?_ ?_
    · rw [hwrite]
      exact hfresh.bound
    all_goals rw [hfinal, hlinked]
    · exact (joinRight_joinLeft (b := some realInstr)).symm
    · rw [hwf₂.tail]
      rw [List.getLast?_append, List.getLast?_append, List.getLast?_cons_cons]
  · exact
      { notMem := hlive
        entry := by
          intro s hs
          have hs' := hne hlive s hs
          rw [hfinal, hlinked]
          show Function.update b₂.list.entry r _ s = _
          rw [Function.update_of_ne hs', hentry s hs']
          exact hfresh.entry s hs
        new := by
          rw [hfinal, hlinked]
          show Function.update b₂.list.entry r _ r = _
          rw [Function.update_self, hentryR, hentry _ hreal,
            hfresh.entry realInstr (by simp), ← huid]
        uid := by
          rw [hfinal, hlinked, hwrite]
          exact congrArg (· + 1) huid
        nextFetch := by
          rw [hfinal, hlinked, hwrite]
          exact congrArg (Option.or · (some r)) hfresh.nextFetch }

/-! ### Taking cells off the list -/

/-- The uid of a deleted entry goes to the entry in front of it, if there is one. -/
def moveUid (entry : Ref → Entry Data) (r : Ref) : Option Ref → Ref → Entry Data
  | none => entry
  | some p => Function.update entry p { entry p with uid := (entry r).uid }

theorem unlinkFromPrev_spec (h : b.list.WF (xs ++ r :: ys) free) :
    ∃ b', b.unlinkFromPrev r = .ok b' ∧ b'.list = { b.list with
      links := b.list.links.joinRight xs.getLast? ys.head?
      head := (xs ++ ys).head?
      entry := moveUid b.list.entry r xs.getLast? } := by
  have hnext : (b.cell r).next = ys.head? := h.next_at
  have hprev : (b.cell r).prev = xs.getLast? := h.prev_at
  have hhead := h.head
  unfold unlinkFromPrev
  by_cases hr : b.head = some r
  · have hnil := h.head_eq_iff.mp hr
    subst hnil
    rw [if_pos hr]
    refine ⟨_, rfl, ?_⟩
    rw [hnext]
    rfl
  · rw [if_neg hr, hprev, hnext]
    cases hxs : xs.getLast? with
    | none => exact absurd (h.head_eq_iff.mpr (List.getLast?_eq_none_iff.mp hxs)) hr
    | some p =>
        refine ⟨_, rfl, ?_⟩
        have hhead' : (xs ++ ys).head? = b.list.head := by
          rw [hhead]
          cases xs with
          | nil => cases hxs
          | cons a xs => rfl
        rw [list_setUid, list_setNext, hhead']
        rfl

theorem unlinkFromNext_spec (h : b.list.WF (xs ++ r :: ys) free)
    {b₁ : ReplayBuffer Data Rep Regs} (htail : b₁.list.tail = b.list.tail)
    (hnext : b₁.list.links.next r = b.list.links.next r)
    (hprev : b₁.list.links.prev = b.list.links.prev) :
    ∃ b', b₁.unlinkFromNext r = .ok b' ∧ b'.list = { b₁.list with
      links := b₁.list.links.joinLeft ys.head? xs.getLast?
      tail := (xs ++ ys).getLast? } := by
  have hn : (b₁.cell r).next = ys.head? := hnext.trans h.next_at
  have hp : (b₁.cell r).prev = xs.getLast? := (congrFun hprev r).trans h.prev_at
  have ht : b₁.tail = b.list.tail := htail
  unfold unlinkFromNext
  by_cases hr : b.list.tail = some r
  · have hnil := h.tail_eq_iff.mp hr
    subst hnil
    rw [ht, if_pos hr]
    refine ⟨_, rfl, ?_⟩
    rw [hp, List.append_nil]
    rfl
  · rw [ht, if_neg hr, hn, hp]
    cases ys with
    | nil => exact absurd (h.tail_eq_iff.mpr rfl) hr
    | cons a ys =>
        refine ⟨_, rfl, ?_⟩
        have ht' : (xs ++ a :: ys).getLast? = b₁.list.tail := by
          rw [htail, h.tail, List.getLast?_append, List.getLast?_append, List.getLast?_cons_cons]
        rw [list_setPrev, ht']
        rfl

theorem deleteInstruction_spec (h : b.list.WF (xs ++ r :: ys) free) :
    ∃ b', b.deleteInstruction r = .ok b' ∧ b'.list.WF (xs ++ ys) (r :: free) ∧
      b'.list.entry = moveUid b.list.entry r xs.getLast? ∧ b'.list.uid = b.list.uid ∧
      b'.list.nextFetch =
        if b.list.nextFetch = some r then ys.head? else b.list.nextFetch := by
  obtain ⟨b₁, hb₁, hlist₁⟩ := unlinkFromPrev_spec h
  have hnext₁ : b₁.list.links.next r = b.list.links.next r := by
    rw [hlist₁]
    cases hxs : xs.getLast? with
    | none => rfl
    | some p =>
        have hne : r ≠ p := fun e =>
          not_mem_left (List.nodup_append.mp h.nodup).1 r List.mem_cons_self
            (e ▸ List.mem_of_mem_getLast? hxs)
        exact Function.update_of_ne hne ..
  have hprev₁ : b₁.list.links.prev = b.list.links.prev := by
    rw [hlist₁]
    exact joinRight_prev
  obtain ⟨b₂, hb₂, hlist₂⟩ := unlinkFromNext_spec h (by rw [hlist₁]) hnext₁ hprev₁
  have hnext₂ : (b₂.cell r).next = ys.head? := by
    show b₂.list.links.next r = _
    rw [hlist₂]
    show (b₁.list.links.joinLeft _ _).next r = _
    rw [joinLeft_next, hnext₁, h.next_at]
  have hcur₂ : b₂.nextFetch = b.list.nextFetch := by
    show b₂.list.nextFetch = _
    rw [hlist₂, hlist₁]
  have hfetch : (if b₂.nextFetch = some r then { b₂ with nextFetch := (b₂.cell r).next }
      else b₂).list =
      { b₂.list with nextFetch :=
          if b.list.nextFetch = some r then ys.head? else b.list.nextFetch } := by
    rw [hcur₂]
    split
    · rw [hnext₂]
      rfl
    · rw [← hcur₂]
      rfl
  unfold deleteInstruction
  rw [hb₁]
  show ∃ b', (b₁.unlinkFromNext r).bind _ = .ok b' ∧ _
  rw [hb₂]
  refine ⟨_, rfl, ?_, ?_, ?_, ?_⟩
  · refine h.remove ?_ ?_ ?_ ?_ ?_ ?_
    all_goals rw [list_deallocateLiveInstr, hfetch, hlist₂, hlist₁]
    · intro s hs
      simp only at hs
      by_cases hc : b.list.nextFetch = some r
      · rw [if_pos hc] at hs
        exact List.mem_append_right _ (List.mem_of_mem_head? hs)
      · rw [if_neg hc] at hs
        have hmem := h.cursor s hs
        have hne : s ≠ r := fun e => hc (e ▸ hs)
        simp only [List.mem_append, List.mem_cons, hne, false_or] at hmem ⊢
        exact hmem
  all_goals rw [list_deallocateLiveInstr, hfetch, hlist₂, hlist₁]

/-! ### Committing -/

/-- Entries, the uid counter and the cursor are those of `l`. -/
structure Kept (l l' : ReplayList Data) : Prop where
  entry : l'.entry = l.entry
  uid : l'.uid = l.uid
  nextFetch : l'.nextFetch = l.nextFetch

theorem Kept.trans {l₁ l₂ l₃ : ReplayList Data} (h : Kept l₁ l₂) (h' : Kept l₂ l₃) : Kept l₁ l₃ :=
  ⟨h'.entry.trans h.entry, h'.uid.trans h.uid, h'.nextFetch.trans h.nextFetch⟩

theorem list_unlinkHead (h : b.list.WF (r :: ys) free) : (b.unlinkHead r).list = { b.list with
    links := b.list.links.joinLeft ys.head? none
    head := ys.head?
    tail := ys.getLast? } := by
  have hnext : (b.cell r).next = ys.head? := h.next_head
  have htail := h.tail
  unfold unlinkHead
  simp only [hnext]
  cases ys with
  | nil => rfl
  | cons a ys =>
      show (({ b with head := some a } : ReplayBuffer Data Rep Regs).setPrev a none).list = _
      rw [list_setPrev]
      rw [List.getLast?_cons_cons] at htail
      rw [← htail]
      rfl

/-- Taking the head off the list, when the cursor is behind it. -/
theorem removeHead_spec (h : b.list.WF (r :: ys) free)
    (hcur : ∀ s, b.list.nextFetch = some s → s ∈ ys) :
    ((b.unlinkHead r).deallocateLiveInstr r).list.WF ys (r :: free) ∧
      Kept b.list ((b.unlinkHead r).deallocateLiveInstr r).list := by
  have hlist := list_unlinkHead h
  constructor
  · refine @ReplayList.WF.remove _ _ _ _ [] ys r h ?_ ?_ ?_ ?_ ?_ ?_
    all_goals rw [list_deallocateLiveInstr, hlist]
    · rfl
    · rfl
    · rfl
    · exact hcur
  · constructor
    all_goals rw [list_deallocateLiveInstr, hlist]

theorem implicitCommitLoop_spec : ∀ (xs : List Ref) (fuel : Nat) (b : ReplayBuffer Data Rep Regs)
    (free : List Ref) (num : UInt32) (tag : Option Int32), b.list.WF (xs ++ r :: ys) free →
    (∀ s ∈ xs, (b.list.entry s).implicitCommit = true) →
    (∀ s, b.list.nextFetch = some s → s ∈ ys) → xs.length < fuel →
    ∃ b' num' tag', b.implicitCommitLoop r fuel num tag = .ok (b', num', tag') ∧
      b'.list.WF (r :: ys) (xs.reverse ++ free) ∧ Kept b.list b'.list := by
  intro xs
  induction xs with
  | nil =>
      intro fuel b free num tag h _ hcur hfuel
      have hhead : b.head = some r := h.head
      cases fuel with
      | zero => cases hfuel
      | succ fuel =>
          refine ⟨b, num, tag, ?_, h, rfl, rfl, rfl⟩
          rw [implicitCommitLoop, hhead]
          simp
  | cons a xs ih =>
      intro fuel b free num tag h himp hcur hfuel
      have hhead : b.head = some a := h.head
      have hne : a ≠ r := fun e => not_mem_left (List.nodup_append.mp h.nodup).1 r
        List.mem_cons_self (e ▸ List.mem_cons_self)
      have hfirst : (b.cell a).implicitCommit = true := himp a List.mem_cons_self
      have hcur' : ∀ s, b.list.nextFetch = some s → s ∈ xs ++ r :: ys := fun s hs =>
        List.mem_append_right _ (List.mem_cons_of_mem _ (hcur s hs))
      obtain ⟨hwf, hkept⟩ := @removeHead_spec _ _ _ b free (xs ++ r :: ys) a h hcur'
      cases fuel with
      | zero => cases hfuel
      | succ fuel =>
          -- What is left of the list is not empty, so it has a new head.
          obtain ⟨c, hc⟩ : ∃ c, (b.cell a).next = some c := by
            refine ⟨(xs ++ r :: ys).head (by simp), ?_⟩
            rw [show (b.cell a).next = (xs ++ r :: ys).head? from h.next_head]
            exact List.head?_eq_some_head _
          have hunlink : ({ b with head := some c } : ReplayBuffer Data Rep Regs).setPrev c none =
              b.unlinkHead a := by
            simp only [unlinkHead, hc]
          obtain ⟨b', num', tag', hloop, hwf', hkept'⟩ := ih fuel _ _
            (if (b.cell a).artificialInstr then num else num + 1) (b.readTag a tag) hwf
            (fun s hs => by rw [hkept.entry]; exact himp s (List.mem_cons_of_mem _ hs))
            (fun s hs => hcur s (hkept.nextFetch ▸ hs)) (Nat.lt_of_succ_lt_succ hfuel)
          refine ⟨b', num', tag', ?_, ?_, hkept.trans hkept'⟩
          · rw [implicitCommitLoop, hhead]
            simp only [hfirst, bne_iff_ne.mpr hne, Bool.and_self, if_true, hc]
            rw [← hloop, ← hunlink]
            rfl
          · rw [List.reverse_cons, List.append_assoc]
            exact hwf'

theorem length_le_nCells (h : b.list.WF live free) : live.length ≤ b.nCells := by
  have hnd := (List.nodup_append.mp h.nodup).1
  have hsub : live ⊆ List.range b.nCells := fun s hs =>
    List.mem_range.mpr (h.bound s (List.mem_append_left _ hs))
  have := (List.subperm_of_subset hnd hsub).length_le
  rwa [List.length_range] at this

/-- A fetched entry behind implicit commits commits with them. -/
theorem commitInstruction_spec (h : b.list.WF (xs ++ r :: ys) free)
    (himp : ∀ s ∈ xs, (b.list.entry s).implicitCommit = true)
    (hcur : ∀ s, b.list.nextFetch = some s → s ∈ ys) :
    ∃ b' num tag, b.commitInstruction r = .ok (b', num, tag) ∧
      b'.list.WF ys (r :: (xs.reverse ++ free)) ∧ Kept b.list b'.list := by
  have hlen := length_le_nCells h
  rw [List.length_append, List.length_cons] at hlen
  have hry : r ∉ ys := by
    have hnd := (List.nodup_append.mp (List.nodup_append.mp h.nodup).1).2.1
    exact (List.nodup_cons.mp hnd).1
  have hnf : ¬ b.nextFetch = some r := fun e => hry (hcur r e)
  obtain ⟨b₁, num, tag, hloop, hwf, hkept⟩ :=
    implicitCommitLoop_spec xs b.nCells b free 0 none h himp hcur (by omega)
  have hhead : b₁.head = some r := hwf.head
  obtain ⟨hwf', hkept'⟩ := removeHead_spec hwf fun s hs => hcur s (hkept.nextFetch ▸ hs)
  refine ⟨_, num, b₁.readTag r tag, ?_, hwf', hkept.trans hkept'⟩
  unfold commitInstruction
  rw [if_neg hnf, hloop]
  simp only [bind, Except.bind, hhead, ne_eq, not_true_eq_false, if_false]

/-! ### Moving the cursor -/

theorem wf_nextFetch {c : Option Ref} (h : b.list.WF live free) (hc : ∀ s, c = some s → s ∈ live) :
    ({ b with nextFetch := c } : ReplayBuffer Data Rep Regs).list.WF live free :=
  h.congr (fun _ _ => rfl) (fun _ _ => rfl) rfl rfl rfl hc (Nat.le_refl _)

theorem next_mem (h : b.list.WF live free) {s t : Ref} (hs : s ∈ live)
    (ht : b.list.links.next s = some t) : t ∈ live := by
  obtain ⟨xs, ys, rfl⟩ := List.append_of_mem hs
  rw [h.next_at] at ht
  exact List.mem_append_right _ (List.mem_cons_of_mem _ (List.mem_of_mem_head? ht))

theorem getNextFetchHandle_spec (h : b.list.WF live free) :
    ∃ c, b.getNextFetchHandle.1 = { b with nextFetch := c } ∧
      b.getNextFetchHandle.1.list.WF live free := by
  unfold getNextFetchHandle
  split
  · rename_i s hf
    refine ⟨_, rfl, wf_nextFetch h ?_⟩
    intro t ht
    exact next_mem h (h.cursor s hf) ht
  · exact ⟨b.nextFetch, rfl, h⟩

/-- From a cell of the list, the loop passes artificial cells until it ends. -/
theorem skipArtificial_spec : ∀ (ys xs : List Ref) (fuel : Nat), b.list.WF (xs ++ ys) free →
    ys.length < fuel → ∃ f, b.skipArtificial fuel ys.head? = .ok f ∧ ∀ s, f = some s → s ∈ ys := by
  intro ys
  induction ys with
  | nil =>
      intro xs fuel _ hfuel
      cases fuel with
      | zero => cases hfuel
      | succ fuel => exact ⟨none, rfl, by intro s hs; cases hs⟩
  | cons a ys ih =>
      intro xs fuel h hfuel
      cases fuel with
      | zero => cases hfuel
      | succ fuel =>
          have hnext : (b.cell a).next = ys.head? := h.next_at
          have hskip : b.skipArtificial (fuel + 1) (a :: ys).head? =
              if (b.cell a).artificialInstr then b.skipArtificial fuel (b.cell a).next
              else .ok (some a) := rfl
          rw [hskip]
          split
          · obtain ⟨f, hf, hmem⟩ := ih (xs ++ [a]) fuel (by simpa using h)
              (Nat.lt_of_succ_lt_succ hfuel)
            rw [hnext]
            exact ⟨f, hf, fun s hs => List.mem_cons_of_mem _ (hmem s hs)⟩
          · exact ⟨some a, rfl, by intro s hs; cases hs; exact List.mem_cons_self⟩

theorem getNextRealFetchHandle_spec (h : b.list.WF live free) :
    ∃ b' f c, b.getNextRealFetchHandle = .ok (b', f) ∧ b' = { b with nextFetch := c } ∧
      b'.list.WF live free := by
  have hlen := length_le_nCells h
  obtain ⟨f, hf, hmem⟩ : ∃ f, b.skipArtificial (b.nCells + 1) b.nextFetch = .ok f ∧
      ∀ s, f = some s → s ∈ live := by
    cases hc : b.nextFetch with
    | none => exact ⟨none, rfl, by intro s hs; cases hs⟩
    | some s =>
        obtain ⟨xs, ys, rfl⟩ := List.append_of_mem (h.cursor s hc)
        rw [List.length_append] at hlen
        obtain ⟨f, hf, hmem⟩ := skipArtificial_spec (s :: ys) xs (b.nCells + 1) h (by omega)
        exact ⟨f, hf, fun t ht => List.mem_append_right _ (hmem t ht)⟩
  unfold getNextRealFetchHandle
  rw [hf]
  cases f with
  | none => exact ⟨b, none, b.nextFetch, rfl, rfl, h⟩
  | some s =>
      exact ⟨_, some s, _, rfl, rfl, wf_nextFetch h fun t ht => next_mem h (hmem s rfl) ht⟩

theorem setImplicitCommit_spec (h : b.list.WF live free) (v : Bool) :
    (b.setImplicitCommit r v).list.WF live free := by
  rw [list_setImplicitCommit]
  exact h.congr (fun _ _ => rfl) (fun _ _ => rfl) rfl rfl rfl h.cursor (Nat.le_refl _)

theorem setImplicitCommit_entry (r s : Ref) (v : Bool) :
    ∃ v', (b.setImplicitCommit r v).list.entry s =
      { b.list.entry s with implicitCommit := v' } := by
  rw [list_setImplicitCommit]
  by_cases hs : s = r
  · subst hs
    exact ⟨v, Function.update_self ..⟩
  · exact ⟨(b.list.entry s).implicitCommit, Function.update_of_ne hs ..⟩

end ReplayBuffer

end AsimFeeder.SoftSDV
