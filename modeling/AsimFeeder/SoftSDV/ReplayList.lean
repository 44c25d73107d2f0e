/-
What the operations of the replay buffer do to its list.

`list` is the part of the buffer the list consists of: links, entries, the head, tail
and fetch pointers and the free list.  `WF` says that the live cells are a doubly
linked list between head and tail, that the free cells are a chain apart from it, and
that the cursor is on a live cell.  Two facts about `WF` do the work.  A cell outside
both lists can be put between two neighbours (`WF.insert`), and a live cell whose
neighbours are joined can be put on the free list (`WF.remove`).
-/
import AsimFeeder.SoftSDV.ReplayBuffer

namespace AsimFeeder.SoftSDV

open AsimFeeder.Lib AsimFeeder.Lib.Links

variable {Data Rep Regs : Type}

/-- The list of a replay buffer, without its register values. -/
structure ReplayList (Data : Type) where
  links : Links Ref
  entry : Ref → Entry Data
  nCells : Nat
  head : Option Ref
  tail : Option Ref
  nextFetch : Option Ref
  freeList : Option Ref
  uid : UInt64

namespace ReplayBuffer

variable (b : ReplayBuffer Data Rep Regs)

def list : ReplayList Data where
  links := ⟨fun r => (b.cell r).next, fun r => (b.cell r).prev⟩
  entry r := (b.cell r).toEntry
  nCells := b.nCells
  head := b.head
  tail := b.tail
  nextFetch := b.nextFetch
  freeList := b.freeList
  uid := b.uid

/-! ### The list after a change of one cell -/

theorem list_modify (r : Ref) (f : LiveInstr Data Rep → LiveInstr Data Rep) :
    (b.modify r f).list = { b.list with
      links := (b.list.links.setNext r (f (b.cell r)).next).setPrev r (f (b.cell r)).prev
      entry := Function.update b.list.entry r (f (b.cell r)).toEntry } := by
  have hcell : ∀ {β : Type} (g : LiveInstr Data Rep → β),
      (fun s => g (Function.update b.cell r (f (b.cell r)) s)) =
        Function.update (fun s => g (b.cell s)) r (g (f (b.cell r))) := by
    intro β g
    funext s
    by_cases hs : s = r
    · rw [hs, Function.update_self, Function.update_self]
    · rw [Function.update_of_ne hs, Function.update_of_ne hs]
  unfold list modify Links.setNext Links.setPrev
  simp only [hcell fun i => i.next, hcell fun i => i.prev, hcell fun i => i.toEntry]

@[simp] theorem list_setNext (r : Ref) (n : Option Ref) :
    (b.setNext r n).list = { b.list with links := b.list.links.setNext r n } := by
  unfold setNext
  rw [list_modify]
  simp [Links.setPrev, Links.setNext, list]

@[simp] theorem list_setPrev (r : Ref) (p : Option Ref) :
    (b.setPrev r p).list = { b.list with links := b.list.links.setPrev r p } := by
  unfold setPrev
  rw [list_modify]
  simp [Links.setPrev, Links.setNext, list]

@[simp] theorem list_setUid (r : Ref) (id : UInt64) : (b.setUid r id).list =
    { b.list with entry := Function.update b.list.entry r { b.list.entry r with uid := id } } := by
  unfold setUid
  rw [list_modify]
  simp [Links.setPrev, Links.setNext, list]

@[simp] theorem list_setSdvInstr (r : Ref) (instr : SdvInstr Data) :
    (b.setSdvInstr r instr).list = { b.list with
      entry := Function.update b.list.entry r { b.list.entry r with softsdvInstr := instr } } := by
  unfold setSdvInstr
  rw [list_modify]
  simp [Links.setPrev, Links.setNext, list]

@[simp] theorem list_setImplicitCommit (r : Ref) (v : Bool) : (b.setImplicitCommit r v).list =
    { b.list with
      entry := Function.update b.list.entry r { b.list.entry r with implicitCommit := v } } := by
  unfold setImplicitCommit
  rw [list_modify]
  simp [Links.setPrev, Links.setNext, list]

theorem list_modify_same {r : Ref} {f : LiveInstr Data Rep → LiveInstr Data Rep}
    (hn : (f (b.cell r)).next = (b.cell r).next) (hp : (f (b.cell r)).prev = (b.cell r).prev)
    (he : (f (b.cell r)).toEntry = (b.cell r).toEntry) : (b.modify r f).list = b.list := by
  rw [list_modify, hn, hp, he]
  simp [Links.setPrev, Links.setNext, list]

/-! ### Register values are not part of the list -/

@[simp] theorem list_deallocateRegisterValues (rv : Nat) :
    (b.deallocateRegisterValues rv).list = b.list := rfl

@[simp] theorem list_popRegisterValues : b.popRegisterValues.1.list = b.list := by
  unfold popRegisterValues
  split <;> rfl

theorem list_pushRegisterValues (rv : RegInfo Regs) :
    (b.pushRegisterValues rv).list = b.list := by
  unfold pushRegisterValues
  split <;> rfl

theorem list_dropUnusedRegisterValues (regsUid : UInt64) :
    ∀ (fuel : Nat) (b : ReplayBuffer Data Rep Regs) (rInfo : Option Nat),
      (dropUnusedRegisterValues regsUid fuel b rInfo).1.list = b.list := by
  intro fuel
  induction fuel with
  | zero => intro b rInfo; rfl
  | succ fuel ih =>
      intro b rInfo
      cases rInfo with
      | none => rfl
      | some rInfo =>
          rw [dropUnusedRegisterValues]
          split
          · simp only
            rw [ih, list_popRegisterValues, list_deallocateRegisterValues]
          · rfl

theorem attachRegisterValues_spec (liveInstr : Ref) (regsUid : UInt64) :
    (∃ b', b.attachRegisterValues liveInstr regsUid = .ok b' ∧ b'.list = b.list) ∨
      b.attachRegisterValues liveInstr regsUid = .error registersOutOfOrder := by
  unfold attachRegisterValues
  split
  · have hlist := list_dropUnusedRegisterValues regsUid (b.regValuesList.length + 1)
      b.popRegisterValues.1 b.popRegisterValues.2
    simp only
    split
    · split
      · refine Or.inl ⟨_, rfl, ?_⟩
        rw [list_modify_same _ rfl rfl rfl, hlist, list_popRegisterValues]
      · exact Or.inr rfl
    · exact Or.inr rfl
  · exact Or.inl ⟨b, rfl, rfl⟩

@[simp] theorem list_deleteInputRegValues (r : Ref) : (b.deleteInputRegValues r).list = b.list := by
  unfold deleteInputRegValues
  split
  · rw [list_modify_same _ rfl rfl rfl, list_deallocateRegisterValues]
  · rfl

@[simp] theorem list_deleteREPMemRegions (r : Ref) : (b.deleteREPMemRegions r).list = b.list :=
  list_modify_same _ rfl rfl rfl

@[simp] theorem list_deallocateLiveInstr (r : Ref) : (b.deallocateLiveInstr r).list =
    { b.list with links := b.list.links.setNext r b.list.freeList, freeList := some r } := by
  have hset : ∀ b : ReplayBuffer Data Rep Regs,
      ({ b.setNext r b.freeList with freeList := some r } : ReplayBuffer Data Rep Regs).list =
        { b.list with links := b.list.links.setNext r b.list.freeList, freeList := some r } :=
    fun b => congrArg (fun l => { l with freeList := some r }) (list_setNext b r b.freeList)
  refine (hset _).trans ?_
  rw [list_deleteInputRegValues, list_deleteREPMemRegions]

@[simp] theorem list_keepFetchable (r : Ref) : (b.keepFetchable r).list =
    { b.list with nextFetch := b.list.nextFetch.or (some r) } := by
  unfold keepFetchable
  cases h : b.nextFetch with
  | none =>
      show ({ b with nextFetch := some r } : ReplayBuffer Data Rep Regs).list = _
      rw [show b.list.nextFetch = none from h]
      rfl
  | some c =>
      show b.list = _
      rw [show b.list.nextFetch = some c from h]
      show _ = ({ b.list with nextFetch := some c } : ReplayList Data)
      rw [← h]
      rfl

end ReplayBuffer

/-! ### The invariant -/

namespace ReplayList

/-- The live cells are the list from head to tail, and the free cells are apart from it. -/
structure WF (l : ReplayList Data) (live free : List Ref) : Prop where
  seg : l.links.Seg none live none
  head : l.head = live.head?
  tail : l.tail = live.getLast?
  freed : Chain l.links.next l.freeList free
  nodup : (live ++ free).Nodup
  bound : ∀ r ∈ live ++ free, r < l.nCells
  cursor : ∀ r, l.nextFetch = some r → r ∈ live

variable {l l' : ReplayList Data} {live free xs ys : List Ref} {r : Ref}

/-- Entries and uids are no part of it, and cells outside both lists may be changed. -/
theorem WF.congr (h : l.WF live free)
    (hnext : ∀ r ∈ live ++ free, l'.links.next r = l.links.next r)
    (hprev : ∀ r ∈ live, l'.links.prev r = l.links.prev r) (hhead : l'.head = l.head)
    (htail : l'.tail = l.tail) (hfree : l'.freeList = l.freeList)
    (hcursor : ∀ r, l'.nextFetch = some r → r ∈ live) (hcells : l.nCells ≤ l'.nCells) :
    l'.WF live free where
  seg := h.seg.congr (fun r hr => hnext r (List.mem_append_left _ hr)) hprev
  head := hhead.trans h.head
  tail := htail.trans h.tail
  freed := by
    rw [hfree]
    exact h.freed.congr fun r hr => hnext r (List.mem_append_right _ hr)
  nodup := h.nodup
  bound := fun r hr => Nat.lt_of_lt_of_le (h.bound r hr) hcells
  cursor := hcursor

theorem WF.insert (h : l.WF (xs ++ ys) free) (hr : r ∉ (xs ++ ys) ++ free) (hbound : r < l.nCells)
    (hnext : l.links.next r = ys.head?) (hprev : l.links.prev r = xs.getLast?)
    (hlinks : l'.links = (l.links.joinRight xs.getLast? (some r)).joinLeft ys.head? (some r))
    (hhead : l'.head = (xs ++ r :: ys).head?) (htail : l'.tail = (xs ++ r :: ys).getLast?)
    (hfree : l'.freeList = l.freeList) (hcursor : l'.nextFetch = l.nextFetch.or (some r))
    (hcells : l'.nCells = l.nCells) : l'.WF (xs ++ r :: ys) free := by
  have hperm : ((xs ++ r :: ys) ++ free).Perm (r :: ((xs ++ ys) ++ free)) := by
    simp [List.perm_middle]
  have hnd : ((xs ++ r :: ys) ++ free).Nodup :=
    hperm.nodup_iff.mpr (List.nodup_cons.mpr ⟨hr, h.nodup⟩)
  exact
    { seg := by
        rw [hlinks]
        exact h.seg.insert (List.nodup_append.mp hnd).1 hnext hprev
      head := hhead
      tail := htail
      freed := by
        rw [hlinks, hfree, joinLeft_next]
        refine h.freed.frameRight ?_
        intro s hs
        exact not_mem_right h.nodup s
          (List.mem_append_left _ (List.mem_of_mem_getLast? hs))
      nodup := hnd
      bound := by
        intro s hs
        rw [hcells]
        rcases List.mem_cons.mp (hperm.mem_iff.mp hs) with rfl | hs
        · exact hbound
        · exact h.bound s hs
      cursor := by
        intro s hs
        rw [hcursor] at hs
        cases hc : l.nextFetch with
        | none =>
            rw [hc] at hs
            cases hs
            simp
        | some c =>
            rw [hc] at hs
            cases hs
            have := h.cursor s hc
            simp only [List.mem_append, List.mem_cons] at this ⊢
            tauto }

theorem WF.remove (h : l.WF (xs ++ r :: ys) free)
    (hlinks : l'.links =
      ((l.links.joinRight xs.getLast? ys.head?).joinLeft ys.head? xs.getLast?).setNext r l.freeList)
    (hhead : l'.head = (xs ++ ys).head?) (htail : l'.tail = (xs ++ ys).getLast?)
    (hfree : l'.freeList = some r) (hcursor : ∀ s, l'.nextFetch = some s → s ∈ xs ++ ys)
    (hcells : l'.nCells = l.nCells) : l'.WF (xs ++ ys) (r :: free) := by
  have hperm : ((xs ++ ys) ++ r :: free).Perm ((xs ++ r :: ys) ++ free) := by
    rw [List.append_assoc, List.append_assoc]
    refine List.Perm.append_left xs ?_
    rw [List.cons_append]
    exact List.perm_middle
  have hnd : ((xs ++ ys) ++ r :: free).Nodup := hperm.nodup_iff.mpr h.nodup
  have hrf : r ∉ free := (List.nodup_cons.mp (List.nodup_append.mp hnd).2.1).1
  have hrl : r ∉ xs ++ ys := not_mem_left hnd r List.mem_cons_self
  exact
    { seg := by
        rw [hlinks]
        exact (h.seg.remove (List.nodup_append.mp h.nodup).1).setNext hrl
      head := hhead
      tail := htail
      freed := by
        rw [hlinks, hfree]
        refine Chain.push ?_ hrf
        rw [joinLeft_next]
        refine h.freed.frameRight ?_
        intro s hs
        exact not_mem_right h.nodup s
          (List.mem_append_left _ (List.mem_of_mem_getLast? hs))
      nodup := hnd
      bound := by
        intro s hs
        rw [hcells]
        exact h.bound s (hperm.mem_iff.mp hs)
      cursor := hcursor }

theorem WF.head_eq_iff (h : l.WF (xs ++ r :: ys) free) : l.head = some r ↔ xs = [] := by
  rw [h.head]
  cases xs with
  | nil => simp
  | cons a xs =>
      have hne : a ≠ r := by
        have hnd := (List.nodup_append.mp h.nodup).1
        rw [List.cons_append, List.nodup_cons] at hnd
        exact fun e => hnd.1 (by simp [e])
      simp [hne]

theorem WF.tail_eq_iff (h : l.WF (xs ++ r :: ys) free) : l.tail = some r ↔ ys = [] := by
  rw [h.tail]
  rcases List.eq_nil_or_concat ys with rfl | ⟨zs, z, rfl⟩
  · simp
  · rw [List.concat_eq_append]
    have hne : z ≠ r := by
      have hnd := (List.nodup_append.mp (List.nodup_append.mp h.nodup).1).2.1
      exact fun e => (List.nodup_cons.mp hnd).1 (by simp [e])
    rw [show xs ++ r :: (zs ++ [z]) = (xs ++ r :: zs) ++ [z] by simp, List.getLast?_concat]
    simp [hne]

theorem WF.next_at (h : l.WF (xs ++ r :: ys) free) : l.links.next r = ys.head? := by
  rw [h.seg.at.2, first_none]

theorem WF.next_head (h : l.WF (r :: ys) free) : l.links.next r = ys.head? := by
  have hcut : l.WF ([] ++ r :: ys) free := h
  exact hcut.next_at

theorem WF.prev_at (h : l.WF (xs ++ r :: ys) free) : l.links.prev r = xs.getLast? := by
  rw [h.seg.at.1, last_none]

end ReplayList

end AsimFeeder.SoftSDV
