/-
What the store buffer holds.

`Holds sb l` says that the entries of `l` are in the buffer, each once, in the list of its
quadword and in fetch order.  An update adds one entry.  Taking an entry out removes just
that entry, provided that the address by which its list is looked up is still in its
quadword, if it is the last one there.
-/
import AsimFeeder.Aint.StoreBuffer

namespace AsimFeeder.Aint

open Lib

variable {sb sb' : StoreBuffer} {l l' : List StqEntry} {u : StqEntry} {vaddr : BitVec 64}

structure StoreBuffer.Holds (sb : StoreBuffer) (l : List StqEntry) : Prop where
  valid : Bucket.Valid StqEntry.addr (fun u v => u.fetchnum ≤ v.fetchnum) sb.StoreQ
  perm : (Bucket.contents sb.StoreQ).Perm l
  refs : (l.map StqEntry.ref).Nodup
  allocated : ∀ u ∈ l, u.ref < sb.allocated

theorem StoreBuffer.Holds.congr (h : sb.Holds l) (hl : l.Perm l') : sb.Holds l' where
  valid := h.valid
  perm := h.perm.trans hl
  refs := (hl.map StqEntry.ref).nodup_iff.mp h.refs
  allocated := fun u hu => h.allocated u (hl.mem_iff.mpr hu)

theorem StoreBuffer.holds_empty : StoreBuffer.Holds ⟨[], 0⟩ [] where
  valid := Bucket.valid_nil
  perm := .refl _
  refs := List.nodup_nil
  allocated := fun _ hu => by cases hu

/-! ### Putting an update in -/

/-- It is a new one if no update of the same instruction and position is there. -/
theorem insertUpdate_perm (hnew : ∀ v ∈ l, v.fetchnum = u.fetchnum →
    v.pos_in_vreg ≠ u.pos_in_vreg) :
    (insertUpdate u l).Perm (u :: l) := by
  induction l with
  | nil => exact .refl _
  | cons v l ih =>
      have hv := hnew v List.mem_cons_self
      rw [insertUpdate]
      split
      · exact .refl _
      · split
        · rename_i hsame
          simp only [Bool.and_eq_true, beq_iff_eq] at hsame
          exact absurd hsame.2 (hv hsame.1)
        · exact (List.Perm.cons v (ih fun w hw => hnew w (List.mem_cons_of_mem v hw))).trans
            (List.Perm.swap u v l)

theorem insertUpdate_ordered (h : l.Pairwise fun v w => v.fetchnum ≤ w.fetchnum)
    (hnew : ∀ v ∈ l, v.fetchnum = u.fetchnum → v.pos_in_vreg ≠ u.pos_in_vreg) :
    (insertUpdate u l).Pairwise fun v w => v.fetchnum ≤ w.fetchnum := by
  induction l with
  | nil => exact List.pairwise_singleton _ _
  | cons v l ih =>
      obtain ⟨hle, hl⟩ := List.pairwise_cons.mp h
      have hnew' : ∀ w ∈ l, w.fetchnum = u.fetchnum → w.pos_in_vreg ≠ u.pos_in_vreg :=
        fun w hw => hnew w (List.mem_cons_of_mem v hw)
      rw [insertUpdate]
      split
      · rename_i hbefore
        have huv : u.fetchnum ≤ v.fetchnum := by
          simp only [Bool.or_eq_true, decide_eq_true_eq, Bool.and_eq_true, beq_iff_eq] at hbefore
          omega
        refine List.pairwise_cons.mpr ⟨List.forall_mem_cons.mpr ⟨huv, fun w hw => ?_⟩, h⟩
        exact Nat.le_trans huv (hle w hw)
      · rename_i hbehind
        split
        · exact List.pairwise_cons.mpr ⟨fun w hw => by
            rename_i hsame
            simp only [Bool.and_eq_true, beq_iff_eq] at hsame
            rw [← hsame.1]
            exact hle w hw, hl⟩
        · have hvu : v.fetchnum ≤ u.fetchnum := by
            simp only [Bool.or_eq_true, decide_eq_true_eq, not_or] at hbehind
            omega
          refine List.pairwise_cons.mpr ⟨fun w hw => ?_, ih hl hnew'⟩
          rcases List.mem_cons.mp ((insertUpdate_perm hnew').mem_iff.mp hw) with rfl | hw
          · exact hvu
          · exact hle w hw

/-- The entry that an update makes. -/
def Memop.entry (ifi : Memop) (instid : UInt64) (ref : Nat) : StqEntry :=
  ⟨ifi.fetchnum, ifi.vaddr, ifi.data, ifi.bitmask, ifi.pos_in_vreg, instid, ref⟩

/-- **An update adds its entry.** -/
theorem Update_StoreBuffer_spec (h : sb.Holds l) (instid : UInt64) {ifi : Memop}
    (hnone : ifi.stq_update = none)
    (hnew : ∀ v ∈ l, v.fetchnum = ifi.fetchnum → v.pos_in_vreg ≠ ifi.pos_in_vreg) :
    ∃ sb', Update_StoreBuffer instid ifi sb =
        .ok ({ ifi with stq_update := some (ifi.entry instid sb.allocated) }, sb') ∧
      sb'.Holds (ifi.entry instid sb.allocated :: l) := by
  have hrefs : ((ifi.entry instid sb.allocated :: l).map StqEntry.ref).Nodup := by
    rw [List.map_cons, List.nodup_cons]
    refine ⟨fun hmem => ?_, h.refs⟩
    obtain ⟨v, hv, hvref⟩ := List.mem_map.mp hmem
    exact absurd (hvref ▸ h.allocated v hv) (Nat.lt_irrefl _)
  have hallocated : ∀ v ∈ ifi.entry instid sb.allocated :: l, v.ref < sb.allocated + 1 :=
    List.forall_mem_cons.mpr ⟨Nat.lt_succ_self _, fun v hv => Nat.lt_succ_of_lt (h.allocated v hv)⟩
  unfold Update_StoreBuffer
  rw [hnone, Option.isSome_none, if_neg Bool.false_ne_true]
  dsimp only
  cases hsearch : Bucket.search (ifi.vaddr &&& QWORD_MASK) sb.StoreQ with
  | none =>
      refine ⟨_, rfl, ?_, ?_, hrefs, hallocated⟩
      · refine h.valid.cons hsearch (List.cons_ne_nil _ _) (fun v hv => ?_)
          (List.pairwise_singleton _ _)
        rw [List.mem_singleton.mp hv]
        rfl
      · rw [Bucket.contents_cons]
        exact h.perm.cons _
  | some sq =>
      have hitems := h.valid.items_eq hsearch
      have hsub : ∀ v ∈ sq.items, v ∈ l ∧ v.addr = ifi.vaddr &&& QWORD_MASK := by
        intro v hv
        rw [hitems, List.mem_filter] at hv
        exact ⟨h.perm.mem_iff.mp hv.1, of_decide_eq_true hv.2⟩
      have hmem := (Bucket.search_mem hsearch).1
      have hnew' : ∀ v ∈ sq.items, v.fetchnum = (ifi.entry instid sb.allocated).fetchnum →
          v.pos_in_vreg ≠ (ifi.entry instid sb.allocated).pos_in_vreg :=
        fun v hv => hnew v (hsub v hv).1
      have hperm := insertUpdate_perm hnew'
      dsimp only
      rw [if_neg (h.valid.nonempty sq hmem)]
      have hset := h.valid.exchange (l := insertUpdate (ifi.entry instid sb.allocated) sq.items)
        hsearch ?_ ?_ (insertUpdate_ordered (h.valid.ordered sq hmem) hnew')
      · refine ⟨_, rfl, hset.1, ?_, hrefs, hallocated⟩
        refine (List.perm_append_right_iff sq.items).mp (hset.2.trans ?_)
        exact (h.perm.append hperm).trans List.perm_middle
      · intro hnil
        rw [hnil] at hperm
        exact absurd hperm.length_eq (by simp)
      · intro v hv
        rcases List.mem_cons.mp (hperm.mem_iff.mp hv) with rfl | hv
        · rfl
        · exact (hsub v hv).2

/-! ### Taking an entry out -/

/-- The list that holds an entry is that of its quadword. -/
theorem find_list (h : sb.Holds (u :: l)) : ∃ sq, Bucket.search u.addr sb.StoreQ = some sq ∧
    (sb.StoreQ.find? fun sq => sq.items.any fun sqe => sqe.ref == u.ref) = some sq := by
  have hu : u ∈ Bucket.contents sb.StoreQ := h.perm.mem_iff.mpr List.mem_cons_self
  obtain ⟨sq, hsearch, husq⟩ := h.valid.search_of_mem hu
  obtain ⟨hmem, hkey⟩ := Bucket.search_mem hsearch
  refine ⟨sq, hsearch, ?_⟩
  rw [← hsearch]
  apply List.find?_congr
  intro c hc
  rw [Bool.eq_iff_iff, List.any_eq_true, decide_eq_true_eq]
  constructor
  · rintro ⟨v, hv, href⟩
    have hvl : v ∈ u :: l := h.perm.mem_iff.mp (Bucket.mem_contents.mpr ⟨c, hc, hv⟩)
    have huv := List.inj_on_of_nodup_map h.refs hvl List.mem_cons_self (eq_of_beq href)
    rw [← h.valid.placed c hc v hv, huv]
  · intro hckey
    have hcsq := List.inj_on_of_nodup_map h.valid.keys hc hmem (hckey.trans hkey.symm)
    rw [hcsq]
    exact ⟨u, husq, beq_self_eq_true _⟩

/-- **An entry is taken out**, and the list of its quadword goes if it was the last one. -/
theorem unlinkUpdate_spec (h : sb.Holds (u :: l))
    (hlast : (∀ v ∈ l, v.addr ≠ u.addr) → vaddr &&& QWORD_MASK = u.addr) :
    ∃ StoreQ, unlinkUpdate u vaddr sb.StoreQ = .ok StoreQ ∧
      StoreBuffer.Holds ⟨StoreQ, sb.allocated⟩ l := by
  obtain ⟨sq, hsearch, hfind⟩ := find_list h
  obtain ⟨hmem, hkey⟩ := Bucket.search_mem hsearch
  have hrefs := h.refs
  rw [List.map_cons, List.nodup_cons] at hrefs
  -- the others of its quadword
  have hitems : sq.items.Perm (u :: l.filter fun v => v.addr = u.addr) := by
    rw [h.valid.items_eq hsearch]
    refine (h.perm.filter _).trans ?_
    rw [List.filter_cons_of_pos (by simp)]
  have hrest : (sq.items.filter fun sqe => sqe.ref != u.ref).Perm
      (l.filter fun v => v.addr = u.addr) := by
    refine (hitems.filter _).trans ?_
    rw [List.filter_cons_of_neg (by simp), List.filter_eq_self.mpr]
    intro v hv
    have hvl := (List.mem_filter.mp hv).1
    simp only [bne_iff_ne, ne_eq]
    intro href
    exact hrefs.1 (href ▸ List.mem_map_of_mem hvl)
  unfold unlinkUpdate
  rw [hfind]
  dsimp only
  rw [hkey]
  have hremoved (Q : List StqAddr) (hvalid : Bucket.Valid StqEntry.addr
      (fun u v => u.fetchnum ≤ v.fetchnum) Q) (hQ : (Bucket.contents Q).Perm l) :
      StoreBuffer.Holds ⟨Q, sb.allocated⟩ l :=
    ⟨hvalid, hQ, hrefs.2, fun v hv => h.allocated v (List.mem_cons_of_mem u hv)⟩
  by_cases hempty : (sq.items.filter fun sqe => sqe.ref != u.ref) = []
  · have hnil : (l.filter fun v => v.addr = u.addr) = [] := by
      rw [hempty] at hrest
      exact hrest.nil_eq.symm
    have halone : ∀ v ∈ l, v.addr ≠ u.addr := by simpa using List.filter_eq_nil_iff.mp hnil
    obtain ⟨hfound, hremove⟩ := h.valid.search_setItems hsearch []
    obtain ⟨hvalid, hperm⟩ := h.valid.leave hsearch
    rw [hempty, if_pos rfl, hlast halone, hfound]
    dsimp only
    rw [hremove]
    refine ⟨_, rfl, hremoved _ hvalid ?_⟩
    rw [hnil] at hitems
    have hall := (hperm.trans h.perm).symm.trans (hitems.append_left _)
    exact (List.perm_cons u).mp ((hall.trans List.perm_append_comm).symm)
  · have hplaced : ∀ v ∈ sq.items.filter (fun sqe => sqe.ref != u.ref), v.addr = u.addr := by
      intro v hv
      rw [h.valid.placed sq hmem v (List.mem_filter.mp hv).1, hkey]
    obtain ⟨hvalid, hperm⟩ := h.valid.exchange hsearch hempty hplaced
      ((h.valid.ordered sq hmem).filter _)
    rw [if_neg hempty]
    refine ⟨_, rfl, hremoved _ hvalid ?_⟩
    rw [List.perm_iff_count]
    intro v
    have hcount := hperm.count_eq v
    have hitemsCount := hitems.count_eq v
    have hrestCount := hrest.count_eq v
    have hall := h.perm.count_eq v
    simp only [List.count_append, List.count_cons] at hcount hitemsCount hrestCount hall
    omega

/-- The entries of a vector store are looked up by their own addresses. -/
theorem cleanupArray_spec {array : List StqEntry} (h : sb.Holds (array ++ l)) :
    ∃ StoreQ, cleanupArray array sb.StoreQ = .ok StoreQ ∧
      StoreBuffer.Holds ⟨StoreQ, sb.allocated⟩ l := by
  induction array generalizing sb with
  | nil => exact ⟨_, rfl, h⟩
  | cons u array ih =>
      obtain ⟨StoreQ, hunlink, hholds⟩ := unlinkUpdate_spec h fun _ => rfl
      obtain ⟨StoreQ', harray, hholds'⟩ := ih hholds
      refine ⟨StoreQ', ?_, hholds'⟩
      rw [cleanupArray, hunlink]
      exact harray

end AsimFeeder.Aint
