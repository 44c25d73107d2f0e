/-
The table of addresses keeps its rows, but not the marks of its records.

What a row is made of changes at one place at a time: an element comes in at the end, or
one goes out between its neighbours.  The elements of the other rows are framed.  That a
free element is found takes counting: if every element was in some row there would be as
many as there is space for.

`RESIZE` copies every field but `write_td`, and `ADD_VA` sets every field but `write_td`.
-/
import AsimFeeder.Mingo.DepTable
import AsimFeeder.Lib.Checks

namespace AsimFeeder.Mingo

open Lib VaTable

variable {t t' : VaTable} {ls : Nat → List Nat} {row i : Nat} {address : UInt64}

/-! ### Looking for an address -/

theorem find_eq {fuel : Nat} {start : Option Nat} {l : List Nat}
    (h : Links.Chain t.links.next start l) (hfuel : l.length < fuel) :
    t.find address fuel start = l.find? fun i => (t.data i).address = address := by
  induction l generalizing fuel start with
  | nil =>
      cases fuel with
      | zero => cases hfuel
      | succ fuel =>
          obtain rfl : start = none := h
          rfl
  | cons i l ih =>
      obtain ⟨rfl, hrest⟩ := h
      cases fuel with
      | zero => cases hfuel
      | succ fuel =>
          rw [VaTable.find, List.find?_cons]
          by_cases hi : (t.data i).address = address
          · rw [if_pos hi, decide_eq_true hi]
          · rw [if_neg hi, decide_eq_false hi]
            exact ih hrest (Nat.lt_of_succ_lt_succ hfuel)

theorem Rows.length_le (h : Rows t ls) (row : Nat) : (ls row).length ≤ t.capacity := by
  have hsub : (ls row).toFinset ⊆ Finset.range t.capacity := fun i hi =>
    Finset.mem_range.mpr (h.within row i (List.mem_toFinset.mp hi))
  have hcard := Finset.card_le_card hsub
  rwa [List.toFinset_card_of_nodup (h.nodup row), Finset.card_range] at hcard

theorem Rows.FIND_DEP (h : Rows t ls) (row : Nat) (address : UInt64) :
    t.FIND_DEP row address = (ls row).find? fun i => (t.data i).address = address := by
  unfold VaTable.FIND_DEP
  rw [h.head]
  exact find_eq (h.seg row).chain (Nat.lt_succ_of_le (h.length_le row))

/-! ### Looking for a free element -/

theorem advance_eq (h : i < t.capacity) : t.advance i = (i + 1) % t.capacity := by
  unfold advance
  by_cases hlast : i + 1 = t.capacity
  · rw [if_pos hlast, hlast, Nat.mod_self]
  · rw [if_neg hlast, Nat.mod_eq_of_lt (by omega)]

/-- The loop finds the first element that is not valid, or all that it has seen are. -/
theorem FIND_FREE_ELEMENT_spec (n : Nat) (h : t.allocateFrom < t.capacity) :
    (∃ j < n, ∃ i, i = (t.allocateFrom + j + 1) % t.capacity ∧
      t.FIND_FREE_ELEMENT n = (true, { t with allocateFrom := i }) ∧ t.valid i = false ∧
      ∀ k < j, t.valid ((t.allocateFrom + k + 1) % t.capacity) = true) ∨
    ∀ j < n, t.valid ((t.allocateFrom + j + 1) % t.capacity) = true := by
  induction n generalizing t with
  | zero => exact .inr fun j hj => absurd hj (Nat.not_lt_zero j)
  | succ n ih =>
      have hnext := advance_eq h
      have hlt : t.advance t.allocateFrom < t.capacity := by
        rw [hnext]
        exact Nat.mod_lt _ (by omega)
      rw [FIND_FREE_ELEMENT]
      dsimp only
      by_cases hfree : t.valid (t.advance t.allocateFrom) = false
      · rw [if_pos hfree]
        exact .inl ⟨0, Nat.succ_pos n, _, hnext, rfl, hfree, fun k hk => absurd hk (by omega)⟩
      · rw [if_neg hfree]
        -- what the rest of the loop sees, from the place before it
        have hplace : ∀ j, (t.advance t.allocateFrom + j + 1) % t.capacity
            = (t.allocateFrom + (j + 1) + 1) % t.capacity := by
          intro j
          rw [hnext, Nat.add_assoc, Nat.mod_add_mod]
          congr 1
          omega
        have hseen : ∀ m, (∀ k < m, t.valid ((t.advance t.allocateFrom + k + 1) % t.capacity)
            = true) → ∀ k < m + 1, t.valid ((t.allocateFrom + k + 1) % t.capacity) = true := by
          intro m hm k hk
          cases k with
          | zero =>
              rw [Nat.add_zero, ← hnext]
              exact Bool.not_eq_false _ ▸ hfree
          | succ k =>
              rw [← hplace k]
              exact hm k (by omega)
        rcases ih (t := { t with allocateFrom := t.advance t.allocateFrom }) hlt with
          ⟨j, hj, i, hi, hfound, hfree', hbefore⟩ | hall
        · exact .inl ⟨j + 1, by omega, i, hi.trans (hplace j), hfound, hfree', hseen j hbefore⟩
        · exact .inr (hseen n hall)

/-- If each element is in a row, there are as many as there is space for. -/
theorem Rows.exists_free (h : Rows t ls) (hspace : t.currentSize < t.capacity) :
    ∃ i < t.capacity, t.valid i = false := by
  by_contra hnone
  have hall : ∀ i < t.capacity, ∃ row, i ∈ ls row := by
    intro i hi
    refine (h.valid i hi).mp ?_
    by_contra hfree
    exact hnone ⟨i, hi, Bool.not_eq_true _ ▸ hfree⟩
  have hsub : Finset.range t.capacity ⊆
      (Finset.range t.rows).biUnion fun row => (ls row).toFinset := by
    intro i hi
    obtain ⟨row, hmem⟩ := hall i (Finset.mem_range.mp hi)
    have hrow : row < t.rows := by
      by_contra hout
      rw [h.outside row (by omega)] at hmem
      cases hmem
    exact Finset.mem_biUnion.mpr
      ⟨row, Finset.mem_range.mpr hrow, List.mem_toFinset.mpr hmem⟩
  have hcount : t.capacity ≤ t.currentSize :=
    calc t.capacity = (Finset.range t.capacity).card := (Finset.card_range _).symm
      _ ≤ ((Finset.range t.rows).biUnion fun row => (ls row).toFinset).card :=
          Finset.card_le_card hsub
      _ ≤ ∑ row ∈ Finset.range t.rows, (ls row).toFinset.card := Finset.card_biUnion_le
      _ ≤ ∑ row ∈ Finset.range t.rows, (ls row).length :=
          Finset.sum_le_sum fun row _ => List.toFinset_card_le _
      _ = t.currentSize := h.currentSize.symm
  omega

/-- So the loop finds one. -/
theorem Rows.FIND_FREE_ELEMENT (h : Rows t ls) (hspace : t.currentSize < t.capacity)
    (hcursor : t.allocateFrom < t.capacity) :
    ∃ i, t.FIND_FREE_ELEMENT t.capacity = (true, { t with allocateFrom := i }) ∧
      i < t.capacity ∧ Run.Slot t.valid t.capacity t.allocateFrom i := by
  rcases FIND_FREE_ELEMENT_spec t.capacity hcursor with
    ⟨j, hj, i, hi, hfound, hfree, hbefore⟩ | hseen
  · refine ⟨i, hfound, ?_, j, hj, hi, hfree, hbefore⟩
    rw [hi]
    exact Nat.mod_lt _ (by omega)
  · obtain ⟨i, hi, hfree⟩ := h.exists_free hspace
    exfalso
    have hvalid : t.valid i = true := by
      rcases Nat.lt_or_ge t.allocateFrom i with hlt | hge
      · have hj := hseen (i - t.allocateFrom - 1) (by omega)
        rwa [show t.allocateFrom + (i - t.allocateFrom - 1) + 1 = i by omega,
          Nat.mod_eq_of_lt hi] at hj
      · have hj := hseen (i + t.capacity - t.allocateFrom - 1) (by omega)
        rwa [show t.allocateFrom + (i + t.capacity - t.allocateFrom - 1) + 1 = i + t.capacity by
          omega, Nat.add_mod_right, Nat.mod_eq_of_lt hi] at hj
    rw [hfree] at hvalid
    cases hvalid

theorem Run.Slot.free {valid : Nat → Bool} {capacity cursor : Nat}
    (h : Run.Slot valid capacity cursor i) : i < capacity ∧ valid i = false := by
  obtain ⟨j, hj, hi, hfree, _⟩ := h
  exact ⟨hi ▸ Nat.mod_lt _ (by omega), hfree⟩

/-! ### One row changes -/

theorem sum_length_update (ls : Nat → List Nat) {n : Nat} (hrow : row < n) (l : List Nat) :
    (∑ row' ∈ Finset.range n, (Function.update ls row l row').length) + (ls row).length
      = (∑ row' ∈ Finset.range n, (ls row').length) + l.length := by
  have hmem := Finset.mem_range.mpr hrow
  rw [← Finset.add_sum_erase _ _ hmem, ← Finset.add_sum_erase _ (fun row' => (ls row').length) hmem,
    Function.update_self]
  have hsame : ∑ row' ∈ (Finset.range n).erase row, (Function.update ls row l row').length
      = ∑ row' ∈ (Finset.range n).erase row, (ls row').length :=
    Finset.sum_congr rfl fun row' h => by rw [Function.update_of_ne (Finset.ne_of_mem_erase h)]
  omega

/-- One row has other elements, which come from this row or from none. -/
structure Changed (t t' : VaTable) (ls : Nat → List Nat) (row : Nat) (l : List Nat) : Prop where
  seg : Links.Seg t'.links none l none
  frame : ∀ row', row' ≠ row → Links.Seg t'.links none (ls row') none
  head : t'.head = Function.update t.head row l.head?
  tail : t'.tail = Function.update t.tail row l.getLast?
  rowsize : t'.rowsize = Function.update t.rowsize row l.length
  nodup : l.Nodup
  fresh : ∀ i ∈ l, i ∈ ls row ∨ ∀ row', i ∉ ls row'
  within : ∀ i ∈ l, i < t.capacity
  valid : ∀ i < t.capacity, t'.valid i = true ↔ i ∈ l ∨ t.valid i = true ∧ i ∉ ls row
  currentSize : t'.currentSize + (ls row).length = t.currentSize + l.length
  rows : t'.rows = t.rows
  capacity : t'.capacity = t.capacity

theorem Rows.change {l : List Nat} (h : Rows t ls) (hrow : row < t.rows)
    (hc : Changed t t' ls row l) : Rows t' (Function.update ls row l) := by
  have hself : Function.update ls row l row = l := Function.update_self ..
  have hother : ∀ row', row' ≠ row → Function.update ls row l row' = ls row' :=
    fun row' hr => Function.update_of_ne hr ..
  refine ⟨fun row' => ?_, fun row' => ?_, fun row' => ?_, fun row' => ?_, fun row' => ?_,
    fun row₁ row₂ j h1 h2 => ?_, fun row' hout => ?_, fun row' j hj => ?_, fun j hj => ?_, ?_⟩
  · by_cases hr : row' = row
    · rw [hr, hself]
      exact hc.seg
    · rw [hother row' hr]
      exact hc.frame row' hr
  · rw [hc.head]
    by_cases hr : row' = row
    · rw [hr, hself, Function.update_self]
    · rw [hother row' hr, Function.update_of_ne hr, h.head]
  · rw [hc.tail]
    by_cases hr : row' = row
    · rw [hr, hself, Function.update_self]
    · rw [hother row' hr, Function.update_of_ne hr, h.tail]
  · rw [hc.rowsize]
    by_cases hr : row' = row
    · rw [hr, hself, Function.update_self]
    · rw [hother row' hr, Function.update_of_ne hr, h.rowsize]
  · by_cases hr : row' = row
    · rw [hr, hself]
      exact hc.nodup
    · rw [hother row' hr]
      exact h.nodup row'
  · by_cases hr₁ : row₁ = row <;> by_cases hr₂ : row₂ = row
    · rw [hr₁, hr₂]
    · rw [hr₁, hself] at h1
      rw [hother row₂ hr₂] at h2
      rcases hc.fresh j h1 with hold | hnew
      · rw [hr₁]
        exact h.apart row row₂ j hold h2
      · exact absurd h2 (hnew row₂)
    · rw [hother row₁ hr₁] at h1
      rw [hr₂, hself] at h2
      rcases hc.fresh j h2 with hold | hnew
      · rw [hr₂]
        exact h.apart row₁ row j h1 hold
      · exact absurd h1 (hnew row₁)
    · rw [hother row₁ hr₁] at h1
      rw [hother row₂ hr₂] at h2
      exact h.apart row₁ row₂ j h1 h2
  · rw [hc.rows] at hout
    rw [hother row' (by omega)]
    exact h.outside row' hout
  · rw [hc.capacity]
    by_cases hr : row' = row
    · rw [hr, hself] at hj
      exact hc.within j hj
    · rw [hother row' hr] at hj
      exact h.within row' j hj
  · rw [hc.capacity] at hj
    rw [hc.valid j hj, h.valid j hj]
    constructor
    · rintro (hmem | ⟨⟨row', hmem⟩, hnot⟩)
      · exact ⟨row, by rwa [hself]⟩
      · have hr : row' ≠ row := by
          rintro rfl
          exact hnot hmem
        exact ⟨row', by rwa [hother row' hr]⟩
    · rintro ⟨row', hmem⟩
      by_cases hr : row' = row
      · rw [hr, hself] at hmem
        exact .inl hmem
      · rw [hother row' hr] at hmem
        exact .inr ⟨⟨row', hmem⟩, fun hold => hr (h.apart row' row j hmem hold)⟩
  · have hsum := sum_length_update ls hrow l
    have hsize := hc.currentSize
    have hwas := h.currentSize
    rw [hc.rows]
    omega

/-! ### What `append` sets -/

section

variable (t) (address lastThread lastIcount : UInt64) (row : Nat)

theorem data_append :
    (t.append address lastThread lastIcount row).data = Function.update t.data t.allocateFrom
      ⟨address, lastThread.toUInt32, lastIcount, (t.data t.allocateFrom).writeTd⟩ := by
  unfold append
  dsimp only
  split <;> rfl

theorem valid_append : (t.append address lastThread lastIcount row).valid =
    Function.update t.valid t.allocateFrom true := by
  unfold append
  dsimp only
  split <;> rfl

theorem tail_append : (t.append address lastThread lastIcount row).tail =
    Function.update t.tail row (some t.allocateFrom) := by
  unfold append
  dsimp only
  split <;> rfl

theorem rowsize_append : (t.append address lastThread lastIcount row).rowsize =
    Function.update t.rowsize row (t.rowsize row + 1) := by
  unfold append
  dsimp only
  split <;> rfl

theorem currentSize_append :
    (t.append address lastThread lastIcount row).currentSize = t.currentSize + 1 := by
  unfold append
  dsimp only
  split <;> rfl

theorem rows_append : (t.append address lastThread lastIcount row).rows = t.rows := by
  unfold append
  dsimp only
  split <;> rfl

theorem capacity_append : (t.append address lastThread lastIcount row).capacity = t.capacity := by
  unfold append
  dsimp only
  split <;> rfl

end

theorem Rows.rowsize_eq_zero (h : Rows t ls) : t.rowsize row = 0 ↔ ls row = [] := by
  rw [h.rowsize, List.length_eq_zero_iff]

theorem Rows.head_append (h : Rows t ls) (address lastThread lastIcount : UInt64) (row : Nat) :
    (t.append address lastThread lastIcount row).head =
      Function.update t.head row (ls row ++ [t.allocateFrom]).head? := by
  unfold append
  dsimp only
  by_cases hempty : t.rowsize row = 0
  · rw [if_pos hempty, h.rowsize_eq_zero.mp hempty]
    rfl
  · rw [if_neg hempty, List.head?_append_of_ne_nil _ (mt h.rowsize_eq_zero.mpr hempty), ← h.head,
      Function.update_eq_self]

/-- The new element is joined to the last one of the row, if there is one. -/
theorem Rows.links_append (h : Rows t ls) (address lastThread lastIcount : UInt64) (row : Nat) :
    (t.append address lastThread lastIcount row).links =
      ((t.links.setPrev t.allocateFrom (ls row).getLast?).setNext t.allocateFrom none).joinRight
        (ls row).getLast? (some t.allocateFrom) := by
  unfold append
  dsimp only
  by_cases hempty : t.rowsize row = 0
  · rw [if_pos hempty, h.rowsize_eq_zero.mp hempty]
    rfl
  · rw [if_neg hempty, h.tail]

/-- The element at the free place comes in at the end of the row. -/
theorem Rows.append (h : Rows t ls) (hrow : row < t.rows) (hfree : t.valid t.allocateFrom = false)
    (hi : t.allocateFrom < t.capacity) (address lastThread lastIcount : UInt64) :
    Rows (t.append address lastThread lastIcount row)
      (Function.update ls row (ls row ++ [t.allocateFrom])) := by
  have hnot : ∀ row', t.allocateFrom ∉ ls row' := by
    intro row' hmem
    rw [(h.valid _ hi).mpr ⟨row', hmem⟩] at hfree
    cases hfree
  have hnodup : (ls row ++ [t.allocateFrom]).Nodup := by
    rw [List.nodup_append]
    refine ⟨h.nodup row, List.nodup_singleton _, fun i hi j hj heq => ?_⟩
    rw [List.mem_singleton.mp hj] at heq
    exact hnot row (heq ▸ hi)
  have hlinks := h.links_append address lastThread lastIcount row
  refine h.change hrow
    { seg := ?_
      frame := fun row' hr => ?_
      head := h.head_append address lastThread lastIcount row
      tail := ?_
      rowsize := ?_
      nodup := hnodup
      fresh := fun i hmem => ?_
      within := fun i hmem => ?_
      valid := fun i hin => ?_
      currentSize := ?_
      rows := rows_append ..
      capacity := capacity_append .. }
  · have hfresh := ((h.seg row).setPrev (n := (ls row).getLast?) (hnot row)).setNext (n := none)
      (hnot row)
    have hbefore : Links.Seg ((t.links.setPrev t.allocateFrom (ls row).getLast?).setNext
        t.allocateFrom none) none (ls row ++ []) none := by rwa [List.append_nil]
    rw [hlinks]
    exact hbefore.insert hnodup Links.setNext_next_self Links.setPrev_prev_self
  · rw [hlinks]
    refine (((h.seg row').setPrev (hnot row')).setNext (hnot row')).frameRight ?_
    intro j hj hmem
    exact hr (h.apart row' row j hmem (List.mem_of_mem_getLast? hj))
  · rw [tail_append, List.getLast?_concat]
  · rw [rowsize_append, h.rowsize, List.length_append, List.length_singleton]
  · rcases List.mem_append.mp hmem with hold | hnew
    · exact .inl hold
    · rw [List.mem_singleton.mp hnew]
      exact .inr hnot
  · rcases List.mem_append.mp hmem with hold | hnew
    · exact h.within row i hold
    · rw [List.mem_singleton.mp hnew]
      exact hi
  · rw [valid_append]
    by_cases hnew : i = t.allocateFrom
    · subst hnew
      rw [Function.update_self]
      exact ⟨fun _ => .inl (by simp), fun _ => rfl⟩
    · rw [Function.update_of_ne hnew]
      constructor
      · intro hold
        by_cases hmem : i ∈ ls row
        · exact .inl (List.mem_append_left _ hmem)
        · exact .inr ⟨hold, hmem⟩
      · rintro (hmem | ⟨hold, -⟩)
        · rcases List.mem_append.mp hmem with hold | hlast
          · exact (h.valid i hin).mpr ⟨row, hold⟩
          · exact absurd (List.mem_singleton.mp hlast) hnew
        · exact hold
  · rw [currentSize_append, List.length_append, List.length_singleton]
    omega

/-- An element goes out, and its neighbours are joined. -/
theorem Rows.remove {xs ys : List Nat} (h : Rows t ls) (hrow : row < t.rows)
    (hl : ls row = xs ++ i :: ys)
    (hlinks : t'.links = (t.links.joinRight (t.links.prev i) (t.links.next i)).joinLeft
      (t.links.next i) (t.links.prev i))
    (hhead : t'.head = Function.update t.head row
      (if t.links.prev i = none then t.links.next i else t.head row))
    (htail : t'.tail = Function.update t.tail row
      (if t.links.next i = none then t.links.prev i else t.tail row))
    (hvalid : t'.valid = Function.update t.valid i false)
    (hrowsize : t'.rowsize = Function.update t.rowsize row (t.rowsize row - 1))
    (hsize : t'.currentSize = t.currentSize - 1) (hrows : t'.rows = t.rows)
    (hcapacity : t'.capacity = t.capacity) : Rows t' (Function.update ls row (xs ++ ys)) := by
  have hseg := h.seg row
  have hnodup := h.nodup row
  rw [hl] at hseg hnodup
  obtain ⟨hprev, hnext⟩ := hseg.at
  rw [Links.last_none] at hprev
  rw [Links.first_none] at hnext
  rw [hprev, hnext] at hlinks
  rw [hprev, hnext, h.head, hl] at hhead
  rw [hprev, hnext, h.tail, hl] at htail
  have hperm : (xs ++ i :: ys).Perm (i :: (xs ++ ys)) := List.perm_middle
  obtain ⟨hnot, hrest⟩ := List.nodup_cons.mp (hperm.nodup_iff.mp hnodup)
  have hmem : ∀ j, j ∈ ls row ↔ j = i ∨ j ∈ xs ++ ys := by
    intro j
    rw [hl, hperm.mem_iff, List.mem_cons]
  have hcount : (ls row).length = (xs ++ ys).length + 1 := by rw [hl, hperm.length_eq]; rfl
  refine h.change hrow
    { seg := ?_
      frame := fun row' hr => ?_
      head := ?_
      tail := ?_
      rowsize := ?_
      nodup := hrest
      fresh := fun j hj => .inl ((hmem j).mpr (.inr hj))
      within := fun j hj => h.within row j ((hmem j).mpr (.inr hj))
      valid := fun j hj => ?_
      currentSize := ?_
      rows := hrows
      capacity := hcapacity }
  · rw [hlinks]
    exact hseg.remove hnodup
  · rw [hlinks]
    refine ((h.seg row').frameRight fun j hj hold => ?_).frameLeft fun j hj hold => ?_
    · refine hr (h.apart row' row j hold ((hmem j).mpr (.inr ?_)))
      exact List.mem_append_left _ (List.mem_of_mem_getLast? hj)
    · refine hr (h.apart row' row j hold ((hmem j).mpr (.inr ?_)))
      exact List.mem_append_right _ (List.mem_of_mem_head? hj)
  · rw [hhead]
    congr 1
    cases xs with
    | nil => simp
    | cons a xs => simp [List.getLast?_cons]
  · rw [htail]
    congr 1
    cases ys with
    | nil => simp
    | cons b ys => simp [List.getLast?_cons]
  · rw [hrowsize, h.rowsize, hcount]
    rfl
  · rw [hvalid]
    by_cases hji : j = i
    · subst hji
      rw [Function.update_self]
      refine ⟨fun hf => (by cases hf), ?_⟩
      rintro (hin | ⟨-, hout⟩)
      · exact absurd hin hnot
      · exact absurd ((hmem j).mpr (.inl rfl)) hout
    · rw [Function.update_of_ne hji]
      constructor
      · intro hold
        by_cases hin : j ∈ xs ++ ys
        · exact .inl hin
        · exact .inr ⟨hold, fun hj' => hin (((hmem j).mp hj').resolve_left hji)⟩
      · rintro (hin | ⟨hold, -⟩)
        · exact (h.valid j hj).mpr ⟨row, (hmem j).mpr (.inr hin)⟩
        · exact hold
  · have hpos : 0 < t.currentSize := by
      have hle := Finset.single_le_sum (f := fun row' => (ls row').length)
        (fun _ _ => Nat.zero_le _) (Finset.mem_range.mpr hrow)
      rw [← h.currentSize] at hle
      omega
    rw [hsize, hcount]
    omega

/-! ### The calls -/

/-- What holds of a table all the time. -/
structure Sound (t : VaTable) (ls : Nat → List Nat) : Prop extends Rows t ls where
  cursor : t.allocateFrom = 0 ∨ t.allocateFrom < t.capacity
  capacity_lt : t.capacity < 2 ^ 32
  resize_pos : 0 < t.resize
  resize_lt : t.resize < 2 ^ 32

/-- Where the table looks for space, and how much there is. -/
structure SameSpace (t t' : VaTable) : Prop where
  allocateFrom : t'.allocateFrom = t.allocateFrom
  capacity : t'.capacity = t.capacity
  resize : t'.resize = t.resize

theorem Sound.of_rows {ls' : Nat → List Nat} (h : Sound t ls) (hrows : Rows t' ls')
    (hsame : SameSpace t t') : Sound t' ls' := by
  refine ⟨hrows, ?_, ?_, ?_, ?_⟩
  · rw [hsame.allocateFrom, hsame.capacity]
    exact h.cursor
  · rw [hsame.capacity]
    exact h.capacity_lt
  · rw [hsame.resize]
    exact h.resize_pos
  · rw [hsame.resize]
    exact h.resize_lt

/-- What a table that may have grown still has. -/
structure Grown (t t' : VaTable) : Prop where
  space : t'.currentSize < t'.capacity
  rows : t'.rows = t.rows
  data : ∀ i < t.capacity, t'.data i = { t.data i with writeTd := (t'.data i).writeTd }

/-- A table that is full has the space that `RESIZE` gives it. -/
theorem grow_eq_ok {memory : Nat → Marks} (hgrow : t.grow memory = .ok t') :
    (t.currentSize = t.capacity ∧
      t.RESIZE ((t.capacity + t.resize) % 2 ^ 32) memory = some t') ∨
    (t.currentSize < t.capacity ∧ t' = t) := by
  unfold VaTable.grow at hgrow
  by_cases hfull : t.currentSize = t.capacity
  · rw [if_pos hfull] at hgrow
    refine .inl ⟨hfull, ?_⟩
    cases hresize : t.RESIZE ((t.capacity + t.resize) % 2 ^ 32) memory with
    | none =>
        rw [hresize] at hgrow
        cases hgrow
    | some t₁ =>
        rw [hresize] at hgrow
        cases hgrow
        rfl
  · rw [if_neg hfull] at hgrow
    obtain ⟨hmore, hgrow⟩ := check_eq_ok hgrow
    cases hgrow
    exact .inr ⟨by omega, rfl⟩

theorem RESIZE_eq_some {size : Nat} {memory : Nat → Marks} (h : t.RESIZE size memory = some t') :
    t.currentSize ≤ size ∧ t' =
      { t with
        data := fun i =>
          if i < t.capacity then { t.data i with writeTd := memory i } else ⟨0, 0, 0, memory i⟩
        links :=
          { next := fun i => if i < t.capacity then t.links.next i else none
            prev := fun i => if i < t.capacity then t.links.prev i else none }
        valid := fun i => if i < t.capacity then t.valid i else false
        capacity := size } := by
  unfold VaTable.RESIZE at h
  by_cases hsmall : size < t.currentSize
  · rw [if_pos hsmall] at h
    cases h
  · rw [if_neg hsmall] at h
    by_cases hlimit : t.limit < size
    · rw [if_pos hlimit] at h
      cases h
    · rw [if_neg hlimit] at h
      cases h
      exact ⟨Nat.le_of_not_lt hsmall, rfl⟩

theorem Sound.grow {memory : Nat → Marks} (h : Sound t ls) (hgrow : t.grow memory = .ok t') :
    Sound t' ls ∧ Grown t t' := by
  have hcapacity := h.capacity_lt
  have hpos := h.resize_pos
  have hresize := h.resize_lt
  rcases grow_eq_ok hgrow with ⟨hfull, hgrown⟩ | ⟨hspace, rfl⟩
  · obtain ⟨hsize, rfl⟩ := RESIZE_eq_some hgrown
    -- the sum has not wrapped
    have hmore : t.capacity < (t.capacity + t.resize) % 2 ^ 32 := by omega
    have hcursor := h.cursor
    refine ⟨⟨⟨fun row => ?_, h.head, h.tail, h.rowsize, h.nodup, h.apart, h.outside,
      fun row i hi => Nat.lt_trans (h.within row i hi) hmore, fun i hi => ?_, h.currentSize⟩,
      ?_, Nat.mod_lt _ (by decide), hpos, hresize⟩, ⟨?_, rfl, fun i hi => ?_⟩⟩
    · exact (h.seg row).congr (fun i hi => if_pos (h.within row i hi))
        fun i hi => if_pos (h.within row i hi)
    · show (if i < t.capacity then t.valid i else false) = true ↔ _
      by_cases hold : i < t.capacity
      · rw [if_pos hold]
        exact h.valid i hold
      · rw [if_neg hold]
        refine ⟨fun hf => (by cases hf), ?_⟩
        rintro ⟨row, hmem⟩
        exact absurd (h.within row i hmem) hold
    · exact hcursor.imp id fun hlt => Nat.lt_trans hlt hmore
    · exact hfull ▸ hmore
    · show (if i < t.capacity then _ else _) = { t.data i with
        writeTd := (if i < t.capacity then { t.data i with writeTd := memory i }
          else ⟨0, 0, 0, memory i⟩ : VaAddress).writeTd }
      rw [if_pos hi]
  · exact ⟨h, hspace, rfl, fun _ _ => rfl⟩

/-- Either an assertion fails, which is not the one about the leak, or a free element of the
table that may have grown is put at the end of the row. -/
theorem Sound.ADD_VA (h : Sound t ls) (address lastThread lastIcount : UInt64) (row : Nat)
    (memory : Nat → Marks) :
    (∃ e, e ≠ leak ∧ t.ADD_VA address lastThread lastIcount row memory = .error e) ∨
    ∃ t₁ i, row < t.rows ∧ t.grow memory = .ok t₁ ∧
      i < t₁.capacity ∧ Run.Slot t₁.valid t₁.capacity t₁.allocateFrom i ∧
      t.ADD_VA address lastThread lastIcount row memory
        = .ok (append { t₁ with allocateFrom := i } address lastThread lastIcount row) := by
  unfold VaTable.ADD_VA
  by_cases hrow : t.rows ≤ row
  · rw [if_pos hrow]
    exact .inl ⟨_, by simp [leak], rfl⟩
  · rw [if_neg hrow]
    cases hgrow : t.grow memory with
    | error e =>
        refine .inl ⟨e, ?_, rfl⟩
        rintro rfl
        unfold VaTable.grow at hgrow
        split at hgrow
        · split at hgrow
          · cases hgrow
          · simp [leak] at hgrow
        · split at hgrow
          · simp [leak] at hgrow
          · cases hgrow
    | ok t₁ =>
        obtain ⟨hsound, hgrown⟩ := h.grow hgrow
        have hcursor : t₁.allocateFrom < t₁.capacity := by
          have hspace := hgrown.space
          rcases hsound.cursor with hzero | hlt <;> omega
        obtain ⟨i, hfound, hi, hslot⟩ := hsound.toRows.FIND_FREE_ELEMENT hgrown.space hcursor
        refine .inr ⟨t₁, i, by omega, rfl, hi, hslot, ?_⟩
        simp only [bind, Except.bind, hfound]

theorem sameSpace_append (address lastThread lastIcount : UInt64) (row : Nat) :
    SameSpace t (t.append address lastThread lastIcount row) := by
  unfold append
  dsimp only
  split <;> exact ⟨rfl, rfl, rfl⟩

theorem Rows.REMOVE_DEP_HEAD (h : Rows t ls) (hok : t.REMOVE_DEP_HEAD row address = .ok t') :
    ∃ i ys, ls row = i :: ys ∧ Rows t' (Function.update ls row ys) ∧ t'.data = t.data ∧
      SameSpace t t' := by
  obtain ⟨hrow, hok⟩ := check_eq_ok hok
  obtain ⟨-, hok⟩ := check_eq_ok hok
  cases hhead : t.head row with
  | none =>
      rw [hhead] at hok
      cases hok
  | some i =>
      rw [hhead] at hok
      obtain ⟨-, hok⟩ := check_eq_ok hok
      obtain ⟨hprev, hok⟩ := check_eq_ok hok
      rw [not_not] at hprev
      rw [h.head] at hhead
      obtain ⟨ys, hl⟩ := List.head?_eq_some_iff.mp hhead
      have hremove := @Rows.remove t t' ls row i [] ys h (Nat.lt_of_not_le hrow) hl
      rw [hprev] at hremove
      refine ⟨i, ys, hl, ?_⟩
      dsimp only at hok
      cases hnext : t.links.next i with
      | none =>
          rw [hnext] at hok hremove
          obtain ⟨-, hok⟩ := check_eq_ok hok
          cases hok
          exact ⟨hremove rfl rfl rfl rfl rfl rfl rfl rfl, rfl, rfl, rfl, rfl⟩
      | some j =>
          rw [hnext] at hok hremove
          obtain ⟨-, hok⟩ := check_eq_ok hok
          cases hok
          refine ⟨hremove rfl rfl ?_ rfl rfl rfl rfl rfl, rfl, rfl, rfl, rfl⟩
          rw [if_neg (by simp), Function.update_eq_self]
          rfl

theorem Rows.REMOVE_DEP_MID (h : Rows t ls) (hok : t.REMOVE_DEP_MID row address = .ok t') :
    ∃ xs i ys, ls row = xs ++ i :: ys ∧ (t.data i).address = address ∧
      (∀ j ∈ xs, (t.data j).address ≠ address) ∧
      Rows t' (Function.update ls row (xs ++ ys)) ∧ t'.data = t.data ∧ SameSpace t t' := by
  obtain ⟨hrow, hok⟩ := check_eq_ok hok
  obtain ⟨-, hok⟩ := check_eq_ok hok
  cases hfind : t.FIND_DEP row address with
  | none =>
      rw [hfind] at hok
      cases hok
  | some i =>
      rw [hfind] at hok
      rw [h.FIND_DEP] at hfind
      obtain ⟨hi, xs, ys, hl, hbefore⟩ := List.find?_eq_some_iff_append.mp hfind
      rw [decide_eq_true_eq] at hi
      have hremove := @Rows.remove t t' ls row i xs ys h (Nat.lt_of_not_le hrow) hl
      have hseg := h.seg row
      rw [hl] at hseg
      obtain ⟨hprev, hnext⟩ := hseg.at
      refine ⟨xs, i, ys, hl, hi, fun j hj => by simpa using hbefore j hj, ?_⟩
      dsimp only at hok
      by_cases hone : t.rowsize row = 1
      · rw [if_pos hone] at hok
        cases hok
        rw [h.rowsize, hl, List.length_append, List.length_cons] at hone
        obtain rfl : xs = [] := List.length_eq_zero_iff.mp (by omega)
        obtain rfl : ys = [] := List.length_eq_zero_iff.mp (by omega)
        rw [hprev, hnext] at hremove
        exact ⟨hremove rfl rfl rfl rfl rfl rfl rfl rfl, rfl, rfl, rfl, rfl⟩
      · rw [if_neg hone] at hok
        cases hok
        refine ⟨hremove rfl ?_ ?_ rfl rfl rfl rfl rfl, rfl, rfl, rfl, rfl⟩
        · show (if t.links.prev i = none then Function.update t.head row (t.links.next i)
            else t.head) = _
          split
          · rfl
          · rw [Function.update_eq_self]
        · show (if t.links.next i = none then Function.update t.tail row (t.links.prev i)
            else t.tail) = _
          split
          · rfl
          · rw [Function.update_eq_self]

/-! ### The records -/

/-- The table has the records. -/
structure Stores (t : VaTable) (s : Records) (ls : Nat → List Nat) : Prop extends Sound t ls where
  records : ∀ row, (ls row).map t.data = s row

variable {s : Records}

theorem map_update_of_not_mem {l : List Nat} {f : Nat → VaAddress} {e : VaAddress} (h : i ∉ l) :
    l.map (Function.update f i e) = l.map f := by
  refine List.map_congr_left fun j hj => ?_
  have hne : j ≠ i := by
    rintro rfl
    exact h hj
  exact Function.update_of_ne hne ..

/-- One row has other records. -/
theorem Stores.change {l : List Nat} {es : List VaAddress} (h : Stores t s ls)
    (hsound : Sound t' (Function.update ls row l)) (hl : l.map t'.data = es)
    (hothers : ∀ row', row' ≠ row → (ls row').map t'.data = (ls row').map t.data) :
    Stores t' (Function.update s row es) (Function.update ls row l) := by
  refine ⟨hsound, fun row' => ?_⟩
  by_cases hr : row' = row
  · rw [hr, Function.update_self, Function.update_self]
    exact hl
  · rw [Function.update_of_ne hr, Function.update_of_ne hr, hothers row' hr]
    exact h.records row'

/-- The marks of a table that may have grown are those of the table before, and of the memory
it has got. -/
theorem marks_of_careful {s : Records} {lastThread lastIcount : UInt64} {memory : Nat → Marks}
    (hcareful : Run.careful ⟨t, s⟩ (.ADD_VA address lastThread lastIcount row memory))
    (hgrow : t.grow memory = .ok t') :
    (∀ i < t.capacity, t.valid i = true → (t'.data i).writeTd = (t.data i).writeTd) ∧
    ∀ i, Run.Slot t'.valid t'.capacity t'.allocateFrom i → (t'.data i).writeTd = noMarks := by
  dsimp only [Run.careful] at hcareful
  rcases grow_eq_ok hgrow with ⟨hfull, hgrown⟩ | ⟨hspace, rfl⟩
  · rw [if_pos hfull] at hcareful
    obtain ⟨hkept, hnew⟩ := hcareful
    obtain ⟨-, rfl⟩ := RESIZE_eq_some hgrown
    refine ⟨fun i hi hvalid => ?_, fun i hslot => ?_⟩
    · show (if i < t.capacity then _ else _ : VaAddress).writeTd = _
      rw [if_pos hi]
      exact hkept i hi hvalid
    · have hmemory := hnew i hslot
      show (if i < t.capacity then _ else _ : VaAddress).writeTd = _
      split <;> exact hmemory
  · rw [if_neg hspace.ne] at hcareful
    exact ⟨fun _ _ _ => rfl, hcareful⟩

/-- **What is added is the last record of its row, if the marks are right.** -/
theorem Stores.ADD_VA {lastThread lastIcount : UInt64} {memory : Nat → Marks} (h : Stores t s ls)
    (hok : t.ADD_VA address lastThread lastIcount row memory = .ok t')
    (hcareful : Run.careful ⟨t, s⟩ (.ADD_VA address lastThread lastIcount row memory)) :
    ∃ ls', Stores t' (Function.update s row
      (s row ++ [⟨address, lastThread.toUInt32, lastIcount, noMarks⟩])) ls' := by
  rcases h.toSound.ADD_VA address lastThread lastIcount row memory with
    ⟨e, -, herr⟩ | ⟨t₁, i, hrow, hgrow, hi, hslot, hadd⟩
  · rw [herr] at hok
    cases hok
  · rw [hadd] at hok
    cases hok
    obtain ⟨hsound, hgrown⟩ := h.toSound.grow hgrow
    obtain ⟨hkept, hmarks⟩ := marks_of_careful hcareful hgrow
    have hnew := hmarks i hslot
    have hfree := hslot.free.2
    have hrows₁ : Rows { t₁ with allocateFrom := i } ls :=
      ⟨hsound.seg, hsound.head, hsound.tail, hsound.rowsize, hsound.nodup, hsound.apart,
        hsound.outside, hsound.within, hsound.valid, hsound.currentSize⟩
    have hsound₁ : Sound { t₁ with allocateFrom := i } ls :=
      ⟨hrows₁, .inr hi, hsound.capacity_lt, hsound.resize_pos, hsound.resize_lt⟩
    have hrows := hrows₁.append (by rw [hgrown.rows]; exact hrow) hfree hi address lastThread
      lastIcount
    have hnot : ∀ row', i ∉ ls row' := by
      intro row' hmem
      rw [(hsound.valid i hi).mpr ⟨row', hmem⟩] at hfree
      cases hfree
    -- what was there is what it was, the marks too
    have hsame : ∀ row', (ls row').map (append { t₁ with allocateFrom := i } address lastThread
        lastIcount row).data = (ls row').map t.data := by
      intro row'
      rw [data_append, map_update_of_not_mem (hnot row')]
      refine List.map_congr_left fun j hj => ?_
      have hin := h.within row' j hj
      rw [hgrown.data j hin, hkept j hin ((h.valid j hin).mpr ⟨row', hj⟩)]
    refine ⟨_, h.change (hsound₁.of_rows hrows (sameSpace_append ..)) ?_ fun row' _ => hsame row'⟩
    rw [List.map_append, hsame, h.records, List.map_singleton, data_append, Function.update_self]
    dsimp only
    rw [hnew]

theorem Stores.REMOVE_DEP_HEAD (h : Stores t s ls)
    (hok : t.REMOVE_DEP_HEAD row address = .ok t') :
    ∃ ls', Stores t' (Function.update s row (s row).tail) ls' := by
  obtain ⟨i, ys, hl, hrows, hdata, hspace⟩ := h.toRows.REMOVE_DEP_HEAD hok
  refine ⟨_, h.change (h.toSound.of_rows hrows hspace) ?_ fun row' _ => by rw [hdata]⟩
  rw [hdata, ← h.records, hl]
  rfl

theorem Stores.REMOVE_DEP_MID (h : Stores t s ls) (hok : t.REMOVE_DEP_MID row address = .ok t') :
    ∃ ls', Stores t' (Function.update s row ((s row).eraseP fun e => e.address = address)) ls' := by
  obtain ⟨xs, i, ys, hl, hi, hbefore, hrows, hdata, hspace⟩ := h.toRows.REMOVE_DEP_MID hok
  refine ⟨_, h.change (h.toSound.of_rows hrows hspace) ?_ fun row' _ => by rw [hdata]⟩
  have herased : ((t.data i :: ys.map t.data).eraseP fun e => e.address = address)
      = ys.map t.data := List.eraseP_cons_of_pos (by simpa using hi)
  rw [hdata, ← h.records, hl, List.map_append, List.map_append, List.map_cons,
    List.eraseP_append_right, herased]
  intro e he
  obtain ⟨j, hj, rfl⟩ := List.mem_map.mp he
  simpa using hbefore j hj

theorem replaceFirst_split {as bs : List VaAddress} {e e' : VaAddress} (he' : e'.address = address)
    (has : ∀ a ∈ as, a.address ≠ address) :
    replaceFirst address e (as ++ e' :: bs) = as ++ e :: bs := by
  induction as with
  | nil => exact if_pos he'
  | cons a as ih =>
      rw [List.cons_append, replaceFirst, if_neg (has a List.mem_cons_self),
        ih fun b hb => has b (List.mem_cons_of_mem a hb)]
      rfl

theorem replaceFirst_of_none {es : List VaAddress} {e : VaAddress}
    (hes : ∀ a ∈ es, a.address ≠ address) : replaceFirst address e es = es := by
  induction es with
  | nil => rfl
  | cons a es ih =>
      rw [replaceFirst, if_neg (hes a List.mem_cons_self),
        ih fun b hb => hes b (List.mem_cons_of_mem a hb)]

/-- What is stored through the record of an address is found there. -/
theorem Stores.update (h : Stores t s ls) {e : VaAddress}
    (hok : Call.exec t (.update row address e) = .ok t') :
    ∃ ls', Stores t' (Function.update s row (replaceFirst address e (s row))) ls' := by
  dsimp only [Call.exec] at hok
  rw [h.toRows.FIND_DEP] at hok
  cases hfind : (ls row).find? fun i => (t.data i).address = address with
  | none =>
      rw [hfind] at hok
      cases hok
      have hnone : ∀ e ∈ s row, e.address ≠ address := by
        intro e he
        rw [← h.records] at he
        obtain ⟨j, hj, rfl⟩ := List.mem_map.mp he
        simpa using List.find?_eq_none.mp hfind j hj
      rw [replaceFirst_of_none hnone, Function.update_eq_self]
      exact ⟨ls, h⟩
  | some i =>
      rw [hfind] at hok
      cases hok
      obtain ⟨hi, xs, ys, hl, hbefore⟩ := List.find?_eq_some_iff_append.mp hfind
      rw [decide_eq_true_eq] at hi
      have hnodup := h.nodup row
      rw [hl] at hnodup
      have hnot := (List.nodup_cons.mp (List.perm_middle.nodup_iff.mp hnodup)).1
      have hrows : Rows (t.store i e) ls :=
        ⟨h.seg, h.head, h.tail, h.rowsize, h.nodup, h.apart, h.outside, h.within, h.valid,
          h.currentSize⟩
      have hsound : Sound (t.store i e) ls := h.toSound.of_rows hrows ⟨rfl, rfl, rfl⟩
      have hbefore' : ∀ a ∈ xs.map t.data, a.address ≠ address := by
        intro a ha
        obtain ⟨j, hj, rfl⟩ := List.mem_map.mp ha
        simpa using hbefore j hj
      have hstored : (xs ++ i :: ys).map (t.store i e).data
          = replaceFirst address e ((xs ++ i :: ys).map t.data) := by
        show (xs ++ i :: ys).map (Function.update t.data i e) = _
        rw [List.map_append, List.map_cons, List.map_append, List.map_cons,
          replaceFirst_split hi hbefore', Function.update_self,
          map_update_of_not_mem fun hmem => hnot (List.mem_append_left _ hmem),
          map_update_of_not_mem fun hmem => hnot (List.mem_append_right _ hmem)]
      have hchanged : Stores (t.store i e)
          (Function.update s row (replaceFirst address e (s row)))
          (Function.update ls row (ls row)) :=
        h.change (by rw [Function.update_eq_self]; exact hsound)
          (by rw [← h.records, hl]; exact hstored)
          fun row' hr => map_update_of_not_mem fun hmem =>
            hr (h.apart row' row i hmem (by rw [hl]; simp))
      exact ⟨_, hchanged⟩

/-! ### Runs -/

namespace Run

/-- What holds all along a run. -/
def Ok (r : Run) : Prop := ∃ ls, Stores r.table r.records ls

theorem Ok.step {r r' : Run} (h : r.Ok) (hstep : Step careful r r') : r'.Ok := by
  obtain ⟨ls, h⟩ := h
  obtain ⟨call, hcareful, hok, hrecords⟩ := hstep
  unfold Ok
  rw [hrecords]
  cases call with
  | ADD_VA address lastThread lastIcount row memory => exact h.ADD_VA hok hcareful
  | REMOVE_DEP_HEAD row address => exact h.REMOVE_DEP_HEAD hok
  | REMOVE_DEP_MID row address => exact h.REMOVE_DEP_MID hok
  | update row address e => exact h.update hok

theorem Ok.correct {r : Run} (h : r.Ok) : r.Correct := by
  obtain ⟨ls, h⟩ := h
  refine ⟨⟨ls, h.toRows, h.records⟩, fun row address => ?_, ?_⟩
  · rw [h.toRows.FIND_DEP, ← h.records, List.find?_map]
    rfl
  · intro address lastThread lastIcount row memory hleak
    rcases h.toSound.ADD_VA address lastThread lastIcount row memory with
      ⟨e, hne, herr⟩ | ⟨t₁, i, -, -, -, -, hadd⟩
    · rw [herr] at hleak
      exact hne (Except.error.inj hleak)
    · rw [hadd] at hleak
      cases hleak

theorem ok_start {r : Run} (h : Start r) : r.Ok := by
  obtain ⟨capacity, limit, rows, resize, data, links, hresize, rfl⟩ := h
  refine ⟨fun _ => [], ⟨⟨fun _ => trivial, fun _ => rfl, fun _ => rfl, fun _ => rfl,
    fun _ => List.nodup_nil, ?_, fun _ _ => rfl, ?_, ?_, ?_⟩, .inl rfl, capacity.toNat_lt, hresize,
    resize.toNat_lt⟩, fun _ => rfl⟩
  · intro _ _ i hi
    cases hi
  · intro _ i hi
    cases hi
  · intro i _
    refine ⟨fun hf => (by cases hf), ?_⟩
    rintro ⟨_, hi⟩
    cases hi
  · exact Finset.sum_const_zero.symm

/-- **As long as the marks come out right where memory is taken, the table keeps every record
as it was last stored.** -/
theorem records_of_careful {r : Run} (h : Reaches Start (Step careful) r) : r.Correct :=
  (h.invariant (fun _ hr => ok_start hr) fun _ _ hr hstep => hr.step hstep).correct

/-- Memory that is all zeros. -/
def blank (_ : Nat) : VaAddress := ⟨0, 0, 0, noMarks⟩

def unlinked : Links Nat := ⟨fun _ => none, fun _ => none⟩

theorem careful_of_full {r : Run} {lastThread lastIcount : UInt64} {memory : Nat → Marks}
    (hfull : r.table.currentSize = r.table.capacity)
    (hkept : ∀ i < r.table.capacity, r.table.valid i = true →
      memory i = (r.table.data i).writeTd)
    (hnew : ∀ i, (if i < r.table.capacity then r.table.valid i else false) = false →
      memory i = noMarks) : careful r (.ADD_VA address lastThread lastIcount row memory) :=
  (if_pos hfull).mpr ⟨hkept, fun i hslot => hnew i hslot.free.2⟩

theorem careful_of_space {r : Run} {lastThread lastIcount : UInt64} {memory : Nat → Marks}
    (hspace : r.table.currentSize ≠ r.table.capacity)
    (hmarks : ∀ i < r.table.capacity, r.table.valid i = false →
      (r.table.data i).writeTd = noMarks) :
    careful r (.ADD_VA address lastThread lastIcount row memory) :=
  (if_neg hspace).mpr fun i hslot => hmarks i hslot.free.1 hslot.free.2

/-- An element has marks when the table grows. -/
theorem records_of_careful_rows : ∃ r : Run, Reaches Start (Step careful) r ∧ r.Correct ∧
    r.records 0 = [⟨6, 1, 3, fun _ => 1⟩] ∧ r.records 1 = [⟨7, 2, 5, noMarks⟩] ∧
    r.table.capacity = 2 := by
  have hstart : Reaches Start (Step careful) ⟨.INIT 1 4 2 1 blank unlinked, fun _ => []⟩ :=
    .start ⟨1, 4, 2, 1, blank, unlinked, by decide, rfl⟩
  have hadd := hstart.step (t := ⟨_, _⟩) ⟨.ADD_VA 6 1 3 0 fun _ => noMarks, ?_, rfl, rfl⟩
  have hmarked := hadd.step (t := ⟨_, _⟩)
    ⟨.update 0 6 ⟨6, 1, 3, fun _ => 1⟩, trivial, rfl, rfl⟩
  have hgrown := hmarked.step (t := ⟨_, _⟩)
    ⟨.ADD_VA 7 2 5 1 fun i => if i = 0 then fun _ => 1 else noMarks, ?_, rfl, rfl⟩
  · exact ⟨_, hgrown, records_of_careful hgrown, rfl, rfl, rfl⟩
  · refine careful_of_full rfl (fun i hi _ => ?_) fun i hfree => ?_
    · obtain rfl : i = 0 := Nat.lt_one_iff.mp hi
      rfl
    · cases i with
      | zero => cases hfree
      | succ i => rfl
  · exact careful_of_space (by decide) fun _ _ _ => rfl

/-- **A table that grows loses the marks of the elements it has.** -/
theorem not_always_records : ¬ ∀ r, Reaches Start (Step legal) r → r.Correct := by
  intro hall
  have hstart : Reaches Start (Step legal) ⟨.INIT 1 4 1 1 blank unlinked, fun _ => []⟩ :=
    .start ⟨1, 4, 1, 1, blank, unlinked, by decide, rfl⟩
  have hadd := hstart.step (t := ⟨_, _⟩) ⟨.ADD_VA 6 1 3 0 fun _ => noMarks, trivial, rfl, rfl⟩
  have hmarked := hadd.step (t := ⟨_, _⟩)
    ⟨.update 0 6 ⟨6, 1, 3, fun _ => 1⟩, trivial, rfl, rfl⟩
  have hgrown := hmarked.step (t := ⟨_, _⟩) ⟨.ADD_VA 7 2 5 0 fun _ => noMarks, trivial, rfl, rfl⟩
  have hfound := (hall _ hgrown).found 0 6
  have hmark := congrArg (Option.map fun e : VaAddress => e.writeTd 0) hfound
  exact absurd hmark (by decide)

end Run

end AsimFeeder.Mingo
