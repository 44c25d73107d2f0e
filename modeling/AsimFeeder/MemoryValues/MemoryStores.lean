/-
What the store operations of the memory value model change.

Each operation is told by what it does to the lists of local stores and to the global
bytes of the cells, and by nothing else.  A store that becomes globally visible writes
one element of its cell, and `set_global_value` finds that element by the low bits of the
address: `lands` says which bytes these are, `touches` which ones the store is for.
-/
import AsimFeeder.Lib.Checks
import AsimFeeder.MemoryValues.MemoryReads
import Mathlib

namespace AsimFeeder.MemoryValues

open AsimFeeder.Lib

/-! ### Cells -/

/-- Where the element that `set_global_value` writes begins. -/
def MemOp.elementStart (st : MemOp) : Nat :=
  match st.size with
  | 8 => (st.pa &&& 0xF).toNat
  | 16 => 2 * (st.pa &&& 0x7).toNat
  | 32 => 4 * (st.pa &&& 0x3).toNat
  | 64 => 8 * (st.pa &&& 0x1).toNat
  | _ => 0

/-- `set_global_value` writes byte `k` of the cell. -/
def MemOp.lands (st : MemOp) (k : Fin 16) : Bool :=
  decide (st.elementStart ≤ k.val ∧ k.val < st.elementStart + st.size / 8)

namespace MemCell

variable {c c' : MemCell}

private theorem getLsbD_ones {n : Nat} (j : Nat) (hn : n ≤ 16) :
    (BitVec.ofNat 16 (2 ^ n - 1)).getLsbD j = decide (j < n) := by
  rw [BitVec.getLsbD_ofNat, Nat.testBit_two_pow_sub_one]
  by_cases hj : j < n
  · rw [decide_eq_true hj, decide_eq_true (by omega), Bool.and_true]
  · rw [decide_eq_false hj, Bool.and_false]

/-- Writing one element sets its bytes and their bits. -/
private theorem setElement_bits {n : Nat} (hn : n ≤ 16) (idx : Nat) (u : UWord128) (k : Fin 16) :
    (c.setElement n (BitVec.ofNat 16 (2 ^ n - 1)) idx u).hasGlobalValue.getLsbD k.val =
      (c.hasGlobalValue.getLsbD k.val ||
        decide (n * idx ≤ k.val ∧ k.val < n * idx + n)) := by
  rw [setElement, BitVec.getLsbD_or, BitVec.getLsbD_shiftLeft, getLsbD_ones _ hn,
    decide_eq_true k.isLt, Bool.true_and]
  congr 1
  rw [Bool.eq_iff_iff]
  simp only [Bool.and_eq_true, Bool.not_eq_true', decide_eq_false_iff_not, decide_eq_true_eq]
  omega

/-- One case of `set_global_value`, by where its element begins. -/
private theorem setElement_spec {n : Nat} (hn : n ≤ 16) {idx : Nat} {st : MemOp}
    (hstart : st.elementStart = n * idx) (hsize : st.size / 8 = n) :
    let c' := c.setElement n (BitVec.ofNat 16 (2 ^ n - 1)) idx st.value
    c'.localValues = c.localValues ∧
      ∀ k, c'.hasGlobalValue.getLsbD k.val = (c.hasGlobalValue.getLsbD k.val || st.lands k) ∧
        c'.globalValue k = if st.lands k then st.value k else c.globalValue k := by
  refine ⟨rfl, fun k => ⟨?_, ?_⟩⟩
  · rw [setElement_bits hn, MemOp.lands, hstart, hsize]
  · show (if _ then _ else _) = _
    rw [MemOp.lands, hstart, hsize]
    simp only [decide_eq_true_eq]

/-- **What `set_global_value` does to a cell.** -/
theorem setGlobalValue_spec {st : MemOp} (h : c.setGlobalValue st.value st.pa st.size = .ok c') :
    c'.localValues = c.localValues ∧
      ∀ k, c'.hasGlobalValue.getLsbD k.val = (c.hasGlobalValue.getLsbD k.val || st.lands k) ∧
        c'.globalValue k = if st.lands k then st.value k else c.globalValue k := by
  obtain ⟨size, processor, pa, state, value⟩ := st
  simp only at h
  unfold setGlobalValue at h
  split at h <;> cases h
  · exact setElement_spec (n := 1) (by decide) (Nat.one_mul _).symm (show 8 / 8 = 1 from rfl)
  · exact setElement_spec (n := 2) (by decide) rfl (show 16 / 8 = 2 from rfl)
  · exact setElement_spec (n := 4) (by decide) rfl (show 32 / 8 = 4 from rfl)
  · exact setElement_spec (n := 8) (by decide) rfl (show 64 / 8 = 8 from rfl)
  · refine ⟨rfl, fun k => ?_⟩
    have hk := k.isLt
    have hland : MemOp.lands ⟨128, processor, pa, state, value⟩ k = true := by
      rw [MemOp.lands, decide_eq_true_eq]
      show 0 ≤ k.val ∧ k.val < 0 + 128 / 8
      omega
    rw [hland, if_pos rfl, Bool.or_true]
    refine ⟨?_, rfl⟩
    show (BitVec.ofNat 16 (2 ^ 16 - 1)).getLsbD k.val = true
    rw [getLsbD_ones _ (by decide), decide_eq_true hk]

theorem pushFront_spec {cpuid : Nat} {r : Ref} (h : c.pushFront cpuid r = .ok c') :
    c'.globalValue = c.globalValue ∧ c'.hasGlobalValue = c.hasGlobalValue ∧
      c'.localValues.length = c.localValues.length ∧
      ∀ p, c'.stores p = if p = cpuid then r :: c.stores p else c.stores p := by
  rw [pushFront] at h
  split at h
  · cases h
  · rename_i lst hlst
    injection h with h
    subst h
    refine ⟨rfl, rfl, List.length_set, fun p => ?_⟩
    by_cases hp : p = cpuid
    · subst hp
      have hlt := (List.getElem?_eq_some_iff.mp hlst).1
      rw [if_pos rfl, stores, stores, List.getElem?_set_self hlt, hlst]
      rfl
    · rw [if_neg hp, stores, stores, List.getElem?_set_ne (Ne.symm hp)]

theorem remove_spec {cpuid : Nat} {r : Ref} (h : c.remove cpuid r = .ok c') :
    c'.globalValue = c.globalValue ∧ c'.hasGlobalValue = c.hasGlobalValue ∧
      c'.localValues.length = c.localValues.length ∧
      ∀ p, c'.stores p = if p = cpuid then (c.stores p).filter (· ≠ r) else c.stores p := by
  rw [remove] at h
  split at h
  · cases h
  · rename_i hlst
    injection h with h
    subst h
    refine ⟨rfl, rfl, rfl, fun p => ?_⟩
    by_cases hp : p = cpuid
    · subst hp
      rw [if_pos rfl, stores, hlst]
      rfl
    · rw [if_neg hp]
  · rename_i lst hlst
    injection h with h
    subst h
    refine ⟨rfl, rfl, List.length_set, fun p => ?_⟩
    by_cases hp : p = cpuid
    · subst hp
      have hlt := (List.getElem?_eq_some_iff.mp hlst).1
      rw [if_pos rfl, stores, stores, List.getElem?_set_self hlt, hlst]
      rfl
    · rw [if_neg hp, stores, stores, List.getElem?_set_ne (Ne.symm hp)]

end MemCell

/-! ### The operations -/

/-- What the clients do with their stores. -/
inductive Event where
  | locallyVisible (r : Ref)
  | killed (r : Ref)
  | globallyVisible (r : Ref)

namespace Event

def ref : Event → Ref
  | .locallyVisible r => r
  | .killed r => r
  | .globallyVisible r => r

/-- What the event makes of the list that is for its store. -/
def stores : Event → List Ref → List Ref
  | .locallyVisible r, l => r :: l
  | .killed r, l => l.filter (· ≠ r)
  | .globallyVisible r, l => l.filter (· ≠ r)

/-- The event writes byte `k` of the cell with this key. -/
def writes (ops : Ref → MemOp) : Event → BitVec 64 → Fin 16 → Bool
  | .globallyVisible r, key, k => key == keyOf (ops r).pa && (ops r).lands k
  | _, _, _ => false

theorem writes_of_ne {ops : Ref → MemOp} {e : Event} {key : BitVec 64} {k : Fin 16}
    (h : key ≠ keyOf (ops e.ref).pa) : e.writes ops key k = false := by
  cases e with
  | globallyVisible r =>
      have h' : key ≠ keyOf (ops r).pa := h
      rw [writes, beq_false_of_ne h', Bool.false_and]
  | locallyVisible r => rfl
  | killed r => rfl

theorem writes_globallyVisible {ops : Ref → MemOp} {r : Ref} {k : Fin 16} :
    (globallyVisible r).writes ops (keyOf (ops r).pa) k = (ops r).lands k := by
  rw [writes, beq_self_eq_true, Bool.true_and]

/-- The event gives its store a stamp. -/
def stamps : Event → Bool
  | .locallyVisible _ => true
  | _ => false

end Event

namespace MemoryValueModel

def exec (ops : Ref → MemOp) (s : MemoryValueModel) : Event → Except String MemoryValueModel
  | .locallyVisible r => s.storeLocallyVisibleNow ops r
  | .killed r => s.killed ops r
  | .globallyVisible r => s.storeGloballyVisibleNow ops r

variable {ops : Ref → MemOp} {s s' : MemoryValueModel} {r : Ref}

/-- `s'` has one cell more or one cell other than `s`. -/
private theorem cellAt_update {key : BitVec 64} {cell : MemCell}
    (h : s'.memops = Function.update s.memops key (some cell)) (key' : BitVec 64) :
    s'.cellAt key' = if key' = key then cell else s.cellAt key' := by
  rw [cellAt, h, Function.update_apply]
  by_cases hk : key' = key
  · rw [if_pos hk, if_pos hk, Option.getD_some]
  · rw [if_neg hk, if_neg hk, cellAt]

/-- The lists and bytes of `s'` against those of `s`. -/
structure Effect (ops : Ref → MemOp) (e : Event) (s s' : MemoryValueModel) : Prop where
  size : ∀ key, (s.cellAt key).localValues.length = nproc →
    (s'.cellAt key).localValues.length = nproc
  stores : ∀ key p, s'.localStores key p =
    if key = keyOf (ops e.ref).pa ∧ p = (ops e.ref).processor then e.stores (s.localStores key p)
    else s.localStores key p
  hasByte : ∀ key k, s'.hasByte key k = (s.hasByte key k || e.writes ops key k)
  globalByte : ∀ key k, s'.globalByte key k =
    if e.writes ops key k then (ops e.ref).value k else s.globalByte key k
  timeStamp : s'.timeStamp =
    if e.stamps then Function.update s.timeStamp e.ref s.sTimeStamp else s.timeStamp
  sTimeStamp : s'.sTimeStamp = if e.stamps then (s.sTimeStamp + 1) % 2 ^ 32 else s.sTimeStamp

/-- The effect of an event that replaces the cell of its store. -/
private theorem effect_of_cell {e : Event} {cell : MemCell}
    (hmemops : s'.memops = Function.update s.memops (keyOf (ops e.ref).pa) (some cell))
    (hlen : cell.localValues.length = (s.cellAt (keyOf (ops e.ref).pa)).localValues.length)
    (hstores : ∀ p, cell.stores p = if p = (ops e.ref).processor then
      e.stores ((s.cellAt (keyOf (ops e.ref).pa)).stores p)
      else (s.cellAt (keyOf (ops e.ref).pa)).stores p)
    (hbyte : ∀ k, cell.hasGlobalValue.getLsbD k.val =
      ((s.cellAt (keyOf (ops e.ref).pa)).hasGlobalValue.getLsbD k.val ||
        e.writes ops (keyOf (ops e.ref).pa) k))
    (hvalue : ∀ k, cell.globalValue k = if e.writes ops (keyOf (ops e.ref).pa) k then
      (ops e.ref).value k else (s.cellAt (keyOf (ops e.ref).pa)).globalValue k)
    (hstamp : s'.timeStamp =
      if e.stamps then Function.update s.timeStamp e.ref s.sTimeStamp else s.timeStamp)
    (hnext : s'.sTimeStamp = if e.stamps then (s.sTimeStamp + 1) % 2 ^ 32 else s.sTimeStamp) :
    Effect ops e s s' := by
  have hcell := fun key => cellAt_update hmemops key
  refine ⟨?_, ?_, ?_, ?_, hstamp, hnext⟩
  · intro key hsize
    rw [hcell]
    by_cases hk : key = keyOf (ops e.ref).pa
    · subst hk
      rw [if_pos rfl, hlen, hsize]
    · rw [if_neg hk, hsize]
  · intro key p
    rw [localStores, hcell, localStores]
    by_cases hk : key = keyOf (ops e.ref).pa
    · subst hk
      rw [if_pos rfl, hstores]
      simp
    · rw [if_neg hk, if_neg (fun h => hk h.1)]
  · intro key k
    rw [MemoryValueModel.hasByte, hcell, MemoryValueModel.hasByte]
    by_cases hk : key = keyOf (ops e.ref).pa
    · subst hk
      rw [if_pos rfl, hbyte]
    · rw [if_neg hk, Event.writes_of_ne hk, Bool.or_false]
  · intro key k
    rw [MemoryValueModel.globalByte, hcell, MemoryValueModel.globalByte]
    by_cases hk : key = keyOf (ops e.ref).pa
    · subst hk
      rw [if_pos rfl, hvalue]
    · rw [if_neg hk, Event.writes_of_ne hk, if_neg Bool.false_ne_true]

theorem storeLocallyVisibleNow_spec (h : s.storeLocallyVisibleNow ops r = .ok s') :
    Effect ops (.locallyVisible r) s s' := by
  obtain ⟨cell, hpush, hs'⟩ := bind_eq_ok h
  injection hs' with hs'
  obtain ⟨hval, hhas, hlen, hstores⟩ := MemCell.pushFront_spec hpush
  refine effect_of_cell (by rw [← hs']; rfl) hlen hstores ?_ ?_ (by rw [← hs']; rfl)
    (by rw [← hs']; rfl)
  · intro k
    rw [hhas]
    exact (Bool.or_false _).symm
  · intro k
    rw [hval]
    rfl

theorem killed_spec (h : s.killed ops r = .ok s') : Effect ops (.killed r) s s' := by
  cases hcell : s.memops (keyOf (ops r).pa) with
  | none =>
      have hcell' : s.memops ((mask128b (ops r).pa).setWidth 64) = none := hcell
      simp only [killed, hcell'] at h
      injection h with h
      subst h
      refine ⟨fun _ h => h, ?_, fun _ _ => (Bool.or_false _).symm, fun _ _ => rfl, rfl, rfl⟩
      intro key p
      by_cases hk : key = keyOf (ops r).pa
      · have hnil : s.localStores key p = [] := by
          rw [localStores, cellAt, hk, hcell, Option.getD_none, MemCell.stores_new]
        rw [hnil]
        exact (ite_self _).symm
      · rw [if_neg (fun h => hk h.1)]
  | some cell =>
      have hat : s.cellAt (keyOf (ops r).pa) = cell := by rw [cellAt, hcell, Option.getD_some]
      have hcell' : s.memops ((mask128b (ops r).pa).setWidth 64) = some cell := hcell
      simp only [killed, hcell'] at h
      obtain ⟨cell', hremove, hs'⟩ := bind_eq_ok h
      injection hs' with hs'
      obtain ⟨hval, hhas, hlen, hstores⟩ := MemCell.remove_spec hremove
      rw [← hat] at hval hhas hlen hstores
      refine effect_of_cell (by rw [← hs']; rfl) hlen hstores ?_ ?_ (by rw [← hs']; rfl)
        (by rw [← hs']; rfl)
      · intro k
        rw [hhas]
        exact (Bool.or_false _).symm
      · intro k
        rw [hval]
        rfl

theorem storeGloballyVisibleNow_spec (h : s.storeGloballyVisibleNow ops r = .ok s') :
    Effect ops (.globallyVisible r) s s' := by
  obtain ⟨cell, hremove, h'⟩ := bind_eq_ok h
  obtain ⟨cell', hset, hs'⟩ := bind_eq_ok h'
  injection hs' with hs'
  obtain ⟨hlocal, hbytes⟩ := MemCell.setGlobalValue_spec hset
  have hcell : cell.globalValue = (s.cellAt (keyOf (ops r).pa)).globalValue ∧
      cell.hasGlobalValue = (s.cellAt (keyOf (ops r).pa)).hasGlobalValue ∧
      cell.localValues.length = (s.cellAt (keyOf (ops r).pa)).localValues.length ∧
      ∀ p, cell.stores p = if p = (ops r).processor then
        ((s.cellAt (keyOf (ops r).pa)).stores p).filter (· ≠ r)
        else (s.cellAt (keyOf (ops r).pa)).stores p := by
    cases hkey : s.memops (keyOf (ops r).pa) with
    | none =>
        have hkey' : s.memops ((mask128b (ops r).pa).setWidth 64) = none := hkey
        rw [cellAt, hkey, Option.getD_none]
        simp only [hkey'] at hremove
        injection hremove with hremove
        subst hremove
        exact ⟨rfl, rfl, rfl, fun p => by rw [MemCell.stores_new]; exact (ite_self _).symm⟩
    | some c =>
        have hkey' : s.memops ((mask128b (ops r).pa).setWidth 64) = some c := hkey
        rw [cellAt, hkey, Option.getD_some]
        simp only [hkey'] at hremove
        exact MemCell.remove_spec hremove
  obtain ⟨hval, hhas, hlen, hstores⟩ := hcell
  refine effect_of_cell (by rw [← hs']; rfl) (by rw [hlocal]; exact hlen) ?_ ?_ ?_
    (by rw [← hs']; rfl) (by rw [← hs']; rfl)
  · intro p
    rw [MemCell.stores, hlocal]
    exact hstores p
  · intro k
    rw [(hbytes k).1, hhas, show (Event.globallyVisible r).ref = r from rfl,
      Event.writes_globallyVisible]
  · intro k
    rw [(hbytes k).2, hval, show (Event.globallyVisible r).ref = r from rfl,
      Event.writes_globallyVisible]

/-- **What an operation changes.** -/
theorem exec_spec {e : Event} (h : s.exec ops e = .ok s') : Effect ops e s s' := by
  cases e with
  | locallyVisible r => exact storeLocallyVisibleNow_spec h
  | killed r => exact killed_spec h
  | globallyVisible r => exact storeGloballyVisibleNow_spec h

end MemoryValueModel

end AsimFeeder.MemoryValues
