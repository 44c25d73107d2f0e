/-
Loads get the right bytes.

The specification of a load knows no cells: byte `x` of a processor comes from its newest
store that covers `x` and is still only locally visible, and else from the last store over
`x` that became globally visible.  The model agrees with it for every load that stays clear
of three slips.

  * Addresses that differ only above bit 31 share a cell (`Clean.low32`).
  * `set_global_value` finds the element of a 16, 32 or 64 bit store by the low bits of its
    address, which is right at the start of a line only (`Clean.element`).
  * `global_basis` takes the 16 validity bits in a `UINT8`, so a load never learns of the
    global bytes 8 to 15 (`GlobalUpper`).
-/
import AsimFeeder.MemoryValues.MemoryRuns
import Mathlib

namespace AsimFeeder.MemoryValues

open AsimFeeder.Lib

/-! ### The clients -/

/-- A region that a store or a load may have. -/
structure Aligned (sz : Nat) (pa : BitVec 64) : Prop where
  size : sz = 8 ∨ sz = 16 ∨ sz = 32 ∨ sz = 64 ∨ sz = 128
  aligned : pa.toNat % (sz / 8) = 0

theorem Aligned.inLine {sz : Nat} {pa : BitVec 64} (h : Aligned sz pa) : InLine sz pa := by
  have hal := h.aligned
  constructor
  · rcases h.size with rfl | rfl | rfl | rfl | rfl <;> decide
  · rcases h.size with rfl | rfl | rfl | rfl | rfl <;> omega

/-- A store is locally visible at most once, and then killed or made globally visible. -/
def Event.Legal (ops : Ref → MemOp) (r : Run) : Event → Prop
  | .locallyVisible q => q ∉ r.used ∧ Aligned (ops q).size (ops q).pa
  | .killed q => q ∈ r.locals
  | .globallyVisible q => (q ∈ r.locals ∨ q ∉ r.used) ∧ Aligned (ops q).size (ops q).pa

namespace Run

def LegalStep (ops : Ref → MemOp) (r t : Run) : Prop := ∃ e, e.Legal ops r ∧ r.exec ops e = .ok t

variable {ops : Ref → MemOp} {r t : Run} {e : Event}

/-! ### What legal runs keep -/

/-- The local stores of a cell and a processor. -/
def isAt (ops : Ref → MemOp) (key : BitVec 64) (p : Nat) (q : Ref) : Bool :=
  key == keyOf (ops q).pa && p == (ops q).processor

/-- The model holds what the clients did. -/
structure Ok (ops : Ref → MemOp) (r : Run) : Prop where
  stores : ∀ key p, r.mvm.localStores key p = r.locals.filter (isAt ops key p)
  hasByte : ∀ key k, r.mvm.hasByte key k =
    (r.globals.find? fun q => (Event.globallyVisible q).writes ops key k).isSome
  globalByte : ∀ key k q,
    (r.globals.find? fun q => (Event.globallyVisible q).writes ops key k) = some q →
    r.mvm.globalByte key k = (ops q).value k
  newest : r.locals.Pairwise fun a b => r.mvm.timeStamp b < r.mvm.timeStamp a
  stamps : ∀ q ∈ r.locals, 2 ≤ r.mvm.timeStamp q ∧ r.mvm.timeStamp q < 2 + r.stamped
  used : ∀ q ∈ r.locals, q ∈ r.used
  aligned : ∀ q ∈ r.locals ++ r.globals, Aligned (ops q).size (ops q).pa

theorem ok_start (h : r.Start) : r.Ok ops := by
  obtain ⟨stamps, rfl⟩ := h
  refine ⟨fun key p => MemCell.stores_new p, fun key k => ?_, fun key k q h => ?_,
    List.Pairwise.nil, ?_, ?_, ?_⟩
  · show (0 : BitVec 16).getLsbD k.val = false
    exact BitVec.getLsbD_zero
  · cases h
  · intro q hq
    cases hq
  · intro q hq
    cases hq
  · intro q hq
    cases hq

/-- Stores of other cells and processors do not matter to a list. -/
private theorem filter_stores (e : Event) (l : List Ref) (here : Ref → Bool) :
    (e.stores l).filter here =
      if here e.ref = true then e.stores (l.filter here) else l.filter here := by
  have hremove : ∀ q, (l.filter (· ≠ q)).filter here =
      if here q = true then (l.filter here).filter (· ≠ q) else l.filter here := by
    intro q
    by_cases hq : here q = true
    · rw [if_pos hq, List.filter_filter, List.filter_filter]
      simp only [Bool.and_comm]
    · rw [if_neg hq, List.filter_filter]
      refine List.filter_congr fun a _ => ?_
      by_cases ha : a = q
      · simp [ha, hq]
      · simp [ha]
  cases e with
  | locallyVisible q => exact List.filter_cons
  | killed q => exact hremove q
  | globallyVisible q => exact hremove q

private theorem mem_globals {l : List Ref} {q : Ref} (h : q ∈ e.globals l) :
    q ∈ l ∨ e = .globallyVisible q := by
  cases e with
  | locallyVisible r => exact Or.inl h
  | killed r => exact Or.inl h
  | globallyVisible r =>
      rcases List.mem_cons.mp h with rfl | h
      · exact Or.inr rfl
      · exact Or.inl h

/-- The stamps of the local stores after a step. -/
private theorem Ok.timeStamp (hr : r.Ok ops) (hb : r.Basic ops) (hlegal : e.Legal ops r)
    (h : r.exec ops e = .ok t) (ht : t.InStamps) :
    (∀ q ∈ r.locals, t.mvm.timeStamp q = r.mvm.timeStamp q) ∧
      (e.stamps = true → t.mvm.timeStamp e.ref = 2 + r.stamped) := by
  obtain ⟨heff, -, -, -, hst⟩ := exec_spec h
  rw [heff.timeStamp]
  cases e with
  | killed q => exact ⟨fun _ _ => rfl, fun hs => by cases hs⟩
  | globallyVisible q => exact ⟨fun _ _ => rfl, fun hs => by cases hs⟩
  | locallyVisible q =>
      constructor
      · intro q' hq'
        refine Function.update_of_ne ?_ _ _
        rintro rfl
        exact hlegal.1 (hr.used _ hq')
      · intro _
        have hst' : t.stamped = r.stamped + 1 := hst
        rw [InStamps, hst'] at ht
        refine (Function.update_self _ _ _).trans ?_
        rw [hb.next, Nat.mod_eq_of_lt (by omega)]

/-- **A legal step keeps the model right.** -/
theorem Ok.exec (hr : r.Ok ops) (hb : r.Basic ops) (hlegal : e.Legal ops r)
    (h : r.exec ops e = .ok t) (ht : t.InStamps) : t.Ok ops := by
  obtain ⟨heff, hlocals, hglobals, hused, hst⟩ := exec_spec h
  obtain ⟨hold, hnew⟩ := hr.timeStamp hb hlegal h ht
  refine ⟨?_, ?_, ?_, ?_, ?_, ?_, ?_⟩
  · intro key p
    rw [heff.stores, hlocals, filter_stores, hr.stores, isAt]
    simp only [Bool.and_eq_true, beq_iff_eq]
  · intro key k
    rw [heff.hasByte, hr.hasByte, hglobals]
    cases e with
    | locallyVisible q => exact Bool.or_false _
    | killed q => exact Bool.or_false _
    | globallyVisible q =>
        rw [Event.globals, List.find?_cons]
        cases (Event.globallyVisible q).writes ops key k with
        | true => exact Bool.or_true _
        | false => exact Bool.or_false _
  · intro key k q hq
    rw [hglobals] at hq
    rw [heff.globalByte]
    cases e with
    | locallyVisible q' => exact hr.globalByte key k q hq
    | killed q' => exact hr.globalByte key k q hq
    | globallyVisible q' =>
        rw [Event.globals, List.find?_cons] at hq
        cases hw : (Event.globallyVisible q').writes ops key k with
        | true =>
            rw [hw] at hq
            injection hq with hq
            rw [if_pos rfl, ← hq]
            rfl
        | false =>
            rw [hw] at hq
            rw [if_neg Bool.false_ne_true]
            exact hr.globalByte key k q hq
  · have hkeep : r.locals.Pairwise fun a b => t.mvm.timeStamp b < t.mvm.timeStamp a :=
      hr.newest.imp_of_mem fun ha hb hab => by rw [hold _ ha, hold _ hb]; exact hab
    rw [hlocals]
    cases e with
    | locallyVisible q =>
        refine List.pairwise_cons.mpr ⟨fun a ha => ?_, hkeep⟩
        rw [hold a ha, show t.mvm.timeStamp q = _ from hnew rfl]
        exact (hr.stamps a ha).2
    | killed q => exact hkeep.filter _
    | globallyVisible q => exact hkeep.filter _
  · intro q hq
    rw [hlocals] at hq
    rcases mem_stores hq with hq | ⟨rfl, hs⟩
    · have := hr.stamps q hq
      rw [hold q hq, hst]
      split <;> omega
    · rw [hnew hs, hst, if_pos hs]
      omega
  · intro q hq
    rw [hlocals] at hq
    rw [hused]
    rcases mem_stores hq with hq | ⟨rfl, -⟩
    · exact List.mem_cons_of_mem _ (hr.used q hq)
    · exact List.mem_cons_self
  · intro q hq
    rw [hlocals, hglobals] at hq
    rcases List.mem_append.mp hq with hq | hq
    · rcases mem_stores hq with hq | ⟨rfl, hs⟩
      · exact hr.aligned q (List.mem_append_left _ hq)
      · cases e with
        | locallyVisible q => exact hlegal.2
        | killed q => cases hs
        | globallyVisible q => cases hs
    · rcases mem_globals hq with hq | rfl
      · exact hr.aligned q (List.mem_append_right _ hq)
      · exact hlegal.2

theorem ok_of_reaches (h : Reaches Start (LegalStep ops) r) :
    r.Basic ops ∧ (r.InStamps → r.Ok ops) := by
  refine h.invariant (P := fun r => r.Basic ops ∧ (r.InStamps → r.Ok ops)) ?_ ?_
  · exact fun s hs => ⟨basic_start hs, fun _ => ok_start hs⟩
  · rintro s t ⟨hb, hok⟩ ⟨e, hlegal, he⟩
    exact ⟨hb.exec he, fun ht => (hok (ht.of_exec he)).exec hb hlegal he ht⟩

end Run

/-! ### Where a byte comes from -/

/-- The store writes the byte at address `x`. -/
def MemOp.covers (st : MemOp) (x : Nat) : Bool :=
  decide (st.pa.toNat ≤ x ∧ x < st.pa.toNat + st.size / 8)

/-- The byte a store has for address `x`. -/
def MemOp.byteOf (st : MemOp) (x : Nat) : BitVec 8 := st.getValue8 (BitVec.ofNat 64 x)

namespace Run

/-- The newest store over `x` that only processor `p` sees. -/
def localSource (ops : Ref → MemOp) (r : Run) (p x : Nat) : Option Ref :=
  r.locals.find? fun q => p == (ops q).processor && (ops q).covers x

/-- The last store over `x` that became globally visible. -/
def globalSource (ops : Ref → MemOp) (r : Run) (x : Nat) : Option Ref :=
  r.globals.find? fun q => (ops q).covers x

/-- The byte processor `p` has to find at address `x`. -/
def source (ops : Ref → MemOp) (r : Run) (p x : Nat) : Option (BitVec 8) :=
  match r.localSource ops p x with
  | some q => some ((ops q).byteOf x)
  | none => (r.globalSource ops x).map fun q => (ops q).byteOf x

/-- The load of `sz` bits from `pa` stays clear of aliases and of misplaced elements. -/
structure Clean (ops : Ref → MemOp) (r : Run) (sz : Nat) (pa : BitVec 64) : Prop where
  /-- Bytes of visible stores differ from those of the load in their low 32 address bits. -/
  low32 : ∀ q ∈ r.locals ++ r.globals, ∀ i < (ops q).size / 8, ∀ j < sz / 8,
    ((ops q).pa.toNat + i) % 2 ^ 32 = (pa.toNat + j) % 2 ^ 32 →
    (ops q).pa.toNat + i = pa.toNat + j
  /-- On the line of the load, global stores of 16, 32 and 64 bits are at its start. -/
  element : ∀ q ∈ r.globals, keyOf pa = keyOf (ops q).pa →
    (ops q).size = 8 ∨ (ops q).size = 128 ∨ (ops q).pa.toNat % 16 = 0

/-- Every byte of the load has a source. -/
def Sourced (ops : Ref → MemOp) (r : Run) (sz p : Nat) (pa : BitVec 64) : Prop :=
  ∀ j < sz / 8, (r.source ops p (pa.toNat + j)).isSome

/-- Some byte in the upper half of its line has a global source only. -/
def GlobalUpper (ops : Ref → MemOp) (r : Run) (sz p : Nat) (pa : BitVec 64) : Prop :=
  ∃ j < sz / 8, 8 ≤ (pa.toNat + j) % 16 ∧ r.localSource ops p (pa.toNat + j) = none ∧
    (r.globalSource ops (pa.toNat + j)).isSome

/-- The load `m` is bound iff it can be, and then to the right bytes. -/
def RightLoad (ops : Ref → MemOp) (r : Run) (sz p : Nat) (pa : BitVec 64) (m : MemOp) : Prop :=
  (m.state = .valueBound ↔ r.Sourced ops sz p pa) ∧
    (m.state = .valueBound → ∀ j < sz / 8,
      r.source ops p (pa.toNat + j) = some (m.getValue8 (pa + BitVec.ofNat 64 j)))

section Source

variable {ops : Ref → MemOp} {r : Run} {sz p j : Nat} {pa : BitVec 64} {q : Ref}

theorem byteOf_eq (st : MemOp) : st.byteOf (pa.toNat + j) = st.value (byteAt pa j) := by
  have haddr : BitVec.ofNat 64 (pa.toNat + j) = pa + BitVec.ofNat 64 j := by
    rw [BitVec.ofNat_add, BitVec.ofNat_toNat, BitVec.setWidth_eq]
  rw [MemOp.byteOf, MemOp.getValue8, haddr, byteAt]

/-- In the cell of the load, the stores that touch a byte are those that cover it. -/
theorem Clean.touches (hclean : r.Clean ops sz pa) (hpa : InLine sz pa) (hj : j < sz / 8)
    (hq : q ∈ r.locals ++ r.globals) (hst : InLine (ops q).size (ops q).pa) :
    (keyOf pa == keyOf (ops q).pa && (ops q).touches (byteAt pa j)) =
      (ops q).covers (pa.toNat + j) := by
  rw [Bool.eq_iff_iff, Bool.and_eq_true, beq_iff_eq, MemOp.touches_iff, MemOp.covers,
    decide_eq_true_eq]
  constructor
  · rintro ⟨hkey, i, hi, hbyte⟩
    have := hclean.low32 q hq i hi j hj (by rw [hst.low32 hi, hpa.low32 hj, hkey, hbyte])
    omega
  · rintro ⟨hlo, hhi⟩
    obtain ⟨i, hi⟩ := Nat.exists_eq_add_of_le hlo
    have hlt : i < (ops q).size / 8 := by omega
    have hlow : (keyOf pa).toNat + (byteAt pa j).val =
        (keyOf (ops q).pa).toNat + (byteAt (ops q).pa i).val := by
      rw [← hst.low32 hlt, ← hpa.low32 hj, hi]
    have hk := toNat_keyOf pa
    have hk' := toNat_keyOf (ops q).pa
    have hb := (byteAt pa j).isLt
    have hb' := (byteAt (ops q).pa i).isLt
    exact ⟨BitVec.eq_of_toNat_eq (by omega), i, hlt, Fin.ext (by omega)⟩

/-- The element of a store is its bytes, at the start of a line and where sizes are 1 and 16. -/
theorem lands_eq_touches {st : MemOp} (hst : Aligned st.size st.pa)
    (helement : st.size = 8 ∨ st.size = 128 ∨ st.pa.toNat % 16 = 0) (k : Fin 16) :
    st.lands k = st.touches k := by
  have hstart : st.elementStart = st.pa.toNat % 16 := by
    obtain ⟨size, processor, pa, state, value⟩ := st
    have hal : pa.toNat % (size / 8) = 0 := hst.aligned
    have hmask : ∀ n ≤ 64, (pa &&& BitVec.ofNat 64 (2 ^ n - 1)).toNat = pa.toNat % 2 ^ n := by
      intro n hn
      have hle : 2 ^ n ≤ 2 ^ 64 := Nat.pow_le_pow_right (by omega) hn
      rw [BitVec.toNat_and, BitVec.toNat_ofNat,
        Nat.mod_eq_of_lt (by have := Nat.two_pow_pos n; omega), Nat.and_two_pow_sub_one_eq_mod]
    have hsize : size = 8 ∨ size = 16 ∨ size = 32 ∨ size = 64 ∨ size = 128 := hst.size
    have helement' : size = 8 ∨ size = 128 ∨ pa.toNat % 16 = 0 := helement
    rcases hsize with rfl | rfl | rfl | rfl | rfl
    · exact hmask 4 (by decide)
    · have h3 := hmask 3 (by decide)
      show 2 * (pa &&& BitVec.ofNat 64 (2 ^ 3 - 1)).toNat = pa.toNat % 16
      omega
    · have h2 := hmask 2 (by decide)
      show 4 * (pa &&& BitVec.ofNat 64 (2 ^ 2 - 1)).toNat = pa.toNat % 16
      omega
    · have h1 := hmask 1 (by decide)
      show 8 * (pa &&& BitVec.ofNat 64 (2 ^ 1 - 1)).toNat = pa.toNat % 16
      omega
    · exact hal.symm
  rw [Bool.eq_iff_iff, MemOp.touches_iff, ← hst.inLine.exists_byteAt, MemOp.lands,
    decide_eq_true_eq, hstart]

/-- In the cell of the load, global stores write the bytes that they cover. -/
theorem Clean.writes (hclean : r.Clean ops sz pa) (hpa : InLine sz pa) (hj : j < sz / 8)
    (hq : q ∈ r.globals) (hst : Aligned (ops q).size (ops q).pa) :
    (Event.globallyVisible q).writes ops (keyOf pa) (byteAt pa j) =
      (ops q).covers (pa.toNat + j) := by
  rw [← hclean.touches hpa hj (List.mem_append_right _ hq) hst.inLine, Event.writes]
  by_cases hkey : keyOf pa = keyOf (ops q).pa
  · rw [lands_eq_touches hst (hclean.element q hq hkey)]
  · rw [beq_false_of_ne hkey, Bool.false_and, Bool.false_and]

/-- **What a load finds for byte `j`, by its sources.** -/
theorem Ok.found (hr : r.Ok ops) (hclean : r.Clean ops sz pa) (hpa : InLine sz pa)
    (hj : j < sz / 8) :
    r.mvm.found ops (keyOf pa) p (byteAt pa j) =
      match r.localSource ops p (pa.toNat + j) with
      | some q => (r.mvm.timeStamp q, (ops q).byteOf (pa.toNat + j))
      | none => r.mvm.basis (keyOf pa) (byteAt pa j) := by
  have hbasis : (r.mvm.basis (keyOf pa) (byteAt pa j)).1 ≤ 1 := by
    rw [MemoryValueModel.basis]
    dsimp only
    split <;> omega
  have hsource : (r.locals.filter (isAt ops (keyOf pa) p)).find?
      (fun q => (ops q).touches (byteAt pa j)) = r.localSource ops p (pa.toNat + j) := by
    rw [List.find?_filter, localSource]
    refine List.find?_congr fun q hq => ?_
    have hmem := List.mem_append_left r.globals hq
    rw [← hclean.touches hpa hj hmem (hr.aligned q hmem).inLine, isAt]
    cases keyOf pa == keyOf (ops q).pa <;> cases p == (ops q).processor <;> simp
  rw [MemoryValueModel.found, hr.stores, scan_of_sorted (hr.newest.filter _), hsource]
  · cases r.localSource ops p (pa.toNat + j) with
    | none => rfl
    | some q =>
        rw [Option.map_some, Option.getD_some, ← byteOf_eq]
  · intro q hq
    have := (hr.stamps q (List.mem_of_mem_filter hq)).1
    omega

/-- What a load starts from, by its global source. -/
theorem Ok.basis (hr : r.Ok ops) (hclean : r.Clean ops sz pa) (hpa : InLine sz pa)
    (hj : j < sz / 8) :
    ((r.mvm.basis (keyOf pa) (byteAt pa j)).1 ≠ 0 ↔
      (r.globalSource ops (pa.toNat + j)).isSome ∧ (pa.toNat + j) % 16 < 8) ∧
    ∀ q, r.globalSource ops (pa.toNat + j) = some q →
      (r.mvm.basis (keyOf pa) (byteAt pa j)).2 = (ops q).byteOf (pa.toNat + j) := by
  have hsource : (r.globals.find? fun q =>
      (Event.globallyVisible q).writes ops (keyOf pa) (byteAt pa j)) =
        r.globalSource ops (pa.toNat + j) :=
    List.find?_congr fun q hq =>
      hclean.writes hpa hj hq (hr.aligned q (List.mem_append_right _ hq))
  have hoff : (byteAt pa j).val = (pa.toNat + j) % 16 := by
    have := hpa.fits
    rw [hpa.val_byteAt hj]
    omega
  constructor
  · rw [MemoryValueModel.basis, hr.hasByte, hsource, hoff]
    dsimp only
    split <;> simp_all
  · intro q hq
    rw [byteOf_eq]
    exact hr.globalByte _ _ q (hsource.trans hq)

/-- A byte is found iff it has a source that the load can see. -/
theorem Ok.found_ne_zero (hr : r.Ok ops) (hclean : r.Clean ops sz pa) (hpa : InLine sz pa)
    (hj : j < sz / 8) :
    (r.mvm.found ops (keyOf pa) p (byteAt pa j)).1 ≠ 0 ↔
      (r.localSource ops p (pa.toNat + j)).isSome ∨
        ((r.globalSource ops (pa.toNat + j)).isSome ∧ (pa.toNat + j) % 16 < 8) := by
  rw [hr.found hclean hpa hj]
  cases hl : r.localSource ops p (pa.toNat + j) with
  | none => simpa using (hr.basis hclean hpa hj).1
  | some q =>
      have := (hr.stamps q (List.mem_of_find?_eq_some hl)).1
      simp
      omega

/-- What is found for a byte with a source is the byte of that source. -/
theorem Ok.found_snd (hr : r.Ok ops) (hclean : r.Clean ops sz pa) (hpa : InLine sz pa)
    (hj : j < sz / 8) (hs : (r.source ops p (pa.toNat + j)).isSome) :
    r.source ops p (pa.toNat + j) = some (r.mvm.found ops (keyOf pa) p (byteAt pa j)).2 := by
  rw [hr.found hclean hpa hj]
  rw [source] at hs ⊢
  cases hl : r.localSource ops p (pa.toNat + j) with
  | some q => rfl
  | none =>
      rw [hl] at hs
      obtain ⟨q, hq⟩ := Option.isSome_iff_exists.mp (by simpa using hs)
      rw [hq]
      exact congrArg some ((hr.basis hclean hpa hj).2 q hq).symm

theorem source_isSome :
    (r.source ops p (pa.toNat + j)).isSome ↔ (r.localSource ops p (pa.toNat + j)).isSome ∨
      (r.globalSource ops (pa.toNat + j)).isSome := by
  rw [source]
  cases r.localSource ops p (pa.toNat + j) with
  | none => simp
  | some q => simp

/-- **A load that stays clear of the slips is right unless it needs a global upper byte.** -/
theorem load_right_iff (h : Reaches Start (LegalStep ops) r) (hstamps : r.InStamps)
    (hpa : Aligned sz pa) (hp : p < nproc) (hclean : r.Clean ops sz pa) :
    ∃ m, r.mvm.readValueNow ops (MemOp.new sz p pa) = .ok m ∧
      (r.RightLoad ops sz p pa m ↔ ¬ (r.Sourced ops sz p pa ∧ r.GlobalUpper ops sz p pa)) := by
  obtain ⟨hbasic, hok⟩ := ok_of_reaches h
  have hr := hok hstamps
  have hin := hpa.inLine
  obtain ⟨m, hm, hstate, hbytes⟩ := @readValueNow_spec ops _ (hbasic.stamped hstamps) _ _ _ hin hp
  refine ⟨m, hm, ?_⟩
  have hbound : m.state = .valueBound ↔
      r.Sourced ops sz p pa ∧ ¬ r.GlobalUpper ops sz p pa := by
    have hall : m.state = .valueBound ↔
        ∀ j < sz / 8, (r.mvm.found ops (keyOf pa) p (byteAt pa j)).1 ≠ 0 := by
      rw [hstate]
      split <;> simp_all
    rw [hall]
    constructor
    · intro hfound
      refine ⟨fun j hj => ?_, ?_⟩
      · rw [source_isSome]
        exact ((hr.found_ne_zero hclean hin hj).mp (hfound j hj)).imp_right And.left
      · rintro ⟨j, hj, hup, hlocal, -⟩
        rcases (hr.found_ne_zero hclean hin hj).mp (hfound j hj) with hl | ⟨-, hlow⟩
        · rw [hlocal] at hl
          cases hl
        · omega
    · rintro ⟨hsourced, hno⟩ j hj
      rw [hr.found_ne_zero hclean hin hj]
      rcases source_isSome.mp (hsourced j hj) with hl | hg
      · exact Or.inl hl
      · by_cases hl : (r.localSource ops p (pa.toNat + j)).isSome
        · exact Or.inl hl
        · refine Or.inr ⟨hg, ?_⟩
          by_contra hup
          exact hno ⟨j, hj, by omega, by simpa using hl, hg⟩
  constructor
  · rintro ⟨hiff, -⟩ ⟨hsourced, hupper⟩
    exact (hbound.mp (hiff.mpr hsourced)).2 hupper
  · intro hno
    refine ⟨?_, ?_⟩
    · rw [hbound]
      exact ⟨fun hb => hb.1, fun hs => ⟨hs, fun hu => hno ⟨hs, hu⟩⟩⟩
    · intro hb j hj
      rw [hbytes j hj]
      exact hr.found_snd hclean hin hj ((hbound.mp hb).1 j hj)

end Source

/-- Every store is one of byte `pa` by `processor`. -/
def byteStore (processor : Nat) (pa : BitVec 64) : Ref → MemOp := fun _ => MemOp.new 8 processor pa

/-- A processor reads back byte 3, which it has just written. -/
theorem load_right_iff_local : ∃ (t : Run) (m : MemOp),
    Run.empty.exec (byteStore 1 3) (.locallyVisible 0) = .ok t ∧
      t.mvm.readValueNow (byteStore 1 3) (MemOp.new 8 1 3) = .ok m ∧
      (t.RightLoad (byteStore 1 3) 8 1 3 m ↔
        ¬ (t.Sourced (byteStore 1 3) 8 1 3 ∧ t.GlobalUpper (byteStore 1 3) 8 1 3)) := by
  have hal : Aligned 8 3 := ⟨by decide, by decide⟩
  obtain ⟨t, ht⟩ : ∃ t, Run.empty.exec (byteStore 1 3) (.locallyVisible 0) = .ok t := ⟨_, rfl⟩
  have hlocals : t.locals = [0] := (exec_spec ht).2.1
  have hglobals : t.globals = [] := (exec_spec ht).2.2.1
  have hstamped : t.stamped = 1 := (exec_spec ht).2.2.2.2
  have hclean : t.Clean (byteStore 1 3) 8 3 := by
    constructor
    · rw [hlocals, hglobals]
      decide
    · rw [hglobals]
      decide
  obtain ⟨m, hm, hright⟩ := load_right_iff (p := 1)
    (start_empty.step ⟨.locallyVisible 0, ⟨List.not_mem_nil, hal⟩, ht⟩)
    (show t.stamped ≤ _ by rw [hstamped]; decide) hal (by decide) hclean
  exact ⟨t, m, ht, hm, hright⟩

/-- Byte 8 is globally visible, and a load of it is not bound. -/
theorem load_wrong_in_upper_half : ∃ (t : Run) (m : MemOp),
    Reaches Start (LegalStep (byteStore 0 8)) t ∧ t.InStamps ∧ Aligned 8 8 ∧
      t.mvm.readValueNow (byteStore 0 8) (MemOp.new 8 0 8) = .ok m ∧
      ¬ t.RightLoad (byteStore 0 8) 8 0 8 m := by
  have hal : Aligned 8 8 := ⟨by decide, by decide⟩
  obtain ⟨t, ht⟩ : ∃ t, Run.empty.exec (byteStore 0 8) (.globallyVisible 0) = .ok t := ⟨_, rfl⟩
  have hreach : Reaches Start (LegalStep (byteStore 0 8)) t :=
    start_empty.step ⟨.globallyVisible 0, ⟨Or.inr List.not_mem_nil, hal⟩, ht⟩
  injection ht with ht
  have hin : t.InStamps := by
    rw [← ht]
    exact Nat.zero_le _
  obtain ⟨m, hm, -⟩ := @readValueNow_spec (byteStore 0 8) _ ((ok_of_reaches hreach).1.stamped hin)
    _ _ _ hal.inLine (show 0 < nproc by decide)
  refine ⟨t, m, hreach, hin, hal, hm, ?_⟩
  rintro ⟨hiff, -⟩
  have hbound := hiff.mpr (by rw [← ht]; unfold Sourced; decide)
  have hstate := congrArg (fun x => x.toOption.map MemOp.state) hm
  rw [← ht] at hstate
  have hnot : some MemState.valueNotBound = some m.state := hstate
  rw [hbound] at hnot
  cases hnot

end Run

end AsimFeeder.MemoryValues
