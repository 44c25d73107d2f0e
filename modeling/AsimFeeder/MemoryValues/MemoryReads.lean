/-
What `read_value_now` computes, byte by byte.

The tracker's counter is the number of stamps that are still zero, so none of its
assertions can fire and `done` says that every byte has a stamp.  Each byte of the load
then goes its own way through the list of stores: a scan for the newest store that touches
it (`Lib/Scan.lean`), which starts from the global byte.
-/
import AsimFeeder.MemoryValues.MemoryValues
import AsimFeeder.Lib.Scan
import Mathlib

namespace AsimFeeder.MemoryValues

open AsimFeeder.Lib

/-! ### The tracker -/

/-- `t` tracks the `n` bytes from `f` on. -/
structure Tracker.Tracks (f n : Nat) (t : Tracker) : Prop where
  firstReq : t.firstReq = f
  lastReq : t.lastReq = f + n
  fits : f + n ≤ 16
  other : ∀ k : Fin 16, ¬ (f ≤ k.val ∧ k.val < f + n) → t.stamps k = maxStamp
  rqd : t.rqd = (Finset.univ.filter fun k => t.stamps k = 0).card

section Tracker

variable {f n s : Nat} {t : Tracker} {k : Fin 16}

private theorem card_region (h : f + n ≤ 16) :
    (Finset.univ.filter fun k : Fin 16 => f ≤ k.val ∧ k.val < f + n).card = n := by
  have himage : (Finset.univ.filter fun k : Fin 16 => f ≤ k.val ∧ k.val < f + n).image Fin.val =
      Finset.Ico f (f + n) := by
    ext k
    simp only [Finset.mem_image, Finset.mem_filter, Finset.mem_univ, true_and, Finset.mem_Ico]
    constructor
    · rintro ⟨k, hk, rfl⟩
      exact hk
    · intro hk
      exact ⟨⟨k, by omega⟩, hk, rfl⟩
  rw [← Finset.card_image_of_injective _ Fin.val_injective, himage, Nat.card_Ico]
  omega

theorem Tracker.new_spec {a : BitVec 64} {sz : Nat} (h : (index128b a).val + sz / 8 ≤ 16) :
    ∃ t, Tracker.new a sz = .ok t ∧ Tracker.Tracks (index128b a).val (sz / 8) t ∧
      ∀ k : Fin 16, t.stamps k =
        if (index128b a).val ≤ k.val ∧ k.val < (index128b a).val + sz / 8 then 0 else maxStamp := by
  refine ⟨_, if_pos h, ⟨rfl, rfl, h, ?_, ?_⟩, fun _ => rfl⟩
  · intro k hk
    exact if_neg hk
  · refine (card_region h).symm.trans ?_
    congr 1
    ext k
    simp only [Finset.mem_filter, Finset.mem_univ, true_and]
    by_cases hk : (index128b a).val ≤ k.val ∧ k.val < (index128b a).val + sz / 8
    · rw [if_pos hk]
      exact iff_of_true hk rfl
    · rw [if_neg hk]
      exact iff_of_false hk (by decide)

theorem Tracker.Tracks.done_iff (ht : t.Tracks f n) : t.done = true ↔ ∀ k, t.stamps k ≠ 0 := by
  rw [Tracker.done, beq_iff_eq, ht.rqd, Finset.card_eq_zero, Finset.filter_eq_empty_iff]
  simp

/-- A byte that can take the stamp `s` is one of the bytes of the load. -/
theorem Tracker.Tracks.mem_of_lt (ht : t.Tracks f n) (hs : s ≤ maxStamp) (h : t.stamps k < s) :
    f ≤ k.val ∧ k.val < f + n := by
  by_contra hk
  have := ht.other k hk
  omega

theorem Tracker.Tracks.shouldStampIdx (ht : t.Tracks f n) (hpos : 0 < s) (hs : s ≤ maxStamp) :
    t.shouldStampIdx k s = .ok (decide (t.stamps k < s)) := by
  rw [Tracker.shouldStampIdx, if_pos hpos, ht.firstReq, ht.lastReq]
  by_cases h : t.stamps k < s
  · have hk := ht.mem_of_lt hs h
    rw [decide_eq_true hk.1, decide_eq_true (show k.val ≤ f + n by omega), decide_eq_true h]
    rfl
  · rw [decide_eq_false h, Bool.and_false]

/-- The tracker after byte `k` takes the stamp `s`. -/
theorem Tracker.Tracks.stampIdx (ht : t.Tracks f n) (hs : s ≤ maxStamp) (h : t.stamps k < s) :
    ∃ t', t.stampIdx k s = .ok t' ∧ t'.Tracks f n ∧
      t'.stamps = Function.update t.stamps k s := by
  have hk := ht.mem_of_lt hs h
  have hother : ∀ j : Fin 16, ¬ (f ≤ j.val ∧ j.val < f + n) →
      Function.update t.stamps k s j = maxStamp := by
    intro j hj
    rw [Function.update_of_ne (by rintro rfl; exact hj hk), ht.other j hj]
  have hfirst := ht.firstReq
  have hlast := ht.lastReq
  rw [Tracker.stampIdx, if_neg (by omega), if_neg (by omega), if_neg (by omega), if_neg (by omega)]
  by_cases h0 : t.stamps k = 0
  · have hmem : k ∈ Finset.univ.filter fun k => t.stamps k = 0 := by simp [h0]
    have hpos : 0 < t.rqd := by
      rw [ht.rqd]
      exact Finset.card_pos.mpr ⟨k, hmem⟩
    rw [if_pos h0, if_pos hpos]
    refine ⟨_, rfl, ⟨hfirst, hlast, ht.fits, hother, ?_⟩, rfl⟩
    show t.rqd - 1 = _
    rw [ht.rqd, ← Finset.card_erase_of_mem hmem]
    congr 1
    ext j
    by_cases hj : j = k
    · subst hj
      simp
      omega
    · simp [hj]
  · rw [if_neg h0]
    refine ⟨_, rfl, ⟨hfirst, hlast, ht.fits, hother, ?_⟩, rfl⟩
    show t.rqd = _
    rw [ht.rqd]
    congr 1
    ext j
    by_cases hj : j = k
    · subst hj
      simp [h0]
      omega
    · simp [hj]

/-! ### Global bytes -/

private theorem bit_ne_zero (b : BitVec 8) (i : Fin 16) :
    (b.setWidth 32 &&& 1#32 <<< i.val ≠ 0) ↔ b.getLsbD i.val = true := by
  show b.setWidth 32 &&& BitVec.twoPow 32 i.val ≠ 0 ↔ _
  have hi : i.val < 32 := by omega
  have hget : (b.setWidth 32).getLsbD i.val = b.getLsbD i.val := by
    rw [BitVec.getLsbD_setWidth, decide_eq_true hi, Bool.true_and]
  rw [BitVec.and_twoPow, hget]
  by_cases h : b.getLsbD i.val = true
  · rw [if_pos h]
    refine ⟨fun _ => h, fun _ h0 => ?_⟩
    have := congrArg BitVec.toNat h0
    rw [BitVec.toNat_twoPow, Nat.mod_eq_of_lt (Nat.pow_lt_pow_right (by omega) hi)] at this
    exact absurd this (by simp)
  · rw [if_neg h]
    simp [h]

/-- The stamps after the bytes `is` of the loop of `global_basis`. -/
theorem Tracker.Tracks.globalBytes {b : BitVec 8} {is : List (Fin 16)} (ht : t.Tracks f n) :
    ∃ t', is.foldlM (Tracker.globalByte b) t = .ok t' ∧ t'.Tracks f n ∧
      ∀ k, t'.stamps k =
        if k ∈ is ∧ b.getLsbD k.val = true ∧ t.stamps k = 0 then 1 else t.stamps k := by
  induction is generalizing t with
  | nil => exact ⟨t, rfl, ht, by simp⟩
  | cons i is ih =>
      rw [List.foldlM_cons]
      by_cases hstep : b.getLsbD i.val = true ∧ t.stamps i = 0
      · obtain ⟨hbit, h0⟩ := hstep
        obtain ⟨t1, h1, ht1, hst1⟩ :=
          ht.stampIdx (show 1 ≤ maxStamp by decide) (show t.stamps i < 1 by omega)
        obtain ⟨t2, h2, ht2, hst2⟩ := ih ht1
        refine ⟨t2, ?_, ht2, ?_⟩
        · rw [Tracker.globalByte, if_pos ((bit_ne_zero b i).mpr hbit),
            ht.shouldStampIdx (by omega) (by decide), decide_eq_true (show t.stamps i < 1 by omega)]
          show (t.stampIdx i 1).bind _ = _
          rw [h1]
          exact h2
        · intro k
          rw [hst2 k, hst1]
          by_cases hk : k = i
          · subst hk
            simp [hbit, h0]
          · simp [hk]
      · obtain ⟨t2, h2, ht2, hst2⟩ := ih ht
        refine ⟨t2, ?_, ht2, ?_⟩
        · rw [show Tracker.globalByte b t i = .ok t from ?_]
          · exact h2
          · rw [Tracker.globalByte]
            by_cases hbit : b.getLsbD i.val = true
            · rw [if_pos ((bit_ne_zero b i).mpr hbit), ht.shouldStampIdx (by omega) (by decide),
                decide_eq_false (by rintro h; exact hstep ⟨hbit, by omega⟩)]
              rfl
            · rw [if_neg (mt (bit_ne_zero b i).mp hbit)]
        · intro k
          rw [hst2 k]
          by_cases hk : k = i
          · subst hk
            rw [if_neg (fun h => hstep h.2), if_neg (fun h => hstep h.2)]
          · simp [hk]

theorem Tracker.Tracks.globalBasis {b : BitVec 8} (ht : t.Tracks f n) :
    ∃ t', t.globalBasis b = .ok t' ∧ t'.Tracks f n ∧
      ∀ k, t'.stamps k = if b.getLsbD k.val = true ∧ t.stamps k = 0 then 1 else t.stamps k := by
  obtain ⟨t', h, ht', hst⟩ := @Tracks.globalBytes _ _ _ b (List.finRange 16) ht
  exact ⟨t', h, ht', fun k => by rw [hst k]; simp⟩

end Tracker

/-! ### The stores -/

theorem MemOp.value_setValue8 (m : MemOp) (x : BitVec 8) (a : BitVec 64) (k : Fin 16) :
    (m.setValue8 x a).value k = if k = index128b a then x else m.value k :=
  Function.update_apply m.value (index128b a) x k

/-- The store touches byte `k` of its 16 bytes. -/
def MemOp.touches (st : MemOp) (k : Fin 16) : Bool :=
  (List.range (st.size / 8)).any fun idx => index128b (st.pa + BitVec.ofNat 64 idx) == k

/-- What a load knows of byte `k`: its stamp and its value. -/
def seen (x : Tracker × MemOp) (k : Fin 16) : Nat × BitVec 8 := (x.1.stamps k, x.2.value k)

/-- Two loads that differ in their values only. -/
def SameOp (m m' : MemOp) : Prop := ∃ v, m' = { m with value := v }

section Stores

variable {f n s : Nat} {x : Tracker × MemOp} {st : MemOp}

/-- The bytes `idxs` of the loop over one store. -/
theorem readBytes_spec {idxs : List Nat} (ht : x.1.Tracks f n) (hpos : 0 < s)
    (hs : s ≤ maxStamp) :
    ∃ x', idxs.foldlM (MemoryValueModel.readByte st s) x = .ok x' ∧ x'.1.Tracks f n ∧
      SameOp x.2 x'.2 ∧
      ∀ k, seen x' k =
        if (idxs.any fun idx => index128b (st.pa + BitVec.ofNat 64 idx) == k) ∧
          (seen x k).1 < s then
          (s, st.value k)
        else
          seen x k := by
  induction idxs generalizing x with
  | nil => exact ⟨x, rfl, ht, ⟨_, rfl⟩, by simp⟩
  | cons idx idxs ih =>
      rw [List.foldlM_cons]
      by_cases hlt : x.1.stamps (index128b (st.pa + BitVec.ofNat 64 idx)) < s
      · obtain ⟨t1, h1, ht1, hst1⟩ := ht.stampIdx hs hlt
        obtain ⟨x2, h2, ht2, ⟨v, hv⟩, hst2⟩ := @ih (t1, x.2.setValue8
          (st.getValue8 (st.pa + BitVec.ofNat 64 idx)) (st.pa + BitVec.ofNat 64 idx)) ht1
        refine ⟨x2, ?_, ht2, ⟨v, hv⟩, ?_⟩
        · rw [MemoryValueModel.readByte, ht.shouldStampIdx hpos hs, decide_eq_true hlt]
          show ((x.1.stampIdx _ s).bind _).bind _ = _
          rw [h1]
          exact h2
        · intro k
          rw [hst2 k]
          by_cases hk : k = index128b (st.pa + BitVec.ofNat 64 idx)
          · subst hk
            simp [seen, hst1, MemOp.value_setValue8, MemOp.getValue8, hlt]
          · simp [seen, hst1, MemOp.value_setValue8, hk, Ne.symm hk]
      · obtain ⟨x2, h2, ht2, hv, hst2⟩ := ih ht
        refine ⟨x2, ?_, ht2, hv, ?_⟩
        · rw [MemoryValueModel.readByte, ht.shouldStampIdx hpos hs, decide_eq_false hlt]
          exact h2
        · intro k
          rw [hst2 k]
          by_cases hk : k = index128b (st.pa + BitVec.ofNat 64 idx)
          · subst hk
            rw [if_neg (fun h => hlt h.2), if_neg (fun h => hlt h.2)]
          · simp [Ne.symm hk]

variable {ops : Ref → MemOp} {stamp : Ref → Nat}

/-- **Each byte goes through the list of stores on its own.** -/
theorem readStores_spec {l : List Ref} (ht : x.1.Tracks f n)
    (hstamp : ∀ r ∈ l, 0 < stamp r ∧ stamp r ≤ maxStamp) :
    ∃ x', l.foldlM (MemoryValueModel.readStore ops stamp) x = .ok x' ∧ x'.1.Tracks f n ∧
      SameOp x.2 x'.2 ∧
      ∀ k, seen x' k =
        scan (fun r => (ops r).touches k) stamp (fun r => (ops r).value k) l (seen x k) := by
  induction l generalizing x with
  | nil => exact ⟨x, rfl, ht, ⟨_, rfl⟩, fun _ => rfl⟩
  | cons r l ih =>
      obtain ⟨hpos, hs⟩ := hstamp r List.mem_cons_self
      obtain ⟨x1, h1, ht1, ⟨v1, hv1⟩, hst1⟩ :=
        @readBytes_spec _ _ _ _ (ops r) (List.range ((ops r).size / 8)) ht hpos hs
      obtain ⟨x2, h2, ht2, ⟨v2, hv2⟩, hst2⟩ :=
        ih ht1 fun q hq => hstamp q (List.mem_cons_of_mem r hq)
      refine ⟨x2, ?_, ht2, ⟨v2, by rw [hv2, hv1]⟩, ?_⟩
      · rw [List.foldlM_cons, MemoryValueModel.readStore, h1]
        exact h2
      · intro k
        rw [hst2 k, hst1 k]
        rfl

end Stores

/-! ### What a model shows -/

/-- The map key of the 16 bytes around `a`. -/
def keyOf (a : BitVec 64) : BitVec 64 := (mask128b a).setWidth 64

/-- The stores of processor `p`, newest first. -/
def MemCell.stores (c : MemCell) (p : Nat) : List Ref := (c.localValues[p]?.getD none).getD []

theorem MemCell.stores_new (p : Nat) : MemCell.new.stores p = [] := by
  rw [MemCell.stores, MemCell.new, List.getElem?_replicate]
  split <;> rfl

namespace MemoryValueModel

variable (s : MemoryValueModel)

/-- The cell with this key; a cell that does not exist shows what a new one does. -/
def cellAt (key : BitVec 64) : MemCell := (s.memops key).getD MemCell.new

/-- The stores processor `p` sees alone in a cell, newest first. -/
def localStores (key : BitVec 64) (p : Nat) : List Ref := (s.cellAt key).stores p

/-- Byte `k` of a cell is globally visible. -/
def hasByte (key : BitVec 64) (k : Fin 16) : Bool := (s.cellAt key).hasGlobalValue.getLsbD k.val

def globalByte (key : BitVec 64) (k : Fin 16) : BitVec 8 := (s.cellAt key).globalValue k

/-- The global byte a load starts from; `global_basis` takes its argument in 8 bits. -/
def basis (key : BitVec 64) (k : Fin 16) : Nat × BitVec 8 :=
  (if s.hasByte key k = true ∧ k.val < 8 then 1 else 0, s.globalByte key k)

/-- What processor `p` finds for byte `k` of a cell. -/
def found (ops : Ref → MemOp) (key : BitVec 64) (p : Nat) (k : Fin 16) : Nat × BitVec 8 :=
  scan (fun r => (ops r).touches k) s.timeStamp (fun r => (ops r).value k)
    (s.localStores key p) (s.basis key k)

/-- The arrays of the cells have their size, and the stores in them carry a stamp. -/
structure Stamped : Prop where
  size : ∀ key, (s.cellAt key).localValues.length = nproc
  stamps : ∀ key p, ∀ r ∈ s.localStores key p, 0 < s.timeStamp r ∧ s.timeStamp r ≤ maxStamp

end MemoryValueModel

/-- Bytes `i` of a load of `sz` bits from `pa` on. -/
def byteAt (pa : BitVec 64) (i : Nat) : Fin 16 := index128b (pa + BitVec.ofNat 64 i)

/-- A region of `sz` bits that stays in its 16 bytes. -/
structure InLine (sz : Nat) (pa : BitVec 64) : Prop where
  pos : 0 < sz / 8
  fits : pa.toNat % 16 + sz / 8 ≤ 16

theorem val_index128b (a : BitVec 64) : (index128b a).val = a.toNat % 16 := by
  show (a &&& 0xF).toNat % 16 = _
  rw [BitVec.toNat_and, show (0xF : BitVec 64).toNat = 2 ^ 4 - 1 from rfl,
    Nat.and_two_pow_sub_one_eq_mod, Nat.mod_mod]

theorem toNat_keyOf (a : BitVec 64) : (keyOf a).toNat = a.toNat % 2 ^ 32 / 16 * 16 := by
  have hmask : ((~~~0xF#32).setWidth 64).toNat = (2 ^ 28 - 1) * 2 ^ 4 := rfl
  have hlt := a.isLt
  rw [keyOf, mask128b, BitVec.toNat_setWidth, BitVec.toNat_setWidth, BitVec.toNat_and, hmask,
    show 16 = 2 ^ 4 from rfl]
  apply Nat.eq_of_testBit_eq
  intro i
  rw [Nat.testBit_mod_two_pow, Nat.testBit_mod_two_pow, Nat.testBit_and, Nat.testBit_mul_two_pow,
    Nat.testBit_two_pow_sub_one, Nat.testBit_mul_two_pow, Nat.testBit_div_two_pow,
    Nat.testBit_mod_two_pow]
  by_cases h4 : 4 ≤ i
  · rw [Nat.sub_add_cancel h4, decide_eq_true h4]
    by_cases h32 : i < 32
    · rw [decide_eq_true (show i < 64 by omega), decide_eq_true (show i - 4 < 28 by omega)]
      simp
    · rw [decide_eq_false h32, decide_eq_false (show ¬ i - 4 < 28 by omega)]
      simp
  · rw [decide_eq_false h4]
    simp

section InLine

variable {sz : Nat} {pa : BitVec 64}

theorem InLine.toNat_add (h : InLine sz pa) {i : Nat} (hi : i < sz / 8) :
    (pa + BitVec.ofNat 64 i).toNat = pa.toNat + i := by
  have := h.fits
  have := pa.isLt
  rw [BitVec.toNat_add, BitVec.toNat_ofNat]
  omega

theorem InLine.val_byteAt (h : InLine sz pa) {i : Nat} (hi : i < sz / 8) :
    (byteAt pa i).val = pa.toNat % 16 + i := by
  have := h.fits
  rw [byteAt, val_index128b, h.toNat_add hi]
  omega

/-- The low 32 bits of an address, from its cell and its byte. -/
theorem InLine.low32 (h : InLine sz pa) {i : Nat} (hi : i < sz / 8) :
    (pa.toNat + i) % 2 ^ 32 = (keyOf pa).toNat + (byteAt pa i).val := by
  have := h.fits
  rw [toNat_keyOf, h.val_byteAt hi]
  omega

/-- The bytes of a region are those its tracker asks for. -/
theorem InLine.exists_byteAt (h : InLine sz pa) {k : Fin 16} :
    (pa.toNat % 16 ≤ k.val ∧ k.val < pa.toNat % 16 + sz / 8) ↔ ∃ i < sz / 8, byteAt pa i = k := by
  constructor
  · rintro ⟨hlo, hhi⟩
    refine ⟨k.val - pa.toNat % 16, by omega, Fin.ext ?_⟩
    rw [h.val_byteAt (by omega)]
    omega
  · rintro ⟨i, hi, rfl⟩
    rw [h.val_byteAt hi]
    omega

end InLine

theorem MemOp.touches_iff (st : MemOp) (k : Fin 16) :
    st.touches k = true ↔ ∃ i < st.size / 8, byteAt st.pa i = k := by
  simp [MemOp.touches, byteAt]

section Found

variable {ops : Ref → MemOp} {s : MemoryValueModel} {key : BitVec 64} {p : Nat} {k : Fin 16}

private theorem found_none (h : s.memops key = none) : s.found ops key p k = (0, 0) := by
  have hcell : s.cellAt key = MemCell.new := by rw [MemoryValueModel.cellAt, h, Option.getD_none]
  rw [MemoryValueModel.found, MemoryValueModel.localStores, hcell, MemCell.stores_new,
    MemoryValueModel.basis, MemoryValueModel.hasByte, MemoryValueModel.globalByte, hcell]
  simp [scan, MemCell.new, UWord128.zero]

/-- What the code starts the scan of a cell from. -/
private theorem basis_eq :
    s.basis key k =
      (if ((s.cellAt key).hasGlobalValue.setWidth 8).getLsbD k.val = true then 1 else 0,
        (s.cellAt key).globalValue k) := by
  rw [MemoryValueModel.basis, MemoryValueModel.hasByte, MemoryValueModel.globalByte,
    BitVec.getLsbD_setWidth]
  by_cases hk : k.val < 8 <;> simp [hk]

end Found

/-- **What `read_value_now` binds to a new load.** -/
theorem readValueNow_spec {ops : Ref → MemOp} {s : MemoryValueModel} (hs : s.Stamped) {sz p : Nat}
    {pa : BitVec 64} (hpa : InLine sz pa) (hp : p < nproc) :
    ∃ m, s.readValueNow ops (MemOp.new sz p pa) = .ok m ∧
      (m.state = if ∀ i < sz / 8, (s.found ops (keyOf pa) p (byteAt pa i)).1 ≠ 0 then
        .valueBound else .valueNotBound) ∧
      ∀ i < sz / 8, m.getValue8 (pa + BitVec.ofNat 64 i) =
        (s.found ops (keyOf pa) p (byteAt pa i)).2 := by
  obtain ⟨t0, h0, ht0, hst0⟩ := Tracker.new_spec (by rw [val_index128b]; exact hpa.fits)
  rw [val_index128b] at ht0 hst0
  cases hcell : s.memops (keyOf pa) with
  | none =>
      refine ⟨{ MemOp.new sz p pa with state := .valueNotBound }, ?_, ?_, ?_⟩
      · have hcell' : s.memops ((mask128b (MemOp.new sz p pa).pa).setWidth 64) = none := hcell
        have h0' : Tracker.new (MemOp.new sz p pa).pa (MemOp.new sz p pa).size = .ok t0 := h0
        simp only [MemoryValueModel.readValueNow, h0', hcell', bind, Except.bind]
        rfl
      · rw [if_neg (fun h => h 0 hpa.pos (by rw [found_none hcell]))]
      · intro i _
        rw [found_none hcell]
        rfl
  | some cell =>
      have hat : s.cellAt (keyOf pa) = cell := by
        rw [MemoryValueModel.cellAt, hcell, Option.getD_some]
      obtain ⟨t1, h1, ht1, hst1⟩ := @Tracker.Tracks.globalBasis _ _ _
        (cell.hasGlobalValue.setWidth 8) ht0
      have hlst : cell.localValues[p]? = some (cell.localValues[p]?.getD none) := by
        rw [List.getElem?_eq_getElem (by rw [← hat, hs.size]; exact hp), Option.getD_some]
      have hlocal : s.localStores (keyOf pa) p = (cell.localValues[p]?.getD none).getD [] := by
        rw [MemoryValueModel.localStores, hat, MemCell.stores]
      have hstamps := hs.stamps (keyOf pa) p
      rw [hlocal] at hstamps
      obtain ⟨⟨t2, m2⟩, h2, ht2, ⟨v, hv⟩, hseen⟩ := @readStores_spec _ _
        (t1, (MemOp.new sz p pa).setValue128 cell.globalValue) ops s.timeStamp _ ht1 hstamps
      have hfound : ∀ i < sz / 8, seen (t2, m2) (byteAt pa i) =
          s.found ops (keyOf pa) p (byteAt pa i) := by
        intro i hi
        rw [hseen, MemoryValueModel.found, hlocal, basis_eq, hat, seen, hst1, hst0,
          if_pos (hpa.exists_byteAt.mpr ⟨i, hi, rfl⟩)]
        simp [MemOp.setValue128]
      have hdone : t2.done = true ↔
          ∀ i < sz / 8, (s.found ops (keyOf pa) p (byteAt pa i)).1 ≠ 0 := by
        rw [ht2.done_iff]
        constructor
        · intro h i hi
          rw [← hfound i hi]
          exact h _
        · intro h k
          by_cases hk : pa.toNat % 16 ≤ k.val ∧ k.val < pa.toNat % 16 + sz / 8
          · obtain ⟨i, hi, rfl⟩ := hpa.exists_byteAt.mp hk
            have := h i hi
            rwa [← hfound i hi] at this
          · rw [ht2.other k hk]
            decide
      refine ⟨{ m2 with state := if t2.done then .valueBound else .valueNotBound }, ?_, ?_, ?_⟩
      · have hcell' : s.memops ((mask128b (MemOp.new sz p pa).pa).setWidth 64) = some cell := hcell
        have h0' : Tracker.new (MemOp.new sz p pa).pa (MemOp.new sz p pa).size = .ok t0 := h0
        have hlst' :
            cell.localValues[((MemOp.new sz p pa).setValue128 cell.globalValue).processor]? =
            some (cell.localValues[p]?.getD none) := hlst
        simp only [MemoryValueModel.readValueNow, h0', hcell', h1, hlst', h2, bind, Except.bind]
        rw [show m2 = _ from hv]
        cases t2.done <;> rfl
      · show (if t2.done = true then MemState.valueBound else MemState.valueNotBound) = _
        simp only [hdone]
      · intro i hi
        rw [← hfound i hi]
        rfl

end AsimFeeder.MemoryValues
