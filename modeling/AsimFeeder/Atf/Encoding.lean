/-
Numbers as they are written, and that they are read back.

Words are written with their low byte first.  A short difference has five bits and a sign,
counted from one in both directions since zero is never written; a middle one has three
bytes.
-/
import AsimFeeder.Atf.Reader

namespace AsimFeeder.Atf

/-- Byte `k` of a word. -/
def byteOf {w : Nat} (k : Nat) (x : BitVec w) : Byte :=
  (x >>> (8 * k)).setWidth 8

/-- `EMIT_LW`. -/
def lwBytes (datum : BitVec 32) : List Byte :=
  [byteOf 0 datum, byteOf 1 datum, byteOf 2 datum, byteOf 3 datum]

/-- `EMIT_QW`. -/
def qwBytes (datum : U64) : List Byte :=
  [byteOf 0 datum, byteOf 1 datum, byteOf 2 datum, byteOf 3 datum, byteOf 4 datum,
    byteOf 5 datum, byteOf 6 datum, byteOf 7 datum]

/-- `EMIT_DELTA3`. -/
def delta3Bytes (datum : BitVec 32) : List Byte :=
  [byteOf 0 datum, byteOf 1 datum, byteOf 2 datum]

/-- `DELTAT_CODEA`: create a 5-bit delta value. -/
def deltatCodea (delta : U64) : Byte :=
  if delta.toInt < 0 then ((-(delta + 1) &&& 0x1f) ||| 0x20).setWidth 8
  else ((delta - 1) &&& 0x1f).setWidth 8

/-! ### What was written is read back -/

theorem getByte_cons (b : Byte) (fp : List Byte) : getByte (b :: fp) = (b, fp) := by
  simp only [getByte, fgetc, Prod.mk.injEq, and_true]
  exact BitVec.setWidth_setWidth_of_le b (by decide)

theorem getLw_lwBytes (x : BitVec 32) (fp : List Byte) : getLw (lwBytes x ++ fp) = (x, fp) := by
  simp only [getLw, lwBytes, List.cons_append, List.nil_append, fgetc, Prod.mk.injEq, and_true]
  ext i hi
  simp only [byteOf, BitVec.getElem_or, BitVec.getElem_shiftLeft, BitVec.getElem_setWidth,
    BitVec.getLsbD_setWidth, BitVec.getLsbD_ushiftRight]
  grind

/-- A word of 64 bits is written as its two halves. -/
theorem qwBytes_eq (x : U64) :
    qwBytes x = lwBytes (x.setWidth 32) ++ lwBytes ((x >>> 32).setWidth 32) := by
  have hlow {k : Nat} (hk : k < 4) : byteOf k (x.setWidth 32) = byteOf k x := by
    ext i hi
    simp only [byteOf, BitVec.getElem_setWidth, BitVec.getLsbD_ushiftRight,
      BitVec.getLsbD_setWidth]
    grind
  have hhigh {k : Nat} (hk : k < 4) : byteOf k ((x >>> 32).setWidth 32) = byteOf (k + 4) x := by
    ext i hi
    simp only [byteOf, BitVec.getElem_setWidth, BitVec.getLsbD_ushiftRight,
      BitVec.getLsbD_setWidth]
    grind
  simp only [lwBytes, hlow (by decide : 0 < 4), hlow (by decide : 1 < 4),
    hlow (by decide : 2 < 4), hlow (by decide : 3 < 4), hhigh (by decide : 0 < 4),
    hhigh (by decide : 1 < 4), hhigh (by decide : 2 < 4), hhigh (by decide : 3 < 4)]
  rfl

theorem getQw_qwBytes (x : U64) (fp : List Byte) : getQw (qwBytes x ++ fp) = (x, fp) := by
  rw [qwBytes_eq, List.append_assoc]
  simp only [getQw, getLw_lwBytes, Prod.mk.injEq, and_true]
  ext i hi
  simp only [BitVec.getElem_or, BitVec.getElem_shiftLeft, BitVec.getElem_setWidth,
    BitVec.getLsbD_setWidth, BitVec.getLsbD_ushiftRight]
  grind

/-- What has a sign and fits in `v + 1` bits is in its low bits. -/
theorem signExtend_setWidth {v : Nat} (hv : v < 64) {delta : U64}
    (hlow : -2 ^ v ≤ delta.toInt) (hhigh : delta.toInt < 2 ^ v) :
    (delta.setWidth (v + 1)).signExtend 64 = delta := by
  have hpow : (2 : Int) ^ (v + 1) = 2 * 2 ^ v := by rw [pow_succ, mul_comm]
  apply BitVec.eq_of_toInt_eq
  rw [BitVec.toInt_signExtend_of_le hv, ← BitVec.signExtend_eq_setWidth_of_le _ hv,
    BitVec.toInt_signExtend_eq_toInt_bmod_of_le _ hv]
  apply Int.bmod_eq_of_le
  · push_cast
    omega
  · push_cast
    omega

theorem extend3_setWidth (d : BitVec 24) : extend3 (d.setWidth 32) = d.signExtend 32 := by
  have hsign : d.setWidth 32 &&& 0x800000 = if d.getLsbD 23 then 0x800000 else 0 := by
    have h := BitVec.and_twoPow (d.setWidth 32) 23
    rwa [BitVec.getLsbD_setWidth] at h
  unfold extend3
  rw [hsign]
  cases hmsb : d.getLsbD 23 with
  | false =>
      rw [BitVec.signExtend_eq_setWidth_of_msb_false (BitVec.msb_eq_getLsbD_last d ▸ hmsb)]
      rfl
  | true =>
      rw [if_pos (by decide)]
      ext i hi
      rw [BitVec.getElem_or, BitVec.getElem_setWidth, BitVec.getElem_signExtend]
      rw [← BitVec.getLsbD_eq_getElem]
      by_cases hi24 : i < 24
      · have hlow : ∀ i : Fin 24, (0xff000000 : BitVec 32).getLsbD i.val = false := by decide
        rw [dif_pos hi24, hlow ⟨i, hi24⟩, Bool.or_false, BitVec.getLsbD_eq_getElem]
      · have hhigh : ∀ i : Fin 32, 24 ≤ i.val → (0xff000000 : BitVec 32).getLsbD i.val = true := by
          decide
        rw [dif_neg hi24, hhigh ⟨i, hi⟩ (Nat.le_of_not_lt hi24), Bool.or_true,
          BitVec.msb_eq_getLsbD_last, hmsb]

theorem getDelta3_signExtend (d : BitVec 24) (fp : List Byte) :
    getDelta3 (delta3Bytes (d.signExtend 32) ++ fp) = (d.signExtend 32, fp) := by
  have hbits : (byteOf 0 (d.signExtend 32)).setWidth 32 |||
      (byteOf 1 (d.signExtend 32)).setWidth 32 <<< 8 |||
      (byteOf 2 (d.signExtend 32)).setWidth 32 <<< 16 = d.setWidth 32 := by
    ext i hi
    simp only [byteOf, BitVec.getElem_or, BitVec.getElem_shiftLeft, BitVec.getElem_setWidth,
      BitVec.getLsbD_setWidth, BitVec.getLsbD_ushiftRight, BitVec.getLsbD_signExtend]
    grind
  simp only [getDelta3, delta3Bytes, List.cons_append, List.nil_append, fgetc, hbits,
    extend3_setWidth]

/-- Three bytes hold what has a sign and 23 bits. -/
theorem getDelta3_delta3Bytes {delta : U64} (hlow : -2 ^ 23 ≤ delta.toInt)
    (hhigh : delta.toInt < 2 ^ 23) (fp : List Byte) :
    ∃ datum, getDelta3 (delta3Bytes (delta.setWidth 32) ++ fp) = (datum, fp) ∧
      datum.signExtend 64 = delta := by
  have hdelta := signExtend_setWidth (by decide) hlow hhigh
  refine ⟨(delta.setWidth 24).signExtend 32, ?_, ?_⟩
  · have hlow : delta.setWidth 32 = (delta.setWidth 24).signExtend 32 := by
      rw [← congrArg (BitVec.setWidth 32) hdelta]
      ext i hi
      rw [BitVec.getElem_setWidth, BitVec.getLsbD_signExtend, BitVec.getElem_signExtend]
      grind
    rw [hlow, getDelta3_signExtend]
  · apply BitVec.eq_of_toInt_eq
    rw [BitVec.toInt_signExtend_of_le (by decide), BitVec.toInt_signExtend_of_le (by decide),
      ← BitVec.toInt_signExtend_of_le (by decide : 24 ≤ 64), hdelta]

/-- Five bits and a sign hold what is not zero and at most 32. -/
theorem valueDeltat_deltatCodea {delta : U64} (hlow : -32 ≤ delta.toInt) (hhigh : delta.toInt ≤ 32)
    (hne : delta ≠ 0) : valueDeltat (deltatCodea delta) = delta := by
  have hall : ∀ d : BitVec 7, -32 ≤ d.toInt → d.toInt ≤ 32 → d ≠ 0 →
      valueDeltat (deltatCodea (d.signExtend 64)) = d.signExtend 64 := by decide +kernel
  have hdelta : (delta.setWidth 7).signExtend 64 = delta :=
    signExtend_setWidth (by decide) (by omega) (by omega)
  have hint : (delta.setWidth 7).toInt = delta.toInt := by
    rw [← BitVec.toInt_signExtend_of_le (by decide : 7 ≤ 64), hdelta]
  have h := hall (delta.setWidth 7) (by omega) (by omega) (by
    intro h
    rw [h] at hdelta
    exact hne hdelta.symm)
  rwa [hdelta] at h

end AsimFeeder.Atf
