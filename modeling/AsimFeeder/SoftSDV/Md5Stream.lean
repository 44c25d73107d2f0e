/-
The checksum in pieces is the checksum of the whole (`md5.cpp`).

`Holds` says what an `MD5` knows of the bytes so far: the checksum after the whole blocks, the
bytes that wait, and the count in two words.  Every `update` keeps it, whatever the size of the
piece, and `finalize` completes it by the padding.
-/
import AsimFeeder.SoftSDV.Md5

namespace AsimFeeder.SoftSDV

open AsimFeeder.Lib

/-! ### The rounds written out are the rounds of the loop -/

theorem F1_eq : F1 = roundMix 0 := by
  funext x y z
  apply UInt32.eq_of_toBitVec_eq
  ext i hi
  simp only [F1, roundMix, UInt32.toBitVec_xor, UInt32.toBitVec_and, UInt32.toBitVec_or,
    UInt32.toBitVec_not, BitVec.getElem_xor, BitVec.getElem_and, BitVec.getElem_or,
      BitVec.getElem_not]
  cases x.toBitVec[i] <;> cases y.toBitVec[i] <;> cases z.toBitVec[i] <;> rfl

theorem F2_eq : F2 = roundMix 1 := by
  funext x y z
  rw [F2, F1_eq]
  simp only [roundMix]
  rw [UInt32.and_comm z x, UInt32.and_comm (~~~z) y]

theorem F3_eq : F3 = roundMix 2 := rfl

theorem F4_eq : F4 = roundMix 3 := rfl

/-- A step of the code changes one register, the one that the round moves away. -/
theorem MD5STEP_eq (f : UInt32 → UInt32 → UInt32 → UInt32) (w x y z m k s : UInt32) :
    MD5STEP f w x y z (m + k) s = x + rotateLeft (w + f x y z + m + k) s := by
  simp only [MD5STEP, rotateLeft, UInt32.add_assoc]
  rw [UInt32.add_comm]

/-- Four rounds from `4 * j` on, the way the code writes them. -/
def fourSteps (block : List UInt8) (r : Regs) (j : Nat) : Regs :=
  steps (roundMix (4 * j / 16))
    (roundShift (4 * j)) (roundShift (4 * j + 1)) (roundShift (4 * j + 2)) (roundShift (4 * j + 3))
    (blockWord block (roundWord (4 * j)) + roundConstants.getD (4 * j) 0)
    (blockWord block (roundWord (4 * j + 1)) + roundConstants.getD (4 * j + 1) 0)
    (blockWord block (roundWord (4 * j + 2)) + roundConstants.getD (4 * j + 2) 0)
    (blockWord block (roundWord (4 * j + 3)) + roundConstants.getD (4 * j + 3) 0) r

/-- Four rounds go once around the registers. -/
theorem rounds_eq_fourSteps (block : List UInt8) (r : Regs) (j : Nat) :
    [4 * j, 4 * j + 1, 4 * j + 2, 4 * j + 3].foldl (round block) r = fourSteps block r j := by
  have h1 : (4 * j + 1) / 16 = 4 * j / 16 := by omega
  have h2 : (4 * j + 2) / 16 = 4 * j / 16 := by omega
  have h3 : (4 * j + 3) / 16 = 4 * j / 16 := by omega
  simp only [List.foldl_cons, List.foldl_nil, round, fourSteps, steps, MD5STEP_eq, h1, h2, h3]

theorem rounds_eq_steps (buf : Regs) (block : List UInt8) :
    (List.range 64).foldl (round block) buf = (List.range 16).foldl (fourSteps block) buf := by
  have hrange : List.range 64 =
      (List.range 16).flatMap fun j => [4 * j, 4 * j + 1, 4 * j + 2, 4 * j + 3] := by decide
  rw [hrange, List.foldl_flatMap]
  simp only [rounds_eq_fourSteps]

/-- **The rounds that are written out are the rounds of the loop.** -/
theorem transform_eq_compress (buf : Regs) (block : List UInt8) :
    transform buf (blockWord block) = compress buf block := by
  have hrange : List.range 16 = [0, 1, 2, 3, 4, 5, 6, 7, 8, 9, 10, 11, 12, 13, 14, 15] := rfl
  simp only [compress, rounds_eq_steps, hrange, List.foldl_cons, List.foldl_nil, transform,
    F1_eq, F2_eq, F3_eq, F4_eq]
  rfl

/-! ### What an `MD5` knows of the bytes so far -/

@[simp] theorem memcpyIn_toList (dst : Vector UInt8 64) (off : Nat) (src : List UInt8)
    (h : off + src.length ≤ 64) :
    (memcpyIn dst off src h).toList = dst.toList.take off ++ src ++ dst.toList.drop
      (off + src.length) := by
  simp [memcpyIn]

/-- What was copied, and what stands before it, is what is in front. -/
theorem memcpyIn_take {dst : Vector UInt8 64} {off n : Nat} {src : List UInt8}
    {h : off + src.length ≤ 64} (hn : n = off + src.length) :
    (memcpyIn dst off src h).toList.take n = dst.toList.take off ++ src := by
  have hlen : (dst.toList.take off ++ src).length = n := by
    rw [List.length_append, List.length_take, Vector.length_toList]
    omega
  rw [memcpyIn_toList, List.take_append_of_le_length (by omega), List.take_of_length_le (by omega)]

/-- A copy up to the end makes the block whole. -/
theorem memcpyIn_full {dst : Vector UInt8 64} {off n : Nat} {src : List UInt8}
    {h : off + src.length ≤ 64} (hoff : off = n) (hfull : 64 = off + src.length) :
    (memcpyIn dst off src h).toList = dst.toList.take n ++ src := by
  rw [← hoff, ← memcpyIn_take hfull, List.take_of_length_le (by simp)]

namespace MD5

theorem transform_buf (m : MD5) : m.transform.buf = compress m.buf m.in_.toList :=
  transform_eq_compress m.buf m.in_.toList

@[simp] theorem transform_bytes₀ (m : MD5) : m.transform.bytes₀ = m.bytes₀ := by
  rw [transform]

@[simp] theorem transform_bytes₁ (m : MD5) : m.transform.bytes₁ = m.bytes₁ := by
  rw [transform]

@[simp] theorem transform_in (m : MD5) : m.transform.in_ = m.in_ := by
  rw [transform]

/-- The checksum after the whole blocks of `l`, with the rest waiting. -/
structure Absorbed (s : Regs) (l : List UInt8) (m : MD5) : Prop where
  buf : (absorb compress 64 s l).1 = m.buf
  waits : (absorb compress 64 s l).2 = m.in_.toList.take (l.length % 64)

/-- What an `MD5` knows of the bytes since `reset`. -/
structure Holds (l : List UInt8) (m : MD5) : Prop where
  absorbed : Absorbed initBuf l m
  low : m.bytes₀.toNat = l.length % 2 ^ 32
  high : m.bytes₁.toNat = l.length / 2 ^ 32 % 2 ^ 32

theorem reset_holds (m : MD5) : Holds [] m.reset where
  absorbed := ⟨rfl, rfl⟩
  low := rfl
  high := rfl

theorem waiting_eq {l : List UInt8} {m : MD5} (h : Holds l m) :
    waiting m.bytes₀ = l.length % 64 := by
  have hmask : m.bytes₀.toNat &&& 63 = m.bytes₀.toNat % 64 := Nat.and_two_pow_sub_one_eq_mod _ 6
  have hlow := h.low
  simp only [waiting, UInt32.toNat_and, UInt32.reduceToNat, hmask]
  omega

/-- What a step leaves of the count. -/
def SameCount (m m' : MD5) : Prop := m'.bytes₀ = m.bytes₀ ∧ m'.bytes₁ = m.bytes₁

/-- The loop absorbs its chunks and keeps what remains. -/
theorem updateChunks_spec (m : MD5) (inbuf : List UInt8) :
    Absorbed m.buf inbuf (m.updateChunks inbuf) ∧ SameCount m (m.updateChunks inbuf) := by
  induction m, inbuf using updateChunks.induct with
  | case1 m inbuf h ih =>
      obtain ⟨⟨hbuf, hwaits⟩, hcount⟩ := ih
      have hblock : (memcpyIn m.in_ 0 (inbuf.take 64) (by simp)).toList = inbuf.take 64 := by
        have htake : 64 = 0 + (inbuf.take 64).length := by
          simp only [List.length_take]
          omega
        rw [memcpyIn_full rfl htake]
        rfl
      have hlen : inbuf.length % 64 = (inbuf.drop 64).length % 64 := by
        rw [List.length_drop]
        omega
      have hstep := absorb_step compress m.buf (by decide) h
      simp only [transform_buf, hblock] at hbuf hwaits
      rw [updateChunks, dif_pos h]
      refine ⟨⟨?_, ?_⟩, ?_, ?_⟩
      · rw [hstep, hbuf]
      · rw [hstep, hwaits, hlen]
      · rw [hcount.1, transform_bytes₀]
      · rw [hcount.2, transform_bytes₁]
  | case2 m inbuf h =>
      have hlt : inbuf.length < 64 := by omega
      rw [updateChunks, dif_neg h]
      refine ⟨⟨?_, ?_⟩, rfl, rfl⟩
      · rw [absorb_short compress _ hlt]
      · rw [absorb_short compress _ hlt, Nat.mod_eq_of_lt hlt, memcpyIn_take (by omega)]
        rfl

/-- The count of bytes, with the carry from the low word to the high one. -/
theorem count_carry {n len : Nat} {t u : UInt32} (ht : t.toNat = n % 2 ^ 32)
    (hu : u.toNat = n / 2 ^ 32 % 2 ^ 32) (hlen : len < 2 ^ 32) :
    (t + UInt32.ofNat len).toNat = (n + len) % 2 ^ 32 ∧
      (if t + UInt32.ofNat len < t then u + 1 else u).toNat = (n + len) / 2 ^ 32 % 2 ^ 32 := by
  have hsum : (t + UInt32.ofNat len).toNat = (n + len) % 2 ^ 32 := by
    rw [UInt32.toNat_add, UInt32.toNat_ofNat', ht]
    omega
  refine ⟨hsum, ?_⟩
  by_cases hcarry : t + UInt32.ofNat len < t
  · rw [if_pos hcarry, UInt32.toNat_add, hu]
    rw [UInt32.lt_iff_toNat_lt, hsum, ht] at hcarry
    have : (1 : UInt32).toNat = 1 := rfl
    omega
  · rw [if_neg hcarry, hu]
    rw [UInt32.lt_iff_toNat_lt, hsum, ht] at hcarry
    omega

/-- The bytes that wait come first. -/
theorem Holds.append {l : List UInt8} {m : MD5} (h : Holds l m) (more : List UInt8) :
    absorb compress 64 initBuf (l ++ more) =
      absorb compress 64 m.buf (m.in_.toList.take (l.length % 64) ++ more) := by
  rw [absorb_append compress initBuf l more (by decide), h.absorbed.buf, h.absorbed.waits]

theorem Holds.waiting_length {l : List UInt8} {m : MD5} (h : Holds l m) :
    (m.in_.toList.take (l.length % 64)).length = l.length % 64 := by
  rw [← h.absorbed.waits, absorb_waiting_length]

/-- **A piece of any size is added to the bytes so far.** -/
theorem update_holds {l : List UInt8} {m : MD5} (h : Holds l m) (piece : Piece) :
    Holds (l ++ piece.val) (m.update piece) := by
  have hcount := count_carry h.low h.high piece.property
  have hlt : l.length % 64 < 64 := Nat.mod_lt _ (by decide)
  have happ := h.append piece.val
  have hwlen := h.waiting_length
  have hoff : 64 - (64 - l.length % 64) = l.length % 64 := by omega
  simp only [update, waiting_eq h]
  by_cases hspace : piece.val.length < 64 - l.length % 64
  · -- the piece waits with the rest
    have hshort : (m.in_.toList.take (l.length % 64) ++ piece.val).length < 64 := by
      rw [List.length_append, hwlen]
      omega
    have hmod : (l ++ piece.val).length % 64 = l.length % 64 + piece.val.length := by
      rw [List.length_append]
      omega
    rw [absorb_short compress _ hshort] at happ
    rw [dif_pos hspace]
    refine ⟨⟨?_, ?_⟩, ?_, ?_⟩
    · rw [happ]
    · simp only [happ, hmod, hoff]
      rw [memcpyIn_take rfl]
    · simpa using hcount.1
    · simpa using hcount.2
  · -- the block that waits is filled, and the chunks behind it follow
    have htake : (piece.val.take (64 - l.length % 64)).length = 64 - l.length % 64 := by
      rw [List.length_take]
      omega
    have hmod : (l ++ piece.val).length % 64 =
      (piece.val.drop (64 - l.length % 64)).length % 64 := by
      rw [List.length_append, List.length_drop]
      omega
    have hblock :
        (m.in_.toList.take (l.length % 64) ++ piece.val.take (64 - l.length % 64)).length
          = 64 := by
      rw [List.length_append, hwlen, htake]
      omega
    have hcat : absorb compress 64 initBuf (l ++ piece.val) =
        absorb compress 64
          (compress m.buf
            (m.in_.toList.take (l.length % 64) ++ piece.val.take (64 - l.length % 64)))
          (piece.val.drop (64 - l.length % 64)) := by
      rw [happ, ← absorb_block_append compress _ (by decide) hblock, List.append_assoc,
        List.take_append_drop]
    rw [dif_neg hspace]
    obtain ⟨⟨hbuf, hwaits⟩, hlow, hhigh⟩ := updateChunks_spec
      ({ m with
          bytes₀ := m.bytes₀ + UInt32.ofNat piece.val.length
          bytes₁ := if m.bytes₀ + UInt32.ofNat piece.val.length <
            m.bytes₀ then m.bytes₁ + 1 else m.bytes₁
          in_ := memcpyIn m.in_ (64 - (64 - l.length % 64)) (piece.val.take (64 - l.length % 64))
            (by omega) }).transform (piece.val.drop (64 - l.length % 64))
    simp only [transform_buf] at hbuf hwaits
    rw [memcpyIn_full hoff (by omega)] at hbuf hwaits
    refine ⟨⟨?_, ?_⟩, ?_, ?_⟩
    · rw [hcat, hbuf]
    · rw [hcat, hwaits, hmod]
    · rw [hlow, List.length_append]
      exact hcount.1
    · rw [hhigh, List.length_append]
      exact hcount.2

/-! ### The padding -/

/-- The bytes of a number, low byte first. -/
theorem wordBytes_eq (w : UInt32) :
    wordBytes w = (List.range 4).map fun i => UInt8.ofNat (w.toNat / 256 ^ i) := by
  have hrange : List.range 4 = [0, 1, 2, 3] := rfl
  have hbyte : ∀ k < 32, (w >>> UInt32.ofNat k).toUInt8 = UInt8.ofNat (w.toNat / 2 ^ k) := by
    intro k hk
    apply UInt8.toNat_inj.mp
    rw [UInt32.toNat_toUInt8, UInt32.toNat_shiftRight, UInt8.toNat_ofNat', UInt32.toNat_ofNat',
      Nat.shiftRight_eq_div_pow]
    congr 3
    omega
  have h8 := hbyte 8 (by decide)
  have h16 := hbyte 16 (by decide)
  have h24 := hbyte 24 (by decide)
  simp at h8 h16 h24
  simp [wordBytes, hrange, h8, h16, h24]

/-- The two words of the length are its eight bytes. -/
theorem lengthBytes_eq {n : Nat} {t u : UInt32} (ht : t.toNat = n % 2 ^ 32)
    (hu : u.toNat = n / 2 ^ 32 % 2 ^ 32) :
    wordBytes (t <<< 3) ++ wordBytes (u <<< 3 ||| t >>> 29) = lengthBytes n := by
  have hlow : (t <<< 3).toNat = 8 * n % 2 ^ 32 := by
    rw [UInt32.toNat_shiftLeft, ht, Nat.shiftLeft_eq]
    simp
    omega
  have hhigh : (u <<< 3 ||| t >>> 29).toNat = 8 * n / 2 ^ 32 % 2 ^ 32 := by
    have hu3 : (u <<< 3).toNat = (n / 2 ^ 32 % 2 ^ 29) <<< 3 := by
      rw [UInt32.toNat_shiftLeft, hu, Nat.shiftLeft_eq, Nat.shiftLeft_eq]
      simp
      omega
    have ht29 : (t >>> 29).toNat = n % 2 ^ 32 / 2 ^ 29 := by
      rw [UInt32.toNat_shiftRight, ht, Nat.shiftRight_eq_div_pow]
      rfl
    -- three bits of the low word come under the high one
    rw [UInt32.toNat_or, hu3, ht29, ← Nat.shiftLeft_add_eq_or_of_lt (by omega), Nat.shiftLeft_eq]
    omega
  have hrange : List.range 8 = [0, 1, 2, 3, 4, 5, 6, 7] := rfl
  have hrange' : List.range 4 = [0, 1, 2, 3] := rfl
  have hbyte : ∀ a b : Nat, a % 256 = b % 256 → UInt8.ofNat a = UInt8.ofNat b := by
    intro a b h
    apply UInt8.toNat_inj.mp
    rw [UInt8.toNat_ofNat', UInt8.toNat_ofNat', h]
  simp only [wordBytes_eq, lengthBytes, hlow, hhigh, hrange, hrange', List.map_cons, List.map_nil,
    List.cons_append, List.nil_append, List.cons.injEq]
  refine ⟨?_, ?_, ?_, ?_, ?_, ?_, ?_, ?_, trivial⟩ <;> exact hbyte _ _ (by omega)

/-- What waits, with the padding behind it. -/
theorem Holds.padding {l : List UInt8} {m : MD5} (h : Holds l m) (n : Nat) :
    absorb compress 64 initBuf (l ++ [0x80] ++ .replicate n 0) =
      absorb compress 64 m.buf
        (m.in_.toList.take (l.length % 64) ++ [0x80] ++ .replicate n 0) := by
  rw [List.append_assoc, h.append, List.append_assoc]

/-- After the padding the length is all that is missing. -/
theorem pad_spec {l : List UInt8} {m : MD5} (h : Holds l m) :
    absorb compress 64 initBuf (l ++ [0x80] ++ .replicate ((119 - l.length % 64) % 64) 0) =
        (m.pad.buf, m.pad.in_.toList.take 56) ∧ SameCount m m.pad := by
  have hlt : l.length % 64 < 64 := Nat.mod_lt _ (by decide)
  have hwlen := h.waiting_length
  have hmark : (m.in_.toList.take (l.length % 64) ++ [0x80]).length = l.length % 64 + 1 := by
    rw [List.length_append, hwlen]
    rfl
  rw [h.padding]
  simp only [pad, waiting_eq h]
  by_cases hroom : 56 - 1 < l.length % 64
  · -- the zeros that fill the block, and those in front of the length
    have hzeros : (119 - l.length % 64) % 64 = (63 - l.length % 64) + 56 := by omega
    have hblock : (m.in_.toList.take (l.length % 64) ++ [0x80] ++
        List.replicate (63 - l.length % 64) 0).length = 64 := by
      rw [List.length_append, hmark, List.length_replicate]
      omega
    have hshort : (List.replicate 56 (0 : UInt8)).length < 64 := by
      rw [List.length_replicate]
      decide
    rw [dif_pos hroom, hzeros, List.replicate_add, ← List.append_assoc,
      absorb_block_append compress _ (by decide) hblock, absorb_short compress _ hshort]
    refine ⟨?_, ?_, ?_⟩
    · simp only [transform_buf]
      rw [memcpyIn_full rfl (by simp; omega), memcpyIn_take (by simp), memcpyIn_take (by simp)]
      rfl
    · simp
    · simp
  · have hzeros : (119 - l.length % 64) % 64 = 55 - l.length % 64 := by omega
    have hshort : (m.in_.toList.take (l.length % 64) ++ [0x80] ++
        List.replicate (55 - l.length % 64) 0).length < 64 := by
      rw [List.length_append, hmark, List.length_replicate]
      omega
    rw [dif_neg hroom, hzeros, absorb_short compress _ hshort]
    refine ⟨?_, rfl, rfl⟩
    rw [memcpyIn_take (by simp; omega), memcpyIn_take (by simp)]

/-- **The checksum that `finalize` writes is that of all the bytes.** -/
theorem finalize_digest {l : List UInt8} {m : MD5} (h : Holds l m) : m.finalize.digest = md5 l := by
  obtain ⟨habs, hlow, hhigh⟩ := pad_spec h
  have hlength := lengthBytes_eq h.low h.high
  have hfull : (m.pad.in_.toList.take 56 ++ lengthBytes l.length).length = 64 := by
    simp [lengthBytes]
  have hmd5 : (absorb compress 64 initBuf (padded l)).1 =
      compress m.pad.buf (m.pad.in_.toList.take 56 ++ lengthBytes l.length) := by
    rw [padded, absorb_append compress _ _ _ (by decide), habs,
      absorb_block compress _ (by decide) hfull]
  have hcode : m.finalize.digest =
      (let r := compress m.pad.buf (m.pad.in_.toList.take 56 ++ lengthBytes l.length)
       wordBytes r.a ++ wordBytes r.b ++ wordBytes r.c ++ wordBytes r.d) := by
    simp only [finalize, transform_buf]
    rw [memcpyIn_full rfl (by simp), memcpyIn_take (by simp), hlow, hhigh,
      List.append_assoc (List.take 56 _), hlength]
  rw [hcode, md5, hmd5]

/-- All pieces are added, one after the other. -/
theorem updates_holds {l : List UInt8} {m : MD5} (h : Holds l m) (pieces : List Piece) :
    Holds (l ++ pieces.flatMap (·.val)) (pieces.foldl update m) := by
  induction pieces generalizing l m with
  | nil => simpa using h
  | cons piece pieces ih =>
      have hstep := ih (update_holds h piece)
      simpa [List.append_assoc] using hstep

/-- **However the bytes are cut into pieces, and whatever the object was used for before, the
digest is the checksum of their concatenation.** -/
theorem digest_of_pieces (m : MD5) (pieces : List Piece) :
    (pieces.foldl update m.reset).finalize.digest = md5 (pieces.flatMap (·.val)) := by
  have hholds := updates_holds (reset_holds m) pieces
  rw [List.nil_append] at hholds
  exact finalize_digest hholds

end MD5

end AsimFeeder.SoftSDV
