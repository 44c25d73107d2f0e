/-
The checksum of the lock-step tool (`md5.h`, `md5.cpp`).

`MD5` takes bytes in pieces of any size and compresses them in blocks of 64.  What has not
filled a block yet waits in `in`, and the number of bytes so far is kept in two words.
`finalize` pads what waits, with one more block where the padding does not fit, and writes the
length behind it.

The specification hashes a whole message at once: `md5` pads the message, compresses its
blocks in order, and each block goes through the 64 rounds as a loop over a table.  The code
has the rounds written out with the registers changing places.
-/
import AsimFeeder.Lib.BlockHash

namespace AsimFeeder.SoftSDV

open AsimFeeder.Lib

/-! ### The words of a block -/

/-- The four words of the checksum (`buf`), and the registers `transform` works on. -/
structure Regs where
  a : UInt32
  b : UInt32
  c : UInt32
  d : UInt32
deriving DecidableEq, Repr

/-- A word in memory, low byte first. -/
def wordBytes (w : UInt32) : List UInt8 :=
  [w.toUInt8, (w >>> 8).toUInt8, (w >>> 16).toUInt8, (w >>> 24).toUInt8]

/-- Word `i` of a block. -/
def blockWord (block : List UInt8) (i : Nat) : UInt32 :=
  (block.getD (4 * i) 0).toUInt32 ||| (block.getD (4 * i + 1) 0).toUInt32 <<< 8 |||
    (block.getD (4 * i + 2) 0).toUInt32 <<< 16 ||| (block.getD (4 * i + 3) 0).toUInt32 <<< 24

@[simp] theorem wordBytes_length (w : UInt32) : (wordBytes w).length = 4 := rfl

/-! ### The code: `transform` -/

def F1 (x y z : UInt32) : UInt32 := z ^^^ (x &&& (y ^^^ z))

def F2 (x y z : UInt32) : UInt32 := F1 z x y

def F3 (x y z : UInt32) : UInt32 := x ^^^ y ^^^ z

def F4 (x y z : UInt32) : UInt32 := y ^^^ (x ||| ~~~z)

/-- `MD5STEP`: the new value of `w`. -/
def MD5STEP (f : UInt32 → UInt32 → UInt32 → UInt32) (w x y z in_ s : UInt32) : UInt32 :=
  let w := w + (f x y z + in_)
  (w <<< s ||| w >>> (32 - s)) + x

/-- The four steps that go once around the registers. -/
def steps (f : UInt32 → UInt32 → UInt32 → UInt32) (s₀ s₁ s₂ s₃ in₀ in₁ in₂ in₃ : UInt32)
    (r : Regs) : Regs :=
  let a := MD5STEP f r.a r.b r.c r.d in₀ s₀
  let d := MD5STEP f r.d a r.b r.c in₁ s₁
  let c := MD5STEP f r.c d a r.b in₂ s₂
  let b := MD5STEP f r.b c d a in₃ s₃
  { a, b, c, d }

/-- `MD5::transform`, on the checksum and the words of `in`. -/
def transform (buf : Regs) (in_ : Nat → UInt32) : Regs :=
  let r := buf
  let r := steps F1 7 12 17 22
    (in_ 0 + 0xd76aa478) (in_ 1 + 0xe8c7b756) (in_ 2 + 0x242070db) (in_ 3 + 0xc1bdceee) r
  let r := steps F1 7 12 17 22
    (in_ 4 + 0xf57c0faf) (in_ 5 + 0x4787c62a) (in_ 6 + 0xa8304613) (in_ 7 + 0xfd469501) r
  let r := steps F1 7 12 17 22
    (in_ 8 + 0x698098d8) (in_ 9 + 0x8b44f7af) (in_ 10 + 0xffff5bb1) (in_ 11 + 0x895cd7be) r
  let r := steps F1 7 12 17 22
    (in_ 12 + 0x6b901122) (in_ 13 + 0xfd987193) (in_ 14 + 0xa679438e) (in_ 15 + 0x49b40821) r
  let r := steps F2 5 9 14 20
    (in_ 1 + 0xf61e2562) (in_ 6 + 0xc040b340) (in_ 11 + 0x265e5a51) (in_ 0 + 0xe9b6c7aa) r
  let r := steps F2 5 9 14 20
    (in_ 5 + 0xd62f105d) (in_ 10 + 0x02441453) (in_ 15 + 0xd8a1e681) (in_ 4 + 0xe7d3fbc8) r
  let r := steps F2 5 9 14 20
    (in_ 9 + 0x21e1cde6) (in_ 14 + 0xc33707d6) (in_ 3 + 0xf4d50d87) (in_ 8 + 0x455a14ed) r
  let r := steps F2 5 9 14 20
    (in_ 13 + 0xa9e3e905) (in_ 2 + 0xfcefa3f8) (in_ 7 + 0x676f02d9) (in_ 12 + 0x8d2a4c8a) r
  let r := steps F3 4 11 16 23
    (in_ 5 + 0xfffa3942) (in_ 8 + 0x8771f681) (in_ 11 + 0x6d9d6122) (in_ 14 + 0xfde5380c) r
  let r := steps F3 4 11 16 23
    (in_ 1 + 0xa4beea44) (in_ 4 + 0x4bdecfa9) (in_ 7 + 0xf6bb4b60) (in_ 10 + 0xbebfbc70) r
  let r := steps F3 4 11 16 23
    (in_ 13 + 0x289b7ec6) (in_ 0 + 0xeaa127fa) (in_ 3 + 0xd4ef3085) (in_ 6 + 0x04881d05) r
  let r := steps F3 4 11 16 23
    (in_ 9 + 0xd9d4d039) (in_ 12 + 0xe6db99e5) (in_ 15 + 0x1fa27cf8) (in_ 2 + 0xc4ac5665) r
  let r := steps F4 6 10 15 21
    (in_ 0 + 0xf4292244) (in_ 7 + 0x432aff97) (in_ 14 + 0xab9423a7) (in_ 5 + 0xfc93a039) r
  let r := steps F4 6 10 15 21
    (in_ 12 + 0x655b59c3) (in_ 3 + 0x8f0ccc92) (in_ 10 + 0xffeff47d) (in_ 1 + 0x85845dd1) r
  let r := steps F4 6 10 15 21
    (in_ 8 + 0x6fa87e4f) (in_ 15 + 0xfe2ce6e0) (in_ 6 + 0xa3014314) (in_ 13 + 0x4e0811a1) r
  let r := steps F4 6 10 15 21
    (in_ 4 + 0xf7537e82) (in_ 11 + 0xbd3af235) (in_ 2 + 0x2ad7d2bb) (in_ 9 + 0xeb86d391) r
  { a := buf.a + r.a, b := buf.b + r.b, c := buf.c + r.c, d := buf.d + r.d }

/-! ### The code: bytes in pieces -/

/-- The bytes of one `update`; their number is an `unsigned`. -/
abbrev Piece := {l : List UInt8 // l.length < 2 ^ 32}

/-- `memcpy` into the 64 bytes of `in`. -/
def memcpyIn (dst : Vector UInt8 64) (off : Nat) (src : List UInt8) (h : off + src.length ≤ 64) :
    Vector UInt8 64 :=
  ⟨(dst.toList.take off ++ src ++ dst.toList.drop (off + src.length)).toArray, by simp; omega⟩

theorem word_fits {off : Nat} (w : UInt32) (h : off + 4 ≤ 64) :
    off + (wordBytes w).length ≤ 64 := by
  rw [wordBytes_length]
  exact h

structure MD5 where
  digest : List UInt8
  buf : Regs
  bytes₀ : UInt32
  bytes₁ : UInt32
  in_ : Vector UInt8 64
  finalized : Bool

namespace MD5

def initBuf : Regs := { a := 0x67452301, b := 0xefcdab89, c := 0x98badcfe, d := 0x10325476 }

def reset (m : MD5) : MD5 :=
  { m with finalized := false, buf := initBuf, bytes₀ := 0, bytes₁ := 0 }

def transform (m : MD5) : MD5 := { m with buf := SoftSDV.transform m.buf (blockWord m.in_.toList) }

/-- The loop of `update` over chunks of 64 bytes, and the copy of what remains. -/
def updateChunks (m : MD5) (inbuf : List UInt8) : MD5 :=
  if h : 64 ≤ inbuf.length then
    updateChunks ({ m with in_ := memcpyIn m.in_ 0 (inbuf.take 64) (by simp) }).transform
      (inbuf.drop 64)
  else
    { m with in_ := memcpyIn m.in_ 0 inbuf (by omega) }
termination_by inbuf.length
decreasing_by rw [List.length_drop]; omega

/-- The bytes that wait in `in`. -/
def waiting (bytes₀ : UInt32) : Nat := (bytes₀ &&& 0x3f).toNat

theorem waiting_lt (bytes₀ : UInt32) : waiting bytes₀ < 64 := by
  have : waiting bytes₀ ≤ 63 := by
    simp only [waiting, UInt32.toNat_and]
    exact Nat.and_le_right
  omega

def update (m : MD5) (inbuf : Piece) : MD5 :=
  let t := m.bytes₀
  let bytes₀ := t + UInt32.ofNat inbuf.val.length
  let m := { m with bytes₀, bytes₁ := if bytes₀ < t then m.bytes₁ + 1 else m.bytes₁ }
  -- the space that is left, at least 1
  let space := 64 - waiting t
  if h : inbuf.val.length < space then
    { m with in_ := memcpyIn m.in_ (64 - space) inbuf.val (by omega) }
  else
    have hspace : 64 - space + (inbuf.val.take space).length ≤ 64 := by
      rw [List.length_take]
      omega
    updateChunks
      ({ m with in_ := memcpyIn m.in_ (64 - space) (inbuf.val.take space) hspace }).transform
      (inbuf.val.drop space)

/-- The padding before the length: `memset` behind the byte 0x80, with one more block where the
length would not fit. -/
def pad (m : MD5) : MD5 :=
  let n := waiting m.bytes₀
  have hn : n < 64 := waiting_lt m.bytes₀
  let m := { m with in_ := memcpyIn m.in_ n [0x80] (by simp; omega) }
  if h : 56 - 1 < n then
    let m := ({ m with
      in_ := memcpyIn m.in_ (n + 1) (.replicate (63 - n) 0) (by simp; omega) }).transform
    { m with in_ := memcpyIn m.in_ 0 (.replicate 56 0) (by simp) }
  else
    { m with in_ := memcpyIn m.in_ (n + 1) (.replicate (55 - n) 0) (by simp; omega) }

def finalize (m : MD5) : MD5 :=
  let m := m.pad
  let m := { m with
    in_ := memcpyIn m.in_ 56 (wordBytes (m.bytes₀ <<< 3)) (word_fits _ (by decide)) }
  let m := { m with
    in_ :=
      memcpyIn m.in_ 60 (wordBytes (m.bytes₁ <<< 3 ||| m.bytes₀ >>> 29))
        (word_fits _ (by decide)) }
  let m := m.transform
  { m with
    digest := wordBytes m.buf.a ++ wordBytes m.buf.b ++ wordBytes m.buf.c ++ wordBytes m.buf.d
    finalized := true }

end MD5

/-! ### What it is for: the checksum of a whole message -/

/-- The constant of each round. -/
def roundConstants : List UInt32 :=
  [0xd76aa478, 0xe8c7b756, 0x242070db, 0xc1bdceee, 0xf57c0faf, 0x4787c62a, 0xa8304613, 0xfd469501,
   0x698098d8, 0x8b44f7af, 0xffff5bb1, 0x895cd7be, 0x6b901122, 0xfd987193, 0xa679438e, 0x49b40821,
   0xf61e2562, 0xc040b340, 0x265e5a51, 0xe9b6c7aa, 0xd62f105d, 0x02441453, 0xd8a1e681, 0xe7d3fbc8,
   0x21e1cde6, 0xc33707d6, 0xf4d50d87, 0x455a14ed, 0xa9e3e905, 0xfcefa3f8, 0x676f02d9, 0x8d2a4c8a,
   0xfffa3942, 0x8771f681, 0x6d9d6122, 0xfde5380c, 0xa4beea44, 0x4bdecfa9, 0xf6bb4b60, 0xbebfbc70,
   0x289b7ec6, 0xeaa127fa, 0xd4ef3085, 0x04881d05, 0xd9d4d039, 0xe6db99e5, 0x1fa27cf8, 0xc4ac5665,
   0xf4292244, 0x432aff97, 0xab9423a7, 0xfc93a039, 0x655b59c3, 0x8f0ccc92, 0xffeff47d, 0x85845dd1,
   0x6fa87e4f, 0xfe2ce6e0, 0xa3014314, 0x4e0811a1, 0xf7537e82, 0xbd3af235, 0x2ad7d2bb, 0xeb86d391]

/-- What the rounds from `16 * q` on mix of three registers. -/
def roundMix : Nat → UInt32 → UInt32 → UInt32 → UInt32
  | 0, x, y, z => (x &&& y) ||| (~~~x &&& z)
  | 1, x, y, z => (x &&& z) ||| (y &&& ~~~z)
  | 2, x, y, z => x ^^^ y ^^^ z
  | _, x, y, z => y ^^^ (x ||| ~~~z)

/-- The word of the block that a round adds. -/
def roundWord (i : Nat) : Nat :=
  match i / 16 with
  | 0 => i % 16
  | 1 => (5 * i + 1) % 16
  | 2 => (3 * i + 5) % 16
  | _ => 7 * i % 16

/-- How far a round rotates. -/
def roundShifts : Nat → List UInt32
  | 0 => [7, 12, 17, 22]
  | 1 => [5, 9, 14, 20]
  | 2 => [4, 11, 16, 23]
  | _ => [6, 10, 15, 21]

def roundShift (i : Nat) : UInt32 := (roundShifts (i / 16)).getD (i % 4) 0

def rotateLeft (x s : UInt32) : UInt32 := x <<< s ||| x >>> (32 - s)

/-- One round: the registers move on by one, and one of them is mixed. -/
def round (block : List UInt8) (r : Regs) (i : Nat) : Regs :=
  let mixed := r.a + roundMix (i / 16) r.b r.c r.d + blockWord block (roundWord i) +
    roundConstants.getD i 0
  { a := r.d, b := r.b + rotateLeft mixed (roundShift i), c := r.b, d := r.c }

/-- A block changes the checksum by what its 64 rounds make of it. -/
def compress (buf : Regs) (block : List UInt8) : Regs :=
  let r := (List.range 64).foldl (round block) buf
  { a := buf.a + r.a, b := buf.b + r.b, c := buf.c + r.c, d := buf.d + r.d }

/-- The number of bits in 64 bits, low byte first. -/
def lengthBytes (n : Nat) : List UInt8 := (List.range 8).map fun i => UInt8.ofNat (8 * n / 256 ^ i)

/-- The message, a bit that is set, as few zeros as fill a block, and the length. -/
def padded (l : List UInt8) : List UInt8 :=
  l ++ [0x80] ++ .replicate ((119 - l.length % 64) % 64) 0 ++ lengthBytes l.length

/-- **The checksum of a message.** -/
def md5 (l : List UInt8) : List UInt8 :=
  let r := (absorb compress 64 MD5.initBuf (padded l)).1
  wordBytes r.a ++ wordBytes r.b ++ wordBytes r.c ++ wordBytes r.d

end AsimFeeder.SoftSDV
