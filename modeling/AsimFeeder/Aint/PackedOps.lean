/-
Packed-integer instructions.

An instruction works on the lanes of `RA` and of `RB`, or of a local array that is filled
with the literal of the instruction, and stores into the lanes of `RC`.  When there is a
literal, the decoder names the zero register as `RB`.

A C integer that is narrower than an `int` is computed with as an `int` of 32 bits, and a
shift to the right of a signed one keeps the sign.  A routine has no result if it writes
behind its local array or shifts an `int` by 32.
-/
import AsimFeeder.Lib.Lanes
import Mathlib

namespace AsimFeeder.Aint.Packed

open Lib

/-- Register `RB`, or a literal. -/
inductive Operand
  | reg (rb : BitVec 64)
  | literal (l : BitVec 8)
  deriving DecidableEq, Repr

def Operand.RB : Operand → BitVec 64
  | .reg rb => rb
  | .literal _ => 0

/-- `(signed char) picode->literal`. -/
def signedLiteral (w : Nat) (l : BitVec 8) : BitVec w := l.signExtend w

/-- `(unsigned char) picode->literal`, or `picode->literal & 0xFF`. -/
def unsignedLiteral (w : Nat) (l : BitVec 8) : BitVec w := l.setWidth w

/-- `rbv`: the lanes of `RB`, or of an array of `size` lanes of which the first `filled` are
set to `temp`. -/
def rbv {w : Nat} (temp : BitVec 8 → BitVec w) (size filled : Nat) : Operand →
    Option (Nat → BitVec w)
  | .reg rb => some (lane w rb)
  | .literal l => if filled ≤ size then some fun _ => temp l else none

section Families

variable {w : Nat} (wide n : Nat) (rc ra : BitVec 64) (rbv : Nat → BitVec w)

/-- A sum of two lanes that is compared in `wide` bits, from above first. -/
def padds (top bottom : BitVec wide) (hi lo : BitVec w) : BitVec 64 :=
  forLanes n rc fun i =>
    let cnt := (lane w ra i).signExtend wide + (rbv i).signExtend wide
    if top.slt cnt then hi
    else if cnt.slt bottom then lo
    else lane w ra i + rbv i

/-- A difference that is compared in `wide` bits, from below first. -/
def psubs (bottom top : BitVec wide) (lo hi : BitVec w) : BitVec 64 :=
  forLanes n rc fun i =>
    let sum := (lane w ra i).signExtend wide - (rbv i).signExtend wide
    if sum.slt bottom then lo
    else if top.slt sum then hi
    else lane w ra i - rbv i

def paddu (max : BitVec wide) : BitVec 64 :=
  forLanes n rc fun i =>
    let sum := (lane w ra i).setWidth wide + (rbv i).setWidth wide
    (if max < sum then max else sum).setWidth w

def psubu : BitVec 64 :=
  forLanes n rc fun i => if rbv i < lane w ra i then lane w ra i - rbv i else 0

/-- `temp += rav[i]; temp += rbv[i]`, with what a lane is as a `long`. -/
def tadd (long : BitVec w → BitVec 64) : BitVec 64 :=
  (List.range n).foldl (fun temp i => temp + long (lane w ra i) + long (rbv i)) 0

def tsub (long : BitVec w → BitVec 64) : BitVec 64 :=
  (List.range n).foldl (fun temp i => temp + long (lane w ra i) - long (rbv i)) 0

def tmul (product : BitVec w → BitVec w → BitVec 64) : BitVec 64 :=
  (List.range n).foldl (fun temp i => temp + product (lane w ra i) (rbv i)) 0

/-- `rcv[i] = rav[i] >> cnt` or `<<`, with the count in the lowest lane of `RB`. -/
def pshift (shift : BitVec w → Nat → BitVec w) (mask : BitVec w) : BitVec 64 :=
  forLanes n rc fun i => shift (lane w ra i) (rbv 0 &&& mask).toNat

/-- `rcv[i] = rav[i] >> cnt; rcv[i] |= signs << (w - cnt)`. -/
def psra (sign mask : BitVec w) : BitVec 64 :=
  forLanes n rc fun i =>
    let cnt := (rbv 0 &&& mask).toNat
    let signs : BitVec w := if lane w ra i &&& sign ≠ 0 then BitVec.allOnes w else 0
    (lane w ra i).sshiftRight cnt ||| (signs <<< (w - cnt))

end Families

/-! ### The instructions -/

section Instructions

variable (rc ra : BitVec 64) (src : Operand)

def paddsb8 : Option (BitVec 64) :=
  (rbv (unsignedLiteral 8) 8 8 src).map fun rbv => padds 16 8 rc ra rbv 0x7F 0xFF80 0x7F 0x80

def paddsw4 : Option (BitVec 64) :=
  (rbv (signedLiteral 16) 4 4 src).map fun rbv =>
    padds 32 4 0 ra rbv 0x7FFF 0xFFFF8000 0x7FFF 0x8000

def paddsl2 : Option (BitVec 64) :=
  (rbv (signedLiteral 32) 2 2 src).map fun rbv =>
    padds 64 2 0 ra rbv 0x7FFFFFFF 0xFFFFFFFF80000000 0x7FFFFFFF 0x80000000

def paddub8 : Option (BitVec 64) :=
  (rbv (unsignedLiteral 8) 8 8 src).map fun rbv => paddu 16 8 rc ra rbv 0xFF

def padduw4 : Option (BitVec 64) :=
  (rbv (unsignedLiteral 16) 4 4 src).map fun rbv => paddu 32 4 0 ra rbv 0xFFFF

def paddul2 : Option (BitVec 64) :=
  (rbv (unsignedLiteral 32) 2 2 src).map fun rbv => paddu 64 2 0 ra rbv 0xFFFFFFFF

def psubsb8 : Option (BitVec 64) :=
  (rbv (unsignedLiteral 8) 8 8 src).map fun rbv => psubs 16 8 rc ra rbv 0xFF80 0x7F 0x80 0x7F

def psubsw4 : Option (BitVec 64) :=
  (rbv (unsignedLiteral 16) 4 4 src).map fun rbv =>
    psubs 32 4 0 ra rbv 0xFFFF8000 0x7FFF 0x8000 0x7FFF

/-- The lower bound goes through a `spixel32`. -/
def psubsl2 : Option (BitVec 64) :=
  (rbv (unsignedLiteral 32) 2 2 src).map fun rbv =>
    psubs 64 2 0 ra rbv (((0xFFFFFFFF80000000#64).setWidth 32).signExtend 64) 0x7FFFFFFF
      0x80000000 0x7FFFFFFF

def psubub8 : Option (BitVec 64) :=
  (rbv (unsignedLiteral 8) 8 8 src).map fun rbv => psubu 8 rc ra rbv

def psubuw4 : Option (BitVec 64) :=
  (rbv (unsignedLiteral 16) 4 4 src).map fun rbv => psubu 4 0 ra rbv

def psubul2 : Option (BitVec 64) :=
  (rbv (unsignedLiteral 32) 2 2 src).map fun rbv => psubu 2 0 ra rbv

def taddsb8 : Option (BitVec 64) :=
  (rbv (unsignedLiteral 8) 8 8 src).map fun rbv => tadd 8 ra rbv (·.signExtend 64)

def taddsw4 : Option (BitVec 64) :=
  (rbv (signedLiteral 16) 4 4 src).map fun rbv => tadd 4 ra rbv (·.signExtend 64)

def taddub8 : Option (BitVec 64) :=
  (rbv (unsignedLiteral 8) 8 8 src).map fun rbv => tadd 8 ra rbv (·.setWidth 64)

def tadduw4 : Option (BitVec 64) :=
  (rbv (unsignedLiteral 16) 4 4 src).map fun rbv => tadd 4 ra rbv (·.setWidth 64)

def tsubsb8 : Option (BitVec 64) :=
  (rbv (unsignedLiteral 8) 8 8 src).map fun rbv => tsub 8 ra rbv (·.signExtend 64)

def tsubsw4 : Option (BitVec 64) :=
  (rbv (unsignedLiteral 16) 4 4 src).map fun rbv => tsub 4 ra rbv (·.signExtend 64)

def tsubub8 : Option (BitVec 64) :=
  (rbv (unsignedLiteral 8) 8 8 src).map fun rbv => tsub 8 ra rbv (·.setWidth 64)

def tsubuw4 : Option (BitVec 64) :=
  (rbv (unsignedLiteral 16) 4 4 src).map fun rbv => tsub 4 ra rbv (·.setWidth 64)

/-- The array has four lanes, and eight are filled. -/
def tmulsb8 : Option (BitVec 64) :=
  (rbv (signedLiteral 8) 4 8 src).map fun rbv =>
    tmul 8 ra rbv fun a b => (a.signExtend 32 * b.signExtend 32).signExtend 64

def tmulsw4 : Option (BitVec 64) :=
  (rbv (signedLiteral 16) 4 4 src).map fun rbv =>
    tmul 4 ra rbv fun a b => (a.signExtend 32 * b.signExtend 32).signExtend 64

def tmulub8 : Option (BitVec 64) :=
  (rbv (unsignedLiteral 8) 4 8 src).map fun rbv =>
    tmul 8 ra rbv fun a b => (a.setWidth 32 * b.setWidth 32).signExtend 64

/-- The first factor is put into a `long` before. -/
def tmuluw4 : Option (BitVec 64) :=
  (rbv (unsignedLiteral 16) 4 4 src).map fun rbv =>
    tmul 4 ra rbv fun a b => a.setWidth 64 * b.setWidth 64

def tmulusb8 : Option (BitVec 64) :=
  (rbv (signedLiteral 8) 4 8 src).map fun rbv =>
    tmul 8 ra rbv fun a b => (a.setWidth 32 * b.signExtend 32).signExtend 64

/-- The product of an `upixel32` and a `spixel32` has no sign. -/
def tmulusw4 : Option (BitVec 64) :=
  (rbv (signedLiteral 16) 4 4 src).map fun rbv =>
    tmul 4 ra rbv fun a b => (a.setWidth 32 * b.signExtend 32).setWidth 64

def psrb8 : Option (BitVec 64) :=
  (rbv (unsignedLiteral 8) 8 8 src).map fun rbv => pshift 8 0 ra rbv (· >>> ·) 0x7

def psrw4 : Option (BitVec 64) :=
  (rbv (unsignedLiteral 16) 4 4 src).map fun rbv => pshift 4 0 ra rbv (· >>> ·) 0xF

def pslb8 : Option (BitVec 64) :=
  (rbv (unsignedLiteral 8) 8 8 src).map fun rbv => pshift 8 0 ra rbv (· <<< ·) 0x7

def pslw4 : Option (BitVec 64) :=
  (rbv (unsignedLiteral 16) 4 4 src).map fun rbv => pshift 4 0 ra rbv (· <<< ·) 0xF

def psll2 : Option (BitVec 64) :=
  (rbv (unsignedLiteral 32) 2 2 src).map fun rbv => pshift 2 0 ra rbv (· <<< ·) 0xF

def psrl2 : Option (BitVec 64) :=
  (rbv (unsignedLiteral 32) 2 2 src).map fun rbv => pshift 2 0 ra rbv (· >>> ·) 0x1F

/-- `signs` is an `int`, so that a count of zero shifts an `int` by 32. -/
def psral2 : Option (BitVec 64) :=
  (rbv (unsignedLiteral 32) 2 2 src).bind fun rbv =>
    if 32 - (rbv 0 &&& 0x1F).toNat < 32 then some (psra 2 0 ra rbv 0x80000000 0x1F) else none

/-- Four lanes of the array are filled, and one is looked at. -/
def psrab8 : Option (BitVec 64) :=
  (rbv (unsignedLiteral 8) 8 4 src).map fun rbv => psra 8 0 ra rbv 0x80 0x7

def psraw4 : Option (BitVec 64) :=
  (rbv (unsignedLiteral 16) 4 4 src).map fun rbv => psra 4 0 ra rbv 0x8000 0xF

/-- What `pkswb8` stores for a lane. -/
def pksLane (x : BitVec 16) : BitVec 8 :=
  if (0x00FF#16).slt x then 0x7F
  else if x.slt 0xFF80 then 0x80
  else (x &&& 0xFF).setWidth 8

/-- It does not look at the literal. -/
def pkswb8 : Option (BitVec 64) :=
  some (storeLanes ((List.range 4).flatMap fun i =>
    [(i, pksLane (lane 16 ra i)), (i + 4, pksLane (lane 16 src.RB i))]) 0)

end Instructions

inductive Opcode
  | paddsb8 | paddsw4 | paddsl2 | paddub8 | padduw4 | paddul2
  | psubsb8 | psubsw4 | psubsl2 | psubub8 | psubuw4 | psubul2
  | taddsb8 | taddsw4 | taddub8 | tadduw4 | tsubsb8 | tsubsw4 | tsubub8 | tsubuw4
  | tmulsb8 | tmulsw4 | tmulub8 | tmuluw4 | tmulusb8 | tmulusw4
  | psrb8 | psrw4 | pslb8 | pslw4 | psll2 | psrl2 | psral2 | psrab8 | psraw4 | pkswb8
  deriving DecidableEq, Repr

namespace Opcode

/-- What the instruction leaves in `RC`, if anything. -/
def func : Opcode → BitVec 64 → BitVec 64 → Operand → Option (BitVec 64)
  | .paddsb8 => fun rc ra src => Packed.paddsb8 rc ra src
  | .paddsw4 => fun _ ra src => Packed.paddsw4 ra src
  | .paddsl2 => fun _ ra src => Packed.paddsl2 ra src
  | .paddub8 => fun rc ra src => Packed.paddub8 rc ra src
  | .padduw4 => fun _ ra src => Packed.padduw4 ra src
  | .paddul2 => fun _ ra src => Packed.paddul2 ra src
  | .psubsb8 => fun rc ra src => Packed.psubsb8 rc ra src
  | .psubsw4 => fun _ ra src => Packed.psubsw4 ra src
  | .psubsl2 => fun _ ra src => Packed.psubsl2 ra src
  | .psubub8 => fun rc ra src => Packed.psubub8 rc ra src
  | .psubuw4 => fun _ ra src => Packed.psubuw4 ra src
  | .psubul2 => fun _ ra src => Packed.psubul2 ra src
  | .taddsb8 => fun _ ra src => Packed.taddsb8 ra src
  | .taddsw4 => fun _ ra src => Packed.taddsw4 ra src
  | .taddub8 => fun _ ra src => Packed.taddub8 ra src
  | .tadduw4 => fun _ ra src => Packed.tadduw4 ra src
  | .tsubsb8 => fun _ ra src => Packed.tsubsb8 ra src
  | .tsubsw4 => fun _ ra src => Packed.tsubsw4 ra src
  | .tsubub8 => fun _ ra src => Packed.tsubub8 ra src
  | .tsubuw4 => fun _ ra src => Packed.tsubuw4 ra src
  | .tmulsb8 => fun _ ra src => Packed.tmulsb8 ra src
  | .tmulsw4 => fun _ ra src => Packed.tmulsw4 ra src
  | .tmulub8 => fun _ ra src => Packed.tmulub8 ra src
  | .tmuluw4 => fun _ ra src => Packed.tmuluw4 ra src
  | .tmulusb8 => fun _ ra src => Packed.tmulusb8 ra src
  | .tmulusw4 => fun _ ra src => Packed.tmulusw4 ra src
  | .psrb8 => fun _ ra src => Packed.psrb8 ra src
  | .psrw4 => fun _ ra src => Packed.psrw4 ra src
  | .pslb8 => fun _ ra src => Packed.pslb8 ra src
  | .pslw4 => fun _ ra src => Packed.pslw4 ra src
  | .psll2 => fun _ ra src => Packed.psll2 ra src
  | .psrl2 => fun _ ra src => Packed.psrl2 ra src
  | .psral2 => fun _ ra src => Packed.psral2 ra src
  | .psrab8 => fun _ ra src => Packed.psrab8 ra src
  | .psraw4 => fun _ ra src => Packed.psraw4 ra src
  | .pkswb8 => fun _ ra src => Packed.pkswb8 ra src

end Opcode

end AsimFeeder.Aint.Packed
