/-
The instructions of `newinst.c` that work on integer registers.

Each of them writes one register, `RC`, and none of them looks after the zero register.
Those that do not test `E_LITERAL` read `RB`, which is the zero register if there is a
literal.
-/
import AsimFeeder.Aint.PackedOps

namespace AsimFeeder.Aint

open Lib

namespace Packed

section Families

variable {w : Nat} (n : Nat) (rc ra rb : BitVec 64)

/-- The lane of `RB` if the lanes compare so, and else that of `RA`. -/
def choose (takes : BitVec w → BitVec w → Bool) : BitVec 64 :=
  forLanes n rc fun i => if takes (lane w ra i) (lane w rb i) then lane w rb i else lane w ra i

/-- Bytes that are stored one after the other. -/
def pick (stores : List (Nat × BitVec 8)) : BitVec 64 := storeLanes stores 0

/-- The least and the greatest lane of `RA` and two lanes of `RB`; `cleared` lanes are zero. -/
def pminmax (less : BitVec w → BitVec w → Bool) (k : Nat) (cleared : List Nat) : BitVec 64 :=
  let min := (List.range n).foldl
    (fun min i => if less (lane w ra i) min then lane w ra i else min) (lane w rb 0)
  let max := (List.range n).foldl
    (fun max i => if less max (lane w ra i) then lane w ra i else max) (lane w rb k)
  storeLanes [(0, min), (k, max)] (storeLanes (cleared.map fun i => (i, (0 : BitVec w))) rc)

/-- The product of two lanes, of which one half is kept. -/
def pmul (shift : Nat) (rbv : Nat → BitVec 16) : BitVec 64 :=
  forLanes 4 0 fun i =>
    (((lane 16 ra i).setWidth 32 * (rbv i).setWidth 32) >>> shift &&& 0xFFFF).setWidth 16

end Families

section Instructions

variable (rc ra rb : BitVec 64)

def sextb : BitVec 64 := (lane 8 rb 0).signExtend 64

def sextw : BitVec 64 := (lane 16 rb 0).signExtend 64

def perr : BitVec 64 :=
  (List.range 8).foldl (fun temp i =>
    if lane 8 rb i ≤ lane 8 ra i then
      temp + ((lane 8 ra i).setWidth 32 - (lane 8 rb i).setWidth 32).signExtend 64
    else
      temp + ((lane 8 rb i).setWidth 32 - (lane 8 ra i).setWidth 32).signExtend 64) 0

def minub8 : BitVec 64 := choose (w := 8) 8 rc ra rb fun a b => b.ule a
def minsb8 : BitVec 64 := choose (w := 8) 8 rc ra rb fun a b => b.sle a
def minuw4 : BitVec 64 := choose (w := 16) 4 rc ra rb fun a b => b.ule a
def minsw4 : BitVec 64 := choose (w := 16) 4 rc ra rb fun a b => b.sle a
def maxub8 : BitVec 64 := choose (w := 8) 8 rc ra rb fun a b => a.ule b
def maxsb8 : BitVec 64 := choose (w := 8) 8 rc ra rb fun a b => a.sle b
def maxuw4 : BitVec 64 := choose (w := 16) 4 rc ra rb fun a b => a.ule b
def maxsw4 : BitVec 64 := choose (w := 16) 4 rc ra rb fun a b => a.sle b

def pklb : BitVec 64 :=
  pick [(0, lane 8 rb 0), (1, lane 8 rb 4), (2, lane 8 ra 0), (3, lane 8 ra 4)]

def pkwb : BitVec 64 :=
  pick [(0, lane 8 rb 0), (1, lane 8 rb 2), (2, lane 8 rb 4), (3, lane 8 rb 6),
    (4, lane 8 ra 0), (5, lane 8 ra 2), (6, lane 8 ra 4), (7, lane 8 ra 6)]

def unpkbl : BitVec 64 :=
  pick [(0, lane 8 rb 0), (1, lane 8 ra 0), (4, lane 8 rb 1), (5, lane 8 ra 1)]

def unpkbw : BitVec 64 :=
  pick [(0, lane 8 rb 0), (1, lane 8 ra 0), (2, lane 8 rb 1), (3, lane 8 ra 1),
    (4, lane 8 rb 2), (5, lane 8 ra 2), (6, lane 8 rb 3), (7, lane 8 ra 3)]

def pmulluw4 (src : Operand) : Option (BitVec 64) :=
  (rbv (unsignedLiteral 16) 4 4 src).map fun rbv => pmul ra 0 rbv

def pmulhuw4 (src : Operand) : Option (BitVec 64) :=
  (rbv (unsignedLiteral 16) 4 4 src).map fun rbv => pmul ra 16 rbv

def pminmaxsl2 : BitVec 64 := pminmax (w := 32) 2 rc ra rb BitVec.slt 1 []
def pminmaxul2 : BitVec 64 := pminmax (w := 32) 2 rc ra rb BitVec.ult 1 []
def pminmaxsb8 : BitVec 64 := pminmax (w := 8) 8 rc ra rb BitVec.slt 4 (List.range 8)
def pminmaxsw4 : BitVec 64 := pminmax (w := 16) 4 rc ra rb BitVec.slt 2 [1, 3]
def pminmaxub8 : BitVec 64 := pminmax (w := 8) 8 rc ra rb BitVec.ult 4 (List.range 8)
def pminmaxuw4 : BitVec 64 := pminmax (w := 16) 4 rc ra rb BitVec.ult 2 (List.range 4)

/-- What `pkslw4` stores for a lane. -/
def pkslLane (x : BitVec 32) : BitVec 16 :=
  if (32767#32).slt x then 0x7FFF
  else if x.slt (-32768#32) then 0x8000
  else (x &&& 0xFFFF).setWidth 16

def pkslw4 : BitVec 64 :=
  storeLanes ((List.range 2).flatMap fun i =>
    [(i, pkslLane (lane 32 ra i)), (i + 2, pkslLane (lane 32 rb i))]) 0

end Instructions

end Packed

inductive NewInst
  | sextb | sextw | perr
  | minub8 | minsb8 | minuw4 | minsw4 | maxub8 | maxsb8 | maxuw4 | maxsw4
  | pklb | pkwb | unpkbl | unpkbw
  | pmulluw4 | pmulhuw4
  | pminmaxsl2 | pminmaxul2 | pminmaxsb8 | pminmaxsw4 | pminmaxub8 | pminmaxuw4
  | pkslw4
  | packed (op : Packed.Opcode)
  deriving DecidableEq, Repr

namespace NewInst

open Packed (Operand)

/-- `E_LITERAL` is tested. -/
def testsLiteral : NewInst → Bool
  | .pmulluw4 => true
  | .pmulhuw4 => true
  | .packed op => op != .pkswb8
  | _ => false

/-- What is left in `RC`, if anything. -/
def func (rc ra : BitVec 64) (src : Operand) : NewInst → Option (BitVec 64)
  | .sextb => some (Packed.sextb src.RB)
  | .sextw => some (Packed.sextw src.RB)
  | .perr => some (Packed.perr ra src.RB)
  | .minub8 => some (Packed.minub8 rc ra src.RB)
  | .minsb8 => some (Packed.minsb8 rc ra src.RB)
  | .minuw4 => some (Packed.minuw4 rc ra src.RB)
  | .minsw4 => some (Packed.minsw4 rc ra src.RB)
  | .maxub8 => some (Packed.maxub8 rc ra src.RB)
  | .maxsb8 => some (Packed.maxsb8 rc ra src.RB)
  | .maxuw4 => some (Packed.maxuw4 rc ra src.RB)
  | .maxsw4 => some (Packed.maxsw4 rc ra src.RB)
  | .pklb => some (Packed.pklb ra src.RB)
  | .pkwb => some (Packed.pkwb ra src.RB)
  | .unpkbl => some (Packed.unpkbl ra src.RB)
  | .unpkbw => some (Packed.unpkbw ra src.RB)
  | .pmulluw4 => Packed.pmulluw4 ra src
  | .pmulhuw4 => Packed.pmulhuw4 ra src
  | .pminmaxsl2 => some (Packed.pminmaxsl2 rc ra src.RB)
  | .pminmaxul2 => some (Packed.pminmaxul2 rc ra src.RB)
  | .pminmaxsb8 => some (Packed.pminmaxsb8 rc ra src.RB)
  | .pminmaxsw4 => some (Packed.pminmaxsw4 rc ra src.RB)
  | .pminmaxub8 => some (Packed.pminmaxub8 rc ra src.RB)
  | .pminmaxuw4 => some (Packed.pminmaxuw4 rc ra src.RB)
  | .pkslw4 => some (Packed.pkslw4 ra src.RB)
  | .packed op => op.func rc ra src

end NewInst

end AsimFeeder.Aint
