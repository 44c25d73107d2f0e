/-
What packed-integer instructions are for.

A meaning says what every lane of the result is, or that the result is a sum over all lanes,
over the integers.  An instruction does right by two operands if it has a result, the result
is as it means, and a literal gives what a register gives that has the literal in all lanes.
-/
import AsimFeeder.Aint.PackedOps

namespace AsimFeeder.Aint.Packed

open Lib

variable {w : Nat}

/-- What a lane is as an integer. -/
def value (signed : Bool) (x : BitVec w) : Int := if signed then x.toInt else x.toNat

/-- The nearest number that fits a lane. -/
def clamp (w : Nat) (signed : Bool) (x : Int) : Int :=
  if signed then max (-2 ^ (w - 1)) (min x (2 ^ (w - 1) - 1)) else max 0 (min x (2 ^ w - 1))

/-- `n` lanes of `w` bits are a whole word. -/
inductive Meaning
  | clamped (w n : Nat) (signed : Bool) (f : Int → Int → Int)
  | total (w n : Nat) (signed signed' : Bool) (f : Int → Int → Int)
  | shifted (w n : Nat) (shift : BitVec w → Nat → BitVec w)
  | packed

def Meaning.Holds (ra rb rc : BitVec 64) : Meaning → Prop
  | .clamped w n signed f => ∀ i < n, value signed (lane w rc i)
      = clamp w signed (f (value signed (lane w ra i)) (value signed (lane w rb i)))
  | .total w n signed signed' f => rc = BitVec.ofInt 64
      (∑ i ∈ Finset.range n, f (value signed (lane w ra i)) (value signed' (lane w rb i)))
  | .shifted w n shift => ∀ i < n, lane w rc i = shift (lane w ra i) (rb.toNat % w)
  | .packed => ∀ i < 4,
      (lane 8 rc i).toInt = clamp 8 true (lane 16 ra i).toInt ∧
      (lane 8 rc (i + 4)).toInt = clamp 8 true (lane 16 rb i).toInt

namespace Opcode

def meaning : Opcode → Meaning
  | .paddsb8 => .clamped 8 8 true (· + ·)
  | .paddsw4 => .clamped 16 4 true (· + ·)
  | .paddsl2 => .clamped 32 2 true (· + ·)
  | .paddub8 => .clamped 8 8 false (· + ·)
  | .padduw4 => .clamped 16 4 false (· + ·)
  | .paddul2 => .clamped 32 2 false (· + ·)
  | .psubsb8 => .clamped 8 8 true (· - ·)
  | .psubsw4 => .clamped 16 4 true (· - ·)
  | .psubsl2 => .clamped 32 2 true (· - ·)
  | .psubub8 => .clamped 8 8 false (· - ·)
  | .psubuw4 => .clamped 16 4 false (· - ·)
  | .psubul2 => .clamped 32 2 false (· - ·)
  | .taddsb8 => .total 8 8 true true (· + ·)
  | .taddsw4 => .total 16 4 true true (· + ·)
  | .taddub8 => .total 8 8 false false (· + ·)
  | .tadduw4 => .total 16 4 false false (· + ·)
  | .tsubsb8 => .total 8 8 true true (· - ·)
  | .tsubsw4 => .total 16 4 true true (· - ·)
  | .tsubub8 => .total 8 8 false false (· - ·)
  | .tsubuw4 => .total 16 4 false false (· - ·)
  | .tmulsb8 => .total 8 8 true true (· * ·)
  | .tmulsw4 => .total 16 4 true true (· * ·)
  | .tmulub8 => .total 8 8 false false (· * ·)
  | .tmuluw4 => .total 16 4 false false (· * ·)
  | .tmulusb8 => .total 8 8 false true (· * ·)
  | .tmulusw4 => .total 16 4 false true (· * ·)
  | .psrb8 => .shifted 8 8 (· >>> ·)
  | .psrw4 => .shifted 16 4 (· >>> ·)
  | .pslb8 => .shifted 8 8 (· <<< ·)
  | .pslw4 => .shifted 16 4 (· <<< ·)
  | .psll2 => .shifted 32 2 (· <<< ·)
  | .psrl2 => .shifted 32 2 (· >>> ·)
  | .psral2 => .shifted 32 2 BitVec.sshiftRight
  | .psrab8 => .shifted 8 8 BitVec.sshiftRight
  | .psraw4 => .shifted 16 4 BitVec.sshiftRight
  | .pkswb8 => .packed

/-- The lane that a literal stands for: its sign counts in the signed routines. -/
def literalWord (op : Opcode) (l : BitVec 8) : BitVec 64 :=
  match op with
  | .paddsb8 | .psubsb8 | .taddsb8 | .tsubsb8 | .tmulsb8 | .tmulusb8 | .psrab8
  | .paddub8 | .psubub8 | .taddub8 | .tsubub8 | .tmulub8 | .psrb8 | .pslb8 | .pkswb8 =>
      forLanes 8 0 fun _ => l
  | .paddsw4 | .psubsw4 | .taddsw4 | .tsubsw4 | .tmulsw4 | .tmulusw4 | .psraw4 =>
      forLanes 4 0 fun _ => l.signExtend 16
  | .padduw4 | .psubuw4 | .tadduw4 | .tsubuw4 | .tmuluw4 | .psrw4 | .pslw4 =>
      forLanes 4 0 fun _ => l.setWidth 16
  | .paddsl2 | .psubsl2 | .psral2 => forLanes 2 0 fun _ => l.signExtend 32
  | .paddul2 | .psubul2 | .psll2 | .psrl2 => forLanes 2 0 fun _ => l.setWidth 32

/-- The second operand as a word. -/
def word (op : Opcode) : Operand → BitVec 64
  | .reg rb => rb
  | .literal l => op.literalWord l

/-- All but `pkswb8` look at `E_LITERAL`. -/
def hasForm (op : Opcode) : Operand → Bool
  | .reg _ => true
  | .literal _ => op != .pkswb8

/-- The instruction does what it means. -/
def Right (op : Opcode) (rc ra : BitVec 64) (src : Operand) : Prop :=
  ∃ result, op.func rc ra src = some result ∧ op.meaning.Holds ra (op.word src) result ∧
    op.func rc ra (.reg (op.word src)) = some result

/-- The operands for which it does. -/
def fits (op : Opcode) (ra : BitVec 64) (src : Operand) : Bool :=
  match op, src with
  | .psubsw4, .literal l | .psubsl2, .literal l | .tsubsw4, .literal l => decide (l < 128)
  | .tmulsb8, .literal _ | .tmulub8, .literal _ | .tmulusb8, .literal _ => false
  | .tmulusw4, src => (List.range 4).all fun i =>
      lane 16 ra i == 0 || !(lane 16 (op.word src) i).msb
  | .psll2, src => decide ((op.word src).toNat % 32 < 16) ||
      (List.range 2).all fun i => lane 32 ra i <<< ((op.word src).toNat % 16) == 0
  | .psral2, src => decide ((op.word src).toNat % 32 ≠ 0)
  | .pkswb8, src => (List.range 4).all fun i =>
      !(decide (128 ≤ lane 16 ra i) && decide (lane 16 ra i < 256)) &&
        !(decide (128 ≤ lane 16 (op.word src) i) && decide (lane 16 (op.word src) i < 256))
  | _, _ => true

end Opcode

end AsimFeeder.Aint.Packed
