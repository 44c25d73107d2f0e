/-
The memory value model (`memory-values.h`, `memory-values.cpp`).

A cell of the model stands for 16 bytes of memory.  It keeps the bytes that are globally
visible, a bit for each of them, and for each processor the stores that only this
processor sees.  A load starts from the global bytes and takes from the local stores, byte
by byte, whatever has the newest stamp; a tracker counts the bytes that still have no
source.

Stores are handed over as pointers, and only their time stamps change while the model
holds them.  So `ops` gives the store behind each pointer, and the stamps are kept apart.
An `assert` that fails is an error here, and so is an index outside a C++ array.
-/
import Mathlib

namespace AsimFeeder.MemoryValues

/-! ### Values -/

/-- The bytes of a `UWORD128`. -/
abbrev UWord128 := Fin 16 → BitVec 8

namespace UWord128

def zero : UWord128 := fun _ => 0

/-- Element `i` of `n` bytes becomes `v`; the host is little-endian. -/
def setElement (u : UWord128) (n i : Nat) (v : BitVec (8 * n)) : UWord128 :=
  fun k => if n * i ≤ k.val ∧ k.val < n * i + n then v.extractLsb' (8 * (k.val - n * i)) 8 else u k

/-- Element `i` of `n` bytes becomes that of `x`. -/
def copyElement (u : UWord128) (n i : Nat) (x : UWord128) : UWord128 :=
  fun k => if n * i ≤ k.val ∧ k.val < n * i + n then x k else u k

end UWord128

/-- The 128 bit aligned address; the mask and the result are 32 bits wide. -/
def mask128b (a : BitVec 64) : BitVec 32 := (a &&& (~~~0xF#32).setWidth 64).setWidth 32

/-- The offset in the 128 bits. -/
def index128b (a : BitVec 64) : Fin 16 := Fin.ofNat 16 (a &&& 0xF).toNat

/-! ### Memory operations -/

inductive MemState where
  | uninit
  | locallyVisible
  | globallyVisible
  | valueNotBound
  | valueBound
deriving DecidableEq, Repr

/-- An `MVM_MEMOP`.  `size` is in bits. -/
structure MemOp where
  size : Nat
  processor : Nat
  pa : BitVec 64
  state : MemState
  value : UWord128

namespace MemOp

def new (size processor : Nat) (pa : BitVec 64) : MemOp where
  size := size
  processor := processor
  pa := pa
  state := .uninit
  value := .zero

def setState (m : MemOp) (s : MemState) : Except String MemOp :=
  if s ≠ m.state then .ok { m with state := s } else .error "s != state"

def setValue128 (m : MemOp) (x : UWord128) : MemOp := { m with value := x }

def setValue64 (m : MemOp) (x : BitVec 64) (a : BitVec 64) : MemOp :=
  { m with value := m.value.setElement 8 (a &&& 1).toNat x }

def setValue32 (m : MemOp) (x : BitVec 32) (a : BitVec 64) : MemOp :=
  { m with value := m.value.setElement 4 (a &&& 3).toNat x }

def setValue16 (m : MemOp) (x : BitVec 16) (a : BitVec 64) : MemOp :=
  { m with value := m.value.setElement 2 (a &&& 7).toNat x }

def setValue8 (m : MemOp) (x : BitVec 8) (a : BitVec 64) : MemOp :=
  { m with value := Function.update m.value (index128b a) x }

def getValue8 (m : MemOp) (a : BitVec 64) : BitVec 8 := m.value (index128b a)

end MemOp

/-! ### Cells -/

/-- A pointer to a store. -/
abbrev Ref := Nat

/-- The number of processors a cell has room for. -/
def nproc : Nat := 32

structure MemCell where
  globalValue : UWord128
  hasGlobalValue : BitVec 16
  localValues : List (Option (List Ref))

namespace MemCell

def new : MemCell where
  globalValue := .zero
  hasGlobalValue := 0
  localValues := List.replicate nproc none

/-- One case of `set_global_value`: `bits` has a bit for each byte of the element. -/
def setElement (c : MemCell) (n : Nat) (bits : BitVec 16) (idx : Nat) (u : UWord128) : MemCell :=
  { c with
    globalValue := c.globalValue.copyElement n idx u
    hasGlobalValue := c.hasGlobalValue ||| bits <<< (n * idx) }

def setGlobalValue (c : MemCell) (u : UWord128) (a : BitVec 64) : Nat → Except String MemCell
  | 8 => .ok (c.setElement 1 1 (a &&& 0xF).toNat u)
  | 16 => .ok (c.setElement 2 3 (a &&& 0x7).toNat u)
  | 32 => .ok (c.setElement 4 0xF (a &&& 0x3).toNat u)
  | 64 => .ok (c.setElement 8 0xFF (a &&& 0x1).toNat u)
  | 128 => .ok { c with globalValue := u, hasGlobalValue := 0xFFFF }
  | _ => .error "0"

def outOfRange : String := "local_values"

/-- `push_front` to the list of a processor, a new one if it has none. -/
def pushFront (c : MemCell) (cpuid : Nat) (r : Ref) : Except String MemCell :=
  match c.localValues[cpuid]? with
  | none => .error outOfRange
  | some lst =>
      .ok { c with localValues := c.localValues.set cpuid (some (r :: lst.getD [])) }

/-- `remove` from the list of a processor, if it has one. -/
def remove (c : MemCell) (cpuid : Nat) (r : Ref) : Except String MemCell :=
  match c.localValues[cpuid]? with
  | none => .error outOfRange
  | some none => .ok c
  | some (some lst) =>
      .ok { c with localValues := c.localValues.set cpuid (some (lst.filter (· ≠ r))) }

end MemCell

/-! ### The tracker of a load -/

/-- The `MAX_STAMP` of 32 bits. -/
def maxStamp : Nat := 2 ^ 32 - 1

structure Tracker where
  rqd : Nat
  firstReq : Nat
  lastReq : Nat
  stamps : Fin 16 → Nat

namespace Tracker

/-- Stamps are zero where we need a store. -/
def new (a : BitVec 64) (sz : Nat) : Except String Tracker :=
  let firstReq := (index128b a).val
  let rqd := sz / 8
  if firstReq + rqd ≤ 16 then
    .ok {
      rqd
      firstReq
      lastReq := firstReq + rqd
      stamps := fun i => if firstReq ≤ i.val ∧ i.val < firstReq + rqd then 0 else maxStamp }
  else
    .error "stamps"

def done (t : Tracker) : Bool := t.rqd == 0

def shouldStampIdx (t : Tracker) (idx : Fin 16) (s : Nat) : Except String Bool :=
  if 0 < s then
    .ok (decide (t.firstReq ≤ idx.val) && decide (idx.val ≤ t.lastReq) &&
      decide (t.stamps idx < s))
  else
    .error "s>0"

def stampIdx (t : Tracker) (idx : Fin 16) (s : Nat) : Except String Tracker :=
  if ¬ 0 < s then
    .error "s>0"
  else if ¬ t.firstReq ≤ idx.val then
    .error "idx >= first_req"
  else if ¬ idx.val ≤ t.lastReq then
    .error "idx <= last_req"
  else if ¬ t.stamps idx < s then
    .error "stamps[idx] < s"
  else if t.stamps idx = 0 then
    if 0 < t.rqd then
      .ok { t with rqd := t.rqd - 1, stamps := Function.update t.stamps idx s }
    else
      .error "rqd > 0"
  else
    .ok { t with stamps := Function.update t.stamps idx s }

/-- Byte `i` of the loop of `global_basis`. -/
def globalByte (globalBytes : BitVec 8) (t : Tracker) (i : Fin 16) : Except String Tracker :=
  if globalBytes.setWidth 32 &&& 1#32 <<< i.val ≠ 0 then do
    if ← t.shouldStampIdx i 1 then t.stampIdx i 1 else .ok t
  else
    .ok t

/-- Set the bits for which we have a globally visible value. -/
def globalBasis (t : Tracker) (globalBytes : BitVec 8) : Except String Tracker :=
  (List.finRange 16).foldlM (globalByte globalBytes) t

end Tracker

/-! ### The model -/

structure MemoryValueModel where
  memops : BitVec 64 → Option MemCell
  timeStamp : Ref → Nat
  sTimeStamp : Nat

namespace MemoryValueModel

/-- A new model; `stamps` is whatever the stores hold before they are stamped. -/
def new (stamps : Ref → Nat) : MemoryValueModel where
  memops _ := none
  timeStamp := stamps
  sTimeStamp := 2

variable (ops : Ref → MemOp)

/-- Byte `idx` of the store `st` in the loop of `read_value_now`. -/
def readByte (st : MemOp) (newStamp : Nat) (x : Tracker × MemOp) (idx : Nat) :
    Except String (Tracker × MemOp) := do
  let stI := st.pa + BitVec.ofNat 64 idx
  if ← x.1.shouldStampIdx (index128b stI) newStamp then
    let t ← x.1.stampIdx (index128b stI) newStamp
    .ok (t, x.2.setValue8 (st.getValue8 stI) stI)
  else
    .ok x

/-- One store of the list. -/
def readStore (timeStamp : Ref → Nat) (x : Tracker × MemOp) (r : Ref) :
    Except String (Tracker × MemOp) :=
  (List.range ((ops r).size / 8)).foldlM (readByte (ops r) (timeStamp r)) x

/-- Bind the value of the load `m`. -/
def readValueNow (s : MemoryValueModel) (m : MemOp) : Except String MemOp := do
  let ma := (mask128b m.pa).setWidth 64
  let tracker ← Tracker.new m.pa m.size
  match s.memops ma with
  | none => m.setState .valueNotBound
  | some cell =>
      -- Start with the global value and modify it.
      let m := m.setValue128 cell.globalValue
      let tracker ← tracker.globalBasis (cell.hasGlobalValue.setWidth 8)
      match cell.localValues[m.processor]? with
      | none => .error MemCell.outOfRange
      | some lst =>
          let (tracker, m) ← (lst.getD []).foldlM (readStore ops s.timeStamp) (tracker, m)
          if tracker.done then m.setState .valueBound else m.setState .valueNotBound

def storeLocallyVisibleNow (s : MemoryValueModel) (r : Ref) : Except String MemoryValueModel := do
  let ma := (mask128b (ops r).pa).setWidth 64
  let cell ← ((s.memops ma).getD MemCell.new).pushFront (ops r).processor r
  .ok {
    memops := Function.update s.memops ma (some cell)
    timeStamp := Function.update s.timeStamp r s.sTimeStamp
    sTimeStamp := (s.sTimeStamp + 1) % 2 ^ 32 }

/-- Remove local visibility. -/
def killed (s : MemoryValueModel) (r : Ref) : Except String MemoryValueModel := do
  let ma := (mask128b (ops r).pa).setWidth 64
  match s.memops ma with
  | none => .ok s
  | some cell =>
      let cell ← cell.remove (ops r).processor r
      .ok { s with memops := Function.update s.memops ma (some cell) }

def storeGloballyVisibleNow (s : MemoryValueModel) (r : Ref) : Except String MemoryValueModel := do
  let ma := (mask128b (ops r).pa).setWidth 64
  let cell : Except String MemCell := match s.memops ma with
    | none => .ok MemCell.new
    | some cell => cell.remove (ops r).processor r
  let cell ← cell
  let cell ← cell.setGlobalValue (ops r).value (ops r).pa (ops r).size
  .ok { s with memops := Function.update s.memops ma (some cell) }

end MemoryValueModel

end AsimFeeder.MemoryValues
