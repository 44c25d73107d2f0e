/-
The descriptor of one memory reference (`ASIM_SOFTSDV_MEM_ACCESS_CLASS`, `softsdv_data.h`).

A descriptor holds a virtual address, a size, the physical addresses of at most two 4 KB
pages, and optionally the bytes that were read or written.  Failing an `ASSERT` or a
`VERIFY` ends the run, so the methods that check something return an `Except`.
-/
import Mathlib

namespace AsimFeeder.SoftSDV

/-- `SOFTSDV_MEM_REF_SOURCE`. -/
inductive MemRefSource
  | unknown
  | instruction
  | descriptor
  | tss
deriving DecidableEq

/-- A range of virtual addresses (`MEMORY_VIRTUAL_REFERENCE_CLASS`). -/
structure VirtualRef where
  va : BitVec 64
  nBytes : BitVec 64
deriving DecidableEq

def pageSize : BitVec 64 := 4096

/-- Helper so callers can compute addresses without page offsets. -/
def pageMask : BitVec 64 := ~~~(pageSize - 1)

/-! ### Value storage -/

/-- Memory that a value pointer leads to. -/
structure Storage where
  size : Nat
  byte : Nat → UInt8

namespace Storage

/-- `malloc` and `bzero`. -/
def zeroed (size : Nat) : Storage := ⟨size, fun _ => 0⟩

/-- Copy the first `n` bytes of `src` to `dst`. -/
def memcpy (s : Storage) (dst : Nat) (src : Nat → UInt8) (n : Nat) : Except String Storage :=
  if dst + n ≤ s.size then
    .ok { s with byte := fun j => if dst ≤ j ∧ j < dst + n then src (j - dst) else s.byte j }
  else
    .error "write outside the value storage"

end Storage

/-! ### The descriptor -/

instance neZeroTwo : NeZero (2 : Nat) := ⟨by decide⟩

/--
One access region.  Only `setPA` writes a page and it drops the page offset, and a value
is set only after storage was allocated for it.
-/
structure MemAccess where
  baseVA : BitVec 64
  pages : Fin 2 → BitVec 64
  valueStorage : Option Storage
  nPages : Nat
  nBytes : Nat
  refSource : MemRefSource
  valueSet : Bool
  aligned : ∀ i, pages i &&& pageMask = pages i
  nPages_le : nPages ≤ 2
  stored : valueSet = true → valueStorage.isSome = true

theorem and_pageMask_and (pa : BitVec 64) : pa &&& pageMask &&& pageMask = pa &&& pageMask := by
  rw [BitVec.and_assoc, BitVec.and_self]

namespace MemAccess

/-- A descriptor after `Reset`.  Nothing reads a page before `setPA` wrote it. -/
def new : MemAccess where
  baseVA := 0
  pages := fun _ => 0
  valueStorage := none
  nPages := 0
  nBytes := 0
  refSource := .unknown
  valueSet := false
  aligned := fun _ => by rw [BitVec.ofNat_eq_ofNat, BitVec.zero_and]
  nPages_le := Nat.zero_le 2
  stored := fun h => nomatch h

def setVA (r : MemAccess) (newVA : BitVec 64) : MemAccess :=
  { r with baseVA := newVA }

/-- Set the physical address of the Nth page. -/
def setPA (r : MemAccess) (newPA : BitVec 64) (pageIdx : Nat) : Except String MemAccess :=
  if h : pageIdx < 2 then
    .ok { r with
      pages := Function.update r.pages ⟨pageIdx, h⟩ (newPA &&& pageMask)
      nPages := if r.nPages ≤ pageIdx then pageIdx + 1 else r.nPages
      aligned := by
        intro i
        by_cases hi : i = ⟨pageIdx, h⟩
        · rw [hi, Function.update_self, and_pageMask_and]
        · rw [Function.update_of_ne hi, r.aligned]
      nPages_le := by
        have := r.nPages_le
        split <;> omega }
  else
    .error "pageIdx < 2"

def getPA (r : MemAccess) (pageIdx : Nat) : Except String (BitVec 64) :=
  if h : pageIdx < r.nPages then
    .ok (r.pages ⟨pageIdx, Nat.lt_of_lt_of_le h r.nPages_le⟩)
  else
    .error "pageIdx < nPages"

def setSize (r : MemAccess) (size : Nat) : Except String MemAccess :=
  if size < pageSize.toNat then .ok { r with nBytes := size } else .error "size < PAGESIZE"

/-- Used when the virtual size is allowed to span more than 2 pages. -/
def setSizeNoCheck (r : MemAccess) (size : Nat) : MemAccess :=
  { r with nBytes := size % 2 ^ 32 }

def setRefSource (r : MemAccess) (s : MemRefSource) : Except String MemAccess :=
  if r.refSource = .unknown then
    .ok { r with refSource := s }
  else
    .error "refSource == SDV_MEM_REF_UNKNOWN"

/-! ### Physical addresses -/

/--
The physical address of a portion of the reference, and the remainder of it that is on a
different physical page.
-/
def pTranslateRegion (r : MemAccess) (vRegion : VirtualRef) :
    Except String (BitVec 64 × VirtualRef) :=
  let va := vRegion.va
  let size := vRegion.nBytes
  if r.nPages = 0 then
    -- No translation available
    .ok (0, ⟨0, 0⟩)
  else if ¬ (r.baseVA ≤ va ∧ va + size ≤ r.baseVA + BitVec.ofNat 64 r.nBytes) then
    .error "(va >= baseVA) && (va + size <= baseVA + nBytes)"
  else if r.nPages = 1 then
    .ok (r.pages 0 + (va &&& ~~~pageMask), ⟨0, 0⟩)
  else if va &&& pageMask ≠ r.baseVA &&& pageMask then
    -- The requested VA begins on the second page
    .ok (r.pages 1 + (va &&& ~~~pageMask), ⟨0, 0⟩)
  else
    -- Limit the size of the reference to the first page.
    let maxSize := pageSize - (va &&& ~~~pageMask)
    .ok (r.pages 0 + (va &&& ~~~pageMask),
      if maxSize < size then ⟨va + maxSize, size - maxSize⟩ else ⟨0, 0⟩)

def pTranslate (r : MemAccess) (va : BitVec 64) : Except String (BitVec 64) :=
  (r.pTranslateRegion ⟨va, 1⟩).map Prod.fst

/-! ### Values -/

def allocValueStorage (r : MemAccess) (storage : Storage) : Except String MemAccess :=
  if 0 < r.nBytes ∧ r.valueStorage = none then
    .ok { r with valueStorage := some storage, stored := fun _ => rfl }
  else
    .error "(nBytes > 0) && (valueStorageOffset == 0)"

/-- Set a portion of the value, `offset` bytes from the beginning of the reference. -/
def setValue (r : MemAccess) (v : Nat → UInt8) (size offset : Nat) : Except String MemAccess :=
  if size + offset ≤ r.nBytes then
    match r.valueStorage with
    | none => .error "valueStorageOffset != 0"
    | some storage => do
        let storage ← storage.memcpy offset v size
        .ok { r with valueStorage := some storage, valueSet := true, stored := fun _ => rfl }
  else
    .error "size + offset <= nBytes"

def getValue (r : MemAccess) : Except String Storage :=
  if h : r.valueSet = true then .ok (r.valueStorage.get (r.stored h)) else .error "HasValue()"

/-- `memcpy` to a place in what `GetValue` points to. -/
def copyToValue (r : MemAccess) (dst : Nat) (src : Nat → UInt8) (n : Nat) :
    Except String MemAccess := do
  let value ← r.getValue
  let value ← value.memcpy dst src n
  .ok { r with valueStorage := some value, stored := fun _ => rfl }

end MemAccess

end AsimFeeder.SoftSDV
