/-
How the memory access records of an instruction become regions (`NoteMemoryRefs`,
`cpuapi_x86.cpp`).

SoftSDV lists one record for each access.  A first pass merges the records of one origin
into at most four load regions and one store region, the last two load regions are fused
where they can be, storage is allocated for the values, and a second pass notes the second
physical page and the data of the records in each region.
-/
import AsimFeeder.SoftSDV.MergeRegions
import AsimFeeder.Lib.Checks
import AsimFeeder.Lib.Spans

namespace AsimFeeder.SoftSDV

open AsimFeeder.Lib

/-- `CPUAPI_Access_*`. -/
inductive AccessType
  | Read
  | RFO
  | Write
  | Execute
deriving DecidableEq

/-- `CPUAPI_Origin_*`. -/
inductive OriginType
  | Unknown
  | Other
  | Instruction
  | Descriptor
  | Task
deriving DecidableEq

/-- A record of the access list (`cpuapi_inst_memory_access_t`). -/
structure Access where
  access : AccessType
  origin : OriginType
  size : BitVec 64
  phyMemAddr : BitVec 64
  virtMemAddr : BitVec 64
  data : Option (Nat → UInt8)

/-- The active references (`ASIM_SOFTSDV_MEM_REFS_CLASS`); `refData` is what the buffer for the
values holds. -/
structure MemRefs where
  loads : List MemAccess
  stores : List MemAccess
  refUsed : Nat
  refData : Nat → UInt8

/-- What `NoteMemoryRefs` is called with and asks of the rest of the program. -/
structure NoteParams where
  origin : OriginType
  refSource : MemRefSource
  recordMemoryValues : Bool
  virtualToPhysical : BitVec 64 → AccessType → Option (BitVec 64)

def maxLoads : Nat := 4

def valueBufLen : Nat := 640

namespace MemAccess

/-- Does the reference contain the VA range? -/
def containsVA (r : MemAccess) (vRegion : VirtualRef) : Bool :=
  r.baseVA ≤ vRegion.va ∧ vRegion.va + vRegion.nBytes ≤ r.baseVA + BitVec.ofNat 64 r.nBytes

/-- `ActivateLoad` and `ActivateStore`, on the next slot. -/
def activate (refSrc : MemRefSource) : Except String MemAccess :=
  MemAccess.new.setRefSource refSrc

end MemAccess

/-! ### The first pass -/

/-- Merge a new access with an access already noted; says if the new region could be merged. -/
def mergeRefs (access : Access) (ref : MemAccess) (refSource : MemRefSource) :
    Except String (Bool × MemAccess) :=
  let endVa := ref.baseVA + BitVec.ofNat 64 ref.nBytes
  if ref.valueSet = true ∨ refSource ≠ ref.refSource then
    -- Can't merge with a reference that already has a value or is a different type.
    .ok (false, ref)
  else if ref.nBytes = 0 then do
    -- Reference has no value, accept new one
    let ref ← (ref.setVA access.virtMemAddr).setPA access.phyMemAddr 0
    let ref ← ref.setSize access.size.toNat
    .ok (true, ref)
  else if ref.baseVA ≤ access.virtMemAddr ∧ access.virtMemAddr ≤ endVa then
    -- New region begins in or just after the old region
    if endVa < access.virtMemAddr + access.size then do
      let ref ← ref.setSize (access.virtMemAddr + access.size - ref.baseVA).toNat
      .ok (true, ref)
    else
      .ok (true, ref)
  else if ref.baseVA ≤ access.virtMemAddr + access.size + 1 ∧
      access.virtMemAddr + access.size ≤ endVa then do
    -- New region ends in or just before old region
    let ref ← (ref.setVA access.virtMemAddr).setPA access.phyMemAddr 0
    let ref ← ref.setSize (endVa - access.virtMemAddr).toNat
    .ok (true, ref)
  else if access.virtMemAddr ≤ ref.baseVA ∧ endVa ≤ access.virtMemAddr + access.size then do
    -- New region subsumes the old region
    let ref ← (ref.setVA access.virtMemAddr).setPA access.phyMemAddr 0
    let ref ← ref.setSize access.size.toNat
    .ok (true, ref)
  else
    .ok (false, ref)

/-- A read goes to the first load it merges with, or to one more; `slots` are still to be tried. -/
def noteLoad (refSource : MemRefSource) (access : Access) :
    (slots : Nat) → List MemAccess → Except String (List MemAccess)
  | 0, _ => .error "Instruction has more than two load regions."
  | slots + 1, [] => do
      let (merged, ref) ← mergeRefs access (← MemAccess.activate refSource) refSource
      if merged then .ok [ref]
      else (noteLoad refSource access slots []).map (ref :: ·)
  | slots + 1, ref :: rest => do
      let (merged, ref) ← mergeRefs access ref refSource
      if merged then .ok (ref :: rest)
      else (noteLoad refSource access slots rest).map (ref :: ·)

def noteStore (refSource : MemRefSource) (access : Access) :
    List MemAccess → Except String (List MemAccess)
  | [] => do
      let (merged, ref) ← mergeRefs access (← MemAccess.activate refSource) refSource
      if merged then .ok [ref] else .error "Instruction has more than one store region."
  | ref :: rest => do
      let (merged, ref) ← mergeRefs access ref refSource
      if merged then .ok (ref :: rest) else .error "Instruction has more than one store region."

/-- Combine the virtual region of one record into the reference groups. -/
def noteAccess (p : NoteParams) (mem : MemRefs) (access : Access) : Except String MemRefs :=
  if access.origin = p.origin then
    match access.access with
    | .Execute => .error "Execute as a data reference?"
    | .Write => (noteStore p.refSource access mem.stores).map ({ mem with stores := · })
    | _ => (noteLoad p.refSource access maxLoads mem.loads).map ({ mem with loads := · })
  else
    .ok mem

def noteAccesses (p : NoteParams) (list : List Access) (mem : MemRefs) : Except String MemRefs :=
  list.foldlM (noteAccess p) mem

/-- If more than one load region is active, can the last be merged with the one before it? -/
def fuseLoads (p : NoteParams) : List MemAccess → Except String (List MemAccess)
  | [before, last] => do
      if last.valueSet = false ∧ before.valueSet = false then
        let pa ← last.pTranslate last.baseVA
        let ref1 : Access :=
          ⟨.Read, p.origin, BitVec.ofNat 64 last.nBytes, pa, last.baseVA, none⟩
        let (merged, ref0) ← mergeRefs ref1 before p.refSource
        if merged = true ∧ ref0.nBytes ≤ 4096 then .ok [ref0] else .ok [before, last]
      else
        .ok [before, last]
  | ref :: rest => (fuseLoads p rest).map (ref :: ·)
  | [] => .ok []

/-- The regions of the records, without what they hold. -/
def coalesce (p : NoteParams) (list : List Access) (mem : MemRefs) : Except String MemRefs := do
  let mem ← noteAccesses p list mem
  (fuseLoads p mem.loads).map ({ mem with loads := · })

/-! ### Storage for the values -/

/-- `AllocLoadStorage` and `AllocStoreStorage` for the references with no value, in order. -/
def allocStorage (refData : Nat → UInt8) (full : String) :
    (refUsed : Nat) → List MemAccess → Except String (List MemAccess × Nat)
  | refUsed, [] => .ok ([], refUsed)
  | refUsed, ref :: rest =>
      if ref.valueSet = true then do
        let (rest, refUsed) ← allocStorage refData full refUsed rest
        .ok (ref :: rest, refUsed)
      else if ref.nBytes = 0 then .error "size != 0"
      else if valueBufLen < refUsed + ref.nBytes then .error full
      else do
        let ref ← ref.allocValueStorage ⟨ref.nBytes, fun i => refData (refUsed + i)⟩
        let (rest, refUsed) ← allocStorage refData full (refUsed + ref.nBytes) rest
        .ok (ref :: rest, refUsed)

def allocValues (p : NoteParams) (mem : MemRefs) : Except String MemRefs :=
  if p.recordMemoryValues = true then do
    let (loads, refUsed) ← allocStorage mem.refData
      "Instruction reads more memory than value available value space." mem.refUsed mem.loads
    let (stores, refUsed) ← allocStorage mem.refData
      "Instruction writes more memory than value available value space." refUsed mem.stores
    .ok { mem with loads, stores, refUsed }
  else
    .ok mem

/-! ### The second pass -/

/-- The loaded or stored value. -/
def mergeData (p : NoteParams) (access : Access) (ref : MemAccess) : Except String MemAccess :=
  match access.data with
  | some data =>
      if p.recordMemoryValues = true then
        ref.setValue data (access.size.setWidth 32).toNat
          ((access.virtMemAddr - ref.baseVA).setWidth 32).toNat
      else
        .ok ref
  | none => .ok ref

/-- The page of the last byte.  The record has no second page of its own, it is looked up:
SoftSDV doesn't split some unaligned references that cross pages. -/
def truePage (p : NoteParams) (access : Access) (pa : BitVec 64) : BitVec 64 :=
  match p.virtualToPhysical (access.virtMemAddr + access.size - 1) access.access with
  | some truePA => truePA &&& pageMask
  | none => pa

/-- Force a second page. -/
def setSecondPage (ref : MemAccess) (pa : BitVec 64) : Except String MemAccess :=
  if ref.nPages = 1 then ref.setPA pa 1
  else do
    let pa1 ← ref.getPA 1
    if pa1 = pa then ref.setPA pa 1
    else .error "Memory reference touches more than 2 pages"

/-- Does the reference cross pages? -/
def mergePA (p : NoteParams) (access : Access) (ref : MemAccess) : Except String MemAccess := do
  let pa := (access.phyMemAddr + access.size - 1) &&& pageMask
  let pa0 ← ref.getPA 0
  if pa ≠ pa0 then setSecondPage ref (truePage p access pa) else .ok ref

def mergePAandData (p : NoteParams) (access : Access) (ref : MemAccess) :
    Except String MemAccess :=
  if ref.containsVA ⟨access.virtMemAddr, access.size⟩ then do
    let ref ← mergeData p access ref
    mergePA p access ref
  else
    .ok ref

def noteDetails (p : NoteParams) (mem : MemRefs) (access : Access) : Except String MemRefs :=
  if access.origin = p.origin then
    match access.access with
    | .Write => (mem.stores.mapM (mergePAandData p access)).map ({ mem with stores := · })
    | _ => (mem.loads.mapM (mergePAandData p access)).map ({ mem with loads := · })
  else
    .ok mem

/-- Note all references to memory for a given origin. -/
def noteMemoryRefs (p : NoteParams) (list : List Access) (mem : MemRefs) :
    Except String MemRefs := do
  let mem ← coalesce p list mem
  let mem ← allocValues p mem
  list.foldlM (noteDetails p) mem

/-- The references after `Reset`. -/
def MemRefs.reset (refData : Nat → UInt8) : MemRefs := ⟨[], [], 0, refData⟩

end AsimFeeder.SoftSDV
