/-
Merging the iterations of an x86 REP instruction (`softsdv_feeder_x86.cpp`).

SoftSDV delivers one instruction per iteration of a REP.  `MergeREPInstrs` takes the
iterations that follow the first one out of the replay buffer and attaches to the first
one descriptors of the whole memory the REP touches.  A descriptor has room for two
pages, so the memory is cut into regions of at most `refRegionChunk` bytes.

Between two iterations the feeder calls `FetchIncomingInstructions`, which appends what
the rings deliver.  What each call brings is an argument here: a list of messages for
each call, empty where the call finds enough instructions in the buffer.
-/
import AsimFeeder.SoftSDV.MemAccess
import AsimFeeder.SoftSDV.ReplayBuffer

namespace AsimFeeder.SoftSDV

/-- What the merge reads of an instruction (`ASIM_SOFTSDV_INST_INFO_CLASS`). -/
structure InstInfo where
  addrVirtual : BitVec 64
  warmUp : Bool
  loads : List MemAccess
  stores : List MemAccess

/-- An operand of an instruction: load or store, and its index. -/
structure Operand where
  getLoad : Bool
  idx : Nat
deriving DecidableEq

/-- `SOFTSDV_REP_MEMORY_REGIONS_CLASS`. -/
structure RepMemRegions where
  nLoads : Nat
  nStores : Nat
  loads : List MemAccess
  stores : List MemAccess

namespace InstInfo

def refs (i : InstInfo) (getLoad : Bool) : List MemAccess :=
  if getLoad then i.loads else i.stores

def getRef (i : InstInfo) (o : Operand) : Except String MemAccess :=
  match (i.refs o.getLoad)[o.idx]? with
  | some ref => .ok ref
  | none => .error "idx < nActive"

def setRef (i : InstInfo) (o : Operand) (ref : MemAccess) : InstInfo :=
  if o.getLoad then
    { i with loads := i.loads.set o.idx ref }
  else
    { i with stores := i.stores.set o.idx ref }

/-- `UpdateLoadVirtualRegion` and `UpdateStoreVirtualRegion`. -/
def updateVirtualRegion (i : InstInfo) (o : Operand) (va : BitVec 64) (nBytes : Nat) :
    Except String InstInfo := do
  let ref ← i.getRef o
  .ok (i.setRef o ((ref.setVA va).setSizeNoCheck nBytes))

end InstInfo

/-! ### One region -/

def refRegionChunk : Nat := 2048

/-- The size of the references, the direction, and whether values are recorded. -/
structure MergeParams where
  refSize : Nat
  moveForward : Bool
  useValues : Bool

/-- The pages of a new region: one, or two when the reference spans two pages. -/
def initPages (refSize : Nat) (newRef oldRef : MemAccess) : Except String MemAccess := do
  let newRef ← newRef.setPA (← oldRef.getPA 0) 0
  if oldRef.nPages > 1 then
    let lastPA ← oldRef.pTranslate (oldRef.baseVA + BitVec.ofNat 64 refSize - 1)
    if lastPA &&& pageMask ≠ (← oldRef.getPA 0) then
      newRef.setPA lastPA 1
    else
      .ok newRef
  else
    .ok newRef

/-- Storage for the values of a new region, and the first value at its end of it. -/
def initValues (p : MergeParams) (newRef oldRef : MemAccess) (valueMaxSize : Nat) :
    Except String MemAccess :=
  if p.useValues then do
    let newRef ← newRef.allocValueStorage (Storage.zeroed valueMaxSize)
    -- Make the descriptor believe that the value is set
    let newRef ← newRef.setValue (fun _ => 0) 1 0
    let value ← oldRef.getValue
    newRef.copyToValue (if p.moveForward then 0 else valueMaxSize - p.refSize) value.byte p.refSize
  else
    .ok newRef

def initREPRegion (p : MergeParams) (oldRef : MemAccess) (valueMaxSize : Nat) :
    Except String MemAccess := do
  let newRef ← initPages p.refSize (MemAccess.new.setVA oldRef.baseVA) oldRef
  if oldRef.refSource ≠ .instruction then
    .error "oldRef->GetRefSource() == SDV_MEM_REF_INSTRUCTION"
  else
    let newRef ← newRef.setRefSource .instruction
    if oldRef.nBytes ≠ p.refSize then
      .error "oldRef->GetSize() == refSize"
    else
      let newRef ← newRef.setSize p.refSize
      initValues p newRef oldRef valueMaxSize

/-- Combine the address regions. -/
def combineRegions (p : MergeParams) (mergeRef oldRef : MemAccess) : Except String MemAccess :=
  if p.moveForward then
    if mergeRef.baseVA + BitVec.ofNat 64 mergeRef.nBytes = oldRef.baseVA then
      mergeRef.setSize (mergeRef.nBytes + p.refSize)
    else
      .error "mergeRef->GetVA() + mergeRef->GetSize() == oldRef->GetVA()"
  else
    if mergeRef.baseVA = oldRef.baseVA + BitVec.ofNat 64 p.refSize then
      (mergeRef.setVA (mergeRef.baseVA - BitVec.ofNat 64 p.refSize)).setSize
        (mergeRef.nBytes + p.refSize)
    else
      .error "mergeRef->GetVA() == oldRef->GetVA() + refSize"

/-- Move the first `n` pages up in the list. -/
def shiftPages (mergeRef : MemAccess) : Nat → Except String MemAccess
  | 0 => .ok mergeRef
  | i + 1 => do
      let mergeRef ← mergeRef.setPA (← mergeRef.getPA i) (i + 1)
      shiftPages mergeRef i

/-- Does the reference touch a new page? -/
def combinePages (p : MergeParams) (mergeRef oldRef : MemAccess) : Except String MemAccess :=
  if mergeRef.nPages = 0 then
    .error "mergeRef->GetNPages() > 0"
  else if p.moveForward then do
    let pIdx := mergeRef.nPages - 1
    let lastPA ← oldRef.pTranslate (oldRef.baseVA + BitVec.ofNat 64 p.refSize - 1)
    let oldPA := lastPA &&& pageMask
    if (← mergeRef.getPA pIdx) ≠ oldPA then
      -- Add the new page to the end
      mergeRef.setPA oldPA (pIdx + 1)
    else
      .ok mergeRef
  else do
    let firstPA ← oldRef.pTranslate oldRef.baseVA
    let oldPA := firstPA &&& pageMask
    if (← mergeRef.getPA 0) ≠ oldPA then
      -- Add the new page at the beginning
      let mergeRef ← shiftPages mergeRef mergeRef.nPages
      mergeRef.setPA oldPA 0
    else
      .ok mergeRef

def combineValues (p : MergeParams) (mergeRef oldRef : MemAccess) (valueMaxSize : Nat) :
    Except String MemAccess :=
  if p.useValues ≠ oldRef.valueSet then
    .error "useValues == oldRef->HasValue()"
  else if p.useValues then do
    let value ← oldRef.getValue
    mergeRef.copyToValue
      (if p.moveForward then mergeRef.nBytes - p.refSize else valueMaxSize - mergeRef.nBytes)
      value.byte p.refSize
  else
    .ok mergeRef

def mergeREPRegion (p : MergeParams) (mergeRef oldRef : MemAccess) (valueMaxSize : Nat) :
    Except String MemAccess :=
  if oldRef.refSource ≠ .instruction then
    .error "oldRef->GetRefSource() == SDV_MEM_REF_INSTRUCTION"
  else if oldRef.nBytes ≠ p.refSize then
    .error "oldRef->GetSize() == refSize"
  else do
    let mergeRef ← combineRegions p mergeRef oldRef
    let mergeRef ← combinePages p mergeRef oldRef
    combineValues p mergeRef oldRef valueMaxSize

/-! ### One iteration -/

/--
The new descriptors, the full regions (the latest first), how often full regions were
pushed, and the size of the new descriptors.  A descriptor stands with its operand.
-/
structure MergeState where
  newRefs : List (Operand × MemAccess)
  newRegions : List (Operand × MemAccess)
  listElements : BitVec 32
  newRegionSize : Nat

def initREPRegions (p : MergeParams) (ops : List Operand) (instr : InstInfo) :
    Except String (List (Operand × MemAccess)) :=
  ops.mapM fun o => do
    let newRef ← initREPRegion p (← instr.getRef o) refRegionChunk
    .ok (o, newRef)

/-- Merge the references of one more iteration. -/
def mergeInstr (p : MergeParams) (s : MergeState) (instr : InstInfo) : Except String MergeState :=
  if refRegionChunk < s.newRegionSize then
    .error "newRegionSize <= REF_REGION_CHUNK"
  else if s.newRegionSize = refRegionChunk then do
    -- Merged regions are full.
    let newRefs ← initREPRegions p (s.newRefs.map Prod.fst) instr
    .ok ⟨newRefs, s.newRefs.reverse ++ s.newRegions, s.listElements + 1, p.refSize⟩
  else do
    let newRefs ← s.newRefs.mapM fun x => do
      let mergeRef ← mergeREPRegion p x.2 (← instr.getRef x.1) refRegionChunk
      .ok (x.1, mergeRef)
    .ok { s with newRefs, newRegionSize := s.newRegionSize + p.refSize }

/-! ### Before and after the loop -/

/-- The number of references of the instruction itself, which come first, and their size. -/
def countRefs : List MemAccess → Nat → Nat → Except String (Nat × Nat)
  | [], nRefs, refSize => .ok (nRefs, refSize)
  | ref :: refs, nRefs, refSize =>
      if ref.refSource = .instruction then
        if refSize = 0 then
          countRefs refs (nRefs + 1) ref.nBytes
        else if refSize = ref.nBytes then
          countRefs refs (nRefs + 1) refSize
        else
          .error "refSize == size"
      else
        .ok (nRefs, refSize)

/-- The numbers of loads and stores to merge and their size. -/
def repRefs (baseInstr : InstInfo) : Except String (Nat × Nat × Nat) := do
  let (nLoads, refSize) ← countRefs baseInstr.loads 0 0
  let (nStores, refSize) ← countRefs baseInstr.stores 0 refSize
  if ¬ (0 < nLoads + nStores ∧ nLoads ≤ 2 ∧ nStores ≤ 1) then
    .error "nRefs[0] <= MAX_LOADS && nRefs[1] <= MAX_STORES"
  -- Size must be a power of two <= 8
  else if ¬ (0 < refSize ∧ refSize ≤ 8 ∧ (refSize - 1) &&& refSize = 0) then
    .error "((refSize - 1) & refSize) == 0"
  else
    .ok (nLoads, nStores, refSize)

/-- The first load or store (if no loads). -/
def firstOperand (nLoads : Nat) : Operand :=
  ⟨nLoads ≠ 0, 0⟩

def repOperands (nLoads nStores : Nat) : List Operand :=
  (List.range nLoads).map (⟨true, ·⟩) ++ (List.range nStores).map (⟨false, ·⟩)

/-- The direction and use of values, from the first operand of the first two iterations. -/
def repParams (nLoads refSize : Nat) (baseInstr nextSdvInstr : InstInfo) :
    Except String MergeParams := do
  let baseRef ← baseInstr.getRef (firstOperand nLoads)
  let nextRef ← nextSdvInstr.getRef (firstOperand nLoads)
  .ok ⟨refSize, baseRef.baseVA < nextRef.baseVA, baseRef.valueSet⟩

/-- For a REP going backward the values are at the wrong end of the buffer. -/
def shiftValues (p : MergeParams) (newRegionSize : Nat) (ref : MemAccess) :
    Except String MemAccess :=
  if p.useValues ∧ ¬ p.moveForward ∧ newRegionSize ≠ refRegionChunk then do
    let value ← ref.getValue
    ref.copyToValue 0 (fun j => value.byte (refRegionChunk - newRegionSize + j)) newRegionSize
  else
    .ok ref

/-- Update the merged instruction with the true virtual regions. -/
def updateVirtualRegions (p : MergeParams) (size : BitVec 32) :
    List (Operand × MemAccess) → InstInfo → Except String InstInfo
  | [], baseInstr => .ok baseInstr
  | (o, newRef) :: rest, baseInstr => do
      let baseRef ← baseInstr.getRef o
      let va := if p.moveForward then baseRef.baseVA else newRef.baseVA
      let baseInstr ← baseInstr.updateVirtualRegion o va size.toNat
      updateVirtualRegions p size rest baseInstr

/-- Room for `nRefs` descriptors for each region, filled by `SetLoad` or `SetStore`. -/
def setRegions (nRefs : Nat) (listElements : BitVec 32) (refs : List MemAccess) :
    Except String (Nat × List MemAccess) :=
  let n := (BitVec.ofNat 32 nRefs * (1 + listElements)).toNat
  if refs.length ≤ n then .ok (n, refs) else .error "idx < nLoads"

/-- The descriptors of the loads or of the stores, the unfinished regions first. -/
def MergeState.refs (s : MergeState) (getLoad : Bool) : List MemAccess :=
  ((s.newRefs ++ s.newRegions).filter fun x => x.1.getLoad = getLoad).map Prod.snd

/-- Build the final REP descriptor with the new regions. -/
def repMemRegions (nLoads nStores : Nat) (s : MergeState) : Except String RepMemRegions := do
  let (nLoads, loads) ← setRegions nLoads s.listElements (s.refs true)
  let (nStores, stores) ← setRegions nStores s.listElements (s.refs false)
  .ok ⟨nLoads, nStores, loads, stores⟩

/-! ### The loop -/

/-- A message `FetchIncomingInstructions` finds in the rings. -/
inductive Incoming (Regs : Type)
  | instr (newInstr : SdvInstr InstInfo)
  | regValues (rv : RegInfo Regs)

/-- The instruction of a message, if it is one. -/
def Incoming.instr? {Regs : Type} : Incoming Regs → Option (SdvInstr InstInfo)
  | .instr newInstr => some newInstr
  | .regValues _ => none

/-- Does the REP at `addrVirtual` continue with this instruction? -/
def continuesREP (addrVirtual : BitVec 64) (instr : InstInfo) : Prop :=
  addrVirtual = instr.addrVirtual ∧ instr.warmUp = false

instance (addrVirtual : BitVec 64) (instr : InstInfo) :
    Decidable (continuesREP addrVirtual instr) :=
  inferInstanceAs (Decidable (_ ∧ _))

namespace ReplayBuffer

variable {Regs : Type}

/-- Refill the incoming instruction buffer. -/
def fetchIncomingInstructions (b : ReplayBuffer InstInfo RepMemRegions Regs) :
    List (Incoming Regs) → Except String (ReplayBuffer InstInfo RepMemRegions Regs)
  | [] => .ok b
  | .instr newInstr :: rest => do
      let (b, _) ← b.addInstruction newInstr
      b.fetchIncomingInstructions rest
  | .regValues rv :: rest => (b.pushRegisterValues rv).fetchIncomingInstructions rest

/-- Walk through all the REP instructions that follow and merge the reference regions. -/
def mergeLoop (p : MergeParams) (addrVirtual : BitVec 64) (instrHandle : Ref) :
    Nat → ReplayBuffer InstInfo RepMemRegions Regs → List (List (Incoming Regs)) → MergeState →
      Except String (ReplayBuffer InstInfo RepMemRegions Regs × MergeState)
  | 0, _, _, _ => .error "out of fuel"
  | fuel + 1, b, refills, s =>
      match (b.cell instrHandle).next with
      | none => .ok (b, s)
      | some nextSdvHandle =>
          let nextSdvInstr := (b.cell nextSdvHandle).softsdvInstr.data
          if continuesREP addrVirtual nextSdvInstr then do
            let s ← mergeInstr p s nextSdvInstr
            -- All information extracted.  Remove this instruction.
            let b ← b.deleteInstruction nextSdvHandle
            let b ← b.fetchIncomingInstructions (refills.headD [])
            mergeLoop p addrVirtual instrHandle fuel b refills.tail s
          else
            .ok (b, s)

/-- REP memory reference regions from a merged set of instructions. -/
def setREPMemRegions (b : ReplayBuffer InstInfo RepMemRegions Regs) (r : Ref)
    (regions : RepMemRegions) : ReplayBuffer InstInfo RepMemRegions Regs :=
  b.modify r fun i => { i with repMemRegions := some regions }

/-- Shift the values, update the instruction and attach the regions to it. -/
def finishREP (b : ReplayBuffer InstInfo RepMemRegions Regs) (instrHandle : Ref) (p : MergeParams)
    (nLoads nStores : Nat) (s : MergeState) :
    Except String (ReplayBuffer InstInfo RepMemRegions Regs) := do
  let newRefs ← s.newRefs.mapM fun x => do
    let newRef ← shiftValues p s.newRegionSize x.2
    .ok (x.1, newRef)
  let size := BitVec.ofNat 32 s.newRegionSize + s.listElements * BitVec.ofNat 32 refRegionChunk
  let baseInstr ← updateVirtualRegions p size newRefs (b.cell instrHandle).softsdvInstr.data
  let regions ← repMemRegions nLoads nStores { s with newRefs }
  let softsdvInstr := { (b.cell instrHandle).softsdvInstr with data := baseInstr }
  .ok ((b.setSdvInstr instrHandle softsdvInstr).setREPMemRegions instrHandle regions)

def mergeREPInstrs (b : ReplayBuffer InstInfo RepMemRegions Regs) (instrHandle : Ref)
    (refills : List (List (Incoming Regs))) :
    Except String (ReplayBuffer InstInfo RepMemRegions Regs) :=
  let baseInstr := (b.cell instrHandle).softsdvInstr.data
  match (b.cell instrHandle).next with
  | none => .ok b
  | some nextSdvHandle =>
      let nextSdvInstr := (b.cell nextSdvHandle).softsdvInstr.data
      if ¬ continuesREP baseInstr.addrVirtual nextSdvInstr then
        -- Nothing to merge
        .ok b
      else do
        let (nLoads, nStores, refSize) ← repRefs baseInstr
        let p ← repParams nLoads refSize baseInstr nextSdvInstr
        let newRefs ← initREPRegions p (repOperands nLoads nStores) baseInstr
        -- Each pass removes one instruction.
        let fuel := b.nCells + (refills.map List.length).sum + 1
        let (b, s) ← b.mergeLoop p baseInstr.addrVirtual instrHandle fuel refills
          ⟨newRefs, [], 0, refSize⟩
        b.finishREP instrHandle p nLoads nStores s

end ReplayBuffer

end AsimFeeder.SoftSDV
