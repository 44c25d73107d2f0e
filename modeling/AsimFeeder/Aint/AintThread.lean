/-
A whole AINT thread: renaming, memory operations and the store buffer.

The address and the data of a memory operation are computed from registers when it is
issued; they are left open here, like the values that instructions compute.  So are the
addresses and the data of the elements of a vector store.  Memory is one word for each
quadword, in the byte order of the shifts; `pmap` is the translation of the process, zero
for an address that is not mapped.
-/
import AsimFeeder.Aint.Rename
import AsimFeeder.Aint.StoreBuffer

namespace AsimFeeder.Aint

open Lib

/-- The bytes of a quadword that an access covers. -/
def byteMask (size : Nat) (vaddr : BitVec 64) : BitVec 64 :=
  if size = 0 then 0
  else if size = 8 then BitVec.allOnes 64
  else (1#64 <<< (8 * size) - 1) <<< ((vaddr &&& 7) <<< 3)

/-- An instruction as it is decoded. -/
structure MemIcode extends Icode where
  kind : MemKind
  size : Nat
  is_vector : Bool

structure AintThread where
  rename : RenameThread
  memops : UInt64 → Memop
  sb : StoreBuffer
  memory : BitVec 64 → BitVec 64

/-- `VL_REG` -/
def VL_REG : LogicalRegNum := 65

namespace Memop

/-- Nothing is known of the operation of an instruction that was just fetched. -/
def fetched (picode : MemIcode) (fetchnum vl : Nat) : Memop where
  kind := picode.kind
  size := picode.size
  is_vector := picode.is_vector
  fetchnum := fetchnum
  vl := vl
  pos_in_vreg := 0
  vaddr := 0
  paddr := 0
  data := 0
  bitmask := 0
  stq_update := none
  stq_update_array := none
  issued := false
  done_memop := false
  done_spec_write := false
  stc_success := picode.kind == .storeConditional
  wrote := none

def isStore (ifi : Memop) : Bool := ifi.kind == .store || ifi.kind == .storeConditional

/-- `event_read` and `event_write`, which end in `compute_paddr`. -/
def event (pmap : BitVec 64 → BitVec 64) (vaddr data : BitVec 64) (ifi : Memop) : Memop :=
  { ifi with
    vaddr := vaddr
    paddr := pmap vaddr
    bitmask := byteMask ifi.size vaddr
    data := if ifi.isStore then data else ifi.data }

/-- Whether `AINT_do_spec_write` has to clean up first. -/
def needs_cleanup (ifi : Memop) : Bool :=
  (!ifi.is_vector && ifi.stq_update.any fun update =>
    update.vaddr != ifi.vaddr || update.data != ifi.data) ||
  (ifi.is_vector && ifi.stq_update_array.isSome)

/-- The clean up works on the old address. -/
def cleanupOld (vl : Nat) (ifi : Memop) (sb : StoreBuffer) :
    Except StoreFault (Memop × StoreBuffer) :=
  if needs_cleanup ifi then
    let oldvaddr := (ifi.stq_update.map StqEntry.vaddr).getD ifi.vaddr
    (Cleanup_StoreBuffer vl { ifi with vaddr := oldvaddr } sb).map fun (cleaned, sb) =>
      ({ cleaned with vaddr := ifi.vaddr }, sb)
  else .ok (ifi, sb)

/-- The elements of a vector store, one after the other. -/
def specWriteElements (pmap : BitVec 64 → BitVec 64) (instid : UInt64) :
    List (BitVec 64 × BitVec 64) → Memop → StoreBuffer → Except StoreFault (Memop × StoreBuffer)
  | [], ifi, sb => .ok (ifi, sb)
  | (vaddr, data) :: rest, ifi, sb =>
      let ifi := { ifi.event pmap vaddr data with
        pos_in_vreg := (ifi.stq_update_array.getD []).length }
      (Update_StoreBuffer instid ifi sb).bind fun (ifi, sb) =>
        specWriteElements pmap instid rest
          { ifi with
            stq_update := none
            stq_update_array := some (ifi.stq_update_array.getD [] ++ ifi.stq_update.toList) } sb

/-- The second half of `AINT_do_spec_write`. -/
def specUpdate (pmap : BitVec 64 → BitVec 64) (instid : UInt64)
    (elements : List (BitVec 64 × BitVec 64)) (ifi : Memop) (sb : StoreBuffer) :
    Except StoreFault (Memop × StoreBuffer) :=
  if ifi.is_vector then
    specWriteElements pmap instid elements { ifi with stq_update_array := some [] } sb
  else if ifi.kind = .storeConditional ∧ ifi.stc_success = false then .ok (ifi, sb)
  else
    (Update_StoreBuffer instid ifi sb).map fun (ifi, sb) =>
      ({ ifi with wrote := some (ifi.vaddr, ifi.data) }, sb)

/-- `AINT_do_spec_write`, for the operation of a store. -/
def specWrite (pmap : BitVec 64 → BitVec 64) (instid : UInt64)
    (elements : List (BitVec 64 × BitVec 64)) (ifi : Memop) (sb : StoreBuffer) :
    Except StoreFault (Memop × StoreBuffer) :=
  (cleanupOld elements.length { ifi with done_memop := false } sb).bind fun (ifi, sb) =>
    (specUpdate pmap instid elements ifi sb).map fun (ifi, sb) =>
      ({ ifi with done_spec_write := true }, sb)

end Memop

namespace AintThread

/-- `init_all_queues`, with the memory of the process. -/
def init (memory : BitVec 64 → BitVec 64) : AintThread where
  rename := .init
  memops := fun _ => .fetched ⟨⟨fun _ => 0, none⟩, .none, 0, false⟩ 0 0
  sb := ⟨[], 0⟩
  memory := memory

/-- The vector length of an instruction, as an `int`. -/
def VL (rename : RenameThread) (ifi : Memop) : Nat :=
  ((rename.regs.Reg ifi.vl).bmod (2 ^ 32)).toNat

section Operations

variable (pmap : BitVec 64 → BitVec 64) (t : AintThread)

/-- What stops renaming stops the thread. -/
def renamed (rename : Option RenameThread) (f : RenameThread → Except StoreFault AintThread) :
    Except StoreFault AintThread :=
  match rename with
  | none => .error .renaming
  | some rename => f rename

def setMemop (instid : UInt64) (ifi : Memop) : AintThread :=
  { t with memops := Function.update t.memops instid ifi }

def AINT_fetch_next_instr (picode : Option MemIcode) : Except StoreFault AintThread :=
  renamed (t.rename.AINT_fetch_next_instr (picode.map MemIcode.toIcode)) fun rename =>
    match picode with
    | none => .ok { t with rename := rename }
    | some picode =>
        .ok { t with
          rename := rename
          memops := Function.update t.memops rename.instid
            (.fetched picode t.rename.fetch_count (t.rename.regs.RegMap VL_REG)) }

def AINT_issue_other (instid : UInt64) (writes : List (Target × Int))
    (vaddr data : BitVec 64) : Except StoreFault AintThread :=
  renamed (t.rename.AINT_issue_other instid writes) fun rename =>
    let ifi := { t.memops instid with done_memop := false, done_spec_write := false }
    if (t.rename.cbif instid).picode.isNone then
      .ok (setMemop { t with rename := rename } instid ifi)
    else
      let ifi := { ifi with issued := true }
      match ifi.kind with
      | .none => .ok (setMemop { t with rename := rename } instid ifi)
      | _ =>
          if ifi.size = 0 ∨ ifi.size = 1 ∨ ifi.size = 2 ∨ ifi.size = 4 ∨ ifi.size = 8 then
            .ok (setMemop { t with rename := rename } instid (ifi.event pmap vaddr data))
          else .error .invalidSize

/-- `elements` are those of a vector store, as many as the vector length says. -/
def AINT_do_spec_write (instid : UInt64) (elements : List (BitVec 64 × BitVec 64)) :
    Except StoreFault AintThread :=
  if !(t.memops instid).isStore then .error .notAStore
  else
    ((t.memops instid).specWrite pmap instid elements t.sb).map fun (ifi, sb) =>
      setMemop { t with sb := sb } instid ifi

/-- A store conditional is told that it fails. -/
def AINT_stc_failed (instid : UInt64) : Except StoreFault AintThread :=
  let ifi := { t.memops instid with stc_success := false }
  (Cleanup_StoreBuffer (VL t.rename ifi) ifi t.sb).map fun (ifi, sb) =>
    setMemop { t with sb := sb } instid ifi

/-- What a scalar load reads: `ifi.data` after the store buffer and the cache. -/
def readData (ifi : Memop) (sb : StoreBuffer) (memory : BitVec 64 → BitVec 64) : BitVec 64 :=
  let (data, bitmask) := Read_StoreBuffer { ifi with data := 0 } sb ifi.bitmask
  let data :=
    if bitmask = 0 then data
    else
      let data := data &&& ~~~bitmask
      if ifi.paddr = 0 then data else data ||| (memory (ifi.paddr &&& QWORD_MASK) &&& bitmask)
  if ifi.size < 8 then data >>> ((ifi.vaddr &&& 7) * 8) else data

/-- The register that it loads is written with the data; a vector load leaves the address
behind its last element, and the data of the last element. -/
def AINT_do_read (instid : UInt64) (writes : List (Target × Int))
    (elements : List (BitVec 64 × BitVec 64)) : Except StoreFault AintThread :=
  renamed (t.rename.writeCells instid writes) fun rename =>
    let ifi := t.memops instid
    let ifi :=
      if ifi.is_vector then
        match elements.getLast? with
        | none => ifi
        | some (vaddr, data) => { ifi with vaddr := vaddr, paddr := pmap vaddr, data := data }
      else { ifi with data := readData ifi t.sb t.memory }
    .ok (setMemop { t with rename := rename } instid { ifi with done_memop := true })

/-- A write to memory, nothing for an address that is not mapped. -/
def writeMemory (size : Nat) (paddr data : BitVec 64) (memory : BitVec 64 → BitVec 64) :
    BitVec 64 → BitVec 64 :=
  if paddr = 0 then memory
  else
    let addr := paddr &&& QWORD_MASK
    let mask := byteMask size paddr
    Function.update memory addr
      (memory addr &&& ~~~mask ||| (mask &&& data <<< ((paddr &&& 7) <<< 3)))

/-- The elements of a vector store are written as their updates say. -/
def writeElements (pmap : BitVec 64 → BitVec 64) :
    List StqEntry → Memop → (BitVec 64 → BitVec 64) → Memop × (BitVec 64 → BitVec 64)
  | [], ifi, memory => (ifi, memory)
  | update :: rest, ifi, memory =>
      let ifi := { ifi with
        vaddr := update.vaddr
        data := update.data
        paddr := pmap update.vaddr }
      writeElements pmap rest ifi (writeMemory ifi.size ifi.paddr ifi.data memory)

def AINT_do_write (instid : UInt64) : Except StoreFault AintThread :=
  let ifi := t.memops instid
  if !ifi.done_spec_write then .error .noSpecWrite
  else if !ifi.is_vector then
    .ok (setMemop { t with memory := writeMemory ifi.size ifi.paddr ifi.data t.memory } instid
      { ifi with done_memop := true })
  else
    let array := ifi.stq_update_array.getD []
    let vl := VL t.rename ifi
    if array.length < vl then .error .beyondArray
    else
      let (ifi, memory) := writeElements pmap (array.take vl) ifi t.memory
      .ok (setMemop { t with memory := memory } instid { ifi with done_memop := true })

def AINT_commit_instr (instid : UInt64) : Except StoreFault AintThread :=
  renamed (t.rename.AINT_commit_instr instid) fun rename =>
    let ifi := t.memops instid
    if (t.rename.cbif instid).committed then .ok { t with rename := rename }
    else if ifi.kind != .none && !ifi.done_memop then .error .beforeMemop
    else
      (Cleanup_StoreBuffer (VL rename ifi) ifi t.sb).map fun (ifi, sb) =>
        setMemop { t with rename := rename, sb := sb } instid ifi

/-- One round of `AINT_kill_instrs`. -/
def killYoungest (picode : Icode) : Except StoreFault AintThread :=
  let rename := t.rename.killYoungest picode
  let ifi := t.memops t.rename.instid
  (Cleanup_StoreBuffer (VL rename ifi) ifi t.sb).map fun (ifi, sb) =>
    setMemop { t with rename := rename, sb := sb } t.rename.instid ifi

def killLoop (stop : UInt64) : Nat → AintThread → Except StoreFault AintThread
  | 0, t => if t.rename.instid = stop then .ok t else .error .renaming
  | fuel + 1, t =>
      if t.rename.instid = stop then .ok t
      else if CBIF_SIZE ≤ t.rename.instid then .error .renaming
      else
        match (t.rename.cbif t.rename.instid).picode with
        | none => .ok t
        | some picode => (t.killYoungest picode).bind (killLoop stop fuel)

def AINT_kill_instrs (instid : UInt64) : Except StoreFault AintThread :=
  killLoop (PRED_CIRC instid) CBIF_SIZE.toNat t

end Operations

end AintThread

/-! ### All that can happen to a thread -/

inductive AintEvent
  | fetch (picode : Option MemIcode)
  | issue (instid : UInt64) (writes : List (Target × Int)) (vaddr data : BitVec 64)
  | specWrite (instid : UInt64) (elements : List (BitVec 64 × BitVec 64))
  | stcFailed (instid : UInt64)
  | read (instid : UInt64) (writes : List (Target × Int))
      (elements : List (BitVec 64 × BitVec 64))
  | write (instid : UInt64)
  | commit (instid : UInt64)
  | kill (instid : UInt64)

def AintThread.exec (pmap : BitVec 64 → BitVec 64) (t : AintThread) :
    AintEvent → Except StoreFault AintThread
  | .fetch picode => t.AINT_fetch_next_instr picode
  | .issue instid writes vaddr data => t.AINT_issue_other pmap instid writes vaddr data
  | .specWrite instid elements => t.AINT_do_spec_write pmap instid elements
  | .stcFailed instid => t.AINT_stc_failed instid
  | .read instid writes elements => t.AINT_do_read pmap instid writes elements
  | .write instid => t.AINT_do_write pmap instid
  | .commit instid => t.AINT_commit_instr instid
  | .kill instid => t.AINT_kill_instrs instid

end AsimFeeder.Aint
