/-
The store buffer of an AINT thread.

What the stores in flight have written so far waits in one list for each quadword, in
fetch order.  An entry is allocated anew for every update, and an instruction points to
its own (`ref` tells one allocation from another).  A scalar store points to one entry, a
vector store to an array of them.

When an instruction leaves, its entries go; the list of a quadword goes with its last
entry, and is looked up by the address that the instruction has now.
-/
import AsimFeeder.Lib.Buckets

namespace AsimFeeder.Aint

open Lib

/-- What stops the simulator. -/
inductive StoreFault
  | notFound
  | emptyUpdateList
  | freedList
  | beyondArray
  | renaming
  | notAStore
  | noSpecWrite
  | beforeMemop
  | invalidSize
  deriving DecidableEq, Repr

/-- `~7l` -/
def QWORD_MASK : BitVec 64 := ~~~7#64

structure StqEntry where
  fetchnum : Nat
  vaddr : BitVec 64
  data : BitVec 64
  bitmask : BitVec 64
  pos_in_vreg : Nat
  id : UInt64
  ref : Nat
  deriving DecidableEq, Repr

/-- The quadword that an entry belongs to. -/
def StqEntry.addr (u : StqEntry) : BitVec 64 := u.vaddr &&& QWORD_MASK

/-- `stq_addr` -/
abbrev StqAddr := Bucket (BitVec 64) StqEntry

structure StoreBuffer where
  StoreQ : List StqAddr
  allocated : Nat

inductive MemKind
  | none
  | load
  | store
  | storeConditional
  deriving DecidableEq, Repr

/-- The fields of `inflight_inst` that are about memory.  `wrote` is what the latest
`AINT_do_spec_write` wrote. -/
structure Memop where
  kind : MemKind
  size : Nat
  is_vector : Bool
  fetchnum : Nat
  vl : Nat
  pos_in_vreg : Nat
  vaddr : BitVec 64
  paddr : BitVec 64
  data : BitVec 64
  bitmask : BitVec 64
  stq_update : Option StqEntry
  stq_update_array : Option (List StqEntry)
  issued : Bool
  done_memop : Bool
  done_spec_write : Bool
  stc_success : Bool
  wrote : Option (BitVec 64 × BitVec 64)

/-- The walk of `Update_StoreBuffer` along the updates of a quadword. -/
def insertUpdate (update : StqEntry) : List StqEntry → List StqEntry
  | [] => [update]
  | sqe :: rest =>
      let same_pos := sqe.pos_in_vreg == update.pos_in_vreg
      let same_fetch := sqe.fetchnum == update.fetchnum
      let younger := decide (update.fetchnum < sqe.fetchnum)
      if younger || (same_fetch && !same_pos) then update :: sqe :: rest
      else if same_fetch && same_pos then update :: rest
      else sqe :: insertUpdate update rest

def Update_StoreBuffer (instid : UInt64) (ifi : Memop) (sb : StoreBuffer) :
    Except StoreFault (Memop × StoreBuffer) :=
  if ifi.stq_update.isSome then .ok (ifi, sb)
  else
    let update : StqEntry :=
      ⟨ifi.fetchnum, ifi.vaddr, ifi.data, ifi.bitmask, ifi.pos_in_vreg, instid, sb.allocated⟩
    let ifi := { ifi with stq_update := some update }
    let addr := ifi.vaddr &&& QWORD_MASK
    match Bucket.search addr sb.StoreQ with
    | none => .ok (ifi, ⟨⟨addr, [update]⟩ :: sb.StoreQ, sb.allocated + 1⟩)
    | some sq =>
        if sq.items = [] then .error .emptyUpdateList
        else
          .ok (ifi, ⟨Bucket.setItems addr (insertUpdate update sq.items) sb.StoreQ,
            sb.allocated + 1⟩)

/-- One round of `Cleanup_StoreBuffer`: an update is taken out of its list. -/
def unlinkUpdate (update : StqEntry) (vaddr : BitVec 64) (StoreQ : List StqAddr) :
    Except StoreFault (List StqAddr) :=
  match StoreQ.find? fun sq => sq.items.any fun sqe => sqe.ref == update.ref with
  | none => .error .freedList
  | some sq =>
      let rest := sq.items.filter fun sqe => sqe.ref != update.ref
      let StoreQ := Bucket.setItems sq.key rest StoreQ
      if rest = [] then
        let addr := vaddr &&& QWORD_MASK
        match Bucket.search addr StoreQ with
        | none => .error .notFound
        | some _ => .ok (Bucket.remove addr StoreQ)
      else .ok StoreQ

/-- The rounds for a vector store, which has an array of updates. -/
def cleanupArray : List StqEntry → List StqAddr → Except StoreFault (List StqAddr)
  | [], StoreQ => .ok StoreQ
  | update :: rest, StoreQ =>
      (unlinkUpdate update update.vaddr StoreQ).bind fun StoreQ => cleanupArray rest StoreQ

/-- `VL` is what the vector length register of the instruction holds. -/
def Cleanup_StoreBuffer (VL : Nat) (ifi : Memop) (sb : StoreBuffer) :
    Except StoreFault (Memop × StoreBuffer) :=
  let vl := if ifi.is_vector then VL else 1
  match ifi.stq_update_array with
  | some array =>
      if array.length < vl then .error .beyondArray
      else
        (cleanupArray (array.take vl) sb.StoreQ).map fun StoreQ =>
          ({ ifi with
              stq_update := none
              stq_update_array := none
              vaddr := ((array.take vl).getLast?.map StqEntry.vaddr).getD ifi.vaddr },
            { sb with StoreQ := StoreQ })
  | none =>
      match ifi.stq_update with
      | none => .ok (ifi, sb)
      | some update =>
          if vl = 0 then .ok (ifi, sb)
          else
            (unlinkUpdate update ifi.vaddr sb.StoreQ).map fun StoreQ =>
              ({ ifi with stq_update := none }, { sb with StoreQ := StoreQ })

/-- The walk of `Read_StoreBuffer`, from the youngest update on: the data so far, and the
bits that are still missing. -/
def readUpdates (fetchnum : Nat) :
    List StqEntry → BitVec 64 → BitVec 64 → BitVec 64 × BitVec 64
  | [], data, bitmask => (data, bitmask)
  | sqe :: rest, data, bitmask =>
      if fetchnum < sqe.fetchnum then readUpdates fetchnum rest data bitmask
      else
        let tempmask := bitmask &&& sqe.bitmask
        let data := data &&& ~~~tempmask |||
          (tempmask &&& sqe.data <<< ((sqe.vaddr &&& 7) <<< 3))
        let bitmask := bitmask &&& ~~~tempmask
        if bitmask = 0 then (data, 0) else readUpdates fetchnum rest data bitmask

def Read_StoreBuffer (ifi : Memop) (sb : StoreBuffer) (bitmask : BitVec 64) :
    BitVec 64 × BitVec 64 :=
  match Bucket.search (ifi.vaddr &&& QWORD_MASK) sb.StoreQ with
  | none => (ifi.data, bitmask)
  | some sq => readUpdates ifi.fetchnum sq.items.reverse ifi.data bitmask

end AsimFeeder.Aint
