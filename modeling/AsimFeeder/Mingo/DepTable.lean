/-
The table of addresses of the mingo feeder (`deptable.h`, `deptable.cpp`, `deptype.h`).

All rows take their elements from one array.  An element that is in no row is not `valid`.
The elements of a row are linked by their indices; `NULL_TABLE_ELEMENT` is `none`, and where
the source would write through it nothing is written.

Memory that comes from `new` has whatever it has, and so have the fields that are not set
afterwards.  The counters of `va_address` that only code that is commented out would touch
are left out.
-/
import AsimFeeder.Lib.DList
import AsimFeeder.Lib.Runs

namespace AsimFeeder.Mingo

open Lib

/-- `write_td`: which threads have written. -/
abbrev Marks := Fin 19 → UInt32

def noMarks : Marks := fun _ => 0

structure VaAddress where
  address : UInt64
  lastThread : UInt32
  lastIcount : UInt64
  writeTd : Marks
  deriving DecidableEq

/-- `VA_TABLE`; the fields of `elements` one by one. -/
structure VaTable where
  data : Nat → VaAddress
  links : Links Nat
  valid : Nat → Bool
  allocateFrom : Nat
  head : Nat → Option Nat
  tail : Nat → Option Nat
  rowsize : Nat → Nat
  capacity : Nat
  currentSize : Nat
  limit : Nat
  rows : Nat
  resize : Nat

namespace VaTable

/-- What `new` returns is in `data` and `links`. -/
def INIT (capacity limit rows resize : UInt32) (data : Nat → VaAddress) (links : Links Nat) :
    VaTable where
  data := data
  links := links
  valid := fun _ => false
  allocateFrom := 0
  head := fun _ => none
  tail := fun _ => none
  rowsize := fun _ => 0
  capacity := capacity.toNat
  currentSize := 0
  limit := limit.toNat
  rows := rows.toNat
  resize := resize.toNat

variable (t : VaTable)

/-- The elements are copied field by field; `write_td` is what the new memory has. -/
def RESIZE (newcapacity : Nat) (memory : Nat → Marks) : Option VaTable :=
  if newcapacity < t.currentSize then none
  else if t.limit < newcapacity then none
  else
    some
      { t with
        data := fun i =>
          if i < t.capacity then { t.data i with writeTd := memory i } else ⟨0, 0, 0, memory i⟩
        links :=
          { next := fun i => if i < t.capacity then t.links.next i else none
            prev := fun i => if i < t.capacity then t.links.prev i else none }
        valid := fun i => if i < t.capacity then t.valid i else false
        capacity := newcapacity }

def advance (i : Nat) : Nat := if i + 1 = t.capacity then 0 else i + 1

/-- The loop, which is run once for each element there can be. -/
def FIND_FREE_ELEMENT : Nat → VaTable → Bool × VaTable
  | 0, t => (false, t)
  | n + 1, t =>
      let t := { t with allocateFrom := t.advance t.allocateFrom }
      if t.valid t.allocateFrom = false then (true, t) else FIND_FREE_ELEMENT n t

def leak : String :=
  "You have a memory leak somewhere, I expected to find an empty element but they were all valid!!"

/-- Space for one more, if there is none. -/
def grow (memory : Nat → Marks) : Except String VaTable :=
  if t.currentSize = t.capacity then
    match t.RESIZE ((t.capacity + t.resize) % 2 ^ 32) memory with
    | some t => .ok t
    | none => .error "TABLE RESIZE FAILED"
  else if t.capacity < t.currentSize then .error "INVALID CURRENT_SIZE!"
  else .ok t

/-- The element at `allocate_from` is the last one of the row. -/
def append (address lastThread lastIcount : UInt64) (row : Nat) : VaTable :=
  let i := t.allocateFrom
  let e := t.data i
  let t :=
    { t with
      data := Function.update t.data i
        { e with address, lastThread := lastThread.toUInt32, lastIcount }
      valid := Function.update t.valid i true }
  let t :=
    if t.rowsize row = 0 then
      { t with
        head := Function.update t.head row (some i)
        tail := Function.update t.tail row (some i)
        links := (t.links.setPrev i none).setNext i none }
    else
      { t with
        links := ((t.links.setPrev i (t.tail row)).setNext i none).joinRight (t.tail row) (some i)
        tail := Function.update t.tail row (some i) }
  { t with
    rowsize := Function.update t.rowsize row (t.rowsize row + 1)
    currentSize := t.currentSize + 1 }

def ADD_VA (address lastThread lastIcount : UInt64) (row : Nat) (memory : Nat → Marks) :
    Except String VaTable :=
  if t.rows ≤ row then .error "row<rows"
  else do
    let t ← t.grow memory
    match t.FIND_FREE_ELEMENT t.capacity with
    | (false, _) => .error leak
    | (true, t) => .ok (t.append address lastThread lastIcount row)

/-- The counts, at the end of both ways to remove. -/
def removed (row : Nat) : VaTable :=
  { t with
    rowsize := Function.update t.rowsize row (t.rowsize row - 1)
    currentSize := t.currentSize - 1 }

def REMOVE_DEP_HEAD (row : Nat) (address : UInt64) : Except String VaTable :=
  if t.rows ≤ row then .error "row<rows"
  else if t.rowsize row = 0 then .error "There is nothing in that row!"
  else
    match t.head row with
    | none => .error "NULL_TABLE_ELEMENT"
    | some i =>
        if (t.data i).address ≠ address then .error "elements[head[row]].data.address==address"
        else if t.links.prev i ≠ none then .error "elements[head[row]].prev==NULL_TABLE_ELEMENT"
        else
          let t := { t with valid := Function.update t.valid i false }
          match t.links.next i with
          | some j =>
              if t.rowsize row ≤ 1 then .error "rowsize[row]>1"
              else
                .ok (removed
                  { t with
                    head := Function.update t.head row (some j)
                    links := t.links.setPrev j none } row)
          | none =>
              if t.rowsize row ≠ 1 then .error "rowsize[row]==1"
              else
                .ok (removed
                  { t with
                    tail := Function.update t.tail row none
                    head := Function.update t.head row none } row)

/-- The first element with the address on the way from `start`. -/
def find (address : UInt64) : Nat → Option Nat → Option Nat
  | 0, _ => none
  | _ + 1, none => none
  | fuel + 1, some i =>
      if (t.data i).address = address then some i else find address fuel (t.links.next i)

/-- No row has more elements than there are. -/
def FIND_DEP (row : Nat) (address : UInt64) : Option Nat :=
  t.find address (t.capacity + 1) (t.head row)

def REMOVE_DEP_MID (row : Nat) (address : UInt64) : Except String VaTable :=
  if t.rows ≤ row then .error "row<rows"
  else if t.rowsize row = 0 then .error "There is nothing in that row!"
  else
    match t.FIND_DEP row address with
    | none => .error "i!=NULL_TABLE_ELEMENT"
    | some i =>
        let t := { t with valid := Function.update t.valid i false }
        let prev := t.links.prev i
        let next := t.links.next i
        .ok (removed
          (if t.rowsize row = 1 then
            { t with
              tail := Function.update t.tail row none
              head := Function.update t.head row none }
          else
            { t with
              head := if prev = none then Function.update t.head row next else t.head
              tail := if next = none then Function.update t.tail row prev else t.tail
              links := (t.links.joinRight prev next).joinLeft next prev }) row)

/-- What is stored through the record that `FIND_DEP` returns. -/
def store (i : Nat) (e : VaAddress) : VaTable := { t with data := Function.update t.data i e }

end VaTable

/-! ### What the table is for -/

/-- The records of each row, in the order in which they came. -/
abbrev Records := Nat → List VaAddress

/-- The first record with the address is another one. -/
def replaceFirst (address : UInt64) (e : VaAddress) : List VaAddress → List VaAddress
  | [] => []
  | e' :: l => if e'.address = address then e :: l else e' :: replaceFirst address e l

inductive Call
  | ADD_VA (address lastThread lastIcount : UInt64) (row : Nat) (memory : Nat → Marks)
  | REMOVE_DEP_HEAD (row : Nat) (address : UInt64)
  | REMOVE_DEP_MID (row : Nat) (address : UInt64)
  | update (row : Nat) (address : UInt64) (e : VaAddress)

def Call.exec (t : VaTable) : Call → Except String VaTable
  | .ADD_VA address lastThread lastIcount row memory =>
      t.ADD_VA address lastThread lastIcount row memory
  | .REMOVE_DEP_HEAD row address => t.REMOVE_DEP_HEAD row address
  | .REMOVE_DEP_MID row address => t.REMOVE_DEP_MID row address
  | .update row address e =>
      match t.FIND_DEP row address with
      | some i => .ok (t.store i e)
      | none => .ok t

def Call.apply (s : Records) : Call → Records
  | .ADD_VA address lastThread lastIcount row _ =>
      Function.update s row (s row ++ [⟨address, lastThread.toUInt32, lastIcount, noMarks⟩])
  | .REMOVE_DEP_HEAD row _ => Function.update s row (s row).tail
  | .REMOVE_DEP_MID row address =>
      Function.update s row ((s row).eraseP fun e => e.address = address)
  | .update row address e => Function.update s row (replaceFirst address e (s row))

/-! ### Runs -/

/-- The table, and the records that were stored. -/
structure Run where
  table : VaTable
  records : Records

namespace Run

def Start (r : Run) : Prop :=
  ∃ (capacity limit rows resize : UInt32) (data : Nat → VaAddress) (links : Links Nat),
    0 < resize ∧ r = ⟨.INIT capacity limit rows resize data links, fun _ => []⟩

def legal (_ : Run) (_ : Call) : Prop := True

/-- The first place after the cursor that has no element, once around. -/
def Slot (valid : Nat → Bool) (capacity cursor i : Nat) : Prop :=
  ∃ j < capacity, i = (cursor + j + 1) % capacity ∧ valid i = false ∧
    ∀ k < j, valid ((cursor + k + 1) % capacity) = true

/-- Memory for a table that is full has the marks of its elements already, and none at the place
that is taken then; in a table that is not full the place that is taken has none. -/
def careful (r : Run) : Call → Prop
  | .ADD_VA _ _ _ _ memory =>
      let t := r.table
      if t.currentSize = t.capacity then
        (∀ i < t.capacity, t.valid i = true → memory i = (t.data i).writeTd) ∧
        ∀ i, Slot (fun i => if i < t.capacity then t.valid i else false)
          ((t.capacity + t.resize) % 2 ^ 32) t.allocateFrom i → memory i = noMarks
      else ∀ i, Slot t.valid t.capacity t.allocateFrom i → (t.data i).writeTd = noMarks
  | _ => True

/-- A call that fails no assertion. -/
def Step (ok : Run → Call → Prop) (r r' : Run) : Prop :=
  ∃ call : Call, ok r call ∧ call.exec r.table = .ok r'.table ∧ r'.records = call.apply r.records

end Run

/-- The indices of the elements of each row. -/
structure Rows (t : VaTable) (ls : Nat → List Nat) : Prop where
  seg : ∀ row, Links.Seg t.links none (ls row) none
  head : ∀ row, t.head row = (ls row).head?
  tail : ∀ row, t.tail row = (ls row).getLast?
  rowsize : ∀ row, t.rowsize row = (ls row).length
  nodup : ∀ row, (ls row).Nodup
  apart : ∀ row row' i, i ∈ ls row → i ∈ ls row' → row = row'
  outside : ∀ row, t.rows ≤ row → ls row = []
  within : ∀ row i, i ∈ ls row → i < t.capacity
  valid : ∀ i < t.capacity, t.valid i = true ↔ ∃ row, i ∈ ls row
  currentSize : t.currentSize = ∑ row ∈ Finset.range t.rows, (ls row).length

/-- The rows are linked, have the records that were stored, and space that is there is found. -/
structure Run.Correct (r : Run) : Prop where
  linked : ∃ ls, Rows r.table ls ∧ ∀ row, (ls row).map r.table.data = r.records row
  found : ∀ row address, (r.table.FIND_DEP row address).map r.table.data
    = (r.records row).find? fun e => e.address = address
  noLeak : ∀ address lastThread lastIcount row memory,
    r.table.ADD_VA address lastThread lastIcount row memory ≠ .error VaTable.leak

end AsimFeeder.Mingo
