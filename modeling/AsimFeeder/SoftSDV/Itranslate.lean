/-
The table of instruction translations (`softsdv_itranslate.h`, `softsdv_itranslate.cpp`).

The 50 slots are linked from `head` to `tail`, the one that was used last first.  A slot that
is free is all zeros and looks like a translation of page 0.

An index of -1 is `none`.  Where the source would write through one, nothing is written; in a
table whose slots are linked that does not happen.
-/
import AsimFeeder.Lib.DList
import AsimFeeder.Lib.Runs

namespace AsimFeeder.SoftSDV.Itranslate

open Lib

/-- `nTableEntries` of them. -/
abbrev Slot := Fin 50

/-- `addr & ~(0x3fffL)`. -/
def Page (addr : UInt64) : UInt64 := addr &&& ~~~0x3fff

def PageOffset (addr : UInt64) : UInt64 := addr &&& 0x3fff

/-- Where user space ends. -/
def userSpaceEnd : UInt64 := 0xe000000000000000

structure Translation where
  softsdvUid : UInt64
  virtualPage : UInt64
  physicalPage : UInt64
  artificial : Bool
  deriving DecidableEq, Repr

def unused : Translation := ⟨0, 0, 0, false⟩

/-- `SOFTSDV_ITRANSLATE_CLASS`. -/
structure Table where
  entry : Slot → Translation
  links : Links Slot
  head : Option Slot
  tail : Option Slot
  lastSoftsdvUid : UInt64

namespace Table

/-- The constructor. -/
def init : Table where
  entry := fun _ => unused
  links :=
    { next := fun i => if h : i.val + 1 < 50 then some ⟨i.val + 1, h⟩ else none
      prev := fun i => if i.val = 0 then none else some ⟨i.val - 1, by omega⟩ }
  head := some ⟨0, by decide⟩
  tail := some ⟨49, by decide⟩
  lastSoftsdvUid := 0

variable (t : Table)

def setEntry (i : Slot) (e : Translation) : Table :=
  { t with entry := Function.update t.entry i e }

/-- The links of a slot's neighbours, when it is taken out. -/
def unlink (i : Slot) : Links Slot :=
  (t.links.joinRight (t.links.prev i) (t.links.next i)).joinLeft (t.links.next i) (t.links.prev i)

def MoveEntryToHead (i : Slot) : Table :=
  let t := t.setEntry i { t.entry i with softsdvUid := t.lastSoftsdvUid }
  if t.head = some i then t
  else
    { t with
      links := (((t.unlink i).joinLeft t.head (some i)).setPrev i none).setNext i t.head
      head := some i
      tail := if t.links.next i = none then t.links.prev i else t.tail }

def DeleteEntry (i : Slot) : Table :=
  let moved :=
    if t.tail = some i then t
    else
      { t with
        links := (((t.unlink i).joinRight t.tail (some i)).setPrev i t.tail).setNext i none
        head := if t.links.prev i = none then t.links.next i else t.head
        tail := some i }
  moved.setEntry i unused

/-- The first slot with the page on the way down from `i`, and the steps to it. -/
def find (page : UInt64) : Nat → Nat → Option Slot → Option (Slot × Nat)
  | 0, _, _ => none
  | _ + 1, _, none => none
  | fuel + 1, steps, some i =>
      if (t.entry i).virtualPage = page then some (i, steps)
      else find page fuel (steps + 1) (t.links.next i)

/-- Every loop starts at the head. -/
def findPage (va : UInt64) : Option (Slot × Nat) := t.find (Page va) 51 1 t.head

/-- The steps, 0 if there are none to the page, and `pa`. -/
def Lookup (va : UInt64) : Nat × UInt64 × Table :=
  match t.findPage va with
  | some (i, steps) =>
      (steps, (t.entry i).physicalPage + PageOffset va, t.MoveEntryToHead i)
  | none => (0, 0, t)

def IsEntryArtificial (va : UInt64) : Bool :=
  match t.findPage va with
  | some (i, _) => (t.entry i).artificial
  | none => false

/-- The new entry takes the slot at the head, if that has not the page already. -/
def fillHead (va pa : UInt64) (artificial : Bool) : Bool × Table :=
  match t.head with
  | none => (true, t)
  | some i =>
      if (t.entry i).virtualPage ≠ Page va then
        (false, t.setEntry i ⟨(t.entry i).softsdvUid, Page va, Page pa, artificial⟩)
      else (true, t)

/-- The second form of `AddEntry` sets `artificial` of what the first one adds. -/
def add (va pa softsdvUid : UInt64) (artificial : Bool) : Bool × Table :=
  let t := { t with lastSoftsdvUid := softsdvUid }
  match t.Lookup va with
  | (0, _, t) =>
      -- drop the entry that was not used for the longest time
      match t.tail with
      | none => (true, t)
      | some i => (t.MoveEntryToHead i).fillHead va pa artificial
  | (_ + 1, oldpa, t) => if oldpa = pa then (true, t) else t.fillHead va pa artificial

def AddEntry (va pa softsdvUid : UInt64) : Bool × Table := t.add va pa softsdvUid false

def AddArtificialEntry (va pa : UInt64) : Bool × Table := t.add va pa t.lastSoftsdvUid true

def DropTranslation (va : UInt64) : Table :=
  match t.findPage va with
  | some (i, _) => t.DeleteEntry i
  | none => t

def isOld (softsdvUid : UInt64) (e : Translation) : Bool :=
  e.softsdvUid ≠ 0 && e.softsdvUid < softsdvUid && e.virtualPage < userSpaceEnd

def DropOldUserSpaceTranslations (softsdvUid : UInt64) : Table :=
  (List.finRange 50).foldl
    (fun t i => if isOld softsdvUid (t.entry i) then t.DeleteEntry i else t) t

end Table

/-! ### What the table is for

At most 50 translations, the one that was used last first.  A page that is added keeps what
it was first added with, until it is dropped or evicted.
-/

/-- The translations, and the number that uses get. -/
structure Lru where
  live : List Translation
  lastSoftsdvUid : UInt64
  deriving DecidableEq

namespace Lru

variable (s : Lru)

def lookup (page : UInt64) : Option Translation := s.live.find? fun e => e.virtualPage = page

/-- A translation that is used comes to the front. -/
def use (page : UInt64) : Lru :=
  match s.lookup page with
  | none => s
  | some e =>
      { s with
        live := { e with softsdvUid := s.lastSoftsdvUid } ::
          s.live.filter fun e => e.virtualPage ≠ page }

/-- If there are 50 already, the last one goes. -/
def add (page physicalPage softsdvUid : UInt64) (artificial : Bool) : Lru :=
  let s := { s with lastSoftsdvUid := softsdvUid }
  match s.lookup page with
  | some _ => s.use page
  | none =>
      { s with
        live := ⟨softsdvUid, page, physicalPage, artificial⟩ ::
          if s.live.length = 50 then s.live.dropLast else s.live }

def drop (page : UInt64) : Lru := { s with live := s.live.filter fun e => e.virtualPage ≠ page }

def dropOld (softsdvUid : UInt64) : Lru :=
  { s with live := s.live.filter fun e => !Table.isOld softsdvUid e }

end Lru

/-! ### Runs -/

inductive Event
  | add (va pa softsdvUid : UInt64)
  | addArtificial (va pa : UInt64)
  | lookup (va : UInt64)
  | drop (va : UInt64)
  | dropOld (softsdvUid : UInt64)
  deriving DecidableEq, Repr

/-- The table, and what it should be. -/
structure Run where
  table : Table
  lru : Lru

namespace Run

def exec (s : Run) : Event → Run
  | .add va pa softsdvUid =>
      ⟨(s.table.AddEntry va pa softsdvUid).2, s.lru.add (Page va) (Page pa) softsdvUid false⟩
  | .addArtificial va pa =>
      ⟨(s.table.AddArtificialEntry va pa).2,
        s.lru.add (Page va) (Page pa) s.lru.lastSoftsdvUid true⟩
  | .lookup va => ⟨(s.table.Lookup va).2.2, s.lru.use (Page va)⟩
  | .drop va => ⟨s.table.DropTranslation va, s.lru.drop (Page va)⟩
  | .dropOld softsdvUid =>
      ⟨s.table.DropOldUserSpaceTranslations softsdvUid, s.lru.dropOld softsdvUid⟩

def init : Run := ⟨.init, ⟨[], 0⟩⟩

def legal (_ : Run) (_ : Event) : Bool := true

/-- No slot that is free is taken for a translation of the page. -/
def findable (s : Run) (va : UInt64) : Bool :=
  Page va ≠ 0 || (s.lru.lookup 0).isSome || s.lru.live.length = 50

/-- Page 0 is looked up or added only while it is there, or while no slot is free. -/
def careful (s : Run) : Event → Bool
  | .add va _ _ => s.findable va
  | .addArtificial va _ => s.findable va
  | .lookup va => s.findable va
  | .drop _ => true
  | .dropOld _ => true

def Start (s : Run) : Prop := s = init

def Step (ok : Run → Event → Bool) (s s' : Run) : Prop := ∃ e, ok s e = true ∧ s' = s.exec e

/-- The slots are linked, those that are not free are the translations in their order, and
what may be looked up is found just if it is there. -/
structure Correct (ok : Run → Event → Bool) (s : Run) : Prop where
  linked : ∃ l : List Slot, l.Nodup ∧ l.length = 50 ∧ Links.Seg s.table.links none l none ∧
    s.table.head = l.head? ∧ s.table.tail = l.getLast? ∧
      l.map s.table.entry = s.lru.live ++ List.replicate (50 - s.lru.live.length) unused
  bounded : s.lru.live.length ≤ 50
  distinct : (s.lru.live.map Translation.virtualPage).Nodup
  found : ∀ va, ok s (.lookup va) = true →
    ((s.table.Lookup va).1 ≠ 0 ↔ (s.lru.lookup (Page va)).isSome)
  translated : ∀ va e, ok s (.lookup va) = true → s.lru.lookup (Page va) = some e →
    (s.table.Lookup va).2.1 = e.physicalPage + PageOffset va

end Run

end AsimFeeder.SoftSDV.Itranslate
