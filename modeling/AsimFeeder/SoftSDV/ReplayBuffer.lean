/-
The SoftSDV replay buffer (`softsdv_replay.h`, `softsdv_replay.cpp`).

Instructions that came from SoftSDV stay in the buffer until they commit, in case they
are killed and fetched again.  They are cells of a doubly linked list, with `nextFetch`
as the fetch cursor in it; cells that are no longer live wait on a free list that is
linked through `next` and are used again.

Cells are named by their addresses, and `none` is the null pointer.  Following a null
pointer, failing a `VERIFY` or an `ASSERT`, all end the run, so the operations that can
return an `Except`.
-/
import AsimFeeder.Lib.DList

namespace AsimFeeder.SoftSDV

open AsimFeeder.Lib

/-- The address of a live instruction. -/
abbrev Ref := Nat

/-- An instruction message: what the buffer reads of it, and the rest of the record. -/
structure SdvInstr (Data : Type) where
  regsUid : UInt64
  instrTag : Option Int32
  data : Data
deriving DecidableEq

/-- A register value message. -/
structure RegInfo (Regs : Type) where
  uid : UInt64
  regs : Regs

/-- The part of a live instruction that says which instruction it is. -/
structure Entry (Data : Type) where
  softsdvInstr : SdvInstr Data
  uid : UInt64
  implicitCommit : Bool
  artificialInstr : Bool
deriving DecidableEq

/-- A live instruction.  `inputRegValues` is the address of a register record. -/
structure LiveInstr (Data Rep : Type) extends Entry Data where
  inputRegValues : Option Nat
  repMemRegions : Option Rep
  prev : Option Ref
  next : Option Ref

/-- The buffer and the memory it owns: `nCells` live instructions and `nRegCells` records. -/
structure ReplayBuffer (Data Rep Regs : Type) where
  cell : Ref → LiveInstr Data Rep
  nCells : Nat
  head : Option Ref
  tail : Option Ref
  nextFetch : Option Ref
  freeList : Option Ref
  uid : UInt64
  regCell : Nat → RegInfo Regs
  nRegCells : Nat
  regValuesList : List Nat
  regValuesFreeList : List Nat

namespace ReplayBuffer

variable {Data Rep Regs : Type}

/-- A new buffer; `cell` and `regCell` are whatever the memory held before. -/
def empty (cell : Ref → LiveInstr Data Rep) (regCell : Nat → RegInfo Regs) :
    ReplayBuffer Data Rep Regs :=
  ⟨cell, 0, none, none, none, none, 0, regCell, 0, [], []⟩

/-! ### Memory -/

/-- What a pointer points to. -/
def deref : Option Ref → Except String Ref
  | some r => .ok r
  | none => .error "NULL pointer"

def modify (b : ReplayBuffer Data Rep Regs) (r : Ref)
    (f : LiveInstr Data Rep → LiveInstr Data Rep) : ReplayBuffer Data Rep Regs :=
  { b with cell := Function.update b.cell r (f (b.cell r)) }

def setNext (b : ReplayBuffer Data Rep Regs) (r : Ref) (n : Option Ref) :
    ReplayBuffer Data Rep Regs :=
  b.modify r fun i => { i with next := n }

def setPrev (b : ReplayBuffer Data Rep Regs) (r : Ref) (p : Option Ref) :
    ReplayBuffer Data Rep Regs :=
  b.modify r fun i => { i with prev := p }

def setUid (b : ReplayBuffer Data Rep Regs) (r : Ref) (id : UInt64) :
    ReplayBuffer Data Rep Regs :=
  b.modify r fun i => { i with uid := id }

def setSdvInstr (b : ReplayBuffer Data Rep Regs) (r : Ref) (instr : SdvInstr Data) :
    ReplayBuffer Data Rep Regs :=
  b.modify r fun i => { i with softsdvInstr := instr }

def setImplicitCommit (b : ReplayBuffer Data Rep Regs) (r : Ref) (v : Bool) :
    ReplayBuffer Data Rep Regs :=
  b.modify r fun i => { i with implicitCommit := v }

/-! ### Register values -/

/-- Allocate a local copy of an incoming register value message. -/
def pushRegisterValues (b : ReplayBuffer Data Rep Regs) (rv : RegInfo Regs) :
    ReplayBuffer Data Rep Regs :=
  match b.regValuesFreeList with
  | rInfo :: rest =>
      { b with
        regCell := Function.update b.regCell rInfo rv
        regValuesFreeList := rest
        regValuesList := b.regValuesList ++ [rInfo] }
  | [] =>
      { b with
        regCell := Function.update b.regCell b.nRegCells rv
        nRegCells := b.nRegCells + 1
        regValuesList := b.regValuesList ++ [b.nRegCells] }

/-- Remove the oldest register record. -/
def popRegisterValues (b : ReplayBuffer Data Rep Regs) : ReplayBuffer Data Rep Regs × Option Nat :=
  match b.regValuesList with
  | rInfo :: rest => ({ b with regValuesList := rest }, some rInfo)
  | [] => (b, none)

def deallocateRegisterValues (b : ReplayBuffer Data Rep Regs) (rv : Nat) :
    ReplayBuffer Data Rep Regs :=
  { b with regValuesFreeList := rv :: b.regValuesFreeList }

/-- The loop of `AddInstruction` that drops records no instruction used. -/
def dropUnusedRegisterValues (regsUid : UInt64) :
    Nat → ReplayBuffer Data Rep Regs → Option Nat → ReplayBuffer Data Rep Regs × Option Nat
  | 0, b, rInfo => (b, rInfo)
  | fuel + 1, b, some rInfo =>
      if (b.regCell rInfo).uid < regsUid then
        let (b, rInfo) := (b.deallocateRegisterValues rInfo).popRegisterValues
        dropUnusedRegisterValues regsUid fuel b rInfo
      else
        (b, some rInfo)
  | _ + 1, b, none => (b, none)

/-- What `VERIFY` prints when the register record of an instruction is not there. -/
def registersOutOfOrder : String := "Register values arrived out of order."

/-- Give `liveInstr` the input register values its instruction asks for. -/
def attachRegisterValues (b : ReplayBuffer Data Rep Regs) (liveInstr : Ref) (regsUid : UInt64) :
    Except String (ReplayBuffer Data Rep Regs) :=
  if regsUid ≠ 0 then
    -- Each pass takes one record off the list.
    let fuel := b.regValuesList.length + 1
    let (b, rInfo) := b.popRegisterValues
    let (b, rInfo) := dropUnusedRegisterValues regsUid fuel b rInfo
    match rInfo with
    | some rInfo =>
        if regsUid = (b.regCell rInfo).uid then
          .ok (b.modify liveInstr fun i => { i with inputRegValues := some rInfo })
        else
          .error registersOutOfOrder
    | none => .error registersOutOfOrder
  else
    .ok b

/-- Drop register values from an instruction. -/
def deleteInputRegValues (b : ReplayBuffer Data Rep Regs) (r : Ref) : ReplayBuffer Data Rep Regs :=
  match (b.cell r).inputRegValues with
  | some rv =>
      (b.deallocateRegisterValues rv).modify r fun i => { i with inputRegValues := none }
  | none => b

/-- Drop REP merged memory regions. -/
def deleteREPMemRegions (b : ReplayBuffer Data Rep Regs) (r : Ref) : ReplayBuffer Data Rep Regs :=
  b.modify r fun i => { i with repMemRegions := none }

/-! ### Live instruction storage -/

/-- Grab a live instruction from the free list or allocate new storage for it. -/
def allocateLiveInstr (b : ReplayBuffer Data Rep Regs) : ReplayBuffer Data Rep Regs × Ref :=
  match b.freeList with
  | some r => ({ b with freeList := (b.cell r).next }, r)
  | none =>
      let r := b.nCells
      ({ b with nCells := b.nCells + 1 }.modify r fun i => { i with
          inputRegValues := none
          repMemRegions := none
          prev := none
          next := none
          implicitCommit := false
          artificialInstr := false },
        r)

def deallocateLiveInstr (b : ReplayBuffer Data Rep Regs) (oldInstr : Ref) :
    ReplayBuffer Data Rep Regs :=
  let b := (b.deleteREPMemRegions oldInstr).deleteInputRegValues oldInstr
  { b.setNext oldInstr b.freeList with freeList := some oldInstr }

/-! ### The list -/

/-- Make sure the instruction isn't lost. -/
def keepFetchable (b : ReplayBuffer Data Rep Regs) (r : Ref) : ReplayBuffer Data Rep Regs :=
  match b.nextFetch with
  | none => { b with nextFetch := some r }
  | some _ => b

/-- Link `liveInstr` behind the tail. -/
def linkAtTail (b : ReplayBuffer Data Rep Regs) (liveInstr : Ref) : ReplayBuffer Data Rep Regs :=
  match b.tail with
  | none => { b with head := some liveInstr, tail := some liveInstr }
  | some t => { b.setNext t (some liveInstr) with tail := some liveInstr }

/-- Append a new instruction to the replay queue. -/
def addInstruction (b : ReplayBuffer Data Rep Regs) (newInstr : SdvInstr Data) :
    Except String (ReplayBuffer Data Rep Regs × Ref) := do
  let (b, liveInstr) := b.allocateLiveInstr
  let uid := b.uid + 1
  let b := { b with uid }.modify liveInstr fun i => { i with
    softsdvInstr := newInstr
    inputRegValues := none
    uid := uid
    next := none
    prev := b.tail
    implicitCommit := false
    artificialInstr := false }
  let b ← b.attachRegisterValues liveInstr newInstr.regsUid
  .ok ((b.linkAtTail liveInstr).keepFetchable liveInstr, liveInstr)

/-- Link `liveInstr` behind the cell its `prev` leads to. -/
def linkToPrev (b : ReplayBuffer Data Rep Regs) (liveInstr : Ref) : ReplayBuffer Data Rep Regs :=
  match (b.cell liveInstr).prev with
  | none => { b with head := some liveInstr }
  | some p => b.setNext p (some liveInstr)

/-- Put a place holder for an injected instruction in front of `realInstr`. -/
def addArtificialPlaceHolder (b : ReplayBuffer Data Rep Regs) (realInstr : Ref) :
    ReplayBuffer Data Rep Regs × Ref :=
  let (b, liveInstr) := b.allocateLiveInstr
  let uid := b.uid + 1
  let b := { b with uid }.modify liveInstr fun i => { i with
    inputRegValues := none
    uid := uid
    implicitCommit := true
    artificialInstr := true
    prev := (b.cell realInstr).prev
    next := some realInstr }
  let b := (b.setPrev realInstr (some liveInstr)).linkToPrev liveInstr
  let b := b.setSdvInstr liveInstr (b.cell realInstr).softsdvInstr
  (b.keepFetchable liveInstr, liveInstr)

/-- The tag of `liveInstr`, if it has one, over the one read so far. -/
def readTag (b : ReplayBuffer Data Rep Regs) (liveInstr : Ref) (tag : Option Int32) :
    Option Int32 :=
  (b.cell liveInstr).softsdvInstr.instrTag.or tag

/-- The loop of `CommitInstruction` over the implicit commits at the head of the list. -/
def implicitCommitLoop (liveInstr : Ref) :
    Nat → ReplayBuffer Data Rep Regs → UInt32 → Option Int32 →
      Except String (ReplayBuffer Data Rep Regs × UInt32 × Option Int32)
  | 0, _, _, _ => .error "out of fuel"
  | fuel + 1, b, numImplicitCommit, tag =>
      match b.head with
      | none => .ok (b, numImplicitCommit, tag)
      | some prev =>
          if (b.cell prev).implicitCommit && prev != liveInstr then do
            let numImplicitCommit :=
              if (b.cell prev).artificialInstr then numImplicitCommit else numImplicitCommit + 1
            let tag := b.readTag prev tag
            let head ← deref (b.cell prev).next
            let b := { b with head := some head }.setPrev head none
            implicitCommitLoop liveInstr fuel (b.deallocateLiveInstr prev) numImplicitCommit tag
          else
            .ok (b, numImplicitCommit, tag)

/-- Make the cell behind `liveInstr` the head. -/
def unlinkHead (b : ReplayBuffer Data Rep Regs) (liveInstr : Ref) : ReplayBuffer Data Rep Regs :=
  let b := { b with head := (b.cell liveInstr).next }
  match (b.cell liveInstr).next with
  | none => { b with tail := none }
  | some next => b.setPrev next none

/--
Commit one instruction.  Returns the number of implicit commits in front of it and the
last tag seen on the way, which is what `taggedInstrValue` is set to.
-/
def commitInstruction (b : ReplayBuffer Data Rep Regs) (liveInstr : Ref) :
    Except String (ReplayBuffer Data Rep Regs × UInt32 × Option Int32) :=
  if b.nextFetch = some liveInstr then
    .error "nextFetch != liveInstr"
  else do
    -- Each pass frees one live cell.
    let (b, numImplicitCommit, tag) ← b.implicitCommitLoop liveInstr b.nCells 0 none
    if b.head ≠ some liveInstr then
      .error "Out of order commit."
    else
      let tag := b.readTag liveInstr tag
      .ok ((b.unlinkHead liveInstr).deallocateLiveInstr liveInstr, numImplicitCommit, tag)

/-- Join what is in front of `liveInstr` to what is behind it, and move its uid there. -/
def unlinkFromPrev (b : ReplayBuffer Data Rep Regs) (liveInstr : Ref) :
    Except String (ReplayBuffer Data Rep Regs) :=
  if b.head = some liveInstr then
    .ok { b with head := (b.cell liveInstr).next }
  else do
    let prev ← deref (b.cell liveInstr).prev
    .ok ((b.setNext prev (b.cell liveInstr).next).setUid prev (b.cell liveInstr).uid)

/-- Join what is behind `liveInstr` to what is in front of it. -/
def unlinkFromNext (b : ReplayBuffer Data Rep Regs) (liveInstr : Ref) :
    Except String (ReplayBuffer Data Rep Regs) :=
  if b.tail = some liveInstr then
    .ok { b with tail := (b.cell liveInstr).prev }
  else do
    let next ← deref (b.cell liveInstr).next
    .ok (b.setPrev next (b.cell liveInstr).prev)

/-- Drop an instruction from the list. -/
def deleteInstruction (b : ReplayBuffer Data Rep Regs) (liveInstr : Ref) :
    Except String (ReplayBuffer Data Rep Regs) := do
  let b ← b.unlinkFromPrev liveInstr
  let b ← b.unlinkFromNext liveInstr
  let b :=
    if b.nextFetch = some liveInstr then { b with nextFetch := (b.cell liveInstr).next } else b
  .ok (b.deallocateLiveInstr liveInstr)

/-! ### The fetch cursor -/

/-- The next instruction to be fetched, artificial or not. -/
def getNextFetchHandle (b : ReplayBuffer Data Rep Regs) : ReplayBuffer Data Rep Regs × Option Ref :=
  match b.nextFetch with
  | some fetch => ({ b with nextFetch := (b.cell fetch).next }, some fetch)
  | none => (b, none)

/-- The loop of `GetNextRealFetchHandle` over artificial instructions. -/
def skipArtificial (b : ReplayBuffer Data Rep Regs) :
    Nat → Option Ref → Except String (Option Ref)
  | 0, _ => .error "out of fuel"
  | _ + 1, none => .ok none
  | fuel + 1, some fetch =>
      if (b.cell fetch).artificialInstr then
        b.skipArtificial fuel (b.cell fetch).next
      else
        .ok (some fetch)

/-- The next instruction to be fetched, skipping artificial instructions. -/
def getNextRealFetchHandle (b : ReplayBuffer Data Rep Regs) :
    Except String (ReplayBuffer Data Rep Regs × Option Ref) := do
  match ← b.skipArtificial (b.nCells + 1) b.nextFetch with
  | some fetch => .ok ({ b with nextFetch := (b.cell fetch).next }, some fetch)
  | none => .ok (b, none)

/-- The number `SetNextFetch` returns for a live instruction. -/
def nKilled (b : ReplayBuffer Data Rep Regs) (liveInstr : Ref) : UInt64 :=
  match b.nextFetch with
  | none => b.uid - (b.cell liveInstr).uid
  | some fetch => (b.cell fetch).uid - (b.cell liveInstr).uid

/-- Set the next instruction to fetch, and count the instructions this takes back. -/
def setNextFetch (b : ReplayBuffer Data Rep Regs) (liveInstr : Option Ref) :
    ReplayBuffer Data Rep Regs × UInt64 :=
  ({ b with nextFetch := liveInstr }, (liveInstr.map b.nKilled).getD 0)

/-- A clue of how many instructions have not been fetched. -/
def nUnfetchedQueuedInstrs (b : ReplayBuffer Data Rep Regs) : UInt64 :=
  match b.nextFetch with
  | none => 0
  | some fetch => b.uid - (b.cell fetch).uid + 1

end ReplayBuffer

end AsimFeeder.SoftSDV
