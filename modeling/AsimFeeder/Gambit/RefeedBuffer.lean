/-
The refeed buffer of the Gambit feeder (`refeed_buffer.h`, `refeed_buffer.cpp`,
`refeed_info.h`).

A `FEEDER_QUEUE_CLASS` keeps the instructions the feeder has handed out until they
commit, in a ring of `REFEED_QUEUE_SIZE` entries between `head` and `tail`.  When the
front end is resteered, `set_mispec_pt` looks the killed instruction up from the tail
back, and `mispeculation_pt` then walks from there to the tail, handing the same
instructions out again.  Each gets a new uid on the way, because it can be killed again.

`ASIMERROR` ends the run, so the operations that call it return an `Except`.
-/
import AsimFeeder.Lib.Slots

namespace AsimFeeder.Gambit

open AsimFeeder.Lib

/-- What the queue keeps of an instruction. -/
structure InstructionFeedInfo (Data : Type) where
  uid : UInt64
  valid : Bool
  issued : Bool
  nop : Bool
  longImm : Bool
  data : Data
deriving DecidableEq

/-- A queue of `n` entries. -/
structure FeederQueue (n : Nat) (Data : Type) where
  instructionBuffer : Fin n → InstructionFeedInfo Data
  size : Nat
  head : Fin n
  tail : Fin n
  mispeculationPt : Fin n
  mispInstLeft : Bool

namespace FeederQueue

variable {n : Nat} [NeZero n] {Data : Type}

/-- A new queue; `data` and `uid` are whatever the entries held before. -/
def empty (uid : Fin n → UInt64) (data : Fin n → Data) : FeederQueue n Data where
  instructionBuffer i := ⟨uid i, false, false, false, false, data i⟩
  size := 0
  head := slot n 0
  tail := slot n 0
  mispeculationPt := slot n 0
  mispInstLeft := false

/-- Change entry `i`. -/
def modify (q : FeederQueue n Data) (i : Fin n)
    (f : InstructionFeedInfo Data → InstructionFeedInfo Data) : FeederQueue n Data :=
  { q with instructionBuffer :=
      Function.update q.instructionBuffer i (f (q.instructionBuffer i)) }

/-! ### Adding and removing -/

/-- Flags of the entry at the tail, which the next `add` fills. -/
def setNop (q : FeederQueue n Data) (nop : Bool) : FeederQueue n Data :=
  q.modify q.tail fun i => { i with nop }

def setLongImm (q : FeederQueue n Data) (li : Bool) : FeederQueue n Data :=
  q.modify q.tail fun i => { i with longImm := li }

/-- Fill the entry at the tail.  One entry always stays empty. -/
def add (q : FeederQueue n Data) (data : Data) (uid : UInt64) :
    Except String (FeederQueue n Data) :=
  let q := q.modify q.tail fun i => { i with data, uid, valid := true }
  let q := { q with size := q.size + 1, tail := next q.tail }
  if q.tail = q.head then .error "Gambit_FEEDER buffer queue is full" else .ok q

/-- Drop the entry at the head, whatever it is. -/
def dropHead (q : FeederQueue n Data) : FeederQueue n Data :=
  { q.modify q.head fun i => { i with valid := false, issued := false } with
    size := q.size - 1
    head := next q.head }

def emptyOrInvalid : String := "Gambit_FEEDER: Buffer is empty or head is invalid"

/-- Remove the head element. -/
def removehead (q : FeederQueue n Data) : Except String (FeederQueue n Data) :=
  if q.size = 0 ∨ (q.instructionBuffer q.head).valid = false then
    .error emptyOrInvalid
  else
    .ok q.dropHead

/-- The loop of `removehead` over leading nops and long immediates. -/
def dropNops (uid : UInt64) : Nat → FeederQueue n Data → FeederQueue n Data
  | 0, q => q
  | fuel + 1, q =>
      let i := q.instructionBuffer q.head
      if uid ≠ i.uid ∧ (i.nop || i.longImm) ∧ q.size ≠ 0 then
        dropNops uid fuel q.dropHead
      else
        q

/-- Check the uid and remove the head element. -/
def removeheadUid (q : FeederQueue n Data) (uid : UInt64) : Except String (FeederQueue n Data) :=
  -- Each pass removes one entry.
  let q := dropNops uid (q.size + 1) q
  let i := q.instructionBuffer q.head
  if q.size = 0 ∨ i.valid = false then
    .error emptyOrInvalid
  else if uid ≠ i.uid then
    .error "Gambit_FEEDER: Uid of commit does not match buffer head"
  else
    .ok q.dropHead

/-! ### Refeeding -/

/-- Change the uid at the mispeculation point, because it may be killed again. -/
def rename (q : FeederQueue n Data) (newUid : UInt64) : FeederQueue n Data × Bool :=
  if q.size = 0 ∨ (q.instructionBuffer q.mispeculationPt).valid = false then
    (q, false)
  else
    (q.modify q.mispeculationPt fun i => { i with uid := newUid }, true)

def getmispec (q : FeederQueue n Data) : Option (InstructionFeedInfo Data) :=
  if q.size = 0 ∨ (q.instructionBuffer q.mispeculationPt).valid = false then
    none
  else
    some (q.instructionBuffer q.mispeculationPt)

/-- Move the mispeculation point ahead one. -/
def incrementMispecPt (q : FeederQueue n Data) : FeederQueue n Data :=
  let q := { q with mispeculationPt := next q.mispeculationPt }
  if q.mispeculationPt = q.tail then { q with mispInstLeft := false } else q

/-- The loop of `set_mispec_pt`, from `i` back to the head. -/
def searchBack (q : FeederQueue n Data) (uid : UInt64) : Nat → Fin n → Fin n
  | 0, i => i
  | fuel + 1, i =>
      if i ≠ q.head ∧ (q.instructionBuffer i).uid ≠ uid then q.searchBack uid fuel (prev i) else i

/-- Start refeeding at the instruction with this uid, or behind it. -/
def setMispecPt (q : FeederQueue n Data) (uid : UInt64) (killMe : Bool) :
    FeederQueue n Data × Bool :=
  if q.size = 0 then
    (q, false)
  else
    let tailminusone := prev q.tail
    let i := q.searchBack uid n tailminusone
    if (q.instructionBuffer i).uid = uid then
      if killMe then
        ({ q with mispeculationPt := i, mispInstLeft := true }, true)
      else if i = tailminusone then
        ({ q with mispeculationPt := i, mispInstLeft := false }, true)
      else
        ({ q with mispeculationPt := next i, mispInstLeft := true }, true)
    else
      (q, false)

/-- The flags `Refeed` notes when the instruction decodes as a nop or a long immediate. -/
def noteFlags (q : FeederQueue n Data) (isNop isTypeL : Bool) : FeederQueue n Data :=
  q.modify q.mispeculationPt fun i =>
    { i with nop := i.nop || isNop, longImm := i.longImm || isTypeL }

/-- What `Refeed` of the feeder does to the queue, and the entry it hands out. -/
def refeed (q : FeederQueue n Data) (isNop isTypeL : Bool) (newUid : UInt64) :
    Except String (FeederQueue n Data × InstructionFeedInfo Data) :=
  match q.getmispec with
  | none => .error "Gambit_FEEDER: Invalid Pointer to instruction info on refeed"
  | some inst =>
      let (q, renamed) := (q.noteFlags isNop isTypeL).rename newUid
      if renamed then
        .ok (q.incrementMispecPt, inst)
      else
        .error "Gambit_FEEDER: Could not reset the Uid on refeed"

end FeederQueue

end AsimFeeder.Gambit
