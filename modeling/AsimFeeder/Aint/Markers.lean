/-
Markers of instructions.

An instruction of a text page has one word of markers.  A marker is set, cleared or looked
at through a mask, for one address or for all text pages.  These are found by a walk over
the translation buffer, which has the tag of a page and its bucket, from which the address
is put together.

The mask is a shifted one, and that one is an `int`: the shift is one of 32 bits, which
takes the number of the marker modulo 32, and the result is extended by its sign.

Of an entry of the translation buffer only the text page matters here.  An entry is known
by its number, and a new text page is all zeros.
-/
import AsimFeeder.Aint.AddressSpace

namespace AsimFeeder.Aint.Markers

open Lib

def MAX_MARKER : Nat := 64

/-- `(UINT64) (1 << markerID)`. -/
def mask (markerID : Nat) : BitVec 64 := ((1#32) <<< (markerID % 32)).signExtend 64

/-- `(UINT64) ~(1 << markerID)`. -/
def clearMask (markerID : Nat) : BitVec 64 := (~~~((1#32) <<< (markerID % 32))).signExtend 64

def ITB_OFFSET (addr : UInt64) : Nat := addr.toNat % 65536 / 4

/-- The address that `ClearAll` and `SetInst` put together for the `i`th byte of a page. -/
def textaddr (tag : Int) (tbn i : Nat) : UInt64 :=
  ((UInt64.ofInt tag <<< 24) ||| (UInt64.ofNat tbn <<< 16)) + UInt64.ofNat i

/-- What an instruction is, and its markers. -/
structure TextIcode where
  instr : BitVec 32
  markers : BitVec 64
  deriving DecidableEq, Repr

namespace TextIcode

variable (ic : TextIcode)

def set (markerID : Nat) : TextIcode := { ic with markers := ic.markers ||| mask markerID }

def clear (markerID : Nat) : TextIcode := { ic with markers := ic.markers &&& clearMask markerID }

def isSet (markerID : Nat) : Bool := decide (ic.markers &&& mask markerID ≠ 0)

def fits (instBits instMask : BitVec 32) : Bool :=
  decide (ic.instr &&& instMask = instBits &&& instMask)

end TextIcode

/-- `mapped` says which addresses are in a segment, and `entries` is how many entries the
translation buffer has got. -/
structure TextProcess where
  TB : Nat → Chain Int Nat
  textpage : Nat → Option (Nat → TextIcode)
  entries : Nat
  mapped : UInt64 → Bool

namespace TextProcess

variable (p : TextProcess)

/-- The entry of a page, `NULL` if the address is in no segment. -/
def tlb_lookup (addr : UInt64) : Option (Option Nat × TextProcess) :=
  let tbkey := TB_KEY (TB_VPAGE addr)
  let tbtag := TB_TAG (TB_VPAGE addr)
  match (p.TB tbkey).look tbtag with
  | .broken => none
  | .hit pg chain => some (some pg.value, { p with TB := Function.update p.TB tbkey chain })
  | .miss =>
      if p.mapped addr then
        some (some p.entries,
          { p with
            TB := Function.update p.TB tbkey ((p.TB tbkey).push tbtag p.entries)
            textpage := Function.update p.textpage p.entries none
            entries := p.entries + 1 })
      else some (none, p)

def newTextpage : Nat → TextIcode := fun _ => ⟨0, 0⟩

/-- The instruction at an address, as an entry and a place in its text page. -/
def addr2iphys (addr : UInt64) : Option (Option (Nat × Nat) × TextProcess) :=
  (p.tlb_lookup addr).map fun found =>
    match found.1 with
    | none => (none, found.2)
    | some pg =>
        (some (pg, ITB_OFFSET addr),
          if (found.2.textpage pg).isSome then found.2
          else { found.2 with textpage := Function.update found.2.textpage pg (some newTextpage) })

def icode (at_ : Nat × Nat) : TextIcode := ((p.textpage at_.1).getD newTextpage) at_.2

def setIcode (at_ : Nat × Nat) (ic : TextIcode) : TextProcess :=
  { p with
    textpage := Function.update p.textpage at_.1
      (some (Function.update ((p.textpage at_.1).getD newTextpage) at_.2 ic)) }

/-- The instruction at an address is changed; `NULL` is an error. -/
def onPicode (f : TextIcode → TextIcode) (addr : UInt64) : Option TextProcess :=
  (p.addr2iphys addr).bind fun found =>
    found.1.map fun at_ => found.2.setIcode at_ (f (found.2.icode at_))

/-- The loop over the instructions of a text page. -/
def onTextpage (f : TextIcode → TextIcode) (tag : Int) (tbn : Nat) : Option TextProcess :=
  (List.range (65536 / 4)).foldlM (fun p i => p.onPicode f (textaddr tag tbn (4 * i))) p

/-- The loop over the entries of a bucket. -/
def onBucket (f : TextIcode → TextIcode) (tbn : Nat) : Option TextProcess :=
  (p.TB tbn).foldlM (fun p tbe =>
    if (p.textpage tbe.value).isSome then p.onTextpage f tbe.key tbn else some p) p

/-- The loops over all text pages, which `ClearAll` and `SetInst` share. -/
def onTextpages (f : TextIcode → TextIcode) : Option TextProcess :=
  (List.range TB_SIZE).foldlM (fun p tbn => p.onBucket f tbn) p

def ClearPc (markerID : Nat) (markerPC : UInt64) : Option TextProcess :=
  p.onPicode (·.clear markerID) markerPC

def ClearAll (markerID : Nat) : Option TextProcess := p.onTextpages (·.clear markerID)

def SetPc (markerID : Nat) (markerPC : UInt64) : Option TextProcess :=
  p.onPicode (·.set markerID) markerPC

def SetInst (markerID : Nat) (instBits instMask : BitVec 32) : Option TextProcess :=
  p.onTextpages fun ic => if ic.fits instBits instMask then ic.set markerID else ic

def IsSet (markerID : Nat) (markerPC : UInt64) : Option (Bool × TextProcess) :=
  (p.addr2iphys markerPC).bind fun found =>
    found.1.map fun at_ => ((found.2.icode at_).isSet markerID, found.2)

/-! ### What is there, for the statement only -/

def entryAt (addr : UInt64) : Option Nat :=
  ((p.TB (TB_KEY (TB_VPAGE addr))).find? fun tbe => tbe.key = TB_TAG (TB_VPAGE addr)).map
    Cell.value

/-- The instruction at an address, if it is in a text page already. -/
def textAt (addr : UInt64) : Option TextIcode :=
  (p.entryAt addr).bind fun pg => (p.textpage pg).map fun text => text (ITB_OFFSET addr)

end TextProcess

inductive Event
  | setPc (markerID : Nat) (markerPC : UInt64)
  | setInst (markerID : Nat) (instBits instMask : BitVec 32)
  | clearPc (markerID : Nat) (markerPC : UInt64)
  | clearAll (markerID : Nat)
  | isSet (markerID : Nat) (markerPC : UInt64)
  deriving DecidableEq, Repr

def Event.markerID : Event → Nat
  | .setPc markerID _ => markerID
  | .setInst markerID _ _ => markerID
  | .clearPc markerID _ => markerID
  | .clearAll markerID => markerID
  | .isSet markerID _ => markerID

/-- Two addresses in one instruction. -/
def sameInst (a b : UInt64) : Bool := decide (a.toNat / 4 = b.toNat / 4)

/-- The process, and one flag for each marker and each address. -/
structure MarkerRun where
  code : TextProcess
  flags : Nat → UInt64 → Bool

namespace MarkerRun

def issue (p : TextProcess) : Event → Option TextProcess
  | .setPc markerID markerPC => p.SetPc markerID markerPC
  | .setInst markerID instBits instMask => p.SetInst markerID instBits instMask
  | .clearPc markerID markerPC => p.ClearPc markerID markerPC
  | .clearAll markerID => p.ClearAll markerID
  | .isSet markerID markerPC => (p.IsSet markerID markerPC).map Prod.snd

/-- The flags of this marker at the addresses that the operation concerns. -/
def assign (s : MarkerRun) : Event → UInt64 → Bool
  | .setPc markerID markerPC => fun a => sameInst a markerPC || s.flags markerID a
  | .setInst markerID instBits instMask => fun a =>
      (s.code.textAt a).any (·.fits instBits instMask) || s.flags markerID a
  | .clearPc markerID markerPC => fun a => !sameInst a markerPC && s.flags markerID a
  | .clearAll _ => fun _ => false
  | .isSet markerID _ => s.flags markerID

def exec (s : MarkerRun) (e : Event) : Option MarkerRun :=
  (issue s.code e).map fun code =>
    ⟨code, Function.update s.flags e.markerID (s.assign e)⟩

/-- The address is in a segment. -/
def mapped (s : MarkerRun) : Event → Bool
  | .setPc _ markerPC => s.code.mapped markerPC
  | .clearPc _ markerPC => s.code.mapped markerPC
  | .isSet _ markerPC => s.code.mapped markerPC
  | .setInst _ _ _ => true
  | .clearAll _ => true

def legal (s : MarkerRun) (e : Event) : Bool := decide (e.markerID < MAX_MARKER) && s.mapped e

/-- The mask of the marker is a bit of an `int`. -/
def careful (s : MarkerRun) (e : Event) : Bool := decide (e.markerID < 32) && s.mapped e

/-- The entries are those of pages, no marker is set, and so says every flag. -/
structure Start (s : MarkerRun) : Prop where
  aimed : ∀ tbn, (s.code.TB tbn).Aimed
  known : ∀ tbn tag pg, (s.code.TB tbn).Maps tag pg → pg < s.code.entries ∧
    ∃ addr, tbn = TB_KEY (TB_VPAGE addr) ∧ tag = TB_TAG (TB_VPAGE addr)
  unique : ∀ tbn tag tbn' tag' pg, (s.code.TB tbn).Maps tag pg → (s.code.TB tbn').Maps tag' pg →
    tbn = tbn' ∧ tag = tag'
  markers : ∀ addr ic, s.code.textAt addr = some ic → ic.markers = 0
  flags : ∀ markerID addr, s.flags markerID addr = false

/-- `e` may happen in `s`. -/
def Step (ok : MarkerRun → Event → Bool) (s t : MarkerRun) : Prop :=
  ∃ e, ok s e = true ∧ s.exec e = some t

/-- What is asked is answered with the flag, and every operation succeeds. -/
structure Independent (ok : MarkerRun → Event → Bool) (s : MarkerRun) : Prop where
  answers : ∀ markerID markerPC, ok s (.isSet markerID markerPC) = true →
    (s.code.IsSet markerID markerPC).map Prod.fst = some (s.flags markerID markerPC)
  runs : ∀ e, ok s e = true → (s.exec e).isSome

end MarkerRun

end AsimFeeder.Aint.Markers
