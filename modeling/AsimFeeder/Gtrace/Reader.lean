/-
The GTrace reader (`ia64ciardi.cpp`) and what `GetNextInst` (`ia64reader.cpp`) makes of its
bundles.

The reader keeps a window of two bundles, because a record that comes after a bundle may
change the bundle before it.  A bundle is handed out when the line of the third is in the
buffer; that line waits there until the next call.

The window is a list whose head is `bundle[wPtr]`, so `wPtr` is one less than its length.
Records are taken as scanned; those that say nothing of control flow are all alike here, and
so are comments and unknown lines.  `IADDR_CLASS` is outside the repository: it is taken to be
a bundle address with a syllable, and to step through both.
-/
import AsimFeeder.Gtrace.RegisterRecords

namespace AsimFeeder.Gtrace

def bundleSize : BitVec 64 := 0x10

def bundleAddr (addr : BitVec 64) : BitVec 64 := addr &&& ~~~(bundleSize - 1)

def syllableId (addr : BitVec 64) : Nat := (addr &&& 3).toNat

structure IAddr where
  addr : BitVec 64
  syllable : Nat
deriving DecidableEq

namespace IAddr

/-- `Set(BundleAddr(dest), SyllableId(dest))`. -/
def ofAddr (dest : BitVec 64) : IAddr := ⟨bundleAddr dest, syllableId dest⟩

def incBundle (ip : IAddr) : IAddr := ⟨ip.addr + bundleSize, 0⟩

def next (ip : IAddr) : IAddr :=
  if ip.syllable + 1 < numSyllables then ⟨ip.addr, ip.syllable + 1⟩ else ip.incBundle

end IAddr

/-- `rfi` is not a field of the source: it says that an `rf` record set the target. -/
structure ControlSyllable where
  taken : Bool
  trap : Bool
  rfi : Bool
  target : IAddr
  wrongpath : Bool
deriving DecidableEq

structure ControlBundle where
  bits : BitVec 128
  vpc : BitVec 64
  syllable : Nat → ControlSyllable

/-- A line of the trace file. -/
inductive Record
  | bb (bits : BitVec 128)
  | br (taken : Bool) (ip dest : BitVec 64)
  | rf (destip ip : BitVec 64)
  | intr (destip ip : BitVec 64)
  | other

/-- `bundleLineInBuffer` is the bundle of the line, if there is one. -/
structure Reader where
  window : List ControlBundle
  traceIP : IAddr
  bundleLineInBuffer : Option (BitVec 128)

def wSize : Nat := 2

namespace ControlBundle

variable (b : ControlBundle)

def setSyllable (sNum : Nat) (syl : ControlSyllable) : ControlBundle :=
  { b with syllable := Function.update b.syllable sNum syl }

/-- Marks the syllables from `sNum` on. -/
def markWrongpath (sNum : Nat) : ControlBundle :=
  { b with
    syllable := fun i =>
      if sNum ≤ i then { b.syllable i with wrongpath := true } else b.syllable i }

/-- The last syllable below `sNum` that is not on the wrong path. -/
def lastOnPath : Nat → Option Nat
  | 0 => none
  | sNum + 1 => if (b.syllable sNum).wrongpath = false then some sNum else lastOnPath sNum

end ControlBundle

namespace Reader

/-- A new reader that has found the synchronising branch. -/
def new (dest : BitVec 64) : Reader := ⟨[], .ofAddr dest, none⟩

/-- The records up to the first taken branch set the position only. -/
def fileOpen : List Record → Option (Reader × List Record)
  | [] => none
  | .br true _ dest :: records => some (new dest, records)
  | _ :: records => fileOpen records

variable (r : Reader)

/-- A bundle at the trace position, with the syllables before it on the wrong path. -/
def newBundle (bits : BitVec 128) : ControlBundle where
  bits := bits
  vpc := r.traceIP.addr
  syllable := fun i =>
    { taken := false
      trap := false
      rfi := false
      target := ⟨0, 0⟩
      wrongpath := decide (i < r.traceIP.syllable) }

def bbAction (bits : BitVec 128) : Reader :=
  if r.window.length = wSize then { r with bundleLineInBuffer := some bits }
  else
    { window := r.newBundle bits :: r.window
      traceIP := r.traceIP.incBundle
      bundleLineInBuffer := none }

def brAction (taken : Bool) (ip dest : BitVec 64) : Except String Reader :=
  match r.window with
  | [] => .ok r
  | b :: older =>
      let sNum := syllableId ip
      if sNum < numSyllables then
        if taken then
          let target := IAddr.ofAddr dest
          let b := b.setSyllable sNum { b.syllable sNum with taken := true, target := target }
          .ok { r with window := b.markWrongpath (sNum + 1) :: older, traceIP := target }
        else
          let target := IAddr.next ⟨bundleAddr b.vpc, sNum⟩
          let b := b.setSyllable sNum { b.syllable sNum with taken := false, target := target }
          .ok { r with window := b :: older }
      else .error "write outside the bundle"

def rfAction (destip ip : BitVec 64) : Except String Reader :=
  match r.window with
  | [] => .ok r
  | b :: older =>
      let sNum := syllableId ip
      if sNum < numSyllables then
        let target := IAddr.ofAddr destip
        let b := b.setSyllable sNum { b.syllable sNum with rfi := true, target := target }
        .ok { r with window := b.markWrongpath (sNum + 1) :: older, traceIP := target }
      else .error "write outside the bundle"

/-- Search backward for the syllable to tag with the interrupt. -/
def tagInterrupt (target : IAddr) : Nat → List ControlBundle → Except String (List ControlBundle)
  | _, [] => .error "wPtr > 0"
  | sNum, b :: older =>
      match b.lastOnPath sNum with
      | some s =>
          .ok (b.setSyllable s { b.syllable s with trap := true, target := target } :: older)
      | none =>
          -- roll back the bundle window and continue searching
          if older = [] then .error "wPtr > 0" else tagInterrupt target numSyllables older

def inAction (destip ip : BitVec 64) : Except String Reader :=
  match r.window with
  | [] => .ok r
  | b :: older => do
      let sNum := syllableId ip
      let target := IAddr.ofAddr destip
      let window ←
        if b.vpc ≠ bundleAddr ip then
          -- the record of the interrupted bundle was not printed
          tagInterrupt target numSyllables (b :: older)
        else
          -- it was printed
          tagInterrupt target sNum (b.markWrongpath sNum :: older)
      .ok { r with window := window, traceIP := target }

def action : Record → Except String Reader
  | .bb bits => .ok (r.bbAction bits)
  | .br taken ip dest => r.brAction taken ip dest
  | .rf destip ip => r.rfAction destip ip
  | .intr destip ip => r.inAction destip ip
  | .other => .ok r

/-- Slide the bundle window: its oldest bundle was handed out. -/
def slide : Reader := { r with window := r.window.dropLast }

/-- Process the bundle line that waits in the buffer. -/
def takeLine : Reader :=
  match r.bundleLineInBuffer with
  | some bits => bbAction { r with bundleLineInBuffer := none } bits
  | none => r

/-- Until the window is full of bundles. -/
def readRecords (r : Reader) : List Record → Except String (Reader × List Record)
  | [] => .ok (r, [])
  | record :: records => do
      let r ← r.action record
      if r.bundleLineInBuffer.isSome then .ok (r, records) else readRecords r records

/-- `bundle[0]` is returned if there is one. -/
def getNextBundle (records : List Record) :
    Except String (Option ControlBundle × Reader × List Record) := do
  let (r, records) ← readRecords r.slide.takeLine records
  .ok (r.window.getLast?, r, records)

/-- Every bundle, until there is no more. -/
def deliver : Nat → Reader → List Record → Except String (List ControlBundle)
  | 0, _, _ => .error "out of fuel"
  | fuel + 1, r, records => do
      match ← r.getNextBundle records with
      | (none, _, _) => .ok []
      | (some b, r, records) =>
          let bundles ← deliver fuel r records
          .ok (b :: bundles)

end Reader

/-! ### Instructions -/

/-- What `GetNextInst` puts into the trace instruction, where the syllable is not on the wrong
path; otherwise it stops after the first three. -/
structure TraceInst where
  bits : BitVec 128
  pc : IAddr
  wrongpath : Bool
  target : IAddr
  taken : Bool
  trap : Bool
  rfi : Bool
deriving DecidableEq

def ControlBundle.inst (b : ControlBundle) (sNum : Nat) : TraceInst where
  bits := b.bits
  pc := ⟨b.vpc, sNum⟩
  wrongpath := (b.syllable sNum).wrongpath
  target := (b.syllable sNum).target
  taken := (b.syllable sNum).taken
  trap := (b.syllable sNum).trap
  rfi := (b.syllable sNum).rfi

def ControlBundle.insts (b : ControlBundle) : List TraceInst :=
  (List.range numSyllables).map b.inst

/-- The instructions of the bundles that are not on the wrong path. -/
def onPath (bundles : List ControlBundle) : List TraceInst :=
  (bundles.flatMap ControlBundle.insts).filter fun i => !i.wrongpath

end AsimFeeder.Gtrace
