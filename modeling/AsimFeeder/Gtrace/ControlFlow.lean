/-
What the traced program ran, and when the GTrace reader delivers just that.

A trace is the output of a run: bundles that were printed, the branches and returns that left
them, and interrupts.  Of an interrupt the trace does not say whether the bundle it hit was
printed.  The reader takes it to be the last printed one wherever the addresses are the same.
If a branch goes back to its own bundle and the interrupt comes before the second round is
printed, it takes syllables of the first round for interrupted ones.

The interrupts of a run therefore say whether their bundle was printed; the record that the
reader sees does not.
-/
import AsimFeeder.Gtrace.Reader

namespace AsimFeeder.Gtrace

/-! ### Runs -/

/-- What happens in a run, in the order of the records. -/
inductive Event
  | bb (bits : BitVec 128)
  | br (taken : Bool) (ip dest : BitVec 64)
  | rf (destip ip : BitVec 64)
  | intr (printed : Bool) (destip ip : BitVec 64)
  | other

def Event.record : Event → Record
  | bb bits => .bb bits
  | br taken ip dest => .br taken ip dest
  | rf destip ip => .rf destip ip
  | intr _ destip ip => .intr destip ip
  | other => .other

/-- How the last syllable of a bundle that ran was left. -/
structure Transfer where
  taken : Bool
  rfi : Bool
  trap : Bool
  target : IAddr
deriving DecidableEq

/-- A printed bundle of which the syllables from `entry` to below `stop` ran. -/
structure Ran where
  bits : BitVec 128
  addr : BitVec 64
  entry : Nat
  stop : Nat
  out : Option Transfer
deriving DecidableEq

namespace Ran

variable (x : Ran)

def start : IAddr := ⟨x.addr, x.entry⟩

/-- Where the program goes on. -/
def after : IAddr :=
  match x.out with
  | some t => t.target
  | none => ⟨x.addr + bundleSize, 0⟩

/-- The bundle is left by the syllable `sNum`. -/
def leave (sNum : Nat) (t : Transfer) : Ran := { x with stop := sNum + 1, out := some t }

/-- The last syllable that ran is interrupted. -/
def trap (target : IAddr) : Ran :=
  let t := x.out.getD ⟨false, false, false, target⟩
  { x with out := some { t with trap := true, target := target } }

/-- The syllables that ran. -/
def syllables : List (BitVec 128 × IAddr) :=
  (List.range' x.entry (x.stop - x.entry)).map fun sNum => (x.bits, ⟨x.addr, sNum⟩)

end Ran

/-- The bundles of which something ran, newest first, and where the program is. -/
structure Exec where
  ran : List Ran
  pos : IAddr

namespace Exec

variable (t : Exec)

def new (dest : BitVec 64) : Exec := ⟨[], .ofAddr dest⟩

/-- A branch that is taken, or a return from interrupt. -/
def leave (ip : BitVec 64) (out : Transfer) : Exec :=
  match t.ran with
  | [] => t
  | x :: older => ⟨x.leave (syllableId ip) out :: older, out.target⟩

/-- A bundle that is interrupted stops there; it is left out if nothing of it ran. -/
def stopAt (sNum : Nat) : List Ran → List Ran
  | [] => []
  | x :: older =>
      if x.out = none then
        if x.entry < sNum then { x with stop := sNum } :: older else older
      else x :: older

def trapLast (target : IAddr) : List Ran → List Ran
  | [] => []
  | x :: older => x.trap target :: older

def step : Event → Exec
  | .bb bits => ⟨⟨bits, t.pos.addr, t.pos.syllable, numSyllables, none⟩ :: t.ran, t.pos.incBundle⟩
  | .br true ip dest => t.leave ip ⟨true, false, false, .ofAddr dest⟩
  | .br false _ _ => t
  | .rf destip ip => t.leave ip ⟨false, true, false, .ofAddr destip⟩
  | .intr printed destip ip =>
      let ran := if printed then stopAt (syllableId ip) t.ran else t.ran
      ⟨trapLast (.ofAddr destip) ran, .ofAddr destip⟩
  | .other => t

def run (events : List Event) : Exec := events.foldl step t

/-- Every syllable that ran, in order. -/
def executed : List (BitVec 128 × IAddr) := t.ran.reverse.flatMap Ran.syllables

end Exec

/-! ### What is to be delivered -/

/-- Where an instruction says that the next one is. -/
def TraceInst.successor (i : TraceInst) : IAddr :=
  if i.taken ∨ i.rfi ∨ i.trap then i.target else i.pc.next

/-- Each bundle of which something ran is delivered once, in order, with just the syllables
that did not run on the wrong path. -/
structure Delivers (bundles : List ControlBundle) (t : Exec) : Prop where
  once : List.Forall₂ (fun (b : ControlBundle) (x : Ran) => b.bits = x.bits ∧ b.vpc = x.addr ∧
    ∀ sNum < numSyllables, (b.syllable sNum).wrongpath = false ↔ x.entry ≤ sNum ∧ sNum < x.stop)
    bundles t.ran.reverse
  executed : (onPath bundles).map (fun i => (i.bits, i.pc)) = t.executed
  successor : (onPath bundles).IsChain fun i j => j.pc = i.successor

/-! ### When they are delivered -/

namespace Exec

variable (t : Exec)

/-- The bundle that runs is left by a syllable that it reaches, to a syllable that there is. -/
def CanLeave (ip dest : BitVec 64) : Prop :=
  syllableId dest < numSyllables ∧ ∃ x older, t.ran = x :: older ∧ x.out = none ∧
    x.entry ≤ syllableId ip ∧ syllableId ip < numSyllables

/-- A branch that is not taken is not the syllable that left its bundle.  An interrupt comes
after something ran; and it is taken for one of the last bundle that ran only if it is, or if
it is behind all of that bundle that ran. -/
def CarefulStep : Event → Prop
  | .bb _ => True
  | .br true ip dest => t.CanLeave ip dest
  | .br false ip _ => syllableId ip < numSyllables ∧
      ∀ x older, t.ran = x :: older → x.out ≠ none → syllableId ip + 1 ≠ x.stop
  | .rf destip ip => t.CanLeave ip destip
  | .intr printed destip ip => syllableId destip < numSyllables ∧
      ∃ x older, t.ran = x :: older ∧
        if printed = true ∧ x.out = none then
          x.addr = bundleAddr ip ∧ x.entry ≤ syllableId ip ∧ syllableId ip < numSyllables ∧
            (x.entry = syllableId ip → older ≠ [])
        else x.addr = bundleAddr ip → x.stop ≤ syllableId ip
  | .other => True

/-- The bundle that runs is the one of the address, and it reaches the syllable. -/
def Names (ip : BitVec 64) : Prop :=
  ∃ x older, t.ran = x :: older ∧ x.out = none ∧ x.addr = bundleAddr ip ∧
    x.entry ≤ syllableId ip ∧ syllableId ip < numSyllables

/-- Branches and returns are those of the bundle that runs, which is left at most once.  An
interrupt is at a syllable of it, or where the program is. -/
def WellFormedStep : Event → Prop
  | .bb _ => True
  | .br _ ip dest => t.Names ip ∧ syllableId dest < numSyllables
  | .rf destip ip => t.Names ip ∧ syllableId destip < numSyllables
  | .intr printed destip ip => syllableId destip < numSyllables ∧
      if printed = true then t.Names ip else IAddr.ofAddr ip = t.pos
  | .other => True

def WellFormed : Exec → List Event → Prop
  | _, [] => True
  | t, e :: events => t.WellFormedStep e ∧ WellFormed (t.step e) events

/-- Every event is careful where it happens. -/
def Careful : Exec → List Event → Prop
  | _, [] => True
  | t, e :: events => t.CarefulStep e ∧ Careful (t.step e) events

end Exec

end AsimFeeder.Gtrace
