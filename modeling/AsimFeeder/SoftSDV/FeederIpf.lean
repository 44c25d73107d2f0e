/-
The front end of the SoftSDV feeder, on IPF (`softsdv_feeder.cpp`,
`arch_ipf/softsdv_feeder_ipf.cpp`).

The performance model fetches at addresses it predicts, kills what it fetched, and commits in
order.  The feeder holds the instructions of SoftSDV in the replay buffer.  Where the address
is that of the next one, that one is fetched.  Where it is not, the model gets an instruction
of a wrong path, until it kills an instruction of the right one; or, if the next instruction
begins a new sequence, an injected branch to it, which is a place holder in the buffer.

A macro instruction is known to the feeder by its trace id alone.  Statistics, translations,
the process and the cycles of a thread, and what is written into a macro instruction are left
out, as are the system events, which only x86 has.

So are three things that the model does.  It moves no context to another CPU (`CheckHWCNum`).
It has no context switch under way, for which `Fetch` gives it an artificial NOP without asking
the CPU's stream; a kill of such a NOP would end a wrong path that it stands behind.  And it
commits a macro instruction once, by the last instruction of it and without a fault (`HadFault`,
`IsTrueEndOfMacro`).
-/
import AsimFeeder.SoftSDV.ReplayOps

namespace AsimFeeder.SoftSDV

/-- What the front end reads of an instruction message (`ASIM_SOFTSDV_INST_INFO_CLASS`). -/
structure IpfInstr where
  addrVirtual : UInt64
  addrPhysical : UInt64
  /-- The two longs of the bundle. -/
  bundle64 : UInt64 × UInt64
  newSequence : Bool
  interrupt : Bool
  warmUp : Bool
  instrTag : Option Int32
deriving DecidableEq, Repr

/-- The message as the replay buffer reads it; no register values come apart from it. -/
def IpfInstr.toSdv (i : IpfInstr) : SdvInstr IpfInstr := ⟨0, i.instrTag, i⟩

/-- The first byte of the bundle. -/
def IpfInstr.bundle8 (i : IpfInstr) : UInt8 := i.bundle64.1.toUInt8

/-- The instruction is the first half of one with a long immediate. -/
def IpfInstr.isX (i : IpfInstr) : Bool :=
  i.addrVirtual &&& 3 = 1 ∧ (i.bundle8 &&& 31 = 4 ∨ i.bundle8 &&& 31 = 5)

/-- The other half, which SoftSDV does not send. -/
def IpfInstr.secondHalf (i : IpfInstr) : IpfInstr :=
  { i with addrVirtual := i.addrVirtual + 1, addrPhysical := i.addrPhysical + 1 }

/-- `SetTraceID`: `traceWrongPathId`, `traceArtificialInstId`, or a live instruction. -/
inductive MacroTraceId
  | wrongPath
  | artificial
  | handle (r : Ref)
deriving DecidableEq, Repr

/-- What is fetched from SoftSDV at a time, and which instructions decode to a NOP or to the first
half of a long one (`IsNOP`, `IsTypeL`). -/
structure FeederParams where
  executeChunkSize : Nat
  warmupChunkSize : Nat
  isNopOrTypeL : IpfInstr → Bool

/-- The state of one CPU.  `instrRing` is what SoftSDV has yet to send. -/
structure FeederIpf (Rep Regs : Type) where
  liveInstrs : ReplayBuffer IpfInstr Rep Regs
  instrRing : List IpfInstr
  onBadPath : Bool
  simComplete : Bool
  lastWarmup : Option Ref

namespace FeederIpf

variable {Rep Regs : Type}

/-! ### What comes from SoftSDV -/

/-- Add the second half of a long instruction. -/
def noteNewIncomingInstr (f : FeederIpf Rep Regs) (sdvInstr : IpfInstr) :
    Except String (FeederIpf Rep Regs) :=
  if sdvInstr.isX then do
    let (b, _) ← f.liveInstrs.addInstruction sdvInstr.secondHalf.toSdv
    .ok { f with liveInstrs := b }
  else
    .ok f

def bufferIncomingInstruction (f : FeederIpf Rep Regs) (instr : IpfInstr) :
    Except String (FeederIpf Rep Regs) := do
  let (b, _) ← f.liveInstrs.addInstruction instr.toSdv
  { f with liveInstrs := b }.noteNewIncomingInstr instr

/-- The loop of `FetchIncomingInstructions`. -/
def incomingLoop : Nat → FeederIpf Rep Regs → Except String (FeederIpf Rep Regs)
  | 0, f => .ok f
  | n + 1, f =>
      match f.instrRing with
      | [] => .ok f
      | newInstr :: rest => do
          let f ← { f with instrRing := rest }.bufferIncomingInstruction newInstr
          incomingLoop n f

def fetchIncomingInstructions (f : FeederIpf Rep Regs) (fetchChunkSize : Nat) :
    Except String (FeederIpf Rep Regs) :=
  if f.liveInstrs.nUnfetchedQueuedInstrs.toNat > fetchChunkSize / 2 then
    .ok f
  else
    incomingLoop fetchChunkSize f

/-! ### What the model asks for -/

/-- The part of `AsimInstFromSoftsdvInst` that concerns the buffer: let an instruction commit with
the one behind it, in case the model drops it. -/
def asimInstFromSoftsdvInst (P : FeederParams) (f : FeederIpf Rep Regs) (instrHandle : Ref) :
    FeederIpf Rep Regs :=
  if P.isNopOrTypeL (f.liveInstrs.cell instrHandle).softsdvInstr.data then
    { f with liveInstrs := f.liveInstrs.setImplicitCommit instrHandle true }
  else
    f

/-- Inject a branch to `targetHandle`, and fetch that again. -/
def injectJMP (f : FeederIpf Rep Regs) (targetHandle : Ref) : FeederIpf Rep Regs × MacroTraceId :=
  let (b, jmpHandle) := f.liveInstrs.addArtificialPlaceHolder targetHandle
  ({ f with liveInstrs := (b.setNextFetch (some targetHandle)).1 }, .handle jmpHandle)

/-- Inject an instruction of a wrong path. -/
def injectBadPathInstr (f : FeederIpf Rep Regs) (fetchHandle : Ref) :
    FeederIpf Rep Regs × MacroTraceId :=
  ({ f with
      liveInstrs := (f.liveInstrs.setNextFetch (some fetchHandle)).1
      onBadPath := true },
    .wrongPath)

/-- `FetchMacro`: a macro instruction for the address `pc`, of a context that is on this CPU and
has no context switch under way. -/
def fetchMacro (P : FeederParams) (f : FeederIpf Rep Regs) (pc : UInt64) :
    Except String (FeederIpf Rep Regs × MacroTraceId) := do
  let f ← f.fetchIncomingInstructions P.executeChunkSize
  let (b, fetchHandle) ← f.liveInstrs.getNextRealFetchHandle
  let f := { f with liveInstrs := b }
  match fetchHandle with
  | none => .ok ({ f with simComplete := true }, .artificial)
  | some fetchHandle =>
      if f.simComplete then
        .ok (f, .artificial)
      else
        let newInstr := (f.liveInstrs.cell fetchHandle).softsdvInstr.data
        if pc ≠ newInstr.addrVirtual ∧ ¬ f.onBadPath ∧
            (newInstr.newSequence ∨ newInstr.interrupt) then
          .ok (f.injectJMP fetchHandle)
        else if pc ≠ newInstr.addrVirtual ∨ f.onBadPath then
          .ok (f.injectBadPathInstr fetchHandle)
        else do
          let f ← f.fetchIncomingInstructions P.executeChunkSize
          .ok (f.asimInstFromSoftsdvInst P fetchHandle, .handle fetchHandle)

/-- `Commit`, of the instruction that ends its macro instruction, without a fault. -/
def commit (f : FeederIpf Rep Regs) : MacroTraceId → Except String (FeederIpf Rep Regs)
  | .wrongPath => .error "SOFTSDV_FEEDER::Commit - Attempt to commit wrong path instruction"
  | .artificial => .ok f
  | .handle instrHandle => do
      let (b, _, _) ← f.liveInstrs.commitInstruction instrHandle
      .ok { f with liveInstrs := b }

/-- `Kill`; the model gives `killMe` or `fetchNext`, and never both. -/
def kill (f : FeederIpf Rep Regs) (killMe : Bool) : MacroTraceId → FeederIpf Rep Regs
  | .wrongPath => f
  | .artificial => { f with onBadPath := false }
  | .handle instrHandle =>
      let b := (f.liveInstrs.setNextFetch (some instrHandle)).1
      { f with
        liveInstrs := if killMe then b else b.getNextFetchHandle.1
        onBadPath := false }

/-- Commit the instruction of the last `WarmUp`. -/
def releaseWarmup (f : FeederIpf Rep Regs) : Except String (FeederIpf Rep Regs) :=
  match f.lastWarmup with
  | none => .ok f
  | some r => do
      let (b, _, _) ← f.liveInstrs.commitInstruction r
      .ok { f with liveInstrs := b, lastWarmup := none }

/-- `WarmUp`; says if the next instruction was one for warming up.  `decoded` is whether the
clients ask for more than its addresses. -/
def warmUp (P : FeederParams) (f : FeederIpf Rep Regs) (decoded : Bool) :
    Except String (FeederIpf Rep Regs × Bool) := do
  let f ← f.releaseWarmup
  let f ← f.fetchIncomingInstructions P.warmupChunkSize
  let (b, fetchHandle) ← f.liveInstrs.getNextRealFetchHandle
  let f := { f with liveInstrs := b }
  match fetchHandle with
  | none => .ok ({ f with simComplete := true }, false)
  | some fetchHandle =>
      if f.simComplete then
        .ok (f, false)
      else if (f.liveInstrs.cell fetchHandle).softsdvInstr.data.warmUp then
        let f := if decoded then f.asimInstFromSoftsdvInst P fetchHandle else f
        .ok ({ f with lastWarmup := some fetchHandle }, true)
      else
        .ok ({ f with liveInstrs := (f.liveInstrs.setNextFetch (some fetchHandle)).1 }, false)

end FeederIpf

/-! ### The feeder and the model together -/

/-- The cells from `c` to `r`, the way the list leads. -/
def ReplayBuffer.cellsTo {Data Rep Regs : Type} (b : ReplayBuffer Data Rep Regs) (r : Ref) :
    Nat → Option Ref → List Ref
  | 0, _ => []
  | _ + 1, none => []
  | fuel + 1, some c => if c = r then [c] else c :: b.cellsTo r fuel (b.cell c).next

/-- The feeder, and what the model has in flight, oldest first.  Beside them stands what has left
the buffer by commits: all of it, and what the model itself committed. -/
structure FrontEnd (Rep Regs : Type) where
  feeder : FeederIpf Rep Regs
  inFlight : List MacroTraceId
  committed : List IpfInstr
  explicit : List IpfInstr

/-- The calls of the model for one CPU; it has no context switch there. -/
inductive FrontEndOp
  | fetch (pc : UInt64)
  /-- The oldest in flight commits. -/
  | commit
  /-- The model drops an instruction that it need not commit. -/
  | bypass (i : Nat)
  /-- What is younger than an instruction in flight is killed, and with `killMe` that one too. -/
  | kill (i : Nat) (killMe : Bool)
  | warmUp (decoded : Bool)
  /-- Another CPU comes to the end of its stream. -/
  | simComplete

namespace FrontEnd

variable {Rep Regs : Type}

/-- The instructions of the cells, without place holders. -/
def instrsOf (b : ReplayBuffer IpfInstr Rep Regs) (rs : List Ref) : List IpfInstr :=
  (rs.filter fun r => !(b.cell r).artificialInstr).map fun r => (b.cell r).softsdvInstr.data

/-- A cell is committed, and with it what is in front of it. -/
def noteCommit (w : FrontEnd Rep Regs) (r : Ref) : FrontEnd Rep Regs :=
  let b := w.feeder.liveInstrs
  { w with
    committed := w.committed ++ instrsOf b (b.cellsTo r b.nCells b.head)
    explicit := w.explicit ++ instrsOf b [r] }

def exec (P : FeederParams) (w : FrontEnd Rep Regs) : FrontEndOp → Except String (FrontEnd Rep Regs)
  | .fetch pc => do
      let (feeder, id) ← w.feeder.fetchMacro P pc
      .ok { w with feeder, inFlight := w.inFlight ++ [id] }
  | .commit =>
      match w.inFlight with
      | [] => .ok w
      | id :: rest => do
          let feeder ← w.feeder.commit id
          let w := match id with
            | .handle r => w.noteCommit r
            | _ => w
          .ok { w with feeder, inFlight := rest }
  | .bypass i => .ok { w with inFlight := w.inFlight.eraseIdx i }
  | .kill i killMe =>
      match w.inFlight[i]? with
      | none => .ok w
      | some id => .ok { w with
          feeder := w.feeder.kill killMe id
          inFlight := w.inFlight.take (if killMe then i else i + 1) }
  | .warmUp decoded => do
      let (feeder, _) ← w.feeder.warmUp P decoded
      let w := match w.feeder.lastWarmup with
        | some r => w.noteCommit r
        | none => w
      .ok { w with feeder }
  | .simComplete => .ok { w with feeder := { w.feeder with simComplete := true } }

/-- When the model makes the call.  It warms up with nothing in flight, until it is told that it
is done; it does not commit a wrong path, and it drops only what it need not commit. -/
def Allowed (w : FrontEnd Rep Regs) : FrontEndOp → Prop
  | .fetch _ => w.feeder.lastWarmup = none
  | .commit => w.inFlight.head? ≠ some .wrongPath
  | .bypass i => ∀ r, w.inFlight[i]? = some (.handle r) →
      (w.feeder.liveInstrs.cell r).implicitCommit = true
  | .kill _ _ => True
  | .warmUp _ => w.inFlight = []
  | .simComplete => True

end FrontEnd

end AsimFeeder.SoftSDV
