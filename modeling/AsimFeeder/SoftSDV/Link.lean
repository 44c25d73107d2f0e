/-
The two processes at the ends of the SoftSDV link.

Asim runs `FetchIncomingInstructions` (`softsdv_feeder.cpp`) for one CPU after the other,
in any order, and SoftSDV calls `ExecuteAsim` (`cpuapi_x86.cpp`) for one CPU after the
other, in any order.  Three kinds of rings join them: a queue of requests from Asim, a
ring of instructions for each CPU, and one ring of register records for all CPUs.

A ring is here the list of the entries that are closed and not read yet.  Only `Close`
changes what the other side can see, so `OpenNext` is a phase in which a side waits, and
what follows it up to `Close` is one event.

An event of a side that waits or is elsewhere is `waits`, and a failed check of the
source is `failed` with the source's text.
-/
import AsimFeeder.Lib.Checks
import AsimFeeder.Lib.Runs
import AsimFeeder.SoftSDV.RingSafety

namespace AsimFeeder.SoftSDV

/-- How many more entries a ring takes that holds `used`. -/
def RingSize.freeSlots (n : RingSize) (used : Nat) : Nat := n.size - 1 - used

/-- The constants of both sides, with the checks of the constructor of the Asim side. -/
structure LinkConfig where
  nCpus : Nat
  regRing : RingSize
  instrRing : RingSize
  requestQueue : RingSize
  warmupChunk : Nat
  executeChunk : Nat
  warmup_le : warmupChunk ≤ instrRing.size / 2
  execute_le : executeChunk ≤ instrRing.size / 2

/-- The default sizes (`softsdv_stub.awb`) and two CPUs. -/
def stubConfig : LinkConfig where
  nCpus := 2
  regRing := ⟨32, by decide, by decide⟩
  instrRing := ⟨1024, by decide, by decide⟩
  requestQueue := ⟨32, by decide, by decide⟩
  warmupChunk := 401
  executeChunk := 32
  warmup_le := by decide
  execute_le := by decide

/-- `maxChunkSize`, the room of the buffer that `step_reference` fills. -/
def LinkConfig.maxChunkSize (c : LinkConfig) : Nat := max c.warmupChunk c.executeChunk

/-- What Asim asks SoftSDV for once it runs. -/
inductive Request
  | warmup
  | fetch (cpuNum nInstrs : Nat)
deriving DecidableEq

/-- A record of register values. -/
structure RegRecord where
  uid : Nat
  cpuNum : Nat
deriving DecidableEq

/-- An instruction from SoftSDV, with the record it belongs with, or 0. -/
structure LinkInstr where
  regsUid : Nat
deriving DecidableEq

/-- One entry of the vector that `step_reference` fills; a pseudo-instruction has address 0. -/
inductive StepEntry
  | instr
  | pseudo
deriving DecidableEq

/--
Where SoftSDV is.  A phase of `ExecuteAsim` names the CPU it was called for, and in
`deliver` there are the entries of the group that are left, whether the group ended
early, and how many instructions it has delivered.
-/
inductive SoftPhase
  | waitWarmUp
  | idle
  | openRequest (cpuNum : Nat)
  | nextGroup (cpuNum : Nat)
  | openRegs (cpuNum : Nat)
  | stepReference (cpuNum regsUid : Nat)
  | deliver (cpuNum regsUid : Nat) (instInfo : List StepEntry) (earlyTermination : Bool)
      (nInstrsFetched : Nat)
  | exited
deriving DecidableEq

/--
Where Asim is.  The first two phases are those of `WarmUpClientInfo`, the others those of
`FetchIncomingInstructions` for a CPU, a chunk and the number of entries already read.
-/
inductive AsimPhase
  | warmUp
  | initial (cpu : Nat)
  | idle
  | checkRegs (cpu chunk i : Nat)
  | openInstr (cpu chunk i : Nat)
  | checkAgain (cpu chunk i : Nat) (newInstr : Bool)
  | buffer (cpu chunk i : Nat)
  | openRequest (cpu chunk : Nat)
deriving DecidableEq

/-- The rings, the variables that `ExecuteAsim` keeps, and where the two sides are. -/
structure Link where
  requests : List Request
  regRing : List RegRecord
  instrRing : Nat → List LinkInstr
  fetchCpuNum : Nat
  fetchInstrsRemaining : Nat
  uid : Nat
  soft : SoftPhase
  asim : AsimPhase

inductive LinkEvent
  | executeAsim (cid : Nat)
  | takeRequest
  | beginGroup (noteRegs : Bool)
  | closeRegs
  | stepReference (instInfo : List StepEntry)
  | deliver
  | exit
  | sendRequest
  | fetch (cpu chunk : Nat)
  | drainReg
  | drainDone
  | openInstr
  | bufferInstr
deriving DecidableEq

inductive LinkStop
  | waits
  | failed (message : String)
deriving DecidableEq

namespace Link

/-- Before `WarmUpClientInfo`, with the initial messages of both sides behind them. -/
def start : Link where
  requests := []
  regRing := []
  instrRing _ := []
  fetchCpuNum := 0
  fetchInstrsRemaining := 0
  uid := 0
  soft := .waitWarmUp
  asim := .warmUp

variable (c : LinkConfig)

/-! ### SoftSDV -/

/-- The request of this pass is known; it may be for another CPU. -/
def serve (s : Link) (cid : Nat) : Link :=
  { s with soft := if s.fetchCpuNum = cid then .nextGroup cid else .idle }

def takeRequest (s : Link) (cid : Nat) : Except LinkStop Link :=
  match s.requests with
  | [] => .error .waits
  | .warmup :: _ => .error (.failed "Request isn't FETCH")
  | .fetch cpuNum nInstrs :: rest =>
      .ok ({ s with
        requests := rest
        fetchCpuNum := cpuNum
        fetchInstrsRemaining := nInstrs }.serve cid)

/-- The head of the loop, up to where the register values may be noted. -/
def beginGroup (s : Link) (cid : Nat) (noteRegs : Bool) : Except LinkStop Link :=
  if s.fetchInstrsRemaining = 0 then
    .ok { s with soft := .idle }
  else if c.maxChunkSize < s.fetchInstrsRemaining then
    .error (.failed "Fetch chunk too large")
  else if c.instrRing.freeSlots (s.instrRing cid).length < s.fetchInstrsRemaining then
    .error (.failed "No instruction ring write slots available")
  else
    .ok { s with soft := if noteRegs then .openRegs cid else .stepReference cid 0 }

def closeRegs (s : Link) (cid : Nat) : Except LinkStop Link :=
  if c.regRing.freeSlots s.regRing.length = 0 then
    .error .waits
  else
    .ok { s with
      regRing := s.regRing ++ [⟨s.uid + 1, cid⟩]
      uid := s.uid + 1
      soft := .stepReference cid (s.uid + 1) }

/-- The next entry of the group, or its end. -/
def deliver (s : Link) (cid regsUid : Nat) (instInfo : List StepEntry) (earlyTermination : Bool)
    (nInstrsFetched : Nat) : Except LinkStop Link :=
  match instInfo with
  | [] =>
      .ok { s with
        fetchInstrsRemaining := s.fetchInstrsRemaining - nInstrsFetched
        soft := if earlyTermination then .idle else .nextGroup cid }
  | .pseudo :: rest =>
      .ok { s with soft := .deliver cid regsUid rest earlyTermination nInstrsFetched }
  | .instr :: rest =>
      if c.instrRing.freeSlots (s.instrRing cid).length = 0 then
        .error .waits
      else
        .ok { s with
          instrRing := Function.update s.instrRing cid (s.instrRing cid ++ [⟨regsUid⟩])
          soft := .deliver cid 0 rest earlyTermination (nInstrsFetched + 1) }

def softExec (s : Link) : SoftPhase → LinkEvent → Except LinkStop Link
  | .waitWarmUp, .takeRequest =>
      match s.requests with
      | [] => .error .waits
      | .fetch _ _ :: _ => .error (.failed "Expected ASIM_REQUEST_WARMUP message.")
      | .warmup :: rest => .ok { s with requests := rest, soft := .idle }
  | .idle, .executeAsim cid =>
      if s.fetchInstrsRemaining = 0 then
        .ok { s with soft := .openRequest cid }
      else
        .ok (s.serve cid)
  | .idle, .exit => .ok { s with soft := .exited }
  | .openRequest cid, .takeRequest => s.takeRequest cid
  | .nextGroup cid, .beginGroup noteRegs => s.beginGroup c cid noteRegs
  | .openRegs cid, .closeRegs => s.closeRegs c cid
  | .stepReference cid regsUid, .stepReference instInfo =>
      -- a shorter vector is one whose next entry is unset
      if instInfo.length ≤ s.fetchInstrsRemaining then
        let earlyTermination : Bool := instInfo.length < s.fetchInstrsRemaining
        .ok { s with soft := .deliver cid regsUid instInfo earlyTermination 0 }
      else
        .error .waits
  | .deliver cid regsUid instInfo earlyTermination nInstrsFetched, .deliver =>
      s.deliver c cid regsUid instInfo earlyTermination nInstrsFetched
  | _, _ => .error .waits

/-! ### Asim -/

/-- The initial requests are sent from `cpu` on. -/
def initialFrom (cpu : Nat) : AsimPhase := if cpu < c.nCpus then .initial cpu else .idle

/-- The loop over the chunk, with `i` entries read. -/
def fetchFrom (cpu chunk i : Nat) : AsimPhase :=
  if i < chunk then .checkRegs cpu chunk i else .openRequest cpu chunk

/-- `OpenNext`, the request, and `Close`. -/
def sendRequest (s : Link) (request : Request) (next : AsimPhase) : Except LinkStop Link :=
  if c.requestQueue.freeSlots s.requests.length = 0 then
    .error .waits
  else
    .ok { s with requests := s.requests ++ [request], asim := next }

/-- One round of `CheckForIncomingRegValues`; the record goes to the buffer of its CPU. -/
def drainReg (s : Link) : Except LinkStop Link :=
  match s.regRing with
  | [] => .error .waits
  | _ :: rest => .ok { s with regRing := rest }

/-- `CheckForIncomingRegValues` returns. -/
def drainDone (s : Link) (next : AsimPhase) : Except LinkStop Link :=
  if s.regRing = [] then .ok { s with asim := next } else .error .waits

def asimExec (s : Link) : AsimPhase → LinkEvent → Except LinkStop Link
  | .warmUp, .sendRequest => s.sendRequest c .warmup (initialFrom c 0)
  | .initial cpu, .sendRequest =>
      s.sendRequest c (.fetch cpu c.warmupChunk) (initialFrom c (cpu + 1))
  | .idle, .fetch cpu chunk =>
      if cpu < c.nCpus then .ok { s with asim := fetchFrom cpu chunk 0 } else .error .waits
  | .checkRegs _ _ _, .drainReg => s.drainReg
  | .checkRegs cpu chunk i, .drainDone => s.drainDone (.openInstr cpu chunk i)
  | .openInstr cpu chunk i, .openInstr =>
      if s.instrRing cpu ≠ [] then
        .ok { s with asim := .checkAgain cpu chunk i true }
      else if s.soft = .exited then
        -- end of stream
        .ok { s with asim := .checkAgain cpu chunk i false }
      else
        .error .waits
  | .checkAgain _ _ _ _, .drainReg => s.drainReg
  | .checkAgain cpu chunk i newInstr, .drainDone =>
      s.drainDone (if newInstr then .buffer cpu chunk i else .idle)
  | .buffer cpu chunk i, .bufferInstr =>
      .ok { s with
        instrRing := Function.update s.instrRing cpu (s.instrRing cpu).tail
        asim := fetchFrom cpu chunk (i + 1) }
  | .openRequest cpu chunk, .sendRequest =>
      if c.requestQueue.freeSlots s.requests.length = 0 ∧ s.soft = .exited then
        .ok { s with asim := .idle }
      else
        s.sendRequest c (.fetch cpu chunk) .idle
  | _, _ => .error .waits

/-- One event of either side. -/
def exec (s : Link) : LinkEvent → Except LinkStop Link
  | .sendRequest => s.asimExec c s.asim .sendRequest
  | .fetch cpu chunk => s.asimExec c s.asim (.fetch cpu chunk)
  | .drainReg => s.asimExec c s.asim .drainReg
  | .drainDone => s.asimExec c s.asim .drainDone
  | .openInstr => s.asimExec c s.asim .openInstr
  | .bufferInstr => s.asimExec c s.asim .bufferInstr
  | e => s.softExec c s.soft e

def Step (s t : Link) : Prop := ∃ e, s.exec c e = .ok t

/-- The state after the events `es`, if none of them waits or fails. -/
def run (s : Link) (es : List LinkEvent) : Option Link :=
  Lib.after (fun s e => (s.exec c e).toOption) (fun _ _ => true) es s

variable {c}

theorem reaches_run {es : List LinkEvent} {s : Link} (h : start.run c es = some s) :
    Lib.Reaches (· = start) (Step c) s := by
  refine Lib.Reaches.after ?_ (Lib.Reaches.start rfl) h
  intro s e t _ hexec
  exact ⟨e, Lib.eq_ok_of_toOption hexec⟩

variable (c)

/-! ### Waiting -/

/-- SoftSDV waits in `NoteRegisterValues` for a slot of the register ring. -/
def WaitsForRegSlot (s : Link) : Prop :=
  (∃ cid, s.soft = .openRegs cid) ∧ c.regRing.freeSlots s.regRing.length = 0

/-- SoftSDV waits in `ExecuteAsim` for a slot of an instruction ring. -/
def WaitsForInstrSlot (s : Link) : Prop :=
  ∃ cid regsUid rest early fetched, s.soft = .deliver cid regsUid (.instr :: rest) early fetched ∧
    c.instrRing.freeSlots (s.instrRing cid).length = 0

/-- Asim waits for an instruction. -/
def WaitsForInstr (s : Link) : Prop :=
  ∃ cpu chunk i, s.asim = .openInstr cpu chunk i ∧ s.instrRing cpu = []

/-- Asim is at the `OpenNext` of the request queue. -/
def AsimPhase.opensRequest : AsimPhase → Bool
  | .warmUp | .initial _ | .openRequest _ _ => true
  | _ => false

/-- Asim waits for a slot of the request queue. -/
def WaitsForRequestSlot (s : Link) : Prop :=
  AsimPhase.opensRequest s.asim = true ∧ c.requestQueue.freeSlots s.requests.length = 0

/-- The two sides wait for each other. -/
def Deadlocked (s : Link) : Prop :=
  s.WaitsForRegSlot c ∧ (s.WaitsForInstr ∨ s.WaitsForRequestSlot c)

end Link

/-- A ring of `Ring` reports the free slots that its unread entries leave. -/
theorem Ring.Ok.freeSlots {α : Type} {n : RingSize} {s : Ring α} (h : Ring.Ok n s) :
    (n.nWriteSlotsAvailable s.readerSlot s.writerSlot).toNat =
      n.freeSlots (s.written.length - s.consumed.length) := by
  rw [h.nWrite]
  show _ = n.size - 1 - (s.written.length - s.consumed.length)
  have horder := h.order
  have hroom := h.room
  omega

end AsimFeeder.SoftSDV
