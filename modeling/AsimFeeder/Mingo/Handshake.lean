/-
The handshake of a mingo client thread with Asim (`mingo_pvt.c`, `mingo_client.c`,
`mingo_feeder.cpp`).

The thread and Asim share a slot: a packet, a response, flags and the state that says whose
turn it is.  What all threads share are the counters that switch events off.  Each access to a
word of either is a step of its own; a packet and a response are copied in two parts, and an
assignment to a flag reads and writes the word of flags.

Where a thread is in its calls, and Asim in its own, is told by the access that is next.
A message that fails ends the side that finds it; here it is noted.  Waiting for a time, tests
for an abort, and the accumulated instruction counts are left out.

Beside the shared words stands what happened: what was sent and received, what was asked for
and what was answered.
-/
import AsimFeeder.Lib.Runs

namespace AsimFeeder.Mingo.Handshake

/-! ### Shared words -/

/-- `MINGO_STATE_*`. -/
inductive IpcState
  | EMPTY
  | EVENT_READY
  | ASIM_CONSUMED
  | ASIM_ACK
  | THREAD_DEAD
deriving DecidableEq, Repr

/-- What `MINGO_PVT_Set_State` accepts: the next state, or to die from an empty slot. -/
def IpcState.accepts (cur : IpcState) : IpcState → Bool
  | .EMPTY => true
  | .EVENT_READY => cur = .EMPTY
  | .ASIM_CONSUMED => cur = .EVENT_READY
  | .ASIM_ACK => cur = .ASIM_CONSUMED
  | .THREAD_DEAD => cur = .ASIM_ACK ∨ cur = .EMPTY

/-- `MINGO_MSG_*`. -/
inductive Msg
  | NONE
  | THREAD_END
  | THREAD_PRIORITY
  | PREFERRED_CPU
  | MEMORY_READ
  | MEMORY_WRITE
  | EXCHANGE
  | MEMORY_FENCE
  | DEPENDENT_READ
  | BRANCH
  | SYSCALL
  | PROBE_RESULT
  | TIMED_WAIT
deriving DecidableEq, Repr

structure Head where
  msg : Msg
  thread_id : BitVec 32
deriving DecidableEq, Repr

structure Body where
  ip : BitVec 64
  va : BitVec 64
  compare_value : BitVec 64
  d : BitVec 64
deriving DecidableEq, Repr

/-- A `MINGO_PACKET_CLASS`, in the parts in which it is copied. -/
structure Packet where
  head : Head
  body : Body
deriving DecidableEq, Repr

structure Probe where
  va : BitVec 64
  nBytes : Nat
deriving DecidableEq, Repr

/-- Only these are asked for, and answered. -/
def Probe.legal (pr : Probe) : Bool := pr.nBytes ∈ [1, 2, 4, 8]

inductive ResponseMsg
  | NONE
  | ACK
  | PROBE
deriving DecidableEq, Repr

/-- What a thread asks for between its events. -/
inductive Change
  | cpu_id
  | priority
deriving DecidableEq, Repr

structure Flags where
  new_cpu_id : Bool
  new_priority : Bool
  packet_consumed : Bool
  pseudo_packet : Bool
deriving DecidableEq, Repr

namespace Flags

def new (f : Flags) : Change → Bool
  | .cpu_id => f.new_cpu_id
  | .priority => f.new_priority

def setNew (f : Flags) (b : Bool) : Change → Flags
  | .cpu_id => { f with new_cpu_id := b }
  | .priority => { f with new_priority := b }

end Flags

/-- A `MINGO_IPC_THREAD_ENTRY_CLASS`. -/
structure Slot where
  head : Head
  body : Body
  response : ResponseMsg
  probe : Probe
  state : IpcState
  cpu_id : BitVec 32
  priority : BitVec 32
  flags : Flags
deriving DecidableEq, Repr

namespace Slot

def value (s : Slot) : Change → BitVec 32
  | .cpu_id => s.cpu_id
  | .priority => s.priority

def setValue (s : Slot) (x : BitVec 32) : Change → Slot
  | .cpu_id => { s with cpu_id := x }
  | .priority => { s with priority := x }

end Slot

/-- Of the `MINGO_IPC_CONTROL_CLASS`. -/
structure Control where
  skipEvents : BitVec 64
  disableEvents : Int
  sentEvent : Bool
deriving DecidableEq, Repr

/-! ### Packets -/

def Change.msg : Change → Msg
  | .cpu_id => .PREFERRED_CPU
  | .priority => .THREAD_PRIORITY

/-- The event that Asim makes of a change. -/
def pseudoPacket (thread : BitVec 32) (k : Change) (x : BitVec 32) : Packet :=
  ⟨⟨k.msg, thread⟩, ⟨0, 0, 0, x.setWidth 64⟩⟩

def InitPacketForThread (msg : Msg) (thread : BitVec 32) : Packet :=
  ⟨⟨msg, thread⟩, ⟨0, 0, 0, 0⟩⟩

def MakeMemoryProbePacket (thread : BitVec 32) (probe : Probe) (value : BitVec 64) : Packet :=
  ⟨⟨.PROBE_RESULT, thread⟩, ⟨0, probe.va, 0, value⟩⟩

/-- Of what is loaded, so many bytes. -/
def loaded (nBytes : Nat) (load : BitVec 64) : BitVec 64 :=
  (load.setWidth (8 * nBytes)).setWidth 64

/-! ### Where the two sides are -/

/-- A call of `SendMessage`, in so many calls of `WaitForASIMResponse`. -/
structure Call where
  packet : Packet
  depth : Nat
  /-- The thread ends behind it. -/
  last : Bool
deriving DecidableEq, Repr

/-- The access that is next. -/
inductive ClientPc
  | idle
  /-- `MINGO_PVT_Test_Events_Enabled`. -/
  | testEnabled (c : Call)
  /-- `MINGO_PVT_Send_Event`. -/
  | sendEvent (c : Call)
  | testSkip (c : Call)
  | decSkip (c : Call)
  | putSkip (c : Call) (skipEvents : BitVec 64)
  | getConsumed (c : Call)
  | clearConsumed (c : Call) (flags : Flags)
  | putHead (c : Call)
  | putBody (c : Call)
  | putSent (c : Call)
  | testEmpty (c : Call)
  | setReady (c : Call)
  /-- `WaitForASIMResponse`. -/
  | waitAck (c : Call)
  | getResponse (c : Call)
  | getProbe (c : Call) (msg : ResponseMsg)
  | load (c : Call) (probe : Probe)
  | setEmptyProbe (c : Call) (probe : Probe) (value : BitVec 64)
  | setEmpty (c : Call)
  /-- `MINGO_Thread_End`, behind its message. -/
  | testDead
  | setDead
  | dead
  /-- `MINGO_PVT_Set_Priority` and `MINGO_PVT_Set_Preferred_CPU`. -/
  | testChange (k : Change) (x : BitVec 32)
  | putChange (k : Change) (x : BitVec 32)
  | getNew (k : Change) (x : BitVec 32)
  | setNew (k : Change) (x : BitVec 32) (flags : Flags)
deriving DecidableEq, Repr

/-- Where `SendMessage` returns to. -/
def Call.returned (c : Call) : ClientPc :=
  match c.depth with
  | 0 => if c.last then .testDead else .idle
  | depth + 1 => .setEmpty { c with depth := depth }

/-- What Asim receives a packet for. -/
inductive Want
  | event
  | probe (probe : Probe)
deriving DecidableEq, Repr

/-- In a response that acknowledges, nobody has set what to probe. -/
inductive Response
  | ack (garbage : Probe)
  | probe (probe : Probe)
deriving DecidableEq, Repr

def Response.msg : Response → ResponseMsg
  | .ack _ => .ACK
  | .probe _ => .PROBE

def Response.rest : Response → Probe
  | .ack garbage => garbage
  | .probe pr => pr

inductive AsimPc
  | idle
  /-- `GetNextSoftwareThreadEvent`, which may only look. -/
  | getState (take : Bool)
  /-- `MINGO_PVT_Recv_Event`. -/
  | recvEvent (w : Want)
  | testNew (w : Want) (k : Change)
  | getChange (w : Want) (k : Change)
  | getNew (w : Want) (k : Change) (x : BitVec 32)
  | clearNew (w : Want) (k : Change) (x : BitVec 32) (flags : Flags)
  | getPseudo (w : Want) (packet : Packet)
  | setPseudo (w : Want) (packet : Packet) (flags : Flags)
  | getConsumed (w : Want)
  | setConsumed (w : Want) (flags : Flags)
  | getHead (w : Want)
  | getBody (w : Want) (head : Head)
  /-- `MINGO_PVT_Set_State(MINGO_STATE_ASIM_CONSUMED)`. -/
  | testReady (w : Want) (packet : Packet) (real : Bool)
  | setTaken (w : Want) (packet : Packet) (real : Bool)
  /-- `MINGO_PVT_Send_Response`. -/
  | testReal (probe : Probe)
  | putResponse (r : Response)
  | putProbe (r : Response)
  | testTaken (r : Response)
  | testPseudo (r : Response)
  | getNotPseudo (r : Response)
  | clearPseudo (r : Response) (flags : Flags)
  | setAgain (r : Response)
  | testConsumed (r : Response)
  | setAck (r : Response)
deriving DecidableEq, Repr

/-! ### The whole -/

/-- An event for which `MINGO_PVT_Send_Event` returned 0, with the changes that were pending. -/
structure Sent where
  cpu_id : Option (BitVec 32)
  priority : Option (BitVec 32)
  packet : Packet
  /-- It answers a probe. -/
  answer : Bool
deriving DecidableEq, Repr

/-- What happened. -/
structure History where
  /-- Asim has received an event that it has not acknowledged, and whether that was a real one. -/
  held : Option Bool
  /-- The changes that are pending. -/
  newCpu : Option (BitVec 32)
  newPriority : Option (BitVec 32)
  sent : List Sent
  received : List Packet
  /-- How many events were acknowledged. -/
  acked : Nat
  /-- The calls of `ProbeMemory`, what the client loaded for them, and what they returned. -/
  asked : List Probe
  loads : List (Probe × BitVec 64)
  answers : List (Probe × BitVec 64)
  error : Option String
deriving DecidableEq, Repr

namespace History

variable (h : History)

def pending : Change → Option (BitVec 32)
  | .cpu_id => h.newCpu
  | .priority => h.newPriority

def setPending (x : BitVec 32) : Change → History
  | .cpu_id => { h with newCpu := some x }
  | .priority => { h with newPriority := some x }

/-- The event is sent, and the changes with it. -/
def noteSent (c : Call) : History :=
  { h with
    sent := h.sent ++ [⟨h.newCpu, h.newPriority, c.packet, decide (c.depth ≠ 0)⟩]
    newCpu := none
    newPriority := none }

def noteReceived (packet : Packet) : History := { h with received := h.received ++ [packet] }

def noteAcked : History :=
  { h with
    held := none
    acked := if h.held = some true then h.acked + 1 else h.acked }

end History

structure State where
  slot : Slot
  control : Control
  client : ClientPc
  asim : AsimPc
  history : History
deriving DecidableEq, Repr

inductive ClientCall
  | event (packet : Packet)
  | Thread_End
  | change (k : Change) (x : BitVec 32)
deriving DecidableEq, Repr

inductive AsimCall
  | GetNextSoftwareThreadEvent (take : Bool)
  | AllowSoftwareThreadProgress (garbage : Probe)
  | ProbeMemory (probe : Probe)
deriving DecidableEq, Repr

/-- A side makes a call, or the access that is next; or others change the counters. -/
inductive Event
  | call (c : ClientCall)
  /-- What the thread would load from its memory. -/
  | client (load : BitVec 64)
  | asimCall (c : AsimCall)
  | asim
  | others (disableEvents : Int) (skipEvents : BitVec 64)
deriving DecidableEq, Repr

namespace State

variable (thread : BitVec 32) (s : State)

def fails (msg : String) : State := { s with history := { s.history with error := some msg } }

def goto (pc : ClientPc) : State := { s with client := pc }

def asimGoto (pc : AsimPc) : State := { s with asim := pc }

def setFlags (f : Flags) : State := { s with slot := { s.slot with flags := f } }

def setState (state : IpcState) : State := { s with slot := { s.slot with state := state } }

/-! #### The client -/

def clientStep (load : BitVec 64) : Option State :=
  match s.client with
  | .idle => none
  | .testEnabled c =>
      some (s.goto (if s.control.disableEvents = 0 then .sendEvent c else c.returned))
  | .sendEvent c => some (s.goto (if s.control.disableEvents = 0 then .testSkip c else c.returned))
  | .testSkip c => some (s.goto (if s.control.skipEvents = 0 then .getConsumed c else .decSkip c))
  | .decSkip c => some (s.goto (.putSkip c (s.control.skipEvents - 1)))
  | .putSkip c skipEvents =>
      some ({ s with control := { s.control with skipEvents := skipEvents } }.goto c.returned)
  | .getConsumed c =>
      some (s.goto (.clearConsumed c { s.slot.flags with packet_consumed := false }))
  | .clearConsumed c flags => some ((s.setFlags flags).goto (.putHead c))
  | .putHead c =>
      some ({ s with slot := { s.slot with head := c.packet.head } }.goto (.putBody c))
  | .putBody c =>
      some ({ s with slot := { s.slot with body := c.packet.body } }.goto (.putSent c))
  | .putSent c =>
      some ({ s with control := { s.control with sentEvent := true } }.goto (.testEmpty c))
  | .testEmpty c =>
      -- `Send_Event` does not look at what `Set_State` returns
      if s.slot.state.accepts .EVENT_READY then some (s.goto (.setReady c))
      else some ((s.fails "MINGO_PVT_Set_State:  Illegal state change").goto (.waitAck c))
  | .setReady c =>
      some ({ s.setState .EVENT_READY with history := s.history.noteSent c }.goto (.waitAck c))
  | .waitAck c => some (s.goto (if s.slot.state = .ASIM_ACK then .getResponse c else .waitAck c))
  | .getResponse c => some (s.goto (.getProbe c s.slot.response))
  | .getProbe c .PROBE => some (s.goto (.load c s.slot.probe))
  | .getProbe c .ACK => some (s.goto (.setEmpty c))
  | .getProbe c .NONE => some ((s.fails "Unsupported").goto (.setEmpty c))
  | .load c probe =>
      if probe.legal then
        let value := loaded probe.nBytes load
        let history := { s.history with loads := s.history.loads ++ [(probe, value)] }
        some ({ s with history := history }.goto (.setEmptyProbe c probe value))
      else some ((s.fails "MINGO MakeMemoryProbePacket:  Illegal size").goto (.setEmpty c))
  | .setEmptyProbe c probe value =>
      some ((s.setState .EMPTY).goto (.testEnabled
        ⟨MakeMemoryProbePacket thread probe value, c.depth + 1, c.last⟩))
  | .setEmpty c => some ((s.setState .EMPTY).goto c.returned)
  | .testDead =>
      if s.slot.state.accepts .THREAD_DEAD then some (s.goto .setDead)
      else some ((s.fails "MINGO_PVT_Set_State:  Illegal state change").goto .dead)
  | .setDead => some ((s.setState .THREAD_DEAD).goto .dead)
  | .dead => none
  | .testChange k x =>
      if s.slot.state = .EMPTY then some (s.goto (.putChange k x))
      else some ((s.fails "invalid thread state").goto .idle)
  | .putChange k x => some ({ s with slot := s.slot.setValue x k }.goto (.getNew k x))
  | .getNew k x => some (s.goto (.setNew k x (s.slot.flags.setNew true k)))
  | .setNew k x flags =>
      some ({ s.setFlags flags with history := s.history.setPending x k }.goto .idle)

def clientCall : ClientCall → Option State
  | .event packet =>
      if s.client = .idle then some (s.goto (.testEnabled ⟨packet, 0, false⟩)) else none
  | .Thread_End =>
      if s.client = .idle then
        some (s.goto (.testEnabled ⟨InitPacketForThread .THREAD_END thread, 0, true⟩))
      else none
  | .change k x => if s.client = .idle then some (s.goto (.testChange k x)) else none

/-! #### Asim -/

/-- A packet was received; `ProbeMemory` looks at what it is. -/
def gotPacket (w : Want) (packet : Packet) (real : Bool) : State :=
  let s := { s with history := s.history.noteReceived packet }
  match w with
  | .event => s.asimGoto (.testReady w packet real)
  | .probe _ =>
      if packet.head.msg = .PROBE_RESULT then s.asimGoto (.testReady w packet real)
      else (s.fails "MINGO_FEEDER_CLASS::ProbeMemory():  Expected probe result.").asimGoto .idle

/-- `MINGO_PVT_Set_State(MINGO_STATE_ASIM_CONSUMED)` is done. -/
def taken (w : Want) (packet : Packet) (real : Bool) : State :=
  match w with
  | .event => { s with history := { s.history with held := some real } }.asimGoto .idle
  | .probe probe =>
      let answers := s.history.answers ++ [(probe, packet.body.d)]
      { s with history := { s.history with answers := answers } }.asimGoto .idle

/-- `MINGO_PVT_Send_Response` has set the state. -/
def responded : Response → State
  | .ack _ => { s with history := s.history.noteAcked }.asimGoto .idle
  | .probe probe => s.asimGoto (.recvEvent (.probe probe))

def asimStep : Option State :=
  match s.asim with
  | .idle => none
  | .getState take =>
      some (s.asimGoto (if s.slot.state = .EVENT_READY ∧ take then .recvEvent .event else .idle))
  | .recvEvent w =>
      if s.slot.state = .EVENT_READY then some (s.asimGoto (.testNew w .cpu_id))
      else
        match w with
        | .event =>
            some ((s.fails ("MINGO_FEEDER_CLASS::GetNextSoftwareThreadEvent:  " ++
              "Error receiving event.")).asimGoto .idle)
        | .probe _ => some s
  | .testNew w .cpu_id =>
      some (s.asimGoto (if s.slot.flags.new_cpu_id then .getChange w .cpu_id
        else .testNew w .priority))
  | .testNew w .priority =>
      some (s.asimGoto (if s.slot.flags.new_priority then .getChange w .priority
        else .getConsumed w))
  | .getChange w k => some (s.asimGoto (.getNew w k (s.slot.value k)))
  | .getNew w k x => some (s.asimGoto (.clearNew w k x (s.slot.flags.setNew false k)))
  | .clearNew w k x flags =>
      some ((s.setFlags flags).asimGoto (.getPseudo w (pseudoPacket thread k x)))
  | .getPseudo w packet =>
      some (s.asimGoto (.setPseudo w packet { s.slot.flags with pseudo_packet := true }))
  | .setPseudo w packet flags => some ((s.setFlags flags).gotPacket w packet false)
  | .getConsumed w =>
      some (s.asimGoto (.setConsumed w { s.slot.flags with packet_consumed := true }))
  | .setConsumed w flags => some ((s.setFlags flags).asimGoto (.getHead w))
  | .getHead w => some (s.asimGoto (.getBody w s.slot.head))
  | .getBody w head => some (s.gotPacket w ⟨head, s.slot.body⟩ true)
  | .testReady w packet real =>
      if s.slot.state.accepts .ASIM_CONSUMED then some (s.asimGoto (.setTaken w packet real))
      else some ((s.fails "MINGO_PVT_Set_State:  Illegal state change").asimGoto .idle)
  | .setTaken w packet real => some ((s.setState .ASIM_CONSUMED).taken w packet real)
  | .testReal probe =>
      if s.slot.flags.pseudo_packet then
        some ((s.fails ("MINGO_PVT_Send_Response:  " ++
          "Probe must follow a real packet.  Sorry!")).asimGoto .idle)
      else some (s.asimGoto (.putResponse (.probe probe)))
  | .putResponse r =>
      some ({ s with slot := { s.slot with response := r.msg } }.asimGoto (.putProbe r))
  | .putProbe r =>
      some ({ s with slot := { s.slot with probe := r.rest } }.asimGoto (.testTaken r))
  | .testTaken r =>
      if s.slot.state.accepts .ASIM_ACK then some (s.asimGoto (.testPseudo r))
      else some ((s.fails "MINGO_PVT_Set_State:  Illegal state change").asimGoto .idle)
  | .testPseudo r =>
      some (s.asimGoto (if s.slot.flags.pseudo_packet then .getNotPseudo r else .testConsumed r))
  | .getNotPseudo r =>
      some (s.asimGoto (.clearPseudo r { s.slot.flags with pseudo_packet := false }))
  | .clearPseudo r flags => some ((s.setFlags flags).asimGoto (.setAgain r))
  | .setAgain r => some ((s.setState .EVENT_READY).responded r)
  | .testConsumed r =>
      if s.slot.flags.packet_consumed then some (s.asimGoto (.setAck r))
      else some ((s.fails "MINGO_PVT_Set_State:  Dropped packet").asimGoto .idle)
  | .setAck r => some ((s.setState .ASIM_ACK).responded r)

def asimCall : AsimCall → Option State
  | .GetNextSoftwareThreadEvent take =>
      if s.asim = .idle then some (s.asimGoto (.getState take)) else none
  | .AllowSoftwareThreadProgress garbage =>
      if s.asim = .idle then some (s.asimGoto (.putResponse (.ack garbage))) else none
  | .ProbeMemory probe =>
      if s.asim = .idle then
        if probe.legal then
          let history := { s.history with asked := s.history.asked ++ [probe] }
          some ({ s with history := history }.asimGoto (.testReal probe))
        else some (s.fails "MINGO_FEEDER_CLASS::ProbeMemory():  Illegal argument.")
      else none

def exec : Event → Option State
  | .call c => s.clientCall thread c
  | .client load => s.clientStep thread load
  | .asimCall c => s.asimCall c
  | .asim => s.asimStep thread
  | .others disableEvents skipEvents =>
      some { s with
        control := { s.control with
          disableEvents := disableEvents
          skipEvents := skipEvents } }

end State

end AsimFeeder.Mingo.Handshake
