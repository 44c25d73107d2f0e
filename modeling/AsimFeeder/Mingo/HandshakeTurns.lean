/-
Whose turn it is in the handshake, and what is right about it.

The state of the slot says whose turn it is.  While it is empty the thread may write to the
slot, and Asim waits or does something else; while an event is ready or consumed it is the
other way round.  There is one invariant for each of these four turns.
-/
import AsimFeeder.Mingo.Handshake

namespace AsimFeeder.Mingo.Handshake

variable {thread : BitVec 32} {s t : State}

/-! ### What the handshake is for -/

/-- What Asim is to receive: an event for each change that was pending, and the event. -/
def Sent.packets (thread : BitVec 32) (x : Sent) : List Packet :=
  x.cpu_id.toList.map (pseudoPacket thread .cpu_id) ++
    (x.priority.toList.map (pseudoPacket thread .priority) ++ [x.packet])

def History.expected (thread : BitVec 32) (h : History) : List Packet :=
  h.sent.flatMap (Sent.packets thread)

/-- How many events were sent that do not answer a probe. -/
def History.real (h : History) : Nat := h.sent.countP fun x => !x.answer

namespace ClientPc

/-- The message that is to be sent. -/
def sending : ClientPc → Option Call
  | testEnabled c | sendEvent c | testSkip c | decSkip c | putSkip c _ | getConsumed c
  | clearConsumed c _ | putHead c | putBody c | putSent c | testEmpty c | setReady c => some c
  | _ => none

/-- The thread runs, or is about to send what is not an answer. -/
def runsOn : ClientPc → Bool
  | idle | testDead | setDead | dead | testChange .. | putChange .. | getNew .. | setNew .. => true
  | pc => pc.sending.any fun c => c.depth = 0

/-- The thread can only wait. -/
def waits (state : IpcState) : ClientPc → Bool
  | waitAck _ => state ≠ .ASIM_ACK
  | _ => false

end ClientPc

/-- Asim can only wait. -/
def AsimPc.waits (state : IpcState) : AsimPc → Bool
  | recvEvent _ => state ≠ .EVENT_READY
  | _ => false

/-- Each event and each pending change is received once and in order, what was sent is
acknowledged and every probe is answered before the thread runs on, and one of the two can
always do something. -/
structure Right (thread : BitVec 32) (s : State) : Prop where
  error : s.history.error = none
  received : s.history.received <+: s.history.expected thread
  all : s.client.runsOn = true → s.history.received = s.history.expected thread
  acknowledged : s.client.runsOn = true → s.history.acked = s.history.real
  answered : s.client.runsOn = true → s.history.answers = s.history.loads ∧
    s.history.answers.map Prod.fst = s.history.asked
  moves : ¬ (s.client.waits s.slot.state = true ∧ s.asim.waits s.slot.state = true)

/-! ### The four turns -/

namespace ClientPc

/-- The thread may write to the slot. -/
def owns : ClientPc → Bool
  | idle | testDead | setDead | dead | testChange .. | putChange .. | getNew .. | setNew ..
  | setEmpty _ => true
  | pc => pc.sending.isSome

/-- The thread has not ended. -/
def alive : ClientPc → Bool
  | dead => false
  | _ => true

/-- The answer to a probe that is to be sent. -/
def answering (pc : ClientPc) : Option Call := pc.sending.filter fun c => c.depth ≠ 0

/-- The value that is written for a change that is not yet pending. -/
def changes : ClientPc → Change → Bool
  | getNew k' _, k | setNew k' _ _, k => k' = k
  | _, _ => false

/-- What was written, or read to be written, is in the slot. -/
def Wrote (slot : Slot) : ClientPc → Prop
  | clearConsumed _ f => f = { slot.flags with packet_consumed := false }
  | decSkip c | putSkip c _ => c.depth = 0
  | putBody c => slot.head = c.packet.head
  | putSent c | testEmpty c | setReady c => slot.head = c.packet.head ∧ slot.body = c.packet.body
  | getNew k x => slot.value k = x
  | setNew k x f => slot.value k = x ∧ f = slot.flags.setNew true k
  | _ => True

end ClientPc

/-- What Asim is to receive of the slot. -/
def Slot.owes (thread : BitVec 32) (slot : Slot) : List Packet :=
  (if slot.flags.new_cpu_id then [pseudoPacket thread .cpu_id slot.cpu_id] else []) ++
    ((if slot.flags.new_priority then [pseudoPacket thread .priority slot.priority] else []) ++
      [⟨slot.head, slot.body⟩])

namespace AsimPc

/-- Asim is not in a call that changes anything yet. -/
def rests : AsimPc → Bool
  | idle | getState _ => true
  | _ => false

/-- Asim may read an event. -/
def reads : AsimPc → Bool
  | idle | getState _ | recvEvent _ | testNew .. | getChange .. | getNew .. | clearNew ..
  | getPseudo .. | setPseudo .. | getConsumed _ | setConsumed .. | getHead _ | getBody ..
  | testReady .. | setTaken .. => true
  | _ => false

/-- Asim may respond. -/
def responds : AsimPc → Bool
  | idle | getState _ | testReal _ | putResponse _ | putProbe _ | testTaken _ | testPseudo _
  | getNotPseudo _ | clearPseudo .. | setAgain _ | testConsumed _ | setAck _ => true
  | _ => false

/-- What is received is the answer to this probe. -/
def awaits : AsimPc → Option Probe
  | recvEvent (.probe pr) | testNew (.probe pr) _ | getChange (.probe pr) _
  | getNew (.probe pr) _ _ | clearNew (.probe pr) _ _ _ | getPseudo (.probe pr) _
  | setPseudo (.probe pr) _ _ | getConsumed (.probe pr) | setConsumed (.probe pr) _
  | getHead (.probe pr) | getBody (.probe pr) _ | testReady (.probe pr) _ _
  | setTaken (.probe pr) _ _ => some pr
  | _ => none

/-- What is still to be received. -/
def owes (thread : BitVec 32) (slot : Slot) : AsimPc → List Packet
  | getPseudo _ p | setPseudo _ p _ => p :: slot.owes thread
  | testReady _ _ true | setTaken _ _ true => []
  | _ => slot.owes thread

/-- A change is read. -/
def ReadsNew (slot : Slot) (k : Change) : Prop :=
  slot.flags.new k = true ∧ (k = .priority → slot.flags.new_cpu_id = false)

/-- There is no change, or none any more. -/
def NoNew (slot : Slot) : Prop :=
  slot.flags.new_cpu_id = false ∧ slot.flags.new_priority = false

/-- What was read of the slot is still there. -/
def Read (slot : Slot) : AsimPc → Prop
  | testNew _ .priority => slot.flags.pseudo_packet = false ∧ slot.flags.new_cpu_id = false
  | getChange _ k => slot.flags.pseudo_packet = false ∧ ReadsNew slot k
  | getNew _ k x => slot.flags.pseudo_packet = false ∧ ReadsNew slot k ∧ slot.value k = x
  | clearNew _ k x f => slot.flags.pseudo_packet = false ∧ ReadsNew slot k ∧ slot.value k = x ∧
      f = slot.flags.setNew false k
  | getPseudo w _ => slot.flags.pseudo_packet = false ∧ w = .event
  | setPseudo w _ f => slot.flags.pseudo_packet = false ∧ w = .event ∧
      f = { slot.flags with pseudo_packet := true }
  | getConsumed _ => slot.flags.pseudo_packet = false ∧ NoNew slot
  | setConsumed _ f => slot.flags.pseudo_packet = false ∧ NoNew slot ∧
      f = { slot.flags with packet_consumed := true }
  | getHead _ => slot.flags.pseudo_packet = false ∧ NoNew slot ∧
      slot.flags.packet_consumed = true
  | getBody _ h => slot.flags.pseudo_packet = false ∧ NoNew slot ∧
      slot.flags.packet_consumed = true ∧ h = slot.head
  | testReady w _ false | setTaken w _ false => slot.flags.pseudo_packet = true ∧ w = .event
  | testReady _ p true | setTaken _ p true => slot.flags.pseudo_packet = false ∧ NoNew slot ∧
      slot.flags.packet_consumed = true ∧ p = ⟨slot.head, slot.body⟩
  | _ => slot.flags.pseudo_packet = false

/-- What was written of a response is in the slot. -/
def Responded (slot : Slot) (real : Bool) : AsimPc → Prop
  | testReal pr => real = true ∧ pr.legal = true
  | putResponse r => ∀ pr, r = .probe pr → real = true ∧ pr.legal = true
  | putProbe r => (∀ pr, r = .probe pr → real = true ∧ pr.legal = true) ∧ slot.response = r.msg
  | testTaken r | testPseudo r => (∀ pr, r = .probe pr → real = true ∧ pr.legal = true) ∧
      slot.response = r.msg ∧ slot.probe = r.rest
  | getNotPseudo r => real = false ∧ ∃ garbage, r = .ack garbage
  | clearPseudo r f => real = false ∧ (∃ garbage, r = .ack garbage) ∧
      f = { slot.flags with pseudo_packet := false }
  | setAgain r => real = false ∧ ∃ garbage, r = .ack garbage
  | testConsumed r | setAck r => real = true ∧ (∀ pr, r = .probe pr → pr.legal = true) ∧
      slot.response = r.msg ∧ slot.probe = r.rest
  | _ => True

/-- The event that was sent is ready again. -/
def again : AsimPc → Bool
  | setAgain _ => true
  | _ => false

/-- The probe that is asked for. -/
def asks : AsimPc → Option Probe
  | testReal pr => some pr
  | putResponse r | putProbe r | testTaken r | testPseudo r | getNotPseudo r | clearPseudo r _
  | setAgain r | testConsumed r | setAck r =>
      match r with
      | .ack _ => none
      | .probe pr => some pr
  | _ => none

variable {pc : AsimPc} {slot : Slot}

theorem reads_of_rests (h : pc.rests = true) : pc.reads = true := by
  cases pc <;> first | rfl | cases h

theorem awaits_of_rests (h : pc.rests = true) : pc.awaits = none := by
  cases pc <;> first | rfl | cases h

theorem owes_of_rests (h : pc.rests = true) : pc.owes thread slot = slot.owes thread := by
  cases pc <;> first | rfl | cases h

theorem read_of_rests (h : pc.rests = true) (hpseudo : slot.flags.pseudo_packet = false) :
    pc.Read slot := by
  cases pc <;> first | exact hpseudo | cases h

end AsimPc

/-- Nothing is owed to either side. -/
structure Settled (asim : AsimPc) (h : History) : Prop where
  rests : asim.rests = true
  held : h.held = none
  loads : h.answers = h.loads
  asked : h.answers.map Prod.fst = h.asked
  acked : h.acked = h.real

/-- A probe is to be answered, of the event that Asim holds. -/
structure Awaited (h : History) (pr : Probe) : Prop where
  held : h.held = some true
  asked : h.answers.map Prod.fst ++ [pr] = h.asked
  acked : h.acked + 1 = h.real
  newCpu : h.newCpu = none
  newPriority : h.newPriority = none

/-- An answer is to be sent. -/
structure Answering (asim : AsimPc) (h : History) (c : Call) : Prop where
  awaited : ∃ pr, asim = .recvEvent (.probe pr) ∧ Awaited h pr ∧
    h.answers ++ [(pr, c.packet.body.d)] = h.loads
  msg : c.packet.head.msg = .PROBE_RESULT

/-- The slot is the thread's, and is empty. -/
structure Running (thread : BitVec 32) (s : State) : Prop where
  error : s.history.error = none
  state : s.slot.state = .EMPTY ∨ s.slot.state = .THREAD_DEAD ∧ s.client = .dead
  owns : s.client.owns = true
  received : s.history.received = s.history.expected thread
  pseudo : s.slot.flags.pseudo_packet = false
  new : ∀ k, s.slot.flags.new k = (s.history.pending k).isSome
  values : ∀ k x, s.history.pending k = some x → s.client.changes k = false →
    s.slot.value k = x
  wrote : s.client.Wrote s.slot
  settled : s.client.answering = none → Settled s.asim s.history
  answering : ∀ c, s.client.answering = some c → Answering s.asim s.history c

/-- The slot is Asim's, and has an event. -/
structure Ready (thread : BitVec 32) (s : State) : Prop where
  error : s.history.error = none
  state : s.slot.state = .EVENT_READY
  client : ∃ c, s.client = .waitAck c
  newCpu : s.history.newCpu = none
  newPriority : s.history.newPriority = none
  acked : s.history.acked + 1 = s.history.real
  reads : s.asim.reads = true
  owes : s.history.received ++ s.asim.owes thread s.slot = s.history.expected thread
  read : s.asim.Read s.slot
  event : s.asim.awaits = none → s.history.held = none ∧
    s.history.answers = s.history.loads ∧ s.history.answers.map Prod.fst = s.history.asked
  probe : ∀ pr, s.asim.awaits = some pr → Awaited s.history pr ∧ AsimPc.NoNew s.slot ∧
    s.slot.head.msg = .PROBE_RESULT ∧
    s.history.answers ++ [(pr, s.slot.body.d)] = s.history.loads

/-- The slot is Asim's, and has an event that was received. -/
structure Consumed (thread : BitVec 32) (s : State) (real : Bool) : Prop where
  error : s.history.error = none
  state : s.slot.state = .ASIM_CONSUMED
  client : ∃ c, s.client = .waitAck c
  newCpu : s.history.newCpu = none
  newPriority : s.history.newPriority = none
  acked : s.history.acked + 1 = s.history.real
  held : s.history.held = some real
  responds : s.asim.responds = true
  loads : s.history.answers = s.history.loads
  asked : s.history.answers.map Prod.fst ++ s.asim.asks.toList = s.history.asked
  owes : s.history.received ++ (if real then [] else s.slot.owes thread) =
    s.history.expected thread
  consumed : real = true → s.slot.flags.packet_consumed = true ∧ AsimPc.NoNew s.slot
  pseudo : s.slot.flags.pseudo_packet = (!real && !s.asim.again)
  responded : s.asim.Responded s.slot real

/-- What the thread has read of the response. -/
def ClientPc.Reads (slot : Slot) : ClientPc → Prop
  | waitAck _ | getResponse _ => True
  | getProbe _ msg => msg = slot.response
  | load _ pr => slot.response = .PROBE ∧ pr = slot.probe
  | setEmptyProbe _ pr _ => slot.response = .PROBE ∧ pr = slot.probe
  | setEmpty _ => slot.response = .ACK
  | _ => False

/-- What the thread has loaded for the probe. -/
def ClientPc.loaded : ClientPc → List (Probe × BitVec 64)
  | setEmptyProbe _ pr value => [(pr, value)]
  | _ => []

/-- The slot is the thread's, and has a response. -/
structure Acked (thread : BitVec 32) (s : State) : Prop where
  error : s.history.error = none
  state : s.slot.state = .ASIM_ACK
  newCpu : s.history.newCpu = none
  newPriority : s.history.newPriority = none
  received : s.history.received = s.history.expected thread
  pseudo : s.slot.flags.pseudo_packet = false
  new : AsimPc.NoNew s.slot
  reads : s.client.Reads s.slot
  loads : s.history.answers ++ s.client.loaded = s.history.loads
  response : s.slot.response = .ACK ∧ Settled s.asim s.history ∨
    s.slot.response = .PROBE ∧ s.asim = .recvEvent (.probe s.slot.probe) ∧
      Awaited s.history s.slot.probe ∧ s.slot.probe.legal = true

/-- It is someone's turn. -/
inductive Turn (thread : BitVec 32) (s : State) : Prop
  | running (h : Running thread s)
  | ready (h : Ready thread s)
  | consumed (real : Bool) (h : Consumed thread s real)
  | acked (h : Acked thread s)

/-! ### Whoever's turn it is, all is right -/

theorem ClientPc.answering_of_runsOn {pc : ClientPc} (h : pc.runsOn = true) :
    pc.answering = none := by
  cases pc <;> simp_all [runsOn, answering, sending]

theorem ClientPc.waits_of_owns {pc : ClientPc} (h : pc.owns = true) (state : IpcState) :
    pc.waits state = false := by
  cases pc <;> simp_all [owns, waits, sending]

theorem Running.right (h : Running thread s) : Right thread s where
  error := h.error
  received := by rw [h.received]
  all := fun _ => h.received
  acknowledged := fun hon => (h.settled (ClientPc.answering_of_runsOn hon)).acked
  answered := fun hon =>
    have hsettled := h.settled (ClientPc.answering_of_runsOn hon)
    ⟨hsettled.loads, hsettled.asked⟩
  moves := fun ⟨hclient, _⟩ => by
    rw [ClientPc.waits_of_owns h.owns] at hclient
    cases hclient

/-- A thread that does not run on is owed nothing yet. -/
theorem right_of_stopped (hrunsOn : s.client.runsOn = false) (herror : s.history.error = none)
    (hreceived : s.history.received <+: s.history.expected thread)
    (hmoves : ¬ (s.client.waits s.slot.state = true ∧ s.asim.waits s.slot.state = true)) :
    Right thread s := by
  have hstopped : ¬ s.client.runsOn = true := Bool.eq_false_iff.mp hrunsOn
  constructor
  · exact herror
  · exact hreceived
  · exact fun hon => absurd hon hstopped
  · exact fun hon => absurd hon hstopped
  · exact fun hon => absurd hon hstopped
  · exact hmoves

theorem Ready.right (h : Ready thread s) : Right thread s := by
  obtain ⟨c, hclient⟩ := h.client
  have hasim : s.asim.waits s.slot.state = false := by
    rw [h.state]
    cases s.asim <;> rfl
  refine right_of_stopped ?_ h.error ⟨_, h.owes⟩ fun hwaits => ?_
  · rw [hclient]
    rfl
  · rw [hasim] at hwaits
    cases hwaits.2

theorem Consumed.right {real : Bool} (h : Consumed thread s real) : Right thread s := by
  obtain ⟨c, hclient⟩ := h.client
  have hresponds := h.responds
  have hasim : s.asim.waits s.slot.state = false := by
    cases hpc : s.asim <;> first | rfl | (rw [hpc] at hresponds; cases hresponds)
  refine right_of_stopped ?_ h.error ⟨_, h.owes⟩ fun hwaits => ?_
  · rw [hclient]
    rfl
  · rw [hasim] at hwaits
    cases hwaits.2

theorem Acked.right (h : Acked thread s) : Right thread s := by
  have hreads := h.reads
  have hrunsOn : s.client.runsOn = false := by
    cases hpc : s.client <;> first | rfl | (rw [hpc] at hreads; cases hreads)
  have hclient : s.client.waits s.slot.state = false := by
    rw [h.state]
    cases s.client <;> rfl
  refine right_of_stopped hrunsOn h.error ?_ fun hwaits => ?_
  · rw [h.received]
  · rw [hclient] at hwaits
    cases hwaits.1

theorem Turn.right (h : Turn thread s) : Right thread s := by
  cases h with
  | running h => exact h.right
  | ready h => exact h.right
  | consumed real h => exact h.right
  | acked h => exact h.right

end AsimFeeder.Mingo.Handshake
