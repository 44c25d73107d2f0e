/-
When the handshake hands over each event once, and when a probe is not answered.

What either side does leads from a turn to a turn, as long as the answer to a probe is not
dropped.  If events are switched off or skipped when it is to be sent, the thread goes on while
Asim waits for it.
-/
import AsimFeeder.Mingo.HandshakeAsim
import AsimFeeder.Mingo.HandshakeClient

namespace AsimFeeder.Mingo.Handshake

open Lib

variable {thread : BitVec 32} {s t : State}

/-! ### Calls -/

/-- The counters may be anything. -/
theorem Turn.control (h : Turn thread s) (control : Control) :
    Turn thread { s with control := control } := by
  cases h with
  | running h => exact .running (h.control control)
  | ready h =>
      exact .ready ⟨h.error, h.state, h.client, h.newCpu, h.newPriority, h.acked, h.reads, h.owes,
        h.read, h.event, h.probe⟩
  | consumed real h =>
      exact .consumed real ⟨h.error, h.state, h.client, h.newCpu, h.newPriority, h.acked, h.held,
        h.responds, h.loads, h.asked, h.owes, h.consumed, h.pseudo, h.responded⟩
  | acked h =>
      exact .acked ⟨h.error, h.state, h.newCpu, h.newPriority, h.received, h.pseudo, h.new, h.reads,
        h.loads, h.response⟩

/-- A thread that calls has its slot to itself. -/
theorem Turn.running_of_idle (h : Turn thread s) (hclient : s.client = .idle) :
    Running thread s := by
  cases h with
  | running h => exact h
  | ready h =>
      obtain ⟨c, hwaits⟩ := h.client
      cases hclient.symm.trans hwaits
  | consumed real h =>
      obtain ⟨c, hwaits⟩ := h.client
      cases hclient.symm.trans hwaits
  | acked h =>
      have hreads := h.reads
      rw [hclient] at hreads
      cases hreads

/-- A call starts with a test. -/
theorem clientCall_cases {c : ClientCall} (hstep : s.clientCall thread c = some t) :
    s.client = .idle ∧ ((∃ call, call.depth = 0 ∧ t = s.goto (.testEnabled call)) ∨
      ∃ k x, t = s.goto (.testChange k x)) := by
  cases c with
  | event packet =>
      obtain ⟨hidle, ht⟩ := Option.ite_none_right_eq_some.mp hstep
      exact ⟨hidle, .inl ⟨_, rfl, (Option.some.inj ht).symm⟩⟩
  | Thread_End =>
      obtain ⟨hidle, ht⟩ := Option.ite_none_right_eq_some.mp hstep
      exact ⟨hidle, .inl ⟨_, rfl, (Option.some.inj ht).symm⟩⟩
  | change k x =>
      obtain ⟨hidle, ht⟩ := Option.ite_none_right_eq_some.mp hstep
      exact ⟨hidle, .inr ⟨k, x, (Option.some.inj ht).symm⟩⟩

theorem Turn.clientCall (h : Turn thread s) {c : ClientCall}
    (hstep : s.clientCall thread c = some t) : Turn thread t := by
  obtain ⟨hidle, ⟨call, hdepth, rfl⟩ | ⟨k, x, rfl⟩⟩ := clientCall_cases hstep
  · have hanswering : (ClientPc.testEnabled call).answering = none :=
      Running.answering_of_depth rfl hdepth
    exact .running ((h.running_of_idle hidle).goto hidle rfl rfl hanswering (fun _ _ => rfl)
      trivial)
  · exact .running ((h.running_of_idle hidle).goto hidle rfl rfl rfl (fun _ _ => rfl) trivial)

/-- Asim acknowledges what it has received, and probes only for a real event. -/
def State.LegalCall (s : State) : AsimCall → Prop
  | .GetNextSoftwareThreadEvent _ => True
  | .AllowSoftwareThreadProgress _ => s.history.held.isSome = true
  | .ProbeMemory pr => s.history.held = some true ∧ pr.legal = true

/-- While Asim is between its calls, it may look for an event. -/
theorem Turn.look (h : Turn thread s) (hidle : s.asim = .idle) (take : Bool) :
    Turn thread (s.asimGoto (.getState take)) := by
  cases h with
  | running h =>
      have hsettled : s.client.answering = none → Settled (.getState take) s.history := by
        intro hanswering
        have hsettled := h.settled hanswering
        exact ⟨rfl, hsettled.held, hsettled.loads, hsettled.asked, hsettled.acked⟩
      refine .running ⟨h.error, h.state, h.owns, h.received, h.pseudo, h.new, h.values, h.wrote,
        hsettled, fun c hc => ?_⟩
      obtain ⟨⟨pr, hasim, -⟩, -⟩ := h.answering c hc
      cases hidle.symm.trans hasim
  | ready h =>
      have hread := h.read
      rw [hidle] at hread
      exact .ready (h.goto hidle rfl rfl hread rfl)
  | consumed real h => exact .consumed real (h.goto hidle rfl rfl rfl trivial)
  | acked h =>
      refine .acked ⟨h.error, h.state, h.newCpu, h.newPriority, h.received, h.pseudo, h.new,
        h.reads, h.loads, ?_⟩
      rcases h.response with ⟨hack, hsettled⟩ | ⟨-, hasim, -⟩
      · exact .inl ⟨hack, rfl, hsettled.held, hsettled.loads, hsettled.asked, hsettled.acked⟩
      · cases hidle.symm.trans hasim

/-- An event that is held, while Asim is between its calls, is consumed. -/
theorem Turn.consumed_of_held (h : Turn thread s) (hidle : s.asim = .idle) {real : Bool}
    (hheld : s.history.held = some real) : Consumed thread s real := by
  cases h with
  | running h =>
      cases hanswering : s.client.answering with
      | none => cases (h.settled hanswering).held.symm.trans hheld
      | some c =>
          obtain ⟨⟨pr, hasim, -⟩, -⟩ := h.answering c hanswering
          cases hidle.symm.trans hasim
  | ready h =>
      have hnone := (h.event (by rw [hidle]; rfl)).1
      cases hnone.symm.trans hheld
  | consumed real' h =>
      obtain rfl := Option.some.inj (h.held.symm.trans hheld)
      exact h
  | acked h =>
      rcases h.response with ⟨-, hsettled⟩ | ⟨-, hasim, -⟩
      · cases hsettled.held.symm.trans hheld
      · cases hidle.symm.trans hasim

theorem Turn.asimCall (h : Turn thread s) {c : AsimCall} (hlegal : s.LegalCall c)
    (hstep : s.asimCall c = some t) : Turn thread t := by
  cases c with
  | GetNextSoftwareThreadEvent take =>
      obtain ⟨hidle, ht⟩ := Option.ite_none_right_eq_some.mp hstep
      cases ht
      exact h.look hidle take
  | AllowSoftwareThreadProgress garbage =>
      obtain ⟨real, hheld⟩ := Option.isSome_iff_exists.mp hlegal
      obtain ⟨hidle, ht⟩ := Option.ite_none_right_eq_some.mp hstep
      cases ht
      refine .consumed real ((h.consumed_of_held hidle hheld).goto hidle rfl rfl rfl ?_)
      intro pr hpr
      cases hpr
  | ProbeMemory pr =>
      obtain ⟨hidle, ht⟩ := Option.ite_none_right_eq_some.mp hstep
      have hconsumed := h.consumed_of_held hidle hlegal.1
      have hasked := hconsumed.asked
      have hpseudo := hconsumed.pseudo
      rw [hidle] at hasked hpseudo
      rw [if_pos hlegal.2] at ht
      cases ht
      refine .consumed true ⟨hconsumed.error, hconsumed.state, hconsumed.client, hconsumed.newCpu,
        hconsumed.newPriority, hconsumed.acked, hconsumed.held, rfl, hconsumed.loads, ?_,
        hconsumed.owes, hconsumed.consumed, hpseudo, rfl, hlegal.2⟩
      exact congrArg (· ++ [pr]) ((List.append_nil _).symm.trans hasked)

/-! ### Runs -/

/-- A slot of zeros, and a thread that has not called. -/
structure Start (s : State) : Prop where
  slot : s.slot = ⟨⟨.NONE, 0⟩, ⟨0, 0, 0, 0⟩, .NONE, ⟨0, 0⟩, .EMPTY, 0, 0,
    ⟨false, false, false, false⟩⟩
  client : s.client = .idle
  asim : s.asim = .idle
  history : s.history = ⟨none, none, none, [], [], 0, [], [], [], none⟩

/-- What the two sides may do. -/
def State.Legal (s : State) : Event → Prop
  | .asimCall c => s.LegalCall c
  | _ => True

/-- A thread that sends an answer finds events neither off nor skipped. -/
def State.Careful (s : State) : Event → Prop
  | .client _ => s.Answers
  | _ => True

def Step (thread : BitVec 32) (s t : State) : Prop := ∃ e, s.Legal e ∧ s.exec thread e = some t

def CarefulStep (thread : BitVec 32) (s t : State) : Prop :=
  ∃ e, s.Legal e ∧ s.Careful e ∧ s.exec thread e = some t

theorem Start.turn (h : Start s) : Turn thread s := by
  obtain ⟨hslot, hclient, hasim, hhistory⟩ := h
  obtain ⟨slot, control, client, asim, history⟩ := s
  subst hslot hclient hasim hhistory
  refine .running ⟨rfl, .inl rfl, rfl, rfl, rfl, fun k => by cases k <;> rfl, ?_, trivial,
    fun _ => ⟨rfl, rfl, rfl, rfl, rfl⟩, ?_⟩
  · intro k x hpending
    cases k <;> cases hpending
  · intro c hc
    cases hc

theorem Turn.exec (h : Turn thread s) {e : Event} (hlegal : s.Legal e) (hcareful : s.Careful e)
    (hexec : s.exec thread e = some t) : Turn thread t := by
  cases e with
  | call c => exact h.clientCall hexec
  | client load => exact h.clientStep hcareful hexec
  | asimCall c => exact h.asimCall hlegal hexec
  | asim => exact h.asimStep hexec
  | others disableEvents skipEvents =>
      cases hexec
      exact h.control _

/--
**As long as an answer to a probe is sent while events are neither off nor skipped, the
handshake loses nothing, delivers nothing twice and never gets stuck.**
-/
theorem exactly_once_of_careful (h : Reaches Start (CarefulStep thread) s) : Right thread s := by
  have hturn : Turn thread s :=
    h.invariant (fun _ hstart => hstart.turn) fun _ _ hs ⟨_, hlegal, hcareful, hexec⟩ =>
      hs.exec hlegal hcareful hexec
  exact hturn.right

/-! ### A probe that is answered, and one that is not -/

instance : Decidable s.Answers := by
  unfold State.Answers
  split <;> infer_instance

instance : (c : AsimCall) → Decidable (s.LegalCall c)
  | .GetNextSoftwareThreadEvent _ => .isTrue trivial
  | .AllowSoftwareThreadProgress _ => inferInstanceAs (Decidable (_ = _))
  | .ProbeMemory _ => inferInstanceAs (Decidable (_ ∧ _))

instance : (e : Event) → Decidable (s.Legal e)
  | .asimCall c => inferInstanceAs (Decidable (s.LegalCall c))
  | .call _ | .client _ | .asim | .others _ _ => .isTrue trivial

instance : (e : Event) → Decidable (s.Careful e)
  | .client _ => inferInstanceAs (Decidable s.Answers)
  | .call _ | .asimCall _ | .asim | .others _ _ => .isTrue trivial

def started : State where
  slot := ⟨⟨.NONE, 0⟩, ⟨0, 0, 0, 0⟩, .NONE, ⟨0, 0⟩, .EMPTY, 0, 0, ⟨false, false, false, false⟩⟩
  control := ⟨0, 0, false⟩
  client := .idle
  asim := .idle
  history := ⟨none, none, none, [], [], 0, [], [], [], none⟩

theorem start_started : Start started := ⟨rfl, rfl, rfl, rfl⟩

/-- An exchange at `0x2000`. -/
def exchange : Packet := ⟨⟨.EXCHANGE, 1⟩, ⟨0x1000, 0x2000, 0, 0x20000⟩⟩

def clientSteps (n : Nat) : List Event := List.replicate n (.client 0x1234)

def asimSteps (n : Nat) : List Event := List.replicate n .asim

/-- The exchange is sent, received and probed, and the thread has loaded what is asked for. -/
def probingEvents : List Event :=
  .call (.event exchange) :: clientSteps 10 ++
    .asimCall (.GetNextSoftwareThreadEvent true) :: asimSteps 10 ++
    .asimCall (.ProbeMemory ⟨0x2000, 1⟩) :: asimSteps 7 ++ clientSteps 5

/-- The answer is sent and received, and the exchange acknowledged. -/
def answeringEvents : List Event :=
  .call (.change .priority 7) :: clientSteps 4 ++
    .call (.event exchange) :: clientSteps 10 ++
    .asimCall (.GetNextSoftwareThreadEvent true) :: asimSteps 11 ++
    .asimCall (.AllowSoftwareThreadProgress ⟨0, 0⟩) :: asimSteps 7 ++
    .asimCall (.GetNextSoftwareThreadEvent true) :: asimSteps 10 ++
    .asimCall (.ProbeMemory ⟨0x2000, 1⟩) :: asimSteps 7 ++ clientSteps 15 ++ asimSteps 9 ++
    .asimCall (.AllowSoftwareThreadProgress ⟨0, 0⟩) :: asimSteps 6 ++ clientSteps 5

theorem exactly_once_of_careful_answer : ∃ s : State, s.client = .idle ∧
    s.history.received = [pseudoPacket 1 .priority 7, exchange,
      MakeMemoryProbePacket 1 ⟨0x2000, 1⟩ 0x34] ∧
    s.history.answers = [(⟨0x2000, 1⟩, 0x34)] ∧ Right 1 s := by
  have hrun : ((after (State.exec 1) (fun s e => decide (s.Legal e ∧ s.Careful e))
      answeringEvents started).map fun s => (s.client, s.history.received, s.history.answers)) =
      some (.idle, [pseudoPacket 1 .priority 7, exchange,
        MakeMemoryProbePacket 1 ⟨0x2000, 1⟩ 0x34], [(⟨0x2000, 1⟩, 0x34)]) := by
    decide +kernel
  obtain ⟨s, hs, hfacts⟩ := Option.map_eq_some_iff.mp hrun
  obtain ⟨hclient, hrest⟩ := Prod.mk.inj hfacts
  obtain ⟨hreceived, hanswers⟩ := Prod.mk.inj hrest
  have hreach : Reaches Start (CarefulStep 1) s :=
    Reaches.after
      (fun s e t hok hexec => ⟨e, (of_decide_eq_true hok).1, (of_decide_eq_true hok).2, hexec⟩)
      (.start start_started) hs
  exact ⟨s, hclient, hreceived, hanswers, exactly_once_of_careful hreach⟩

/-- **Another thread switches events off, and Asim waits for an answer that was dropped.** -/
theorem not_always_exactly_once : ¬ ∀ (thread : BitVec 32) (s : State),
    Reaches Start (Step thread) s → Right thread s := by
  intro hall
  have hrun : ((after (State.exec 1) (fun s e => decide (s.Legal e))
      (probingEvents ++ .others 1 0 :: clientSteps 2) started).map fun s =>
      (s.client, s.history.answers, s.history.asked)) = some (.idle, [], [⟨0x2000, 1⟩]) := by
    decide +kernel
  obtain ⟨s, hs, hfacts⟩ := Option.map_eq_some_iff.mp hrun
  obtain ⟨hclient, hrest⟩ := Prod.mk.inj hfacts
  obtain ⟨hanswers, hasked⟩ := Prod.mk.inj hrest
  have hreach : Reaches Start (Step 1) s :=
    Reaches.after (fun s e t hok hexec => ⟨e, of_decide_eq_true hok, hexec⟩)
      (.start start_started) hs
  have hanswered := (hall 1 s hreach).answered (by rw [hclient]; rfl)
  rw [hanswers, hasked] at hanswered
  cases hanswered.2

end AsimFeeder.Mingo.Handshake
