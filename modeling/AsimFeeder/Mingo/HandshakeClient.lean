/-
What the thread does in the handshake: from a turn to a turn.

The answer to a probe is sent like any other event.  If events are switched off or skipped by
then, it is dropped; here they are not.
-/
import AsimFeeder.Mingo.HandshakeTurns

namespace AsimFeeder.Mingo.Handshake

variable {thread : BitVec 32} {s t : State}

/-! ### Changes -/

theorem Flags.new_setNew (f : Flags) (b : Bool) (k k' : Change) :
    (f.setNew b k).new k' = if k = k' then b else f.new k' := by
  cases k <;> cases k' <;> rfl

theorem Flags.pseudo_packet_setNew (f : Flags) (b : Bool) (k : Change) :
    (f.setNew b k).pseudo_packet = f.pseudo_packet := by
  cases k <;> rfl

theorem Slot.value_setValue (slot : Slot) (x : BitVec 32) (k k' : Change) :
    (slot.setValue x k).value k' = if k = k' then x else slot.value k' := by
  cases k <;> cases k' <;> rfl

theorem Slot.flags_setValue (slot : Slot) (x : BitVec 32) (k : Change) :
    (slot.setValue x k).flags = slot.flags := by
  cases k <;> rfl

theorem Slot.state_setValue (slot : Slot) (x : BitVec 32) (k : Change) :
    (slot.setValue x k).state = slot.state := by
  cases k <;> rfl

theorem History.pending_setPending (h : History) (x : BitVec 32) (k k' : Change) :
    (h.setPending x k).pending k' = if k = k' then some x else h.pending k' := by
  cases k <;> cases k' <;> rfl

theorem Settled.setPending {asim : AsimPc} {h : History} (hsettled : Settled asim h)
    (x : BitVec 32) (k : Change) : Settled asim (h.setPending x k) := by
  cases k <;> exact ⟨hsettled.rests, hsettled.held, hsettled.loads, hsettled.asked, hsettled.acked⟩

/-! ### The slot is the thread's, and is empty -/

/-- While an answer is to be sent, events are neither off nor skipped. -/
def State.Answers (s : State) : Prop :=
  match s.client with
  | .testEnabled c | .sendEvent c => c.depth ≠ 0 → s.control.disableEvents = 0
  | .testSkip c => c.depth ≠ 0 → s.control.skipEvents = 0
  | _ => True

theorem Call.answering_returned {c : Call} : c.returned.answering = none := by
  rw [Call.returned]
  cases c.depth with
  | zero => cases c.last <;> rfl
  | succ depth => rfl

theorem Call.owns_returned {c : Call} : c.returned.owns = true := by
  rw [Call.returned]
  cases c.depth with
  | zero => cases c.last <;> rfl
  | succ depth => rfl

theorem Call.wrote_returned {c : Call} (slot : Slot) : c.returned.Wrote slot := by
  rw [Call.returned]
  cases c.depth with
  | zero => cases c.last <;> trivial
  | succ depth => trivial

namespace Running

/-- The thread goes on, and nothing happens that Asim can see. -/
theorem keeps (h : Running thread s) (hhistory : t.history = s.history) (hasim : t.asim = s.asim)
    (hstate : t.slot.state = .EMPTY) (howns : t.client.owns = true)
    (hanswering : t.client.answering = s.client.answering)
    (hpseudo : t.slot.flags.pseudo_packet = s.slot.flags.pseudo_packet)
    (hnew : ∀ k, t.slot.flags.new k = s.slot.flags.new k)
    (hvalues : ∀ k, t.client.changes k = false →
      s.client.changes k = false ∧ t.slot.value k = s.slot.value k)
    (hwrote : t.client.Wrote t.slot) : Running thread t where
  error := by rw [hhistory]; exact h.error
  state := .inl hstate
  owns := howns
  received := by rw [hhistory]; exact h.received
  pseudo := by rw [hpseudo]; exact h.pseudo
  new := by
    intro k
    rw [hnew, hhistory]
    exact h.new k
  values := by
    intro k x hpending hchanges
    obtain ⟨hchanges', hvalue⟩ := hvalues k hchanges
    rw [hhistory] at hpending
    rw [hvalue]
    exact h.values k x hpending hchanges'
  wrote := hwrote
  settled := by rw [hanswering, hasim, hhistory]; exact h.settled
  answering := by rw [hanswering, hasim, hhistory]; exact h.answering

variable {pc : ClientPc}

theorem empty (h : Running thread s) (hclient : s.client = pc) (halive : pc.alive = true) :
    s.slot.state = .EMPTY := by
  refine h.state.resolve_right fun hdead => ?_
  rw [← hclient, hdead.2] at halive
  cases halive

/-- Only where it is in its calls changes. -/
theorem goto (h : Running thread s) {pc' : ClientPc} (hclient : s.client = pc)
    (halive : pc.alive = true) (howns : pc'.owns = true) (hanswering : pc'.answering = pc.answering)
    (hchanges : ∀ k, pc'.changes k = false → pc.changes k = false)
    (hwrote : pc'.Wrote s.slot) : Running thread (s.goto pc') := by
  subst hclient
  exact h.keeps rfl rfl (h.empty rfl halive) howns hanswering rfl (fun _ => rfl)
    (fun k hk => ⟨hchanges k hk, rfl⟩) hwrote

/-- The thread writes to the slot what Asim does not look at yet. -/
theorem write (h : Running thread s) {pc' : ClientPc} {slot : Slot} (hclient : s.client = pc)
    (halive : pc.alive = true) (howns : pc'.owns = true) (hanswering : pc'.answering = pc.answering)
    (hstate : slot.state = s.slot.state)
    (hpseudo : slot.flags.pseudo_packet = s.slot.flags.pseudo_packet)
    (hnew : ∀ k, slot.flags.new k = s.slot.flags.new k)
    (hvalues : ∀ k, pc'.changes k = false → pc.changes k = false ∧ slot.value k = s.slot.value k)
    (hwrote : pc'.Wrote slot) : Running thread ({ s with slot := slot }.goto pc') := by
  subst hclient
  exact h.keeps rfl rfl (hstate.trans (h.empty rfl halive)) howns hanswering hpseudo hnew hvalues
    hwrote

/-- The counters may be anything. -/
theorem control (h : Running thread s) (control : Control) :
    Running thread { s with control := control } :=
  ⟨h.error, h.state, h.owns, h.received, h.pseudo, h.new, h.values, h.wrote, h.settled, h.answering⟩

/-- A message that is not sent, or that has been answered. -/
theorem returned (h : Running thread s) {c : Call} (hclient : s.client = pc)
    (halive : pc.alive = true) (hanswering : pc.answering = none)
    (hchanges : ∀ k, pc.changes k = false) : Running thread (s.goto c.returned) :=
  h.goto hclient halive Call.owns_returned (Call.answering_returned.trans hanswering.symm)
    (fun k _ => hchanges k) (Call.wrote_returned s.slot)

/-- A message that is not sent is not an answer. -/
theorem answering_of_depth {c : Call} (hsending : pc.sending = some c) (hdepth : c.depth = 0) :
    pc.answering = none := by
  rw [ClientPc.answering, hsending]
  simp [hdepth]

/-- A test that lets the message pass, or it was not an answer. -/
theorem test (h : Running thread s) {c : Call} {pc' : ClientPc} {b : Prop} [Decidable b]
    (hclient : s.client = pc) (halive : pc.alive = true) (hsending : pc.sending = some c)
    (hchanges : ∀ k, pc.changes k = false) (hpass : c.depth ≠ 0 → b)
    (hsending' : pc'.sending = some c) (howns : pc'.owns = true) (hwrote : pc'.Wrote s.slot) :
    Running thread (s.goto (if b then pc' else c.returned)) := by
  by_cases hb : b
  · have hanswering : pc'.answering = pc.answering := by
      rw [ClientPc.answering, ClientPc.answering, hsending, hsending']
    rw [if_pos hb]
    exact h.goto hclient halive howns hanswering (fun k _ => hchanges k) hwrote
  · have hdepth : c.depth = 0 := by
      by_contra hne
      exact hb (hpass hne)
    rw [if_neg hb]
    exact h.returned hclient halive (answering_of_depth hsending hdepth) hchanges

/-- What the slot owes is what is sent. -/
theorem owes_eq (h : Running thread s) {c : Call} (hclient : s.client = .setReady c) :
    s.slot.owes thread = Sent.packets thread
      ⟨s.history.newCpu, s.history.newPriority, c.packet, decide (c.depth ≠ 0)⟩ := by
  have hwrote := h.wrote
  have hvalues := h.values
  have hcpu : s.slot.flags.new_cpu_id = s.history.newCpu.isSome := h.new .cpu_id
  have hpriority : s.slot.flags.new_priority = s.history.newPriority.isSome := h.new .priority
  rw [hclient] at hwrote hvalues
  obtain ⟨hhead, hbody⟩ := hwrote
  have hcpus : (if s.slot.flags.new_cpu_id then [pseudoPacket thread .cpu_id s.slot.cpu_id]
      else []) = s.history.newCpu.toList.map (pseudoPacket thread .cpu_id) := by
    rw [hcpu]
    cases hnew : s.history.newCpu with
    | none => rfl
    | some x =>
        have hvalue : s.slot.cpu_id = x := hvalues .cpu_id x hnew rfl
        rw [hvalue]
        rfl
  have hpriorities : (if s.slot.flags.new_priority then
      [pseudoPacket thread .priority s.slot.priority] else []) =
      s.history.newPriority.toList.map (pseudoPacket thread .priority) := by
    rw [hpriority]
    cases hnew : s.history.newPriority with
    | none => rfl
    | some x =>
        have hvalue : s.slot.priority = x := hvalues .priority x hnew rfl
        rw [hvalue]
        rfl
  rw [Slot.owes, hcpus, hpriorities, hhead, hbody]
  rfl

/-- The event is there, with the changes that were pending. -/
theorem setReady (h : Running thread s) {c : Call} (hclient : s.client = .setReady c) :
    Ready thread
      ({ s.setState .EVENT_READY with history := s.history.noteSent c }.goto (.waitAck c)) := by
  have howes := h.owes_eq hclient
  have hexpected : (s.history.noteSent c).expected thread =
      s.history.received ++ s.slot.owes thread := by
    rw [howes, h.received, History.expected, History.expected, History.noteSent,
      List.flatMap_append, List.flatMap_singleton]
  have hreal : (s.history.noteSent c).real =
      s.history.real + if c.depth = 0 then 1 else 0 := by
    rw [History.real, History.real, History.noteSent, List.countP_append, List.countP_singleton]
    by_cases hdepth : c.depth = 0 <;> simp [hdepth]
  have hanswering : s.client.answering = if c.depth = 0 then none else some c := by
    rw [hclient]
    by_cases hdepth : c.depth = 0 <;> simp [ClientPc.answering, ClientPc.sending, hdepth]
  by_cases hdepth : c.depth = 0
  · rw [if_pos hdepth] at hanswering hreal
    have hsettled := h.settled hanswering
    have hacked : s.history.acked + 1 = (s.history.noteSent c).real := by
      rw [hreal, hsettled.acked]
    constructor
    · exact h.error
    · rfl
    · exact ⟨c, rfl⟩
    · rfl
    · rfl
    · exact hacked
    · exact AsimPc.reads_of_rests hsettled.rests
    · show s.history.received ++ s.asim.owes thread _ = _
      rw [AsimPc.owes_of_rests hsettled.rests]
      exact hexpected.symm
    · exact AsimPc.read_of_rests hsettled.rests h.pseudo
    · exact fun _ => ⟨hsettled.held, hsettled.loads, hsettled.asked⟩
    · intro pr hawaits
      have hnone := AsimPc.awaits_of_rests hsettled.rests
      rw [show s.asim.awaits = some pr from hawaits] at hnone
      cases hnone
  · rw [if_neg hdepth] at hanswering hreal
    obtain ⟨⟨pr, hasim, hawaited, hloads⟩, hmsg⟩ := h.answering c hanswering
    have hwrote := h.wrote
    rw [hclient] at hwrote
    obtain ⟨hhead, hbody⟩ := hwrote
    have hcpu : s.slot.flags.new_cpu_id = s.history.newCpu.isSome := h.new .cpu_id
    have hpriority : s.slot.flags.new_priority = s.history.newPriority.isSome := h.new .priority
    rw [hawaited.newCpu] at hcpu
    rw [hawaited.newPriority] at hpriority
    have hacked : s.history.acked + 1 = (s.history.noteSent c).real := by
      rw [hreal]
      exact hawaited.acked
    constructor
    · exact h.error
    · rfl
    · exact ⟨c, rfl⟩
    · rfl
    · rfl
    · exact hacked
    · show s.asim.reads = true
      rw [hasim]
      rfl
    · show s.history.received ++ s.asim.owes thread _ = _
      rw [hasim]
      exact hexpected.symm
    · show s.asim.Read _
      rw [hasim]
      exact h.pseudo
    · intro hnone
      have hawaits : s.asim.awaits = some pr := by
        rw [hasim]
        rfl
      rw [show s.asim.awaits = none from hnone] at hawaits
      cases hawaits
    · intro pr' hawaits
      have hpr : s.asim.awaits = some pr := by
        rw [hasim]
        rfl
      obtain rfl := Option.some.inj (hpr.symm.trans hawaits)
      refine ⟨⟨hawaited.held, hawaited.asked, hacked, rfl, rfl⟩, ⟨hcpu, hpriority⟩, ?_, ?_⟩
      · show s.slot.head.msg = _
        rw [hhead]
        exact hmsg
      · show s.history.answers ++ [(pr, s.slot.body.d)] = _
        rw [hbody]
        exact hloads

/-- A change is pending from now on. -/
theorem setNew (h : Running thread s) {k : Change} {x : BitVec 32} {flags : Flags}
    (hclient : s.client = .setNew k x flags) :
    Running thread ({ s.setFlags flags with history := s.history.setPending x k }.goto .idle) := by
  have hwrote := h.wrote
  have hvalues := h.values
  have hsettled := h.settled (by rw [hclient]; rfl)
  have hempty := h.empty hclient rfl
  rw [hclient] at hwrote hvalues
  obtain ⟨hvalue, rfl⟩ := hwrote
  constructor
  · cases k <;> exact h.error
  · exact .inl hempty
  · rfl
  · cases k <;> exact h.received
  · show (s.slot.flags.setNew true k).pseudo_packet = false
    rw [Flags.pseudo_packet_setNew]
    exact h.pseudo
  · intro k'
    show (s.slot.flags.setNew true k).new k' = ((s.history.setPending x k).pending k').isSome
    rw [Flags.new_setNew, History.pending_setPending, h.new]
    split <;> rfl
  · intro k' x' hpending _
    change (s.history.setPending x k).pending k' = some x' at hpending
    rw [History.pending_setPending] at hpending
    show s.slot.value k' = x'
    by_cases hk : k = k'
    · rw [if_pos hk] at hpending
      obtain rfl := Option.some.inj hpending
      subst hk
      exact hvalue
    · rw [if_neg hk] at hpending
      exact hvalues k' x' hpending (decide_eq_false hk)
  · trivial
  · exact fun _ => hsettled.setPending x k
  · intro c hc
    cases hc

/-- The value of a change is there before its flag. -/
theorem putChange (h : Running thread s) {k : Change} {x : BitVec 32}
    (hclient : s.client = .putChange k x) :
    Running thread ({ s with slot := s.slot.setValue x k }.goto (.getNew k x)) := by
  refine h.write hclient rfl rfl rfl (s.slot.state_setValue x k) ?_ ?_ ?_ ?_
  · rw [Slot.flags_setValue]
  · intro k'
    rw [Slot.flags_setValue]
  · intro k' hchanges
    rw [Slot.value_setValue, if_neg (of_decide_eq_false hchanges)]
    exact ⟨rfl, rfl⟩
  · show (s.slot.setValue x k).value k = x
    rw [Slot.value_setValue, if_pos rfl]

theorem clientStep (h : Running thread s) (hanswers : s.Answers) {load : BitVec 64}
    (hstep : s.clientStep thread load = some t) : Turn thread t := by
  have hwrote := h.wrote
  unfold State.clientStep at hstep
  unfold State.Answers at hanswers
  cases hclient : s.client with
  | idle => rw [hclient] at hstep; cases hstep
  | dead => rw [hclient] at hstep; cases hstep
  | testEnabled c =>
      rw [hclient] at hstep hanswers
      cases hstep
      exact .running (h.test hclient rfl rfl (fun _ => rfl) hanswers rfl rfl trivial)
  | sendEvent c =>
      rw [hclient] at hstep hanswers
      cases hstep
      exact .running (h.test hclient rfl rfl (fun _ => rfl) hanswers rfl rfl trivial)
  | testSkip c =>
      rw [hclient] at hstep hanswers
      cases hstep
      by_cases hskip : s.control.skipEvents = 0
      · rw [if_pos hskip]
        exact .running (h.goto hclient rfl rfl rfl (fun _ _ => rfl) trivial)
      · rw [if_neg hskip]
        refine .running (h.goto hclient rfl rfl rfl (fun _ _ => rfl) ?_)
        by_contra hdepth
        exact hskip (hanswers hdepth)
  | decSkip c =>
      rw [hclient] at hstep hwrote
      cases hstep
      exact .running (h.goto hclient rfl rfl rfl (fun _ _ => rfl) hwrote)
  | putSkip c skipEvents =>
      rw [hclient] at hstep hwrote
      cases hstep
      exact .running ((h.control { s.control with skipEvents := skipEvents }).returned hclient rfl
        (answering_of_depth rfl hwrote) fun _ => rfl)
  | getConsumed c =>
      rw [hclient] at hstep
      cases hstep
      exact .running (h.goto hclient rfl rfl rfl (fun _ _ => rfl) rfl)
  | clearConsumed c flags =>
      rw [hclient] at hstep hwrote
      cases hstep
      obtain rfl := hwrote
      exact .running (h.write hclient rfl rfl rfl rfl rfl (fun k => by cases k <;> rfl)
        (fun _ _ => ⟨rfl, rfl⟩) trivial)
  | putHead c =>
      rw [hclient] at hstep
      cases hstep
      exact .running (h.write hclient rfl rfl rfl rfl rfl (fun _ => rfl) (fun _ _ => ⟨rfl, rfl⟩)
        rfl)
  | putBody c =>
      rw [hclient] at hstep hwrote
      cases hstep
      exact .running (h.write hclient rfl rfl rfl rfl rfl (fun _ => rfl) (fun _ _ => ⟨rfl, rfl⟩)
        ⟨hwrote, rfl⟩)
  | putSent c =>
      rw [hclient] at hstep hwrote
      cases hstep
      exact .running ((h.control { s.control with sentEvent := true }).goto hclient rfl rfl rfl
        (fun _ _ => rfl) hwrote)
  | testEmpty c =>
      rw [hclient] at hstep hwrote
      have haccepts : s.slot.state.accepts .EVENT_READY = true := by
        rw [h.empty hclient rfl]
        rfl
      dsimp only at hstep
      rw [if_pos haccepts] at hstep
      cases hstep
      exact .running (h.goto hclient rfl rfl rfl (fun _ _ => rfl) hwrote)
  | setReady c =>
      rw [hclient] at hstep
      cases hstep
      exact .ready (h.setReady hclient)
  | setEmpty c =>
      rw [hclient] at hstep
      cases hstep
      have hempty := h.empty hclient rfl
      exact .running (h.write hclient rfl Call.owns_returned Call.answering_returned
        hempty.symm rfl (fun _ => rfl) (fun _ _ => ⟨rfl, rfl⟩) (Call.wrote_returned _))
  | testDead =>
      rw [hclient] at hstep
      have haccepts : s.slot.state.accepts .THREAD_DEAD = true := by
        rw [h.empty hclient rfl]
        rfl
      dsimp only at hstep
      rw [if_pos haccepts] at hstep
      cases hstep
      exact .running (h.goto hclient rfl rfl rfl (fun _ _ => rfl) trivial)
  | setDead =>
      rw [hclient] at hstep
      cases hstep
      have hvalues := h.values
      rw [hclient] at hvalues
      have hsettled := h.settled (by rw [hclient]; rfl)
      exact .running ⟨h.error, .inr ⟨rfl, rfl⟩, rfl, h.received, h.pseudo, h.new,
        fun k x hpending _ => hvalues k x hpending rfl, trivial, fun _ => hsettled,
        fun c hc => by cases hc⟩
  | testChange k x =>
      rw [hclient] at hstep
      dsimp only at hstep
      rw [if_pos (h.empty hclient rfl)] at hstep
      cases hstep
      exact .running (h.goto hclient rfl rfl rfl (fun _ _ => rfl) trivial)
  | putChange k x =>
      rw [hclient] at hstep
      cases hstep
      exact .running (h.putChange hclient)
  | getNew k x =>
      rw [hclient] at hstep hwrote
      cases hstep
      exact .running (h.goto hclient rfl rfl rfl (fun _ hk => hk) ⟨hwrote, rfl⟩)
  | setNew k x flags =>
      rw [hclient] at hstep
      cases hstep
      exact .running (h.setNew hclient)
  | _ =>
      have howns := h.owns
      rw [hclient] at howns
      cases howns

end Running

/-! ### The slot is the thread's, and has a response -/

namespace Acked

/-- The thread reads the response. -/
theorem goto (h : Acked thread s) {pc : ClientPc} (hreads : pc.Reads s.slot)
    (hloaded : pc.loaded = s.client.loaded) : Acked thread (s.goto pc) where
  error := h.error
  state := h.state
  newCpu := h.newCpu
  newPriority := h.newPriority
  received := h.received
  pseudo := h.pseudo
  new := h.new
  reads := hreads
  loads := by
    show s.history.answers ++ pc.loaded = s.history.loads
    rw [hloaded]
    exact h.loads
  response := h.response

theorem pending (h : Acked thread s) (k : Change) : s.history.pending k = none := by
  cases k with
  | cpu_id => exact h.newCpu
  | priority => exact h.newPriority

theorem flags_new (h : Acked thread s) (k : Change) :
    s.slot.flags.new k = (s.history.pending k).isSome := by
  rw [h.pending k]
  cases k with
  | cpu_id => exact h.new.1
  | priority => exact h.new.2

theorem probe (h : Acked thread s) (hprobe : s.slot.response = .PROBE) :
    s.asim = .recvEvent (.probe s.slot.probe) ∧ Awaited s.history s.slot.probe ∧
      s.slot.probe.legal = true := by
  rcases h.response with ⟨hack, -⟩ | ⟨-, hawaits⟩
  · cases hprobe.symm.trans hack
  · exact hawaits

/-- A slot that was acknowledged is emptied. -/
theorem running (h : Acked thread s) {pc : ClientPc} (howns : pc.owns = true)
    (hwrote : pc.Wrote { s.slot with state := .EMPTY })
    (hsettled : pc.answering = none → Settled s.asim s.history)
    (hanswering : ∀ c, pc.answering = some c → Answering s.asim s.history c) :
    Running thread ((s.setState .EMPTY).goto pc) where
  error := h.error
  state := .inl rfl
  owns := howns
  received := h.received
  pseudo := h.pseudo
  new := h.flags_new
  values := by
    intro k x hpending
    have hnone := (h.pending k).symm.trans hpending
    cases hnone
  wrote := hwrote
  settled := hsettled
  answering := hanswering

theorem clientStep (h : Acked thread s) {load : BitVec 64}
    (hstep : s.clientStep thread load = some t) : Turn thread t := by
  have hreads := h.reads
  unfold State.clientStep at hstep
  cases hclient : s.client with
  | waitAck c =>
      rw [hclient] at hstep
      cases hstep
      rw [if_pos h.state]
      exact .acked (h.goto trivial (by rw [hclient]; rfl))
  | getResponse c =>
      rw [hclient] at hstep
      cases hstep
      exact .acked (h.goto rfl (by rw [hclient]; rfl))
  | getProbe c msg =>
      rw [hclient] at hstep hreads
      obtain rfl : msg = s.slot.response := hreads
      have hloaded : s.client.loaded = [] := by
        rw [hclient]
        rfl
      rcases h.response with ⟨hack, -⟩ | ⟨hprobe, -⟩
      · rw [hack] at hstep
        cases hstep
        exact .acked (h.goto hack hloaded.symm)
      · rw [hprobe] at hstep
        cases hstep
        exact .acked (h.goto ⟨hprobe, rfl⟩ hloaded.symm)
  | load c pr =>
      rw [hclient] at hstep hreads
      obtain ⟨hprobe, rfl⟩ := hreads
      obtain ⟨hasim, hawaited, hlegal⟩ := h.probe hprobe
      have hloads : s.history.answers = s.history.loads := by
        have hloads := h.loads
        rw [hclient] at hloads
        exact (List.append_nil _).symm.trans hloads
      dsimp only at hstep
      rw [if_pos hlegal] at hstep
      cases hstep
      exact .acked {
        error := h.error
        state := h.state
        newCpu := h.newCpu
        newPriority := h.newPriority
        received := h.received
        pseudo := h.pseudo
        new := h.new
        reads := ⟨hprobe, rfl⟩
        loads := congrArg (· ++ _) hloads
        response := .inr ⟨hprobe, hasim, ⟨hawaited.held, hawaited.asked, hawaited.acked,
          hawaited.newCpu, hawaited.newPriority⟩, hlegal⟩ }
  | setEmptyProbe c pr value =>
      rw [hclient] at hstep hreads
      obtain ⟨hprobe, rfl⟩ := hreads
      obtain ⟨hasim, hawaited, -⟩ := h.probe hprobe
      have hloads := h.loads
      rw [hclient] at hloads
      cases hstep
      refine .running (h.running rfl trivial ?_ ?_)
      · intro hnone
        cases hnone
      · intro c' hc'
        obtain rfl := Option.some.inj hc'
        exact ⟨⟨_, hasim, hawaited, hloads⟩, rfl⟩
  | setEmpty c =>
      rw [hclient] at hstep hreads
      cases hstep
      have hsettled : Settled s.asim s.history := by
        rcases h.response with ⟨-, hsettled⟩ | ⟨hprobe, -⟩
        · exact hsettled
        · cases hprobe.symm.trans hreads
      refine .running (h.running Call.owns_returned (Call.wrote_returned _) (fun _ => hsettled) ?_)
      intro c' hc'
      rw [Call.answering_returned] at hc'
      cases hc'
  | _ =>
      rw [hclient] at hreads
      cases hreads

end Acked

/-! ### Any turn -/

/-- Until there is a response, the thread waits. -/
theorem clientStep_waitAck {c : Call} (hclient : s.client = .waitAck c)
    (hstate : s.slot.state ≠ .ASIM_ACK) {load : BitVec 64}
    (hstep : s.clientStep thread load = some t) : t = s := by
  unfold State.clientStep at hstep
  rw [hclient] at hstep
  dsimp only at hstep
  rw [if_neg hstate, ← hclient] at hstep
  exact (Option.some.inj hstep).symm

theorem Turn.clientStep (h : Turn thread s) (hanswers : s.Answers) {load : BitVec 64}
    (hstep : s.clientStep thread load = some t) : Turn thread t := by
  cases h with
  | running h => exact h.clientStep hanswers hstep
  | ready h =>
      obtain ⟨c, hclient⟩ := h.client
      rw [clientStep_waitAck hclient (by rw [h.state]; decide) hstep]
      exact .ready h
  | consumed real h =>
      obtain ⟨c, hclient⟩ := h.client
      rw [clientStep_waitAck hclient (by rw [h.state]; decide) hstep]
      exact .consumed real h
  | acked h => exact h.clientStep hstep

end AsimFeeder.Mingo.Handshake
