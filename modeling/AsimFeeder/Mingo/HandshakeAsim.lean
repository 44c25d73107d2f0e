/-
What Asim does in the handshake: from a turn to a turn.

An event is received with its changes first, each as an event of its own that leaves the slot
with the event still to come.
-/
import AsimFeeder.Mingo.HandshakeTurns

namespace AsimFeeder.Mingo.Handshake

variable {thread : BitVec 32} {s t : State}

/-! ### The slot is the thread's -/

/-- Asim looks for an event that is not there. -/
theorem asimStep_rests (hrests : s.asim.rests = true) (hstate : s.slot.state ≠ .EVENT_READY)
    (hstep : s.asimStep thread = some t) : t = s.asimGoto .idle := by
  unfold State.asimStep at hstep
  cases hasim : s.asim with
  | idle => rw [hasim] at hstep; cases hstep
  | getState take =>
      rw [hasim] at hstep
      dsimp only at hstep
      rw [if_neg fun hready => hstate hready.1] at hstep
      exact (Option.some.inj hstep).symm
  | _ => rw [hasim] at hrests; cases hrests

/-- Asim waits for an answer that is not there. -/
theorem asimStep_probe {pr : Probe} (hasim : s.asim = .recvEvent (.probe pr))
    (hstate : s.slot.state ≠ .EVENT_READY) (hstep : s.asimStep thread = some t) : t = s := by
  unfold State.asimStep at hstep
  rw [hasim] at hstep
  dsimp only at hstep
  rw [if_neg hstate] at hstep
  exact (Option.some.inj hstep).symm

theorem Settled.idle {asim : AsimPc} {h : History} (hsettled : Settled asim h) :
    Settled .idle h :=
  ⟨rfl, hsettled.held, hsettled.loads, hsettled.asked, hsettled.acked⟩

theorem Running.asimStep (h : Running thread s) (hstep : s.asimStep thread = some t) :
    Turn thread t := by
  have hstate : s.slot.state ≠ .EVENT_READY := by
    rcases h.state with hempty | ⟨hdead, -⟩
    · rw [hempty]
      decide
    · rw [hdead]
      decide
  cases hanswering : s.client.answering with
  | none =>
      have hsettled := h.settled hanswering
      rw [asimStep_rests hsettled.rests hstate hstep]
      refine .running ⟨h.error, h.state, h.owns, h.received, h.pseudo, h.new, h.values, h.wrote,
        fun _ => hsettled.idle, fun c hc => ?_⟩
      cases hanswering.symm.trans hc
  | some c =>
      obtain ⟨⟨pr, hasim, -⟩, -⟩ := h.answering c hanswering
      rw [asimStep_probe hasim hstate hstep]
      exact .running h

theorem Acked.asimStep (h : Acked thread s) (hstep : s.asimStep thread = some t) :
    Turn thread t := by
  have hstate : s.slot.state ≠ .EVENT_READY := by
    rw [h.state]
    decide
  rcases h.response with ⟨hack, hsettled⟩ | ⟨-, hasim, -⟩
  · rw [asimStep_rests hsettled.rests hstate hstep]
    exact .acked ⟨h.error, h.state, h.newCpu, h.newPriority, h.received, h.pseudo, h.new, h.reads,
      h.loads, .inl ⟨hack, hsettled.idle⟩⟩
  · rw [asimStep_probe hasim hstate hstep]
    exact .acked h

/-! ### The slot is Asim's, and has an event -/

namespace Ready

/-- Asim reads on. -/
theorem goto (h : Ready thread s) {pc pc' : AsimPc} (hasim : s.asim = pc)
    (hreads : pc'.reads = true) (howes : pc'.owes thread s.slot = pc.owes thread s.slot)
    (hread : pc'.Read s.slot) (hawaits : pc'.awaits = pc.awaits) :
    Ready thread (s.asimGoto pc') := by
  subst hasim
  constructor
  · exact h.error
  · exact h.state
  · exact h.client
  · exact h.newCpu
  · exact h.newPriority
  · exact h.acked
  · exact hreads
  · show s.history.received ++ pc'.owes thread s.slot = _
    rw [howes]
    exact h.owes
  · exact hread
  · show pc'.awaits = none → _
    rw [hawaits]
    exact h.event
  · show ∀ pr, pc'.awaits = some pr → _
    rw [hawaits]
    exact h.probe

/-- What is received for a probe has no changes before it. -/
theorem event_of_new (h : Ready thread s) {k : Change} {w : Want}
    (hawaits : ∀ pr, w = .probe pr → s.asim.awaits = some pr)
    (hnew : s.slot.flags.new k = true) : w = .event := by
  cases w with
  | event => rfl
  | probe pr =>
      obtain ⟨-, ⟨hcpu, hpriority⟩, -⟩ := h.probe pr (hawaits pr rfl)
      cases k with
      | cpu_id => cases hcpu.symm.trans hnew
      | priority => cases hpriority.symm.trans hnew

/-- A change is taken from the slot. -/
theorem clearNew (h : Ready thread s) {w : Want} {k : Change} {x : BitVec 32} {flags : Flags}
    (hasim : s.asim = .clearNew w k x flags) :
    Ready thread ((s.setFlags flags).asimGoto (.getPseudo w (pseudoPacket thread k x))) := by
  have hread := h.read
  have howes := h.owes
  have hevent := h.event
  rw [hasim] at hread howes hevent
  obtain ⟨hpseudo, ⟨hnew, hfirst⟩, hvalue, rfl⟩ := hread
  have hw : w = .event := by
    refine h.event_of_new ?_ hnew
    rintro pr rfl
    rw [hasim]
    rfl
  subst hw
  have hclear : s.slot.owes thread = pseudoPacket thread k x ::
      Slot.owes thread { s.slot with flags := s.slot.flags.setNew false k } := by
    cases k with
    | cpu_id =>
        have hcpu : s.slot.flags.new_cpu_id = true := hnew
        have hx : s.slot.cpu_id = x := hvalue
        rw [Slot.owes, if_pos hcpu, hx]
        rfl
    | priority =>
        have hpriority : s.slot.flags.new_priority = true := hnew
        have hcpu : s.slot.flags.new_cpu_id = false := hfirst rfl
        have hx : s.slot.priority = x := hvalue
        simp [Slot.owes, Flags.setNew, hpriority, hcpu, hx]
  have hflag : (s.slot.flags.setNew false k).pseudo_packet = false := by
    rw [← hpseudo]
    cases k <;> rfl
  constructor
  · exact h.error
  · exact h.state
  · exact h.client
  · exact h.newCpu
  · exact h.newPriority
  · exact h.acked
  · rfl
  · exact (congrArg (s.history.received ++ ·) hclear.symm).trans howes
  · exact ⟨hflag, rfl⟩
  · exact hevent
  · intro pr hpr
    cases hpr

/-- The event of a change is received. -/
theorem setPseudo (h : Ready thread s) {w : Want} {packet : Packet} {flags : Flags}
    (hasim : s.asim = .setPseudo w packet flags) :
    Ready thread ((s.setFlags flags).gotPacket w packet false) := by
  have hread := h.read
  have howes := h.owes
  have hevent := h.event
  rw [hasim] at hread howes hevent
  obtain ⟨hpseudo, rfl, rfl⟩ := hread
  constructor
  · exact h.error
  · exact h.state
  · exact h.client
  · exact h.newCpu
  · exact h.newPriority
  · exact h.acked
  · rfl
  · exact (List.append_assoc _ _ _).trans howes
  · exact ⟨rfl, rfl⟩
  · exact hevent
  · intro pr hpr
    cases hpr

theorem owes_noNew {slot : Slot} (h : AsimPc.NoNew slot) :
    slot.owes thread = [⟨slot.head, slot.body⟩] := by
  rw [Slot.owes, h.1, h.2]
  rfl

/-- Asim notes that it reads the packet that was sent. -/
theorem setConsumed (h : Ready thread s) {w : Want} {flags : Flags}
    (hasim : s.asim = .setConsumed w flags) :
    Ready thread ((s.setFlags flags).asimGoto (.getHead w)) := by
  have hread := h.read
  have howes := h.owes
  have hevent := h.event
  have hprobe := h.probe
  rw [hasim] at hread howes hevent hprobe
  obtain ⟨hpseudo, hnoNew, rfl⟩ := hread
  have hawaits : AsimPc.awaits (.getHead w) =
      AsimPc.awaits (.setConsumed w { s.slot.flags with packet_consumed := true }) := by
    cases w <;> rfl
  constructor
  · exact h.error
  · exact h.state
  · exact h.client
  · exact h.newCpu
  · exact h.newPriority
  · exact h.acked
  · rfl
  · exact howes
  · exact ⟨hpseudo, hnoNew, rfl⟩
  · show AsimPc.awaits (.getHead w) = none → _
    rw [hawaits]
    exact hevent
  · show ∀ pr, AsimPc.awaits (.getHead w) = some pr → _
    rw [hawaits]
    exact hprobe

/-- The packet that was sent is received. -/
theorem getBody (h : Ready thread s) {w : Want} {head : Head} (hasim : s.asim = .getBody w head) :
    Ready thread (s.gotPacket w ⟨head, s.slot.body⟩ true) := by
  have hread := h.read
  have howes := h.owes
  have hevent := h.event
  have hprobe := h.probe
  rw [hasim] at hread howes hevent hprobe
  obtain ⟨hpseudo, hnoNew, hconsumed, rfl⟩ := hread
  have hreceived : s.history.received ++ [⟨s.slot.head, s.slot.body⟩] ++ [] =
      s.history.expected thread := by
    rw [List.append_nil, ← owes_noNew hnoNew]
    exact howes
  cases w with
  | event =>
      constructor
      · exact h.error
      · exact h.state
      · exact h.client
      · exact h.newCpu
      · exact h.newPriority
      · exact h.acked
      · rfl
      · exact hreceived
      · exact ⟨hpseudo, hnoNew, hconsumed, rfl⟩
      · exact hevent
      · intro pr hpr
        cases hpr
  | probe pr =>
      obtain ⟨hawaited, -, hmsg, hloads⟩ := hprobe pr rfl
      have hgot : s.gotPacket (.probe pr) ⟨s.slot.head, s.slot.body⟩ true =
          { s with history := s.history.noteReceived ⟨s.slot.head, s.slot.body⟩ }.asimGoto
            (.testReady (.probe pr) ⟨s.slot.head, s.slot.body⟩ true) := if_pos hmsg
      rw [hgot]
      constructor
      · exact h.error
      · exact h.state
      · exact h.client
      · exact h.newCpu
      · exact h.newPriority
      · exact h.acked
      · rfl
      · exact hreceived
      · exact ⟨hpseudo, hnoNew, hconsumed, rfl⟩
      · intro hnone
        cases hnone
      · intro pr' hpr
        obtain rfl := Option.some.inj hpr
        exact ⟨⟨hawaited.held, hawaited.asked, hawaited.acked, hawaited.newCpu,
          hawaited.newPriority⟩, hnoNew, hmsg, hloads⟩

/-- Asim has the packet. -/
theorem setTaken (h : Ready thread s) {w : Want} {packet : Packet} {real : Bool}
    (hasim : s.asim = .setTaken w packet real) :
    Consumed thread ((s.setState .ASIM_CONSUMED).taken w packet real) real := by
  have hread := h.read
  have howes := h.owes
  have hevent := h.event
  have hprobe := h.probe
  rw [hasim] at hread howes hevent hprobe
  have hpseudo : s.slot.flags.pseudo_packet = !real := by
    cases real with
    | false => exact hread.1
    | true => exact hread.1
  have hconsumed : real = true → s.slot.flags.packet_consumed = true ∧ AsimPc.NoNew s.slot := by
    rintro rfl
    exact ⟨hread.2.2.1, hread.2.1⟩
  have hleft : s.history.received ++ (if real then [] else s.slot.owes thread) =
      s.history.expected thread := by
    cases real with
    | false => exact howes
    | true => exact howes
  cases w with
  | event =>
      obtain ⟨-, hloads, hasked⟩ := hevent (by rfl)
      constructor
      · exact h.error
      · rfl
      · exact h.client
      · exact h.newCpu
      · exact h.newPriority
      · exact h.acked
      · rfl
      · rfl
      · exact hloads
      · exact (List.append_nil _).trans hasked
      · exact hleft
      · exact hconsumed
      · exact hpseudo.trans (Bool.and_true _).symm
      · trivial
  | probe pr =>
      obtain ⟨hawaited, -, -, hloads⟩ := hprobe pr (by rfl)
      have hreal : real = true ∧ packet.body = s.slot.body := by
        cases real with
        | false => cases hread.2
        | true =>
            rw [hread.2.2.2]
            exact ⟨rfl, rfl⟩
      obtain ⟨rfl, hbody⟩ := hreal
      constructor
      · exact h.error
      · rfl
      · exact h.client
      · exact h.newCpu
      · exact h.newPriority
      · exact h.acked
      · exact hawaited.held
      · rfl
      · show s.history.answers ++ [(pr, packet.body.d)] = s.history.loads
        rw [hbody]
        exact hloads
      · show (s.history.answers ++ [(pr, packet.body.d)]).map Prod.fst ++ [] = s.history.asked
        rw [List.append_nil, List.map_append]
        exact hawaited.asked
      · exact hleft
      · exact hconsumed
      · exact hpseudo.trans (Bool.and_true _).symm
      · trivial

theorem asimStep (h : Ready thread s) (hstep : s.asimStep thread = some t) : Turn thread t := by
  have hread := h.read
  unfold State.asimStep at hstep
  cases hasim : s.asim with
  | idle => rw [hasim] at hstep; cases hstep
  | getState take =>
      rw [hasim] at hstep hread
      cases hstep
      by_cases htake : s.slot.state = .EVENT_READY ∧ take = true
      · rw [if_pos htake]
        exact .ready (h.goto hasim rfl rfl hread rfl)
      · rw [if_neg htake]
        exact .ready (h.goto hasim rfl rfl hread rfl)
  | recvEvent w =>
      rw [hasim] at hstep hread
      dsimp only at hstep
      rw [if_pos h.state] at hstep
      cases hstep
      exact .ready (h.goto hasim rfl rfl hread (by cases w <;> rfl))
  | testNew w k =>
      rw [hasim] at hstep hread
      cases k with
      | cpu_id =>
          cases hstep
          by_cases hnew : s.slot.flags.new_cpu_id = true
          · rw [if_pos hnew]
            refine .ready (h.goto hasim rfl rfl ⟨hread, hnew, ?_⟩ (by cases w <;> rfl))
            intro hk
            cases hk
          · rw [if_neg hnew]
            exact .ready (h.goto hasim rfl rfl ⟨hread, Bool.eq_false_iff.mpr hnew⟩
              (by cases w <;> rfl))
      | priority =>
          cases hstep
          by_cases hnew : s.slot.flags.new_priority = true
          · rw [if_pos hnew]
            exact .ready (h.goto hasim rfl rfl ⟨hread.1, hnew, fun _ => hread.2⟩
              (by cases w <;> rfl))
          · rw [if_neg hnew]
            exact .ready (h.goto hasim rfl rfl ⟨hread.1, hread.2, Bool.eq_false_iff.mpr hnew⟩
              (by cases w <;> rfl))
  | getChange w k =>
      rw [hasim] at hstep hread
      cases hstep
      exact .ready (h.goto hasim rfl rfl ⟨hread.1, hread.2, rfl⟩ (by cases w <;> rfl))
  | getNew w k x =>
      rw [hasim] at hstep hread
      cases hstep
      exact .ready (h.goto hasim rfl rfl ⟨hread.1, hread.2.1, hread.2.2, rfl⟩ (by cases w <;> rfl))
  | clearNew w k x flags =>
      rw [hasim] at hstep
      cases hstep
      exact .ready (h.clearNew hasim)
  | getPseudo w packet =>
      rw [hasim] at hstep hread
      cases hstep
      exact .ready (h.goto hasim rfl rfl ⟨hread.1, hread.2, rfl⟩ (by cases w <;> rfl))
  | setPseudo w packet flags =>
      rw [hasim] at hstep
      cases hstep
      exact .ready (h.setPseudo hasim)
  | getConsumed w =>
      rw [hasim] at hstep hread
      cases hstep
      exact .ready (h.goto hasim rfl rfl ⟨hread.1, hread.2, rfl⟩ (by cases w <;> rfl))
  | setConsumed w flags =>
      rw [hasim] at hstep
      cases hstep
      exact .ready (h.setConsumed hasim)
  | getHead w =>
      rw [hasim] at hstep hread
      cases hstep
      exact .ready (h.goto hasim rfl rfl ⟨hread.1, hread.2.1, hread.2.2, rfl⟩ (by cases w <;> rfl))
  | getBody w head =>
      rw [hasim] at hstep hread
      obtain rfl : head = s.slot.head := hread.2.2.2
      cases hstep
      exact .ready (h.getBody hasim)
  | testReady w packet real =>
      rw [hasim] at hstep hread
      have haccepts : s.slot.state.accepts .ASIM_CONSUMED = true := by
        rw [h.state]
        rfl
      dsimp only at hstep
      rw [if_pos haccepts] at hstep
      cases hstep
      cases real with
      | false => exact .ready (h.goto hasim rfl rfl hread (by cases w <;> rfl))
      | true => exact .ready (h.goto hasim rfl rfl hread (by cases w <;> rfl))
  | setTaken w packet real =>
      rw [hasim] at hstep
      cases hstep
      exact .consumed real (h.setTaken hasim)
  | _ =>
      have hreads := h.reads
      rw [hasim] at hreads
      cases hreads

end Ready

/-! ### The slot is Asim's, and has an event that was received -/

namespace Consumed

variable {real : Bool}

/-- Asim writes to the response. -/
theorem write (h : Consumed thread s real) {pc pc' : AsimPc} {slot : Slot} (hasim : s.asim = pc)
    (hresponds : pc'.responds = true) (hasks : pc'.asks = pc.asks) (hagain : pc'.again = pc.again)
    (hstate : slot.state = s.slot.state) (hflags : slot.flags = s.slot.flags)
    (howes : slot.owes thread = s.slot.owes thread) (hresponded : pc'.Responded slot real) :
    Consumed thread ({ s with slot := slot }.asimGoto pc') real := by
  subst hasim
  constructor
  · exact h.error
  · exact hstate.trans h.state
  · exact h.client
  · exact h.newCpu
  · exact h.newPriority
  · exact h.acked
  · exact h.held
  · exact hresponds
  · exact h.loads
  · show _ ++ pc'.asks.toList = _
    rw [hasks]
    exact h.asked
  · show _ ++ (if real then [] else slot.owes thread) = _
    rw [howes]
    exact h.owes
  · show _ → slot.flags.packet_consumed = true ∧ slot.flags.new_cpu_id = false ∧
      slot.flags.new_priority = false
    rw [hflags]
    exact h.consumed
  · show slot.flags.pseudo_packet = (!real && !pc'.again)
    rw [hflags, hagain]
    exact h.pseudo
  · exact hresponded

/-- Only where it is in its calls changes. -/
theorem goto (h : Consumed thread s real) {pc pc' : AsimPc} (hasim : s.asim = pc)
    (hresponds : pc'.responds = true) (hasks : pc'.asks = pc.asks) (hagain : pc'.again = pc.again)
    (hresponded : pc'.Responded s.slot real) : Consumed thread (s.asimGoto pc') real :=
  h.write hasim hresponds hasks hagain rfl rfl rfl hresponded

/-- The event that stands for a change is done with. -/
theorem clearPseudo (h : Consumed thread s false) {r : Response} {flags : Flags}
    (hasim : s.asim = .clearPseudo r flags) :
    Consumed thread ((s.setFlags flags).asimGoto (.setAgain r)) false := by
  have hresponded := h.responded
  have hasked := h.asked
  rw [hasim] at hresponded hasked
  obtain ⟨-, ⟨garbage, rfl⟩, rfl⟩ := hresponded
  constructor
  · exact h.error
  · exact h.state
  · exact h.client
  · exact h.newCpu
  · exact h.newPriority
  · exact h.acked
  · exact h.held
  · rfl
  · exact h.loads
  · exact hasked
  · exact h.owes
  · intro hfalse
    cases hfalse
  · rfl
  · exact ⟨rfl, garbage, rfl⟩

/-- The event that was sent is ready again. -/
theorem setAgain (h : Consumed thread s real) {r : Response} (hasim : s.asim = .setAgain r) :
    Ready thread ((s.setState .EVENT_READY).responded r) := by
  have hresponded := h.responded
  have hasked := h.asked
  have hpseudo := h.pseudo
  have hheld := h.held
  rw [hasim] at hresponded hasked hpseudo
  obtain ⟨rfl, garbage, rfl⟩ := hresponded
  have hacked : s.history.noteAcked.acked = s.history.acked := by
    rw [History.noteAcked, hheld]
    rfl
  constructor
  · exact h.error
  · rfl
  · exact h.client
  · exact h.newCpu
  · exact h.newPriority
  · show s.history.noteAcked.acked + 1 = s.history.real
    rw [hacked]
    exact h.acked
  · rfl
  · exact h.owes
  · exact hpseudo
  · exact fun _ => ⟨rfl, h.loads, (List.append_nil _).symm.trans hasked⟩
  · intro pr hpr
    cases hpr

/-- The thread may go on. -/
theorem setAck (h : Consumed thread s real) {r : Response} (hasim : s.asim = .setAck r) :
    Acked thread ((s.setState .ASIM_ACK).responded r) := by
  have hresponded := h.responded
  have hasked := h.asked
  have hheld := h.held
  rw [hasim] at hresponded hasked
  obtain ⟨rfl, hlegal, hmsg, hprobe⟩ := hresponded
  obtain ⟨c, hclient⟩ := h.client
  have hreceived : s.history.received = s.history.expected thread :=
    (List.append_nil _).symm.trans h.owes
  have hloads : s.history.answers ++ s.client.loaded = s.history.loads := by
    rw [hclient]
    exact (List.append_nil _).trans h.loads
  cases r with
  | ack garbage =>
      have hacked : s.history.noteAcked.acked = s.history.real := by
        rw [History.noteAcked, hheld, if_pos rfl]
        exact h.acked
      have hsettled : Settled .idle s.history.noteAcked :=
        ⟨rfl, rfl, h.loads, (List.append_nil _).symm.trans hasked, hacked⟩
      constructor
      · exact h.error
      · rfl
      · exact h.newCpu
      · exact h.newPriority
      · exact hreceived
      · exact h.pseudo
      · exact (h.consumed rfl).2
      · show s.client.Reads _
        rw [hclient]
        trivial
      · exact hloads
      · exact .inl ⟨hmsg, hsettled⟩
  | probe pr =>
      have hawaited : Awaited s.history pr := ⟨hheld, hasked, h.acked, h.newCpu, h.newPriority⟩
      have hpr : s.slot.probe = pr := hprobe
      constructor
      · exact h.error
      · rfl
      · exact h.newCpu
      · exact h.newPriority
      · exact hreceived
      · exact h.pseudo
      · exact (h.consumed rfl).2
      · show s.client.Reads _
        rw [hclient]
        trivial
      · exact hloads
      · refine .inr ⟨hmsg, ?_, ?_, ?_⟩
        · show AsimPc.recvEvent (.probe pr) = .recvEvent (.probe s.slot.probe)
          rw [hpr]
        · show Awaited s.history s.slot.probe
          rw [hpr]
          exact hawaited
        · show s.slot.probe.legal = true
          rw [hpr]
          exact hlegal pr rfl

theorem asimStep (h : Consumed thread s real) (hstep : s.asimStep thread = some t) :
    Turn thread t := by
  have hresponded := h.responded
  unfold State.asimStep at hstep
  cases hasim : s.asim with
  | idle => rw [hasim] at hstep; cases hstep
  | getState take =>
      rw [hasim] at hstep
      have hstate : ¬ (s.slot.state = .EVENT_READY ∧ take = true) := by
        rw [h.state]
        exact fun hready => by cases hready.1
      dsimp only at hstep
      rw [if_neg hstate] at hstep
      cases hstep
      exact .consumed real (h.goto hasim rfl rfl rfl trivial)
  | testReal pr =>
      rw [hasim] at hstep hresponded
      have hpseudo := h.pseudo
      rw [hresponded.1] at hpseudo
      have hreal : ¬ s.slot.flags.pseudo_packet = true := by
        rw [hpseudo]
        exact Bool.false_ne_true
      dsimp only at hstep
      rw [if_neg hreal] at hstep
      cases hstep
      refine .consumed real (h.goto hasim rfl rfl rfl ?_)
      rintro pr' hpr
      cases hpr
      exact hresponded
  | putResponse r =>
      rw [hasim] at hstep hresponded
      cases hstep
      exact .consumed real (h.write hasim rfl rfl rfl rfl rfl rfl ⟨hresponded, rfl⟩)
  | putProbe r =>
      rw [hasim] at hstep hresponded
      cases hstep
      exact .consumed real (h.write hasim rfl rfl rfl rfl rfl rfl
        ⟨hresponded.1, hresponded.2, rfl⟩)
  | testTaken r =>
      rw [hasim] at hstep hresponded
      have haccepts : s.slot.state.accepts .ASIM_ACK = true := by
        rw [h.state]
        rfl
      dsimp only at hstep
      rw [if_pos haccepts] at hstep
      cases hstep
      exact .consumed real (h.goto hasim rfl rfl rfl hresponded)
  | testPseudo r =>
      rw [hasim] at hstep hresponded
      have hpseudo := h.pseudo
      rw [hasim] at hpseudo
      cases hstep
      cases real with
      | true =>
          have hreal : ¬ s.slot.flags.pseudo_packet = true := by
            rw [hpseudo]
            exact Bool.false_ne_true
          rw [if_neg hreal]
          refine .consumed true (h.goto hasim rfl rfl rfl ⟨rfl, ?_, hresponded.2⟩)
          exact fun pr hpr => (hresponded.1 pr hpr).2
      | false =>
          have hpseudo' : s.slot.flags.pseudo_packet = true := hpseudo
          rw [if_pos hpseudo']
          refine .consumed false (h.goto hasim rfl rfl rfl ⟨rfl, ?_⟩)
          cases r with
          | ack garbage => exact ⟨garbage, rfl⟩
          | probe pr => cases (hresponded.1 pr rfl).1
  | getNotPseudo r =>
      rw [hasim] at hstep hresponded
      cases hstep
      exact .consumed real (h.goto hasim rfl rfl rfl ⟨hresponded.1, hresponded.2, rfl⟩)
  | clearPseudo r flags =>
      rw [hasim] at hstep hresponded
      obtain ⟨rfl, -⟩ := hresponded
      cases hstep
      exact .consumed false (h.clearPseudo hasim)
  | setAgain r =>
      rw [hasim] at hstep
      cases hstep
      exact .ready (h.setAgain hasim)
  | testConsumed r =>
      rw [hasim] at hstep hresponded
      dsimp only at hstep
      rw [if_pos (h.consumed hresponded.1).1] at hstep
      cases hstep
      exact .consumed real (h.goto hasim rfl rfl rfl hresponded)
  | setAck r =>
      rw [hasim] at hstep
      cases hstep
      exact .acked (h.setAck hasim)
  | _ =>
      have hresponds := h.responds
      rw [hasim] at hresponds
      cases hresponds

end Consumed

theorem Turn.asimStep (h : Turn thread s) (hstep : s.asimStep thread = some t) :
    Turn thread t := by
  cases h with
  | running h => exact h.asimStep hstep
  | ready h => exact h.asimStep hstep
  | consumed real h => exact h.asimStep hstep
  | acked h => exact h.asimStep hstep

end AsimFeeder.Mingo.Handshake
