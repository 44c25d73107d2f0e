/-
The correct path of a synthetic thread is a path through the program.

What is replayed, killed and committed, or fetched on the wrong path, leaves the generator
where it is, but for an event that is drawn too early.  Only a fetch that goes on with the
correct path moves it, and then what is generated goes on from where it ended.
-/
import AsimFeeder.Lib.Checks
import AsimFeeder.Synth.PathSteps
import AsimFeeder.Synth.SynthReplay

namespace AsimFeeder.Synth.Routines

open Lib

/-- The correct path is consistent. -/
structure Consistent (s : SynthThread SynthPath PathSyllable) : Prop where
  successors : s.generated.IsChain fun x y => y.pc = x.successor
  nests : ∃ stack, nest s.generated = some stack
  depths : s.gen.pc_stack.length = s.gen.path_stack.length
  fault : s.gen.fault = none

namespace PathRun

open SynthPath

abbrev Thread := SynthThread SynthPath PathSyllable

variable {p : PathParams} {s t u : Thread}

/-- A thread that has not fetched. -/
structure Start (p : PathParams) (s : Thread) : Prop where
  gen : s.gen = .new p
  needJumpToNextPC : s.needJumpToNextPC = true
  new : s.Start

/-- A fetch that goes on with the correct path makes no branch to 0. -/
def Careful (p : PathParams) (s : Thread) : ThreadEvent IADDR → Prop
  | .fetch predicted_pc _ => s.lists.replay = [] → s.needJumpToNextPC = false →
      (s.gen.ready p).get_ipf_pc = predicted_pc → (s.gen.ready p).Lands p
  | .kill _ _ => True
  | .commit _ => True

def Step (p : PathParams) (s t : Thread) : Prop := ∃ e, s.exec (generator p) e = .ok t

def CarefulStep (p : PathParams) (s t : Thread) : Prop :=
  ∃ e, Careful p s e ∧ s.exec (generator p) e = .ok t

/-- What is generated is a path to where the generator is. -/
structure Flows (p : PathParams) (s : Thread) : Prop where
  shape : Shape p s.gen
  place : Done s.gen ∨ Begins p s.gen
  follows : Follows s.gen s.generated
  first : s.needJumpToNextPC = true → s.generated = []

theorem Flows.consistent (h : Flows p s) : Consistent s where
  successors := h.follows.chain
  nests := ⟨_, h.follows.nests⟩
  depths := h.shape.depths
  fault := h.shape.fault

theorem Start.flows (h : Start p s) : Flows p s where
  shape := by rw [h.gen]; exact Shape.new p
  place := by rw [h.gen]; exact .inl ⟨rfl, rfl⟩
  follows := by
    rw [h.gen, h.new.generated]
    exact ⟨.nil, fun x hx => (by cases hx), rfl⟩
  first := fun _ => h.new.generated

/-- Nothing is generated. -/
structure Keeps (s t : Thread) : Prop where
  gen : t.gen = s.gen
  generated : t.generated = s.generated
  needJumpToNextPC : t.needJumpToNextPC = s.needJumpToNextPC

theorem Keeps.flows (h : Keeps s t) (hs : Flows p s) : Flows p t where
  shape := by rw [h.gen]; exact hs.shape
  place := by rw [h.gen]; exact hs.place
  follows := by rw [h.gen, h.generated]; exact hs.follows
  first := by rw [h.generated, h.needJumpToNextPC]; exact hs.first

theorem keeps_issue {uid : Nat} (h : s.issue_synth_inst_from_replay (generator p) uid = .ok t) :
    Keeps s t := by
  unfold SynthThread.issue_synth_inst_from_replay at h
  split at h
  · cases h
  · cases h
    refine ⟨?_, rfl, rfl⟩
    exact ite_self _

theorem keeps_wrongPath {predicted_pc : IADDR}
    (h : s.wrongPath (generator p) predicted_pc = .ok t) : Keeps s t := by
  unfold SynthThread.wrongPath at h
  split at h
  · cases h
  · cases h
    exact ⟨rfl, rfl, rfl⟩

theorem keeps_kill {uid : Nat} {killMe : Bool} (h : s.kill uid killMe = .ok t) : Keeps s t := by
  rw [SynthThread.kill_eq] at h
  split at h
  · cases h
  · cases h
    exact ⟨rfl, rfl, rfl⟩

theorem keeps_commit {uid : Nat} (h : s.commit_skipping_nops (generator p) uid = .ok t) :
    Keeps s t := by
  unfold SynthThread.commit_skipping_nops at h
  split at h
  · cases h
  · cases h
    exact ⟨rfl, rfl, rfl⟩

theorem exists_of_map_ok {ε α β : Type} {f : α → β} {x : Except ε α} {y : β}
    (h : x.map f = .ok y) : ∃ a, x = .ok a ∧ f a = y := by
  cases x with
  | error e => cases h
  | ok a => exact ⟨a, rfl, Except.ok.inj h⟩

/-- Syllables are generated. -/
structure Grows (s : Thread) (xs : List PathSyllable) (gen : SynthPath) (t : Thread) : Prop where
  gen : t.gen = gen
  generated : t.generated = s.generated ++ xs
  needJumpToNextPC : t.needJumpToNextPC = s.needJumpToNextPC

theorem Grows.issue {gen : SynthPath} {xs : List PathSyllable} (h : Grows s xs gen u) {uid : Nat}
    (hissue : u.issue_synth_inst_from_replay (generator p) uid = .ok t) : Grows s xs gen t :=
  have hkeeps := keeps_issue hissue
  ⟨hkeeps.gen.trans h.gen, hkeeps.generated.trans h.generated,
    hkeeps.needJumpToNextPC.trans h.needJumpToNextPC⟩

/-- On the correct path, a branch is made, or a junk bundle, or the event's. -/
theorem correct_path_cases {uid : Nat}
    (h : s.correct_path_synthetic (generator p) uid = .ok t) :
    (∃ b gen, s.gen.test_branch p = (some b, gen) ∧ Grows s [b] gen.after_branch t) ∨
      ∃ gen, s.gen.test_branch p = (none, gen) ∧
        (Grows s ((gen.need_filler p).2.junkSyllables p)
            ((gen.need_filler p).2.create_junk_bundle_keeper p).2 t ∨
          (gen.need_filler p).1 = false ∧ Grows s (gen.need_filler p).2.eventSyllables
            ((gen.need_filler p).2.afterEvents 3) t) := by
  unfold SynthThread.correct_path_synthetic at h
  dsimp only at h
  cases htest : s.gen.test_branch p with
  | mk branch gen =>
      have htest' : (generator p).test_branch s.not_wrong_path.gen = (branch, gen) := htest
      rw [htest'] at h
      cases branch with
      | some b =>
          left
          refine ⟨b, gen, rfl, ?_⟩
          dsimp only at h
          obtain ⟨u, hissue, rfl⟩ := exists_of_map_ok h
          have hkeeps := keeps_issue hissue
          exact ⟨congrArg after_branch hkeeps.gen, hkeeps.generated, hkeeps.needJumpToNextPC⟩
      | none =>
          right
          refine ⟨gen, rfl, ?_⟩
          dsimp only at h
          cases hfiller : gen.need_filler p with
          | mk fake_one gen' =>
              have hfiller' : (generator p).need_filler gen = (fake_one, gen') := hfiller
              rw [hfiller'] at h
              cases fake_one with
              | true =>
                  dsimp only at h
                  left
                  refine Grows.issue ?_ h
                  refine ⟨rfl, ?_, rfl⟩
                  simp only [SynthThread.add_to_replay, List.append_assoc]
                  rfl
              | false =>
                  dsimp only at h
                  right
                  refine ⟨rfl, Grows.issue ?_ h⟩
                  refine ⟨rfl, ?_, rfl⟩
                  simp only [SynthThread.addEvent, SynthThread.add_to_replay, List.append_assoc]
                  rfl

/-- A path that goes on to where the generator then is. -/
theorem Flows.grows (h : Flows p s) {xs : List PathSyllable} {gen : SynthPath}
    (hgrows : Grows s xs gen t) (hjump : s.needJumpToNextPC = false) (hshape : Shape p gen)
    (hplace : Done gen ∨ Begins p gen) (hemits : Emits s.gen xs gen) : Flows p t where
  shape := by rw [hgrows.gen]; exact hshape
  place := by rw [hgrows.gen]; exact hplace
  follows := by
    rw [hgrows.gen, hgrows.generated]
    exact h.follows.append hemits
  first := by
    rw [hgrows.needJumpToNextPC, hjump]
    exact fun hyes => by cases hyes

theorem Flows.correct_path (hp : p.WellFormed) (h : Flows p s) (hbegins : Begins p s.gen)
    (hjump : s.needJumpToNextPC = false) (hlands : s.gen.Lands p) {uid : Nat}
    (hexec : s.correct_path_synthetic (generator p) uid = .ok t) : Flows p t := by
  rcases correct_path_cases hexec with ⟨b, gen, htest, hgrows⟩ | ⟨gen, htest, hgrows⟩
  · rcases test_branch_cases hp h.shape hbegins hlands with ⟨b', gen', htest', hbranches⟩ |
      ⟨gen', htest', -⟩
    · rw [htest] at htest'
      cases htest'
      exact h.grows hgrows hjump hbranches.shape hbranches.place hbranches.emits
    · rw [htest] at htest'
      cases htest'
  · rcases test_branch_cases hp h.shape hbegins hlands with ⟨b', gen', htest', -⟩ |
      ⟨gen', htest', hshape, hbegins', hstays⟩
    · rw [htest] at htest'
      cases htest'
    · rw [htest] at htest'
      cases htest'
      rcases hgrows with hgrows | ⟨hnone, hgrows⟩
      · have hbundles := hbegins'.bundles_junk
        exact h.grows hgrows hjump (hbundles.shape hshape) hbundles.place
          (hstays.emits hbundles.emits)
      · have hbundles := hbegins'.bundles_events hnone
        exact h.grows hgrows hjump (hbundles.shape hshape) hbundles.place
          (hstays.emits hbundles.emits)

/-- A branch to 0 leaves one address too many or too few to return to. -/
theorem Flows.correct_path_strays (h : Flows p s) (hbegins : Begins p s.gen)
    (hnot : ¬ s.gen.Lands p) {uid : Nat}
    (hexec : s.correct_path_synthetic (generator p) uid = .ok t) : ¬ Consistent t := by
  obtain ⟨gen, htest, hbegins', hdepths⟩ := test_branch_strays h.shape hbegins hnot
  intro hcons
  apply hdepths
  rcases correct_path_cases hexec with ⟨b, gen', htest', -⟩ | ⟨gen', htest', hgrows⟩
  · rw [htest] at htest'
    cases htest'
  · rw [htest] at htest'
    cases htest'
    rcases hgrows with hgrows | ⟨hnone, hgrows⟩
    · have hbundles := hbegins'.bundles_junk
      rw [← hbundles.pc_stack, ← hbundles.path_stack, ← hgrows.gen]
      exact hcons.depths
    · have hbundles := hbegins'.bundles_events hnone
      rw [← hbundles.pc_stack, ← hbundles.path_stack, ← hgrows.gen]
      exact hcons.depths

/-- The first branch goes to where the thread starts. -/
theorem Flows.first_branch (h : Flows p s) (hbegins : Begins p s.gen)
    (hjump : s.needJumpToNextPC = true) {predicted_pc : IADDR} {uid : Nat}
    (hexec : s.emit_first_branch (generator p) predicted_pc uid = .ok t) : Flows p t := by
  obtain ⟨u, hissue, rfl⟩ := exists_of_map_ok hexec
  have hkeeps := keeps_issue hissue
  have hgen : u.gen = s.gen := hkeeps.gen
  have hnone := h.first hjump
  have hgenerated : u.generated =
      [make_indirect_branch .first predicted_pc.bundleAddr s.gen.current.cur_pc] := by
    rw [hkeeps.generated, SynthThread.add_to_replay, hnone]
    rfl
  have hnests := h.follows.nests
  rw [hnone] at hnests
  exact {
    shape := by show Shape p u.gen; rw [hgen]; exact h.shape
    place := by show Done u.gen ∨ Begins p u.gen; rw [hgen]; exact .inr hbegins
    follows := by
      show Follows u.gen u.generated
      rw [hgen, hgenerated]
      refine ⟨.singleton _, fun x hx => ?_, hnests⟩
      obtain rfl := Option.some.inj hx
      rfl
    first := fun hyes => by cases hyes }

/-- With the event that is drawn when there is none. -/
def withEvent (p : PathParams) (s : Thread) : Thread := { s with gen := s.gen.ready p }

theorem Flows.withEvent (hp : p.WellFormed) (h : Flows p s) :
    Flows p (withEvent p s) ∧ Begins p (withEvent p s).gen := by
  rcases h.place with hdone | hbegins
  · have hgen : (PathRun.withEvent p s).gen = s.gen.consume_synthetic_events p := hdone.ready_eq
    refine ⟨⟨?_, ?_, ?_, h.first⟩, ?_⟩
    · rw [hgen]
      exact h.shape.consume
    · rw [hgen]
      exact .inr (Done.consume hp)
    · rw [hgen]
      exact (stays_consume p s.gen).follows h.follows
    · rw [hgen]
      exact Done.consume hp
  · have hgen : (PathRun.withEvent p s).gen = s.gen := hbegins.ready_eq
    refine ⟨Keeps.flows ⟨hgen, rfl, rfl⟩ h, ?_⟩
    rw [hgen]
    exact hbegins

theorem assemble_eq (p : PathParams) (s : Thread) (predicted_pc : IADDR) (uid : Nat) :
    s.assemble_inst_from_synth_events (generator p) predicted_pc uid =
      if s.needJumpToNextPC then (withEvent p s).emit_first_branch (generator p) predicted_pc uid
      else if (s.gen.ready p).get_ipf_pc = predicted_pc then
        (withEvent p s).correct_path_synthetic (generator p) uid
      else (withEvent p s).wrongPath (generator p) predicted_pc := by
  have hu : withEvent p s = if (generator p).done_with_entire_event s.gen then
      { s with gen := (generator p).consume_synthetic_events s.gen } else s := by
    unfold withEvent ready
    by_cases hdone : s.gen.done_with_entire_event = true
    · have hdone' : (generator p).done_with_entire_event s.gen = true := hdone
      rw [if_pos hdone, if_pos hdone']
      rfl
    · have hdone' : ¬ (generator p).done_with_entire_event s.gen = true := hdone
      rw [if_neg hdone, if_neg hdone']
  unfold SynthThread.assemble_inst_from_synth_events
  rw [← hu]
  rfl

/-- A syllable that is handed out again, or one of the wrong path. -/
theorem keeps_replay {predicted_pc : IADDR} {uid : Nat} (hreplay : s.lists.replay ≠ [])
    (hexec : s.generate_asim_inst (generator p) predicted_pc uid = .ok t) : Keeps s t := by
  unfold SynthThread.generate_asim_inst at hexec
  cases hlist : s.lists.replay with
  | nil => exact absurd hlist hreplay
  | cons x xs =>
      rw [hlist] at hexec
      dsimp only at hexec
      split at hexec
      · obtain ⟨u, hissue, rfl⟩ := exists_of_map_ok hexec
        have hkeeps := keeps_issue hissue
        exact ⟨hkeeps.gen, hkeeps.generated, hkeeps.needJumpToNextPC⟩
      · exact keeps_wrongPath hexec

theorem generate_nil {predicted_pc : IADDR} {uid : Nat} (hreplay : s.lists.replay = []) :
    s.generate_asim_inst (generator p) predicted_pc uid =
      s.assemble_inst_from_synth_events (generator p) predicted_pc uid := by
  rw [SynthThread.generate_asim_inst, hreplay]

theorem Flows.generate (hp : p.WellFormed) (h : Flows p s) {predicted_pc : IADDR} {uid : Nat}
    (hcareful : Careful p s (.fetch predicted_pc uid))
    (hexec : s.generate_asim_inst (generator p) predicted_pc uid = .ok t) : Flows p t := by
  by_cases hreplay : s.lists.replay = []
  · obtain ⟨hflows, hbegins⟩ := h.withEvent hp
    rw [generate_nil hreplay, assemble_eq] at hexec
    by_cases hjump : s.needJumpToNextPC = true
    · rw [if_pos hjump] at hexec
      exact hflows.first_branch hbegins hjump hexec
    · have hjump' := Bool.eq_false_iff.mpr hjump
      rw [if_neg hjump] at hexec
      by_cases hpc : (s.gen.ready p).get_ipf_pc = predicted_pc
      · rw [if_pos hpc] at hexec
        exact hflows.correct_path hp hbegins hjump' (hcareful hreplay hjump' hpc) hexec
      · rw [if_neg hpc] at hexec
        exact (keeps_wrongPath hexec).flows hflows
  · exact (keeps_replay hreplay hexec).flows h

/-- **A careful step goes on with the path.** -/
theorem Flows.exec (hp : p.WellFormed) (h : Flows p s) {e : ThreadEvent IADDR}
    (hcareful : Careful p s e) (hexec : s.exec (generator p) e = .ok t) : Flows p t := by
  cases e with
  | fetch predicted_pc uid =>
      obtain ⟨u, hgenerate, rfl⟩ := exists_of_map_ok hexec
      have hkeeps : Keeps u { u with fetched := uid :: s.fetched } := ⟨rfl, rfl, rfl⟩
      exact hkeeps.flows (h.generate hp hcareful hgenerate)
  | kill uid killMe => exact (keeps_kill hexec).flows h
  | commit uid => exact (keeps_commit hexec).flows h

/-- **One that is not careful leaves it.** -/
theorem Flows.strays (hp : p.WellFormed) (h : Flows p s) {e : ThreadEvent IADDR}
    (hnot : ¬ Careful p s e) (hexec : s.exec (generator p) e = .ok t) : ¬ Consistent t := by
  cases e with
  | fetch predicted_pc uid =>
      simp only [Careful, Classical.not_imp] at hnot
      obtain ⟨hreplay, hjump, hpc, hlands⟩ := hnot
      obtain ⟨hflows, hbegins⟩ := h.withEvent hp
      obtain ⟨u, hgenerate, rfl⟩ := exists_of_map_ok hexec
      rw [generate_nil hreplay, assemble_eq, if_neg (Bool.eq_false_iff.mp hjump),
        if_pos hpc] at hgenerate
      intro hcons
      exact hflows.correct_path_strays hbegins hlands hgenerate
        ⟨hcons.successors, hcons.nests, hcons.depths, hcons.fault⟩
  | kill uid killMe => exact absurd trivial hnot
  | commit uid => exact absurd trivial hnot

/--
**As long as no call goes to a routine at 0 and no return goes to 0, the correct path is
consistent; and a step leaves it just when it makes such a call or return.**
-/
theorem consistent_of_careful (hp : p.WellFormed) (h : Reaches (Start p) (CarefulStep p) s) :
    Consistent s ∧ ∀ e t, s.exec (generator p) e = .ok t → (Careful p s e ↔ Consistent t) := by
  have hs : Flows p s :=
    h.invariant (fun _ hstart => hstart.flows) fun _ _ hs ⟨_, hcareful, hexec⟩ =>
      hs.exec hp hcareful hexec
  refine ⟨hs.consistent, fun e t hexec => ⟨fun hcareful => ?_, fun hcons => ?_⟩⟩
  · exact (hs.exec hp hcareful hexec).consistent
  · by_contra hnot
    exact hs.strays hp hnot hexec hcons

/-! ### A call and its return, and a call to a routine at 0 -/

instance (s : SynthPath) : Decidable (Lands p s) :=
  decidable_of_iff (_ ∧ _) ⟨fun h => ⟨h.1, h.2⟩, fun h => ⟨h.returns, h.calls⟩⟩

instance : (e : ThreadEvent IADDR) → Decidable (Careful p s e)
  | .fetch predicted_pc _ =>
      inferInstanceAs (Decidable (s.lists.replay = [] → s.needJumpToNextPC = false →
        (s.gen.ready p).get_ipf_pc = predicted_pc → (s.gen.ready p).Lands p))
  | .kill _ _ => .isTrue trivial
  | .commit _ => .isTrue trivial

/-- Every draw is the least, and every bundle is of no-ops; the first routine calls at once. -/
def callingParams (start_pc1 : BitVec 64) (routine_offset : BitVec 32) : PathParams where
  fixed_spacing := true
  memop_frequency := 1
  random_threshold := 0
  branch_off_path_pct := 100
  branch_bundle_in_routine := 1
  static_syllables := 6
  dynamic_syllables := 3
  start_pc1 := start_pc1
  routine_offset := routine_offset
  tape := fun _ => ⟨0, fun _ => .NOPM⟩

def unfetchedPath (p : PathParams) : Thread := ⟨.new p, true, 0, ⟨[], []⟩, [], [], []⟩

theorem start_unfetchedPath (p : PathParams) : Start p (unfetchedPath p) :=
  ⟨rfl, rfl, rfl, rfl, rfl, rfl⟩

/-- The first branch, a call, a bundle with a wrong path before it, the return, and a call. -/
def callingEvents : List (ThreadEvent IADDR) :=
  [.fetch ⟨0, 0⟩ 1, .fetch ⟨0x1000, 0⟩ 2, .fetch ⟨0x1010, 0⟩ 3, .fetch ⟨0x1100, 0⟩ 4,
    .kill 2 false, .fetch ⟨0x1100, 0⟩ 5, .fetch ⟨0x1100, 1⟩ 6, .fetch ⟨0x1100, 2⟩ 7,
    .fetch ⟨0x1110, 0⟩ 8, .fetch ⟨0x1010, 0⟩ 9]

def runPath (p : PathParams) (ok : Thread → ThreadEvent IADDR → Bool)
    (events : List (ThreadEvent IADDR)) : Option Thread :=
  after (fun s e => (s.exec (generator p) e).toOption) ok events (unfetchedPath p)

theorem wellFormed_calling (start_pc1 : BitVec 64) (routine_offset : BitVec 32)
    (haligned1 : mask_bundle_addr start_pc1 = start_pc1)
    (haligned2 : mask_bundle_addr (callingParams start_pc1 routine_offset).start_pc2 =
      (callingParams start_pc1 routine_offset).start_pc2) :
    (callingParams start_pc1 routine_offset).WellFormed :=
  ⟨haligned1, haligned2, fun _ _ => rfl⟩

/-- The call at `0x1000` returns behind it, where there is the next one. -/
theorem consistent_of_careful_calls : ∃ s : Thread,
    s.generated.map (fun x => (x.kind, x.pc.bundleAddr, x.target.bundleAddr)) =
      [(.first, 0, 0x1000), (.call, 0x1000, 0x1100), (.plain, 0x1100, 0), (.plain, 0x1100, 0),
        (.plain, 0x1100, 0), (.ret, 0x1110, 0x1010), (.call, 0x1010, 0x1100)] ∧
      Consistent s := by
  let p := callingParams 0x1000 0x100
  have hrun : ((runPath p (fun s e => decide (Careful p s e)) callingEvents).map fun s =>
      s.generated.map fun x => (x.kind, x.pc.bundleAddr, x.target.bundleAddr)) =
      some [(.first, 0, 0x1000), (.call, 0x1000, 0x1100), (.plain, 0x1100, 0), (.plain, 0x1100, 0),
        (.plain, 0x1100, 0), (.ret, 0x1110, 0x1010), (.call, 0x1010, 0x1100)] := by
    decide +kernel
  obtain ⟨s, hs, hgenerated⟩ := Option.map_eq_some_iff.mp hrun
  have hreach : Reaches (Start p) (CarefulStep p) s :=
    Reaches.after
      (fun s e t hok hexec => ⟨e, of_decide_eq_true hok, eq_ok_of_toOption hexec⟩)
      (.start (start_unfetchedPath p)) hs
  exact ⟨s, hgenerated, (consistent_of_careful (wellFormed_calling _ _ rfl rfl) hreach).1⟩

/-- **A call to a routine at 0 is not made, but its return is expected.** -/
theorem not_always_consistent : ¬ ∀ (p : PathParams) (s : Thread), p.WellFormed →
    Reaches (Start p) (Step p) s → Consistent s := by
  intro hall
  let p := callingParams 0 0
  have hrun : ((runPath p (fun _ _ => true) [.fetch ⟨0, 0⟩ 1, .fetch ⟨0, 0⟩ 2]).map fun s =>
      (s.gen.pc_stack.length, s.gen.path_stack.length)) = some (1, 0) := by
    decide +kernel
  obtain ⟨s, hs, hlengths⟩ := Option.map_eq_some_iff.mp hrun
  have hreach : Reaches (Start p) (Step p) s :=
    Reaches.after (fun s e t _ hexec => ⟨e, eq_ok_of_toOption hexec⟩)
      (.start (start_unfetchedPath p)) hs
  have hdepths := (hall p s (wellFormed_calling _ _ rfl rfl) hreach).depths
  obtain ⟨hpc, hpath⟩ := Prod.mk.inj hlengths
  rw [hpc, hpath] at hdepths
  cases hdepths

end PathRun

end AsimFeeder.Synth.Routines
