/-
A synthetic thread replays its correct path, and when a kill loses the issued list.

Committed, issued and to be replayed are always what was generated, in order: a fetch
moves one syllable from the replay list to the issued list, a kill moves some back, a
commit takes some from the front.  A kill looks for the youngest instruction that stays,
and reads on when there is none.
-/
import AsimFeeder.Synth.SynthThread

namespace AsimFeeder.Synth

open Lib

namespace SynthThread

variable {γ IADDR σ : Type} {g : Generator γ IADDR σ} {s t u : SynthThread γ σ}

/-! ### What a fetch does to the lists -/

/-- At most, syllables were generated. -/
structure Adds (s t : SynthThread γ σ) : Prop where
  committed : t.committed = s.committed
  fetched : t.fetched = s.fetched
  issued : t.lists.issued = s.lists.issued
  same : ∃ new, t.generated = s.generated ++ new ∧
    t.lists.all.map SynthInst.syllable = s.lists.all.map SynthInst.syllable ++ new

theorem Adds.of_eq (hlists : t.lists = s.lists) (hgenerated : t.generated = s.generated)
    (hcommitted : t.committed = s.committed) (hfetched : t.fetched = s.fetched) : Adds s t where
  committed := hcommitted
  fetched := hfetched
  issued := by rw [hlists]
  same := ⟨[], by rw [hgenerated, List.append_nil], by rw [hlists, List.append_nil]⟩

theorem Adds.trans (h : Adds s t) (h' : Adds t u) : Adds s u where
  committed := h'.committed.trans h.committed
  fetched := h'.fetched.trans h.fetched
  issued := h'.issued.trans h.issued
  same := by
    obtain ⟨new, hgen, hsame⟩ := h.same
    obtain ⟨new', hgen', hsame'⟩ := h'.same
    refine ⟨new ++ new', ?_, ?_⟩
    · rw [hgen', hgen, List.append_assoc]
    · rw [hsame', hsame, List.append_assoc]

theorem adds_add_to_replay (s : SynthThread γ σ) (x : σ) : Adds s (s.add_to_replay x) where
  committed := rfl
  fetched := rfl
  issued := rfl
  same := ⟨[x], rfl, by simp [add_to_replay, Window.all]⟩

theorem adds_addEvent (g : Generator γ IADDR σ) (s : SynthThread γ σ) : Adds s (s.addEvent g) :=
  Adds.trans (t := { s with gen := (g.convert_event_to_synth_inst s.gen).2 })
    (Adds.of_eq rfl rfl rfl rfl) (adds_add_to_replay _ _)

theorem replay_add_to_replay (s : SynthThread γ σ) (x : σ) :
    (s.add_to_replay x).lists.replay ≠ [] := by
  simp [add_to_replay]

/-- Then one instruction was issued, or none. -/
structure Fetches (s : SynthThread γ σ) (uid : Nat) (t : SynthThread γ σ) : Prop where
  committed : t.committed = s.committed
  fetched : t.fetched = s.fetched
  issued : t.lists.issued = s.lists.issued ∨
    ∃ p, p.uid = uid ∧ t.lists.issued = s.lists.issued ++ [p]
  same : ∃ new, t.generated = s.generated ++ new ∧
    t.lists.all.map SynthInst.syllable = s.lists.all.map SynthInst.syllable ++ new

/-- That, or the simulator ends because it stays on the wrong path. -/
def Feeds (s : SynthThread γ σ) (uid : Nat) : Except Fault (SynthThread γ σ) → Prop
  | .ok t => s.Fetches uid t
  | .error fault => fault = .wrongPathLimit

theorem Adds.feeds (h : Adds s u) {uid : Nat} {r : Except Fault (SynthThread γ σ)}
    (hr : u.Feeds uid r) : s.Feeds uid r := by
  cases r with
  | error fault => exact hr
  | ok t =>
      obtain ⟨new, hgen, hsame⟩ := h.same
      obtain ⟨new', hgen', hsame'⟩ := hr.same
      exact {
        committed := hr.committed.trans h.committed
        fetched := hr.fetched.trans h.fetched
        issued := by rw [← h.issued]; exact hr.issued
        same := by
          refine ⟨new ++ new', ?_, ?_⟩
          · rw [hgen', hgen, List.append_assoc]
          · rw [hsame', hsame, List.append_assoc] }

theorem Feeds.map {uid : Nat} {r : Except Fault (SynthThread γ σ)} (h : s.Feeds uid r)
    {f : SynthThread γ σ → SynthThread γ σ} (hlists : ∀ t, (f t).lists = t.lists)
    (hgenerated : ∀ t, (f t).generated = t.generated)
    (hcommitted : ∀ t, (f t).committed = t.committed)
    (hfetched : ∀ t, (f t).fetched = t.fetched) : s.Feeds uid (r.map f) := by
  cases r with
  | error fault => exact h
  | ok t =>
      exact {
        committed := (hcommitted t).trans h.committed
        fetched := (hfetched t).trans h.fetched
        issued := by rw [hlists]; exact h.issued
        same := by rw [hlists, hgenerated]; exact h.same }

theorem feeds_issue {uid : Nat} (h : s.lists.replay ≠ []) :
    s.Feeds uid (s.issue_synth_inst_from_replay g uid) := by
  unfold issue_synth_inst_from_replay
  cases hreplay : s.lists.replay with
  | nil => exact absurd hreplay h
  | cons p replay =>
      exact {
        committed := rfl
        fetched := rfl
        issued := .inr ⟨_, rfl, rfl⟩
        same := ⟨[], (List.append_nil _).symm, by simp [Window.all, hreplay]⟩ }

theorem feeds_wrongPath {uid : Nat} (predicted_pc : IADDR) :
    s.Feeds uid (s.wrongPath g predicted_pc) := by
  unfold wrongPath
  by_cases hlimit : WRONG_PATH_LIMIT ≤ s.wrong_path + 1
  · rw [if_pos hlimit]
    rfl
  · rw [if_neg hlimit]
    exact ⟨rfl, rfl, .inl rfl, [], (List.append_nil _).symm, (List.append_nil _).symm⟩

theorem feeds_first_branch {uid : Nat} (predicted_pc : IADDR) :
    s.Feeds uid (s.emit_first_branch g predicted_pc uid) := by
  refine Feeds.map ?_ (fun _ => rfl) (fun _ => rfl) (fun _ => rfl) fun _ => rfl
  exact (adds_add_to_replay s _).feeds (feeds_issue (replay_add_to_replay s _))

theorem feeds_correct_path {uid : Nat} : s.Feeds uid (s.correct_path_synthetic g uid) := by
  unfold correct_path_synthetic
  dsimp only
  match g.test_branch s.not_wrong_path.gen with
  | (some branch, gen) =>
      refine Feeds.map ?_ (fun _ => rfl) (fun _ => rfl) (fun _ => rfl) fun _ => rfl
      refine (Adds.trans ?_ (adds_add_to_replay _ branch)).feeds
        (feeds_issue (replay_add_to_replay _ _))
      exact Adds.of_eq rfl rfl rfl rfl
  | (none, gen) =>
      dsimp only
      match g.need_filler gen with
      | (true, gen) =>
          refine Adds.feeds ?_ (feeds_issue (replay_add_to_replay _ _))
          refine Adds.trans ?_ (adds_add_to_replay _ _)
          refine Adds.trans ?_ (adds_add_to_replay _ _)
          refine Adds.trans ?_ (adds_add_to_replay _ _)
          exact Adds.of_eq rfl rfl rfl rfl
      | (false, gen) =>
          refine Adds.feeds ?_ (feeds_issue (replay_add_to_replay _ _))
          refine Adds.trans ?_ (adds_addEvent g _)
          refine Adds.trans ?_ (adds_addEvent g _)
          refine Adds.trans ?_ (adds_addEvent g _)
          exact Adds.of_eq rfl rfl rfl rfl

variable [DecidableEq IADDR]

theorem feeds_events {uid : Nat} (predicted_pc : IADDR) :
    s.Feeds uid (s.assemble_inst_from_synth_events g predicted_pc uid) := by
  unfold assemble_inst_from_synth_events
  dsimp only
  generalize hu : (if g.done_with_entire_event s.gen then
    { s with gen := g.consume_synthetic_events s.gen } else s) = u
  have hadds : Adds s u := by
    rw [← hu]
    split
    · exact Adds.of_eq rfl rfl rfl rfl
    · exact Adds.of_eq rfl rfl rfl rfl
  apply hadds.feeds
  by_cases hjump : u.needJumpToNextPC = true
  · rw [if_pos hjump]
    exact feeds_first_branch predicted_pc
  · rw [if_neg hjump]
    by_cases hpc : g.get_ipf_pc u.gen = predicted_pc
    · rw [if_pos hpc]
      exact feeds_correct_path
    · rw [if_neg hpc]
      exact feeds_wrongPath predicted_pc

/-- **A fetch issues the first syllable of the replay list, or leaves the lists alone.** -/
theorem feeds_generate {uid : Nat} (predicted_pc : IADDR) :
    s.Feeds uid (s.generate_asim_inst g predicted_pc uid) := by
  unfold generate_asim_inst
  cases hreplay : s.lists.replay with
  | nil => exact feeds_events predicted_pc
  | cons p replay =>
      dsimp only
      by_cases hpc : g.pc p.syllable = predicted_pc
      · rw [if_pos hpc]
        refine Feeds.map (feeds_issue ?_) (fun _ => rfl) (fun _ => rfl) (fun _ => rfl) fun _ => rfl
        rw [hreplay]
        exact List.cons_ne_nil p replay
      · rw [if_neg hpc]
        exact feeds_wrongPath predicted_pc

/-! ### Runs -/

/-- A thread that has not fetched. -/
structure Start (s : SynthThread γ σ) : Prop where
  lists : s.lists = ⟨[], []⟩
  generated : s.generated = []
  committed : s.committed = []
  fetched : s.fetched = []

/--
Numbers increase, what is killed was fetched, and commits are in order: of an instruction
in flight, with nothing before it but no-ops.
-/
def Legal (g : Generator γ IADDR σ) (s : SynthThread γ σ) : ThreadEvent IADDR → Prop
  | .fetch _ uid => ∀ u ∈ s.fetched, u < uid
  | .kill uid _ => uid ∈ s.fetched
  | .commit uid => ∃ before p after, s.lists.issued = before ++ p :: after ∧ p.uid = uid ∧
      ∀ q ∈ before, g.isNOP q.syllable = true

/-- A kill leaves an instruction in flight, unless there was none. -/
def Careful (s : SynthThread γ σ) : ThreadEvent IADDR → Prop
  | .fetch _ _ => True
  | .kill uid _ => s.lists.issued = [] ∨ ∃ p ∈ s.lists.issued, p.uid ≤ uid
  | .commit _ => True

def Step (g : Generator γ IADDR σ) (s t : SynthThread γ σ) : Prop :=
  ∃ e, s.Legal g e ∧ s.exec g e = .ok t

def CarefulStep (g : Generator γ IADDR σ) (s t : SynthThread γ σ) : Prop :=
  ∃ e, s.Legal g e ∧ s.Careful e ∧ s.exec g e = .ok t

/-- The correct path is committed, in flight, or waits to be replayed, in this order. -/
structure Exact (s : SynthThread γ σ) : Prop where
  increasing : Window.Increasing SynthInst.uid s.lists.issued
  issued : ∀ p ∈ s.lists.issued, p.uid ∈ s.fetched
  same : s.committed ++ s.lists.issued.map SynthInst.syllable ++
    s.lists.replay.map SynthInst.syllable = s.generated

omit [DecidableEq IADDR] in
theorem Start.exact (h : s.Start) : s.Exact where
  increasing := by rw [h.lists]; exact List.Pairwise.nil
  issued := by rw [h.lists]; exact fun _ hp => by cases hp
  same := by rw [h.lists, h.committed, h.generated]; rfl

theorem Exact.fetch (h : s.Exact) {predicted_pc : IADDR} {uid : Nat}
    (hlegal : s.Legal g (.fetch predicted_pc uid))
    (hexec : s.exec g (.fetch predicted_pc uid) = .ok t) : t.Exact := by
  have hfeeds : s.Feeds uid (s.generate_asim_inst g predicted_pc uid) :=
    feeds_generate predicted_pc
  dsimp only [SynthThread.exec] at hexec
  cases hgen : s.generate_asim_inst g predicted_pc uid with
  | error fault => rw [hgen] at hexec; cases hexec
  | ok u =>
      rw [hgen] at hexec hfeeds
      cases hexec
      have hu : s.Fetches uid u := hfeeds
      obtain ⟨new, hnew, hsame⟩ := hu.same
      have hall : u.committed ++ u.lists.issued.map SynthInst.syllable ++
          u.lists.replay.map SynthInst.syllable = u.generated := by
        rw [List.append_assoc, ← List.map_append, hnew, ← h.same, hu.committed]
        simp only [Window.all] at hsame
        rw [hsame]
        simp only [List.map_append, List.append_assoc]
      rcases hu.issued with hissued | ⟨p, hp, hissued⟩
      · exact {
          increasing := by
            show Window.Increasing SynthInst.uid u.lists.issued
            rw [hissued]
            exact h.increasing
          issued := by
            intro q hq
            have hq' : q ∈ s.lists.issued := hissued ▸ hq
            exact List.mem_cons_of_mem uid (h.issued q hq')
          same := hall }
      · exact {
          increasing := by
            show Window.Increasing SynthInst.uid u.lists.issued
            rw [hissued]
            refine List.pairwise_append.mpr ⟨h.increasing, List.pairwise_singleton _ _, ?_⟩
            intro q hq r hr
            rw [List.mem_singleton.mp hr, hp]
            exact hlegal _ (h.issued q hq)
          issued := by
            intro q hq
            have hq' : q ∈ s.lists.issued ++ [p] := hissued ▸ hq
            rcases List.mem_append.mp hq' with hq' | hq'
            · exact List.mem_cons_of_mem uid (h.issued q hq')
            · rw [List.mem_singleton.mp hq', hp]
              exact List.mem_cons_self
          same := hall }

omit [DecidableEq IADDR] in
theorem kill_eq (s : SynthThread γ σ) (uid : Nat) (killMe : Bool) :
    s.kill uid killMe = match s.lists.kill SynthInst.uid uid killMe with
      | none => .error .emptyList
      | some lists => .ok { s with lists := lists } := by
  unfold kill Window.kill copy_to_replay_queue kill_and_replay_this_inst
  cases s.lists.copyToReplay SynthInst.uid uid with
  | none => rfl
  | some lists => rfl

omit [DecidableEq IADDR] in
theorem kill_ok_iff (s : SynthThread γ σ) (uid : Nat) (killMe : Bool) :
    (∃ t, s.kill uid killMe = .ok t) ↔ s.lists.issued = [] ∨ ∃ p ∈ s.lists.issued, p.uid ≤ uid := by
  refine Iff.trans ?_ (Window.kill_isSome killMe s.lists)
  rw [kill_eq]
  cases s.lists.kill SynthInst.uid uid killMe with
  | none => simp
  | some lists => simp

omit [DecidableEq IADDR] in
theorem Exact.kill (h : s.Exact) {uid : Nat} {killMe : Bool}
    (hexec : s.kill uid killMe = .ok t) : t.Exact := by
  rw [kill_eq] at hexec
  cases hkill : s.lists.kill SynthInst.uid uid killMe with
  | none => rw [hkill] at hexec; cases hexec
  | some lists =>
      rw [hkill] at hexec
      cases hexec
      obtain ⟨dead, hissued, hreplay, -, -⟩ := Window.kill_eq_some h.increasing hkill
      have hsub : lists.issued.Sublist s.lists.issued :=
        hissued ▸ List.sublist_append_left lists.issued dead
      exact {
        increasing := h.increasing.sublist hsub
        issued := fun p hp => h.issued p (hsub.subset hp)
        same := by
          show s.committed ++ lists.issued.map SynthInst.syllable ++
            lists.replay.map SynthInst.syllable = s.generated
          rw [← h.same, hissued, hreplay]
          simp only [List.map_append, List.append_assoc] }

omit [DecidableEq IADDR] in
/-- What is committed are the first in flight. -/
theorem commit_eq {uid : Nat} (h : s.Exact) (hlegal : s.Legal g (.commit uid)) :
    ∃ left stays, s.lists.issued = left ++ stays ∧ s.commit_skipping_nops g uid =
      .ok { s with
        lists := { s.lists with issued := stays }
        committed := s.committed ++ left.map SynthInst.syllable } := by
  obtain ⟨before, p, after, hsplit, rfl, hnops⟩ := hlegal
  refine ⟨before ++ [p], after, ?_, ?_⟩
  · rw [hsplit, List.append_assoc, List.singleton_append]
  · unfold commit_skipping_nops
    rw [Window.commitSkipping_of_split hsplit h.increasing hnops]

omit [DecidableEq IADDR] in
theorem Exact.commit (h : s.Exact) {uid : Nat} (hlegal : s.Legal g (.commit uid))
    (hexec : s.commit_skipping_nops g uid = .ok t) : t.Exact := by
  obtain ⟨left, stays, hissued, heq⟩ := commit_eq h hlegal
  rw [heq] at hexec
  cases hexec
  have hsub : stays.Sublist s.lists.issued := hissued ▸ List.sublist_append_right left stays
  exact {
    increasing := h.increasing.sublist hsub
    issued := fun p hp => h.issued p (hsub.subset hp)
    same := by
      show s.committed ++ left.map SynthInst.syllable ++ stays.map SynthInst.syllable ++
        s.lists.replay.map SynthInst.syllable = s.generated
      rw [← h.same, hissued]
      simp only [List.map_append, List.append_assoc] }

theorem Exact.exec (h : s.Exact) {e : ThreadEvent IADDR} (hlegal : s.Legal g e)
    (hexec : s.exec g e = .ok t) : t.Exact := by
  cases e with
  | fetch predicted_pc uid => exact h.fetch hlegal hexec
  | kill uid killMe => exact h.kill hexec
  | commit uid => exact h.commit hlegal hexec

/-- A call that is legal fails only if it is not careful, or on the wrong path for too long. -/
theorem Exact.careful_iff (h : s.Exact) {e : ThreadEvent IADDR} (hlegal : s.Legal g e) :
    s.Careful e ↔ ∀ fault, s.exec g e = .error fault → fault = .wrongPathLimit := by
  cases e with
  | fetch predicted_pc uid =>
      refine ⟨fun _ fault hfault => ?_, fun _ => trivial⟩
      have hfeeds : s.Feeds uid (s.generate_asim_inst g predicted_pc uid) :=
        feeds_generate predicted_pc
      dsimp only [SynthThread.exec] at hfault
      cases hgen : s.generate_asim_inst g predicted_pc uid with
      | ok u => rw [hgen] at hfault; cases hfault
      | error fault' =>
          rw [hgen] at hfault hfeeds
          cases hfault
          exact hfeeds
  | kill uid killMe =>
      refine (kill_ok_iff s uid killMe).symm.trans ?_
      constructor
      · rintro ⟨t, ht⟩ fault hfault
        have herror : s.kill uid killMe = .error fault := hfault
        rw [ht] at herror
        cases herror
      · intro hfault
        cases hkill : s.kill uid killMe with
        | ok t => exact ⟨t, rfl⟩
        | error fault =>
            have hlimit := hfault fault hkill
            rw [kill_eq] at hkill
            split at hkill
            · cases hkill
              cases hlimit
            · cases hkill
  | commit uid =>
      refine ⟨fun _ fault hfault => ?_, fun _ => trivial⟩
      obtain ⟨left, stays, -, heq⟩ := commit_eq h hlegal
      have herror : s.commit_skipping_nops g uid = .error fault := hfault
      rw [heq] at herror
      cases herror

/--
**As long as every kill leaves an instruction in flight or finds none, the correct path is
replayed exactly; and a kill or a commit fails just when it is not so.**
-/
theorem replays_exactly (h : Reaches Start (CarefulStep g) s) :
    s.Exact ∧ ∀ e, s.Legal g e →
      (s.Careful e ↔ ∀ fault, s.exec g e = .error fault → fault = .wrongPathLimit) := by
  have hs : s.Exact :=
    h.invariant (fun _ hstart => hstart.exact) fun _ _ hs ⟨_, hlegal, _, hexec⟩ =>
      hs.exec hlegal hexec
  exact ⟨hs, fun _ hlegal => hs.careful_iff hlegal⟩

/-! ### Replaying two syllables, and a kill on the wrong path -/

/-- Bundles of ascending addresses; the last syllable of each is a no-op. -/
def straight : Generator Nat Nat Nat where
  done_with_entire_event := fun _ => true
  consume_synthetic_events := id
  get_ipf_pc := id
  first_branch := fun _ predicted_pc => predicted_pc
  test_branch := fun next => (none, next)
  after_branch := id
  need_filler := fun next => (false, next)
  create_junk_bundle_keeper := fun next => ((next, next + 1, next + 2), next + 3)
  convert_event_to_synth_inst := fun next => (next, next + 1)
  inc_correct_path_bundle_count := id
  create_junk_bundle_upper := fun next _ => next
  pc := id
  isNOP := fun syllable => syllable % 3 == 2

def unfetched : SynthThread Nat Nat := ⟨0, true, 0, ⟨[], []⟩, [], [], []⟩

theorem start_unfetched : unfetched.Start := ⟨rfl, rfl, rfl, rfl⟩

/-- A wrong path and a correct instruction are killed: the bundle comes again, in order. -/
theorem replays_exactly_bundle : ∃ s : SynthThread Nat Nat, s.committed = [99] ∧
    s.lists = ⟨[], [⟨0, 2⟩, ⟨1, 3⟩, ⟨2, magic_uid⟩]⟩ ∧ s.generated = [99, 0, 1, 2] ∧ s.Exact := by
  have h : Reaches Start (CarefulStep straight) unfetched := .start start_unfetched
  have h := h.step (t := ⟨0, false, 0, ⟨[⟨99, 1⟩], []⟩, [99], [], [1]⟩)
    ⟨.fetch 99 1, by simp [Legal, unfetched], trivial, rfl⟩
  have h := h.step (t := ⟨3, false, 0, ⟨[⟨99, 1⟩, ⟨0, 2⟩], [⟨1, magic_uid⟩, ⟨2, magic_uid⟩]⟩,
    [99, 0, 1, 2], [], [2, 1]⟩) ⟨.fetch 0 2, by simp [Legal], trivial, rfl⟩
  have h := h.step (t := ⟨3, false, 0, ⟨[⟨99, 1⟩, ⟨0, 2⟩, ⟨1, 3⟩], [⟨2, magic_uid⟩]⟩,
    [99, 0, 1, 2], [], [3, 2, 1]⟩) ⟨.fetch 1 3, by simp [Legal], trivial, rfl⟩
  have h := h.step (t := ⟨3, false, 1, ⟨[⟨99, 1⟩, ⟨0, 2⟩, ⟨1, 3⟩], [⟨2, magic_uid⟩]⟩,
    [99, 0, 1, 2], [], [4, 3, 2, 1]⟩) ⟨.fetch 7 4, by simp [Legal], trivial, rfl⟩
  have h := h.step (t := ⟨3, false, 1, ⟨[⟨99, 1⟩, ⟨0, 2⟩, ⟨1, 3⟩], [⟨2, magic_uid⟩]⟩,
    [99, 0, 1, 2], [], [4, 3, 2, 1]⟩)
    ⟨.kill 4 true, by simp [Legal], .inr ⟨⟨99, 1⟩, by simp, by decide⟩, rfl⟩
  have h := h.step (t := ⟨3, false, 1, ⟨[⟨99, 1⟩], [⟨0, 2⟩, ⟨1, 3⟩, ⟨2, magic_uid⟩]⟩,
    [99, 0, 1, 2], [], [4, 3, 2, 1]⟩)
    ⟨.kill 2 true, by simp [Legal], .inr ⟨⟨99, 1⟩, by simp, by decide⟩, rfl⟩
  have h := h.step ⟨.commit 1, ⟨[], _, _, rfl, rfl, fun _ hq => by cases hq⟩, trivial, rfl⟩
  exact ⟨_, rfl, rfl, rfl, (replays_exactly h).1⟩

/-- The killed instruction is on the wrong path, and what is in flight was fetched after it. -/
theorem kill_of_oldest_fails : ¬ ∀ s : SynthThread Nat Nat, Reaches Start (Step straight) s →
    ∀ uid killMe, s.Legal straight (.kill uid killMe) → ∃ t, s.kill uid killMe = .ok t := by
  intro hall
  have h : Reaches Start (Step straight) unfetched := .start start_unfetched
  have h := h.step (t := ⟨0, false, 0, ⟨[⟨99, 1⟩], []⟩, [99], [], [1]⟩)
    ⟨.fetch 99 1, by simp [Legal, unfetched], rfl⟩
  have h := h.step (t := ⟨0, false, 0, ⟨[], []⟩, [99], [99], [1]⟩)
    ⟨.commit 1, ⟨[], _, _, rfl, rfl, fun _ hq => by cases hq⟩, rfl⟩
  have h := h.step (t := ⟨0, false, 1, ⟨[], []⟩, [99], [99], [2, 1]⟩)
    ⟨.fetch 7 2, by simp [Legal], rfl⟩
  have h := h.step (t := ⟨3, false, 0, ⟨[⟨0, 3⟩], [⟨1, magic_uid⟩, ⟨2, magic_uid⟩]⟩,
    [99, 0, 1, 2], [99], [3, 2, 1]⟩) ⟨.fetch 0 3, by simp [Legal], rfl⟩
  obtain ⟨t, ht⟩ := hall _ h 2 false (by simp [Legal])
  cases ht

end SynthThread

end AsimFeeder.Synth
