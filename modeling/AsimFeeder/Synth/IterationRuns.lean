/-
The numbers of a canned thread's tests, and which of them its branches read.

The `k`-th load or compare-exchange that stays has the number `k % 10000`, and the counter
is at that of the youngest one.  A kill sets the counter back to just before the smallest
number that it kills.  That is the number of the oldest one it kills, unless the counter
wrapped among them: then 0 is the smallest, and the feeder asserts that it is not.
-/
import AsimFeeder.Lib.WrapCount
import AsimFeeder.Synth.CannedRuns

namespace AsimFeeder.Synth

open Lib MemoryValues

local instance : NeZero SYNCH_STATUS_HISTORY := ⟨by decide⟩

namespace CannedRun

variable {g : GenableProgram} {next : Iaddr → Iaddr} {r t : CannedRun}

/-- Loads and compare-exchanges count themselves, branches do not. -/
def Carries (c : Nat) (l : List CannedInst) : Prop :=
  ∀ before p after, l = before ++ p :: after → p.isTest = true ∨ p.isConditional = true →
    p.iteration = (c + (tests (before ++ [p])).length) % SYNCH_STATUS_HISTORY

structure Numbered (r : CannedRun) : Prop where
  increasing : Window.Increasing CannedInst.uid (r.lastTest.toList ++ r.thread.issued)
  below : ∀ p ∈ r.lastTest.toList ++ r.thread.issued, p.uid < r.bound
  room : r.InHistory
  count : r.thread.synch_iteration_status.iteration =
    (r.committed + (tests r.thread.issued).length) % SYNCH_STATUS_HISTORY
  carries : Carries r.committed r.thread.issued
  mapped : ∀ p ∈ r.thread.issued, p.isTest = true ∨ p.isConditional = true →
    r.thread.a2s_map p.uid = some p
  last : ∀ t, r.lastTest = some t → t.iteration = r.committed % SYNCH_STATUS_HISTORY
  slots : ∀ t ∈ r.older r.thread.issued, ∀ taken, r.outcome t.uid = some taken →
    r.thread.synch_iteration_status.array t.iteration = if taken then .blocked else .entering
  fresh : ∀ uid, r.bound ≤ uid → r.outcome uid = none
  flight : ∀ inst ∈ r.inFlight, (inst.isCompareExchange || inst.isLoad) = true →
    ∃ p ∈ r.thread.issued, p.isTest = true ∧ p.uid = inst.uid
  numbered : ∀ x ∈ r.numbered, x.2 = (x.1 + 1) % SYNCH_STATUS_HISTORY
  fires : r.stopped ≠ some CannedThread.minCountError

/-! ### Numbers of the tests in flight -/

theorem Carries.front {c : Nat} {l l' : List CannedInst} (h : Carries c (l ++ l')) :
    Carries c l := by
  intro before p after hsplit hp
  exact h before p (after ++ l') (by rw [hsplit, List.append_assoc, List.cons_append]) hp

theorem Carries.back {c : Nat} {l l' : List CannedInst} (h : Carries c (l ++ l')) :
    Carries (c + (tests l).length) l' := by
  intro before p after hsplit hp
  have hcarries := h (l ++ before) p after (by rw [hsplit, List.append_assoc]) hp
  rw [hcarries, List.append_assoc, tests_append, List.length_append, Nat.add_assoc]

theorem Carries.numbers {c : Nat} {l : List CannedInst} (h : Carries c l) :
    (tests l).map CannedInst.iteration =
      numbers SYNCH_STATUS_HISTORY (c + 1) (tests l).length := by
  induction l using List.reverseRecOn with
  | nil => rfl
  | append_singleton l p ih =>
      cases htest : p.isTest with
      | false =>
          rw [tests_concat_of_not_test htest]
          exact ih h.front
      | true =>
          have hp := h l p [] rfl (.inl htest)
          rw [tests_concat_of_test htest, List.length_append, List.length_singleton] at hp
          rw [tests_concat_of_test htest, List.map_append, ih h.front, List.length_append,
            List.length_singleton, ← numbers_append, List.map_singleton, hp]
          rw [← Nat.add_assoc, Nat.add_right_comm]
          rfl

theorem Carries.concat {c : Nat} {l : List CannedInst} {q : CannedInst} (h : Carries c l)
    (hq : q.isTest = true ∨ q.isConditional = true →
      q.iteration = (c + (tests (l ++ [q])).length) % SYNCH_STATUS_HISTORY) :
    Carries c (l ++ [q]) := by
  intro before p after hsplit hp
  rcases List.eq_nil_or_concat after with rfl | ⟨init, last, rfl⟩
  · obtain ⟨rfl, hpq⟩ := List.append_inj' hsplit rfl
    cases hpq
    exact hq hp
  · rw [List.concat_eq_append, ← List.cons_append, ← List.append_assoc] at hsplit
    obtain ⟨rfl, -⟩ := List.append_inj' hsplit rfl
    exact h before p init rfl hp

/-- The number of the last test in flight or committed. -/
theorem youngest {l : List CannedInst} (hcarries : Carries r.committed l)
    (hlast : ∀ t, r.lastTest = some t → t.iteration = r.committed % SYNCH_STATUS_HISTORY)
    {t : CannedInst} (ht : (r.older l).getLast? = some t) :
    t.iteration = (r.committed + (tests l).length) % SYNCH_STATUS_HISTORY := by
  unfold older at ht
  by_cases hnil : tests l = []
  · rw [hnil, List.append_nil] at ht
    rw [hnil]
    cases hl : r.lastTest with
    | none => rw [hl] at ht; cases ht
    | some t' => rw [hl] at ht; cases ht; exact hlast _ hl
  · rw [List.getLast?_append_of_ne_nil _ hnil] at ht
    have hpos := List.length_pos_iff.mpr hnil
    have hmap := congrArg List.getLast? hcarries.numbers
    rw [List.getLast?_map, ht, getLast?_numbers hpos] at hmap
    have hiteration := Option.some.inj hmap
    rw [hiteration]
    congr 1
    omega

theorem older_nodup {l : List CannedInst} (hcarries : Carries r.committed l)
    (hlast : ∀ t, r.lastTest = some t → t.iteration = r.committed % SYNCH_STATUS_HISTORY)
    (hroom : (tests l).length < SYNCH_STATUS_HISTORY) :
    ((r.older l).map CannedInst.iteration).Nodup := by
  unfold older
  rw [List.map_append, hcarries.numbers]
  cases hl : r.lastTest with
  | none => exact nodup_numbers (le_of_lt hroom)
  | some t =>
      have hone : [t.iteration] = numbers SYNCH_STATUS_HISTORY r.committed 1 := by
        rw [hlast t hl]
        rfl
      rw [Option.toList_some, List.map_singleton, hone, numbers_append]
      exact nodup_numbers (by omega)

theorem mem_of_older {l : List CannedInst} {t : CannedInst} (ht : t ∈ r.older l) :
    t ∈ r.lastTest.toList ++ l :=
  (List.Sublist.append_left List.filter_sublist _).subset ht

namespace Numbered

theorem start : start.Numbered where
  increasing := List.Pairwise.nil
  below := fun _ hp => absurd hp List.not_mem_nil
  room := by
    show 0 < SYNCH_STATUS_HISTORY
    decide
  count := rfl
  carries := by
    intro before p after hsplit
    cases before <;> cases hsplit
  mapped := fun _ hp => absurd hp List.not_mem_nil
  last := fun _ ht => by cases ht
  slots := fun _ ht => absurd ht List.not_mem_nil
  fresh := fun _ _ => rfl
  flight := fun _ hi => absurd hi List.not_mem_nil
  numbered := fun _ hx => absurd hx List.not_mem_nil
  fires := fun h => by cases h

theorem stop (h : r.Numbered) {message : String} (hm : message ≠ CannedThread.minCountError) :
    ({ r with stopped := some message }).Numbered :=
  { h with fires := fun heq => hm (Option.some.inj heq) }

theorem iteration_lt (h : r.Numbered) :
    r.thread.synch_iteration_status.iteration < SYNCH_STATUS_HISTORY := by
  rw [h.count]
  exact Nat.mod_lt _ (by decide)

/-! ### A fetch -/

theorem fetched_other (h : r.Numbered) {uid : Nat} (hlegal : r.bound ≤ uid)
    {x : CannedThread × AsimInst} (hinst : x.2 = .junk uid) (hissued : x.1.issued = r.thread.issued)
    (hstatus : x.1.synch_iteration_status = r.thread.synch_iteration_status)
    (hmap : x.1.a2s_map = r.thread.a2s_map) : (r.fetched uid x).Numbered where
  increasing := by
    show Window.Increasing _ (r.lastTest.toList ++ x.1.issued)
    rw [hissued]
    exact h.increasing
  below := by
    show ∀ p ∈ r.lastTest.toList ++ x.1.issued, p.uid < uid + 1
    rw [hissued]
    intro p hp
    have hlt := h.below p hp
    omega
  room := by
    show (tests x.1.issued).length < _
    rw [hissued]
    exact h.room
  count := by
    show x.1.synch_iteration_status.iteration = (r.committed + (tests x.1.issued).length) % _
    rw [hissued, hstatus]
    exact h.count
  carries := by
    show Carries r.committed x.1.issued
    rw [hissued]
    exact h.carries
  mapped := by
    show ∀ p ∈ x.1.issued, _ → x.1.a2s_map p.uid = some p
    rw [hissued, hmap]
    exact h.mapped
  last := h.last
  slots := by
    show ∀ t ∈ r.lastTest.toList ++ tests x.1.issued, _
    rw [hissued]
    intro t ht taken htaken
    show x.1.synch_iteration_status.array t.iteration = _
    rw [hstatus]
    exact h.slots t ht taken htaken
  fresh := by
    intro u hu
    refine h.fresh u ?_
    have hlt : uid + 1 ≤ u := hu
    omega
  flight := by
    show ∀ inst ∈ r.inFlight ++ [x.2], _ → ∃ p ∈ x.1.issued, _
    rw [hissued, hinst]
    intro inst hmem htest
    rcases List.mem_append.mp hmem with hmem | hmem
    · exact h.flight inst hmem htest
    · rw [List.mem_singleton.mp hmem] at htest
      cases htest
  numbered := by
    intro y hy
    rcases List.mem_append.mp hy with hy | hy
    · obtain ⟨p, hp, -⟩ := List.mem_map.mp hy
      obtain ⟨hp, huid⟩ := List.mem_filter.mp hp
      rw [hissued] at hp
      have hlt := h.below p (List.mem_append_right _ (List.mem_of_mem_filter hp))
      have heq := of_decide_eq_true huid
      omega
    · exact h.numbered y hy
  fires := h.fires

theorem fetched_inst (h : r.Numbered) {uid : Nat} (hlegal : r.bound ≤ uid) {q : CannedInst}
    {x : CannedThread × AsimInst} (hq : r.thread.Issues uid q x)
    (hroom : (r.fetched uid x).InHistory) : (r.fetched uid x).Numbered := by
  have htail : ∀ p ∈ r.lastTest.toList ++ r.thread.issued, p.uid < q.uid := by
    intro p hp
    have hlt := h.below p hp
    have huid := hq.uid_eq
    omega
  have hnumber : q.isTest = true → q.iteration =
      (r.committed + (tests (r.thread.issued ++ [q])).length) % SYNCH_STATUS_HISTORY := by
    intro htest
    rw [(hq.ofTest htest).1, h.count, nextCount_mod, tests_concat_of_test htest,
      List.length_append, List.length_singleton, Nat.add_assoc]
  have hcarries : Carries r.committed x.1.issued := by
    rw [hq.issued]
    refine h.carries.concat fun hp => hp.elim hnumber fun hbranch => ?_
    rw [hq.ofBranch hbranch, h.count, tests_concat_of_not_test (not_test_of_conditional hbranch)]
  have hnodup := older_nodup hcarries h.last hroom
  exact {
    increasing := by
      show Window.Increasing _ (r.lastTest.toList ++ x.1.issued)
      rw [hq.issued, ← List.append_assoc]
      refine List.pairwise_append.mpr ⟨h.increasing, List.pairwise_singleton _ _, ?_⟩
      intro p hp p' hp'
      rw [List.mem_singleton.mp hp']
      exact htail p hp
    below := by
      show ∀ p ∈ r.lastTest.toList ++ x.1.issued, p.uid < uid + 1
      rw [hq.issued, ← List.append_assoc]
      intro p hp
      have huid := hq.uid_eq
      rcases List.mem_append.mp hp with hp | hp
      · have hlt := htail p hp
        omega
      · rw [List.mem_singleton.mp hp]
        omega
    room := hroom
    count := by
      show x.1.synch_iteration_status.iteration = (r.committed + (tests x.1.issued).length) % _
      rw [hq.issued]
      cases htest : q.isTest with
      | true => rw [(hq.ofTest htest).2, hnumber htest]
      | false => rw [hq.ofOther htest, tests_concat_of_not_test htest, h.count]
    carries := hcarries
    mapped := by
      show ∀ p ∈ x.1.issued, _ → x.1.a2s_map p.uid = some p
      rw [hq.issued]
      intro p hp hkind
      rcases List.mem_append.mp hp with hp | hp
      · have hlt := htail p (List.mem_append_right _ hp)
        rw [hq.others p.uid (by have huid := hq.uid_eq; omega)]
        exact h.mapped p hp hkind
      · rw [List.mem_singleton.mp hp] at hkind ⊢
        rw [hq.uid_eq]
        exact hq.mapped hkind
    last := h.last
    slots := by
      intro t ht taken htaken
      have holder : t ∈ r.lastTest.toList ++ tests (r.thread.issued ++ [q]) := hq.issued ▸ ht
      rw [tests_append, ← List.append_assoc] at holder
      show x.1.synch_iteration_status.array t.iteration = _
      rcases List.mem_append.mp holder with hold | hnew
      · have hslot := h.slots t hold taken htaken
        cases htest : q.isTest with
        | false => rwa [hq.ofOther htest]
        | true =>
            have hne : t.iteration ≠ q.iteration := by
              have hsplit : r.older x.1.issued = r.older r.thread.issued ++ [q] := by
                unfold older
                rw [hq.issued, tests_concat_of_test htest, List.append_assoc]
              rw [hsplit, List.map_append] at hnodup
              exact (List.nodup_append.mp hnodup).2.2 _ (List.mem_map_of_mem hold) _
                (List.mem_singleton.mpr rfl)
            rw [(hq.ofTest htest).2]
            exact (Function.update_of_ne hne ..).trans hslot
      · have hnewq := List.mem_singleton.mp (List.mem_of_mem_filter hnew)
        have hnone : r.outcome t.uid = none := by
          rw [hnewq, hq.uid_eq]
          exact h.fresh uid hlegal
        have hsome : r.outcome t.uid = some taken := htaken
        rw [hnone] at hsome
        cases hsome
    fresh := by
      intro u hu
      refine h.fresh u ?_
      have hlt : uid + 1 ≤ u := hu
      omega
    flight := by
      show ∀ inst ∈ r.inFlight ++ [x.2], _ → ∃ p ∈ x.1.issued, _
      rw [hq.issued, hq.inst]
      intro inst hmem htest
      rcases List.mem_append.mp hmem with hmem | hmem
      · obtain ⟨p, hp, hpt⟩ := h.flight inst hmem htest
        exact ⟨p, List.mem_append_left _ hp, hpt⟩
      · rw [List.mem_singleton.mp hmem] at htest ⊢
        exact ⟨q, List.mem_append_right _ (List.mem_singleton.mpr rfl), htest, rfl⟩
    numbered := by
      intro y hy
      rcases List.mem_append.mp hy with hy | hy
      · obtain ⟨p, hp, rfl⟩ := List.mem_map.mp hy
        obtain ⟨hp, huid⟩ := List.mem_filter.mp hp
        obtain ⟨hp, htest⟩ := List.mem_filter.mp hp
        have hpq : p = q := by
          rw [hq.issued] at hp
          rcases List.mem_append.mp hp with hp | hp
          · have hlt := htail p (List.mem_append_right _ hp)
            have heq := of_decide_eq_true huid
            have hquid := hq.uid_eq
            omega
          · exact List.mem_singleton.mp hp
        rw [hpq] at htest ⊢
        show q.iteration = _
        rw [hnumber htest, tests_concat_of_test htest, List.length_append, List.length_singleton]
        rfl
      · exact h.numbered y hy
    fires := h.fires }

/-! ### Reads -/

/-- The tests that matter are told apart by their numbers of instruction. -/
theorem older_uid (h : r.Numbered) {p p' : CannedInst} (hp : p ∈ r.older r.thread.issued)
    (hp' : p' ∈ r.older r.thread.issued) (huid : p.uid = p'.uid) : p = p' := by
  have hinc := h.increasing
  have hnodup : ((r.lastTest.toList ++ r.thread.issued).map CannedInst.uid).Nodup :=
    List.pairwise_map.mpr (hinc.imp fun hlt => ne_of_lt hlt)
  exact List.inj_on_of_nodup_map hnodup (mem_of_older hp) (mem_of_older hp') huid

theorem older_iteration (h : r.Numbered) {p p' : CannedInst} (hp : p ∈ r.older r.thread.issued)
    (hp' : p' ∈ r.older r.thread.issued) (hiter : p.iteration = p'.iteration) : p = p' :=
  List.inj_on_of_nodup_map (older_nodup h.carries h.last h.room) hp hp' hiter

theorem iteration_lt_of_mem (h : r.Numbered) {p : CannedInst} (hp : p ∈ r.thread.issued)
    (hkind : p.isTest = true ∨ p.isConditional = true) : p.iteration < SYNCH_STATUS_HISTORY := by
  obtain ⟨before, after, hsplit⟩ := List.append_of_mem hp
  rw [h.carries before p after hsplit hkind]
  exact Nat.mod_lt _ (by decide)

theorem wasRead (h : r.Numbered) {inst : AsimInst} (hlegal : inst ∈ r.inFlight)
    (old_val : BitVec 32) :
    ∃ thread, r.thread.handle_mvm_read inst old_val = .ok thread ∧
      (r.wasRead inst old_val thread).Numbered := by
  cases hkind : inst.isCompareExchange || inst.isLoad with
  | false =>
      refine ⟨r.thread, CannedThread.read_other hkind, ?_⟩
      have hsame : r.wasRead inst old_val r.thread = r := by
        unfold CannedRun.wasRead
        rw [hkind]
        rfl
      rw [hsame]
      exact h
  | true =>
      obtain ⟨p, hp, htest, huid⟩ := h.flight inst hlegal hkind
      have hmap := h.mapped p hp (.inl htest)
      have hlt := h.iteration_lt_of_mem hp (.inl htest)
      have hmem : p ∈ r.older r.thread.issued :=
        List.mem_append_right _ (List.mem_filter.mpr ⟨hp, htest⟩)
      rw [huid] at hmap
      refine ⟨_, CannedThread.read_test hkind hmap hlt, ?_⟩
      have houtcome : ∀ thread, (r.wasRead inst old_val thread).outcome =
          Function.update r.outcome p.uid (some (old_val != 0)) := by
        intro thread
        unfold CannedRun.wasRead
        rw [hkind, huid]
        rfl
      exact { h with
        slots := by
          intro t ht taken htaken
          rw [houtcome] at htaken
          show Function.update _ p.iteration _ t.iteration = _
          by_cases htp : t.uid = p.uid
          · rw [older_uid h ht hmem htp, Function.update_self]
            rw [htp, Function.update_self] at htaken
            cases htaken
            by_cases hzero : old_val = 0
            · rw [if_pos hzero, hzero]
              rfl
            · rw [if_neg hzero, if_pos (by simpa using hzero)]
          · have hne : t.iteration ≠ p.iteration := by
              intro hiter
              exact htp (congrArg CannedInst.uid (older_iteration h ht hmem hiter))
            rw [Function.update_of_ne hne]
            rw [Function.update_of_ne htp] at htaken
            exact h.slots t ht taken htaken
        fresh := by
          intro u hu
          have hbelow := h.below p (List.mem_append_right _ hp)
          have hbound : r.bound ≤ u := hu
          rw [houtcome, Function.update_of_ne (by omega)]
          exact h.fresh u hu }

/-! ### Kills -/

/-- What a kill leaves in flight. -/
def stays (r : CannedRun) (uid : Nat) (killMe : Bool) : List CannedInst :=
  r.thread.issued.filter fun p => ¬ Window.Killed CannedInst.uid uid killMe p

/-- What it takes out. -/
def dead (r : CannedRun) (uid : Nat) (killMe : Bool) : List CannedInst :=
  r.thread.issued.filter fun p => Window.Killed CannedInst.uid uid killMe p

theorem stays_append_dead (h : r.Numbered) (uid : Nat) (killMe : Bool) :
    stays r uid killMe ++ dead r uid killMe = r.thread.issued :=
  Window.Increasing.filter_killed (List.pairwise_append.mp h.increasing).2.1

/-- The numbers that are killed are those that come after the ones that stay. -/
theorem killedNumbers_eq (h : r.Numbered) (uid : Nat) (killMe : Bool) :
    CannedThread.killedNumbers uid killMe r.thread.issued = numbers SYNCH_STATUS_HISTORY
      (r.committed + (tests (stays r uid killMe)).length + 1)
      (tests (dead r uid killMe)).length := by
  have hsplit := h.stays_append_dead uid killMe
  have hcarries := h.carries
  rw [← hsplit] at hcarries
  rw [← hcarries.back.numbers]
  unfold CannedThread.killedNumbers dead tests
  rw [List.filter_filter, List.filter_filter]
  simp only [Bool.and_comm]

theorem careful_iff {inst : AsimInst} {killMe : Bool} : r.Careful (.kill inst killMe) ↔
    0 ∉ CannedThread.killedNumbers inst.uid killMe r.thread.issued := by
  unfold Careful CannedThread.killedNumbers
  simp only [List.mem_map, List.mem_filter, decide_eq_true_eq, not_exists, not_and, and_imp]

/-- **The counter is set back to the youngest test that stays, or the assertion strikes.** -/
theorem find_new_iteration_count_eq (h : r.Numbered) (uid : Nat) (killMe : Bool) :
    r.thread.find_new_iteration_count uid killMe =
      if 0 ∈ CannedThread.killedNumbers uid killMe r.thread.issued then
        .error CannedThread.minCountError
      else .ok { r.thread with
        synch_iteration_status := { r.thread.synch_iteration_status with
          iteration := (r.committed + (tests (stays r uid killMe)).length) %
            SYNCH_STATUS_HISTORY } } := by
  unfold CannedThread.find_new_iteration_count
  rw [CannedThread.foldl_min_count, Option.toList_none, List.nil_append]
  have hnumbers := h.killedNumbers_eq uid killMe
  rcases Nat.eq_zero_or_pos (tests (dead r uid killMe)).length with hd | hd
  · rw [hd] at hnumbers
    rw [hnumbers, if_neg (by simp [numbers])]
    have hsame : (tests r.thread.issued).length = (tests (stays r uid killMe)).length := by
      rw [← h.stays_append_dead uid killMe, tests_append, List.length_append, hd, Nat.add_zero]
    rw [← hsame, ← h.count]
    rfl
  · rw [hnumbers, min?_numbers hd]
    by_cases hzero : 0 ∈ numbers SYNCH_STATUS_HISTORY
        (r.committed + (tests (stays r uid killMe)).length + 1) (tests (dead r uid killMe)).length
    · rw [if_pos hzero, if_pos hzero]
      rfl
    · rw [if_neg hzero, if_neg hzero]
      have hpos : 0 < (r.committed + (tests (stays r uid killMe)).length + 1) %
          SYNCH_STATUS_HISTORY := by
        refine Nat.pos_of_ne_zero fun h0 => hzero ?_
        exact mem_numbers.mpr ⟨0, hd, h0⟩
      have hback : (r.committed + (tests (stays r uid killMe)).length + 1) %
          SYNCH_STATUS_HISTORY - 1 = (r.committed + (tests (stays r uid killMe)).length) %
            SYNCH_STATUS_HISTORY := by
        unfold SYNCH_STATUS_HISTORY at hpos ⊢
        omega
      dsimp only
      rw [if_pos hpos, hback]
      unfold SynchStatus.set_iter_count
      rw [if_neg (not_le.mpr (Nat.mod_lt _ (by decide)))]
      rfl

/-- A kill strikes the assertion exactly when it is not careful. -/
theorem kill_fires_iff (h : r.Numbered) (inst : AsimInst) (killMe : Bool) :
    r.thread.kill inst.uid killMe = .error CannedThread.minCountError ↔
      ¬ r.Careful (.kill inst killMe) := by
  rw [careful_iff, not_not]
  unfold CannedThread.kill
  rw [h.find_new_iteration_count_eq]
  by_cases hzero : 0 ∈ CannedThread.killedNumbers inst.uid killMe r.thread.issued
  · rw [if_pos hzero]
    exact ⟨fun _ => hzero, fun _ => rfl⟩
  · rw [if_neg hzero]
    refine ⟨fun hkill => ?_, fun hin => absurd hin hzero⟩
    dsimp only [bind, Except.bind] at hkill
    split at hkill
    · have hmessage : "p" = CannedThread.minCountError := by injection hkill
      exact absurd hmessage (by decide)
    · cases hkill

theorem wasKilled (h : r.Numbered) {inst : AsimInst} {killMe : Bool} {thread : CannedThread}
    (hkill : r.thread.kill inst.uid killMe = .ok thread) :
    (r.wasKilled inst killMe thread).Numbered := by
  unfold CannedThread.kill at hkill
  rw [h.find_new_iteration_count_eq] at hkill
  by_cases hzero : 0 ∈ CannedThread.killedNumbers inst.uid killMe r.thread.issued
  · rw [if_pos hzero] at hkill
    cases hkill
  rw [if_neg hzero] at hkill
  dsimp only [bind, Except.bind] at hkill
  have hinc : Window.Increasing CannedInst.uid r.thread.issued :=
    (List.pairwise_append.mp h.increasing).2.1
  split at hkill
  · cases hkill
  rename_i lists hlists
  have hissued : lists.issued = stays r inst.uid killMe :=
    Window.issued_of_kill (w := ⟨r.thread.issued, []⟩) hinc hlists
  injection hkill with hkill
  subst hkill
  rw [hissued]
  have hsplit := h.stays_append_dead inst.uid killMe
  have hstays : Carries r.committed (stays r inst.uid killMe) := by
    have hcarries := h.carries
    rw [← hsplit] at hcarries
    exact hcarries.front
  have hsub : (stays r inst.uid killMe).Sublist r.thread.issued := List.filter_sublist
  have holder : (r.older (stays r inst.uid killMe)).Sublist (r.older r.thread.issued) :=
    List.Sublist.append_left (List.Sublist.filter _ hsub) _
  exact {
    increasing := h.increasing.sublist (List.Sublist.append_left hsub _)
    below := fun p hp => h.below p ((List.Sublist.append_left hsub _).subset hp)
    room := lt_of_le_of_lt (List.Sublist.filter _ hsub).length_le h.room
    count := rfl
    carries := hstays
    mapped := fun p hp hkind => h.mapped p (hsub.subset hp) hkind
    last := h.last
    slots := fun t ht taken htaken => h.slots t (holder.subset ht) taken htaken
    fresh := h.fresh
    flight := by
      intro i hi hkind
      obtain ⟨hi, hkept⟩ := List.mem_filter.mp hi
      obtain ⟨p, hp, htest, huid⟩ := h.flight i hi hkind
      refine ⟨p, List.mem_filter.mpr ⟨hp, ?_⟩, htest, huid⟩
      have hkept' : ¬ Window.Killed AsimInst.uid inst.uid killMe i := of_decide_eq_true hkept
      refine decide_eq_true fun hkilled => hkept' ?_
      unfold Window.Killed at hkilled ⊢
      rwa [huid] at hkilled
    numbered := h.numbered
    fires := h.fires }

/-! ### Commits -/

theorem wasCommitted (h : r.Numbered) {inst : AsimInst} (hlegal : r.Legal (.commit inst)) :
    ∃ thread, r.thread.commit_skipping_nops inst.uid = .ok thread ∧
      (r.wasCommitted inst thread).Numbered := by
  obtain ⟨before, p, after, hissued, huid, hnops⟩ := hlegal
  have hinc : Window.Increasing CannedInst.uid r.thread.issued :=
    (List.pairwise_append.mp h.increasing).2.1
  have hcommit := Window.commitSkipping_of_split hissued hinc hnops
  have hsplit : r.thread.issued = (before ++ [p]) ++ after := by
    rw [hissued, List.append_assoc, List.singleton_append]
  refine ⟨{ r.thread with issued := after }, ?_, ?_⟩
  · unfold CannedThread.commit_skipping_nops
    rw [← huid, hcommit]
  have hleft : tests (r.thread.issued.filter fun q => q.uid ≤ inst.uid) =
      tests (before ++ [p]) := by
    rw [hissued] at hinc ⊢
    rw [← huid, hinc.filter_le]
  have hcarries := h.carries
  rw [hsplit] at hcarries
  have hcount : (r.wasCommitted inst { r.thread with issued := after }).committed =
      r.committed + (tests (before ++ [p])).length := by
    show r.committed + (tests _).length = _
    rw [hleft]
  have hlast : (r.wasCommitted inst { r.thread with issued := after }).lastTest =
      (r.older (before ++ [p])).getLast? := by
    show (r.lastTest.toList ++ tests _).getLast? = _
    rw [hleft]
    rfl
  have hkept : ((r.older (before ++ [p])).getLast?).toList.Sublist (r.older (before ++ [p])) := by
    cases hl : (r.older (before ++ [p])).getLast? with
    | none => exact List.nil_sublist _
    | some t => exact List.singleton_sublist.mpr (List.mem_of_getLast? hl)
  have hall : ((r.older (before ++ [p])).getLast?.toList ++ after).Sublist
      (r.lastTest.toList ++ r.thread.issued) := by
    rw [hsplit, ← List.append_assoc]
    refine List.Sublist.append_right (hkept.trans ?_) after
    exact List.Sublist.append_left List.filter_sublist _
  have holder : (r.wasCommitted inst { r.thread with issued := after }).older after ⊆
      r.older r.thread.issued := by
    intro t ht
    unfold older at ht
    rw [hlast] at ht
    unfold older
    rw [hsplit, tests_append, ← List.append_assoc]
    rcases List.mem_append.mp ht with ht | ht
    · exact List.mem_append_left _ (hkept.subset ht)
    · exact List.mem_append_right _ ht
  have hroom : (tests after).length ≤ (tests r.thread.issued).length := by
    rw [hsplit, tests_append (before ++ [p]), List.length_append]
    exact Nat.le_add_left ..
  exact {
    increasing := by
      rw [hlast]
      exact h.increasing.sublist hall
    below := by
      rw [hlast]
      exact fun q hq => h.below q (hall.subset hq)
    room := lt_of_le_of_lt hroom h.room
    count := by
      rw [hcount, Nat.add_assoc]
      show r.thread.synch_iteration_status.iteration = (_ + (_ + (tests after).length)) % _
      rw [← List.length_append, ← tests_append, ← hsplit]
      exact h.count
    carries := by
      rw [hcount]
      exact hcarries.back
    mapped := fun q hq hkind => h.mapped q (hsplit ▸ List.mem_append_right _ hq) hkind
    last := by
      intro t ht
      rw [hlast] at ht
      rw [hcount]
      exact youngest hcarries.front h.last ht
    slots := fun t ht taken htaken => h.slots t (holder ht) taken htaken
    fresh := h.fresh
    flight := by
      intro i hi hkind
      obtain ⟨hi, hlt⟩ := List.mem_filter.mp hi
      obtain ⟨q, hq, htest, hquid⟩ := h.flight i hi hkind
      refine ⟨q, ?_, htest, hquid⟩
      rw [hissued] at hq hinc
      have hafter := hinc.filter_gt
      rw [← hafter]
      refine List.mem_filter.mpr ⟨hq, decide_eq_true ?_⟩
      rw [huid, hquid]
      exact of_decide_eq_true hlt
    numbered := h.numbered
    fires := h.fires }

/-! ### Runs -/

theorem step (h : r.Numbered) (hst : Step g next Careful r t) : t.Numbered := by
  obtain ⟨-, e, hlegal, hcareful, rfl, hroom⟩ := hst
  cases e with
  | fetch predicted_pc uid =>
      rcases CannedThread.generate_cases g uid predicted_pc h.iteration_lt with
        ⟨q, x, hx, hq⟩ | hjunk
      · simp only [CannedRun.exec, hx] at hroom ⊢
        exact h.fetched_inst hlegal hq hroom
      · simp only [CannedRun.exec, hjunk]
        cases hwrong : r.thread.wrongPath uid with
        | error message => exact h.stop (CannedThread.wrongPath_error hwrong)
        | ok x =>
            obtain ⟨hinst, hissued, hstatus, hmap⟩ := CannedThread.wrongPath_ok hwrong
            exact h.fetched_other hlegal hinst hissued hstatus hmap
  | doRead inst old_val =>
      obtain ⟨thread, hread, hnumbered⟩ := h.wasRead hlegal old_val
      simp only [CannedRun.exec, hread]
      exact hnumbered
  | issue inst =>
      cases hissue : r.thread.issue next inst with
      | ok _ =>
          simp only [CannedRun.exec, hissue]
          exact h
      | error message =>
          simp only [CannedRun.exec, hissue]
          exact h.stop (CannedThread.issue_error hissue)
  | kill inst killMe =>
      cases hkill : r.thread.kill inst.uid killMe with
      | ok thread =>
          simp only [CannedRun.exec, hkill]
          exact h.wasKilled hkill
      | error message =>
          simp only [CannedRun.exec, hkill]
          refine h.stop ?_
          rintro rfl
          exact (h.kill_fires_iff inst killMe).mp hkill hcareful
  | commit inst =>
      obtain ⟨thread, hcommit, hnumbered⟩ := h.wasCommitted hlegal
      simp only [CannedRun.exec, hcommit]
      exact hnumbered

theorem of_reaches (h : Reaches Start (Step g next Careful) r) : r.Numbered :=
  h.invariant (fun _ hs => hs ▸ start) fun _ _ hr hst => hr.step hst

/-- A branch has the number of the test that it reads. -/
theorem branch_carries (h : r.Numbered) {before after : List CannedInst} {b t : CannedInst}
    (hsplit : r.thread.issued = before ++ b :: after) (hb : b.isConditional = true)
    (ht : (r.older before).getLast? = some t) : b.iteration = t.iteration := by
  have hcarries := h.carries
  rw [h.carries before b after hsplit (.inr hb),
    tests_concat_of_not_test (not_test_of_conditional hb)]
  rw [hsplit] at hcarries
  exact (youngest hcarries.front h.last ht).symm

theorem right (h : r.Numbered) : r.Right next where
  distinct := by
    rw [h.carries.numbers]
    exact nodup_numbers (le_of_lt h.room)
  carries := fun before b after t hsplit hb ht => h.branch_carries hsplit hb ht
  again := by
    intro x hx y hy hxy
    rw [h.numbered x hx, h.numbered y hy, hxy]
  fires := h.fires
  direct := by
    intro before b after t taken hsplit hb ht htaken
    have hmem : b ∈ r.thread.issued := by
      rw [hsplit]
      exact List.mem_append_right _ List.mem_cons_self
    have hmap := h.mapped b hmem (.inr hb)
    have hlt := h.iteration_lt_of_mem hmem (.inr hb)
    have hiter := h.branch_carries hsplit hb ht
    have holder : t ∈ r.older r.thread.issued := by
      have hold := List.mem_of_getLast? ht
      unfold older at hold ⊢
      rw [hsplit, tests_append, ← List.append_assoc]
      exact List.mem_append_left _ hold
    have hslot := h.slots t holder taken htaken
    refine ⟨if taken then b.target else next b.pc, ?_⟩
    have hkind : (convert_synth_inst_to_asim_inst b).isBranch = true ∧
        (convert_synth_inst_to_asim_inst b).predicated = true :=
      ⟨(Bool.and_eq_true_iff.mp hb).1, hb⟩
    unfold CannedThread.issue
    rw [if_pos (Bool.and_eq_true_iff.mpr hkind),
      show (convert_synth_inst_to_asim_inst b).uid = b.uid from rfl, hmap]
    dsimp only
    unfold SynchStatus.blocked SynchStatus.get_elem
    rw [if_neg (not_le.mpr hlt), hiter, hslot]
    cases taken <;> rfl

end Numbered

/-! ### Runs of one test after the other -/

/-- The lock, at address 0 and without delays. -/
def smallLock : GenableProgram := .make_synchronization_routine 0 0 0

/-- Nothing is in flight, and `k` tests were committed. -/
structure Idle (r : CannedRun) (k : Nat) : Prop where
  stopped : r.stopped = none
  jumped : r.thread.needJumpToNextPC = false
  issued : r.thread.issued = []
  committed : r.committed = k

theorem reaches_exec {ok : CannedRun → CannedEvent → Prop} {e : CannedEvent}
    (hr : Reaches Start (Step g next ok) r) (hstopped : r.stopped = none) (hlegal : r.Legal e)
    (hok : ok r e) (hexec : r.exec g next e = t) (hroom : t.InHistory) :
    Reaches Start (Step g next ok) t :=
  hr.step ⟨hstopped, e, hlegal, hok, hexec.symm, hroom⟩

/-- A fetched test, and nothing else in flight. -/
structure OneTest (r : CannedRun) (k : Nat) (q : CannedInst) : Prop where
  stopped : r.stopped = none
  jumped : r.thread.needJumpToNextPC = false
  issued : r.thread.issued = [q]
  committed : r.committed = k
  isTest : q.isTest = true
  flight : convert_synth_inst_to_asim_inst q ∈ r.inFlight

theorem Idle.fetch {k : Nat} (h : r.Idle k) (hr : Reaches Start (Step smallLock next Careful) r) :
    ∃ t q, Reaches Start (Step smallLock next Careful) t ∧ t.OneTest k q := by
  have hnumbered := Numbered.of_reaches hr
  have hget : smallLock.get_inst ⟨0, 0⟩ = some (GenableProgram.add_load_test ⟨0, 0⟩) := rfl
  obtain ⟨q, x, hx, hq, htype, hjump⟩ :=
    CannedThread.generate_in_range r.bound h.jumped hget hnumbered.iteration_lt
  have hexec : r.exec smallLock next (.fetch ⟨0, 0⟩ r.bound) = r.fetched r.bound x := by
    simp only [exec, hx]
    rfl
  have hissued : (r.fetched r.bound x).thread.issued = [q] := by
    show x.1.issued = _
    rw [hq.issued, h.issued]
    rfl
  have htest : q.isTest = true := by
    unfold CannedInst.isTest CannedInst.isCompareExchange CannedInst.isLoad
    rw [htype]
    rfl
  refine ⟨r.fetched r.bound x, q,
    reaches_exec (e := .fetch ⟨0, 0⟩ r.bound) hr h.stopped le_rfl trivial hexec ?_,
    h.stopped, hjump, hissued, h.committed, htest, ?_⟩
  · show (tests (r.fetched r.bound x).thread.issued).length < SYNCH_STATUS_HISTORY
    rw [hissued, tests_singleton htest]
    show 1 < SYNCH_STATUS_HISTORY
    decide
  · rw [← hq.inst]
    exact List.mem_append_right _ (List.mem_singleton.mpr rfl)

theorem OneTest.commit {k : Nat} {q : CannedInst} (h : r.OneTest k q)
    (hr : Reaches Start (Step smallLock next Careful) r) :
    ∃ t, Reaches Start (Step smallLock next Careful) t ∧ t.Idle (k + 1) := by
  have hcommit : r.thread.commit_skipping_nops (convert_synth_inst_to_asim_inst q).uid =
      .ok { r.thread with issued := [] } := by
    unfold CannedThread.commit_skipping_nops
    rw [h.issued, Window.commitSkipping]
    simp only [convert_synth_inst_to_asim_inst, if_true]
  have hexec : r.exec smallLock next (.commit (convert_synth_inst_to_asim_inst q)) =
      r.wasCommitted (convert_synth_inst_to_asim_inst q) { r.thread with issued := [] } := by
    simp only [exec, hcommit]
    rfl
  refine ⟨_, reaches_exec (e := .commit (convert_synth_inst_to_asim_inst q)) hr h.stopped
    ⟨[], q, [], h.issued, rfl, fun _ hp => absurd hp List.not_mem_nil⟩ trivial hexec ?_,
    h.stopped, h.jumped, rfl, ?_⟩
  · show 0 < SYNCH_STATUS_HISTORY
    decide
  · show r.committed + (tests (r.thread.issued.filter _)).length = k + 1
    have hself : [q].filter (fun p => p.uid ≤ q.uid) = [q] := by simp
    rw [h.issued, h.committed]
    show k + (tests ([q].filter fun p => p.uid ≤ q.uid)).length = k + 1
    rw [hself, tests_singleton h.isTest]
    rfl

/-- The first fetch is a branch; it commits. -/
theorem idle_zero : ∃ r, Reaches Start (Step smallLock next Careful) r ∧ r.Idle 0 := by
  let branch : CannedInst :=
    { CannedThread.make_indirect_branch 0 0 with uid := 0 }
  have hstart : Reaches Start (Step smallLock next Careful) start := .start (Eq.refl start)
  have hfetch : Reaches Start (Step smallLock next Careful)
      (start.exec smallLock next (.fetch ⟨0, 0⟩ 0)) := by
    refine reaches_exec (e := .fetch ⟨0, 0⟩ 0) hstart rfl (Nat.zero_le _) trivial rfl ?_
    show 0 < SYNCH_STATUS_HISTORY
    decide
  refine ⟨_, reaches_exec (e := .commit (convert_synth_inst_to_asim_inst branch)) hfetch rfl
    ⟨[], branch, [], rfl, rfl, fun _ hp => absurd hp List.not_mem_nil⟩ trivial rfl ?_,
    rfl, rfl, rfl, rfl⟩
  show 0 < SYNCH_STATUS_HISTORY
  decide

/-- Any number of tests can be committed. -/
theorem idle_run (next : Iaddr → Iaddr) (k : Nat) :
    ∃ r, Reaches Start (Step smallLock next Careful) r ∧ r.Idle k := by
  induction k with
  | zero => exact idle_zero
  | succ k ih =>
      obtain ⟨r, hr, hidle⟩ := ih
      obtain ⟨t, q, ht, hone⟩ := hidle.fetch hr
      exact hone.commit ht

/-- **A branch reads the outcome of its own test, as long as no kill kills number 0.** -/
theorem right_of_careful (h : Reaches Start (Step g next Careful) r) :
    r.Right next ∧ ∀ inst killMe,
      r.thread.kill inst.uid killMe = .error CannedThread.minCountError ↔
        ¬ r.Careful (.kill inst killMe) :=
  ⟨(Numbered.of_reaches h).right, (Numbered.of_reaches h).kill_fires_iff⟩

/-- A fetch or a read that can be made, or a kill that kills no number 0. -/
def fits (r : CannedRun) : CannedEvent → Bool
  | .fetch _ uid => r.bound ≤ uid
  | .doRead inst _ => inst ∈ r.inFlight
  | .kill inst _ => inst ∈ r.inFlight ∧ ∀ p ∈ tests r.thread.issued, p.iteration ≠ 0
  | _ => false

theorem step_of_fits {e : CannedEvent} (hfits : r.fits e = true) (hstopped : r.stopped = none)
    (hroom : (r.exec g next e).InHistory) : Step g next Careful r (r.exec g next e) := by
  refine ⟨hstopped, e, ?_, ?_, rfl, hroom⟩
  · cases e
    case fetch predicted_pc uid =>
      show r.bound ≤ uid
      exact of_decide_eq_true hfits
    case doRead inst old_val =>
      show inst ∈ r.inFlight
      exact of_decide_eq_true hfits
    case kill => exact (of_decide_eq_true hfits).1
    all_goals cases hfits
  · cases e
    case kill => exact fun p hp _ => (of_decide_eq_true hfits).2 p hp
    all_goals trivial

/-- The second test is killed and fetched again, and it finds the lock taken: its branch goes
back to the start. -/
theorem right_of_careful_killed : ∃ r : CannedRun,
    r.thread.issued.map (fun p => (p.uid, p.iteration)) = [(0, 0), (2, 1), (3, 1)] ∧
      r.numbered = [(0, 1), (0, 1)] ∧ r.outcome 2 = some true ∧
      r.Right id ∧ ∀ inst killMe,
        r.thread.kill inst.uid killMe = .error CannedThread.minCountError ↔
          ¬ r.Careful (.kill inst killMe) := by
  let killed : AsimInst := ⟨1, .load, false, 0, 1⟩
  let events : List CannedEvent :=
    [.fetch ⟨0, 0⟩ 0, .fetch ⟨0, 0⟩ 1, .kill killed true, .fetch ⟨0, 0⟩ 2,
      .doRead { killed with uid := 2 } 1, .fetch ⟨32, 0⟩ 3]
  let polite : CannedRun → CannedEvent → Bool := fun r e => r.fits e &&
    decide (r.stopped = none ∧ (tests (r.exec smallLock id e).thread.issued).length < 9)
  have hrun : (after (fun r e => some (r.exec smallLock id e)) polite events start).map
      (fun r => (r.thread.issued.map (fun p => (p.uid, p.iteration)), r.numbered, r.outcome 2)) =
      some ([(0, 0), (2, 1), (3, 1)], [(0, 1), (0, 1)], some true) := by decide +kernel
  obtain ⟨r, hr, hstate⟩ := Option.map_eq_some_iff.mp hrun
  simp only [Prod.mk.injEq] at hstate
  obtain ⟨hissued, hnumbered, houtcome⟩ := hstate
  have hreach : Reaches Start (Step smallLock id Careful) r := by
    refine Reaches.after ?_ (.start (Eq.refl start)) hr
    intro s e t hok hexec
    obtain rfl := Option.some.inj hexec
    obtain ⟨hfits, hok⟩ := Bool.and_eq_true_iff.mp hok
    obtain ⟨hstopped, hroom⟩ := of_decide_eq_true hok
    refine step_of_fits hfits hstopped (hroom.trans ?_)
    decide
  exact ⟨r, hissued, hnumbered, houtcome, right_of_careful hreach⟩

/-- Any step that the simulator can make. -/
def AnyStep (g : GenableProgram) (next : Iaddr → Iaddr) (r t : CannedRun) : Prop :=
  Step g next (fun _ _ => True) r t

/-- The 10000th test is killed. -/
theorem not_always_right : ∃ r, Reaches Start (AnyStep smallLock id) r ∧ ¬ r.Right id := by
  obtain ⟨r, hr, hidle⟩ := idle_run id 9999
  obtain ⟨t, q, ht, hone⟩ := hidle.fetch hr
  have hany : Reaches Start (AnyStep smallLock id) t := by
    refine ht.invariant (fun _ hs => .start hs) fun _ _ hs hst => hs.step ?_
    obtain ⟨hstopped, e, hlegal, -, heq, hroom⟩ := hst
    exact ⟨hstopped, e, hlegal, trivial, heq, hroom⟩
  have hnumbered := Numbered.of_reaches ht
  have hzero : q.iteration = 0 := by
    rw [hnumbered.carries [] q [] hone.issued (.inl hone.isTest), hone.committed, List.nil_append,
      tests_singleton hone.isTest]
    show (9999 + 1) % SYNCH_STATUS_HISTORY = 0
    decide
  have hkill : t.thread.kill (convert_synth_inst_to_asim_inst q).uid true =
      .error CannedThread.minCountError := by
    refine (hnumbered.kill_fires_iff (convert_synth_inst_to_asim_inst q) true).mpr ?_
    intro hcareful
    refine hcareful q ?_ (.inr ⟨rfl, rfl⟩) hzero
    rw [hone.issued, tests_singleton hone.isTest]
    exact List.mem_singleton.mpr rfl
  have hexec : t.exec smallLock id (.kill (convert_synth_inst_to_asim_inst q) true) =
      { t with stopped := some CannedThread.minCountError } := by
    simp only [exec, hkill]
    rfl
  refine ⟨_, reaches_exec (e := .kill (convert_synth_inst_to_asim_inst q) true) hany hone.stopped
    hone.flight trivial hexec hnumbered.room, ?_⟩
  exact fun hright => hright.fires rfl

end CannedRun

end AsimFeeder.Synth
