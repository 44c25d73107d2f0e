/-
The memory-trace feeder delivers every trace, and when its waits and its lists fail.

Each thread is right by itself: what was committed, what is issued, what waits to be
replayed and what is left of the bundle are together what has been read of its trace
(`Tracks`).  Waits are between threads: a request leaves the trace only when the counter
of the other thread has reached its number, and a commit counter is at most the number of
committed operations, as long as the no-ops that the model commits itself are not counted.

The issued list is what the model has in flight, less some no-ops: the check for the end
of the trace drops them all.
-/
import AsimFeeder.MemFeeder.MemBundle

namespace AsimFeeder.MemFeeder

open Lib

variable {ι : Type}

/-! ### One thread -/

/-- A thread that was made for a trace. -/
structure MemThread.Start (t : MemThread ι) : Prop where
  lists : t.lists = ⟨[], []⟩
  haveBundle : t.haveBundle = false
  waiting : t.waiting = none
  currentInst : t.currentInst = 0
  lines : t.lines = t.trace
  read : t.read = []
  committed : t.committed = []
  inflight : t.inflight = []
  ended : t.ended = false

namespace MemThread

variable {t u : MemThread ι} {uid : Nat}

/-- A commit in order: nothing but no-ops is in flight before the instruction. -/
def InOrder (t : MemThread ι) (uid : Nat) : Prop :=
  ∃ before p after, t.inflight = before ++ p :: after ∧ p.uid = uid ∧
    ∀ q ∈ before, q.isNOP = true

/-- Operations move in order, from the trace to what is committed. -/
structure Tracks (t : MemThread ι) : Prop where
  increasing : Window.Increasing MemMemop.uid t.inflight
  fetched : ∀ p ∈ t.inflight, p.uid ∈ t.fetched
  sub : t.lists.issued.Sublist t.inflight
  ops : ∀ p ∈ t.inflight, p.isNOP = false → p ∈ t.lists.issued
  same : t.committed ++ (MemMemop.ops t.lists.issued ++ MemMemop.ops t.lists.replay ++
    MemMemop.ops t.unissued) = t.read.map Request.access
  lines : t.lines.map TraceLine.request = t.read ++ t.left
  ready : t.haveBundle = true → t.Ready
  ended : t.ended = true → t.committed = t.lines.map TraceLine.access

theorem Start.tracks (h : t.Start) : t.Tracks where
  increasing := by rw [h.inflight]; exact List.Pairwise.nil
  fetched := by rw [h.inflight]; exact fun p hp => by cases hp
  sub := by rw [h.lists, h.inflight]
  ops := by rw [h.inflight]; exact fun p hp => by cases hp
  same := by
    unfold unissued
    rw [h.committed, h.lists, h.read, h.haveBundle]
    rfl
  lines := by
    unfold left remaining
    rw [h.read, h.waiting, h.lines]
    rfl
  ready := by rw [h.haveBundle]; exact fun hfalse => by cases hfalse
  ended := by rw [h.ended]; exact fun hfalse => by cases hfalse

/-- What is in the issued list is in flight, with increasing numbers. -/
theorem Tracks.issued_increasing (h : t.Tracks) :
    Window.Increasing MemMemop.uid t.lists.issued := h.increasing.sublist h.sub

theorem Tracks.fetch (h : t.Tracks) {getCurrentInst : ι → UInt64}
    (hnew : ∀ v ∈ t.fetched, v < uid) (hu : Fetches getCurrentInst t uid u) : u.Tracks := by
  obtain ⟨m, issued, rfl, hissued, hinflight, hkept⟩ := hu.issued
  obtain ⟨new, hread, hleft, hops, -⟩ := hu.read
  have hsub : issued.Sublist t.inflight := by
    rcases hkept with rfl | rfl
    · exact h.sub
    · exact List.filter_sublist.trans h.sub
  have hsame : u.committed ++ (MemMemop.ops u.lists.issued ++ MemMemop.ops u.lists.replay ++
      MemMemop.ops u.unissued) = u.read.map Request.access := by
    rw [hu.committed, hops, hread, List.map_append, ← h.same]
    simp only [List.append_assoc]
  have hlines : u.lines.map TraceLine.request = u.read ++ u.left := by
    rw [hu.lines, h.lines, hread, hleft, List.append_assoc]
  exact {
    increasing := by
      rw [hinflight]
      refine List.pairwise_append.mpr ⟨h.increasing, List.pairwise_singleton _ _, ?_⟩
      intro p hp q hq
      rw [List.mem_singleton.mp hq]
      exact hnew _ (h.fetched p hp)
    fetched := by
      intro p hp
      rw [hinflight] at hp
      rw [hu.fetched]
      rcases List.mem_append.mp hp with hp | hp
      · exact List.mem_cons_of_mem _ (h.fetched p hp)
      · rw [List.mem_singleton.mp hp]
        exact List.mem_cons_self
    sub := by
      rw [hissued, hinflight]
      exact hsub.append (List.Sublist.refl [m])
    ops := by
      intro p hp hop
      rw [hinflight] at hp
      rw [hissued]
      rcases List.mem_append.mp hp with hp | hp
      · refine List.mem_append_left _ ?_
        rcases hkept with rfl | rfl
        · exact h.ops p hp hop
        · exact List.mem_filter.mpr ⟨h.ops p hp hop, by rw [hop]; rfl⟩
      · exact List.mem_append_right _ hp
    same := hsame
    lines := hlines
    ready := hu.ready
    ended := by
      intro hended
      rcases hu.ended hended with hold | ⟨hnone, hissued₀, hreplay₀, hunissued₀⟩
      · rw [hu.committed, hu.lines]
        exact h.ended hold
      · rw [hissued₀, hreplay₀, hunissued₀, List.append_nil, List.append_nil,
          List.append_nil] at hsame
        rw [hnone, List.append_nil] at hlines
        rw [hsame, ← hlines, List.map_map]
        rfl }

theorem kill_eq (t : MemThread ι) (uid : Nat) (killMe : Bool) :
    t.kill uid killMe = (t.lists.kill MemMemop.uid uid killMe).map fun lists =>
      { t with
        lists := lists
        inflight := t.inflight.filter fun p => ¬ Window.Killed MemMemop.uid uid killMe p } := by
  unfold kill Window.kill copy_to_replay_queue kill_and_replay_this_inst
  rw [Option.map_map]
  rfl

theorem Tracks.kill (h : t.Tracks) {killMe : Bool} (hkill : t.kill uid killMe = some u) :
    u.Tracks := by
  rw [kill_eq] at hkill
  obtain ⟨lists, hlists, rfl⟩ := Option.map_eq_some_iff.mp hkill
  obtain ⟨dead, hissued, hreplay, -, -⟩ := Window.kill_eq_some h.issued_increasing hlists
  have hfilter := Window.issued_of_kill h.issued_increasing hlists
  exact {
    increasing := h.increasing.sublist List.filter_sublist
    fetched := fun p hp => h.fetched p (List.mem_of_mem_filter hp)
    sub := by
      show lists.issued.Sublist _
      rw [hfilter]
      exact h.sub.filter _
    ops := by
      intro p hp hop
      show p ∈ lists.issued
      obtain ⟨hin, hstays⟩ := List.mem_filter.mp hp
      rw [hfilter]
      exact List.mem_filter.mpr ⟨h.ops p hin hop, hstays⟩
    same := by
      show t.committed ++ (MemMemop.ops lists.issued ++ MemMemop.ops lists.replay ++
        MemMemop.ops t.unissued) = _
      rw [← h.same, hissued, hreplay, MemMemop.ops_append, MemMemop.ops_append]
      simp only [List.append_assoc]
    lines := h.lines
    ready := h.ready
    ended := h.ended }

/-- A kill leaves something in flight, unless there was nothing. -/
def SafeKill (t : MemThread ι) (uid : Nat) : Prop :=
  t.lists.issued = [] ∨ ∃ p ∈ t.lists.issued, p.uid ≤ uid

/-- What is committed is in the issued list, or there is nothing to stumble over. -/
def SafeCommit (t : MemThread ι) (uid : Nat) : Prop :=
  (∃ p ∈ t.lists.issued, p.uid = uid) ∨ ∀ p ∈ t.lists.issued, p.isNOP = true

theorem kill_ok_iff (t : MemThread ι) (uid : Nat) (killMe : Bool) :
    (∃ u, t.kill uid killMe = some u) ↔ t.SafeKill uid := by
  refine Iff.trans ?_ (Window.kill_isSome killMe t.lists)
  rw [kill_eq]
  cases t.lists.kill MemMemop.uid uid killMe with
  | none => simp
  | some lists => simp

/-- What a commit takes from the front of the issued list. -/
theorem Tracks.commit_eq (h : t.Tracks) (hin : t.InOrder uid) (hsafe : t.SafeCommit uid) :
    ∃ left stays found, t.lists.issued = left ++ stays ∧
      t.commit_skipping_nops uid = some { t with
        lists := { t.lists with issued := stays }
        currentInst := if found then t.currentInst + 1 else t.currentInst
        committed := t.committed ++ MemMemop.ops left
        inflight := t.inflight.filter fun p => uid < p.uid } ∧
      stays.Sublist (t.inflight.filter fun p => uid < p.uid) ∧
      (∀ p ∈ t.inflight, uid < p.uid → p.isNOP = false → p ∈ stays) ∧
      (found = true → ∃ p ∈ t.lists.issued, p.uid = uid ∧
        MemMemop.ops left = p.access?.toList) := by
  unfold commit_skipping_nops
  by_cases hissued : ∃ p ∈ t.lists.issued, p.uid = uid
  · obtain ⟨p, hp, rfl⟩ := hissued
    obtain ⟨before, q, after, hsplit, hq, hnops⟩ := hin
    obtain ⟨pre, post, hpre⟩ := List.append_of_mem hp
    have hinc := h.issued_increasing
    rw [hpre] at hinc
    have hpost : t.lists.issued.filter (fun q => p.uid < q.uid) = post := by
      rw [hpre]
      exact hinc.filter_gt
    -- the instructions before it are in flight before it, so they are no-ops
    have hskip : ∀ r ∈ pre, r.isNOP = true := by
      intro r hr
      have hlt : r.uid < p.uid := (List.pairwise_append.mp hinc).2.2 r hr p List.mem_cons_self
      have hfront : t.inflight.filter (fun r => r.uid < q.uid) = before := by
        have hflight := h.increasing
        rw [hsplit] at hflight ⊢
        exact hflight.filter_lt
      apply hnops
      rw [← hfront, List.mem_filter, hq]
      refine ⟨h.sub.subset ?_, decide_eq_true hlt⟩
      rw [hpre]
      exact List.mem_append_left _ hr
    rw [Window.commitSkipping_of_split hpre h.issued_increasing hskip]
    refine ⟨pre ++ [p], post, true, ?_, rfl, ?_, ?_, fun _ => ⟨p, hp, rfl, ?_⟩⟩
    · rw [hpre, List.append_assoc, List.singleton_append]
    · rw [← hpost]
      exact h.sub.filter _
    · intro r hr hlt hop
      rw [← hpost, List.mem_filter]
      exact ⟨h.ops r hr hop, decide_eq_true hlt⟩
    · rw [MemMemop.ops_append, MemMemop.ops_of_all_nop hskip, MemMemop.ops_cons]
      exact List.append_nil _
  · have hmissing : ∀ p ∈ t.lists.issued, p.uid ≠ uid := fun p hp hp' => hissued ⟨p, hp, hp'⟩
    have hall : ∀ p ∈ t.lists.issued, p.isNOP = true := hsafe.resolve_left hissued
    rw [Window.commitSkipping_of_missing hmissing, if_pos hall]
    refine ⟨t.lists.issued, [], false, (List.append_nil _).symm, rfl, List.nil_sublist _, ?_,
      fun hfalse => by cases hfalse⟩
    intro p hp _ hop
    rw [hall p (h.ops p hp hop)] at hop
    cases hop

theorem Tracks.commit_ok_iff (h : t.Tracks) (hin : t.InOrder uid) :
    (∃ u, t.commit_skipping_nops uid = some u) ↔ t.SafeCommit uid := by
  constructor
  · rintro ⟨u, hu⟩
    by_contra hsafe
    unfold SafeCommit at hsafe
    push Not at hsafe
    obtain ⟨hmissing, p, hp, hop⟩ := hsafe
    unfold commit_skipping_nops at hu
    rw [Window.commitSkipping_of_missing hmissing, if_neg fun hall => hop (hall p hp)] at hu
    cases hu
  · intro hsafe
    obtain ⟨left, stays, found, -, heq, -⟩ := h.commit_eq hin hsafe
    exact ⟨_, heq⟩

/-- When a thread has ended, there are no operations left. -/
theorem Tracks.ops_of_ended (h : t.Tracks) (hended : t.ended = true) :
    MemMemop.ops t.lists.issued = [] := by
  have hsame := h.same
  have hlines := congrArg (List.map Request.access) h.lines
  rw [List.map_append, ← hsame, h.ended hended, List.map_map, List.append_assoc] at hlines
  have hnil := List.append_right_eq_self.mp hlines.symm
  simp only [List.append_eq_nil_iff] at hnil
  exact hnil.1.1.1

theorem Tracks.commit (h : t.Tracks) (hin : t.InOrder uid)
    (hcommit : t.commit_skipping_nops uid = some u) : u.Tracks := by
  obtain ⟨left, stays, found, hissued, heq, hsub, hops, -⟩ :=
    h.commit_eq hin ((h.commit_ok_iff hin).mp ⟨u, hcommit⟩)
  rw [heq] at hcommit
  cases hcommit
  exact {
    increasing := h.increasing.sublist List.filter_sublist
    fetched := fun p hp => h.fetched p (List.mem_of_mem_filter hp)
    sub := hsub
    ops := by
      intro p hp hop
      obtain ⟨hmem, hlt⟩ := List.mem_filter.mp hp
      exact hops p hmem (of_decide_eq_true hlt) hop
    same := by
      show t.committed ++ MemMemop.ops left ++ (MemMemop.ops stays ++
        MemMemop.ops t.lists.replay ++ MemMemop.ops t.unissued) = _
      rw [← h.same, hissued, MemMemop.ops_append]
      simp only [List.append_assoc]
    lines := h.lines
    ready := h.ready
    ended := by
      intro hended
      have hnone := h.ops_of_ended hended
      rw [hissued, MemMemop.ops_append, List.append_eq_nil_iff] at hnone
      show t.committed ++ MemMemop.ops left = _
      rw [hnone.1, List.append_nil]
      exact h.ended hended }

end MemThread

/-! ### All threads -/

variable {s s' : ι → MemThread ι} {t : ι}

/-- Some request that is still to come waits for the thread. -/
def Waited (s : ι → MemThread ι) (t : ι) : Prop :=
  ∃ u, ∃ q ∈ (s u).left, ∃ n, q.after = some (t, n)

/-- Each thread is right by itself, and what it has read was allowed. -/
structure Delivers (s : ι → MemThread ι) : Prop where
  tracks : ∀ t, (s t).Tracks
  waits : ∀ u, ∀ q ∈ (s u).read, ∀ t n, q.after = some (t, n) →
    n.toNat ≤ (s t).committed.length
  counts : ∀ t, Waited s t → (s t).currentInst.toNat ≤ (s t).committed.length

/-- A request that is allowed by the counters is allowed by what is committed. -/
theorem Delivers.allowed (h : Delivers s) {u : ι} {q : Request ι} (hq : q ∈ (s u).left)
    (hallowed : q.Allowed fun v => (s v).currentInst) {n : UInt64}
    (hafter : q.after = some (t, n)) : n.toNat ≤ (s t).committed.length :=
  le_trans (UInt64.le_iff_toNat_le.mp (hallowed t n hafter)) (h.counts t ⟨u, q, hq, n, hafter⟩)

variable [DecidableEq ι]

/-- A step of one thread: its requests move on, and its commits are counted. -/
theorem Delivers.update (h : Delivers s) {u : MemThread ι} (htracks : u.Tracks)
    (hcommitted : (s t).committed.length ≤ u.committed.length)
    (hleft : ∀ q ∈ u.left, q ∈ (s t).left)
    (hread : ∀ q ∈ u.read, q ∈ (s t).read ∨
      q ∈ (s t).left ∧ q.Allowed fun v => (s v).currentInst)
    (hcount : Waited s t → u.currentInst.toNat ≤ u.committed.length) :
    Delivers (Function.update s t u) := by
  have hmore (v : ι) : (s v).committed.length ≤ (Function.update s t u v).committed.length := by
    by_cases hv : v = t
    · subst hv
      rw [Function.update_self]
      exact hcommitted
    · rw [Function.update_of_ne hv]
  have hleft' (v : ι) : ∀ q ∈ (Function.update s t u v).left, q ∈ (s v).left := by
    by_cases hv : v = t
    · subst hv
      rw [Function.update_self]
      exact hleft
    · rw [Function.update_of_ne hv]
      exact fun _ hq => hq
  exact {
    tracks := by
      intro v
      by_cases hv : v = t
      · subst hv
        rw [Function.update_self]
        exact htracks
      · rw [Function.update_of_ne hv]
        exact h.tracks v
    waits := by
      intro v q hq w n hafter
      refine le_trans ?_ (hmore w)
      by_cases hv : v = t
      · subst hv
        rw [Function.update_self] at hq
        rcases hread q hq with hold | ⟨hnew, hallowed⟩
        · exact h.waits v q hold w n hafter
        · exact h.allowed hnew hallowed hafter
      · rw [Function.update_of_ne hv] at hq
        exact h.waits v q hq w n hafter
    counts := by
      rintro v ⟨w, q, hq, n, hafter⟩
      have hwaited : Waited s v := ⟨w, q, hleft' w q hq, n, hafter⟩
      by_cases hv : v = t
      · subst hv
        rw [Function.update_self]
        exact hcount hwaited
      · rw [Function.update_of_ne hv]
        exact h.counts v hwaited }

/-! ### Runs -/

/-- Numbers of a thread increase, what is killed was fetched, and commits are in order. -/
def Legal (s : ι → MemThread ι) : MemEvent ι → Prop
  | .fetch t _ uid => ∀ v ∈ (s t).fetched, v < uid
  | .kill t uid _ => uid ∈ (s t).fetched
  | .commit t uid => (s t).InOrder uid

/-- No list is emptied by a kill, and a commit does not look for a no-op that was dropped. -/
def Safe (s : ι → MemThread ι) : MemEvent ι → Prop
  | .fetch _ _ _ => True
  | .kill t uid _ => (s t).SafeKill uid
  | .commit t uid => (s t).SafeCommit uid

/-- No-ops are not committed where somebody counts. -/
def Counted (s : ι → MemThread ι) : MemEvent ι → Prop
  | .fetch _ _ _ => True
  | .kill _ _ _ => True
  | .commit t uid => ∀ p ∈ (s t).lists.issued, p.uid = uid → p.isNOP = true → ¬ Waited s t

def Step (s s' : ι → MemThread ι) : Prop := ∃ e, Legal s e ∧ exec s e = some s'

def CarefulStep (s s' : ι → MemThread ι) : Prop :=
  ∃ e, Legal s e ∧ Safe s e ∧ Counted s e ∧ exec s e = some s'

def Start (s : ι → MemThread ι) : Prop := ∀ t, (s t).Start

omit [DecidableEq ι] in
theorem Start.delivers (h : Start s) : Delivers s where
  tracks t := (h t).tracks
  waits := by
    intro u q hq
    rw [(h u).read] at hq
    cases hq
  counts := by
    intro t _
    rw [(h t).currentInst]
    exact Nat.zero_le _

theorem Delivers.fetch (h : Delivers s) {predicted_pc : UInt64} {uid : Nat}
    (hlegal : ∀ v ∈ (s t).fetched, v < uid)
    (hexec : exec s (.fetch t predicted_pc uid) = some s') : Delivers s' := by
  obtain ⟨u, hgen, hu⟩ := MemThread.fetches_generate (fun v => (s v).currentInst) predicted_pc uid
    (h.tracks t).ready
  dsimp only [exec] at hexec
  rw [hgen] at hexec
  cases hexec
  obtain ⟨new, hread, hleft, -, hallowed⟩ := hu.read
  apply h.update ((h.tracks t).fetch hlegal hu)
  · rw [hu.committed]
  · intro q hq
    rw [hleft]
    exact List.mem_append_right _ hq
  · intro q hq
    rw [hread] at hq
    refine (List.mem_append.mp hq).imp_right fun hnew => ⟨?_, hallowed q hnew⟩
    rw [hleft]
    exact List.mem_append_left _ hnew
  · rw [hu.currentInst, hu.committed]
    exact h.counts t

theorem Delivers.kill (h : Delivers s) {uid : Nat} {killMe : Bool}
    (hexec : exec s (.kill t uid killMe) = some s') : Delivers s' := by
  obtain ⟨u, hkill, rfl⟩ := Option.map_eq_some_iff.mp hexec
  have htracks := (h.tracks t).kill hkill
  rw [MemThread.kill_eq] at hkill
  obtain ⟨lists, -, rfl⟩ := Option.map_eq_some_iff.mp hkill
  exact h.update htracks (Nat.le_refl _) (fun _ hq => hq) (fun _ hq => .inl hq) (h.counts t)

theorem Delivers.commit (h : Delivers s) {uid : Nat} (hlegal : (s t).InOrder uid)
    (hcounted : Counted s (.commit t uid)) (hexec : exec s (.commit t uid) = some s') :
    Delivers s' := by
  obtain ⟨u, hcommit, rfl⟩ := Option.map_eq_some_iff.mp hexec
  have htracks := (h.tracks t).commit hlegal hcommit
  obtain ⟨left, stays, found, -, heq, -, -, hfound⟩ :=
    (h.tracks t).commit_eq hlegal (((h.tracks t).commit_ok_iff hlegal).mp ⟨u, hcommit⟩)
  rw [heq] at hcommit
  cases hcommit
  apply h.update htracks
  · exact List.length_append ▸ Nat.le_add_right _ _
  · exact fun _ hq => hq
  · exact fun _ hq => .inl hq
  · intro hwaited
    have hcount := h.counts t hwaited
    show (if found then (s t).currentInst + 1 else (s t).currentInst).toNat ≤
      ((s t).committed ++ MemMemop.ops left).length
    rw [List.length_append]
    cases found with
    | false => exact Nat.le_add_right_of_le hcount
    | true =>
        obtain ⟨p, hp, huid, hops⟩ := hfound rfl
        obtain ⟨a, ha⟩ := MemMemop.access?_of_op fun hnop => hcounted p hp huid hnop hwaited
        rw [if_pos rfl, hops, ha, UInt64.toNat_add]
        exact le_trans (Nat.mod_le _ _) (Nat.add_le_add_right hcount 1)

theorem Delivers.exec (h : Delivers s) {e : MemEvent ι} (hlegal : Legal s e)
    (hcounted : Counted s e) (hexec : exec s e = some s') : Delivers s' := by
  cases e with
  | fetch t predicted_pc uid => exact h.fetch hlegal hexec
  | kill t uid killMe => exact h.kill hexec
  | commit t uid => exact h.commit hlegal hcounted hexec

/-- A legal call has a meaning exactly when it is safe. -/
theorem Delivers.safe_iff (h : Delivers s) {e : MemEvent ι} (hlegal : Legal s e) :
    Safe s e ↔ ∃ s', MemFeeder.exec s e = some s' := by
  cases e with
  | fetch t predicted_pc uid =>
      obtain ⟨u, hgen, -⟩ := MemThread.fetches_generate (fun v => (s v).currentInst) predicted_pc
        uid (h.tracks t).ready
      refine ⟨fun _ => ⟨Function.update s t u, ?_⟩, fun _ => trivial⟩
      dsimp only [MemFeeder.exec]
      rw [hgen]
      rfl
  | kill t uid killMe =>
      refine (MemThread.kill_ok_iff (s t) uid killMe).symm.trans ?_
      constructor
      · rintro ⟨u, hu⟩
        exact ⟨_, Option.map_eq_some_iff.mpr ⟨u, hu, rfl⟩⟩
      · rintro ⟨s', hs'⟩
        obtain ⟨u, hu, -⟩ := Option.map_eq_some_iff.mp hs'
        exact ⟨u, hu⟩
  | commit t uid =>
      refine ((h.tracks t).commit_ok_iff hlegal).symm.trans ?_
      constructor
      · rintro ⟨u, hu⟩
        exact ⟨_, Option.map_eq_some_iff.mpr ⟨u, hu, rfl⟩⟩
      · rintro ⟨s', hs'⟩
        obtain ⟨u, hu, -⟩ := Option.map_eq_some_iff.mp hs'
        exact ⟨u, hu⟩

/-- What each thread has committed and has under way, and what the threads wait for. -/
structure Delivered (s : ι → MemThread ι) : Prop where
  committed : ∀ t, (s t).committed <+: (s t).lines.map TraceLine.access
  underWay : ∀ t, (s t).committed ++ MemMemop.ops (s t).lists.issued ++
    MemMemop.ops (s t).lists.replay ++ MemMemop.ops (s t).unissued =
      (s t).read.map Request.access
  read : ∀ t, (s t).read ++ (s t).left = (s t).lines.map TraceLine.request
  waits : ∀ u, ∀ q ∈ (s u).read, ∀ t n, q.after = some (t, n) →
    n.toNat ≤ (s t).committed.length
  ended : ∀ t, (s t).ended = true → (s t).committed = (s t).lines.map TraceLine.access

omit [DecidableEq ι] in
theorem Delivers.delivered (h : Delivers s) : Delivered s where
  committed t := by
    have hlines := congrArg (List.map Request.access) (h.tracks t).lines
    rw [List.map_append, ← (h.tracks t).same, List.map_map, List.append_assoc] at hlines
    exact ⟨_, hlines.symm⟩
  underWay t := by
    rw [← (h.tracks t).same]
    simp only [List.append_assoc]
  read t := (h.tracks t).lines.symm
  waits := h.waits
  ended t := (h.tracks t).ended

/--
**As long as the calls are safe and no-ops are not counted, every trace is delivered and
every wait is honoured; and a legal call has a meaning just when it is safe.**
-/
theorem delivered_of_careful (h : Reaches Start CarefulStep s) :
    Delivered s ∧ ∀ e, Legal s e → (Safe s e ↔ ∃ s', exec s e = some s') := by
  have hs : Delivers s :=
    h.invariant (fun _ hstart => hstart.delivers) fun _ _ hs ⟨_, hlegal, _, hcounted, hexec⟩ =>
      hs.exec hlegal hcounted hexec
  exact ⟨hs.delivered, fun _ hlegal => hs.safe_iff hlegal⟩

/-! ### Two threads, one of which waits -/

/-- A thread that was made for a trace of the lines. -/
def MemThread.opened (lines : List (TraceLine ι)) : MemThread ι :=
  ⟨⟨[], []⟩, 0, false, [], false, lines, none, 0, lines, [], [], [], [], false⟩

omit [DecidableEq ι] in
theorem MemThread.start_opened (lines : List (TraceLine ι)) : (opened lines).Start :=
  ⟨rfl, rfl, rfl, rfl, rfl, rfl, rfl, rfl, rfl⟩

def load (addr : UInt64) (wait : Option (Bool × UInt64)) : TraceLine Bool :=
  ⟨false, addr, 3, 0, 0, wait⟩

/-- Thread `false` loads three times; thread `true` waits for its `n`-th load. -/
def waitingFor (n : UInt64) (t : Bool) : MemThread Bool :=
  .opened (if t then [load 0x400 (some (false, n))] else [load 0x100 none, load 0x200 none,
    load 0x300 none])

theorem start_waitingFor (n : UInt64) : Start (waitingFor n) :=
  fun _ => MemThread.start_opened _

/-- The load that waits is delivered after the load it waits for is committed. -/
theorem delivered_of_careful_load : ∃ s : Bool → MemThread Bool,
    (s true).read = [⟨(load 0x400 none).access, some (false, 1)⟩] ∧
    (s false).committed = [(load 0x100 none).access] ∧ Delivered s := by
  have h : Reaches Start CarefulStep (waitingFor 1) := .start (start_waitingFor 1)
  have h := h.step ⟨.fetch false 0 1, fun _ hv => (by cases hv), trivial, trivial, rfl⟩
  have h := h.step ⟨.commit false 1, ⟨[], _, _, rfl, rfl, fun _ hq => by cases hq⟩,
    .inl ⟨_, .head _, rfl⟩, ?_, rfl⟩
  have h := h.step ⟨.fetch true 0 2, fun _ hv => (by cases hv), trivial, trivial, rfl⟩
  · exact ⟨_, rfl, rfl, (delivered_of_careful h).1⟩
  · intro p hp _ hnop
    obtain rfl := List.mem_singleton.mp hp
    cases hnop

/-- A thread commits its no-op too, and is taken to have done three loads. -/
theorem not_always_delivered :
    ¬ ∀ s : Bool → MemThread Bool, Reaches Start Step s → Delivered s := by
  intro hall
  have h : Reaches Start Step (waitingFor 3) := .start (start_waitingFor 3)
  have h := h.step ⟨.fetch false 0 1, fun _ hv => (by cases hv), rfl⟩
  have h := h.step ⟨.fetch false 0 2, (by decide : ∀ v ∈ [1], v < 2), rfl⟩
  have h := h.step ⟨.fetch false 0 3, (by decide : ∀ v ∈ [2, 1], v < 3), rfl⟩
  have h := h.step ⟨.commit false 1, ⟨[], _, _, rfl, rfl, fun _ hq => by cases hq⟩, rfl⟩
  have h := h.step ⟨.commit false 2, ⟨[], _, _, rfl, rfl, fun _ hq => by cases hq⟩, rfl⟩
  have h := h.step ⟨.commit false 3, ⟨[], _, _, rfl, rfl, fun _ hq => by cases hq⟩, rfl⟩
  have h := h.step ⟨.fetch true 0 4, fun _ hv => (by cases hv), rfl⟩
  have hwait := (hall _ h).waits true _ (.head _) false 3 rfl
  exact absurd hwait (by decide)

end AsimFeeder.MemFeeder
