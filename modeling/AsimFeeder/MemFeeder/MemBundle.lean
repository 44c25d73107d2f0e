/-
What a fetch of the memory-trace feeder does to the operations.

Making a bundle turns the next requests of the trace into syllables, in order, and each
only when its wait is over (`Reads`).  Taking a syllable moves it from the bundle, or from
the replay list, to the issued list (`Fetches`).
-/
import AsimFeeder.MemFeeder.MemThread

namespace AsimFeeder.MemFeeder

open Lib

variable {ι : Type}

/-- What has been read but waits, and what has not been read. -/
def remaining (waiting : Option (Waiting ι)) (trace : List (TraceLine ι)) : List (Request ι) :=
  waiting.toList.map Waiting.request ++ trace.map TraceLine.request

/-- What the request waits for has been committed, by these counters. -/
def Request.Allowed (getCurrentInst : ι → UInt64) (q : Request ι) : Prop :=
  ∀ u n, q.after = some (u, n) → n ≤ getCurrentInst u

namespace MemMemop

@[simp] theorem access?_memop (a : Access) (pc : UInt64) (i : Nat) :
    (a.memop pc i).access? = some a := by
  obtain ⟨store, ea, sz, hint⟩ := a
  cases store with
  | false => rfl
  | true => rfl

theorem access?_of_isNOP {m : MemMemop} (h : m.isNOP = true) : m.access? = none := by
  unfold access?
  cases hetype : m.etype with
  | LOAD => simp [isNOP, hetype] at h
  | STORE => simp [isNOP, hetype] at h
  | NOPM => rfl
  | NOPI => rfl

theorem access?_of_op {m : MemMemop} (h : ¬ m.isNOP = true) : ∃ a, m.access? = some a := by
  unfold access?
  cases hetype : m.etype with
  | LOAD => exact ⟨_, rfl⟩
  | STORE => exact ⟨_, rfl⟩
  | NOPM => simp [isNOP, hetype] at h
  | NOPI => simp [isNOP, hetype] at h

theorem ops_of_all_nop {l : List MemMemop} (h : ∀ m ∈ l, m.isNOP = true) : ops l = [] := by
  unfold ops
  rw [List.filterMap_eq_nil_iff]
  exact fun m hm => access?_of_isNOP (h m hm)

theorem ops_append (l l' : List MemMemop) : ops (l ++ l') = ops l ++ ops l' :=
  List.filterMap_append

theorem ops_cons (m : MemMemop) (l : List MemMemop) : ops (m :: l) = m.access?.toList ++ ops l := by
  unfold ops
  cases h : m.access? with
  | none => rw [List.filterMap_cons_none h]; rfl
  | some a => rw [List.filterMap_cons_some h]; rfl

/-- Dropping no-ops drops no operation. -/
theorem ops_filter_nop (l : List MemMemop) : ops (l.filter fun m => !m.isNOP) = ops l := by
  induction l with
  | nil => rfl
  | cons m l ih =>
      cases hm : m.isNOP with
      | false => rw [List.filter_cons_of_pos (by rw [hm]; rfl), ops_cons, ops_cons, ih]
      | true =>
          rw [List.filter_cons_of_neg (by rw [hm]; decide), ih, ops_cons, access?_of_isNOP hm]
          rfl

end MemMemop

/-! ### Reading -/

namespace Reading

variable {getCurrentInst : ι → UInt64} {stopped : Bool} {predicted_pc : UInt64} {i : Nat}
variable {r r' r'' : Reading ι} {l l' : List MemMemop}

def left (r : Reading ι) : List (Request ι) := remaining r.waiting r.trace

/-- The syllables `l` were made from the next requests, each of which was allowed. -/
def Reads (getCurrentInst : ι → UInt64) (r : Reading ι) (l : List MemMemop) (r' : Reading ι) :
    Prop :=
  ∃ new : List (Request ι), r'.read = r.read ++ new ∧ r.left = new ++ r'.left ∧
    MemMemop.ops l = new.map Request.access ∧ ∀ q ∈ new, q.Allowed getCurrentInst

theorem Reads.trans (h : Reads getCurrentInst r l r') (h' : Reads getCurrentInst r' l' r'') :
    Reads getCurrentInst r (l ++ l') r'' := by
  obtain ⟨new, hread, hleft, hops, hallowed⟩ := h
  obtain ⟨new', hread', hleft', hops', hallowed'⟩ := h'
  refine ⟨new ++ new', ?_, ?_, ?_, ?_⟩
  · rw [hread', hread, List.append_assoc]
  · rw [hleft, hleft', List.append_assoc]
  · rw [MemMemop.ops_append, hops, hops', List.map_append]
  · intro q hq
    rcases List.mem_append.mp hq with hq | hq
    · exact hallowed q hq
    · exact hallowed' q hq

/-- A no-op is made from nothing. -/
theorem reads_nop (etype : MemEtype) (hetype : etype = .NOPM ∨ etype = .NOPI) (pc : UInt64)
    (hread : r'.read = r.read) (hleft : r'.left = r.left) :
    Reads getCurrentInst r [.nop etype pc i] r' := by
  refine ⟨[], by rw [hread, List.append_nil], hleft.symm, ?_, fun q hq => by cases hq⟩
  apply MemMemop.ops_of_all_nop
  intro m hm
  rw [List.mem_singleton.mp hm]
  rcases hetype with rfl | rfl
  · rfl
  · rfl

theorem reads_check (getCurrentInst : ι → UInt64) (predicted_pc : UInt64) (i : Nat)
    {w : Waiting ι} (hleft : r.left = w.request :: r.trace.map TraceLine.request) :
    Reads getCurrentInst r [(r.check getCurrentInst predicted_pc i w).1]
      (r.check getCurrentInst predicted_pc i w).2 := by
  unfold check
  by_cases hw : w.waitingInst ≤ getCurrentInst w.waitingThread
  · rw [if_pos hw]
    refine ⟨[w.request], rfl, hleft, ?_, ?_⟩
    · rw [MemMemop.ops_cons, MemMemop.access?_memop]
      rfl
    · intro q hq u n hafter
      rw [List.mem_singleton.mp hq] at hafter
      cases hafter
      exact hw
  · rw [if_neg hw]
    exact reads_nop .NOPM (.inl rfl) _ rfl hleft.symm

theorem reads_syllable (getCurrentInst : ι → UInt64) (stopped : Bool) (predicted_pc : UInt64)
    (i : Nat) (r : Reading ι) :
    Reads getCurrentInst r [(r.syllable getCurrentInst stopped predicted_pc i).1]
      (r.syllable getCurrentInst stopped predicted_pc i).2 := by
  obtain ⟨trace, waiting, eof, read⟩ := r
  unfold syllable
  by_cases hnone : (eof || stopped) = true
  · rw [if_pos hnone]
    exact reads_nop .NOPM (.inl rfl) _ rfl rfl
  · rw [if_neg hnone]
    match waiting, trace with
    | some w, trace => exact reads_check _ _ _ rfl
    | none, [] => exact reads_nop .NOPM (.inl rfl) _ rfl rfl
    | none, line :: trace =>
        obtain ⟨store, addr, sz, byte, hint, wait⟩ := line
        cases wait with
        | none =>
            refine ⟨[_], rfl, rfl, ?_, ?_⟩
            · rw [MemMemop.ops_cons, MemMemop.access?_memop]
              rfl
            · intro q hq u n hafter
              rw [List.mem_singleton.mp hq] at hafter
              cases hafter
        | some wait =>
            obtain ⟨new, hread, hleft, hrest⟩ := reads_check getCurrentInst predicted_pc i
              (w := ⟨_, wait.1, wait.2⟩) (r := ⟨trace, some ⟨_, wait.1, wait.2⟩, eof, read⟩) rfl
            exact ⟨new, hread, hleft, hrest⟩

/-- Once the end is seen, there is nothing but no-ops. -/
theorem syllable_of_eof (h : r.eof = true) :
    r.syllable getCurrentInst stopped predicted_pc i = (.nop .NOPM predicted_pc i, r) := by
  unfold syllable
  rw [h, Bool.true_or, if_pos rfl]

theorem eof_check {w : Waiting ι} :
    (r.check getCurrentInst predicted_pc i w).2.eof = r.eof := by
  unfold check
  split
  · rfl
  · rfl

/-- The end is seen where there is nothing left, and only in the first syllable. -/
theorem syllable_eof (getCurrentInst : ι → UInt64) (stopped : Bool) (predicted_pc : UInt64)
    (i : Nat) (hr : r.eof = false)
    (h : (r.syllable getCurrentInst stopped predicted_pc i).2.eof = true) :
    i = 0 ∧ stopped = false ∧ r.left = [] ∧
      (r.syllable getCurrentInst stopped predicted_pc i).1 = .nop .NOPM predicted_pc i := by
  obtain ⟨trace, waiting, eof, read⟩ := r
  cases hr
  unfold syllable at h ⊢
  cases stopped with
  | true => cases h
  | false =>
      dsimp only at h ⊢
      rw [Bool.or_false, if_neg Bool.false_ne_true] at h ⊢
      match waiting, trace, h with
      | some w, trace, h =>
          dsimp only at h
          rw [eof_check] at h
          cases h
      | none, [], h => exact ⟨by simpa using h, rfl, rfl, rfl⟩
      | none, line :: trace, h =>
          obtain ⟨store, addr, sz, byte, hint, wait⟩ := line
          cases wait with
          | none => cases h
          | some wait =>
              dsimp only at h
              rw [eof_check] at h
              cases h

end Reading

/-! ### Bundles -/

namespace MemThread

variable {getCurrentInst : ι → UInt64} {predicted_pc : UInt64} {t u : MemThread ι}

/-- What is left of the trace. -/
def left (t : MemThread ι) : List (Request ι) := remaining t.waiting t.trace

/-- What is left of the bundle. -/
def unissued (t : MemThread ι) : List MemMemop :=
  if t.haveBundle then t.op.drop t.current_inst else []

/-- There is a syllable to take. -/
def Ready (t : MemThread ι) : Prop :=
  t.op.length = SYLLABLES_PER_BUNDLE ∧ t.current_inst < SYLLABLES_PER_BUNDLE

/-- **Making a bundle turns the next requests into its syllables.** -/
theorem makeBundle_eq (getCurrentInst : ι → UInt64) (predicted_pc : UInt64) (t : MemThread ι) :
    ∃ (op : List MemMemop) (r : Reading ι), t.makeBundle getCurrentInst predicted_pc =
        (r.eof, { t with
          op := op
          haveBundle := true
          current_inst := 0
          trace := r.trace
          waiting := r.waiting
          read := r.read }) ∧
      op.length = SYLLABLES_PER_BUNDLE ∧
      Reading.Reads getCurrentInst ⟨t.trace, t.waiting, false, t.read⟩ op r ∧
      (r.eof = true → r.left = [] ∧ MemMemop.ops op = []) := by
  have hnop (r : Reading ι) :
      Reading.Reads getCurrentInst r [.nop .NOPI predicted_pc 2] r :=
    Reading.reads_nop .NOPI (.inr rfl) _ rfl rfl
  have hreads := Reading.reads_syllable getCurrentInst t.stopped predicted_pc 0
    ⟨t.trace, t.waiting, false, t.read⟩
  have heof := Reading.syllable_eof getCurrentInst t.stopped predicted_pc 0
    (r := ⟨t.trace, t.waiting, false, t.read⟩) rfl
  generalize hm : Reading.syllable getCurrentInst t.stopped predicted_pc 0
    ⟨t.trace, t.waiting, false, t.read⟩ = m at hreads heof
  have hreads' := hreads.trans ((Reading.reads_syllable getCurrentInst t.stopped predicted_pc 1
    m.2).trans (hnop _))
  refine ⟨_, _, ?_, ?_, hreads', fun hend => ?_⟩
  · subst hm
    rfl
  · rfl
  · cases hm₀ : m.2.eof with
    | true =>
        obtain ⟨-, -, hleft, hnop₀⟩ := heof hm₀
        have hleft' : m.2.left = [] := by
          obtain ⟨new, -, hsplit, -⟩ := hreads
          rw [hleft] at hsplit
          exact (List.append_eq_nil_iff.mp hsplit.symm).2
        rw [Reading.syllable_of_eof hm₀]
        refine ⟨hleft', MemMemop.ops_of_all_nop ?_⟩
        rw [hnop₀]
        simp [MemMemop.nop, MemMemop.isNOP]
    | false => exact absurd (Reading.syllable_eof _ _ _ _ hm₀ hend).1 (by decide)

/-- A bundle was made, or there was one; no-ops may have been dropped. -/
structure Prepares (getCurrentInst : ι → UInt64) (t u : MemThread ι) : Prop where
  replay : u.lists.replay = t.lists.replay
  issued : u.lists.issued = t.lists.issued ∨
    u.lists.issued = t.lists.issued.filter fun m => !m.isNOP
  currentInst : u.currentInst = t.currentInst
  lines : u.lines = t.lines
  committed : u.committed = t.committed
  inflight : u.inflight = t.inflight
  fetched : u.fetched = t.fetched
  haveBundle : u.haveBundle = true
  ready : u.Ready
  read : ∃ new : List (Request ι), u.read = t.read ++ new ∧ t.left = new ++ u.left ∧
    MemMemop.ops u.unissued = MemMemop.ops t.unissued ++ new.map Request.access ∧
    ∀ q ∈ new, q.Allowed getCurrentInst
  ended : u.ended = true →
    t.ended = true ∨ u.lists.issued = [] ∧ u.left = [] ∧ MemMemop.ops u.unissued = []

theorem prepares_withBundle (getCurrentInst : ι → UInt64) (predicted_pc : UInt64)
    (h : t.haveBundle = true → t.Ready) :
    Prepares getCurrentInst t (t.withBundle getCurrentInst predicted_pc) := by
  unfold withBundle
  cases hbundle : t.haveBundle with
  | true =>
      rw [if_pos rfl]
      exact {
        replay := rfl
        issued := .inl rfl
        currentInst := rfl
        lines := rfl
        committed := rfl
        inflight := rfl
        fetched := rfl
        haveBundle := hbundle
        ready := h hbundle
        read := ⟨[], (List.append_nil _).symm, rfl, (List.append_nil _).symm,
          fun q hq => by cases hq⟩
        ended := .inl }
  | false =>
      obtain ⟨op, r, heq, hlength, ⟨new, hread, hleft, hops, hallowed⟩, heof⟩ :=
        makeBundle_eq getCurrentInst predicted_pc t
      have hunissued : t.unissued = [] := by
        unfold unissued
        rw [hbundle]
        rfl
      rw [if_neg Bool.false_ne_true, heq]
      have hprepares (issued : List MemMemop) (stopped ended : Bool)
          (hissued : issued = t.lists.issued ∨
            issued = t.lists.issued.filter fun m => !m.isNOP)
          (hended : ended = true →
            t.ended = true ∨ issued = [] ∧ r.left = [] ∧ MemMemop.ops op = []) :
          Prepares getCurrentInst t { t with
            lists := { t.lists with issued := issued }
            stopped := stopped
            ended := ended
            op := op
            haveBundle := true
            current_inst := 0
            trace := r.trace
            waiting := r.waiting
            read := r.read } :=
        { replay := rfl
          issued := hissued
          currentInst := rfl
          lines := rfl
          committed := rfl
          inflight := rfl
          fetched := rfl
          haveBundle := rfl
          ready := ⟨hlength, (by decide : 0 < SYLLABLES_PER_BUNDLE)⟩
          read := ⟨new, hread, hleft, by rw [hunissued]; exact hops, hallowed⟩
          ended := hended }
      cases hend : r.eof with
      | false => exact hprepares t.lists.issued t.stopped t.ended (.inl rfl) .inl
      | true =>
          dsimp only
          split
          · rename_i hempty
            apply hprepares _ true true (.inr rfl)
            intro _
            rw [Bool.and_eq_true, List.isEmpty_iff] at hempty
            exact .inr ⟨hempty.1, heof hend⟩
          · exact hprepares _ t.stopped t.ended (.inr rfl) .inl

/-- One syllable was handed out, from the replay list or from a bundle. -/
structure Fetches (getCurrentInst : ι → UInt64) (t : MemThread ι) (uid : Nat) (u : MemThread ι) :
    Prop where
  currentInst : u.currentInst = t.currentInst
  lines : u.lines = t.lines
  committed : u.committed = t.committed
  fetched : u.fetched = uid :: t.fetched
  ready : u.haveBundle = true → u.Ready
  issued : ∃ (m : MemMemop) (issued : List MemMemop), m.uid = uid ∧
    u.lists.issued = issued ++ [m] ∧ u.inflight = t.inflight ++ [m] ∧
    (issued = t.lists.issued ∨ issued = t.lists.issued.filter fun m => !m.isNOP)
  read : ∃ new : List (Request ι), u.read = t.read ++ new ∧ t.left = new ++ u.left ∧
    MemMemop.ops u.lists.issued ++ MemMemop.ops u.lists.replay ++ MemMemop.ops u.unissued =
      MemMemop.ops t.lists.issued ++ MemMemop.ops t.lists.replay ++ MemMemop.ops t.unissued ++
        new.map Request.access ∧
    ∀ q ∈ new, q.Allowed getCurrentInst
  ended : u.ended = true → t.ended = true ∨ u.left = [] ∧ MemMemop.ops u.lists.issued = [] ∧
    MemMemop.ops u.lists.replay = [] ∧ MemMemop.ops u.unissued = []

theorem Prepares.ops_issued (h : Prepares getCurrentInst t u) :
    MemMemop.ops u.lists.issued = MemMemop.ops t.lists.issued := by
  rcases h.issued with hissued | hissued
  · rw [hissued]
  · rw [hissued, MemMemop.ops_filter_nop]

/-- The next syllable of a bundle, and those behind it. -/
theorem unissued_eq (hbundle : t.haveBundle = true) (h : t.Ready) :
    ∃ m, t.op[t.current_inst]? = some m ∧ t.unissued = m ::
      if t.current_inst + 1 < SYLLABLES_PER_BUNDLE then t.op.drop (t.current_inst + 1) else [] := by
  obtain ⟨hlength, hlt⟩ := h
  have hin : t.current_inst < t.op.length := hlength ▸ hlt
  refine ⟨t.op[t.current_inst], List.getElem?_eq_getElem hin, ?_⟩
  unfold unissued
  rw [if_pos hbundle, List.drop_eq_getElem_cons hin]
  by_cases hnext : t.current_inst + 1 < SYLLABLES_PER_BUNDLE
  · rw [if_pos hnext]
  · rw [if_neg hnext, List.drop_eq_nil_of_le (by omega)]

theorem access?_setUid (m : MemMemop) (uid : Nat) :
    ({ m with uid := uid } : MemMemop).access? = m.access? := rfl

/-- **A fetch hands out the first of the replay list, or of a bundle, and never fails.** -/
theorem fetches_generate (getCurrentInst : ι → UInt64) (predicted_pc : UInt64) (uid : Nat)
    (h : t.haveBundle = true → t.Ready) :
    ∃ u, t.generate_asim_inst getCurrentInst predicted_pc uid = some u ∧
      Fetches getCurrentInst t uid u := by
  unfold generate_asim_inst GetNextInstr
  cases hreplay : t.lists.replay with
  | cons m replay =>
      refine ⟨_, rfl, ?_⟩
      exact {
        currentInst := rfl
        lines := rfl
        committed := rfl
        fetched := rfl
        ready := h
        issued := ⟨{ m with uid := uid }, t.lists.issued, rfl, rfl, rfl, .inl rfl⟩
        read := by
          refine ⟨[], (List.append_nil _).symm, rfl, ?_, fun q hq => by cases hq⟩
          rw [hreplay, MemMemop.ops_append, MemMemop.ops_cons, MemMemop.ops_cons m replay]
          simp only [access?_setUid, List.append_assoc, List.map_nil, List.append_nil]
          rfl
        ended := .inl }
  | nil =>
      dsimp only
      have hu := prepares_withBundle getCurrentInst predicted_pc h
      generalize t.withBundle getCurrentInst predicted_pc = u at hu
      obtain ⟨m, hget, hunissued⟩ := unissued_eq hu.haveBundle hu.ready
      obtain ⟨new, hread, hleft, hops, hallowed⟩ := hu.read
      rw [hget]
      refine ⟨_, rfl, ?_⟩
      generalize hrest : (if u.current_inst + 1 < SYLLABLES_PER_BUNDLE then
        u.op.drop (u.current_inst + 1) else []) = rest at hunissued
      have hnext : unissued { u with
          current_inst := u.current_inst + 1
          haveBundle := u.current_inst + 1 < SYLLABLES_PER_BUNDLE
          lists := { u.lists with issued := u.lists.issued ++ [{ m with uid := uid }] }
          inflight := u.inflight ++ [{ m with uid := uid }]
          fetched := uid :: u.fetched } = rest := by
        unfold unissued
        rw [← hrest]
        simp only [decide_eq_true_eq]
      exact {
        currentInst := hu.currentInst
        lines := hu.lines
        committed := hu.committed
        fetched := by rw [← hu.fetched]
        ready := fun hbundle => ⟨hu.ready.1, of_decide_eq_true hbundle⟩
        issued := ⟨{ m with uid := uid }, u.lists.issued, rfl, rfl, by rw [← hu.inflight],
          hu.issued⟩
        read := by
          refine ⟨new, hread, hleft, ?_, hallowed⟩
          have hops' : m.access?.toList ++ MemMemop.ops rest =
              MemMemop.ops t.unissued ++ new.map Request.access := by
            rw [← hops, hunissued, MemMemop.ops_cons]
          show MemMemop.ops (u.lists.issued ++ [{ m with uid := uid }]) ++
            MemMemop.ops u.lists.replay ++ MemMemop.ops (unissued _) = _
          rw [hnext, hu.replay, hreplay, MemMemop.ops_append, hu.ops_issued, MemMemop.ops_cons,
            access?_setUid]
          simp only [List.append_assoc, MemMemop.ops, List.filterMap_nil, List.nil_append]
          exact congrArg _ hops'
        ended := by
          intro hended
          refine (hu.ended hended).imp_right ?_
          rintro ⟨hissued, hnone, hops₀⟩
          rw [hunissued, MemMemop.ops_cons, List.append_eq_nil_iff] at hops₀
          refine ⟨hnone, ?_, ?_, ?_⟩
          · show MemMemop.ops (u.lists.issued ++ [{ m with uid := uid }]) = []
            rw [hissued, List.nil_append, MemMemop.ops_cons, access?_setUid, hops₀.1]
            rfl
          · show MemMemop.ops u.lists.replay = []
            rw [hu.replay, hreplay]
            rfl
          · rw [hnext]
            exact hops₀.2 }

end MemThread

end AsimFeeder.MemFeeder
