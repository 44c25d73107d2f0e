/-
Simulated mutexes and conditions behave as monitors do.

Beside the resources of the code runs a monitor, for the statement only: who holds each
mutex, who waits for it and in which order, and the same for conditions.  Each primitive of
the code is one step of the monitor, and so is each round of a broadcast.

A signal that finds the mutex locked is the exception.  It moves a thread and returns
itself, so that it is issued again and moves another one.
-/
import AsimFeeder.Lib.Monitor
import AsimFeeder.Lib.Runs
import AsimFeeder.Aint.PosixThread

namespace AsimFeeder.Aint.PosixThread

open Lib

/-- The objects of the program: with which mutex each condition is used, and which mutexes
and which conditions are initialised. -/
structure Objects (K : Type) where
  mutexOf : K → K
  initialised : K ⊕ K → Bool

def PosixMutexResource.OwnedBy (r : PosixMutexResource) : Option Nat → Prop
  | some tid => r.state = .POSIX_MUTEX_LOCKED ∧ r.owner_thread = some tid
  | none => r.state = .POSIX_MUTEX_UNLOCKED

variable {K : Type} [DecidableEq K]

namespace Posix

/-- The threads on the waiting list of a mutex or of a condition. -/
def waiting (s : Posix K) : K ⊕ K → List Nat
  | .inl key => (s.mutexes.get key).elim [] fun r => r.waiting_threads.live
  | .inr cond_key => (s.conditions.get cond_key).elim [] fun r => r.waiting_threads.live

def registered (s : Posix K) : K ⊕ K → Bool
  | .inl key => (s.mutexes.get key).isSome
  | .inr cond_key => (s.conditions.get cond_key).isSome

variable {s : Posix K} {k c : K}

theorem waiting_inl {r : PosixMutexResource} (h : s.mutexes.get k = some r) :
    s.waiting (.inl k) = r.waiting_threads.live := by
  simp only [waiting, h, Option.elim_some]

theorem waiting_inr {r : PosixConditionResource K} (h : s.conditions.get c = some r) :
    s.waiting (.inr c) = r.waiting_threads.live := by
  simp only [waiting, h, Option.elim_some]

theorem registered_setMutex (k : K) (r : PosixMutexResource) :
    (s.setMutex k r).registered = s.registered := by
  funext p
  cases p with
  | inl k' => exact Registry.isSome_get_set
  | inr c => rfl

theorem registered_setCondition (c : K) (r : PosixConditionResource K) :
    (s.setCondition c r).registered = s.registered := by
  funext p
  cases p with
  | inl k => rfl
  | inr c' => exact Registry.isSome_get_set

end Posix

/-- The resources of `s` are those of the monitor `m`. -/
structure Tracks (o : Objects K) (s : Posix K) (m : Monitor K K Nat) : Prop where
  registered : s.registered = o.initialised
  waiting : ∀ p, s.waiting p = m.line p
  owned : ∀ k r, s.mutexes.get k = some r → r.OwnedBy (m.holder k)
  key : ∀ c r, s.conditions.get c = some r → m.line (.inr c) ≠ [] →
    r.mutex_key = some (o.mutexOf c) ∧ o.initialised (.inl (o.mutexOf c)) = true

namespace Tracks

variable {o : Objects K} {s : Posix K} {m : Monitor K K Nat} {k c : K}

theorem mutex (h : Tracks o s m) (hk : o.initialised (.inl k) = true) :
    ∃ r, s.mutexes.get k = some r ∧ r.OwnedBy (m.holder k) ∧
      r.waiting_threads.live = m.line (.inl k) := by
  rw [← h.registered] at hk
  obtain ⟨r, hr⟩ := Option.isSome_iff_exists.mp hk
  refine ⟨r, hr, h.owned k r hr, ?_⟩
  rw [← h.waiting, Posix.waiting_inl hr]

theorem condition (h : Tracks o s m) (hc : o.initialised (.inr c) = true) :
    ∃ r, s.conditions.get c = some r ∧ r.waiting_threads.live = m.line (.inr c) := by
  rw [← h.registered] at hc
  obtain ⟨r, hr⟩ := Option.isSome_iff_exists.mp hc
  refine ⟨r, hr, ?_⟩
  rw [← h.waiting, Posix.waiting_inr hr]

/-- What blocks and unblocks threads touches no resource. -/
theorem block (h : Tracks o s m) (tid : Nat) : Tracks o (s.pmint_thread_block tid) m :=
  ⟨h.registered, h.waiting, h.owned, h.key⟩

theorem unblock (h : Tracks o s m) (tid : Nat) : Tracks o (s.pmint_thread_unblock tid) m :=
  ⟨h.registered, h.waiting, h.owned, h.key⟩

/-- A mutex is changed, in the code and in the monitor. -/
theorem setMutex (h : Tracks o s m) {r r' : PosixMutexResource} (hr : s.mutexes.get k = some r)
    {m' : Monitor K K Nat} (hown : r'.OwnedBy (m'.holder k))
    (hline : r'.waiting_threads.live = m'.line (.inl k))
    (hholder : ∀ k', k' ≠ k → m'.holder k' = m.holder k')
    (hlines : ∀ p, p ≠ .inl k → m'.line p = m.line p) : Tracks o (s.setMutex k r') m' := by
  have hself : (s.setMutex k r').mutexes.get k = some r' := Registry.get_set_self hr
  refine ⟨?_, ?_, ?_, ?_⟩
  · rw [Posix.registered_setMutex, h.registered]
  · intro p
    by_cases hp : p = .inl k
    · rw [hp, Posix.waiting_inl hself, hline]
    · rw [hlines p hp, ← h.waiting]
      cases p with
      | inl k' =>
          have hne : k' ≠ k := fun heq => hp (heq ▸ rfl)
          simp only [Posix.waiting, Posix.setMutex, Registry.get_set_of_ne hne]
      | inr c => rfl
  · intro k' r'' hget
    by_cases hk' : k' = k
    · subst hk'
      rw [hself] at hget
      rw [← Option.some.inj hget]
      exact hown
    · rw [hholder k' hk']
      unfold Posix.setMutex at hget
      rw [Registry.get_set_of_ne hk'] at hget
      exact h.owned k' r'' hget
  · intro c r'' hget hne
    rw [hlines _ Sum.inr_ne_inl] at hne
    exact h.key c r'' hget hne

/-- A condition is changed, in the code and in the monitor. -/
theorem setCondition (h : Tracks o s m) {r r' : PosixConditionResource K}
    (hr : s.conditions.get c = some r) {ts : List Nat} (hline : r'.waiting_threads.live = ts)
    (hkey : ts ≠ [] →
      r'.mutex_key = some (o.mutexOf c) ∧ o.initialised (.inl (o.mutexOf c)) = true) :
    Tracks o (s.setCondition c r') (m.setLine (.inr c) ts) := by
  have hself : (s.setCondition c r').conditions.get c = some r' := Registry.get_set_self hr
  refine ⟨?_, ?_, h.owned, ?_⟩
  · rw [Posix.registered_setCondition, h.registered]
  · intro p
    rw [Monitor.line_setLine]
    by_cases hp : p = .inr c
    · rw [if_pos hp, hp, Posix.waiting_inr hself, hline]
    · rw [if_neg hp, ← h.waiting]
      cases p with
      | inl k => rfl
      | inr c' =>
          have hne : c' ≠ c := fun heq => hp (heq ▸ rfl)
          simp only [Posix.waiting, Posix.setCondition, Registry.get_set_of_ne hne]
  · intro c' r'' hget hne
    rw [Monitor.line_setLine] at hne
    by_cases hc' : c' = c
    · subst hc'
      rw [if_pos rfl] at hne
      rw [hself] at hget
      rw [← Option.some.inj hget]
      exact hkey hne
    · rw [if_neg fun heq => hc' (Sum.inr.inj heq)] at hne
      unfold Posix.setCondition at hget
      rw [Registry.get_set_of_ne hc'] at hget
      exact h.key c' r'' hget hne

/-! ### The primitives -/

theorem locked (h : Tracks o s m) (hk : o.initialised (.inl k) = true) :
    s.is_posix_mutex_locked k = some (decide (m.holder k ≠ none)) := by
  obtain ⟨r, hr, hown, -⟩ := h.mutex hk
  unfold Posix.is_posix_mutex_locked
  rw [hr, Option.map_some]
  cases hholder : m.holder k with
  | none =>
      rw [hholder] at hown
      simp [show r.state = .POSIX_MUTEX_UNLOCKED from hown]
  | some t =>
      rw [hholder] at hown
      simp [hown.1]

theorem lock (h : Tracks o s m) (hk : o.initialised (.inl k) = true) (hfree : m.holder k = none)
    (tid : Nat) :
    ∃ s', s.posix_mutex_lock k tid = some s' ∧ Tracks o s' (m.setHolder k (some tid)) ∧
      s'.blocked = s.blocked := by
  obtain ⟨r, hr, hown, hline⟩ := h.mutex hk
  rw [hfree] at hown
  have hstate : r.state = .POSIX_MUTEX_UNLOCKED := hown
  unfold Posix.posix_mutex_lock
  rw [hr, Option.bind_some, if_pos hstate]
  refine ⟨_, rfl, h.setMutex hr ?_ hline ?_ fun _ _ => rfl, rfl⟩
  · rw [Monitor.holder_setHolder, if_pos rfl]
    exact ⟨rfl, rfl⟩
  · intro k' hne
    rw [Monitor.holder_setHolder, if_neg hne]

theorem unlock (h : Tracks o s m) (hk : o.initialised (.inl k) = true) {tid : Nat}
    (hheld : m.holder k = some tid) :
    ∃ s', s.posix_mutex_unlock k tid = some s' ∧ Tracks o s' (m.setHolder k none) ∧
      s'.blocked = s.blocked := by
  obtain ⟨r, hr, hown, hline⟩ := h.mutex hk
  rw [hheld] at hown
  have hmine : r.state = .POSIX_MUTEX_LOCKED ∧ r.owner_thread = some tid := hown
  unfold Posix.posix_mutex_unlock
  rw [hr, Option.bind_some, if_pos hmine]
  refine ⟨_, rfl, h.setMutex hr ?_ hline ?_ fun _ _ => rfl, rfl⟩
  · rw [Monitor.holder_setHolder, if_pos rfl]
    rfl
  · intro k' hne
    rw [Monitor.holder_setHolder, if_neg hne]

theorem addWaiting (h : Tracks o s m) (hk : o.initialised (.inl k) = true)
    (hheld : m.holder k ≠ none) (tid : Nat) :
    ∃ s', s.posix_mutex_add_waiting_thread k tid = some s' ∧
      Tracks o s' (m.setLine (.inl k) (m.line (.inl k) ++ [tid])) ∧ s'.blocked = s.blocked := by
  obtain ⟨r, hr, hown, hline⟩ := h.mutex hk
  obtain ⟨holder, hholder⟩ := Option.ne_none_iff_exists'.mp hheld
  have hmine := hown
  rw [hholder] at hmine
  unfold Posix.posix_mutex_add_waiting_thread
  rw [hr, Option.bind_some, if_pos hmine.1]
  refine ⟨_, rfl, h.setMutex hr hown ?_ (fun _ _ => rfl) ?_, rfl⟩
  · rw [Monitor.line_setLine, if_pos rfl, HoleQueue.live_append, hline]
  · intro p hne
    rw [Monitor.line_setLine, if_neg hne]

theorem getNext (h : Tracks o s m) (hk : o.initialised (.inl k) = true) :
    ∃ s', s.posix_mutex_get_next_waiting_thread k = some ((m.line (.inl k)).head?, s') ∧
      Tracks o s' (m.setLine (.inl k) (m.line (.inl k)).tail) ∧ s'.blocked = s.blocked := by
  obtain ⟨r, hr, hown, hline⟩ := h.mutex hk
  obtain ⟨hfirst, hrest⟩ := HoleQueue.pick_live r.waiting_threads
  unfold Posix.posix_mutex_get_next_waiting_thread
  rw [hr, Option.map_some, hfirst, hline]
  refine ⟨_, rfl, h.setMutex hr hown ?_ (fun _ _ => rfl) ?_, rfl⟩
  · rw [Monitor.line_setLine, if_pos rfl, hrest, hline]
  · intro p hne
    rw [Monitor.line_setLine, if_neg hne]

theorem addWaitingCondition (h : Tracks o s m) (hc : o.initialised (.inr c) = true)
    (hk : o.initialised (.inl (o.mutexOf c)) = true) (tid : Nat) :
    ∃ s', s.posix_condition_add_waiting_thread c (o.mutexOf c) tid = some s' ∧
      Tracks o s' (m.wait c tid) ∧ s'.blocked = s.blocked := by
  obtain ⟨r, hr, hline⟩ := h.condition hc
  unfold Posix.posix_condition_add_waiting_thread
  rw [hr, Option.map_some]
  refine ⟨_, rfl, h.setCondition hr ?_ fun _ => ⟨rfl, hk⟩, rfl⟩
  rw [HoleQueue.live_append, hline]

theorem getNextCondition (h : Tracks o s m) (hc : o.initialised (.inr c) = true) :
    ∃ s', s.posix_condition_get_next_waiting_thread c = some ((m.line (.inr c)).head?, s') ∧
      Tracks o s' (m.setLine (.inr c) (m.line (.inr c)).tail) ∧ s'.blocked = s.blocked := by
  obtain ⟨r, hr, hline⟩ := h.condition hc
  obtain ⟨hfirst, hrest⟩ := HoleQueue.pick_live r.waiting_threads
  unfold Posix.posix_condition_get_next_waiting_thread
  rw [hr, Option.map_some, hfirst, hline]
  refine ⟨_, rfl, h.setCondition hr ?_ ?_, rfl⟩
  · rw [hrest, hline]
  · intro hne
    refine h.key c r hr ?_
    intro hnil
    rw [hnil] at hne
    exact hne rfl

/-- What marks a condition as signalled or broadcasted changes nothing else. -/
theorem setState (h : Tracks o s m) {r : PosixConditionResource K}
    (hr : s.conditions.get c = some r) (state : PosixConditionState) :
    Tracks o (s.setCondition c { r with state := state }) m := by
  have hline : r.waiting_threads.live = m.line (.inr c) := by
    rw [← h.waiting, Posix.waiting_inr hr]
  have hset : Tracks o (s.setCondition c { r with state := state })
      (m.setLine (.inr c) (m.line (.inr c))) := h.setCondition hr hline (h.key c r hr)
  rw [Monitor.setLine_line] at hset
  exact hset

/-! ### What the instructions have in common -/

theorem unlockAndGrant (h : Tracks o s m) (hk : o.initialised (.inl k) = true) {tid : Nat}
    (hheld : m.holder k = some tid) :
    ∃ s', s.unlockAndGrant k tid = some s' ∧ Tracks o s' (m.release k) ∧
      ∀ u, s'.blocked u = true ↔ s.blocked u = true ∧ (m.line (.inl k)).head? ≠ some u := by
  obtain ⟨s₁, hunlock, h₁, hblocked₁⟩ := h.unlock hk hheld
  obtain ⟨s₂, hnext, h₂, hblocked₂⟩ := h₁.getNext hk
  rw [Monitor.line_setHolder] at hnext h₂
  have hfree : ((m.setHolder k none).setLine (.inl k) (m.line (.inl k)).tail).holder k = none := by
    rw [Monitor.holder_setLine, Monitor.holder_setHolder, if_pos rfl]
  unfold Posix.unlockAndGrant
  rw [hunlock, Option.bind_some, hnext, Option.bind_some]
  cases hhead : (m.line (.inl k)).head? with
  | none =>
      refine ⟨s₂, rfl, ?_, ?_⟩
      · unfold Monitor.release
        rw [hhead]
        exact h₂
      · intro u
        rw [hblocked₂, hblocked₁]
        simp
  | some w =>
      obtain ⟨s₃, hlock, h₃, hblocked₃⟩ := h₂.lock hk hfree w
      refine ⟨s₃.pmint_thread_unblock w, ?_, ?_, ?_⟩
      · simp only [hlock, Option.map_some]
      · have hrelease : m.release k
            = ((m.setHolder k none).setLine (.inl k) (m.line (.inl k)).tail).setHolder k
              (some w) := by
          unfold Monitor.release
          rw [hhead, ← Monitor.setHolder_setHolder k none (some w)]
          rfl
        rw [hrelease]
        exact h₃.unblock w
      · intro u
        rw [Posix.blocked_unblock, hblocked₃, hblocked₂, hblocked₁]
        by_cases hu : u = w
        · rw [if_pos hu, hu]
          simp
        · rw [if_neg hu]
          simp [Ne.symm hu]

theorem tryMutex (h : Tracks o s m) (hk : o.initialised (.inl k) = true) (tid : Nat) :
    ∃ s', s.tryMutex k tid = some (s', decide (m.holder k ≠ none)) ∧ Tracks o s' (m.acquire k tid) ∧
      ∀ u, s'.blocked u = true ↔ s.blocked u = true ∧ ¬ (u = tid ∧ m.holder k = none) := by
  unfold Posix.tryMutex Monitor.acquire
  rw [h.locked hk, Option.bind_some]
  by_cases hfree : m.holder k = none
  · obtain ⟨s', hlock, h', hblocked⟩ := h.lock hk hfree tid
    rw [if_pos hfree, if_neg (by simp [hfree]), hlock, Option.map_some]
    refine ⟨s'.pmint_thread_unblock tid, by simp [hfree], h'.unblock tid, ?_⟩
    intro u
    rw [Posix.blocked_unblock, hblocked]
    by_cases hu : u = tid
    · simp [hu, hfree]
    · simp [hu]
  · obtain ⟨s', hadd, h', hblocked⟩ := h.addWaiting hk hfree tid
    rw [if_neg hfree, if_pos (by simp [hfree]), hadd, Option.map_some]
    refine ⟨s', by simp [hfree], h', ?_⟩
    intro u
    rw [hblocked]
    simp [hfree]

end Tracks

/-! ### The instructions -/

/-- The resources are those of an orderly monitor, and who waits is who is blocked. -/
structure Sound (o : Objects K) (s : Posix K) (m : Monitor K K Nat) : Prop where
  tracks : Tracks o s m
  orderly : m.Orderly
  blocked : ∀ tid, s.blocked tid = true ↔ m.Waits tid

namespace Sound

variable {o : Objects K} {s : Posix K} {m : Monitor K K Nat} {k c : K} {tid : Nat}

theorem lock (h : Sound o s m) (hk : o.initialised (.inl k) = true) (hrun : s.blocked tid ≠ true) :
    ∃ s', s.aint_pthread_mutex_lock tid k
        = some (s', if m.holder k = none then .next else .picode) ∧
      Sound o s' (m.acquire k tid) := by
  have hnot : ¬ m.Waits tid := fun hw => hrun ((h.blocked tid).mpr hw)
  have horderly : (m.acquire k tid).Orderly := h.orderly.acquire k hnot
  unfold Posix.aint_pthread_mutex_lock
  rw [h.tracks.locked hk, Option.bind_some]
  by_cases hfree : m.holder k = none
  · obtain ⟨s', hlock, h', hblocked⟩ := h.tracks.lock hk hfree tid
    rw [if_neg (by simp [hfree]), hlock, Option.map_some, if_pos hfree]
    refine ⟨s', rfl, ?_, horderly, ?_⟩
    · unfold Monitor.acquire
      rw [if_pos hfree]
      exact h'
    · intro u
      rw [hblocked, h.blocked, Monitor.waits_acquire]
      simp [hfree]
  · obtain ⟨s', hadd, h', hblocked⟩ := (h.tracks.block tid).addWaiting hk hfree tid
    rw [if_pos (by simp [hfree]), hadd, Option.map_some, if_neg hfree]
    refine ⟨s', rfl, ?_, horderly, ?_⟩
    · unfold Monitor.acquire
      rw [if_neg hfree]
      exact h'
    · intro u
      rw [hblocked, Posix.blocked_block, Monitor.waits_acquire, ← h.blocked]
      by_cases hu : u = tid
      · simp [hu, hfree]
      · simp [hu]

theorem unlock (h : Sound o s m) (hk : o.initialised (.inl k) = true)
    (hheld : m.holder k = some tid) :
    ∃ s', s.aint_pthread_mutex_unlock tid k = some (s', .next) ∧ Sound o s' (m.release k) := by
  obtain ⟨s', hgrant, h', hblocked⟩ := h.tracks.unlockAndGrant hk hheld
  unfold Posix.aint_pthread_mutex_unlock
  rw [h.tracks.locked hk, Option.bind_some, if_pos (by simp [hheld]), hgrant, Option.map_some]
  refine ⟨s', rfl, h', h.orderly.release k, ?_⟩
  intro u
  rw [hblocked, h.blocked, h.orderly.waits_release]

theorem wait (h : Sound o s m) (hc : o.initialised (.inr c) = true)
    (hk : o.initialised (.inl (o.mutexOf c)) = true) (hheld : m.holder (o.mutexOf c) = some tid)
    (hrun : s.blocked tid ≠ true) :
    ∃ s', s.aint_pthread_condition_wait tid c (o.mutexOf c) = some (s', .picode) ∧
      Sound o s' ((m.release (o.mutexOf c)).wait c tid) := by
  have hnot : ¬ m.Waits tid := fun hw => hrun ((h.blocked tid).mpr hw)
  obtain ⟨s₁, hgrant, h₁, hblocked₁⟩ := h.tracks.unlockAndGrant hk hheld
  obtain ⟨s₂, hadd, h₂, hblocked₂⟩ := (h₁.block tid).addWaitingCondition hc hk tid
  unfold Posix.aint_pthread_condition_wait
  rw [h.tracks.locked hk, Option.bind_some, if_pos (by simp [hheld]), hgrant, Option.bind_some,
    hadd, Option.map_some]
  refine ⟨s₂, rfl, h₂, (h.orderly.release _).wait c ?_, ?_⟩
  · rw [h.orderly.waits_release]
    exact fun hw => hnot hw.1
  · intro u
    have hjoin : ((m.release (o.mutexOf c)).wait c tid).Waits u
        ↔ (m.release (o.mutexOf c)).Waits u ∨ u = tid := Monitor.waits_join _ _ _
    rw [hjoin, h.orderly.waits_release, ← h.blocked, ← hblocked₁, hblocked₂, Posix.blocked_block]
    by_cases hu : u = tid
    · simp [hu]
    · simp [hu]

/-- A thread that is picked from the list of a condition tries its mutex. -/
theorem moved (h : Sound o s m) (hc : o.initialised (.inr c) = true) {t : Nat} {ts : List Nat}
    (hline : m.line (.inr c) = t :: ts) :
    ∃ s₁ s₂, s.posix_condition_get_next_waiting_thread c = some (some t, s₁) ∧
      s₁.tryMutex (o.mutexOf c) t = some (s₂, decide (m.holder (o.mutexOf c) ≠ none)) ∧
      Sound o s₂ ((m.setLine (.inr c) ts).acquire (o.mutexOf c) t) := by
  obtain ⟨r, hr, -⟩ := h.tracks.condition hc
  have hk : o.initialised (.inl (o.mutexOf c)) = true := by
    refine (h.tracks.key c r hr ?_).2
    rw [hline]
    exact List.cons_ne_nil t ts
  obtain ⟨s₁, hnext, h₁, hblocked₁⟩ := h.tracks.getNextCondition hc
  rw [hline, List.head?_cons] at hnext
  rw [hline, List.tail_cons] at h₁
  obtain ⟨s₂, htry, h₂, hblocked₂⟩ := h₁.tryMutex hk t
  rw [Monitor.holder_setLine] at htry hblocked₂
  have hout : ¬ (m.setLine (.inr c) ts).Waits t := by
    rw [h.orderly.waits_leave hline]
    exact fun hw => hw.2 rfl
  refine ⟨s₁, s₂, hnext, htry, h₂, (h.orderly.leave hline).acquire _ hout, ?_⟩
  intro u
  rw [hblocked₂, hblocked₁, h.blocked, Monitor.waits_acquire, h.orderly.waits_leave hline,
    Monitor.holder_setLine]
  by_cases hu : u = t
  · have ht : m.Waits t := ⟨.inr c, hline ▸ List.mem_cons_self⟩
    simp [hu, ht]
  · simp [hu]

/-- A signal that moves a thread to the line of a locked mutex returns itself. -/
theorem signal (h : Sound o s m) (hc : o.initialised (.inr c) = true) :
    ∃ s', s.aint_pthread_condition_signal c
        = some (s', if m.line (.inr c) ≠ [] ∧ m.holder (o.mutexOf c) ≠ none then .picode
            else .next) ∧
      Sound o s' (m.signal c (o.mutexOf c)) := by
  obtain ⟨r, hr, hline⟩ := h.tracks.condition hc
  have hmarked : Sound o (s.setCondition c { r with state := .POSIX_CONDITION_SIGNALLED }) m :=
    ⟨h.tracks.setState hr _, h.orderly, h.blocked⟩
  unfold Posix.aint_pthread_condition_signal Posix.posix_condition_get_mutex_key
    Posix.posix_condition_signalled
  rw [hr, Option.map_some, Option.map_some, Option.bind_some, Option.bind_some]
  cases hwait : m.line (.inr c) with
  | nil =>
      obtain ⟨s₁, hnext, h₁, hblocked₁⟩ := hmarked.tracks.getNextCondition hc
      rw [hwait, List.head?_nil] at hnext
      rw [hwait, List.tail_nil, ← hwait, Monitor.setLine_line] at h₁
      rw [hnext, Option.bind_some, Monitor.signal_nil hwait]
      refine ⟨s₁, by simp, h₁, h.orderly, ?_⟩
      intro u
      rw [hblocked₁]
      exact h.blocked u
  | cons t ts =>
      obtain ⟨s₁, s₂, hnext, htry, h₂⟩ := hmarked.moved hc hwait
      have hkey : r.mutex_key = some (o.mutexOf c) := by
        refine (h.tracks.key c r hr ?_).1
        rw [hwait]
        exact List.cons_ne_nil t ts
      rw [hnext, Option.bind_some, hkey, Monitor.signal_cons hwait]
      refine ⟨s₂, ?_, h₂⟩
      simp only [Option.bind_some]
      rw [htry, Option.map_some]
      simp

theorem broadcastLoop (h : Sound o s m) (hc : o.initialised (.inr c) = true) {key : Option K}
    (hkey : m.line (.inr c) ≠ [] → key = some (o.mutexOf c)) {n : Nat}
    (hn : (m.line (.inr c)).length < n) :
    ∃ s', Posix.broadcastLoop c key n s = some s' ∧
      Sound o s' (m.broadcast c (o.mutexOf c)) := by
  induction n generalizing s m with
  | zero => exact absurd hn (Nat.not_lt_zero _)
  | succ n ih =>
      unfold Posix.broadcastLoop
      cases hwait : m.line (.inr c) with
      | nil =>
          obtain ⟨s₁, hnext, h₁, hblocked₁⟩ := h.tracks.getNextCondition hc
          rw [hwait, List.head?_nil] at hnext
          rw [hwait, List.tail_nil, ← hwait, Monitor.setLine_line] at h₁
          rw [hnext, Option.bind_some, Monitor.broadcast_nil hwait]
          refine ⟨s₁, rfl, h₁, h.orderly, ?_⟩
          intro u
          rw [hblocked₁]
          exact h.blocked u
      | cons t ts =>
          obtain ⟨s₁, s₂, hnext, htry, h₂⟩ := h.moved hc hwait
          have hsome : key = some (o.mutexOf c) := by
            apply hkey
            rw [hwait]
            exact List.cons_ne_nil t ts
          have hrest : ((m.setLine (.inr c) ts).acquire (o.mutexOf c) t).line (.inr c) = ts := by
            rw [Monitor.line_acquire_inr, Monitor.line_setLine, if_pos rfl]
          rw [hwait, List.length_cons] at hn
          obtain ⟨s', hloop, h'⟩ := ih h₂ (fun _ => hsome) (by rw [hrest]; omega)
          rw [Monitor.broadcast_cons hwait]
          refine ⟨s', ?_, h'⟩
          rw [hnext, Option.bind_some]
          simp only [hsome, Option.bind_some]
          rw [htry, Option.bind_some, ← hsome]
          exact hloop

theorem broadcast (h : Sound o s m) (hc : o.initialised (.inr c) = true) :
    ∃ s', s.aint_pthread_condition_broadcast c = some (s', .next) ∧
      Sound o s' (m.broadcast c (o.mutexOf c)) := by
  obtain ⟨r, hr, hline⟩ := h.tracks.condition hc
  have hset : (s.setCondition c { r with state := .POSIX_CONDITION_BROADCASTED }).conditions.get c
      = some { r with state := .POSIX_CONDITION_BROADCASTED } := Registry.get_set_self hr
  have hmarked : Sound o (s.setCondition c { r with state := .POSIX_CONDITION_BROADCASTED }) m :=
    ⟨h.tracks.setState hr _, h.orderly, h.blocked⟩
  have hrounds : (m.line (.inr c)).length
      < (s.setCondition c { r with state := .POSIX_CONDITION_BROADCASTED }).rounds c := by
    unfold Posix.rounds
    rw [hset, Option.elim_some, ← hline]
    exact Nat.lt_succ_of_le (List.length_filterMap_le id r.waiting_threads)
  obtain ⟨s', hloop, h'⟩ :=
    hmarked.broadcastLoop hc (fun hne => (h.tracks.key c r hr hne).1) hrounds
  unfold Posix.aint_pthread_condition_broadcast Posix.posix_condition_get_mutex_key
    Posix.posix_condition_broadcasted
  rw [hr, Option.map_some, Option.map_some, Option.bind_some, Option.bind_some, hloop,
    Option.map_some]
  exact ⟨s', rfl, h'⟩

end Sound

/-! ### Runs -/

inductive Event (K : Type)
  | lock (tid : Nat) (mutex : K)
  | unlock (tid : Nat) (mutex : K)
  | wait (tid : Nat) (cond mutex : K)
  | signal (tid : Nat) (cond : K)
  | broadcast (tid : Nat) (cond : K)
  deriving DecidableEq, Repr

def Event.tid : Event K → Nat
  | .lock tid _ => tid
  | .unlock tid _ => tid
  | .wait tid _ _ => tid
  | .signal tid _ => tid
  | .broadcast tid _ => tid

def Posix.issue (s : Posix K) : Event K → Option (Posix K × Next)
  | .lock tid mutex => s.aint_pthread_mutex_lock tid mutex
  | .unlock tid mutex => s.aint_pthread_mutex_unlock tid mutex
  | .wait tid cond mutex => s.aint_pthread_condition_wait tid cond mutex
  | .signal _ cond => s.aint_pthread_condition_signal cond
  | .broadcast _ cond => s.aint_pthread_condition_broadcast cond

def Objects.does (o : Objects K) (m : Monitor K K Nat) : Event K → Monitor K K Nat
  | .lock tid mutex => m.acquire mutex tid
  | .unlock _ mutex => m.release mutex
  | .wait tid cond mutex => (m.release mutex).wait cond tid
  | .signal _ cond => m.signal cond (o.mutexOf cond)
  | .broadcast _ cond => m.broadcast cond (o.mutexOf cond)

/-- The code and the monitor, and what each thread has to issue again. -/
structure PosixRun (K : Type) where
  code : Posix K
  monitor : Monitor K K Nat
  again : Nat → Option (Event K)

namespace PosixRun

variable (o : Objects K)

/-- A blocked thread issues nothing.  An instruction that returns itself and does not block
its thread is the next one of the thread. -/
def exec (s : PosixRun K) (e : Event K) : Option (PosixRun K) :=
  if s.code.blocked e.tid = true then none
  else if s.again e.tid = none ∨ s.again e.tid = some e then
    (s.code.issue e).map fun r =>
      { code := r.1
        monitor := o.does s.monitor e
        again := Function.update s.again e.tid
          (if r.2 = .picode ∧ r.1.blocked e.tid ≠ true then some e else none) }
  else none

/-- The program uses initialised objects and each condition with its mutex, and unlocks and
waits with mutexes it owns. -/
def legal (s : PosixRun K) : Event K → Bool
  | .lock _ mutex => o.initialised (.inl mutex)
  | .unlock tid mutex =>
      o.initialised (.inl mutex) && decide (s.monitor.holder mutex = some tid)
  | .wait tid cond mutex =>
      o.initialised (.inr cond) && o.initialised (.inl mutex) && decide (mutex = o.mutexOf cond) &&
        decide (s.monitor.holder mutex = some tid)
  | .signal _ cond => o.initialised (.inr cond)
  | .broadcast _ cond => o.initialised (.inr cond)

/-- Signals find the mutex unlocked, or nobody that waits. -/
def careful (s : PosixRun K) (e : Event K) : Bool :=
  legal o s e &&
    match e with
    | .signal _ cond =>
        decide (s.monitor.line (.inr cond) = []) ||
          decide (s.monitor.holder (o.mutexOf cond) = none)
    | _ => true

/-- All objects are unlocked and nobody waits. -/
structure Start (s : PosixRun K) : Prop where
  registered : s.code.registered = o.initialised
  mutexes : ∀ k r, s.code.mutexes.get k = some r → r = ⟨.POSIX_MUTEX_UNLOCKED, none, []⟩
  conditions : ∀ c r, s.code.conditions.get c = some r → r.waiting_threads = []
  blocked : ∀ tid, s.code.blocked tid = false
  holder : ∀ k, s.monitor.holder k = none
  line : ∀ p, s.monitor.line p = []
  again : ∀ tid, s.again tid = none

/-- `e` may happen in `s`. -/
def Step (ok : PosixRun K → Event K → Bool) (s t : PosixRun K) : Prop :=
  ∃ e, ok s e = true ∧ exec o s e = some t

/-- Mutexes have the owners they should have, waiting lists are in the order in which the
threads began to wait, and nobody has to issue an instruction again. -/
structure Correct (s : PosixRun K) : Prop where
  owned : ∀ k r, s.code.mutexes.get k = some r → r.OwnedBy (s.monitor.holder k)
  waiting : ∀ p, s.code.waiting p = s.monitor.line p
  unlocked : ∀ k r, s.code.mutexes.get k = some r → r.state = .POSIX_MUTEX_UNLOCKED →
    s.code.waiting (.inl k) = []
  blocked : ∀ tid, s.code.blocked tid = true ↔ ∃ p, tid ∈ s.code.waiting p
  once : ∀ p q tid, tid ∈ s.code.waiting p → tid ∈ s.code.waiting q → p = q
  nodup : ∀ p, (s.code.waiting p).Nodup
  continues : ∀ tid, s.again tid = none
  issues : ∀ e, s.code.blocked e.tid = false → legal o s e = true → (exec o s e).isSome

variable {o} {s t : PosixRun K}

theorem Start.sound (h : Start o s) : Sound o s.code s.monitor := by
  have hwaiting : ∀ p, s.code.waiting p = [] := by
    intro p
    cases p with
    | inl k =>
        cases hget : s.code.mutexes.get k with
        | none => simp [Posix.waiting, hget]
        | some r =>
            rw [Posix.waiting_inl hget, h.mutexes k r hget]
            rfl
    | inr c =>
        cases hget : s.code.conditions.get c with
        | none => simp [Posix.waiting, hget]
        | some r =>
            rw [Posix.waiting_inr hget, h.conditions c r hget]
            rfl
  have hnobody : ∀ tid, ¬ s.monitor.Waits tid := by
    rintro tid ⟨p, hp⟩
    rw [h.line p] at hp
    cases hp
  refine ⟨⟨h.registered, ?_, ?_, ?_⟩, ⟨?_, ?_, ?_⟩, ?_⟩
  · intro p
    rw [hwaiting, h.line]
  · intro k r hget
    rw [h.holder, h.mutexes k r hget]
    exact rfl
  · intro c r _ hne
    exact absurd (h.line _) hne
  · intro p
    rw [h.line p]
    exact List.nodup_nil
  · intro p q tid hp
    rw [h.line p] at hp
    cases hp
  · intro k _
    exact h.line _
  · intro tid
    rw [h.blocked tid]
    exact ⟨fun hfalse => absurd hfalse Bool.false_ne_true, fun hw => absurd hw (hnobody tid)⟩

/-- **Each instruction of a legal program does what the monitor does.**  What returns itself
is one that blocks its thread, or a signal that finds the mutex locked. -/
theorem issue (h : Sound o s.code s.monitor) {e : Event K} (hrun : s.code.blocked e.tid ≠ true)
    (hlegal : legal o s e = true) :
    ∃ code' n, s.code.issue e = some (code', n) ∧ Sound o code' (o.does s.monitor e) ∧
      (careful o s e = true → n = .picode → code'.blocked e.tid = true) := by
  cases e with
  | lock tid mutex =>
      obtain ⟨code', hissue, h'⟩ := h.lock hlegal hrun
      refine ⟨code', _, hissue, h', ?_⟩
      intro _ hnext
      refine (h'.blocked tid).mpr ?_
      rw [Monitor.waits_acquire]
      refine Or.inr ⟨rfl, ?_⟩
      intro hfree
      rw [if_pos hfree] at hnext
      cases hnext
  | unlock tid mutex =>
      obtain ⟨hk, hheld⟩ := Bool.and_eq_true_iff.mp hlegal
      obtain ⟨code', hissue, h'⟩ := h.unlock hk (of_decide_eq_true hheld)
      exact ⟨code', .next, hissue, h', fun _ hnext => absurd hnext (by decide)⟩
  | wait tid cond mutex =>
      simp only [legal, Bool.and_eq_true, decide_eq_true_eq] at hlegal
      obtain ⟨⟨⟨hc, hk⟩, rfl⟩, hheld⟩ := hlegal
      obtain ⟨code', hissue, h'⟩ := h.wait hc hk hheld hrun
      refine ⟨code', .picode, hissue, h', ?_⟩
      intro _ _
      refine (h'.blocked tid).mpr ?_
      have hjoin := Monitor.waits_join (m := s.monitor.release (o.mutexOf cond)) (.inr cond) tid tid
      exact hjoin.mpr (Or.inr rfl)
  | signal tid cond =>
      obtain ⟨code', hissue, h'⟩ := h.signal hlegal
      refine ⟨code', _, hissue, h', ?_⟩
      intro hcareful hnext
      simp only [careful, Bool.and_eq_true, Bool.or_eq_true, decide_eq_true_eq] at hcareful
      have hcontinues : ¬ (s.monitor.line (.inr cond) ≠ [] ∧
          s.monitor.holder (o.mutexOf cond) ≠ none) := by
        rintro ⟨hwait, hheld⟩
        exact hcareful.2.elim hwait hheld
      rw [if_neg hcontinues] at hnext
      cases hnext
  | broadcast tid cond =>
      obtain ⟨code', hissue, h'⟩ := h.broadcast hlegal
      exact ⟨code', .next, hissue, h', fun _ hnext => absurd hnext (by decide)⟩

/-- **A careful instruction keeps the code sound, and none has to be issued again.** -/
theorem Step.sound (hst : Step o (careful o) s t)
    (h : Sound o s.code s.monitor ∧ ∀ tid, s.again tid = none) :
    Sound o t.code t.monitor ∧ ∀ tid, t.again tid = none := by
  obtain ⟨hs, hagain⟩ := h
  obtain ⟨e, hok, hexec⟩ := hst
  unfold exec at hexec
  by_cases hrun : s.code.blocked e.tid = true
  · rw [if_pos hrun] at hexec
    cases hexec
  · obtain ⟨code', n, hissue, h', hnext⟩ := issue hs hrun (Bool.and_eq_true_iff.mp hok).1
    rw [if_neg hrun, if_pos (Or.inl (hagain e.tid)), hissue, Option.map_some] at hexec
    cases hexec
    refine ⟨h', ?_⟩
    intro tid
    simp only
    rw [if_neg fun hself => hself.2 (hnext hok hself.1), Function.update_apply, hagain tid]
    exact ite_self none

/-- **Mutexes and conditions are correct in every run in which no signal finds the mutex of
a waiting thread locked.** -/
theorem correct_of_careful (o : Objects K) {s : PosixRun K}
    (h : Reaches (Start o) (Step o (careful o)) s) : s.Correct o := by
  have hall : Sound o s.code s.monitor ∧ ∀ tid, s.again tid = none := by
    refine h.invariant (P := fun s => Sound o s.code s.monitor ∧ ∀ tid, s.again tid = none) ?_ ?_
    · intro s hs
      exact ⟨hs.sound, hs.again⟩
    · intro s t hs hst
      exact hst.sound hs
  obtain ⟨hs, hagain⟩ := hall
  refine ⟨hs.tracks.owned, hs.tracks.waiting, ?_, ?_, ?_, ?_, hagain, ?_⟩
  · intro k r hget hunlocked
    rw [hs.tracks.waiting]
    apply hs.orderly.idle
    have hown := hs.tracks.owned k r hget
    cases hholder : s.monitor.holder k with
    | none => rfl
    | some tid =>
        rw [hholder] at hown
        exact absurd (hunlocked.symm.trans hown.1) (by decide)
  · intro tid
    rw [hs.blocked]
    exact exists_congr fun p => by rw [hs.tracks.waiting]
  · intro p q tid hp hq
    rw [hs.tracks.waiting] at hp hq
    exact hs.orderly.once p q tid hp hq
  · intro p
    rw [hs.tracks.waiting]
    exact hs.orderly.nodup p
  · intro e hrun hlegal
    have hrun' : s.code.blocked e.tid ≠ true := by simp [hrun]
    obtain ⟨code', n, hissue, -, -⟩ := issue hs hrun' hlegal
    unfold exec
    rw [if_neg hrun', if_pos (Or.inl (hagain e.tid)), hissue, Option.map_some]
    rfl

/-! ### A signal that is issued again -/

/-- One mutex and one condition. -/
def pair : Objects Nat :=
  ⟨fun _ => 0, fun p => decide (p = .inl 0) || decide (p = .inr 1)⟩

def fresh : PosixRun Nat :=
  ⟨⟨[(0, ⟨.POSIX_MUTEX_UNLOCKED, none, []⟩)], [(1, ⟨.POSIX_CONDITION_UNSIGNALLED, none, []⟩)],
      fun _ => false⟩,
    ⟨fun _ => none, fun _ => []⟩, fun _ => none⟩

theorem fresh_start : Start pair fresh := by
  refine ⟨?_, ?_, ?_, fun _ => rfl, fun _ => rfl, fun _ => rfl, fun _ => rfl⟩
  · funext p
    cases p with
    | inl k =>
        by_cases hk : k = 0
        · subst hk
          rfl
        · simp [Posix.registered, fresh, pair, Registry.get, hk, Ne.symm hk]
    | inr c =>
        by_cases hc : c = 1
        · subst hc
          rfl
        · simp [Posix.registered, fresh, pair, Registry.get, hc, Ne.symm hc]
  · intro k r hget
    have hmem := Registry.get_mem hget
    unfold fresh at hmem
    rw [List.mem_singleton] at hmem
    exact (Prod.mk.inj hmem).2
  · intro c r hget
    have hmem := Registry.get_mem hget
    unfold fresh at hmem
    rw [List.mem_singleton] at hmem
    rw [(Prod.mk.inj hmem).2]

theorem reaches_after {ok : PosixRun Nat → Event Nat → Bool} {es : List (Event Nat)}
    {s : PosixRun Nat} (h : after (exec pair) ok es fresh = some s) :
    Reaches (Start pair) (Step pair ok) s :=
  Reaches.after (fun _ e _ hok hexec => ⟨e, hok, hexec⟩) (.start fresh_start) h

/-- A thread waits, and another one signals when it has unlocked. -/
def politeSignal : List (Event Nat) :=
  [.lock 0 0, .lock 1 0, .wait 0 1 0, .unlock 1 0, .signal 1 1, .unlock 0 0]

theorem correct_of_careful_polite :
    ∃ s, after (exec pair) (careful pair) politeSignal fresh = some s ∧ s.Correct pair := by
  have hrun : (after (exec pair) (careful pair) politeSignal fresh).isSome = true := by
    decide +kernel
  obtain ⟨s, hs⟩ := Option.isSome_iff_exists.mp hrun
  exact ⟨s, hs, correct_of_careful pair (reaches_after hs)⟩

/-- A thread waits, and another one signals with the mutex locked. -/
def signalInside : List (Event Nat) :=
  [.lock 0 0, .wait 0 1 0, .lock 1 0, .signal 1 1]

/-- **The signal of a thread that owns the mutex does not continue.** -/
theorem not_correct_signal_inside :
    ¬ ∀ s, Reaches (Start pair) (Step pair (legal pair)) s → s.Correct pair := by
  intro hall
  have hrun : (after (exec pair) (legal pair) signalInside fresh).map (fun s => s.again 1)
      = some (some (.signal 1 1)) := by
    decide +kernel
  obtain ⟨s, hs, hagain⟩ := Option.map_eq_some_iff.mp hrun
  have hcontinues := (hall s (reaches_after hs)).continues 1
  rw [hagain] at hcontinues
  cases hcontinues

end PosixRun

end AsimFeeder.Aint.PosixThread
