/-
What the performance model gets from the SoftSDV feeder, over whole runs.

Whatever the model mispredicts, what leaves the buffer is what SoftSDV sent, in order, each
once.  The invariant cuts the buffer into what is in flight or in front of it, what was passed
after the end of the simulation, and what has yet to be fetched.
-/
import Mathlib
import AsimFeeder.Lib.Runs
import AsimFeeder.SoftSDV.FeederIpfCalls

namespace AsimFeeder.SoftSDV

open AsimFeeder.Lib

variable {Rep Regs : Type}

/-! ### The invariant -/

/-- The live instruction behind a macro instruction. -/
def MacroTraceId.handle? : MacroTraceId → Option Ref
  | .handle r => some r
  | _ => none

/-- What comes first on a path: live instructions, then a wrong path, then none. -/
def MacroTraceId.rank : MacroTraceId → Nat
  | .handle _ => 0
  | .wrongPath => 1
  | .artificial => 2

theorem MacroTraceId.rank_eq_zero {id : MacroTraceId} : id.rank = 0 ↔ ∃ r, id = .handle r := by
  rcases id with _ | _ | r <;> simp [MacroTraceId.rank]

namespace FrontEnd

variable {P : FeederParams} {w w' : FrontEnd Rep Regs} {xs zs ys : List Ref}

/-- The live instructions in flight, with that of the last `WarmUp`. -/
def flight (w : FrontEnd Rep Regs) : List Ref :=
  w.feeder.lastWarmup.toList ++ w.inFlight.filterMap MacroTraceId.handle?

/-- The instructions the model has to commit itself. -/
def mustCommit (P : FeederParams) (is : List IpfInstr) : List IpfInstr :=
  is.filter fun i => !P.isNopOrTypeL i

/-- `xs` is in flight, or in front of what is; `zs` was passed after the end and is lost to the
model; `ys` has yet to be fetched. -/
structure Inv (P : FeederParams) (sent : List IpfInstr) (w : FrontEnd Rep Regs)
    (xs zs ys : List Ref) : Prop where
  cut : Cut P w.feeder.liveInstrs (xs ++ zs) ys
  passed : zs ≠ [] → w.feeder.simComplete = true
  handles : w.flight.Sublist xs
  others : ∀ r ∈ xs, r ∉ w.flight → (w.feeder.liveInstrs.list.entry r).implicitCommit = true
  order : w.inFlight.Pairwise fun a b => a.rank ≤ b.rank
  wrongPath : .wrongPath ∈ w.inFlight → w.feeder.onBadPath = true ∨ w.feeder.simComplete = true
  artificial : .artificial ∈ w.inFlight → w.feeder.simComplete = true
  warm : ∀ r, w.feeder.lastWarmup = some r → w.inFlight = []
  sent : w.committed ++ w.feeder.pending (xs ++ zs ++ ys) = sent.flatMap IpfInstr.expand
  explicit : mustCommit P w.explicit = mustCommit P w.committed

@[simp] theorem mustCommit_append (xs ys : List IpfInstr) :
    mustCommit P (xs ++ ys) = mustCommit P xs ++ mustCommit P ys :=
  List.filter_append ..

/-- Of what commits with another there is nothing that has to. -/
theorem mustCommit_implicit {entry : Ref → Entry IpfInstr} {rs : List Ref}
    (hok : ∀ r ∈ rs, EntryOk P (entry r)) (himp : ∀ r ∈ rs, (entry r).implicitCommit = true) :
    mustCommit P (realsOf entry rs) = [] := by
  simp only [mustCommit, realsOf, List.filter_eq_nil_iff, List.mem_map, List.mem_filter]
  rintro i ⟨r, ⟨hr, hreal⟩, rfl⟩
  have := (hok r hr).implicit (by simpa using hreal) (himp r hr)
  simp [this]

/-- What a sublist keeps around one of its members. -/
theorem sublist_around {α : Type} {hs₁ hs₂ xs : List α} {r : α} (h : (hs₁ ++ r :: hs₂).Sublist xs) :
    ∃ us vs, xs = us ++ r :: vs ∧ hs₁.Sublist us ∧ hs₂.Sublist vs := by
  obtain ⟨x₁, x₂, rfl, h₁, h₂⟩ := List.append_sublist_iff.mp h
  obtain ⟨p, q, rfl, hr, hq⟩ := List.cons_sublist_iff.mp h₂
  obtain ⟨p₁, p₂, rfl⟩ := List.append_of_mem hr
  exact ⟨x₁ ++ p₁, p₂ ++ q, by simp, List.sublist_append_of_sublist_left h₁,
    List.sublist_append_of_sublist_right hq⟩

/-- The first in flight commits, with what is in front of it. -/
theorem Inv.commitFirst {sent : List IpfInstr} (h : Inv P sent w xs zs ys) {r : Ref} {hs : List Ref}
    (hfirst : w.flight = r :: hs) :
    ∃ b' num tag vs, w.feeder.liveInstrs.commitInstruction r = .ok (b', num, tag) ∧
      ∀ w' : FrontEnd Rep Regs, w'.feeder.liveInstrs = b' →
        w'.feeder.instrRing = w.feeder.instrRing → w'.feeder.onBadPath = w.feeder.onBadPath →
        w'.feeder.simComplete = w.feeder.simComplete → w'.flight = hs →
        w'.inFlight.Sublist w.inFlight → (∀ r, w'.feeder.lastWarmup = some r → w'.inFlight = []) →
        w'.committed = (w.noteCommit r).committed → w'.explicit = (w.noteCommit r).explicit →
        Inv P sent w' vs zs ys := by
  have hsub := h.handles
  rw [hfirst] at hsub
  obtain ⟨us, vs, rfl, -, hvs⟩ := sublist_around (List.nil_append (r :: hs) ▸ hsub)
  have hnd := h.cut.nodup
  have hr : ∀ s ∈ us ++ vs, s ≠ r := by
    rintro s hs rfl
    simp [List.nodup_append, List.nodup_cons] at hnd hs
    grind
  have hus : ∀ s ∈ us, s ∉ w.flight := by
    intro s hs hmem
    rw [hfirst, List.mem_cons] at hmem
    rcases hmem with rfl | hmem
    · exact hr s (by simp [hs]) rfl
    · have hv := hvs.subset hmem
      simp [List.nodup_append, List.nodup_cons] at hnd
      grind
  have himp : ∀ s ∈ us, (w.feeder.liveInstrs.list.entry s).implicitCommit = true := fun s hs =>
    h.others s (by simp [hs]) (hus s hs)
  have hcut : Cut P w.feeder.liveInstrs (us ++ r :: (vs ++ zs)) ys := by simpa using h.cut
  obtain ⟨b', num, tag, hcommit, hcut', hentry⟩ := hcut.commitInstruction himp
  refine ⟨b', num, tag, vs, hcommit, ?_⟩
  intro w' hb hring hbad hsim hhandles hflight hwarm hcommitted hexplicit
  have hcells := hcut.cellsTo
  exact
    { cut := by rw [hb]; exact hcut'
      passed := fun hz => hsim ▸ h.passed hz
      handles := by rw [hhandles]; exact hvs
      others := by
        intro s hs hnot
        rw [hb, hentry]
        refine h.others s (by simp [hs]) ?_
        rw [hfirst, List.mem_cons, not_or, ← hhandles]
        exact ⟨hr s (by simp [hs]), hnot⟩
      order := h.order.sublist hflight
      wrongPath := fun hm => by rw [hbad, hsim]; exact h.wrongPath (hflight.subset hm)
      artificial := fun hm => by rw [hsim]; exact h.artificial (hflight.subset hm)
      warm := hwarm
      sent := by
        have hpending : realsOf w.feeder.liveInstrs.list.entry (us ++ [r]) ++
            w'.feeder.pending (vs ++ zs ++ ys) = w.feeder.pending (us ++ r :: (vs ++ zs ++ ys)) :=
          FeederIpf.commit_pending hentry hb hring
        rw [hcommitted, ← h.sent]
        simp only [noteCommit, hcells, instrsOf_eq]
        rw [List.append_assoc, hpending]
        simp
      explicit := by
        have hnone := mustCommit_implicit (fun s hs => h.cut.ok s (by simp [hs])) himp
        rw [hcommitted, hexplicit]
        simp only [noteCommit, hcells, instrsOf_eq, mustCommit_append, realsOf_append, hnone,
          h.explicit, List.nil_append] }

theorem mem_filterMap_handle {ids : List MacroTraceId} {r : Ref} :
    r ∈ ids.filterMap MacroTraceId.handle? ↔ .handle r ∈ ids := by
  rw [List.mem_filterMap]
  constructor
  · rintro ⟨id, hid, hr⟩
    rcases id with _ | _ | s <;> simp [MacroTraceId.handle?] at hr
    rwa [← hr]
  · intro h
    exact ⟨_, h, rfl⟩

variable {sent : List IpfInstr}

theorem Inv.zs_nil (h : Inv P sent w xs zs ys) (hsim : w.feeder.simComplete = false) : zs = [] := by
  by_contra hz
  simp [h.passed hz] at hsim

theorem Inv.fetch (h : Inv P sent w xs zs ys) (hwarm : w.feeder.lastWarmup = none) (pc : UInt64) :
    ∃ w' xs' zs' ys', w.exec P (.fetch pc) = .ok w' ∧ Inv P sent w' xs' zs' ys' := by
  obtain ⟨f', id, us, vs, hfetch, hf, hid⟩ := FeederIpf.fetchMacro_spec h.cut pc
  have hwarm' : f'.lastWarmup = none := hf.lastWarmup.trans hwarm
  have hexec : w.exec P (.fetch pc) =
      .ok { w with feeder := f', inFlight := w.inFlight ++ [id] } := by
    simp [exec, hfetch, bind, Except.bind]
  have horder : (∀ a ∈ w.inFlight, a.rank ≤ id.rank) →
      (w.inFlight ++ [id]).Pairwise fun a b => a.rank ≤ b.rank := by
    intro hle
    rw [List.pairwise_append]
    exact ⟨h.order, List.pairwise_singleton .., by simpa using hle⟩
  have hothers : ∀ s ∈ xs, s ∉ w.flight → (f'.liveInstrs.list.entry s).implicitCommit = true := by
    intro s hs hnot
    rw [hf.entry s (by simp [hs])]
    exact h.others s hs hnot
  have hnew : flight { w with feeder := f', inFlight := w.inFlight ++ [id] } =
      w.flight ++ id.handle?.toList := by
    rcases id with _ | _ | r <;> simp [flight, hwarm, hwarm', MacroTraceId.handle?]
  rcases id with _ | _ | r
  · obtain ⟨hsim, hbad, hsame, himp⟩ := hid
    have hz := h.zs_nil hsim
    subst hz
    refine ⟨_, xs ++ us, [], vs, hexec, ?_⟩
    exact
      { cut := by simpa using hf.cut
        passed := by simp
        handles := by
          rw [hnew]
          simpa [MacroTraceId.handle?] using List.sublist_append_of_sublist_left h.handles
        others := by
          intro s hs hnot
          rcases List.mem_append.mp hs with hs | hs
          · exact hothers s hs fun hmem => hnot (by simp [hnew, hmem])
          · exact himp s hs
        order := by
          refine horder fun a ha => ?_
          rcases a with _ | _ | _ <;> simp [MacroTraceId.rank]
          exact absurd (h.artificial ha) (by simp [hsim])
        wrongPath := fun _ => Or.inl hbad
        artificial := by
          intro ha
          exact absurd (h.artificial (by simpa using ha)) (by simp [hsim])
        warm := by simp [hwarm']
        sent := by
          rw [← h.sent, ← hf.pending]
          simp
        explicit := h.explicit }
  · refine ⟨_, xs, zs ++ us, vs, hexec, ?_⟩
    exact
      { cut := by simpa using hf.cut
        passed := fun _ => hid
        handles := by
          rw [hnew]
          simpa [MacroTraceId.handle?] using h.handles
        others := fun s hs hnot => hothers s hs fun hmem => hnot (by simp [hnew, hmem])
        order := horder fun a _ => by rcases a with _ | _ | _ <;> simp [MacroTraceId.rank]
        wrongPath := fun _ => Or.inr hid
        artificial := fun _ => hid
        warm := by simp [hwarm']
        sent := by
          rw [← h.sent, ← hf.pending]
          simp
        explicit := h.explicit }
  · obtain ⟨hsim, hbad, hbad', hsim', -, as, rfl, himp⟩ := hid
    have hz := h.zs_nil hsim
    subst hz
    have hgood : ∀ a ∈ w.inFlight, a.rank = 0 := by
      intro a ha
      rcases a with _ | _ | _
      · simpa [hsim, hbad] using h.wrongPath ha
      · exact absurd (h.artificial ha) (by simp [hsim])
      · rfl
    refine ⟨_, xs ++ (as ++ [r]), [], vs, hexec, ?_⟩
    exact
      { cut := by simpa using hf.cut
        passed := by simp
        handles := by
          rw [hnew]
          exact h.handles.append (List.sublist_append_right as [r])
        others := by
          intro s hs hnot
          rw [hnew] at hnot
          simp only [List.mem_append, MacroTraceId.handle?, Option.toList_some, List.mem_singleton,
            not_or] at hs hnot
          rcases hs with hs | hs | hs
          · exact hothers s hs hnot.1
          · exact himp s hs
          · exact absurd hs hnot.2
        order := horder fun a ha => by simp [hgood a ha]
        wrongPath := by
          intro ha
          have := hgood .wrongPath (by simpa using ha)
          cases this
        artificial := by
          intro ha
          have := hgood .artificial (by simpa using ha)
          cases this
        warm := by simp [hwarm']
        sent := by
          rw [← h.sent, ← hf.pending]
          simp
        explicit := h.explicit }

/-- Of what is in flight, something that is no live instruction is gone. -/
theorem Inv.shorten (h : Inv P sent w xs zs ys) {ids : List MacroTraceId} {f : FeederIpf Rep Regs}
    (hids : ids.Sublist w.inFlight)
    (hhandles : ids.filterMap MacroTraceId.handle? = w.inFlight.filterMap MacroTraceId.handle?)
    (hf : f.liveInstrs = w.feeder.liveInstrs ∧ f.instrRing = w.feeder.instrRing ∧
      f.simComplete = w.feeder.simComplete ∧ f.lastWarmup = w.feeder.lastWarmup ∧
      (f.onBadPath = w.feeder.onBadPath ∨ f.simComplete = true)) :
    Inv P sent { w with feeder := f, inFlight := ids } xs zs ys := by
  obtain ⟨hlive, hring, hsim, hwarm, hbad⟩ := hf
  have hsame : flight { w with feeder := f, inFlight := ids } = w.flight := by
    simp only [flight, hwarm, hhandles]
  exact
    { cut := by
        rw [hlive]
        exact h.cut
      passed := fun hz => hsim.trans (h.passed hz)
      handles := by
        rw [hsame]
        exact h.handles
      others := by
        rw [hsame, hlive]
        exact h.others
      order := h.order.sublist hids
      wrongPath := by
        intro hm
        rcases hbad with hbad | hbad
        · rw [hbad, hsim]
          exact h.wrongPath (hids.subset hm)
        · exact Or.inr hbad
      artificial := fun hm => hsim.trans (h.artificial (hids.subset hm))
      warm := by
        intro r hr
        have hnil := h.warm r (hwarm ▸ hr)
        rw [hnil] at hids
        exact List.sublist_nil.mp hids
      sent := by
        have hpending : f.pending (xs ++ zs ++ ys) = w.feeder.pending (xs ++ zs ++ ys) := by
          simp only [FeederIpf.pending, hlive, hring]
        rw [← h.sent, hpending]
      explicit := h.explicit }

theorem Inv.commit (h : Inv P sent w xs zs ys) (hop : w.Allowed .commit) :
    ∃ w' xs', w.exec P .commit = .ok w' ∧ Inv P sent w' xs' zs ys := by
  rcases hin : w.inFlight with _ | ⟨id, rest⟩
  · exact ⟨w, xs, by simp [exec, hin], h⟩
  have hwarm : w.feeder.lastWarmup = none := by
    by_contra hne
    obtain ⟨r, hr⟩ := Option.ne_none_iff_exists'.mp hne
    simp [h.warm r hr] at hin
  have hrest : rest.Sublist w.inFlight := by simp [hin]
  rcases id with _ | _ | r
  · simp [Allowed, hin] at hop
  · refine ⟨{ w with inFlight := rest }, xs,
      by simp [exec, hin, FeederIpf.commit, bind, Except.bind],
        h.shorten hrest ?_ ⟨rfl, rfl, rfl, rfl, Or.inl rfl⟩⟩
    simp [hin, List.filterMap_cons, MacroTraceId.handle?]
  · have hfirst : w.flight = r :: rest.filterMap MacroTraceId.handle? := by
      simp [flight, hwarm, hin, MacroTraceId.handle?]
    obtain ⟨b', num, tag, vs, hcommit, hinv⟩ := h.commitFirst hfirst
    refine ⟨{ w.noteCommit r with
      feeder := { w.feeder with liveInstrs := b' }, inFlight := rest }, vs, ?_, ?_⟩
    · simp [exec, hin, FeederIpf.commit, hcommit, bind, Except.bind]
    · exact hinv _ rfl rfl rfl rfl (by simp [flight, hwarm]) hrest (by simp [hwarm]) rfl rfl

theorem Inv.bypass (h : Inv P sent w xs zs ys) {i : Nat} (hop : w.Allowed (.bypass i)) :
    ∃ w', w.exec P (.bypass i) = .ok w' ∧ Inv P sent w' xs zs ys := by
  refine ⟨_, rfl, ?_⟩
  have hrest : (w.inFlight.eraseIdx i).Sublist w.inFlight := List.eraseIdx_sublist ..
  exact
    { cut := h.cut
      passed := h.passed
      handles := ((hrest.filterMap _).append_left _).trans h.handles
      others := by
        intro s hs hnot
        by_cases hmem : s ∈ w.flight
        · -- it is the one that was dropped
          refine hop s ?_
          simp only [flight, List.mem_append, mem_filterMap_handle, not_or] at hmem hnot
          obtain ⟨k, hk⟩ := List.getElem?_of_mem (hmem.resolve_left hnot.1)
          by_cases hki : k = i
          · rw [← hki, hk]
          · exact absurd (List.mem_eraseIdx_iff_getElem?.mpr ⟨k, hki, hk⟩) hnot.2
        · exact h.others s hs hmem
      order := h.order.sublist hrest
      wrongPath := fun hm => h.wrongPath (hrest.subset hm)
      artificial := fun hm => h.artificial (hrest.subset hm)
      warm := by
        intro r hr
        simp [h.warm r hr]
      sent := h.sent
      explicit := h.explicit }

/-- The cursor goes back into what is in flight, and what was behind it is dropped. -/
theorem Inv.rewind {us vs : List Ref} (h : Inv P sent w (us ++ vs) zs ys)
    (hlive : w'.feeder.liveInstrs =
      { w.feeder.liveInstrs with nextFetch := (vs ++ zs ++ ys).head? })
    (hring : w'.feeder.instrRing = w.feeder.instrRing) (hwarm : w'.feeder.lastWarmup = none)
    (hsub : w'.flight.Sublist us) (hkeep : ∀ s ∈ us, s ∈ w.flight → s ∈ w'.flight)
    (hrank : ∀ a ∈ w'.inFlight, a.rank = 0) (hcommitted : w'.committed = w.committed)
    (hexplicit : w'.explicit = w.explicit) : Inv P sent w' us [] (vs ++ zs ++ ys) where
  cut := by
    rw [hlive]
    exact h.cut.setCursor (by simp)
  passed := by simp
  handles := hsub
  others := by
    intro s hs hnot
    rw [hlive]
    exact h.others s (by simp [hs]) fun hmem => hnot (hkeep s hs hmem)
  order := by
    have htrue : w'.inFlight.Pairwise fun _ _ => True := List.pairwise_of_forall fun _ _ => trivial
    refine htrue.imp_of_mem ?_
    intro a b ha _ _
    simp [hrank a ha]
  wrongPath := fun ha => absurd (hrank _ ha) (by simp [MacroTraceId.rank])
  artificial := fun ha => absurd (hrank _ ha) (by simp [MacroTraceId.rank])
  warm := by simp [hwarm]
  sent := by
    rw [hcommitted, ← h.sent]
    simp only [FeederIpf.pending, hlive, hring]
    simp [ReplayBuffer.list]
  explicit := by rw [hcommitted, hexplicit, h.explicit]

theorem filterMap_handle_nil {ids : List MacroTraceId} (h : ∀ a ∈ ids, a.rank ≠ 0) :
    ids.filterMap MacroTraceId.handle? = [] := by
  rw [List.filterMap_eq_nil_iff]
  intro a ha
  rcases a with _ | _ | r
  · rfl
  · rfl
  · exact absurd rfl (h _ ha)

theorem Inv.kill (h : Inv P sent w xs zs ys) (i : Nat) (killMe : Bool) :
    ∃ w' xs' zs' ys', w.exec P (.kill i killMe) = .ok w' ∧ Inv P sent w' xs' zs' ys' := by
  rcases hi : w.inFlight[i]? with _ | id
  · exact ⟨w, xs, zs, ys, by simp [exec, hi], h⟩
  obtain ⟨hlt, hget⟩ := List.getElem?_eq_some_iff.mp hi
  let pre := w.inFlight.take i
  let post := w.inFlight.drop (i + 1)
  have hin : w.inFlight = pre ++ id :: post := by
    rw [← hget, ← List.drop_eq_getElem_cons hlt, List.take_append_drop]
  have hwarm : w.feeder.lastWarmup = none := by
    by_contra hne
    obtain ⟨r, hr⟩ := Option.ne_none_iff_exists'.mp hne
    simp [h.warm r hr] at hin
  have hlen : pre.length = i := List.length_take_of_le (Nat.le_of_lt hlt)
  have htake : w.inFlight.take (if killMe then i else i + 1) =
      pre ++ if killMe then [] else [id] := by
    rcases killMe
    · rw [hin]
      simp [← hlen, List.take_append]
    · simp [pre]
  have horder := h.order
  rw [hin, List.pairwise_append, List.pairwise_cons] at horder
  obtain ⟨-, ⟨hpost, -⟩, hpre⟩ := horder
  have hexec : w.exec P (.kill i killMe) = .ok { w with
      feeder := w.feeder.kill killMe id
      inFlight := pre ++ if killMe then [] else [id] } := by
    simp [exec, hi, htake]
  have hsub : (pre ++ if killMe then [] else [id]).Sublist w.inFlight := by
    rw [← htake]
    exact List.take_sublist ..
  by_cases hrank : id.rank = 0
  · obtain ⟨r, rfl⟩ := MacroTraceId.rank_eq_zero.mp hrank
    have hflight : w.flight =
        pre.filterMap MacroTraceId.handle? ++ r :: post.filterMap MacroTraceId.handle? := by
      simp only [flight, hwarm, hin, List.filterMap_append]
      rfl
    have hpre0 : ∀ a ∈ pre, a.rank = 0 := fun a ha =>
      Nat.le_zero.mp (hpre a ha _ List.mem_cons_self)
    have hhandles := h.handles
    rw [hflight] at hhandles
    obtain ⟨us, vs, rfl, hus, hvs⟩ := sublist_around hhandles
    have hfirst : ∀ s ∈ us, s ≠ r ∧ s ∉ vs := by
      have hnd := (List.nodup_append.mp (List.nodup_append.mp h.cut.nodup).1).1
      rw [List.nodup_append] at hnd
      exact fun s hs => ⟨hnd.2.2 s hs r List.mem_cons_self, fun hv =>
        hnd.2.2 s hs s (List.mem_cons_of_mem _ hv) rfl⟩
    have hpost' : ∀ s ∈ us, s ∈ w.flight → s ∈ pre.filterMap MacroTraceId.handle? := by
      intro s hs hmem
      rw [hflight, List.mem_append, List.mem_cons] at hmem
      rcases hmem with hmem | rfl | hmem
      · exact hmem
      · exact absurd rfl (hfirst s hs).1
      · exact absurd (hvs.subset hmem) (hfirst s hs).2
    rcases killMe
    · have hnext : (w.feeder.liveInstrs.cell r).next = (vs ++ zs ++ ys).head? :=
        h.cut.next_at (show us ++ r :: vs ++ zs ++ ys = us ++ r :: (vs ++ zs ++ ys) by simp)
      rw [show us ++ r :: vs = us ++ [r] ++ vs by simp] at h
      refine ⟨_, _, _, _, hexec, h.rewind ?_ rfl hwarm ?_ ?_ ?_ rfl rfl⟩
      · simp [FeederIpf.kill, ReplayBuffer.setNextFetch, ReplayBuffer.getNextFetchHandle, hnext]
      · rw [flight, show (w.feeder.kill false (.handle r)).lastWarmup = none from hwarm]
        simpa [MacroTraceId.handle?] using hus
      · intro s hs hmem
        rcases List.mem_append.mp hs with hs | hs
        · simp [flight, hpost' s hs hmem]
        · simp [flight, MacroTraceId.handle?, List.mem_singleton.mp hs]
      · simpa [MacroTraceId.rank, or_imp, forall_and] using hpre0
    · refine ⟨_, _, _, _, hexec, h.rewind ?_ rfl hwarm ?_ ?_ ?_ rfl rfl⟩
      · simp [FeederIpf.kill, ReplayBuffer.setNextFetch]
      · rw [flight, show (w.feeder.kill true (.handle r)).lastWarmup = none from hwarm]
        simpa using hus
      · intro s hs hmem
        simp [flight, hpost' s hs hmem]
      · simpa using hpre0
  · -- no live instruction is killed
    have hnone : ∀ a ∈ id :: post, a.rank ≠ 0 := by
      intro a ha
      rcases List.mem_cons.mp ha with rfl | ha
      · exact hrank
      · have := hpost a ha
        omega
    refine ⟨_, xs, zs, ys, hexec, h.shorten hsub ?_ ?_⟩
    · rw [hin, List.filterMap_append, List.filterMap_append, filterMap_handle_nil hnone]
      congr 1
      refine filterMap_handle_nil ?_
      rcases killMe
      · simpa using hrank
      · simp
    · rcases id with _ | _ | r
      · exact ⟨rfl, rfl, rfl, rfl, Or.inl rfl⟩
      · exact ⟨rfl, rfl, rfl, rfl, Or.inr (h.artificial (by simp [hin]))⟩
      · exact absurd rfl hrank

theorem Inv.release (h : Inv P sent w xs zs ys) (hin : w.inFlight = []) :
    ∃ f' w' xs', w.feeder.releaseWarmup = .ok f' ∧ f'.lastWarmup = none ∧
      (match w.feeder.lastWarmup with
        | some r => w.noteCommit r
        | none => w) = w' ∧ w'.inFlight = [] ∧ Inv P sent { w' with feeder := f' } xs' zs ys := by
  rcases hlast : w.feeder.lastWarmup with _ | r
  · refine ⟨w.feeder, w, xs, ?_, hlast, rfl, hin, h⟩
    simp [FeederIpf.releaseWarmup, hlast]
  · have hfirst : w.flight = r :: [] := by simp [flight, hlast, hin]
    obtain ⟨b', num, tag, vs, hcommit, hinv⟩ := h.commitFirst hfirst
    refine ⟨{ w.feeder with liveInstrs := b', lastWarmup := none }, w.noteCommit r, vs, ?_, rfl,
      rfl, hin, ?_⟩
    · simp [FeederIpf.releaseWarmup, hlast, hcommit, bind, Except.bind]
    · exact hinv _ rfl rfl rfl rfl (by simp [flight, noteCommit, hin]) (List.Sublist.refl _)
        (by simp) rfl rfl

theorem Inv.warmUp (h : Inv P sent w xs zs ys) (hin : w.inFlight = []) (decoded : Bool) :
    ∃ w' xs' zs' ys', w.exec P (.warmUp decoded) = .ok w' ∧ Inv P sent w' xs' zs' ys' := by
  obtain ⟨f₀, w₀, xs₀, hrelease, hlast, hw₀, hin₀, h₀⟩ := h.release hin
  obtain ⟨f', warm, us, vs, hwarmUp, hf, hbad, hout⟩ :=
    FeederIpf.warmUp_spec hrelease h₀.cut hlast decoded
  have hexec : w.exec P (.warmUp decoded) = .ok { w₀ with feeder := f' } := by
    simp only [exec, hwarmUp, bind, Except.bind]
    exact congrArg (fun v : FrontEnd Rep Regs => Except.ok { v with feeder := f' }) hw₀
  have hflight₀ : flight { w₀ with feeder := f₀ } = [] := by simp [flight, hlast, hin₀]
  have hflight : flight { w₀ with feeder := f' } = f'.lastWarmup.toList := by simp [flight, hin₀]
  have hothers : ∀ s ∈ xs₀, (f'.liveInstrs.list.entry s).implicitCommit = true := by
    intro s hs
    have himp := h₀.others s hs (by simp [hflight₀])
    rw [← hf.entry s (by simp [hs])] at himp
    exact himp
  -- whatever the cells of `us` are counted to, only they are new in front of the cursor
  have hbuild : ∀ ps qs, ps ++ qs = xs₀ ++ zs ++ us → (qs ≠ [] → f'.simComplete = true) →
      f'.lastWarmup.toList.Sublist ps →
      (∀ s ∈ ps, s ∉ f'.lastWarmup.toList → (f'.liveInstrs.list.entry s).implicitCommit = true) →
      Inv P sent { w₀ with feeder := f' } ps qs vs := by
    intro ps qs hpq hpassed hsub himp
    exact
      { cut := by
          rw [hpq]
          exact hf.cut
        passed := hpassed
        handles := by rwa [hflight]
        others := by rwa [hflight]
        order := by simp [hin₀]
        wrongPath := by simp [hin₀]
        artificial := by simp [hin₀]
        warm := fun _ _ => hin₀
        sent := by
          rw [← h₀.sent, hpq]
          exact congrArg (w₀.committed ++ ·) hf.pending
        explicit := h₀.explicit }
  rcases hl : f'.lastWarmup with _ | r
  · rw [hl] at hout hbuild
    by_cases hsim : f'.simComplete = true
    · exact ⟨_, _, _, _, hexec, hbuild xs₀ (zs ++ us) (by simp) (fun _ => hsim) (by simp)
        fun s hs _ => hothers s hs⟩
    · obtain ⟨hsame, himp⟩ := hout.resolve_left hsim
      have hz := h₀.zs_nil (hsame ▸ eq_false_of_ne_true hsim)
      subst hz
      refine ⟨_, _, _, _, hexec, hbuild (xs₀ ++ us) [] (by simp) (by simp) (by simp) ?_⟩
      intro s hs _
      exact (List.mem_append.mp hs).elim (hothers s) (himp s)
  · rw [hl] at hout hbuild
    obtain ⟨hsim, -, as, rfl, himp⟩ := hout
    have hz := h₀.zs_nil hsim
    subst hz
    refine ⟨_, _, _, _, hexec, hbuild (xs₀ ++ (as ++ [r])) [] (by simp) (by simp) (by simp) ?_⟩
    intro s hs hnot
    simp only [List.mem_append, List.mem_singleton, Option.toList_some] at hs hnot
    rcases hs with hs | hs | hs
    · exact hothers s hs
    · exact himp s hs
    · exact absurd hs hnot

theorem Inv.simComplete (h : Inv P sent w xs zs ys) :
    ∃ w', w.exec P .simComplete = .ok w' ∧ Inv P sent w' xs zs ys :=
  ⟨_, rfl, ⟨h.cut, fun _ => rfl, h.handles, h.others, h.order, fun _ => Or.inr rfl, fun _ => rfl,
    h.warm, h.sent, h.explicit⟩⟩

/-- Every call that the model makes comes back, and keeps the invariant. -/
theorem Inv.exec (h : Inv P sent w xs zs ys) {op : FrontEndOp} (hop : w.Allowed op) :
    ∃ w' xs' zs' ys', w.exec P op = .ok w' ∧ Inv P sent w' xs' zs' ys' := by
  rcases op with pc | _ | i | ⟨i, killMe⟩ | decoded | _
  · exact h.fetch hop pc
  · obtain ⟨w', xs', hexec, hinv⟩ := h.commit hop
    exact ⟨w', xs', zs, ys, hexec, hinv⟩
  · obtain ⟨w', hexec, hinv⟩ := h.bypass hop
    exact ⟨w', xs, zs, ys, hexec, hinv⟩
  · exact h.kill i killMe
  · exact h.warmUp hop decoded
  · obtain ⟨w', hexec, hinv⟩ := h.simComplete
    exact ⟨w', xs, zs, ys, hexec, hinv⟩

/-! ### Runs -/

/-- Nothing has been asked of SoftSDV, which is to send `sent`. -/
def Start (sent : List IpfInstr) (w : FrontEnd Rep Regs) : Prop :=
  ∃ cell regCell, w = ⟨⟨.empty cell regCell, sent, false, false, none⟩, [], [], []⟩

/-- One call of the model. -/
def Step (P : FeederParams) (w w' : FrontEnd Rep Regs) : Prop :=
  ∃ op, w.Allowed op ∧ w.exec P op = .ok w'

theorem Inv.start (h : Start sent w) : Inv P sent w [] [] [] := by
  obtain ⟨cell, regCell, rfl⟩ := h
  exact
    { cut := ⟨⟨[], trivial, rfl, rfl, rfl, List.nodup_nil, by simp, by simp [ReplayBuffer.list,
        ReplayBuffer.empty]⟩, rfl, by simp⟩
      passed := by simp
      handles := by simp [flight]
      others := by simp
      order := List.Pairwise.nil
      wrongPath := by simp
      artificial := by simp
      warm := by simp
      sent := by simp [FeederIpf.pending]
      explicit := rfl }

theorem Inv.reaches (h : Reaches (Start sent) (Step P) w) : ∃ xs zs ys, Inv P sent w xs zs ys := by
  refine h.invariant (P := fun w => ∃ xs zs ys, Inv P sent w xs zs ys)
    (fun w hw => ⟨[], [], [], .start hw⟩) ?_
  rintro w w' ⟨xs, zs, ys, hinv⟩ ⟨op, hop, hexec⟩
  obtain ⟨w'', xs', zs', ys', hexec', hinv'⟩ := hinv.exec hop
  rw [hexec] at hexec'
  obtain rfl : w' = w'' := by simpa using hexec'
  exact ⟨xs', zs', ys', hinv'⟩

/-- What a sublist of the cells leaves out of what has to be committed. -/
theorem mustCommit_sublist {entry : Ref → Entry IpfInstr} {hs xs : List Ref} (hsub : hs.Sublist xs)
    (hnd : xs.Nodup) (hok : ∀ r ∈ xs, EntryOk P (entry r))
    (himp : ∀ r ∈ xs, r ∉ hs → (entry r).implicitCommit = true) :
    mustCommit P (realsOf entry xs) = mustCommit P (realsOf entry hs) := by
  induction hsub with
  | slnil => rfl
  | @cons hs xs r hsub ih =>
      obtain ⟨hr, hnd⟩ := List.nodup_cons.mp hnd
      have hnot : r ∉ hs := fun hmem => hr (hsub.subset hmem)
      have hnone : mustCommit P (realsOf entry [r]) = [] :=
        mustCommit_implicit (by simpa using hok r List.mem_cons_self)
          (by simpa using himp r List.mem_cons_self hnot)
      rw [← List.singleton_append, realsOf_append, mustCommit_append, hnone, List.nil_append]
      exact ih hnd (fun s hs => hok s (List.mem_cons_of_mem _ hs))
        fun s hs => himp s (List.mem_cons_of_mem _ hs)
  | @cons_cons hs xs r hsub ih =>
      obtain ⟨hr, hnd⟩ := List.nodup_cons.mp hnd
      have hrest := ih hnd (fun s hs => hok s (List.mem_cons_of_mem _ hs)) fun s hs hnot =>
        himp s (List.mem_cons_of_mem _ hs) (by
          rw [List.mem_cons, not_or]
          exact ⟨fun h => hr (h ▸ hs), hnot⟩)
      have hsplit : ∀ l, realsOf entry (r :: l) = realsOf entry [r] ++ realsOf entry l := fun l =>
        realsOf_append entry [r] l
      rw [hsplit xs, hsplit hs, mustCommit_append, mustCommit_append, hrest]

theorem realsOf_sublist {entry : Ref → Entry IpfInstr} {hs xs : List Ref} (h : hs.Sublist xs) :
    (realsOf entry hs).Sublist (realsOf entry xs) :=
  (h.filter _).map _

/-- Three instructions, of which the second is a NOP and the third begins a sequence. -/
def shortSent : List IpfInstr :=
  [⟨0x100, 0x100, (0, 0), false, false, false, none⟩,
    ⟨0x101, 0x101, (0, 1), false, false, false, none⟩,
    ⟨0x200, 0x200, (0, 0), true, false, false, none⟩]

/-- Some are fetched at a time, and a one in the bundle is for a NOP. -/
def shortParams : FeederParams := ⟨2, 2, fun i => i.bundle64.2 == 1⟩

/-- A feeder with memory that was zero. -/
def shortStart : FrontEnd Unit Unit :=
  ⟨⟨.empty (fun _ => ⟨⟨⟨0, none, ⟨0, 0, (0, 0), false, false, false, none⟩⟩, 0, false, false⟩, none,
      none, none, none⟩) fun _ => ⟨0, ()⟩, shortSent, false, false, none⟩, [], [], []⟩

/--
**What commits is what SoftSDV sent.**

However the model predicts, kills, drops and warms up, none of its calls fails.  What has left
the buffer is the beginning of what SoftSDV sent, each instruction once and in its order, with
the other halves of the long ones.  What the model committed itself is all of that but NOPs and
first halves.
-/
theorem committed_stream (h : Reaches (Start sent) (Step P) w) :
    w.committed <+: sent.flatMap IpfInstr.expand ∧
    mustCommit P w.explicit = mustCommit P w.committed ∧
    ∀ op, w.Allowed op → ∃ w', w.exec P op = .ok w' := by
  obtain ⟨xs, zs, ys, hinv⟩ := Inv.reaches h
  refine ⟨⟨_, hinv.sent⟩, hinv.explicit, ?_⟩
  intro op hop
  obtain ⟨w', -, -, -, hexec, -⟩ := hinv.exec hop
  exact ⟨w', hexec⟩

/-- The first is fetched, then a wrong path, which is killed; then the second, and both commit. -/
theorem committed_stream_short : ∃ w : FrontEnd Unit Unit, w.committed.length = 2 ∧
    w.committed <+: shortSent.flatMap IpfInstr.expand := by
  have h₀ : Reaches (Start shortSent) (Step shortParams) shortStart := .start ⟨_, _, rfl⟩
  have h₁ := h₀.step ⟨.fetch 0x100, rfl, rfl⟩
  have h₂ := h₁.step ⟨.fetch 0x300, rfl, rfl⟩
  have h₃ := h₂.step ⟨.kill 0 false, trivial, rfl⟩
  have h₄ := h₃.step ⟨.fetch 0x101, rfl, rfl⟩
  have h₅ := h₄.step ⟨.commit, nofun, rfl⟩
  have h₆ := h₅.step ⟨.commit, nofun, rfl⟩
  exact ⟨_, rfl, (committed_stream h₆).1⟩

/--
**What is in flight is what is next.**

Of what SoftSDV sent, the instructions in flight come right behind what has left the buffer, in
their order, and only what the model need not commit is missing among them.  No live
instruction is behind one of a wrong path.
-/
theorem inFlight_stream (h : Reaches (Start sent) (Step P) w) :
    (∃ front rest, w.committed ++ front ++ rest = sent.flatMap IpfInstr.expand ∧
      (instrsOf w.feeder.liveInstrs w.flight).Sublist front ∧
      mustCommit P (instrsOf w.feeder.liveInstrs w.flight) = mustCommit P front) ∧
    ∀ (i j : Nat) (r : Ref), w.inFlight[i]? = some .wrongPath →
      w.inFlight[j]? = some (.handle r) → j < i := by
  obtain ⟨xs, zs, ys, hinv⟩ := Inv.reaches h
  have hnd := (List.nodup_append.mp (List.nodup_append.mp hinv.cut.nodup).1).1
  have hok : ∀ r ∈ xs, EntryOk P (w.feeder.liveInstrs.list.entry r) := fun r hr =>
    hinv.cut.ok r (by simp [hr])
  refine ⟨⟨realsOf w.feeder.liveInstrs.list.entry xs, w.feeder.pending (zs ++ ys), ?_,
    realsOf_sublist hinv.handles,
    (mustCommit_sublist hinv.handles hnd hok hinv.others).symm⟩, ?_⟩
  · rw [← hinv.sent]
    simp only [FeederIpf.pending, realsOf_append, List.append_assoc]
  · intro i j r hi hj
    by_contra hle
    obtain ⟨hilt, hi⟩ := List.getElem?_eq_some_iff.mp hi
    obtain ⟨hjlt, hj⟩ := List.getElem?_eq_some_iff.mp hj
    rcases Nat.lt_or_eq_of_le (Nat.le_of_not_lt hle) with hlt | rfl
    · have hrank := List.pairwise_iff_getElem.mp hinv.order i j hilt hjlt hlt
      simp [hi, hj, MacroTraceId.rank] at hrank
    · rw [hi] at hj
      cases hj

/-- Two are fetched, and then one of a wrong path. -/
theorem inFlight_stream_short : ∃ w : FrontEnd Unit Unit, w.inFlight.length = 3 ∧
    ∀ (i j : Nat) (r : Ref), w.inFlight[i]? = some .wrongPath →
      w.inFlight[j]? = some (.handle r) → j < i := by
  have h₀ : Reaches (Start shortSent) (Step shortParams) shortStart := .start ⟨_, _, rfl⟩
  have h₁ := h₀.step ⟨.fetch 0x100, rfl, rfl⟩
  have h₂ := h₁.step ⟨.fetch 0x101, rfl, rfl⟩
  have h₃ := h₂.step ⟨.fetch 0x102, rfl, rfl⟩
  exact ⟨_, rfl, (inFlight_stream h₃).2⟩

end FrontEnd

end AsimFeeder.SoftSDV
