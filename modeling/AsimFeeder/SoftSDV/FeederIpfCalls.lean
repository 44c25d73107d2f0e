/-
What the calls of the performance model do to the SoftSDV feeder.

The cursor splits the buffer: in front of it stands what the model has fetched, and what it
need not commit; from it on stands what has yet to be fetched.  Every call moves cells over
that border, or takes them off the front, or adds them at the end, and none changes their
order.  There is one lemma for each call of the buffer, and from these one for each of the
feeder.
-/
import Mathlib
import AsimFeeder.SoftSDV.FeederIpf

namespace AsimFeeder.SoftSDV

variable {Rep Regs : Type}

/-- The instructions that a message stands for. -/
def IpfInstr.expand (i : IpfInstr) : List IpfInstr :=
  if i.isX then [i, i.secondHalf] else [i]

/-! ### The buffer, split at the cursor -/

/-- Place holders commit with what is behind them, and of instructions only NOPs and first halves
may. -/
structure EntryOk (P : FeederParams) (e : Entry IpfInstr) : Prop where
  artificial : e.artificialInstr = true → e.implicitCommit = true
  implicit : e.artificialInstr = false → e.implicitCommit = true →
    P.isNopOrTypeL e.softsdvInstr.data = true

/-- The live cells are `xs`, in front of the cursor, and `ys`. -/
structure Cut (P : FeederParams) (b : ReplayBuffer IpfInstr Rep Regs) (xs ys : List Ref) :
    Prop where
  wf : ∃ free, b.list.WF (xs ++ ys) free
  cursor : b.nextFetch = ys.head?
  ok : ∀ r ∈ xs ++ ys, EntryOk P (b.list.entry r)

/-- What stands in the cells, without place holders. -/
def realsOf (entry : Ref → Entry IpfInstr) (rs : List Ref) : List IpfInstr :=
  (rs.filter fun r => !(entry r).artificialInstr).map fun r => (entry r).softsdvInstr.data

theorem instrsOf_eq (b : ReplayBuffer IpfInstr Rep Regs) (rs : List Ref) :
    FrontEnd.instrsOf b rs = realsOf b.list.entry rs := rfl

@[simp] theorem realsOf_nil (entry : Ref → Entry IpfInstr) : realsOf entry [] = [] := rfl

@[simp] theorem realsOf_append (entry : Ref → Entry IpfInstr) (xs ys : List Ref) :
    realsOf entry (xs ++ ys) = realsOf entry xs ++ realsOf entry ys := by
  simp [realsOf]

theorem realsOf_cons (entry : Ref → Entry IpfInstr) (r : Ref) (rs : List Ref) :
    realsOf entry (r :: rs) =
      (if (entry r).artificialInstr then [] else [(entry r).softsdvInstr.data]) ++
        realsOf entry rs := by
  by_cases h : (entry r).artificialInstr <;> simp [realsOf, h]

theorem realsOf_congr {e e' : Ref → Entry IpfInstr} {rs : List Ref}
    (h : ∀ r ∈ rs, (e' r).artificialInstr = (e r).artificialInstr ∧
      (e' r).softsdvInstr.data = (e r).softsdvInstr.data) : realsOf e' rs = realsOf e rs := by
  induction rs with
  | nil => rfl
  | cons r rs ih =>
      obtain ⟨ha, hd⟩ := h r List.mem_cons_self
      simp [realsOf_cons, ha, hd, ih fun s hs => h s (List.mem_cons_of_mem _ hs)]

theorem realsOf_same {e e' : Ref → Entry IpfInstr} {rs : List Ref} (h : ∀ r ∈ rs, e' r = e r) :
    realsOf e' rs = realsOf e rs :=
  realsOf_congr fun r hr => by simp [h r hr]

namespace Cut

variable {P : FeederParams} {b : ReplayBuffer IpfInstr Rep Regs} {xs ys zs : List Ref}

/-- The cursor may be put anywhere. -/
theorem setCursor (h : Cut P b xs ys) {us vs : List Ref} (hcut : xs ++ ys = us ++ vs) :
    Cut P { b with nextFetch := vs.head? } us vs := by
  obtain ⟨free, hwf⟩ := h.wf
  rw [hcut] at hwf
  refine ⟨⟨free, ReplayBuffer.wf_nextFetch hwf ?_⟩, rfl, ?_⟩
  · intro s hs
    exact List.mem_append_right _ (List.mem_of_mem_head? hs)
  · intro r hr
    exact h.ok r (hcut ▸ hr)

theorem next_at (h : Cut P b xs ys) {r : Ref} {us vs : List Ref} (hr : xs ++ ys = us ++ r :: vs) :
    (b.cell r).next = vs.head? := by
  obtain ⟨free, hwf⟩ := h.wf
  rw [hr] at hwf
  exact hwf.next_at

theorem nodup (h : Cut P b xs ys) : (xs ++ ys).Nodup := by
  obtain ⟨free, hwf⟩ := h.wf
  exact (List.nodup_append.mp hwf.nodup).1

theorem addInstruction (h : Cut P b xs ys) (i : IpfInstr) :
    ∃ b' r, b.addInstruction i.toSdv = .ok (b', r) ∧ Cut P b' xs (ys ++ [r]) ∧
      (∀ s ∈ xs ++ ys, b'.list.entry s = b.list.entry s) ∧
      realsOf b'.list.entry (xs ++ (ys ++ [r])) = realsOf b.list.entry (xs ++ ys) ++ [i] := by
  obtain ⟨free, hwf⟩ := h.wf
  rcases ReplayBuffer.addInstruction_spec hwf i.toSdv with ⟨b', r, free', hadd, hwf', hadded⟩ | herr
  · refine ⟨b', r, hadd, ⟨⟨free', by simpa using hwf'⟩, ?_, ?_⟩, hadded.entry, ?_⟩
    · have hcur : b'.nextFetch = b.nextFetch.or (some r) := hadded.nextFetch
      rw [hcur, h.cursor]
      rcases ys with _ | ⟨a, ys⟩ <;> simp
    · intro s hs
      rw [← List.append_assoc, List.mem_append, List.mem_singleton] at hs
      rcases hs with hs | rfl
      · rw [hadded.entry s hs]
        exact h.ok s hs
      · rw [hadded.new]
        exact ⟨by simp, by simp⟩
    · rw [← List.append_assoc, realsOf_append, realsOf_cons, hadded.new,
        realsOf_same hadded.entry]
      simp [IpfInstr.toSdv]
  · -- no register values are asked for
    simp [ReplayBuffer.addInstruction, ReplayBuffer.attachRegisterValues, IpfInstr.toSdv, bind,
      Except.bind] at herr

/-- Artificial cells at the cursor are passed, and then one cell. -/
theorem getNextRealFetchHandle (h : Cut P b xs ys) :
    (b.getNextRealFetchHandle = .ok (b, none) ∧ ∀ r ∈ ys, (b.list.entry r).artificialInstr = true) ∨
    ∃ as r vs, ys = as ++ r :: vs ∧
      b.getNextRealFetchHandle = .ok ({ b with nextFetch := vs.head? }, some r) ∧
      (∀ s ∈ as, (b.list.entry s).artificialInstr = true) ∧
      (b.list.entry r).artificialInstr = false := by
  have hskip : ∀ (vs us : List Ref) (fuel : Nat), xs ++ ys = us ++ vs → vs.length < fuel →
      (b.skipArtificial fuel vs.head? = .ok none ∧
        ∀ r ∈ vs, (b.list.entry r).artificialInstr = true) ∨
      ∃ as r ws, vs = as ++ r :: ws ∧ b.skipArtificial fuel vs.head? = .ok (some r) ∧
        (∀ s ∈ as, (b.list.entry s).artificialInstr = true) ∧
        (b.list.entry r).artificialInstr = false := by
    intro vs
    induction vs with
    | nil =>
        intro us fuel _ hfuel
        obtain ⟨fuel, rfl⟩ := Nat.exists_eq_succ_of_ne_zero (Nat.ne_of_gt hfuel)
        exact Or.inl ⟨rfl, by simp⟩
    | cons a vs ih =>
        intro us fuel hcut hfuel
        obtain ⟨fuel, rfl⟩ := Nat.exists_eq_succ_of_ne_zero (Nat.ne_zero_of_lt hfuel)
        have hnext := h.next_at hcut
        by_cases ha : (b.cell a).artificialInstr = true
        · have hskip : b.skipArtificial (fuel + 1) (a :: vs).head? =
              b.skipArtificial fuel vs.head? := by
            simp [ReplayBuffer.skipArtificial, ha, hnext]
          rw [hskip]
          rcases ih (us ++ [a]) fuel (by simpa using hcut) (Nat.lt_of_succ_lt_succ hfuel) with
            ⟨hnone, hall⟩ | ⟨as, r, ws, rfl, hr, has, hreal⟩
          · exact Or.inl ⟨hnone, List.forall_mem_cons.mpr ⟨ha, hall⟩⟩
          · exact Or.inr ⟨a :: as, r, ws, rfl, hr, List.forall_mem_cons.mpr ⟨ha, has⟩, hreal⟩
        · refine Or.inr ⟨[], a, vs, rfl, ?_, by simp, eq_false_of_ne_true ha⟩
          simp [ReplayBuffer.skipArtificial, ha]
  obtain ⟨free, hwf⟩ := h.wf
  have hlen := ReplayBuffer.length_le_nCells hwf
  rw [List.length_append] at hlen
  unfold ReplayBuffer.getNextRealFetchHandle
  rw [h.cursor]
  rcases hskip ys xs (b.nCells + 1) rfl (by omega) with
    ⟨hnone, hall⟩ | ⟨as, r, vs, rfl, hr, has, hreal⟩
  · exact Or.inl ⟨by rw [hnone]; rfl, hall⟩
  · refine Or.inr ⟨as, r, vs, rfl, ?_, has, hreal⟩
    rw [hr]
    have hcut : xs ++ (as ++ r :: vs) = (xs ++ as) ++ r :: vs := by simp
    have hnext := h.next_at hcut
    simp [bind, Except.bind, hnext]

/-- A place holder goes in front of a cell at the cursor, which is the next one fetched. -/
theorem addArtificialPlaceHolder {as vs : List Ref} {r : Ref} (h : Cut P b xs ys)
    (hcut : xs ++ ys = as ++ r :: vs) :
    ∃ b' j, b.addArtificialPlaceHolder r = (b', j) ∧
      Cut P { b' with nextFetch := some r } (as ++ [j]) (r :: vs) ∧
      (∀ s ∈ xs ++ ys, b'.list.entry s = b.list.entry s) ∧
      (b'.list.entry j).artificialInstr = true ∧
      realsOf b'.list.entry (as ++ j :: r :: vs) = realsOf b.list.entry (xs ++ ys) := by
  obtain ⟨free, hwf⟩ := h.wf
  have hok := h.ok
  rw [hcut] at hwf hok ⊢
  obtain ⟨b', j, free', hadd, hwf', hadded⟩ := ReplayBuffer.addArtificialPlaceHolder_spec hwf
  refine ⟨b', j, hadd, ⟨⟨free', ?_⟩, rfl, ?_⟩, hadded.entry, by simp [hadded.new], ?_⟩
  · refine ReplayBuffer.wf_nextFetch (by simpa using hwf') ?_
    simp
  · intro s hs
    show EntryOk P (b'.list.entry s)
    by_cases hsj : s = j
    · rw [hsj, hadded.new]
      exact ⟨by simp, by simp⟩
    · have hmem : s ∈ as ++ r :: vs := by
        simpa [hsj] using hs
      rw [hadded.entry s hmem]
      exact hok s hmem
  · have hsame : ∀ rs, (∀ s ∈ rs, s ∈ as ++ r :: vs) →
        realsOf b'.list.entry rs = realsOf b.list.entry rs := fun rs hrs =>
      realsOf_same fun s hs => hadded.entry s (hrs s hs)
    rw [realsOf_append, realsOf_cons, hadded.new, hsame as fun s hs => List.mem_append_left _ hs,
      hsame (r :: vs) fun s hs => List.mem_append_right _ hs]
    simp

theorem setImplicitCommit (h : Cut P b xs ys) {r : Ref}
    (hr : P.isNopOrTypeL (b.cell r).softsdvInstr.data = true) :
    Cut P (b.setImplicitCommit r true) xs ys := by
  obtain ⟨free, hwf⟩ := h.wf
  refine ⟨⟨free, ReplayBuffer.setImplicitCommit_spec hwf true⟩, h.cursor, ?_⟩
  intro s hs
  rw [ReplayBuffer.list_setImplicitCommit]
  by_cases hsr : s = r
  · subst hsr
    simp only [Function.update_self]
    exact ⟨by simp, fun _ _ => hr⟩
  · simp only [Function.update_of_ne hsr]
    exact h.ok s hs

/-- What is in front of an instruction commits with it. -/
theorem commitInstruction {us vs : List Ref} {r : Ref} (h : Cut P b (us ++ r :: vs) ys)
    (himp : ∀ s ∈ us, (b.list.entry s).implicitCommit = true) :
    ∃ b' num tag, b.commitInstruction r = .ok (b', num, tag) ∧ Cut P b' vs ys ∧
      b'.list.entry = b.list.entry := by
  obtain ⟨free, hwf⟩ := h.wf
  rw [List.append_assoc, List.cons_append] at hwf
  obtain ⟨b', num, tag, hcommit, hwf', hkept⟩ := ReplayBuffer.commitInstruction_spec hwf himp
    fun s hs => List.mem_append_right _ (List.mem_of_mem_head? (h.cursor ▸ hs))
  refine ⟨b', num, tag, hcommit, ⟨⟨_, hwf'⟩, ?_, ?_⟩, hkept.entry⟩
  · exact hkept.nextFetch.trans h.cursor
  · intro s hs
    rw [hkept.entry]
    exact h.ok s (by simp at hs ⊢; tauto)

theorem cellsTo {us vs : List Ref} {r : Ref} (h : Cut P b (us ++ r :: vs) ys) :
    b.cellsTo r b.nCells b.head = us ++ [r] := by
  have hgo : ∀ (ws us' : List Ref) (fuel : Nat), us = us' ++ ws → ws.length < fuel →
      b.cellsTo r fuel (ws ++ r :: vs).head? = ws ++ [r] := by
    intro ws
    induction ws with
    | nil =>
        intro us' fuel _ hfuel
        obtain ⟨fuel, rfl⟩ := Nat.exists_eq_succ_of_ne_zero (Nat.ne_of_gt hfuel)
        simp [ReplayBuffer.cellsTo]
    | cons a ws ih =>
        intro us' fuel hus hfuel
        obtain ⟨fuel, rfl⟩ := Nat.exists_eq_succ_of_ne_zero (Nat.ne_zero_of_lt hfuel)
        have hcut : us ++ r :: vs ++ ys = us' ++ a :: (ws ++ r :: vs ++ ys) := by simp [hus]
        have hnext := h.next_at hcut
        have hhead : (ws ++ r :: vs ++ ys).head? = (ws ++ r :: vs).head? := by
          rcases ws with _ | ⟨c, ws⟩ <;> rfl
        have hne : a ≠ r := by
          have hnd := h.nodup
          rw [hus] at hnd
          rintro rfl
          simp [List.nodup_append] at hnd
        have hstep : b.cellsTo r (fuel + 1) (some a) = a :: b.cellsTo r fuel (b.cell a).next := by
          simp [ReplayBuffer.cellsTo, hne]
        have hrest := ih (us' ++ [a]) fuel (by simp [hus]) (Nat.lt_of_succ_lt_succ hfuel)
        rw [← hhead, ← hnext] at hrest
        exact hstep.trans (by rw [hrest]; rfl)
  obtain ⟨free, hwf⟩ := h.wf
  have hhead : b.head = (us ++ r :: vs).head? := by
    refine Eq.trans hwf.head ?_
    rcases us with _ | ⟨c, us⟩ <;> rfl
  have hlen := ReplayBuffer.length_le_nCells hwf
  simp only [List.length_append, List.length_cons] at hlen
  rw [hhead]
  exact hgo us [] b.nCells rfl (by omega)

end Cut

/-! ### The calls of the model -/

namespace FeederIpf

variable {P : FeederParams} {f f' : FeederIpf Rep Regs} {xs ys ys' : List Ref}

/-- What has yet to leave the buffer, of its cells and of what SoftSDV has yet to send. -/
def pending (f : FeederIpf Rep Regs) (live : List Ref) : List IpfInstr :=
  realsOf f.liveInstrs.list.entry live ++ f.instrRing.flatMap IpfInstr.expand

/-- Cells were added at the end. -/
structure Grown (P : FeederParams) (f f' : FeederIpf Rep Regs) (xs ys ys' : List Ref) : Prop where
  cut : Cut P f'.liveInstrs xs ys'
  sub : ys ⊆ ys'
  entry : ∀ s ∈ xs ++ ys, f'.liveInstrs.list.entry s = f.liveInstrs.list.entry s
  pending : f'.pending (xs ++ ys') = f.pending (xs ++ ys)
  onBadPath : f'.onBadPath = f.onBadPath
  simComplete : f'.simComplete = f.simComplete
  lastWarmup : f'.lastWarmup = f.lastWarmup

theorem Grown.refl (h : Cut P f.liveInstrs xs ys) : Grown P f f xs ys ys :=
  ⟨h, fun _ hs => hs, fun _ _ => rfl, rfl, rfl, rfl, rfl⟩

theorem Grown.trans {f₁ f₂ f₃ : FeederIpf Rep Regs} {ys₁ ys₂ ys₃ : List Ref}
    (h : Grown P f₁ f₂ xs ys₁ ys₂) (h' : Grown P f₂ f₃ xs ys₂ ys₃) : Grown P f₁ f₃ xs ys₁ ys₃ where
  cut := h'.cut
  sub := List.Subset.trans h.sub h'.sub
  entry := by
    intro s hs
    have hs' : s ∈ xs ++ ys₂ := by
      rw [List.mem_append] at hs ⊢
      exact hs.imp_right fun hy => h.sub hy
    rw [h'.entry s hs', h.entry s hs]
  pending := h'.pending.trans h.pending
  onBadPath := h'.onBadPath.trans h.onBadPath
  simComplete := h'.simComplete.trans h.simComplete
  lastWarmup := h'.lastWarmup.trans h.lastWarmup

theorem bufferIncomingInstruction_spec (h : Cut P f.liveInstrs xs ys) {i : IpfInstr}
    {rest : List IpfInstr} (hring : f.instrRing = i :: rest) :
    ∃ f' ys', { f with instrRing := rest }.bufferIncomingInstruction i = .ok f' ∧
      f'.instrRing = rest ∧ Grown P f f' xs ys ys' := by
  obtain ⟨b, r, hadd, hcut, hentry, hreals⟩ := h.addInstruction i
  unfold bufferIncomingInstruction noteNewIncomingInstr
  by_cases hx : i.isX = true
  · obtain ⟨b', r', hadd', hcut', hentry', hreals'⟩ := hcut.addInstruction i.secondHalf
    refine ⟨{ f with instrRing := rest, liveInstrs := b' }, ys ++ [r] ++ [r'], ?_, rfl, ?_⟩
    · simp [hadd, hx, hadd', bind, Except.bind]
    · refine ⟨hcut', fun s hs => by simp [hs], ?_, ?_, rfl, rfl, rfl⟩
      · intro s hs
        have hs' : s ∈ xs ++ (ys ++ [r]) := by
          rw [← List.append_assoc]
          exact List.mem_append_left _ hs
        rw [hentry' s hs', hentry s hs]
      · simp only [pending, hreals', hreals, hring]
        simp [IpfInstr.expand, hx]
  · refine ⟨{ f with instrRing := rest, liveInstrs := b }, ys ++ [r], ?_, rfl, ?_⟩
    · simp [hadd, hx, bind, Except.bind]
    · refine ⟨hcut, fun s hs => by simp [hs], hentry, ?_, rfl, rfl, rfl⟩
      simp only [pending, hreals, hring]
      simp [IpfInstr.expand, hx]

theorem incomingLoop_spec (n : Nat) : ∀ (f : FeederIpf Rep Regs) (ys : List Ref),
    Cut P f.liveInstrs xs ys → ∃ f' ys', incomingLoop n f = .ok f' ∧ Grown P f f' xs ys ys' := by
  induction n with
  | zero => intro f ys h; exact ⟨f, ys, rfl, .refl h⟩
  | succ n ih =>
      intro f ys h
      rcases hring : f.instrRing with _ | ⟨i, rest⟩
      · exact ⟨f, ys, by simp [incomingLoop, hring], .refl h⟩
      · obtain ⟨f₁, ys₁, hbuf, -, hgrown⟩ := bufferIncomingInstruction_spec h hring
        obtain ⟨f', ys', hloop, hgrown'⟩ := ih f₁ ys₁ hgrown.cut
        refine ⟨f', ys', ?_, hgrown.trans hgrown'⟩
        simp [incomingLoop, hring, hbuf, hloop, bind, Except.bind]

theorem fetchIncomingInstructions_spec (h : Cut P f.liveInstrs xs ys) (n : Nat) :
    ∃ f' ys', f.fetchIncomingInstructions n = .ok f' ∧ Grown P f f' xs ys ys' := by
  unfold fetchIncomingInstructions
  by_cases hfull : f.liveInstrs.nUnfetchedQueuedInstrs.toNat > n / 2
  · exact ⟨f, ys, by simp [hfull], .refl h⟩
  · simpa [hfull] using incomingLoop_spec n f ys h

/-- The cursor moved over `us`, and nothing else was lost or changed. -/
structure Fetched (P : FeederParams) (f f' : FeederIpf Rep Regs) (xs ys us vs : List Ref) :
    Prop where
  cut : Cut P f'.liveInstrs (xs ++ us) vs
  entry : ∀ s ∈ xs, f'.liveInstrs.list.entry s = f.liveInstrs.list.entry s
  pending : f'.pending (xs ++ us ++ vs) = f.pending (xs ++ ys)
  lastWarmup : f'.lastWarmup = f.lastWarmup

theorem Fetched.of_grown {f₁ : FeederIpf Rep Regs} {us vs : List Ref} (hg : Grown P f f₁ xs ys ys')
    (h : Fetched P f₁ f' xs ys' us vs) : Fetched P f f' xs ys us vs where
  cut := h.cut
  entry s hs := (h.entry s hs).trans (hg.entry s (List.mem_append_left _ hs))
  pending := h.pending.trans hg.pending
  lastWarmup := h.lastWarmup.trans hg.lastWarmup

theorem Fetched.grow {f₁ : FeederIpf Rep Regs} {us vs vs' : List Ref}
    (h : Fetched P f f₁ xs ys us vs) (hg : Grown P f₁ f' (xs ++ us) vs vs') :
    Fetched P f f' xs ys us vs' where
  cut := hg.cut
  entry s hs := by rw [hg.entry s (by simp [hs]), h.entry s hs]
  pending := hg.pending.trans h.pending
  lastWarmup := hg.lastWarmup.trans h.lastWarmup

/-- Only the cursor moves. -/
theorem Fetched.of_cursor {us vs : List Ref} (h : Cut P f.liveInstrs xs ys) (hys : ys = us ++ vs)
    (hf : f'.liveInstrs = { f.liveInstrs with nextFetch := vs.head? })
    (hring : f'.instrRing = f.instrRing) (hwarm : f'.lastWarmup = f.lastWarmup) :
    Fetched P f f' xs ys us vs where
  cut := by
    rw [hf]
    exact h.setCursor (by simp [hys])
  entry s _ := by rw [hf]; rfl
  pending := by
    simp only [FeederIpf.pending, hf, hring]
    rw [hys, List.append_assoc]
    rfl
  lastWarmup := hwarm

theorem Fetched.asimInst {us vs : List Ref} {r : Ref} (hr : r ∈ us)
    (h : Fetched P f f' xs ys us vs) :
    Fetched P f (f'.asimInstFromSoftsdvInst P r) xs ys us vs ∧
      ∀ s, s ≠ r → (f'.asimInstFromSoftsdvInst P r).liveInstrs.list.entry s =
        f'.liveInstrs.list.entry s := by
  unfold asimInstFromSoftsdvInst
  by_cases hnop : P.isNopOrTypeL (f'.liveInstrs.cell r).softsdvInstr.data = true
  · rw [if_pos hnop]
    have hne : ∀ s, s ≠ r → (f'.liveInstrs.setImplicitCommit r true).list.entry s =
        f'.liveInstrs.list.entry s := by
      intro s hs
      simp [Function.update_of_ne hs]
    refine ⟨⟨h.cut.setImplicitCommit hnop, ?_, ?_, h.lastWarmup⟩, hne⟩
    · intro s hs
      have hnd := h.cut.nodup
      have hsr : s ≠ r := by
        rintro rfl
        exact (List.nodup_append.mp (List.nodup_append.mp hnd).1).2.2 s hs s hr rfl
      exact (hne s hsr).trans (h.entry s hs)
    · refine Eq.trans ?_ h.pending
      simp only [FeederIpf.pending]
      congr 1
      refine realsOf_congr fun s _ => ?_
      obtain ⟨v, hv⟩ := ReplayBuffer.setImplicitCommit_entry (b := f'.liveInstrs) r s true
      rw [hv]
      exact ⟨rfl, rfl⟩
  · rw [if_neg hnop]
    exact ⟨h, fun _ _ => rfl⟩

@[simp] theorem asimInst_onBadPath (r : Ref) :
    (f.asimInstFromSoftsdvInst P r).onBadPath = f.onBadPath := by
  unfold asimInstFromSoftsdvInst
  split <;> rfl

@[simp] theorem asimInst_simComplete (r : Ref) :
    (f.asimInstFromSoftsdvInst P r).simComplete = f.simComplete := by
  unfold asimInstFromSoftsdvInst
  split <;> rfl

/-- What `FetchMacro` says of the cells it passed, by what it gives to the model. -/
def FetchOutcome (f f' : FeederIpf Rep Regs) (pc : UInt64) (us : List Ref) : MacroTraceId → Prop
  | .artificial => f'.simComplete = true
  | .wrongPath => f.simComplete = false ∧ f'.onBadPath = true ∧ f'.simComplete = f.simComplete ∧
      ∀ s ∈ us, (f'.liveInstrs.list.entry s).implicitCommit = true
  | .handle r => f.simComplete = false ∧ f.onBadPath = false ∧ f'.onBadPath = f.onBadPath ∧
      f'.simComplete = f.simComplete ∧
      ((f'.liveInstrs.cell r).artificialInstr = false →
        (f'.liveInstrs.cell r).softsdvInstr.data.addrVirtual = pc) ∧
      ∃ as, us = as ++ [r] ∧ ∀ s ∈ as, (f'.liveInstrs.list.entry s).implicitCommit = true

theorem fetchMacro_spec (h : Cut P f.liveInstrs xs ys) (pc : UInt64) :
    ∃ f' id us vs, f.fetchMacro P pc = .ok (f', id) ∧ Fetched P f f' xs ys us vs ∧
      FetchOutcome f f' pc us id := by
  obtain ⟨f₁, ys₁, hfetch, hg⟩ := fetchIncomingInstructions_spec h P.executeChunkSize
  have hart : ∀ {s}, s ∈ ys₁ → (f₁.liveInstrs.list.entry s).artificialInstr = true →
      (f₁.liveInstrs.list.entry s).implicitCommit = true := fun hs =>
    (hg.cut.ok _ (List.mem_append_right _ hs)).artificial
  unfold fetchMacro
  rcases hg.cut.getNextRealFetchHandle with ⟨hnone, -⟩ | ⟨as, r, vs, hys, hr, has, hreal⟩
  · -- nothing is left
    refine ⟨{ f₁ with simComplete := true }, .artificial, [], ys₁, ?_, ?_, rfl⟩
    · simp [hfetch, hnone, bind, Except.bind]
    · exact .of_grown hg (.of_cursor hg.cut rfl (by simp [← hg.cut.cursor]) rfl rfl)
  have has' : ∀ s ∈ as, (f₁.liveInstrs.list.entry s).implicitCommit = true := fun s hs =>
    hart (by simp [hys, hs]) (has s hs)
  by_cases hsim : f₁.simComplete = true
  · refine ⟨{ f₁ with liveInstrs := { f₁.liveInstrs with nextFetch := vs.head? } }, .artificial,
      as ++ [r], vs, ?_, ?_, hsim⟩
    · simp [hfetch, hr, hsim, bind, Except.bind]
    · exact .of_grown hg (.of_cursor hg.cut (by simp [hys]) rfl rfl rfl)
  have hsim' : f.simComplete = false := by
    rw [← hg.simComplete]
    exact eq_false_of_ne_true hsim
  by_cases hjmp : pc ≠ (f₁.liveInstrs.cell r).softsdvInstr.data.addrVirtual ∧
      ¬ f₁.onBadPath = true ∧
      ((f₁.liveInstrs.cell r).softsdvInstr.data.newSequence = true ∨
        (f₁.liveInstrs.cell r).softsdvInstr.data.interrupt = true)
  · -- a branch to `r` is injected
    let b₂ : ReplayBuffer IpfInstr Rep Regs := { f₁.liveInstrs with nextFetch := vs.head? }
    have hcut₂ : Cut P b₂ (xs ++ (as ++ [r])) vs := hg.cut.setCursor (by simp [hys])
    have hat : xs ++ (as ++ [r]) ++ vs = (xs ++ as) ++ r :: vs := by simp
    obtain ⟨b₃, j, hadd, hcut₃, hentry₃, hj, hreals₃⟩ := hcut₂.addArtificialPlaceHolder hat
    refine ⟨{ f₁ with liveInstrs := { b₃ with nextFetch := some r } }, .handle j, as ++ [j],
      r :: vs, ?_, .of_grown hg ⟨?_, ?_, ?_, rfl⟩, hsim', ?_, hg.onBadPath, hg.simComplete, ?_,
        as, rfl, ?_⟩
    · simp only [hfetch, hr, bind, Except.bind, injectJMP, ReplayBuffer.setNextFetch]
      rw [if_neg hsim, if_pos hjmp]
      rw [show ReplayBuffer.addArtificialPlaceHolder _ r = (b₃, j) from hadd]
    · simpa using hcut₃
    · intro s hs
      exact hentry₃ s (by simp [hs])
    · have hreals : realsOf b₃.list.entry (xs ++ (as ++ [j]) ++ r :: vs) =
          realsOf f₁.liveInstrs.list.entry (xs ++ ys₁) := by
        have hb₂ : b₂.list.entry = f₁.liveInstrs.list.entry := rfl
        simpa [hys, hb₂] using hreals₃
      exact congrArg (· ++ f₁.instrRing.flatMap IpfInstr.expand) hreals
    · rw [← hg.onBadPath]
      exact eq_false_of_ne_true hjmp.2.1
    · intro hj'
      exact absurd (hj.symm.trans hj') (by simp)
    · intro s hs
      show (b₃.list.entry s).implicitCommit = true
      rw [hentry₃ s (by simp [hs])]
      exact has' s hs
  by_cases hbad : pc ≠ (f₁.liveInstrs.cell r).softsdvInstr.data.addrVirtual ∨ f₁.onBadPath = true
  · -- a wrong path, and `r` is left to be fetched
    refine ⟨{ f₁ with
      liveInstrs := { f₁.liveInstrs with nextFetch := some r }, onBadPath := true }, .wrongPath,
      as, r :: vs, ?_, .of_grown hg (.of_cursor hg.cut hys rfl rfl rfl), hsim', rfl, hg.simComplete,
      has'⟩
    simp only [hfetch, hr, bind, Except.bind, injectBadPathInstr, ReplayBuffer.setNextFetch]
    rw [if_neg hsim, if_neg hjmp, if_pos hbad]
  · obtain ⟨hpc, hgood⟩ := not_or.mp hbad
    have hfetched : Fetched P f₁
        { f₁ with liveInstrs := { f₁.liveInstrs with nextFetch := vs.head? } }
        xs ys₁ (as ++ [r]) vs := .of_cursor hg.cut (by simp [hys]) rfl rfl rfl
    obtain ⟨f₃, vs', hfetch₃, hg₃⟩ := fetchIncomingInstructions_spec hfetched.cut P.executeChunkSize
    obtain ⟨hfetched', hsame⟩ := (hfetched.grow hg₃).asimInst (r := r) (by simp)
    have hentry₃ : ∀ s ∈ as ++ [r], f₃.liveInstrs.list.entry s = f₁.liveInstrs.list.entry s :=
      fun s hs => hg₃.entry s (List.mem_append_left _ (List.mem_append_right _ hs))
    have hdata : ((f₃.asimInstFromSoftsdvInst P r).liveInstrs.list.entry r).softsdvInstr =
        (f₁.liveInstrs.list.entry r).softsdvInstr := by
      rw [← hentry₃ r (by simp)]
      unfold asimInstFromSoftsdvInst
      split <;> simp
    refine ⟨f₃.asimInstFromSoftsdvInst P r, .handle r, as ++ [r], vs', ?_, .of_grown hg hfetched',
      hsim', ?_, ?_, ?_, ?_, as, rfl, ?_⟩
    · simp only [hfetch, hr, bind, Except.bind]
      rw [if_neg hsim, if_neg hjmp, if_neg hbad, hfetch₃]
    · rw [← hg.onBadPath]
      exact eq_false_of_ne_true hgood
    · rw [asimInst_onBadPath, hg₃.onBadPath, ← hg.onBadPath]
    · rw [asimInst_simComplete, hg₃.simComplete, ← hg.simComplete]
    · intro _
      exact (congrArg (·.data.addrVirtual) hdata).trans (not_not.mp hpc).symm
    · intro s hs
      have hsr : s ≠ r := by
        rintro rfl
        exact absurd (has s hs) (by simp [hreal])
      rw [hsame s hsr, hentry₃ s (by simp [hs])]
      exact has' s hs

/-- What `WarmUp` says of the cells it passed, by the instruction that it is to commit next. -/
def WarmUpOutcome (f f' : FeederIpf Rep Regs) (us : List Ref) : Option Ref → Prop
  | none => f'.simComplete = true ∨ f'.simComplete = f.simComplete ∧
      ∀ s ∈ us, (f'.liveInstrs.list.entry s).implicitCommit = true
  | some r => f.simComplete = false ∧ f'.simComplete = f.simComplete ∧
      ∃ as, us = as ++ [r] ∧ ∀ s ∈ as, (f'.liveInstrs.list.entry s).implicitCommit = true

theorem warmUp_spec {f₀ : FeederIpf Rep Regs} (hrelease : f.releaseWarmup = .ok f₀)
    (h : Cut P f₀.liveInstrs xs ys) (hwarm : f₀.lastWarmup = none) (decoded : Bool) :
    ∃ f' warm us vs, f.warmUp P decoded = .ok (f', warm) ∧
      Fetched P f₀ { f' with lastWarmup := none } xs ys us vs ∧ f'.onBadPath = f₀.onBadPath ∧
      WarmUpOutcome f₀ f' us f'.lastWarmup := by
  obtain ⟨f₁, ys₁, hfetch, hg⟩ := fetchIncomingInstructions_spec h P.warmupChunkSize
  have hwarm₁ : f₁.lastWarmup = none := hg.lastWarmup.trans hwarm
  unfold warmUp
  rcases hg.cut.getNextRealFetchHandle with ⟨hnone, -⟩ | ⟨as, r, vs, hys, hr, has, hreal⟩
  · refine ⟨{ f₁ with simComplete := true }, false, [], ys₁, ?_, ?_, hg.onBadPath, ?_⟩
    · simp [hrelease, hfetch, hnone, bind, Except.bind]
    · exact .of_grown hg (.of_cursor hg.cut rfl (by simp [← hg.cut.cursor]) rfl hwarm₁.symm)
    · simp [WarmUpOutcome, hwarm₁]
  have has' : ∀ s ∈ as, (f₁.liveInstrs.list.entry s).implicitCommit = true := fun s hs =>
    (hg.cut.ok s (by simp [hys, hs])).artificial (has s hs)
  have hcursor : ∀ {f₂ : FeederIpf Rep Regs},
      f₂.liveInstrs = { f₁.liveInstrs with nextFetch := vs.head? } → f₂.instrRing = f₁.instrRing →
      f₂.lastWarmup = none → Fetched P f₁ f₂ xs ys₁ (as ++ [r]) vs := fun hlive hring hlast =>
    .of_cursor hg.cut (by simp [hys]) hlive hring (hlast.trans hwarm₁.symm)
  by_cases hsim : f₁.simComplete = true
  · refine ⟨{ f₁ with liveInstrs := { f₁.liveInstrs with nextFetch := vs.head? } }, false,
      as ++ [r], vs, ?_, .of_grown hg (hcursor rfl rfl rfl), hg.onBadPath, ?_⟩
    · simp [hrelease, hfetch, hr, hsim, bind, Except.bind]
    · simp [WarmUpOutcome, hwarm₁, hsim]
  have hsim' : f₀.simComplete = false := by
    rw [← hg.simComplete]
    exact eq_false_of_ne_true hsim
  by_cases hw : (f₁.liveInstrs.cell r).softsdvInstr.data.warmUp = true
  · let f₂ : FeederIpf Rep Regs :=
      { f₁ with liveInstrs := { f₁.liveInstrs with nextFetch := vs.head? } }
    have hf₂ : Fetched P f₁ f₂ xs ys₁ (as ++ [r]) vs := hcursor rfl rfl hwarm₁
    obtain ⟨f₃, hf₃, hfetched, hsame, hbad, hsim₃⟩ : ∃ f₃ : FeederIpf Rep Regs,
        f₃ = (if decoded then f₂.asimInstFromSoftsdvInst P r else f₂) ∧
        Fetched P f₁ f₃ xs ys₁ (as ++ [r]) vs ∧
        (∀ s, s ≠ r → f₃.liveInstrs.list.entry s = f₁.liveInstrs.list.entry s) ∧
        f₃.onBadPath = f₁.onBadPath ∧ f₃.simComplete = f₁.simComplete := by
      refine ⟨_, rfl, ?_⟩
      by_cases hd : decoded = true
      · obtain ⟨hfetched, hsame⟩ := hf₂.asimInst (r := r) (by simp)
        rw [if_pos hd]
        exact ⟨hfetched, hsame, asimInst_onBadPath r, asimInst_simComplete r⟩
      · rw [if_neg hd]
        exact ⟨hf₂, fun _ _ => rfl, rfl, rfl⟩
    refine ⟨{ f₃ with lastWarmup := some r }, true, as ++ [r], vs, ?_, .of_grown hg ?_,
      hbad.trans hg.onBadPath, hsim', hsim₃.trans hg.simComplete, as, rfl, ?_⟩
    · simp only [hrelease, hfetch, hr, bind, Except.bind]
      rw [if_neg hsim, if_pos hw, hf₃]
    · exact ⟨hfetched.cut, hfetched.entry, hfetched.pending, hwarm₁.symm⟩
    · intro s hs
      have hsr : s ≠ r := by
        rintro rfl
        exact absurd (has s hs) (by simp [hreal])
      exact (congrArg Entry.implicitCommit (hsame s hsr)).trans (has' s hs)
  · refine ⟨{ f₁ with liveInstrs := { f₁.liveInstrs with nextFetch := some r } }, false, as,
      r :: vs, ?_, .of_grown hg (.of_cursor hg.cut hys rfl rfl hwarm₁.symm), hg.onBadPath, ?_⟩
    · simp only [hrelease, hfetch, hr, bind, Except.bind, ReplayBuffer.setNextFetch]
      rw [if_neg hsim, if_neg hw]
    · rw [show FeederIpf.lastWarmup _ = none from hwarm₁]
      exact Or.inr ⟨hg.simComplete, has'⟩

/-- Committing an instruction leaves what is behind it. -/
theorem commit_pending {us vs : List Ref} {r : Ref} {b' : ReplayBuffer IpfInstr Rep Regs}
    (hentry : b'.list.entry = f.liveInstrs.list.entry) (hf : f'.liveInstrs = b')
    (hring : f'.instrRing = f.instrRing) :
    realsOf f.liveInstrs.list.entry (us ++ [r]) ++ f'.pending vs = f.pending (us ++ r :: vs) := by
  simp only [pending, hf, hentry, hring]
  rw [← List.append_assoc, ← realsOf_append, List.append_assoc]
  rfl

end FeederIpf

end AsimFeeder.SoftSDV
