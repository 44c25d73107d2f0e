/-
A merged REP describes the memory of its iterations.

`RepRun` says which instructions the loop of `MergeREPInstrs` meets: it takes them from
the front of the queue behind the handle, to which each refill adds at the end.  For the
instructions it meets, the loop keeps `Progress` and takes their cells out of the list
and no others.  The claim follows at the end of the loop.
-/
import AsimFeeder.SoftSDV.MergeOperands
import AsimFeeder.SoftSDV.ReplayRuns

namespace AsimFeeder.SoftSDV

open AsimFeeder.Lib MemAccess

variable {Regs : Type} {p : MergeParams} {M : Operand → Nat → Nat → BitVec 64} {ops : List Operand}
  {refsOf : Operand → List MemAccess} {n k : Nat} {s : MergeState}

/-! ### The instructions the loop meets -/

/-- From the queue, with refills to come, the loop merges the first list and leaves the second. -/
inductive RepRun (addrVirtual : BitVec 64) : List (SdvInstr InstInfo) →
    List (List (SdvInstr InstInfo)) → List (SdvInstr InstInfo) → List (SdvInstr InstInfo) → Prop
  | stop {queue refills} (h : ∀ i ∈ queue.head?, ¬ continuesREP addrVirtual i.data) :
      RepRun addrVirtual queue refills [] queue
  | step {i queue refills merged rest} (h : continuesREP addrVirtual i.data)
      (run : RepRun addrVirtual (queue ++ refills.headD []) refills.tail merged rest) :
      RepRun addrVirtual (i :: queue) refills (i :: merged) rest

/-- Nothing is lost: what is merged and what is left is what was queued and what arrived. -/
theorem RepRun.stream {addrVirtual : BitVec 64} {queue rest merged : List (SdvInstr InstInfo)}
    {refills : List (List (SdvInstr InstInfo))} (h : RepRun addrVirtual queue refills merged rest) :
    merged ++ rest = queue ++ (refills.take merged.length).flatten := by
  induction h with
  | stop h => simp
  | @step i queue refills merged rest h run ih =>
      rw [List.cons_append, ih, List.cons_append, List.append_assoc, List.length_cons]
      cases refills with
      | nil => simp
      | cons r refills => rfl

theorem RepRun.length_le {addrVirtual : BitVec 64} {queue rest merged : List (SdvInstr InstInfo)}
    {refills : List (List (SdvInstr InstInfo))} (h : RepRun addrVirtual queue refills merged rest) :
    merged.length ≤ queue.length + (refills.map List.length).sum := by
  induction h with
  | stop h => exact Nat.zero_le _
  | @step i queue refills merged rest h run ih =>
      cases refills with
      | nil =>
          simp only [List.headD_nil, List.append_nil, List.tail_nil, List.map_nil] at ih
          simp only [List.length_cons, List.map_nil]
          omega
      | cons refill refills =>
          simp only [List.headD_cons, List.length_append, List.tail_cons] at ih
          simp only [List.length_cons, List.map_cons, List.sum_cons]
          omega

/-- Every queue has such a run. -/
theorem exists_repRun (addrVirtual : BitVec 64) (queue : List (SdvInstr InstInfo))
    (refills : List (List (SdvInstr InstInfo))) :
    ∃ merged rest, RepRun addrVirtual queue refills merged rest := by
  cases queue with
  | nil => exact ⟨[], [], RepRun.stop (by simp)⟩
  | cons i queue =>
      by_cases h : continuesREP addrVirtual i.data
      · obtain ⟨merged, rest, hrun⟩ :=
          exists_repRun addrVirtual (queue ++ refills.headD []) refills.tail
        exact ⟨i :: merged, rest, RepRun.step h hrun⟩
      · exact ⟨[], i :: queue, RepRun.stop (by simpa using h)⟩
termination_by queue.length + (refills.map List.length).sum
decreasing_by
  cases refills with
  | nil => simp
  | cons refill refills => simp; omega

namespace ReplayBuffer

variable {b : ReplayBuffer InstInfo RepMemRegions Regs} {live free xs ys : List Ref}

/-- The instructions of the cells `live`. -/
def instrs (b : ReplayBuffer InstInfo RepMemRegions Regs) (live : List Ref) :
    List (SdvInstr InstInfo) :=
  live.map fun r => (b.cell r).softsdvInstr

theorem instrs_congr {b' : ReplayBuffer InstInfo RepMemRegions Regs}
    (h : ∀ r ∈ live, b'.list.entry r = b.list.entry r) : b'.instrs live = b.instrs live := by
  refine List.map_congr_left ?_
  intro r hr
  exact congrArg Entry.softsdvInstr (h r hr)

/-- The instructions that a refill brings. -/
def arrivals (refill : List (Incoming Regs)) : List (SdvInstr InstInfo) :=
  refill.filterMap Incoming.instr?

/-- A refill appends its instructions and changes nothing else of the list. -/
theorem fetchIncomingInstructions_spec (refill : List (Incoming Regs)) :
    ∀ {b : ReplayBuffer InstInfo RepMemRegions Regs} {live free}, b.list.WF live free →
      (∃ b' zs free', b.fetchIncomingInstructions refill = .ok b' ∧
        b'.list.WF (live ++ zs) free' ∧ b'.instrs zs = arrivals refill ∧
        ∀ r ∈ live, b'.list.entry r = b.list.entry r) ∨
      b.fetchIncomingInstructions refill = .error registersOutOfOrder := by
  induction refill with
  | nil =>
      intro b live free h
      exact Or.inl ⟨b, [], free, rfl, by rw [List.append_nil]; exact h, rfl, fun _ _ => rfl⟩
  | cons msg rest ih =>
      intro b live free h
      cases msg with
      | regValues rv =>
          have hlist := list_pushRegisterValues b rv
          have h' : (b.pushRegisterValues rv).list.WF live free := hlist.symm ▸ h
          have hpush := ih h'
          rw [hlist] at hpush
          exact hpush
      | instr newInstr =>
          rw [fetchIncomingInstructions]
          rcases addInstruction_spec h newInstr with ⟨b₁, r, free₁, hadd, hwf₁, hadded⟩ | herr
          · rw [hadd]
            rcases ih hwf₁ with ⟨b', zs, free', hok, hwf, hinstrs, hentry⟩ | herr
            · refine Or.inl ⟨b', r :: zs, free', hok, ?_, ?_, ?_⟩
              · rw [List.append_assoc] at hwf
                exact hwf
              · have hnew := congrArg Entry.softsdvInstr ((hentry r (by simp)).trans hadded.new)
                show (b'.list.entry r).softsdvInstr :: b'.instrs zs = newInstr :: arrivals rest
                rw [hinstrs, hnew]
              · intro r' hr'
                rw [hentry r' (List.mem_append_left _ hr'), hadded.entry r' hr']
            · exact Or.inr herr
          · rw [herr]
            exact Or.inr rfl

/-! ### The loop -/

/-- The instructions the loop meets have the references that come next. -/
def NextAll (ops : List Operand) (refsOf : Operand → List MemAccess) (n : Nat)
    (merged : List (SdvInstr InstInfo)) : Prop :=
  ∀ j i, merged[j]? = some i → NextRefs ops refsOf (n + j) i.data

theorem NextAll.tail {i : SdvInstr InstInfo} {merged : List (SdvInstr InstInfo)}
    (h : NextAll ops refsOf n (i :: merged)) : NextAll ops refsOf (n + 1) merged := by
  intro j i' hi'
  have := h (j + 1) i' (by rw [List.getElem?_cons_succ]; exact hi')
  rwa [show n + (j + 1) = n + 1 + j by omega] at this

/-- One pass of the loop takes the cell behind the handle out of the list. -/
theorem mergeLoop_pass {addrVirtual : BitVec 64} {handle y : Ref} {s₁ : MergeState}
    (refills : List (List (Incoming Regs))) (h : b.list.WF (xs ++ handle :: y :: ys) free)
    (hi : continuesREP addrVirtual (b.cell y).softsdvInstr.data)
    (hmerge : mergeInstr p s (b.cell y).softsdvInstr.data = .ok s₁) :
    (∃ (b' : ReplayBuffer InstInfo RepMemRegions Regs) (zs free' : List Ref),
      (∀ fuel, b.mergeLoop p addrVirtual handle (fuel + 1) refills s =
        b'.mergeLoop p addrVirtual handle fuel refills.tail s₁) ∧
      b'.list.WF (xs ++ handle :: (ys ++ zs)) free' ∧
      b'.instrs zs = arrivals (refills.headD []) ∧
      (∀ r ∈ xs ++ ys, b'.list.entry r = b.list.entry r) ∧
      (b'.list.entry handle).softsdvInstr = (b.list.entry handle).softsdvInstr) ∨
    ∀ fuel, b.mergeLoop p addrVirtual handle (fuel + 1) refills s = .error registersOutOfOrder := by
  have hnext : (b.cell handle).next = some y := h.next_at
  have hcut : b.list.WF ((xs ++ [handle]) ++ y :: ys) free := by simpa using h
  obtain ⟨b₁, hdelete, hwf₁, hentry₁, -, -⟩ := deleteInstruction_spec hcut
  rw [List.getLast?_concat] at hentry₁
  rcases fetchIncomingInstructions_spec (refills.headD []) hwf₁ with
    ⟨b', zs, free', hfetch, hwf', hinstrs, hentry⟩ | herr
  · refine Or.inl ⟨b', zs, free', ?_, by simpa using hwf', hinstrs, ?_, ?_⟩
    · intro fuel
      rw [mergeLoop, hnext]
      simp only [if_pos hi, bind, Except.bind, hmerge, hdelete, hfetch]
    · intro r hr
      have hne : r ≠ handle := by
        intro he
        subst he
        have hnd := (List.nodup_append.mp h.nodup).1
        rw [List.nodup_middle, List.nodup_cons] at hnd
        exact hnd.1 (by simp only [List.mem_append, List.mem_cons] at hr ⊢; tauto)
      rw [hentry r (by simp only [List.mem_append, List.mem_singleton] at hr ⊢; tauto), hentry₁,
        moveUid, Function.update_of_ne hne]
    · rw [hentry handle (by simp), hentry₁, moveUid_softsdvInstr]
  · refine Or.inr ?_
    intro fuel
    rw [mergeLoop, hnext]
    simp only [if_pos hi, bind, Except.bind, hmerge, hdelete, herr]

section Loop

variable (hsize : SizeOk p.refSize) (hnodup : ops.Nodup)
  (hacc : ∀ o ∈ ops, Accepted p (refsOf o))
  (hM : ∀ o ∈ ops, ∀ i r, (refsOf o)[i]? = some r → RefOk p (M o (i / perRegion p)) r)

include hsize hnodup hacc hM

theorem mergeInstr_spec {instr : InstInfo} (h : Progress p M ops refsOf n k s)
    (hnext : NextRefs ops refsOf n instr) :
    ∃ s' k', mergeInstr p s instr = .ok s' ∧ Progress p M ops refsOf (n + 1) k' s' := by
  have hchain : ∀ o ∈ ops, (refsOf o).IsChain (Follows p) := fun o ho => (hacc o ho).contiguous
  rcases Nat.lt_or_eq_of_le h.small with hroom | hfull
  · obtain ⟨s', hok, h'⟩ := mergeInstr_join hsize hchain hM h hnext
      (fun o ho r hr hmod => (hacc o ho).noValues n r hr hmod) hroom
    exact ⟨s', k, hok, h'⟩
  · obtain ⟨s', hok, h'⟩ := mergeInstr_renew hsize hnodup hchain hM h hnext hfull
    exact ⟨s', k + 1, hok, h'⟩

theorem mergeLoop_spec {addrVirtual : BitVec 64} {handle : Ref}
    {queue merged rest : List (SdvInstr InstInfo)} {arrived : List (List (SdvInstr InstInfo))}
    (hrun : RepRun addrVirtual queue arrived merged rest) :
    ∀ {b : ReplayBuffer InstInfo RepMemRegions Regs} {xs ys free refills s n k fuel},
      b.list.WF (xs ++ handle :: ys) free → b.instrs ys = queue → refills.map arrivals = arrived →
      Progress p M ops refsOf n k s → NextAll ops refsOf n merged → merged.length < fuel →
      (∃ b' s' k' zs free', b.mergeLoop p addrVirtual handle fuel refills s = .ok (b', s') ∧
        Progress p M ops refsOf (n + merged.length) k' s' ∧
        b'.list.WF (xs ++ handle :: (ys.drop merged.length ++ zs)) free' ∧
        b'.instrs (ys.drop merged.length ++ zs) = rest ∧
        (∀ r ∈ xs ++ ys.drop merged.length, b'.list.entry r = b.list.entry r) ∧
        (b'.list.entry handle).softsdvInstr = (b.list.entry handle).softsdvInstr) ∨
      b.mergeLoop p addrVirtual handle fuel refills s = .error registersOutOfOrder := by
  induction hrun with
  | stop hstop =>
      intro b xs ys free refills s n k fuel h hqueue _ hprogress _ hfuel
      obtain ⟨fuel, rfl⟩ := Nat.exists_eq_succ_of_ne_zero (Nat.ne_of_gt hfuel)
      refine Or.inl ⟨b, s, k, [], free, ?_, hprogress, ?_, ?_, fun _ _ => rfl, rfl⟩
      · have hnext : (b.cell handle).next = ys.head? := h.next_at
        rw [mergeLoop, hnext]
        cases ys with
        | nil => rfl
        | cons y ys =>
            rw [← hqueue] at hstop
            exact if_neg (hstop _ rfl)
      · rw [List.append_nil]
        exact h
      · rw [List.append_nil]
        exact hqueue
  | @step i queue arrived merged rest hi run ih =>
      intro b xs ys free refills s n k fuel h hqueue harrived hprogress hall hfuel
      obtain ⟨fuel, rfl⟩ := Nat.exists_eq_succ_of_ne_zero (Nat.ne_of_gt (Nat.zero_lt_of_lt hfuel))
      cases ys with
      | nil => cases hqueue
      | cons y ys =>
          obtain ⟨hy, hqueue⟩ := List.cons.inj hqueue
          have hy' : (b.cell y).softsdvInstr = i := hy
          obtain ⟨s₁, k₁, hmerge, hprogress₁⟩ :=
            mergeInstr_spec hsize hnodup hacc hM hprogress (hall 0 i rfl)
          rcases mergeLoop_pass refills h (hy'.symm ▸ hi) (hy'.symm ▸ hmerge) with
            ⟨b₁, zs, free₁, hpass, hwf₁, hinstrs₁, hentry₁, hhandle₁⟩ | herr
          · have hqueue₁ : b₁.instrs (ys ++ zs) = queue ++ arrived.headD [] := by
              have hold : b₁.instrs ys = queue :=
                (instrs_congr fun r hr => hentry₁ r (List.mem_append_right _ hr)).trans hqueue
              have hnew : b₁.instrs zs = arrived.headD [] := by
                rw [hinstrs₁, ← harrived]
                cases refills <;> rfl
              rw [← hold, ← hnew]
              exact List.map_append
            have harrived₁ : refills.tail.map arrivals = arrived.tail := by
              rw [← harrived, List.map_tail]
            rw [hpass]
            rcases ih hwf₁ hqueue₁ harrived₁ hprogress₁ hall.tail
              (Nat.lt_of_succ_lt_succ hfuel) with
              ⟨b', s', k', zs', free', hok, hprogress', hwf', hinstrs', hentry', hhandle'⟩ | herr
            · rw [List.drop_append, List.append_assoc] at hwf' hinstrs'
              refine Or.inl ⟨b', s', k', zs.drop (merged.length - ys.length) ++ zs', free', hok,
                ?_, hwf', hinstrs', ?_, hhandle'.trans hhandle₁⟩
              · rw [List.length_cons, Nat.add_comm merged.length, ← Nat.add_assoc]
                exact hprogress'
              · intro r hr
                rw [hentry' r, hentry₁ r]
                · rcases List.mem_append.mp hr with hr | hr
                  · exact List.mem_append_left _ hr
                  · exact List.mem_append_right _ (List.mem_of_mem_drop hr)
                · rw [List.drop_append, ← List.append_assoc]
                  exact List.mem_append_left _ hr
            · exact Or.inr herr
          · exact Or.inr (herr fuel)

end Loop

end ReplayBuffer

end AsimFeeder.SoftSDV
