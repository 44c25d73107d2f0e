/-
The instruction rings never overflow.

Nobody counts credits: that there is room for what is requested follows from who may
request when.  For each CPU the entries of its ring, the instructions that are requested
and not delivered yet, and what Asim has read or may still request before its next
request are together no more than the first request of `WarmUpClientInfo` asked for.
-/
import AsimFeeder.SoftSDV.Link

namespace AsimFeeder.SoftSDV

open Lib

/-! ### The credit of a CPU -/

/-- The instructions that a request asks of a CPU. -/
def Request.nInstrsFor (cpu : Nat) : Request → Nat
  | .warmup => 0
  | .fetch cpuNum nInstrs => if cpuNum = cpu then nInstrs else 0

/-- The instructions that the queued requests ask of a CPU. -/
def requested (requests : List Request) (cpu : Nat) : Nat :=
  (requests.map (Request.nInstrsFor cpu)).sum

/-- What the group under way has delivered and `fetchInstrsRemaining` still counts. -/
def SoftPhase.nInstrsFetched : SoftPhase → Nat
  | .deliver _ _ _ _ nInstrsFetched => nInstrsFetched
  | _ => 0

/-- What Asim has read or never had of a CPU, and its next request asks for again. -/
def AsimPhase.owed (c : LinkConfig) (cpu : Nat) : AsimPhase → Nat
  | .warmUp => c.warmupChunk
  | .initial first => if first ≤ cpu then c.warmupChunk else 0
  | .idle => 0
  | .checkRegs cpuNum _ i | .openInstr cpuNum _ i | .checkAgain cpuNum _ i _
  | .buffer cpuNum _ i => if cpuNum = cpu then i else 0
  | .openRequest cpuNum chunk => if cpuNum = cpu then chunk else 0

/-- What the phases of `ExecuteAsim` know of the request they serve. -/
def SoftPhase.Serves (fetchCpuNum remaining : Nat) : SoftPhase → Prop
  | .waitWarmUp | .openRequest _ => remaining = 0
  | .idle | .exited => True
  | .nextGroup cid | .openRegs cid | .stepReference cid _ => fetchCpuNum = cid
  | .deliver cid _ instInfo _ nInstrsFetched =>
      fetchCpuNum = cid ∧ nInstrsFetched + instInfo.length ≤ remaining

/-- Asim has the first entry of the ring open. -/
def AsimPhase.Opened (instrRing : Nat → List LinkInstr) : AsimPhase → Prop
  | .checkAgain cpuNum _ _ true | .buffer cpuNum _ _ => instrRing cpuNum ≠ []
  | _ => True

theorem AsimPhase.Opened.mono {ring ring' : Nat → List LinkInstr} {p : AsimPhase}
    (h : p.Opened ring) (hring : ∀ cpu, ring cpu <+: ring' cpu) : p.Opened ring' := by
  unfold AsimPhase.Opened at h ⊢
  split
  · exact fun hnil => h (List.prefix_nil.mp (hnil ▸ hring _))
  · exact fun hnil => h (List.prefix_nil.mp (hnil ▸ hring _))
  · trivial

theorem requested_append (requests : List Request) (request : Request) (cpu : Nat) :
    requested (requests ++ [request]) cpu = requested requests cpu + request.nInstrsFor cpu := by
  simp [requested]

theorem requested_cons (requests : List Request) (request : Request) (cpu : Nat) :
    requested (request :: requests) cpu = request.nInstrsFor cpu + requested requests cpu := by
  simp [requested]

namespace Link

/-- The instructions requested of a CPU and not delivered yet. -/
def outstanding (s : Link) (cpu : Nat) : Nat :=
  requested s.requests cpu +
    if s.fetchCpuNum = cpu then s.fetchInstrsRemaining - s.soft.nInstrsFetched else 0

/-- The entries of a CPU's ring and what is still to be delivered to it. -/
def pending (s : Link) (cpu : Nat) : Nat := (s.instrRing cpu).length + s.outstanding cpu

/-- The credit of every CPU, what the two sides are at, and how far the first message is. -/
structure Credit (c : LinkConfig) (s : Link) : Prop where
  credit : ∀ cpu, s.pending cpu + s.asim.owed c cpu ≤ c.warmupChunk
  serves : s.soft.Serves s.fetchCpuNum s.fetchInstrsRemaining
  opened : s.asim.Opened s.instrRing
  awaited : s.soft = .waitWarmUp → (s.asim = .warmUp ∧ s.requests = []) ∨
    (s.asim ≠ .warmUp ∧ ∃ rest, s.requests = .warmup :: rest ∧ Request.warmup ∉ rest)
  greeted : s.soft ≠ .waitWarmUp → s.asim ≠ .warmUp ∧ Request.warmup ∉ s.requests

variable {c : LinkConfig} {s t : Link}

theorem credit_start : Credit c start where
  credit := by
    intro cpu
    simp [pending, outstanding, requested, start, AsimPhase.owed]
  serves := rfl
  opened := trivial
  awaited := fun _ => Or.inl ⟨rfl, rfl⟩
  greeted := fun h => absurd rfl h

/-! ### SoftSDV's side -/

/-- An event of `ExecuteAsim` that leaves no CPU more pending than it was. -/
theorem Credit.ofSoft (h : Credit c s) (hs : s.soft ≠ .waitWarmUp) (ht : t.soft ≠ .waitWarmUp)
    (hasim : t.asim = s.asim) (hpending : ∀ cpu, t.pending cpu ≤ s.pending cpu)
    (hserves : t.soft.Serves t.fetchCpuNum t.fetchInstrsRemaining)
    (hrequests : t.requests ⊆ s.requests)
    (hring : ∀ cpu, s.instrRing cpu <+: t.instrRing cpu) : Credit c t where
  credit := by
    intro cpu
    rw [hasim]
    exact Nat.le_trans (Nat.add_le_add_right (hpending cpu) _) (h.credit cpu)
  serves := hserves
  opened := hasim ▸ h.opened.mono hring
  awaited := fun hw => absurd hw ht
  greeted := by
    intro _
    obtain ⟨hne, hnotin⟩ := h.greeted hs
    exact ⟨hasim ▸ hne, fun hmem => hnotin (hrequests hmem)⟩

theorem Credit.serve (h : Credit c s) (hs : s.soft ≠ .waitWarmUp)
    (hfetched : s.soft.nInstrsFetched = 0) (cid : Nat) : Credit c (s.serve cid) := by
  have hpending : ∀ cpu, (s.serve cid).pending cpu ≤ s.pending cpu := by
    intro cpu
    rw [pending, outstanding, pending, outstanding, hfetched]
    by_cases hcpu : s.fetchCpuNum = cid <;> simp [Link.serve, hcpu, SoftPhase.nInstrsFetched]
  by_cases hcpu : s.fetchCpuNum = cid
  · exact h.ofSoft hs (by simp [Link.serve, hcpu]) rfl hpending
      (by simp [Link.serve, hcpu, SoftPhase.Serves]) (List.Subset.refl _)
      (fun _ => List.prefix_rfl)
  · exact h.ofSoft hs (by simp [Link.serve, hcpu]) rfl hpending
      (by simp [Link.serve, hcpu, SoftPhase.Serves]) (List.Subset.refl _)
      (fun _ => List.prefix_rfl)

/-- Taking a request moves its instructions from the queue to `fetchInstrsRemaining`. -/
theorem Credit.takeRequest (h : Credit c s) {cid : Nat} (hs : s.soft = .openRequest cid)
    (hexec : s.takeRequest cid = .ok t) : Credit c t := by
  have hremaining : s.fetchInstrsRemaining = 0 := by
    have hserves := h.serves
    rw [hs] at hserves
    exact hserves
  unfold Link.takeRequest at hexec
  split at hexec
  · cases hexec
  · cases hexec
  · rename_i cpuNum nInstrs rest hrequests
    cases hexec
    have hmid : Credit c { s with
        requests := rest
        fetchCpuNum := cpuNum
        fetchInstrsRemaining := nInstrs
        soft := .idle } := by
      refine h.ofSoft (by simp [hs]) (by simp) rfl ?_ trivial ?_ (fun _ => List.prefix_rfl)
      · intro cpu
        simp only [pending, outstanding, hrequests, requested_cons, Request.nInstrsFor, hremaining,
          SoftPhase.nInstrsFetched, Nat.zero_sub, Nat.sub_zero, ite_self]
        omega
      · simp [hrequests]
    exact hmid.serve (by simp) rfl cid

theorem Credit.beginGroup (h : Credit c s) {cid : Nat} (hs : s.soft = .nextGroup cid)
    {noteRegs : Bool} (hexec : s.beginGroup c cid noteRegs = .ok t) : Credit c t := by
  have hcpu : s.fetchCpuNum = cid := by
    have hserves := h.serves
    rw [hs] at hserves
    exact hserves
  unfold Link.beginGroup at hexec
  split at hexec
  · cases hexec
    refine h.ofSoft (by simp [hs]) (by simp) rfl ?_ trivial (List.Subset.refl _)
      (fun _ => List.prefix_rfl)
    intro cpu
    simp [pending, outstanding, hs, SoftPhase.nInstrsFetched]
  · split at hexec
    · cases hexec
    · split at hexec
      · cases hexec
      · cases hexec
        refine h.ofSoft (by simp [hs]) ?_ rfl ?_ ?_ (List.Subset.refl _)
          (fun _ => List.prefix_rfl)
        · cases noteRegs <;> simp
        · intro cpu
          cases noteRegs <;> simp [pending, outstanding, hs, SoftPhase.nInstrsFetched]
        · cases noteRegs <;> exact hcpu

theorem Credit.closeRegs (h : Credit c s) {cid : Nat} (hs : s.soft = .openRegs cid)
    (hexec : s.closeRegs c cid = .ok t) : Credit c t := by
  have hcpu : s.fetchCpuNum = cid := by
    have hserves := h.serves
    rw [hs] at hserves
    exact hserves
  unfold Link.closeRegs at hexec
  split at hexec
  · cases hexec
  · cases hexec
    refine h.ofSoft (by simp [hs]) (by simp) rfl ?_ hcpu (List.Subset.refl _)
      (fun _ => List.prefix_rfl)
    intro cpu
    simp [pending, outstanding, hs, SoftPhase.nInstrsFetched]

/-- An instruction delivered is an entry of the ring, and no longer one to deliver. -/
theorem Credit.deliver (h : Credit c s) {cid regsUid fetched : Nat} {early : Bool}
    {instInfo : List StepEntry} (hs : s.soft = .deliver cid regsUid instInfo early fetched)
    (hexec : s.deliver c cid regsUid instInfo early fetched = .ok t) : Credit c t := by
  obtain ⟨hcpu, hroom⟩ : s.fetchCpuNum = cid ∧
      fetched + instInfo.length ≤ s.fetchInstrsRemaining := by
    have hserves := h.serves
    rw [hs] at hserves
    exact hserves
  unfold Link.deliver at hexec
  split at hexec
  · cases hexec
    refine h.ofSoft (by simp [hs]) ?_ rfl ?_ ?_ (List.Subset.refl _)
          (fun _ => List.prefix_rfl)
    · cases early <;> simp
    · intro cpu
      cases early <;> simp [pending, outstanding, hs, SoftPhase.nInstrsFetched]
    · cases early
      · exact hcpu
      · exact trivial
  · cases hexec
    refine h.ofSoft (by simp [hs]) (by simp) rfl ?_ ?_ (List.Subset.refl _)
      (fun _ => List.prefix_rfl)
    · intro cpu
      simp [pending, outstanding, hs, SoftPhase.nInstrsFetched]
    · rw [List.length_cons] at hroom
      refine ⟨hcpu, ?_⟩
      show fetched + _ ≤ s.fetchInstrsRemaining
      omega
  · split at hexec
    · cases hexec
    · cases hexec
      rw [List.length_cons] at hroom
      refine h.ofSoft (by simp [hs]) (by simp) rfl ?_ ⟨hcpu, ?_⟩ (List.Subset.refl _) ?_
      · intro cpu
        by_cases hcid : cid = cpu
        · subst hcid
          simp only [pending, outstanding, hs, hcpu, SoftPhase.nInstrsFetched, if_true,
            Function.update_self, List.length_append, List.length_singleton]
          omega
        · simp [pending, outstanding, hcpu, hcid, Function.update_of_ne (Ne.symm hcid)]
      · show fetched + 1 + _ ≤ s.fetchInstrsRemaining
        omega
      · intro cpu
        by_cases hcid : cpu = cid
        · subst hcid
          simp
        · simp [Function.update_of_ne hcid]

theorem Credit.softExec (h : Credit c s) {p : SoftPhase} (hs : s.soft = p) {e : LinkEvent}
    (hexec : s.softExec c p e = .ok t) : Credit c t := by
  unfold Link.softExec at hexec
  split at hexec
  · split at hexec
    · cases hexec
    · cases hexec
    · rename_i rest hrequests
      cases hexec
      rcases h.awaited hs with ⟨-, hnil⟩ | ⟨hne, rest', hrest, hnotin⟩
      · rw [hnil] at hrequests
        cases hrequests
      · rw [hrest] at hrequests
        cases hrequests
        refine ⟨?_, trivial, h.opened, (fun hw => by cases hw), fun _ => ⟨hne, hnotin⟩⟩
        intro cpu
        have hcredit := h.credit cpu
        simp only [pending, outstanding, hrest, requested_cons, Request.nInstrsFor, hs,
          SoftPhase.nInstrsFetched] at hcredit ⊢
        omega
  · split at hexec
    · rename_i hzero
      cases hexec
      refine h.ofSoft (by simp [hs]) (by simp) rfl ?_ hzero (List.Subset.refl _)
        (fun _ => List.prefix_rfl)
      intro cpu
      simp [pending, outstanding, hs, SoftPhase.nInstrsFetched]
    · cases hexec
      exact h.serve (by simp [hs]) (by rw [hs]; rfl) _
  · cases hexec
    refine h.ofSoft (by simp [hs]) (by simp) rfl ?_ trivial (List.Subset.refl _)
      (fun _ => List.prefix_rfl)
    intro cpu
    simp [pending, outstanding, hs, SoftPhase.nInstrsFetched]
  · exact h.takeRequest hs hexec
  · exact h.beginGroup hs hexec
  · exact h.closeRegs hs hexec
  · rename_i cid _ _
    split at hexec
    · rename_i hlength
      cases hexec
      have hcpu : s.fetchCpuNum = cid := by
        have hserves := h.serves
        rw [hs] at hserves
        exact hserves
      refine h.ofSoft (by simp [hs]) (by simp) rfl ?_ ⟨hcpu, ?_⟩ (List.Subset.refl _)
        (fun _ => List.prefix_rfl)
      · intro cpu
        simp [pending, outstanding, hs, SoftPhase.nInstrsFetched]
      · rw [Nat.zero_add]
        exact hlength
    · cases hexec
  · exact h.deliver hs hexec
  · cases hexec

/-! ### Asim's side -/

/-- An event of Asim that leaves a CPU no more pending or owed than it was. -/
theorem Credit.ofAsim (h : Credit c s) (hs : s.asim ≠ .warmUp) (ht : t.asim ≠ .warmUp)
    (hsoft : t.soft = s.soft) (hfetchCpu : t.fetchCpuNum = s.fetchCpuNum)
    (hremaining : t.fetchInstrsRemaining = s.fetchInstrsRemaining)
    (hcredit : ∀ cpu, t.pending cpu + t.asim.owed c cpu ≤ s.pending cpu + s.asim.owed c cpu)
    (hopened : t.asim.Opened t.instrRing)
    (hrequests : ∃ sent, t.requests = s.requests ++ sent ∧ Request.warmup ∉ sent) :
    Credit c t where
  credit := fun cpu => Nat.le_trans (hcredit cpu) (h.credit cpu)
  serves := by
    rw [hsoft, hfetchCpu, hremaining]
    exact h.serves
  opened := hopened
  awaited := by
    intro hw
    obtain ⟨sent, hsent, hnew⟩ := hrequests
    rcases h.awaited (hsoft ▸ hw) with ⟨hwarm, -⟩ | ⟨-, rest, hrest, hnotin⟩
    · exact absurd hwarm hs
    · refine Or.inr ⟨ht, rest ++ sent, ?_, ?_⟩
      · rw [hsent, hrest, List.cons_append]
      · simp [hnotin, hnew]
  greeted := by
    intro hw
    obtain ⟨sent, hsent, hnew⟩ := hrequests
    refine ⟨ht, ?_⟩
    rw [hsent]
    simp [(h.greeted (hsoft ▸ hw)).2, hnew]

theorem owed_initialFrom (c : LinkConfig) (first cpu : Nat) :
    (initialFrom c first).owed c cpu ≤ if first ≤ cpu then c.warmupChunk else 0 := by
  unfold initialFrom
  split
  · exact Nat.le_refl _
  · exact Nat.zero_le _

theorem owed_fetchFrom (c : LinkConfig) (cpuNum chunk i cpu : Nat) :
    (fetchFrom cpuNum chunk i).owed c cpu ≤ if cpuNum = cpu then i else 0 := by
  unfold fetchFrom
  split
  · exact Nat.le_refl _
  · simp only [AsimPhase.owed]
    split <;> omega

theorem opened_initialFrom (c : LinkConfig) (first : Nat) {ring : Nat → List LinkInstr} :
    (initialFrom c first).Opened ring := by
  unfold initialFrom
  split <;> trivial

theorem opened_fetchFrom (cpuNum chunk i : Nat) {ring : Nat → List LinkInstr} :
    (fetchFrom cpuNum chunk i).Opened ring := by
  unfold fetchFrom
  split <;> trivial

theorem initialFrom_ne (c : LinkConfig) (first : Nat) : initialFrom c first ≠ .warmUp := by
  unfold initialFrom
  split <;> simp

theorem fetchFrom_ne (cpuNum chunk i : Nat) : fetchFrom cpuNum chunk i ≠ .warmUp := by
  unfold fetchFrom
  split <;> simp

/-- A request sent for a CPU asks for no more than what is owed to it. -/
theorem Credit.sendRequest (h : Credit c s) (hs : s.asim ≠ .warmUp) {cpuNum nInstrs : Nat}
    {next : AsimPhase} (hnext : next ≠ .warmUp) (hopened : next.Opened s.instrRing)
    (howed : ∀ cpu, (if cpuNum = cpu then nInstrs else 0) + next.owed c cpu ≤ s.asim.owed c cpu)
    (hexec : s.sendRequest c (.fetch cpuNum nInstrs) next = .ok t) : Credit c t := by
  unfold Link.sendRequest at hexec
  split at hexec
  · cases hexec
  · cases hexec
    refine h.ofAsim hs hnext rfl rfl rfl ?_ hopened ⟨[.fetch cpuNum nInstrs], rfl, by simp⟩
    intro cpu
    have hcpu := howed cpu
    simp only [pending, outstanding, requested_append, Request.nInstrsFor]
    omega

theorem Credit.drainReg (h : Credit c s) (hexec : s.drainReg = .ok t) : Credit c t := by
  unfold Link.drainReg at hexec
  split at hexec
  · cases hexec
  · cases hexec
    exact ⟨h.credit, h.serves, h.opened, h.awaited, h.greeted⟩

/-- Asim moves on and takes nothing. -/
theorem Credit.moveAsim (h : Credit c s) (hs : s.asim ≠ .warmUp) {next : AsimPhase}
    (hnext : next ≠ .warmUp) (hopened : next.Opened s.instrRing)
    (howed : ∀ cpu, next.owed c cpu ≤ s.asim.owed c cpu) : Credit c { s with asim := next } := by
  refine h.ofAsim hs hnext rfl rfl rfl ?_ hopened ⟨[], by simp, by simp⟩
  intro cpu
  exact Nat.add_le_add_left (howed cpu) _

theorem Credit.drainDone (h : Credit c s) (hs : s.asim ≠ .warmUp) {next : AsimPhase}
    (hnext : next ≠ .warmUp) (hopened : next.Opened s.instrRing)
    (howed : ∀ cpu, next.owed c cpu ≤ s.asim.owed c cpu) (hexec : s.drainDone next = .ok t) :
    Credit c t := by
  unfold Link.drainDone at hexec
  split at hexec
  · cases hexec
    exact h.moveAsim hs hnext hopened howed
  · cases hexec

/-- The first message is on its way. -/
theorem Credit.greet (h : Credit c s) (hs : s.asim = .warmUp)
    (hexec : s.sendRequest c .warmup (initialFrom c 0) = .ok t) : Credit c t := by
  have hwait : s.soft = .waitWarmUp := by
    by_contra hne
    exact (h.greeted hne).1 hs
  unfold Link.sendRequest at hexec
  split at hexec
  · cases hexec
  · cases hexec
    rcases h.awaited hwait with ⟨-, hnil⟩ | ⟨hne, -⟩
    · refine ⟨?_, h.serves, opened_initialFrom c 0, ?_, fun hne => absurd hwait hne⟩
      · intro cpu
        have hcredit := h.credit cpu
        have howed := owed_initialFrom c 0 cpu
        rw [hs] at hcredit
        simp only [pending, outstanding, requested_append, Request.nInstrsFor, Nat.zero_le,
          if_true, AsimPhase.owed] at hcredit howed ⊢
        omega
      · intro _
        refine Or.inr ⟨initialFrom_ne c 0, [], ?_, by simp⟩
        show s.requests ++ [Request.warmup] = _
        rw [hnil, List.nil_append]
    · exact absurd hs hne

/-- The instruction that is open leaves the ring, and is owed from here on. -/
theorem Credit.bufferInstr (h : Credit c s) {cpuNum chunk i : Nat}
    (hs : s.asim = .buffer cpuNum chunk i) : Credit c { s with
      instrRing := Function.update s.instrRing cpuNum (s.instrRing cpuNum).tail
      asim := fetchFrom cpuNum chunk (i + 1) } := by
  have hopen : s.instrRing cpuNum ≠ [] := by
    have hopened := h.opened
    rw [hs] at hopened
    exact hopened
  have hlength : 0 < (s.instrRing cpuNum).length := List.length_pos_iff.mpr hopen
  refine h.ofAsim (by simp [hs]) (fetchFrom_ne _ _ _) rfl rfl rfl ?_ (opened_fetchFrom _ _ _)
    ⟨[], by simp, by simp⟩
  intro cpu
  have howed := owed_fetchFrom c cpuNum chunk (i + 1) cpu
  have hold : s.asim.owed c cpu = if cpuNum = cpu then i else 0 := by rw [hs]; rfl
  rw [hold]
  simp only [pending, outstanding]
  by_cases hcpu : cpuNum = cpu
  · subst hcpu
    simp only [Function.update_self, List.length_tail, if_true] at howed ⊢
    omega
  · simp only [Function.update_of_ne (Ne.symm hcpu), if_neg hcpu] at howed ⊢
    omega

theorem Credit.asimExec (h : Credit c s) {p : AsimPhase} (hs : s.asim = p) {e : LinkEvent}
    (hexec : s.asimExec c p e = .ok t) : Credit c t := by
  unfold Link.asimExec at hexec
  split at hexec
  · exact h.greet hs hexec
  · rename_i first
    refine h.sendRequest (by simp [hs]) (initialFrom_ne _ _) (opened_initialFrom _ _) ?_ hexec
    intro cpu
    have howed := owed_initialFrom c (first + 1) cpu
    have hold : s.asim.owed c cpu = if first ≤ cpu then c.warmupChunk else 0 := by rw [hs]; rfl
    rw [hold]
    by_cases hsent : first = cpu
    · rw [if_neg (by omega)] at howed
      rw [if_pos hsent, if_pos (by omega)]
      omega
    · rw [if_neg hsent, Nat.zero_add]
      refine Nat.le_trans howed ?_
      split
      · rw [if_pos (by omega)]
      · exact Nat.zero_le _
  · rename_i cpuNum chunk
    split at hexec
    · cases hexec
      refine h.moveAsim (by simp [hs]) (fetchFrom_ne _ _ _) (opened_fetchFrom _ _ _) ?_
      intro cpu
      have howed := owed_fetchFrom c cpuNum chunk 0 cpu
      rw [ite_self] at howed
      exact Nat.le_trans howed (Nat.zero_le _)
    · cases hexec
  · exact h.drainReg hexec
  · refine h.drainDone (by simp [hs]) (by simp) ?_ ?_ hexec
    · trivial
    · intro cpu
      simp [hs, AsimPhase.owed]
  · split at hexec
    · rename_i hne
      cases hexec
      refine h.moveAsim (by simp [hs]) (by simp) hne ?_
      intro cpu
      simp [hs, AsimPhase.owed]
    · split at hexec
      · cases hexec
        refine h.moveAsim (by simp [hs]) (by simp) trivial ?_
        intro cpu
        simp [hs, AsimPhase.owed]
      · cases hexec
  · exact h.drainReg hexec
  · rename_i newInstr
    have hopened := h.opened
    rw [hs] at hopened
    refine h.drainDone (by simp [hs]) ?_ ?_ ?_ hexec
    · cases newInstr <;> simp
    · cases newInstr
      · trivial
      · exact hopened
    · intro cpu
      cases newInstr <;> simp [hs, AsimPhase.owed]
  · cases hexec
    exact h.bufferInstr hs
  · split at hexec
    · cases hexec
      refine h.moveAsim (by simp [hs]) (by simp) trivial ?_
      intro cpu
      exact Nat.zero_le _
    · refine h.sendRequest (by simp [hs]) (by simp) ?_ ?_ hexec
      · trivial
      · intro cpu
        simp [hs, AsimPhase.owed]
  · cases hexec

/-- **Every event keeps the credit of every CPU.** -/
theorem Credit.exec (h : Credit c s) {e : LinkEvent} (hexec : s.exec c e = .ok t) :
    Credit c t := by
  unfold Link.exec at hexec
  split at hexec
  case h_7 => exact h.softExec rfl hexec
  all_goals exact h.asimExec rfl hexec

theorem credit_of_reaches (h : Reaches (· = start) (Step c) s) : Credit c s := by
  refine h.invariant ?_ ?_
  · intro s hs
    exact hs ▸ credit_start
  · intro s t hcredit hstep
    obtain ⟨e, hexec⟩ := hstep
    exact hcredit.exec hexec

/-! ### What the credit is for -/

/-- The room of a ring is more than its CPU can be sent. -/
theorem Credit.room (h : Credit c s) (cpu : Nat) :
    s.outstanding cpu ≤ c.instrRing.freeSlots (s.instrRing cpu).length := by
  have hcredit := h.credit cpu
  have hwarmup := c.warmup_le
  have hsize := c.instrRing.two_le_size
  unfold pending at hcredit
  unfold RingSize.freeSlots
  omega

theorem Credit.remaining_le (h : Credit c s) {cid : Nat} (hs : s.soft = .nextGroup cid) :
    s.fetchInstrsRemaining ≤ s.outstanding cid := by
  have hcpu : s.fetchCpuNum = cid := by
    have hserves := h.serves
    rw [hs] at hserves
    exact hserves
  simp [outstanding, hs, hcpu, SoftPhase.nInstrsFetched]

theorem Credit.not_waitsForInstrSlot (h : Credit c s) : ¬ s.WaitsForInstrSlot c := by
  intro hwaits
  obtain ⟨cid, regsUid, rest, early, fetched, hs, hfull⟩ := hwaits
  have hserves := h.serves
  have hroom := h.room cid
  rw [hs] at hserves
  obtain ⟨hcpu, hlength⟩ := hserves
  simp only [outstanding, hs, hcpu, SoftPhase.nInstrsFetched, if_true, List.length_cons,
    hfull] at hroom hlength
  omega

theorem Credit.outstanding_le (h : Credit c s) (cpu : Nat) :
    s.outstanding cpu ≤ c.maxChunkSize := by
  have hcredit := h.credit cpu
  unfold pending at hcredit
  unfold LinkConfig.maxChunkSize
  omega

theorem Credit.softExec_not_failed (h : Credit c s) {e : LinkEvent} {message : String} :
    s.softExec c s.soft e ≠ .error (.failed message) := by
  intro hexec
  generalize hs : s.soft = p at hexec
  unfold Link.softExec at hexec
  split at hexec
  · rcases h.awaited hs with ⟨-, hnil⟩ | ⟨-, rest, hrest, -⟩
    · rw [hnil] at hexec
      cases hexec
    · rw [hrest] at hexec
      cases hexec
  · split at hexec <;> cases hexec
  · cases hexec
  · unfold Link.takeRequest at hexec
    split at hexec
    · cases hexec
    · rename_i hrequests
      exact (h.greeted (by simp [hs])).2 (hrequests ▸ List.mem_cons_self)
    · cases hexec
  · rename_i cid _
    have hremaining := h.remaining_le hs
    have hroom := h.room cid
    have hchunk := h.outstanding_le cid
    unfold Link.beginGroup at hexec
    split at hexec
    · cases hexec
    · rw [if_neg (by omega), if_neg (by omega)] at hexec
      cases hexec
  · unfold Link.closeRegs at hexec
    split at hexec <;> cases hexec
  · split at hexec <;> cases hexec
  · unfold Link.deliver at hexec
    split at hexec
    · cases hexec
    · cases hexec
    · split at hexec <;> cases hexec
  · cases hexec

theorem asimExec_not_failed {e : LinkEvent} {message : String} :
    s.asimExec c s.asim e ≠ .error (.failed message) := by
  intro hexec
  unfold Link.asimExec Link.sendRequest Link.drainReg Link.drainDone at hexec
  repeat' split at hexec
  all_goals cases hexec

/--
**The credit of every CPU is what `WarmUpClientInfo` asked for**: its ring's entries and the
instructions requested and not delivered are together no more, so there is room for every
group, no check fails, and SoftSDV never waits on an instruction ring.
-/
theorem instrRing_credit (h : Reaches (· = start) (Step c) s) :
    (∀ cpu, (s.instrRing cpu).length + s.outstanding cpu ≤ c.warmupChunk) ∧
      (∀ e message, s.exec c e ≠ .error (.failed message)) ∧ ¬ s.WaitsForInstrSlot c := by
  have hcredit := credit_of_reaches h
  refine ⟨?_, ?_, hcredit.not_waitsForInstrSlot⟩
  · intro cpu
    have hcpu := hcredit.credit cpu
    unfold pending at hcpu
    omega
  · intro e message
    unfold Link.exec
    split
    case h_7 => exact hcredit.softExec_not_failed
    all_goals exact asimExec_not_failed

/-- Up to the first instruction that CPU 0 is sent. -/
def firstDelivery : List LinkEvent :=
  [.sendRequest, .sendRequest, .sendRequest, .takeRequest, .executeAsim 0, .takeRequest,
    .beginGroup true, .closeRegs, .stepReference [.pseudo, .instr], .deliver, .deliver]

theorem instrRing_credit_first : ∃ s, start.run stubConfig firstDelivery = some s ∧
    s.instrRing 0 = [⟨1⟩] ∧ s.outstanding 0 = 400 ∧
    (∀ cpu, (s.instrRing cpu).length + s.outstanding cpu ≤ 401) ∧
    (∀ e message, s.exec stubConfig e ≠ .error (.failed message)) ∧
    ¬ s.WaitsForInstrSlot stubConfig := by
  have hrun : (start.run stubConfig firstDelivery).isSome = true := by decide
  obtain ⟨s, hs⟩ := Option.isSome_iff_exists.mp hrun
  have hring : (start.run stubConfig firstDelivery).map
      (fun s => (s.instrRing 0, s.outstanding 0)) = some ([⟨1⟩], 400) := by decide
  rw [hs] at hring
  obtain ⟨hinstr, hout⟩ := Prod.mk.inj (Option.some.inj hring)
  exact ⟨s, hs, hinstr, hout, instrRing_credit (reaches_run hs)⟩

end Link
end AsimFeeder.SoftSDV
