/-
Register records meet the instructions that name them.

`Feed` puts the link and the replay buffers of all CPUs together: what
`CheckForIncomingRegValues` takes off the register ring is pushed to the buffer of its
CPU, the instruction that `FetchIncomingInstructions` has open is added to the buffer of
its CPU, and between two calls Asim does with its buffers what it likes.

`noted` lists the records that SoftSDV has closed, and no event reads it.  The values of
the record with a uid are `regsOf`, since no two records have the same one; a record is
not closed when its uid would be that of an earlier one again.
-/
import AsimFeeder.SoftSDV.LinkCredit
import AsimFeeder.SoftSDV.RegMatch

namespace AsimFeeder.SoftSDV

open Lib

/-- The link, the records closed so far, and the replay buffer of every CPU. -/
structure Feed (Data Rep Regs : Type) where
  link : Link
  noted : List RegRecord
  live : Nat → ReplayBuffer Data Rep Regs × ReplayHistory Data

/-- `buffer` is `BufferIncomingInstruction` for an instruction with this tag and data. -/
inductive FeedEvent (Data Regs : Type)
  | link (e : LinkEvent)
  | buffer (instrTag : Option Int32) (data : Data)
  | replay (cpu : Nat) (op : ReplayOp Data Regs)

namespace Feed

variable {Data Rep Regs : Type} (c : LinkConfig) (regsOf : Nat → Regs)

/-- Before anything was fetched. -/
def Start (s : Feed Data Rep Regs) : Prop :=
  s.link = Link.start ∧ s.noted = [] ∧ ∀ cpu, ReplayStart (s.live cpu)

/-- A call of a buffer that fails no check. -/
def onBuffer (s : Feed Data Rep Regs) (cpu : Nat) (op : ReplayOp Data Regs) :
    Except LinkStop (Feed Data Rep Regs) :=
  match op.exec (s.live cpu) with
  | .ok l => .ok { s with live := Function.update s.live cpu l }
  | .error message => .error (.failed message)

/-- What an event of the link brings to the buffers and to the records closed. -/
def onLink (s : Feed Data Rep Regs) (e : LinkEvent) : Except LinkStop (Feed Data Rep Regs) :=
  match e, s.link.soft, s.link.regRing with
  | .closeRegs, .openRegs cid, _ =>
      -- uids are 64 bits wide, and increase
      if s.link.uid + 1 < 2 ^ 64 then
        .ok { s with noted := s.noted ++ [⟨s.link.uid + 1, cid⟩] }
      else
        .error .waits
  | .drainReg, _, r :: _ => s.onBuffer r.cpuNum (.pushRegisterValues (regInfo regsOf r.uid))
  | .bufferInstr, _, _ => .error .waits
  | _, _, _ => .ok s

/-- The open instruction goes to the buffer of its CPU. -/
def addIncoming (s : Feed Data Rep Regs) (instrTag : Option Int32) (data : Data) :
    Except LinkStop (Feed Data Rep Regs) :=
  match s.link.asim with
  | .buffer cpu _ _ =>
      match s.link.instrRing cpu with
      | newInstr :: _ =>
          s.onBuffer cpu (.addInstruction ⟨UInt64.ofNat newInstr.regsUid, instrTag, data⟩)
      | [] => .error .waits
  | _ => .error .waits

def exec (s : Feed Data Rep Regs) : FeedEvent Data Regs → Except LinkStop (Feed Data Rep Regs)
  | .link e => do
      let link ← s.link.exec c e
      let s ← s.onLink regsOf e
      .ok { s with link }
  | .buffer instrTag data => do
      let link ← s.link.exec c .bufferInstr
      let s ← s.addIncoming instrTag data
      .ok { s with link }
  | .replay cpu op => s.onBuffer cpu op

/-- Asim calls a buffer only outside the fetch loop, and as its feeder does. -/
def Allowed (s : Feed Data Rep Regs) : FeedEvent Data Regs → Prop
  | .link _ | .buffer _ _ => True
  | .replay cpu op => s.link.asim = .idle ∧ op.isIncoming = false ∧ op.Allowed (s.live cpu)

def Step (s t : Feed Data Rep Regs) : Prop :=
  ∃ e : FeedEvent Data Regs, s.Allowed e ∧ s.exec c regsOf e = .ok t

end Feed

/-! ### The link -/

/-- The uids of the records of a CPU, in the order they were closed in. -/
def ringUids (regRing : List RegRecord) (cpu : Nat) : List Nat :=
  (regRing.filter fun r => r.cpuNum = cpu).map RegRecord.uid

/-- The records that the entries of an instruction ring name. -/
def namedBy (ring : List LinkInstr) : List Nat := (ring.map LinkInstr.regsUid).filter (· ≠ 0)

/-- The record that the next instruction of a CPU is to name, if one was noted for it. -/
def SoftPhase.pendingUid (cpu : Nat) : SoftPhase → List Nat
  | .stepReference cid regsUid | .deliver cid regsUid _ _ _ =>
      if cid = cpu ∧ regsUid ≠ 0 then [regsUid] else []
  | _ => []

/-- The record that the instruction Asim has open names. -/
def AsimPhase.openedUid (instrRing : Nat → List LinkInstr) (cpu : Nat) : AsimPhase → Option Nat
  | .buffer cpuNum _ _ => if cpuNum = cpu then (namedBy ((instrRing cpu).take 1)).head? else none
  | _ => none

namespace Link

variable {c : LinkConfig} {s t : Link}

/-- All records that instructions on their way to a CPU name. -/
def namedUids (s : Link) (cpu : Nat) : List Nat :=
  namedBy (s.instrRing cpu) ++ s.soft.pendingUid cpu

/-- An event that closes and reads nothing. -/
structure Quiet (s t : Link) : Prop where
  regRing : t.regRing = s.regRing
  instrRing : t.instrRing = s.instrRing
  uid : t.uid = s.uid
  pending : ∀ cpu, (t.soft.pendingUid cpu).Sublist (s.soft.pendingUid cpu)
  opened : ∀ cpu, ∀ u ∈ t.asim.openedUid t.instrRing cpu,
    u ∈ s.asim.openedUid s.instrRing cpu ∨ (s.regRing = [] ∧ u ∈ namedBy (s.instrRing cpu))

theorem Quiet.ofSoft (hregs : t.regRing = s.regRing) (hinstrs : t.instrRing = s.instrRing)
    (huid : t.uid = s.uid) (hasim : t.asim = s.asim)
    (hpending : ∀ cpu, (t.soft.pendingUid cpu).Sublist (s.soft.pendingUid cpu)) : Quiet s t where
  regRing := hregs
  instrRing := hinstrs
  uid := huid
  pending := hpending
  opened := by
    intro cpu u hu
    rw [hasim, hinstrs] at hu
    exact Or.inl hu

theorem softExec_quiet {p : SoftPhase} (hs : s.soft = p) {e : LinkEvent} (he : e ≠ .closeRegs)
    (he' : e ≠ .deliver) (hexec : s.softExec c p e = .ok t) : Quiet s t := by
  unfold Link.softExec at hexec
  split at hexec
  · split at hexec <;> cases hexec
    exact .ofSoft rfl rfl rfl rfl fun _ => List.nil_sublist _
  · split at hexec <;> cases hexec
    · exact .ofSoft rfl rfl rfl rfl fun _ => List.nil_sublist _
    · refine .ofSoft rfl rfl rfl rfl fun cpu => ?_
      unfold Link.serve
      dsimp only
      split <;> exact List.nil_sublist _
  · cases hexec
    exact .ofSoft rfl rfl rfl rfl fun _ => List.nil_sublist _
  · unfold Link.takeRequest at hexec
    split at hexec <;> cases hexec
    refine .ofSoft rfl rfl rfl rfl fun cpu => ?_
    unfold Link.serve
    dsimp only
    split <;> exact List.nil_sublist _
  · rename_i noteRegs
    unfold Link.beginGroup at hexec
    split at hexec
    · cases hexec
      exact .ofSoft rfl rfl rfl rfl fun _ => List.nil_sublist _
    · split at hexec
      · cases hexec
      · split at hexec
        · cases hexec
        · cases hexec
          refine .ofSoft rfl rfl rfl rfl fun cpu => ?_
          cases noteRegs <;> simp [SoftPhase.pendingUid]
  · exact absurd rfl he
  · split at hexec <;> cases hexec
    refine .ofSoft rfl rfl rfl rfl fun cpu => ?_
    simp [hs, SoftPhase.pendingUid]
  · exact absurd rfl he'
  · cases hexec

theorem head_mem_namedBy {ring : List LinkInstr} {u : Nat}
    (hu : u ∈ (namedBy (ring.take 1)).head?) : u ∈ namedBy ring := by
  have hin := List.mem_of_mem_head? hu
  exact ((List.take_sublist 1 ring).map _).filter _ |>.subset hin

theorem asimExec_quiet {p : AsimPhase} (hs : s.asim = p) {e : LinkEvent} (he : e ≠ .drainReg)
    (he' : e ≠ .bufferInstr) (hexec : s.asimExec c p e = .ok t) : Quiet s t := by
  have hopen : ∀ q : AsimPhase, (∀ cpuNum chunk i, q ≠ .buffer cpuNum chunk i) →
      ∀ cpu, q.openedUid s.instrRing cpu = none := by
    intro q hq cpu
    unfold AsimPhase.openedUid
    split
    · exact absurd rfl (hq _ _ _)
    · rfl
  have hmove : ∀ (q : AsimPhase) requests, (∀ cpuNum chunk i, q ≠ .buffer cpuNum chunk i) →
      Quiet s { s with requests := requests, asim := q } := by
    intro q requests hq
    refine ⟨rfl, rfl, rfl, fun _ => List.Sublist.refl _, ?_⟩
    intro cpu u hu
    rw [hopen q hq] at hu
    cases hu
  have hfetch : ∀ cpu chunk i cpuNum chunk' i',
    fetchFrom cpu chunk i ≠ .buffer cpuNum chunk' i' := by
    intro cpu chunk i cpuNum chunk' i'
    unfold fetchFrom
    split <;> simp
  have hinitial : ∀ first cpuNum chunk i, initialFrom c first ≠ .buffer cpuNum chunk i := by
    intro first cpuNum chunk i
    unfold initialFrom
    split <;> simp
  unfold Link.asimExec at hexec
  split at hexec
  · unfold Link.sendRequest at hexec
    split at hexec <;> cases hexec
    exact hmove _ _ (hinitial _)
  · unfold Link.sendRequest at hexec
    split at hexec <;> cases hexec
    exact hmove _ _ (hinitial _)
  · split at hexec <;> cases hexec
    exact hmove _ _ (hfetch _ _ _)
  · exact absurd rfl he
  · unfold Link.drainDone at hexec
    split at hexec <;> cases hexec
    exact hmove _ _ (by simp)
  · split at hexec
    · cases hexec
      exact hmove _ _ (by simp)
    · split at hexec <;> cases hexec
      exact hmove _ _ (by simp)
  · exact absurd rfl he
  · unfold Link.drainDone at hexec
    split at hexec
    · rename_i hnil
      cases hexec
      refine ⟨rfl, rfl, rfl, fun _ => List.Sublist.refl _, ?_⟩
      intro cpu u hu
      dsimp only at hu
      split at hu
      · refine Or.inr ⟨hnil, ?_⟩
        unfold AsimPhase.openedUid at hu
        dsimp only at hu
        split at hu
        · exact head_mem_namedBy hu
        · cases hu
      · cases hu
    · cases hexec
  · exact absurd rfl he'
  · split at hexec
    · cases hexec
      exact hmove _ _ (by simp)
    · unfold Link.sendRequest at hexec
      split at hexec <;> cases hexec
      exact hmove _ _ (by simp)
  · cases hexec

end Link

namespace Link

variable {c : LinkConfig} {s t : Link}

/-- SoftSDV closes a record, and has it named by the next instruction of its CPU. -/
theorem exec_closeRegs (hexec : s.exec c .closeRegs = .ok t) : ∃ cid, s.soft = .openRegs cid ∧
    t = { s with
      regRing := s.regRing ++ [⟨s.uid + 1, cid⟩]
      uid := s.uid + 1
      soft := .stepReference cid (s.uid + 1) } := by
  change s.softExec c s.soft .closeRegs = .ok t at hexec
  cases hs : s.soft with
  | openRegs cid =>
      rw [hs] at hexec
      change s.closeRegs c cid = .ok t at hexec
      unfold Link.closeRegs at hexec
      split at hexec
      · cases hexec
      · cases hexec
        exact ⟨cid, rfl, rfl⟩
  | _ =>
      rw [hs] at hexec
      cases hexec

/-- SoftSDV passes an entry of its group, or closes the instruction that it is. -/
theorem exec_deliver (hexec : s.exec c .deliver = .ok t) : Quiet s t ∨
    ∃ cid regsUid rest early fetched,
      s.soft = .deliver cid regsUid (.instr :: rest) early fetched ∧
      t = { s with
        instrRing := Function.update s.instrRing cid (s.instrRing cid ++ [⟨regsUid⟩])
        soft := .deliver cid 0 rest early (fetched + 1) } := by
  change s.softExec c s.soft .deliver = .ok t at hexec
  cases hs : s.soft with
  | deliver cid regsUid instInfo early fetched =>
      rw [hs] at hexec
      change s.deliver c cid regsUid instInfo early fetched = .ok t at hexec
      unfold Link.deliver at hexec
      split at hexec
      · cases hexec
        refine Or.inl (.ofSoft rfl rfl rfl rfl fun _ => ?_)
        cases early <;> exact List.nil_sublist _
      · cases hexec
        refine Or.inl (.ofSoft rfl rfl rfl rfl fun _ => ?_)
        rw [hs]
        exact List.Sublist.refl _
      · split at hexec
        · cases hexec
        · cases hexec
          exact Or.inr ⟨cid, regsUid, _, early, fetched, rfl, rfl⟩
  | _ =>
      rw [hs] at hexec
      cases hexec

/-- Asim takes a record off the register ring, and has no instruction to add meanwhile. -/
theorem exec_drainReg (hexec : s.exec c .drainReg = .ok t) : ∃ r rest, s.regRing = r :: rest ∧
    t = { s with regRing := rest } ∧ ∀ cpu, s.asim.openedUid s.instrRing cpu = none := by
  change s.asimExec c s.asim .drainReg = .ok t at hexec
  have hdrain : s.drainReg = .ok t → ∃ r rest, s.regRing = r :: rest ∧
      t = { s with regRing := rest } := by
    intro hok
    unfold Link.drainReg at hok
    split at hok
    · cases hok
    · rename_i r rest hregs
      cases hok
      exact ⟨r, rest, hregs, rfl⟩
  cases hs : s.asim with
  | checkRegs cpu chunk i =>
      rw [hs] at hexec
      obtain ⟨r, rest, hregs, ht⟩ := hdrain hexec
      exact ⟨r, rest, hregs, by rw [ht, hs], fun _ => rfl⟩
  | checkAgain cpu chunk i newInstr =>
      rw [hs] at hexec
      obtain ⟨r, rest, hregs, ht⟩ := hdrain hexec
      exact ⟨r, rest, hregs, by rw [ht, hs], fun _ => rfl⟩
  | _ =>
      rw [hs] at hexec
      cases hexec

theorem exec_bufferInstr (hexec : s.exec c .bufferInstr = .ok t) : ∃ cpu chunk i,
    s.asim = .buffer cpu chunk i ∧ t = { s with
      instrRing := Function.update s.instrRing cpu (s.instrRing cpu).tail
      asim := fetchFrom cpu chunk (i + 1) } := by
  change s.asimExec c s.asim .bufferInstr = .ok t at hexec
  cases hs : s.asim with
  | buffer cpu chunk i =>
      rw [hs] at hexec
      cases hexec
      exact ⟨cpu, chunk, i, rfl, rfl⟩
  | _ =>
      rw [hs] at hexec
      cases hexec

theorem exec_quiet {e : LinkEvent} (he : e ≠ .closeRegs) (he₁ : e ≠ .deliver)
    (he₂ : e ≠ .drainReg) (he₃ : e ≠ .bufferInstr) (hexec : s.exec c e = .ok t) : Quiet s t := by
  unfold Link.exec at hexec
  split at hexec
  case h_7 => exact softExec_quiet rfl he he₁ hexec
  case h_3 => exact absurd rfl he₂
  case h_6 => exact absurd rfl he₃
  all_goals exact asimExec_quiet rfl (by simp) (by simp) hexec

end Link

/-! ### The system -/

namespace Feed

variable {Data Rep Regs : Type} {c : LinkConfig} {regsOf : Nat → Regs} {s t : Feed Data Rep Regs}

/-- The credit of the link, the uids given out, and the buffer of every CPU. -/
structure Ok (c : LinkConfig) (regsOf : Nat → Regs) (s : Feed Data Rep Regs) : Prop where
  credit : s.link.Credit c
  uid : s.link.uid < 2 ^ 64
  noted : ∀ r ∈ s.noted, r.uid ≤ s.link.uid
  matched : ∀ cpu, Matched regsOf s.noted cpu (s.live cpu) (ringUids s.link.regRing cpu)
    (s.link.namedUids cpu) (s.link.asim.openedUid s.link.instrRing cpu)

theorem ok_start (h : Start s) : Ok c regsOf s := by
  obtain ⟨link, noted, live⟩ := s
  obtain ⟨hlink, hnoted, hlive⟩ := h
  simp only at hlink hnoted hlive
  subst hlink hnoted
  refine ⟨Link.credit_start, Nat.two_pow_pos 64, nofun, ?_⟩
  intro cpu
  have htracks := tracks_of_replayStart (hlive cpu)
  obtain ⟨cell, regCell, serial, hs⟩ := hlive cpu
  refine ⟨htracks.wf, ?_, ?_, ⟨[], ?_, ?_, ?_, ?_, ?_⟩⟩
  · simp only [hs]
    exact List.Perm.refl _
  · simp only [hs]
    exact fun _ hr => by cases hr
  · simp only [hs]
    rfl
  · exact List.Pairwise.nil
  · exact fun _ hu => by cases hu
  · exact List.Sublist.refl _
  · exact fun _ hu => by cases hu

/-- What the events of the link that move nothing leave of it. -/
theorem Ok.quiet (h : Ok c regsOf s) {link : Link} (hcredit : link.Credit c)
    (hquiet : Link.Quiet s.link link) : Ok c regsOf { s with link } where
  credit := hcredit
  uid := by
    show link.uid < _
    rw [hquiet.uid]
    exact h.uid
  noted := by
    show ∀ r ∈ s.noted, r.uid ≤ link.uid
    rw [hquiet.uid]
    exact h.noted
  matched := by
    intro cpu
    have hring : ringUids link.regRing cpu = ringUids s.link.regRing cpu := by rw [hquiet.regRing]
    show Matched regsOf s.noted cpu (s.live cpu) (ringUids link.regRing cpu) _ _
    rw [hring]
    refine (h.matched cpu).mono ?_ ?_
    · show (link.namedUids cpu).Sublist _
      unfold Link.namedUids
      rw [hquiet.instrRing]
      exact (List.Sublist.refl _).append (hquiet.pending cpu)
    · intro u hu
      rcases hquiet.opened cpu u hu with hold | ⟨hnil, hin⟩
      · exact Or.inl hold
      · refine Or.inr ⟨?_, List.mem_append_left _ hin⟩
        rw [hnil]
        rfl

theorem Ok.closeRegs (h : Ok c regsOf s) {link : Link}
    (hlink : s.link.exec c .closeRegs = .ok link) {s' : Feed Data Rep Regs}
    (hon : s.onLink regsOf .closeRegs = .ok s') : Ok c regsOf { s' with link } := by
  have hcredit := h.credit.exec hlink
  obtain ⟨cid, hsoft, rfl⟩ := Link.exec_closeRegs hlink
  unfold onLink at hon
  simp only [hsoft] at hon
  split at hon
  · rename_i hbound
    cases hon
    refine ⟨hcredit, hbound, ?_, ?_⟩
    · intro r hr
      rcases List.mem_append.mp hr with hold | hnew
      · exact Nat.le_succ_of_le (h.noted r hold)
      · exact Nat.le_of_eq (congrArg RegRecord.uid (List.mem_singleton.mp hnew))
    · intro cpu
      have hlt : ∀ r ∈ s.noted, r.uid < s.link.uid + 1 := fun r hr =>
        Nat.lt_succ_of_le (h.noted r hr)
      have hopened := h.matched cpu
      by_cases hcpu : cid = cpu
      · subst hcpu
        have hnamed : s.link.namedUids cid = namedBy (s.link.instrRing cid) := by
          simp [Link.namedUids, hsoft, SoftPhase.pendingUid]
        rw [hnamed] at hopened
        have hnote := hopened.note hlt hbound
        simpa [ringUids, Link.namedUids, SoftPhase.pendingUid] using hnote
      · have hother := hopened.noteOther (List.subset_append_left s.noted
          [⟨s.link.uid + 1, cid⟩])
        simpa [ringUids, Link.namedUids, SoftPhase.pendingUid, hsoft, hcpu] using hother
  · cases hon

/-- What Asim has open is the first entry of its ring, whatever is closed behind it. -/
theorem openedUid_append {instrRing : Nat → List LinkInstr} {p : AsimPhase}
    (hopened : p.Opened instrRing) {cid cpu : Nat} {new : LinkInstr} :
    p.openedUid (Function.update instrRing cid (instrRing cid ++ [new])) cpu =
      p.openedUid instrRing cpu := by
  unfold AsimPhase.openedUid
  split
  · rename_i cpuNum _ _
    split
    · rename_i hcpu
      subst hcpu
      by_cases hcid : cpuNum = cid
      · subst hcid
        obtain ⟨first, rest, hring⟩ := List.exists_cons_of_ne_nil hopened
        rw [Function.update_self, hring]
        rfl
      · rw [Function.update_of_ne hcid]
    · rfl
  · rfl

/-- An instruction is closed, and now its ring names the record that was pending. -/
theorem Ok.deliver (h : Ok c regsOf s) {link : Link} (hlink : s.link.exec c .deliver = .ok link) :
    Ok c regsOf { s with link } := by
  have hcredit := h.credit.exec hlink
  rcases Link.exec_deliver hlink with hquiet | ⟨cid, regsUid, rest, early, fetched, hsoft, rfl⟩
  · exact h.quiet hcredit hquiet
  · refine ⟨hcredit, h.uid, h.noted, ?_⟩
    intro cpu
    refine (h.matched cpu).mono ?_ ?_
    · by_cases hcpu : cid = cpu
      · subst hcpu
        simp only [Link.namedUids, hsoft, SoftPhase.pendingUid, Function.update_self, namedBy,
          List.map_append, List.filter_append]
        by_cases hzero : regsUid = 0 <;> simp [hzero]
      · simp [Link.namedUids, hsoft, SoftPhase.pendingUid, hcpu,
          Function.update_of_ne (Ne.symm hcpu)]
    · intro u hu
      refine Or.inl ?_
      rwa [openedUid_append h.credit.opened] at hu

theorem Ok.drainReg (h : Ok c regsOf s) {link : Link}
    (hlink : s.link.exec c .drainReg = .ok link) {s' : Feed Data Rep Regs}
    (hon : s.onLink regsOf .drainReg = .ok s') : Ok c regsOf { s' with link } := by
  have hcredit := h.credit.exec hlink
  obtain ⟨r, rest, hregs, rfl, hclosed⟩ := Link.exec_drainReg hlink
  unfold onLink at hon
  simp only [hregs] at hon
  cases hon
  refine ⟨hcredit, h.uid, h.noted, ?_⟩
  intro cpu
  have hcpu := h.matched cpu
  show Matched regsOf s.noted cpu (Function.update s.live r.cpuNum _ cpu) (ringUids rest cpu)
    (s.link.namedUids cpu) (s.link.asim.openedUid s.link.instrRing cpu)
  by_cases hr : r.cpuNum = cpu
  · have hring : ringUids s.link.regRing cpu = r.uid :: ringUids rest cpu := by
      simp [ringUids, hregs, hr]
    rw [hring] at hcpu
    rw [← hr, Function.update_self]
    rw [← hr] at hcpu
    exact hcpu.push
  · have hring : ringUids s.link.regRing cpu = ringUids rest cpu := by
      simp [ringUids, hregs, hr]
    rw [hring] at hcpu
    rw [Function.update_of_ne (Ne.symm hr)]
    exact hcpu

theorem Ok.replay (h : Ok c regsOf s) {cpu : Nat} {op : ReplayOp Data Regs}
    (hop : op.Allowed (s.live cpu)) (hin : op.isIncoming = false)
    (hexec : s.onBuffer cpu op = .ok t) : Ok c regsOf t := by
  unfold onBuffer at hexec
  split at hexec
  · rename_i l hl
    cases hexec
    refine ⟨h.credit, h.uid, h.noted, ?_⟩
    intro cpu'
    show Matched regsOf s.noted cpu' (Function.update s.live cpu l cpu') _ _ _
    by_cases hcpu : cpu' = cpu
    · subst hcpu
      rw [Function.update_self]
      exact (h.matched cpu').replay hop hin hl
    · rw [Function.update_of_ne hcpu]
      exact h.matched cpu'
  · cases hexec

/-- The instruction that Asim has open is added, and finds the record it names. -/
theorem Ok.addInstruction (h : Ok c regsOf s) {cpu chunk i : Nat}
    (hasim : s.link.asim = .buffer cpu chunk i) {newInstr : LinkInstr} {rest : List LinkInstr}
    (hring : s.link.instrRing cpu = newInstr :: rest) (instrTag : Option Int32) (data : Data) :
    ∃ l, (ReplayOp.addInstruction ⟨UInt64.ofNat newInstr.regsUid, instrTag, data⟩).exec
        (s.live cpu) = .ok l ∧ Matched regsOf s.noted cpu l (ringUids s.link.regRing cpu)
          (namedBy rest ++ s.link.soft.pendingUid cpu) none := by
  have hcpu := h.matched cpu
  have hopened : s.link.asim.openedUid s.link.instrRing cpu = (namedBy [newInstr]).head? := by
    rw [hasim]
    show (if cpu = cpu then _ else none) = _
    rw [if_pos rfl, hring]
    rfl
  have hnamed : s.link.namedUids cpu =
      namedBy [newInstr] ++ (namedBy rest ++ s.link.soft.pendingUid cpu) := by
    unfold Link.namedUids namedBy
    rw [hring]
    simp [List.filter_cons]
    split <;> simp
  rw [hopened, hnamed] at hcpu
  by_cases hzero : newInstr.regsUid = 0
  · have hnil : namedBy [newInstr] = [] := by simp [namedBy, hzero]
    rw [hnil, List.nil_append] at hcpu
    refine hcpu.addUnnamed ?_
    rw [hzero]
    rfl
  · have hone : namedBy [newInstr] = [newInstr.regsUid] := by simp [namedBy, hzero]
    rw [hone] at hcpu
    exact hcpu.addNamed hzero rfl

theorem Ok.buffer (h : Ok c regsOf s) {link : Link} (hlink : s.link.exec c .bufferInstr = .ok link)
    (instrTag : Option Int32) (data : Data) :
    ∃ s', s.addIncoming instrTag data = .ok s' ∧ Ok c regsOf { s' with link } := by
  have hcredit := h.credit.exec hlink
  obtain ⟨cpu, chunk, i, hasim, rfl⟩ := Link.exec_bufferInstr hlink
  have hopen : s.link.instrRing cpu ≠ [] := by
    have hopened := h.credit.opened
    rw [hasim] at hopened
    exact hopened
  obtain ⟨newInstr, rest, hring⟩ := List.exists_cons_of_ne_nil hopen
  obtain ⟨l, hl, hmatched⟩ := h.addInstruction hasim hring instrTag data
  have hadd : s.addIncoming instrTag data =
    .ok { s with live := Function.update s.live cpu l } := by
    unfold addIncoming onBuffer
    rw [hasim]
    simp only [hring, hl]
  refine ⟨_, hadd, hcredit, h.uid, h.noted, ?_⟩
  intro cpu'
  have hfetch : ∀ ring, (Link.fetchFrom cpu chunk (i + 1)).openedUid ring cpu' = none := by
    intro ring
    unfold Link.fetchFrom
    split <;> rfl
  show Matched regsOf s.noted cpu' (Function.update s.live cpu l cpu')
    (ringUids s.link.regRing cpu')
    (namedBy (Function.update s.link.instrRing cpu (s.link.instrRing cpu).tail cpu') ++
      s.link.soft.pendingUid cpu') ((Link.fetchFrom cpu chunk (i + 1)).openedUid _ cpu')
  rw [hfetch]
  by_cases hcpu : cpu' = cpu
  · subst hcpu
    rw [Function.update_self, Function.update_self, hring]
    exact hmatched
  · rw [Function.update_of_ne hcpu, Function.update_of_ne hcpu]
    exact (h.matched cpu').mono (List.Sublist.refl _) nofun

/-- What the link's other events leave of the buffers. -/
theorem onLink_same {e : LinkEvent} (he : e ≠ .closeRegs) (he' : e ≠ .drainReg)
    {s' : Feed Data Rep Regs} (hon : s.onLink regsOf e = .ok s') : s' = s := by
  unfold onLink at hon
  split at hon
  · exact absurd rfl he
  · exact absurd rfl he'
  · cases hon
  · cases hon
    rfl

/-- **Every event keeps the buffer of every CPU matched with what is on its way to it.** -/
theorem Ok.exec (h : Ok c regsOf s) {e : FeedEvent Data Regs} (hallowed : s.Allowed e)
    (hexec : s.exec c regsOf e = .ok t) : Ok c regsOf t := by
  cases e with
  | link e =>
      obtain ⟨link, hlink, hexec⟩ := bind_eq_ok hexec
      obtain ⟨s', hon, hexec⟩ := bind_eq_ok hexec
      cases hexec
      by_cases hclose : e = .closeRegs
      · subst hclose
        exact h.closeRegs hlink hon
      by_cases hdrain : e = .drainReg
      · subst hdrain
        exact h.drainReg hlink hon
      have hsame := onLink_same hclose hdrain hon
      subst hsame
      by_cases hdeliver : e = .deliver
      · subst hdeliver
        exact h.deliver hlink
      by_cases hbuffer : e = .bufferInstr
      · subst hbuffer
        cases hon
      exact h.quiet (h.credit.exec hlink) (Link.exec_quiet hclose hdeliver hdrain hbuffer hlink)
  | buffer instrTag data =>
      obtain ⟨link, hlink, hexec⟩ := bind_eq_ok hexec
      obtain ⟨s', hadd, hexec⟩ := bind_eq_ok hexec
      cases hexec
      obtain ⟨s'', hadd', hok⟩ := h.buffer hlink instrTag data
      rw [hadd] at hadd'
      cases hadd'
      exact hok
  | replay cpu op =>
      obtain ⟨-, hin, hop⟩ := hallowed
      exact h.replay hop hin hexec

theorem ok_of_reaches (h : Reaches Start (Step c regsOf) s) : Ok c regsOf s := by
  refine h.invariant (fun s hs => ok_start hs) ?_
  intro s t hok hstep
  obtain ⟨e, hallowed, hexec⟩ := hstep
  exact hok.exec hallowed hexec

/--
**Register records reach exactly the instruction they belong to.**

No instruction finds its register values out of order.  A live instruction that names a
record has the one with that uid, which SoftSDV closed for the same CPU, and one that
names none has none.  And every record of a buffer is on the incoming list, on the free
list, or attached to one live instruction, and in one of these places only.
-/
theorem registers_reach_their_instruction (h : Reaches Start (Step c regsOf) s) :
    (∀ instrTag data message, s.exec c regsOf (.buffer instrTag data) ≠
      .error (.failed message)) ∧
    ∀ cpu, (∀ r ∈ (s.live cpu).2.live, HoldsItsRecord regsOf s.noted cpu (s.live cpu).1 r) ∧
      ((s.live cpu).1.regValuesList ++ (s.live cpu).1.regValuesFreeList ++
          (s.live cpu).2.live.filterMap fun r => ((s.live cpu).1.cell r).inputRegValues).Perm
        (List.range (s.live cpu).1.nRegCells) := by
  have hok := ok_of_reaches h
  refine ⟨?_, fun cpu => ⟨(hok.matched cpu).held, (hok.matched cpu).owned⟩⟩
  intro instrTag data message hfail
  cases hlink : s.link.exec c .bufferInstr with
  | error stop =>
      change (s.link.exec c .bufferInstr).bind _ = _ at hfail
      rw [hlink] at hfail
      cases hfail
      exact Link.asimExec_not_failed hlink
  | ok link =>
      obtain ⟨s', hadd, -⟩ := hok.buffer hlink instrTag data
      change (s.link.exec c .bufferInstr).bind (fun link =>
        (s.addIncoming instrTag data).bind fun s => .ok { s with link }) = _ at hfail
      rw [hlink] at hfail
      change (s.addIncoming instrTag data).bind _ = _ at hfail
      rw [hadd] at hfail
      cases hfail

/-- Memory that was zero, and no values in the records. -/
def zeroFeed : Feed Nat Unit Unit :=
  ⟨Link.start, [], fun _ => (zeroReplayBuffer, ⟨[], [], fun _ => 0, []⟩)⟩

/-- The first instruction of CPU 0 is delivered, after its record, and fetched. -/
def firstFetch : List (FeedEvent Nat Unit) :=
  Link.firstDelivery.map .link ++ [.link (.fetch 0 32), .link .drainReg, .link .drainDone,
    .link .openInstr, .link .drainDone, .buffer none 7]

theorem reaches_firstFetch {s : Feed Nat Unit Unit}
    (h : after (fun s e => (s.exec stubConfig (fun _ => ()) e).toOption)
      (fun _ e => match e with | .replay _ _ => false | _ => true) firstFetch zeroFeed = some s) :
    Reaches Start (Step stubConfig fun _ => ()) s := by
  refine Reaches.after ?_ (Reaches.start ⟨rfl, rfl, fun _ => ⟨_, _, _, rfl⟩⟩) h
  intro s e t hok hexec
  refine ⟨e, ?_, eq_ok_of_toOption hexec⟩
  cases e with
  | replay cpu op => cases hok
  | _ => trivial

/-- The run of the first fetch. -/
def firstFetched : Option (Feed Nat Unit Unit) :=
  after (fun s e => (s.exec stubConfig (fun _ => ()) e).toOption)
    (fun _ e => match e with | .replay _ _ => false | _ => true) firstFetch zeroFeed

theorem registers_reach_their_instruction_first : ∃ s, firstFetched = some s ∧
    (s.live 0).2.live = [0] ∧ ((s.live 0).1.cell 0).inputRegValues = some 0 ∧
    HoldsItsRecord (fun _ => ()) s.noted 0 (s.live 0).1 0 := by
  have hrun : firstFetched.isSome = true := by decide +kernel
  obtain ⟨s, hs⟩ := Option.isSome_iff_exists.mp hrun
  have hheld : firstFetched.map
      (fun s => ((s.live 0).2.live, ((s.live 0).1.cell 0).inputRegValues)) =
      some ([0], some 0) := by decide +kernel
  rw [hs] at hheld
  obtain ⟨hlive, hrec⟩ := Prod.mk.inj (Option.some.inj hheld)
  refine ⟨s, hs, hlive, hrec, ?_⟩
  obtain ⟨-, hholds⟩ := registers_reach_their_instruction (reaches_firstFetch hs)
  exact (hholds 0).1 0 (hlive ▸ List.mem_singleton_self 0)

end Feed

end AsimFeeder.SoftSDV
