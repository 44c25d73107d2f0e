/-
What one stream delivers, whatever is read from the others.

Besides what is static, the reader has one counter of idle threads for all streams, and it
asks stream 0 for the CPU of every instruction.  A call is followed through the passes of
`ATF_read_action` and what is done with the actions; a stream for which each of these is
fine by the history delivers what it delivers in a process of its own.
-/
import AsimFeeder.Atf.Passes
import AsimFeeder.Atf.TraceReader

namespace AsimFeeder.Atf

open Lib

/-- The instructions are skipped, since a thread is idle. -/
def TraceReader.skips (r : TraceReader) : Bool :=
  r.skipIdle && r.idleCtr ≠ 0

/-- An instruction is delivered. -/
def TraceReader.delivers (r : TraceReader) : Bool :=
  !r.skips && r.instCpu.toNat < r.numCpus

/-! ### The points of a call -/

/-- What a call of `GetNextInst` goes through. -/
inductive Point
  | read (c : Ctx)
  | take (r : TraceReader) (action : AtfAction)

/-- The passes of `ATF_read_action`. -/
def readPoints : Nat → Ctx → List Point
  | 0, _ => []
  | n + 1, c => .read c ::
      match c.readStep with
      | .ok (none, c) => readPoints n c
      | _ => []

/-- The passes of `GetNextInst`. -/
def TraceReader.points (streamId : Fin streamsMax) : Nat → TraceReader → List Point
  | 0, _ => []
  | n + 1, r => readPoints ((r.ctx streamId).unread + 1) (r.ctx streamId) ++
      match atfReadAction (r.ctx streamId) with
      | .ok (action, c) => .take (r.setCtx streamId c) action ::
          match (r.setCtx streamId c).takeAction streamId action with
          | .ok (none, r) => points streamId n r
          | _ => []
      | .error _ => []

namespace History

variable (h : History) (streamId : Fin streamsMax) (r : TraceReader)

/-- An instruction may be taken: it is skipped, or delivered, as the stream itself has it. -/
def instFine (vpc : Address) (opcode : Opcode) (vea : Address) : Bool :=
  (!r.skipIdle || decide (r.idleCtr = 0 ↔ h.idle streamId = 0)) &&
    (streamId.val = 0 || if r.skips then r.instCpu.toNat < r.numCpus else r.instCpu = 0) &&
    (!r.delivers || (h.kept streamId).current (r.ctx streamId) vpc true &&
      (!isLoadStore opcode || ((h.kept streamId).translated (r.ctx streamId) vpc true).current
        ((r.ctx streamId).tlbTranslate vpc true).2 vea false))

/-- An instruction was taken. -/
def instNote (vpc : Address) (opcode : Opcode) (vea : Address) : History :=
  if r.delivers then
    let h := h.translated streamId (r.ctx streamId) vpc true
    if isLoadStore opcode then
      h.translated streamId ((r.ctx streamId).tlbTranslate vpc true).2 vea false
    else
      h
  else
    h

def takeFine (action : AtfAction) : Bool :=
  match action with
  | .instrNew vpc opcode vea => h.instFine streamId r vpc opcode vea
  | .instrOld vpc opcode vea => h.instFine streamId r vpc opcode vea
  | .idleThread idleStart =>
      idleStart ≠ 0 || decide (r.idleCtr - 1 < 0 ↔ h.idle streamId - 1 < 0)
  | _ => true

def takeNote (action : AtfAction) : History :=
  match action with
  | .instrNew vpc opcode vea => h.instNote streamId r vpc opcode vea
  | .instrOld vpc opcode vea => h.instNote streamId r vpc opcode vea
  | .idleThread idleStart =>
      { h with
        idle := Function.update h.idle streamId
          (h.idle streamId + if idleStart ≠ 0 then 1 else -1) }
  | _ => h

def fine (h : History) : Point → Bool
  | .read c => h.readFine streamId c
  | .take r action => h.takeFine streamId r action

def note (h : History) : Point → History
  | .read c => h.readNote streamId c
  | .take r action => h.takeNote streamId r action

end History

/-! ### A call of `ATF_read_action` -/

namespace Ctx

variable {h : History} {streamId other : Fin streamsMax} {c d : Ctx}

theorem tied_readLoop {n : Nat} (hD : Shadowed h streamId c d)
    (hfine : fineAlong (History.fine streamId) (History.note streamId) (readPoints n c) h = true) :
    Tied (Shadowed ((readPoints n c).foldl (History.note streamId) h) streamId) (readLoop n c)
      (readLoop n d) := by
  induction n generalizing h c d with
  | zero => exact .error _
  | succ n ih =>
      unfold readPoints at hfine ⊢
      obtain ⟨hread, hnext⟩ := fineAlong_cons.mp hfine
      rw [List.foldl_cons]
      unfold readLoop
      refine (tied_readStep hD hread).bind_of_eq fun action c' d' hc hd hD' => ?_
      rw [hc] at hnext ⊢
      cases action with
      | none => exact ih hD' hnext
      | some action => exact .ok action hD'

theorem tied_atfReadAction (hD : Shadowed h streamId c d)
    (hfine : fineAlong (History.fine streamId) (History.note streamId)
      (readPoints (c.unread + 1) c) h = true) :
    Tied (Shadowed ((readPoints (c.unread + 1) c).foldl (History.note streamId) h) streamId)
      (atfReadAction c) (atfReadAction d) := by
  have hunread : c.unread = d.unread := by
    unfold unread
    rw [hD.step.fp, hD.step.instrLeft]
  unfold atfReadAction
  rw [← hunread]
  exact tied_readLoop hD hfine

theorem spares_readLoop (hne : other ≠ streamId) {n : Nat} {action : AtfAction}
    (hread : readLoop n c = .ok (action, d)) :
    Spares streamId h ((readPoints n c).foldl (History.note other) h) c.sh d.sh := by
  induction n generalizing h c with
  | zero => cases hread
  | succ n ih =>
      unfold readLoop at hread
      obtain ⟨⟨next, c'⟩, hstep, hread⟩ := bind_eq_ok hread
      have hS : Spares streamId h (h.readNote other c) c.sh c'.sh := spares_readStep hne hstep
      unfold readPoints
      rw [hstep, List.foldl_cons]
      cases next with
      | none => exact hS.trans (ih hread)
      | some action =>
          cases hread
          exact hS

end Ctx

/-! ### A call of `GetNextInst` -/

namespace TraceReader

variable {h : History} {streamId other : Fin streamsMax} {r r' s : TraceReader}

/-- In the second process only the stream's own calls were made. -/
structure Shadowed (h : History) (streamId : Fin streamsMax) (r s : TraceReader) : Prop where
  numCpus : r.numCpus = s.numCpus
  skipIdle : r.skipIdle = s.skipIdle
  ctx : (r.ctx streamId).Shadowed h streamId (s.ctx streamId)
  idle : s.idleCtr = h.idle streamId
  cpu : streamId ≠ 0 → s.instCpu = 0

theorem ctx_setCtx (r : TraceReader) (streamId : Fin streamsMax) (c : Ctx) :
    (r.setCtx streamId c).ctx streamId = c := by
  unfold ctx setCtx
  dsimp only
  rw [Function.update_self]

theorem instCpu_setCtx_of_ne (hne : streamId ≠ 0) (r : TraceReader) (c : Ctx) :
    (r.setCtx streamId c).instCpu = r.instCpu :=
  congrArg (fun ast : AtfStream => ast.globalVar .avgCPU) (Function.update_of_ne hne.symm _ _)

theorem Shadowed.setCtx (hD : Shadowed h streamId r s) {h' : History} {c d : Ctx}
    (hcd : c.Shadowed h' streamId d) (hidle : h'.idle streamId = h.idle streamId) :
    Shadowed h' streamId (r.setCtx streamId c) (s.setCtx streamId d) where
  numCpus := hD.numCpus
  skipIdle := hD.skipIdle
  ctx := by
    rw [ctx_setCtx, ctx_setCtx]
    exact hcd
  idle := hD.idle.trans hidle.symm
  cpu := fun hne => (instCpu_setCtx_of_ne hne s d).trans (hD.cpu hne)

/-- What is skipped is skipped in the stream's own process as well. -/
theorem Shadowed.skips (hD : Shadowed h streamId r s)
    (hidle : (!r.skipIdle || decide (r.idleCtr = 0 ↔ h.idle streamId = 0)) = true) :
    r.skips = s.skips := by
  unfold TraceReader.skips
  rw [← hD.skipIdle, hD.idle]
  cases hskip : r.skipIdle with
  | false => rfl
  | true =>
      rw [hskip] at hidle
      have hiff : r.idleCtr = 0 ↔ h.idle streamId = 0 := of_decide_eq_true hidle
      simp only [Bool.true_and, ne_eq, hiff]

/-- It is for the same CPU, or it is skipped for one that is counted in both. -/
theorem Shadowed.instCpu (hD : Shadowed h streamId r s)
    (hcpu : (streamId.val = 0 ||
      if r.skips then r.instCpu.toNat < r.numCpus else r.instCpu = 0) = true) :
    r.instCpu = s.instCpu ∨
      r.skips = true ∧ r.instCpu.toNat < r.numCpus ∧ s.instCpu.toNat < s.numCpus := by
  by_cases hzero : streamId = 0
  · subst hzero
    exact .inl (congrFun hD.ctx.step.globalVar _)
  · have hval : streamId.val ≠ 0 := fun h => hzero (Fin.ext h)
    simp only [Bool.or_eq_true, decide_eq_true_eq, hval, false_or] at hcpu
    rw [hD.cpu hzero]
    by_cases hskip : r.skips = true
    · rw [if_pos hskip, decide_eq_true_eq] at hcpu
      exact .inr ⟨hskip, hcpu, hD.numCpus ▸ Nat.zero_lt_of_lt hcpu⟩
    · rw [if_neg hskip, decide_eq_true_eq] at hcpu
      exact .inl hcpu

theorem Shadowed.initInst (hD : Shadowed h streamId r s) {vpc : Address} {opcode : Opcode}
    {vea : Address} (hdelivers : r.delivers = true) (hcpu : r.instCpu = s.instCpu)
    (hvpc : (h.kept streamId).current (r.ctx streamId) vpc true = true)
    (hvea : isLoadStore opcode = true → ((h.kept streamId).translated (r.ctx streamId) vpc
      true).current ((r.ctx streamId).tlbTranslate vpc true).2 vea false = true) :
    (r.initInst streamId vpc opcode vea).1 = (s.initInst streamId vpc opcode vea).1 ∧
      Shadowed (h.instNote streamId r vpc opcode vea) streamId
        (r.initInst streamId vpc opcode vea).2 (s.initInst streamId vpc opcode vea).2 := by
  have hD₁ := hD.ctx.atfTlbTranslate vpc true
  have hppage := Ctx.tlbPage_eq_of_current hD.ctx.step.toAgrees hD.ctx.kept hvpc
  unfold TraceReader.initInst History.instNote
  rw [if_pos hdelivers]
  cases hload : isLoadStore opcode with
  | false =>
      refine ⟨?_, hD.setCtx hD₁ rfl⟩
      change TraceInst.init vpc _ vea 0 opcode r.instCpu = .init vpc _ vea 0 opcode s.instCpu
      rw [Ctx.tlbTranslate_fst_eq hppage, hcpu]
  | true =>
      have hkept : (h.translated streamId (r.ctx streamId) vpc true).kept streamId =
          (h.kept streamId).translated (r.ctx streamId) vpc true := Function.update_self ..
      have hepage := Ctx.tlbPage_eq_of_current hD₁.step.toAgrees (hD₁.kept.trans hkept)
        (hvea hload)
      refine ⟨?_, hD.setCtx (hD₁.atfTlbTranslate vea false) rfl⟩
      change TraceInst.init vpc _ vea (Ctx.tlbTranslate _ vea false).1 opcode r.instCpu =
        .init vpc _ vea (Ctx.tlbTranslate _ vea false).1 opcode s.instCpu
      rw [Ctx.tlbTranslate_fst_eq hppage, hcpu]
      exact congrArg (TraceInst.init vpc _ vea · opcode s.instCpu) (Ctx.tlbTranslate_fst_eq hepage)

theorem tied_takeInst (hD : Shadowed h streamId r s) {vpc : Address} {opcode : Opcode}
    {vea : Address} (hfine : h.instFine streamId r vpc opcode vea = true) :
    Tied (Shadowed (h.instNote streamId r vpc opcode vea) streamId)
      (r.takeInst streamId vpc opcode vea) (s.takeInst streamId vpc opcode vea) := by
  unfold History.instFine at hfine
  obtain ⟨hcond, hpages⟩ := Bool.and_eq_true_iff.mp hfine
  obtain ⟨hidle, hcpu⟩ := Bool.and_eq_true_iff.mp hcond
  have hskips := hD.skips hidle
  have hnote (hdelivers : r.delivers = false) : h.instNote streamId r vpc opcode vea = h := by
    unfold History.instNote
    rw [hdelivers]
    rfl
  unfold takeInst
  change Tied _ (if r.skips then _ else _) (if s.skips then _ else _)
  rw [← hskips]
  rcases hD.instCpu hcpu with hsame | ⟨hskip, hlt, hlt'⟩
  · rw [← hsame, ← hD.numCpus]
    split_ifs with hskip hlt hle
    · rw [hnote (by simp [delivers, hskip])]
      exact .ok _ hD
    · exact .error _
    · rw [hnote (by simp [delivers, hle])]
      exact .ok _ hD
    · have hdelivers : r.delivers = true := by simpa [delivers, hskip] using hle
      rw [hdelivers] at hpages
      obtain ⟨hvpc, hvea⟩ := Bool.and_eq_true_iff.mp hpages
      obtain ⟨heq, hD'⟩ := hD.initInst hdelivers hsame hvpc (fun hload => by
        rw [hload] at hvea
        exact hvea)
      dsimp only
      rw [heq]
      exact .ok _ hD'
  · rw [if_pos hskip, if_pos hskip, if_pos hlt, if_pos hlt', hnote (by simp [delivers, hskip])]
    exact .ok _ hD

theorem tied_takeIdle (hD : Shadowed h streamId r s) {idleStart : Byte}
    (hfine : h.takeFine streamId r (.idleThread idleStart) = true) :
    Tied (Shadowed (h.takeNote streamId r (.idleThread idleStart)) streamId)
      (r.takeIdle idleStart) (s.takeIdle idleStart) := by
  have hadd (n : Int) (r' s' : TraceReader)
      (hr : r' = { r with idleCtr := r'.idleCtr })
      (hs : s' = { s with idleCtr := s.idleCtr + n })
      (hn : n = if idleStart ≠ 0 then 1 else -1) :
      Shadowed (h.takeNote streamId r (.idleThread idleStart)) streamId r' s' := by
    rw [hr, hs]
    refine ⟨hD.numCpus, hD.skipIdle, ⟨hD.ctx.step, hD.ctx.kept, hD.ctx.entry, hD.ctx.eaDelta⟩, ?_,
      hD.cpu⟩
    change s.idleCtr + n = Function.update h.idle streamId _ streamId
    rw [Function.update_self, hD.idle, hn]
  unfold takeIdle
  by_cases hstart : idleStart ≠ 0
  · rw [if_pos hstart, if_pos hstart]
    exact .ok _ (hadd 1 _ _ rfl rfl (if_pos hstart).symm)
  · have hiff : r.idleCtr - 1 < 0 ↔ s.idleCtr - 1 < 0 := by
      rw [hD.idle]
      simpa [History.takeFine, not_not.mp hstart] using hfine
    rw [if_neg hstart, if_neg hstart, if_congr hiff rfl rfl]
    split_ifs
    · exact .error _
    · exact .ok _ (hadd (-1) _ _ rfl rfl (if_neg hstart).symm)

theorem tied_takeAction (hD : Shadowed h streamId r s) {action : AtfAction}
    (hfine : h.takeFine streamId r action = true) :
    Tied (Shadowed (h.takeNote streamId r action) streamId) (r.takeAction streamId action)
      (s.takeAction streamId action) := by
  cases action with
  | instrOld vpc opcode vea => exact tied_takeInst hD hfine
  | instrNew vpc opcode vea => exact tied_takeInst hD hfine
  | idleThread idleStart => exact tied_takeIdle hD hfine
  | _ => exact .ok _ hD

theorem foldl_idle (h : History) (n : Nat) (c : Ctx) :
    ((readPoints n c).foldl (History.note streamId) h).idle = h.idle := by
  have hfetched (h : History) (c : Ctx) (f : Fetch) : (h.fetched streamId c f).idle = h.idle := rfl
  have htoken (h : History) (c : Ctx) (token : Byte) :
      (h.tokenNote streamId c token).idle = h.idle := by
    unfold History.tokenNote
    split
    · rfl
    · split <;> rfl
  induction n generalizing h c with
  | zero => rfl
  | succ n ih =>
      have hread : (h.readNote streamId c).idle = h.idle := by
        unfold History.readNote
        split_ifs
        · rfl
        · rfl
        · split
          · rfl
          · exact htoken ..
      unfold readPoints
      rw [List.foldl_cons]
      split
      · exact (ih _ _).trans hread
      · exact hread

/-- A call that is fine delivers the same in the stream's own process. -/
theorem tied_getNextInst {n : Nat} (hD : Shadowed h streamId r s)
    (hfine : fineAlong (History.fine streamId) (History.note streamId) (points streamId n r) h =
      true) :
    Tied (Shadowed ((points streamId n r).foldl (History.note streamId) h) streamId)
      (getNextInst streamId n r) (getNextInst streamId n s) := by
  induction n generalizing h r s with
  | zero => exact .error _
  | succ n ih =>
      unfold points at hfine ⊢
      obtain ⟨hread, hnext⟩ := fineAlong_append.mp hfine
      rw [List.foldl_append]
      unfold getNextInst nextStep
      rw [bind_assoc, bind_assoc]
      refine (Ctx.tied_atfReadAction hD.ctx hread).bind_of_eq fun action c d hc hd hcd => ?_
      rw [hc] at hnext ⊢
      obtain ⟨htake, hrest⟩ := fineAlong_cons.mp hnext
      rw [List.foldl_cons]
      have hD' := hD.setCtx hcd (congrFun (foldl_idle h _ _) _)
      refine (tied_takeAction hD' htake).bind_of_eq fun inst r' s' hr hs hrs => ?_
      rw [hr] at hrest ⊢
      cases inst with
      | none => exact ih hrs hrest
      | some inst => exact .ok inst hrs

/-! ### Calls on several streams -/

/-- The call was not on this stream. -/
structure Elsewhere (streamId : Fin streamsMax) (r r' : TraceReader) : Prop where
  stream : r'.stream streamId = r.stream streamId
  numCpus : r'.numCpus = r.numCpus
  skipIdle : r'.skipIdle = r.skipIdle

theorem Elsewhere.trans {r'' : TraceReader} (he : Elsewhere streamId r r')
    (he' : Elsewhere streamId r' r'') : Elsewhere streamId r r'' :=
  ⟨he'.stream.trans he.stream, he'.numCpus.trans he.numCpus, he'.skipIdle.trans he.skipIdle⟩

theorem elsewhere_setCtx (hne : other ≠ streamId) (r : TraceReader) (c : Ctx) :
    Elsewhere streamId r (r.setCtx other c) :=
  ⟨Function.update_of_ne hne.symm _ _, rfl, rfl⟩

theorem spares_takeAction (hne : other ≠ streamId) {action : AtfAction}
    {inst : Option TraceInst} (htake : r.takeAction other action = .ok (inst, r')) :
    Elsewhere streamId r r' ∧ Spares streamId h (h.takeNote other r action) r.sh r'.sh := by
  have hself : Elsewhere streamId r r := ⟨rfl, rfl, rfl⟩
  have hinst {vpc : Address} {opcode : Opcode} {vea : Address}
      (htake : r.takeInst other vpc opcode vea = .ok (inst, r')) :
      Elsewhere streamId r r' ∧
        Spares streamId h (h.instNote other r vpc opcode vea) r.sh r'.sh := by
    unfold takeInst at htake
    change (if r.skips then _ else _) = _ at htake
    have hnote (hdelivers : r.delivers = false) : h.instNote other r vpc opcode vea = h := by
      unfold History.instNote
      rw [hdelivers]
      rfl
    split_ifs at htake with hskip hlt hle
    · cases htake
      rw [hnote (by simp [delivers, hskip])]
      exact ⟨hself, .refl h r.sh⟩
    · cases htake
      rw [hnote (by simp [delivers, hle])]
      exact ⟨hself, .refl h r.sh⟩
    · have hdelivers : r.delivers = true := by simpa [delivers, hskip] using hle
      have hr : (r.initInst other vpc opcode vea).2 = r' :=
        congrArg Prod.snd (Except.ok.inj htake)
      rw [← hr]
      refine ⟨elsewhere_setCtx hne r _, ?_⟩
      have hvpc : Spares streamId h (h.translated other (r.ctx other) vpc true) r.sh
          ((r.ctx other).tlbTranslate vpc true).2.sh := .translated hne (r.ctx other) vpc true
      unfold History.instNote initInst
      rw [if_pos hdelivers]
      cases hload : isLoadStore opcode with
      | false => exact hvpc
      | true => exact hvpc.trans (.translated hne _ vea false)
  cases action with
  | instrOld vpc opcode vea => exact hinst htake
  | instrNew vpc opcode vea => exact hinst htake
  | idleThread idleStart =>
      have hnote : Spares streamId h (h.takeNote other r (.idleThread idleStart)) r.sh r.sh :=
        ⟨rfl, Function.update_of_ne hne.symm _ _, fun _ hown => ⟨hown, rfl⟩,
          fun hown => ⟨hown, rfl⟩⟩
      unfold takeAction takeIdle at htake
      dsimp only at htake
      split_ifs at htake
      · cases htake
        exact ⟨⟨rfl, rfl, rfl⟩, hnote⟩
      · cases htake
        exact ⟨⟨rfl, rfl, rfl⟩, hnote⟩
  | _ =>
      cases htake
      exact ⟨hself, .refl h r.sh⟩

theorem spares_getNextInst (hne : other ≠ streamId) {n : Nat} {inst : TraceInst}
    (hcall : getNextInst other n r = .ok (inst, r')) :
    Elsewhere streamId r r' ∧
      Spares streamId h ((points other n r).foldl (History.note other) h) r.sh r'.sh := by
  induction n generalizing h r with
  | zero => cases hcall
  | succ n ih =>
      unfold getNextInst nextStep at hcall
      obtain ⟨⟨next, r₂⟩, hstep, hcall⟩ := bind_eq_ok hcall
      obtain ⟨⟨action, c⟩, hread, htake⟩ := bind_eq_ok hstep
      dsimp only at htake hcall
      have hpasses : Spares streamId h
          ((readPoints ((r.ctx other).unread + 1) (r.ctx other)).foldl (History.note other) h) r.sh
          c.sh := Ctx.spares_readLoop hne hread
      obtain ⟨helse, hS⟩ := spares_takeAction hne htake
      have helse := (elsewhere_setCtx hne r c).trans helse
      have hS := hpasses.trans hS
      unfold points
      rw [List.foldl_append, hread, List.foldl_cons, htake]
      cases next with
      | none =>
          obtain ⟨helse', hS'⟩ := ih hcall
          exact ⟨helse.trans helse', hS.trans hS'⟩
      | some inst =>
          cases hcall
          exact ⟨helse, hS⟩

/-- What the calls on a stream deliver in the shared process `r` and in its own process `s`. -/
def DeliversAlone (n : Nat) (schedule : List (Fin streamsMax)) (streamId : Fin streamsMax)
    (r s : TraceReader) : Prop :=
  (outcomes (getNextInst · n) schedule r).filter (·.1 = streamId) =
    outcomes (getNextInst · n) ((made (getNextInst · n) schedule r).filter (· = streamId)) s

/-- Each point of the calls on the stream is fine, in the run of the shared process `r`. -/
def undisturbed (n : Nat) (schedule : List (Fin streamsMax)) (streamId : Fin streamsMax)
    (r : TraceReader) : Bool :=
  undisturbedAlong (getNextInst · n) (points · n) History.note History.fine streamId schedule r
    History.start

theorem deliversAlone_of_undisturbed {n : Nat} {schedule : List (Fin streamsMax)}
    (hD : Shadowed .start streamId r s) (hfine : undisturbed n schedule streamId r = true) :
    DeliversAlone n schedule streamId r s := by
  refine outcomes_filter (R := fun streamId h => Shadowed h streamId)
    (fun h r s hD hcall => tied_getNextInst hD hcall)
    (fun other h r s inst r' hne hD hcall => ?_) hD hfine
  obtain ⟨helse, hS⟩ := spares_getNextInst hne hcall
  refine ⟨helse.numCpus.trans hD.numCpus, helse.skipIdle.trans hD.skipIdle, ?_,
    hD.idle.trans hS.idle.symm, hD.cpu⟩
  refine hS.shadowed hD.ctx ?_
  change (r'.stream streamId).InStep (s.stream streamId)
  rw [helse.stream]
  exact hD.ctx.step

/-! ### Two streams -/

theorem shadowed_start (hnum : r.numCpus = s.numCpus) (hskip : r.skipIdle = s.skipIdle)
    (hstream : r.stream streamId = s.stream streamId) (hr : r.sh = Statics.fresh)
    (hs : s.sh = Statics.fresh) (hidle : s.idleCtr = 0)
    (hcpu : streamId ≠ 0 → s.instCpu = 0) : Shadowed .start streamId r s where
  numCpus := hnum
  skipIdle := hskip
  ctx := by
    refine ⟨?_, ?_, fun place _ => ?_, fun _ => ?_⟩
    · change (r.stream streamId).InStep (s.stream streamId)
      rw [hstream]
      exact .refl _
    · exact congrArg (fun sh : Statics => (⟨sh.last, sh.last2⟩ : Kept)) hs
    · exact congrArg (·.atfInstructions place) (hr.trans hs.symm)
    · exact congrArg (·.readEaDelta) (hr.trans hs.symm)
  idle := hidle
  cpu := hcpu

/-- A trace file with this content after the magic number. -/
def traceFile (tokens : List Byte) : TraceFile :=
  ⟨[0x00, 0x69, 0x08, 0x12] ++ tokens, none⟩

/-- **Two streams that are undisturbed deliver what each delivers alone.** -/
theorem streams_deliver_alone {numCpus : Nat} {skipIdle : Bool} {i j : Fin streamsMax}
    (hij : i ≠ j) {f g : TraceFile} {r s t : TraceReader}
    (hs : (start numCpus skipIdle).fileOpen i f = some s)
    (ht : (start numCpus skipIdle).fileOpen j g = some t)
    (hr : s.fileOpen j g = some r) {n : Nat} {schedule : List (Fin streamsMax)}
    (hi : undisturbed n schedule i r = true) (hj : undisturbed n schedule j r = true) :
    DeliversAlone n schedule i r s ∧ DeliversAlone n schedule j r t := by
  obtain ⟨ast, -, rfl⟩ := Option.map_eq_some_iff.mp hs
  obtain ⟨ast', hast', rfl⟩ := Option.map_eq_some_iff.mp ht
  obtain ⟨ast'', hast'', rfl⟩ := Option.map_eq_some_iff.mp hr
  -- the file is opened on the second stream as if there were no first one
  dsimp only at hast''
  rw [Function.update_of_ne hij.symm, hast'] at hast''
  cases hast''
  have hcpu (i : Fin streamsMax) (ast : AtfStream) (hi : i ≠ 0) :
      (Function.update (start numCpus skipIdle).stream i ast 0).globalVar .avgCPU = 0 := by
    rw [Function.update_of_ne hi.symm]
    rfl
  refine ⟨deliversAlone_of_undisturbed ?_ hi, deliversAlone_of_undisturbed ?_ hj⟩
  · exact shadowed_start rfl rfl (Function.update_of_ne hij _ _) rfl rfl rfl (hcpu i ast)
  · refine shadowed_start rfl rfl ?_ rfl rfl rfl (hcpu j ast')
    dsimp only
    rw [Function.update_self, Function.update_self]

/-- A trace of one instruction from the page `page`. -/
def pageTrace (page opcode : Byte) : TraceFile :=
  traceFile [0xe1, 0, page, 0, 0, 0, 0, 0, 0, 0xe4, opcode, 0, 0, 0x40]

theorem streams_deliver_alone_pages : ∃ r s t : TraceReader,
    (start 1 true).fileOpen 0 (pageTrace 0x20 1) = some s ∧
      (start 1 true).fileOpen 1 (pageTrace 0x40 2) = some t ∧
      s.fileOpen 1 (pageTrace 0x40 2) = some r ∧
      DeliversAlone 9 [0, 1, 1, 0] 0 r s ∧ DeliversAlone 9 [0, 1, 1, 0] 1 r t := by
  refine ⟨_, _, _, rfl, rfl, rfl, ?_⟩
  exact streams_deliver_alone (f := pageTrace 0x20 1) (g := pageTrace 0x40 2) (by decide) rfl rfl
    rfl (by decide +kernel) (by decide +kernel)

/-- The CPU of an instruction. -/
def TraceInst.cpu? : TraceInst → Option U64
  | .init _ _ _ _ _ cpu => some cpu
  | .setEof => none

/--
A trace of CPU 1 on stream 0 makes stream 1, whose trace is of CPU 0, deliver its
instruction for CPU 1.
-/
theorem streams_not_alone : ∃ r s t : TraceReader,
    (start 2 false).fileOpen 0 (traceFile [0xd1, 0x80]) = some s ∧
      (start 2 false).fileOpen 1 (traceFile [0x80]) = some t ∧
      s.fileOpen 1 (traceFile [0x80]) = some r ∧ ¬ DeliversAlone 9 [0, 1] 1 r t := by
  refine ⟨_, _, _, rfl, rfl, rfl, ?_⟩
  unfold DeliversAlone
  intro h
  have hcpu := congrArg (List.map fun o => o.2.toOption.bind TraceInst.cpu?) h
  revert hcpu
  decide +kernel

end TraceReader

end AsimFeeder.Atf
