/-
A pass of a stream, in the process that it shares and in one of its own.

The stream is in step in both, and the process of its own has what the history says the
stream wrote.  A pass that is fine keeps this, and does the same in both.
-/
import AsimFeeder.Atf.History

namespace AsimFeeder.Atf

open Lib

/-- In the second process only the stream's own calls were made. -/
structure Ctx.Shadowed (h : History) (streamId : Fin streamsMax) (c d : Ctx) : Prop where
  step : c.InStep d
  kept : d.kept = h.kept streamId
  entry : ∀ place, History.isOwn streamId (h.entry place) = true →
    c.sh.atfInstructions place = d.sh.atfInstructions place
  eaDelta : History.isOwn streamId h.eaDelta = true → c.sh.readEaDelta = d.sh.readEaDelta

namespace Ctx

variable {h : History} {streamId : Fin streamsMax} {c d : Ctx}

/-- Nothing was done to what is shared. -/
theorem Shadowed.of_inStep (hD : Shadowed h streamId c d) {c' d' : Ctx} (hstep : c'.InStep d')
    (hc : c'.sh = c.sh) (hd : d'.sh = d.sh) : Shadowed h streamId c' d' where
  step := hstep
  kept := by
    unfold Ctx.kept
    rw [hd]
    exact hD.kept
  entry := by
    rw [hc, hd]
    exact hD.entry
  eaDelta := by
    rw [hc, hd]
    exact hD.eaDelta

theorem Shadowed.setFp (hD : Shadowed h streamId c d) (fp : List Byte) :
    Shadowed h streamId (c.setFp fp) (d.setFp fp) :=
  hD.of_inStep (hD.step.setFp fp) rfl rfl

theorem Shadowed.atfSetPc (hD : Shadowed h streamId c d) (pc : Address) (isRelative : Bool) :
    Shadowed h streamId (c.onAst (·.atfSetPc pc isRelative))
      (d.onAst (·.atfSetPc pc isRelative)) :=
  hD.of_inStep (hD.step.atfSetPc pc isRelative) rfl rfl

theorem Shadowed.isDumping (hD : Shadowed h streamId c d) (isDumping : Bool) :
    Shadowed h streamId (c.onAst fun ast => { ast with isDumping })
      (d.onAst fun ast => { ast with isDumping }) :=
  hD.of_inStep ⟨⟨hD.step.cpuPtr, hD.step.globalVar, hD.step.cpu⟩, hD.step.fp,
    hD.step.limitCpuPtr, rfl, hD.step.instrLeft⟩ rfl rfl

theorem Shadowed.instrLeft (hD : Shadowed h streamId c d) (f : Nat → Nat) :
    Shadowed h streamId (c.onAst fun ast => { ast with instrLeft := f ast.instrLeft })
      (d.onAst fun ast => { ast with instrLeft := f ast.instrLeft }) :=
  hD.of_inStep ⟨⟨hD.step.cpuPtr, hD.step.globalVar, hD.step.cpu⟩, hD.step.fp,
    hD.step.limitCpuPtr, hD.step.isDumping, congrArg f hD.step.instrLeft⟩ rfl rfl

/-! ### Translating and executing -/

theorem Shadowed.atfTlbTranslate (hD : Shadowed h streamId c d) (va : Address)
    (isIstream : Bool) :
    Shadowed (h.translated streamId c va isIstream) streamId
      (c.atfTlbTranslate va isIstream).2 (d.atfTlbTranslate va isIstream).2 where
  step := hD.step.atfTlbTranslate va va isIstream isIstream
  kept := by
    change _ = Function.update h.kept streamId _ streamId
    rw [kept_atfTlbTranslate, hD.kept, ← translated_eq hD.step.toAgrees, Function.update_self]
  entry := by
    rw [atfTlbTranslate_atfInstructions, atfTlbTranslate_atfInstructions]
    exact hD.entry
  eaDelta := by
    rw [atfTlbTranslate_readEaDelta, atfTlbTranslate_readEaDelta]
    exact hD.eaDelta

theorem Shadowed.place (hD : Shadowed h streamId c d)
    (hcurrent : (h.kept streamId).current c c.vpc true = true) : c.place = d.place := by
  have hpage := tlbPage_eq_of_current hD.step.toAgrees hD.kept hcurrent
  unfold Ctx.place
  rw [← vpc_eq hD.step.toAgrees, ← tlbTranslate_istream_shift, ← tlbTranslate_istream_shift,
    tlbTranslate_fst_eq hpage]

variable {β : Type} {R : Ctx → Ctx → Prop} {f g : Address × Ctx → Except Fault (β × Ctx)}

theorem tied_cachePlace (hD : Shadowed h streamId c d)
    (hcurrent : (h.kept streamId).current c c.vpc true = true)
    (hfg : ∀ s t, Shadowed (h.translated streamId c c.vpc true) streamId s t →
      s.sh.atfInstructions c.place = c.sh.atfInstructions c.place →
      t.sh.atfInstructions c.place = d.sh.atfInstructions c.place →
      Tied R (f (c.place, s)) (g (c.place, t))) :
    Tied R (c.cachePlace >>= f) (d.cachePlace >>= g) := by
  have htranslate := hD.atfTlbTranslate c.vpc true
  rw [cachePlace_eq, cachePlace_eq, ← hD.place hcurrent, ← vpc_eq hD.step.toAgrees]
  split_ifs
  · refine hfg _ _ htranslate ?_ ?_
    · rw [atfTlbTranslate_atfInstructions]
    · rw [atfTlbTranslate_atfInstructions]
  · exact .error _

/-- The same entry is written in both. -/
theorem Shadowed.setInstr {h' : History} (hD : Shadowed h streamId c d) {place : Address}
    (e : AtfInstrEntry) (hkept : h'.kept streamId = h.kept streamId)
    (hentry : ∀ p, p ≠ place → h'.entry p = h.entry p) (hdelta : h'.eaDelta = h.eaDelta) :
    Shadowed h' streamId (c.setInstr place e) (d.setInstr place e) where
  step := hD.step
  kept := hD.kept.trans hkept.symm
  entry := by
    intro p hp
    change Function.update c.sh.atfInstructions place e p =
      Function.update d.sh.atfInstructions place e p
    by_cases hplace : p = place
    · rw [hplace, Function.update_self, Function.update_self]
    · rw [hentry p hplace] at hp
      rw [Function.update_of_ne hplace, Function.update_of_ne hplace]
      exact hD.entry p hp
  eaDelta := by
    rw [hdelta]
    exact hD.eaDelta

theorem tied_returnOrContinue (hD : Shadowed h streamId c d) (action : AtfAction) :
    Tied (Shadowed h streamId) (.ok (c.returnOrContinue action) : Except Fault _)
      (.ok (d.returnOrContinue action)) := by
  unfold returnOrContinue
  rw [hD.step.limitCpuPtr, hD.step.cpuPtr]
  exact .ok _ hD

theorem fetched_entry_of_ne (h : History) (streamId : Fin streamsMax) (c : Ctx) (f : Fetch)
    {p : Address} (hp : p ≠ c.place) : (h.fetched streamId c f).entry p = h.entry p := by
  cases f with
  | seq => rfl
  | _ => exact Function.update_of_ne hp _ _

/-- The entry of an instruction is the stream's own. -/
theorem fetchFine_entry {f : Fetch} (hf : f ≠ .new)
    (hfine : h.fetchFine streamId c f = true) :
    (h.kept streamId).current c c.vpc true = true ∧
      History.isOwn streamId (h.entry c.place) = true := by
  unfold History.fetchFine at hfine
  simp only [Bool.and_eq_true, Bool.or_eq_true, decide_eq_true_eq, hf, false_or] at hfine
  exact hfine.1

theorem fetchFine_eaDelta (hfine : h.fetchFine streamId c .eaLast = true) :
    History.isOwn streamId h.eaDelta = true := by
  unfold History.fetchFine at hfine
  simpa using (Bool.and_eq_true_iff.mp hfine).2

variable {b : Ctx}

theorem tied_returnInstrOld (hD : Shadowed h streamId c d) (hb : b.Beside c) {f : Fetch}
    (hnew : f ≠ .new) (hrel : f ≠ .eaRel) (hfine : h.fetchFine streamId b f = true)
    (set : SetVea) :
    Tied (Shadowed (h.fetched streamId b f) streamId) (c.returnInstrOld set)
      (d.returnInstrOld set) := by
  rw [hb.fetchFine] at hfine
  rw [hb.fetched]
  obtain ⟨hcurrent, hown⟩ := fetchFine_entry hnew hfine
  unfold returnInstrOld atfCacheLookup
  rw [bind_assoc, bind_assoc, vpc_eq hD.step.toAgrees]
  refine tied_cachePlace hD hcurrent fun s t hst hs ht => ?_
  have hentry : s.sh.atfInstructions c.place = t.sh.atfInstructions c.place :=
    hs.trans ((hD.entry c.place hown).trans ht.symm)
  have hwritten (e : AtfInstrEntry) :
      Shadowed (h.fetched streamId c f) streamId (s.setInstr c.place e) (t.setInstr c.place e) := by
    refine hst.setInstr e rfl (fun p hp => fetched_entry_of_ne h streamId c f hp) ?_
    cases f with
    | eaRel => exact absurd rfl hrel
    | _ => rfl
  dsimp only
  rw [hentry]
  exact tied_returnOrContinue ((hwritten _).atfSetPc 4 true) _

theorem tied_returnInstrNew (hD : Shadowed h streamId c d) (hb : b.Beside c)
    (hfine : h.fetchFine streamId b .new = true) (opcode : Opcode) (vea : Address) :
    Tied (Shadowed (h.fetched streamId b .new) streamId) (c.returnInstrNew opcode vea)
      (d.returnInstrNew opcode vea) := by
  rw [hb.fetchFine] at hfine
  rw [hb.fetched]
  unfold History.fetchFine at hfine
  simp only [Bool.and_eq_true] at hfine
  unfold returnInstrNew atfCacheOpcode
  rw [bind_assoc, bind_assoc, vpc_eq hD.step.toAgrees]
  refine tied_cachePlace hD hfine.1.1 fun s t hst hs ht => ?_
  have hwritten : Shadowed (h.fetched streamId c .new) streamId
      (s.setInstr c.place ⟨vea, opcode⟩) (t.setInstr c.place ⟨vea, opcode⟩) :=
    hst.setInstr _ rfl (fun p hp => fetched_entry_of_ne h streamId c .new hp) rfl
  exact tied_returnOrContinue (hwritten.atfSetPc 4 true) _

theorem tied_execEaRel (hD : Shadowed h streamId c d) (hb : b.Beside c)
    (hfine : h.fetchFine streamId b .eaRel = true) (delta : U64) :
    Tied (Shadowed (h.fetched streamId b .eaRel) streamId) (c.execEaRel delta)
      (d.execEaRel delta) := by
  -- the difference is read before the instruction is found
  have hset : Shadowed { h with eaDelta := some streamId } streamId (c.setEaDelta delta)
      (d.setEaDelta delta) := ⟨hD.step, hD.kept, hD.entry, fun _ => rfl⟩
  exact tied_returnInstrOld (f := .eaExact) hset (hb.setEaDelta delta) (by decide) (by decide)
    (by simpa [History.fetchFine] using hfine) _

theorem tied_returnPte (hD : Shadowed h streamId c d) (hb : b.Beside c) (delta pte : U64) :
    Tied (Shadowed (h.filled streamId b (pageAddrPage delta) pte) streamId)
      (c.returnPte delta pte) (d.returnPte delta pte) := by
  rw [hb.filled]
  unfold returnPte
  dsimp only
  split_ifs
  · refine tied_returnOrContinue ⟨?_, ?_, ?_, ?_⟩ _
    · exact ⟨atfTlbFillEntry_agrees hD.step.toAgrees _ _ _, hD.step.fp, hD.step.limitCpuPtr,
        hD.step.isDumping, hD.step.instrLeft⟩
    · change _ = Function.update h.kept streamId _ streamId
      rw [kept_atfTlbFillEntry, hD.kept, ← filled_eq hD.step.toAgrees, Function.update_self]
    · rw [atfTlbFillEntry_atfInstructions, atfTlbFillEntry_atfInstructions]
      exact hD.entry
    · rw [atfTlbFillEntry_readEaDelta, atfTlbFillEntry_readEaDelta]
      exact hD.eaDelta
  · exact .error _

/-! ### A pass of `ATF_read_action` -/

theorem tied_returnSet (hD : Shadowed h streamId c d) (varnum : AtfVariable) (value : U64) :
    Tied (Shadowed h streamId) (c.returnSet varnum value) (d.returnSet varnum value) := by
  have hstep := hD.step
  have hset := hstep.toAgrees.atfSetVariable varnum value
  unfold returnSet AtfStream.atfSetVariable at *
  split_ifs at * with hlocal hcpu hlt
  · exact .ok _ (hD.of_inStep ⟨hset, hstep.fp, hstep.limitCpuPtr, hstep.isDumping,
      hstep.instrLeft⟩ rfl rfl)
  · exact .ok _ (hD.of_inStep ⟨hset, hstep.fp, hstep.limitCpuPtr, hstep.isDumping,
      hstep.instrLeft⟩ rfl rfl)
  · exact .error _
  · exact .ok _ (hD.of_inStep ⟨hset, hstep.fp, hstep.limitCpuPtr, hstep.isDumping,
      hstep.instrLeft⟩ rfl rfl)

theorem tied_getString (hD : Shadowed h streamId c d) :
    Tied (Shadowed h streamId) c.getString d.getString := by
  unfold getString
  rw [hD.step.fp]
  cases atfGetString d.ast.fp with
  | error e => exact .error e
  | ok r => exact .ok _ (hD.setFp _)

theorem tied_readCommand (hD : Shadowed h streamId c d) (command : Byte) :
    Tied (Shadowed h streamId) (c.readCommand command) (d.readCommand command) := by
  unfold readCommand
  split
  all_goals try simp only [get, hD.step.fp]
  · exact .ok _ (hD.isDumping true)
  · exact (tied_getString hD).bind fun string s t hst => .ok _ hst
  · exact (tied_getString ((hD.setFp _).setFp _)).bind fun string s t hst => .ok _ hst
  · exact .ok _ hD
  · exact .ok _ hD
  · exact .ok _ (hD.setFp _)
  · exact (tied_getString (((hD.setFp _).setFp _).setFp _)).bind fun string s t hst => .ok _ hst
  · exact .ok _ (((hD.setFp _).setFp _).setFp _)
  · exact .ok _ ((((hD.setFp _).setFp _).setFp _).setFp _)
  · exact .ok _ ((((hD.setFp _).setFp _).setFp _).setFp _)
  · exact .ok _ ((((hD.setFp _).setFp _).setFp _).setFp _)
  · exact .ok _ ((((hD.setFp _).setFp _).setFp _).setFp _)
  · exact .ok _ ((((hD.setFp _).setFp _).setFp _).setFp _)
  · exact (tied_getString ((hD.setFp _).setFp _)).bind fun string s t hst => .ok _ hst
  · exact .ok _ (hD.setFp _)
  · exact .ok _ hD

theorem tied_readFormat (hD : Shadowed h streamId c d) {token : Byte}
    (hfine : ∀ f, tokenFetch token = some f → h.fetchFine streamId c f = true) :
    Tied (Shadowed (h.tokenNote streamId c token) streamId) (c.readFormat token)
      (d.readFormat token) := by
  have hfp := hD.step.fp
  have hb := Beside.refl c
  unfold readFormat
  split
  all_goals try simp only [get, hfp, setFp_fp]
  · exact .ok _ ((hD.setFp _).atfSetPc _ _)
  · exact .ok _ ((hD.setFp _).atfSetPc _ _)
  · have hlast := hfine .eaLast rfl
    rw [hD.eaDelta (fetchFine_eaDelta hlast)]
    exact tied_returnInstrOld (f := .eaLast) hD hb (by decide) (by decide) hlast _
  · exact tied_execEaRel (hD.setFp _) (hb.setFp _) (hfine .eaRel rfl) _
  · exact tied_returnInstrOld (f := .eaExact) (hD.setFp _) (hb.setFp _) (by decide) (by decide)
      (hfine .eaExact rfl) _
  · exact tied_returnInstrNew (hD.setFp _) (hb.setFp _) (hfine .new rfl) _ _
  · exact tied_returnInstrNew ((hD.setFp _).setFp _) ((hb.setFp _).setFp _) (hfine .new rfl) _ _
  · exact tied_returnInstrNew ((hD.setFp _).setFp _) ((hb.setFp _).setFp _) (hfine .new rfl) _ _
  · have hD' := (hD.setFp (getByte d.ast.fp).2).setFp (getByte (getByte d.ast.fp).2).2
    split
    · rw [hD'.step.toAgrees.atfGetVariable]
      exact tied_returnSet hD' _ _
    · exact .error _
  · split
    · exact tied_returnSet ((hD.setFp _).setFp _) _ _
    · exact .error _
  · rw [hD.step.globalVar]
    exact tied_returnSet hD _ _
  · change Tied (Shadowed (h.filled streamId _ (pageAddrPage (getQw c.ast.fp).1)
      (getQw (getQw c.ast.fp).2).1) streamId) _ _
    rw [hfp]
    exact tied_returnPte ((hD.setFp _).setFp _) (Beside.refl _) _ _
  · exact tied_returnOrContinue (((hD.setFp _).setFp _).setFp _) _
  · exact tied_readCommand (hD.setFp _) _
  · exact .error _

theorem tokenFetch_setCpu {token : Byte} (hseq : ¬ token &&& 0xe0 = 0x80)
    (hjmp : ¬ token &&& 0xc0 = 0x00) (hea : ¬ token &&& 0xc0 = 0x40)
    (hcpu : token &&& 0xf0 = 0xd0) : tokenFetch token = none := by
  unfold tokenFetch
  rw [if_neg hseq, if_neg hjmp, if_neg hea]
  split <;> first | rfl | contradiction

theorem tokenNote_fetch {token : Byte} {f : Fetch} (hfetch : tokenFetch token = some f) :
    h.tokenNote streamId c token = h.fetched streamId c f := by
  unfold History.tokenNote
  rw [hfetch]

/-- Only a page table entry is noted besides what executes an instruction. -/
theorem tokenNote_eq {token : Byte} (hfetch : tokenFetch token = none) (hpte : token ≠ 0xeb) :
    h.tokenNote streamId c token = h := by
  unfold History.tokenNote
  rw [hfetch]
  dsimp only
  split
  · contradiction
  · rfl

theorem tied_readToken (hD : Shadowed h streamId c d) {token : Byte}
    (hfine : ∀ f, tokenFetch token = some f → h.fetchFine streamId c f = true) :
    Tied (Shadowed (h.tokenNote streamId c token) streamId) (c.readToken token)
      (d.readToken token) := by
  unfold readToken
  split_ifs with hseq hjmp hea hcpu
  · rw [tokenNote_eq (by simp only [tokenFetch, if_pos hseq]) (by rintro rfl; contradiction)]
    exact .ok _ (hD.instrLeft (· + ((token &&& 0x1f).toNat + 1)))
  · rw [tokenNote_eq (by simp only [tokenFetch, if_neg hseq, if_pos hjmp])
      (by rintro rfl; contradiction)]
    exact .ok _ (hD.atfSetPc _ _)
  · have hfetch : tokenFetch token = some .eaRel := by
      simp only [tokenFetch, if_neg hseq, if_neg hjmp, if_pos hea]
    rw [tokenNote_fetch hfetch]
    exact tied_execEaRel hD (.refl c) (hfine .eaRel hfetch) _
  · rw [tokenNote_eq (tokenFetch_setCpu hseq hjmp hea hcpu) (by rintro rfl; contradiction)]
    exact tied_returnSet hD _ _
  · exact tied_readFormat hD hfine
  · exact .error _

theorem tied_readDump (hD : Shadowed h streamId c d) :
    Tied (Shadowed h streamId) c.readDump d.readDump := by
  have hget {c d : Ctx} (hD : Shadowed h streamId c d) {w : Nat} (p : Bool)
      (f : List Byte → BitVec w × List Byte) :
      (c.getIf p f).1 = (d.getIf p f).1 ∧
        Shadowed h streamId (c.getIf p f).2 (d.getIf p f).2 := by
    unfold getIf get
    rw [hD.step.fp]
    cases p
    · exact ⟨rfl, hD⟩
    · exact ⟨rfl, hD.setFp _⟩
  obtain ⟨hlw, h₁⟩ := hget hD true getLw
  unfold readDump
  change (c.get getLw).1 = (d.get getLw).1 at hlw
  change Shadowed h streamId (c.get getLw).2 (d.get getLw).2 at h₁
  generalize c.get getLw = x at hlw h₁
  generalize d.get getLw = y at hlw h₁
  obtain ⟨lw, c₁⟩ := x
  obtain ⟨_, d₁⟩ := y
  cases hlw
  dsimp only
  split_ifs
  · obtain ⟨hupper, h₂⟩ := hget h₁ (lw.setWidth 64 &&& (4 : Address) ≠ 0) getLw
    generalize c₁.getIf (lw.setWidth 64 &&& (4 : Address) ≠ 0) getLw = x at hupper h₂
    generalize d₁.getIf (lw.setWidth 64 &&& (4 : Address) ≠ 0) getLw = y at hupper h₂
    obtain ⟨upper, c₂⟩ := x
    obtain ⟨_, d₂⟩ := y
    cases hupper
    dsimp only
    obtain ⟨hva, h₃⟩ := hget h₂
      ((lw.setWidth 64 ||| upper.setWidth 64 <<< 32) &&& (6 : Address) = 6) getQw
    dsimp only at hva h₃
    rw [hva]
    exact .ok _ h₃
  · exact .ok _ (h₁.isDumping false)

/-- A pass that is fine does the same in the stream's own process. -/
theorem tied_readStep (hD : Shadowed h streamId c d) (hfine : h.readFine streamId c = true) :
    Tied (Shadowed (h.readNote streamId c) streamId) c.readStep d.readStep := by
  unfold History.readFine at hfine
  unfold History.readNote readStep
  rw [← hD.step.instrLeft, ← hD.step.isDumping, ← hD.step.fp]
  by_cases hzero : c.ast.instrLeft ≠ 0
  · rw [if_pos hzero] at hfine ⊢
    rw [if_pos hzero, if_pos hzero]
    exact tied_returnInstrOld (f := .seq) (hD.instrLeft (· - 1))
      ((Beside.refl c).instrLeft (· - 1)) (by decide) (by decide) hfine _
  · rw [if_neg hzero] at hfine ⊢
    rw [if_neg hzero, if_neg hzero]
    by_cases hdump : c.ast.isDumping = true
    · rw [if_pos hdump, if_pos hdump, if_pos hdump]
      exact tied_readDump hD
    · rw [if_neg hdump] at hfine ⊢
      rw [if_neg hdump, if_neg hdump]
      cases hfile : c.ast.fp with
      | nil => exact .ok _ hD
      | cons token fp =>
          rw [hfile] at hfine
          refine tied_readToken (hD.setFp fp) fun f hf => ?_
          rw [← (Beside.refl c).setFp fp |>.fetchFine]
          change (tokenFetch token).all (h.fetchFine streamId c) = true at hfine
          rw [hf] at hfine
          exact hfine

end Ctx

/-! ### The passes of other streams -/

/-- What the history has for a stream, and what it goes by, is as it was. -/
structure Spares (streamId : Fin streamsMax) (h h' : History) (sh sh' : Statics) : Prop where
  kept : h'.kept streamId = h.kept streamId
  idle : h'.idle streamId = h.idle streamId
  entry : ∀ place, History.isOwn streamId (h'.entry place) = true →
    History.isOwn streamId (h.entry place) = true ∧
      sh'.atfInstructions place = sh.atfInstructions place
  eaDelta : History.isOwn streamId h'.eaDelta = true →
    History.isOwn streamId h.eaDelta = true ∧ sh'.readEaDelta = sh.readEaDelta

namespace Spares

variable {streamId other : Fin streamsMax} {h h' h'' : History} {sh sh' sh'' : Statics}

theorem refl (h : History) (sh : Statics) : Spares streamId h h sh sh :=
  ⟨rfl, rfl, fun _ hown => ⟨hown, rfl⟩, fun hown => ⟨hown, rfl⟩⟩

theorem trans (hS : Spares streamId h h' sh sh') (hS' : Spares streamId h' h'' sh' sh'') :
    Spares streamId h h'' sh sh'' where
  kept := hS'.kept.trans hS.kept
  idle := hS'.idle.trans hS.idle
  entry := by
    intro place hown
    obtain ⟨hown', heq'⟩ := hS'.entry place hown
    obtain ⟨hown, heq⟩ := hS.entry place hown'
    exact ⟨hown, heq'.trans heq⟩
  eaDelta := by
    intro hown
    obtain ⟨hown', heq'⟩ := hS'.eaDelta hown
    obtain ⟨hown, heq⟩ := hS.eaDelta hown'
    exact ⟨hown, heq'.trans heq⟩

theorem shadowed {c c' d : Ctx} (hS : Spares streamId h h' c.sh c'.sh)
    (hD : c.Shadowed h streamId d) (hstep : c'.InStep d) : c'.Shadowed h' streamId d where
  step := hstep
  kept := hD.kept.trans hS.kept.symm
  entry := by
    intro place hown
    obtain ⟨hown, heq⟩ := hS.entry place hown
    exact heq.trans (hD.entry place hown)
  eaDelta := by
    intro hown
    obtain ⟨hown, heq⟩ := hS.eaDelta hown
    exact heq.trans (hD.eaDelta hown)

theorem of_kept {k : Kept} (hne : other ≠ streamId)
    (hentry : sh'.atfInstructions = sh.atfInstructions)
    (hdelta : sh'.readEaDelta = sh.readEaDelta) :
    Spares streamId h { h with kept := Function.update h.kept other k } sh sh' where
  kept := Function.update_of_ne hne.symm _ _
  idle := rfl
  entry := fun _ hown => ⟨hown, congrFun hentry _⟩
  eaDelta := fun hown => ⟨hown, hdelta⟩

theorem translated (hne : other ≠ streamId) (c : Ctx) (va : Address) (isIstream : Bool) :
    Spares streamId h (h.translated other c va isIstream) c.sh
      (c.atfTlbTranslate va isIstream).2.sh :=
  of_kept hne (c.atfTlbTranslate_atfInstructions va isIstream)
    (c.atfTlbTranslate_readEaDelta va isIstream)

/-- An instruction was executed, and its entry was written. -/
theorem fetched (hne : other ≠ streamId) {c : Ctx} {f : Fetch} {e : AtfInstrEntry}
    (hentry : sh'.atfInstructions = Function.update sh.atfInstructions c.place e)
    (hseq : f = .seq → e = sh.atfInstructions c.place)
    (hdelta : f ≠ .eaRel → sh'.readEaDelta = sh.readEaDelta) :
    Spares streamId h (h.fetched other c f) sh sh' where
  kept := Function.update_of_ne hne.symm _ _
  idle := rfl
  entry := by
    intro place hown
    rw [hentry]
    by_cases hplace : place = c.place
    · subst hplace
      cases f with
      | seq =>
          rw [hseq rfl, Function.update_eq_self]
          exact ⟨hown, rfl⟩
      | _ =>
          change History.isOwn streamId
            (Function.update h.entry c.place (some other) c.place) = true at hown
          rw [Function.update_self] at hown
          exact absurd (of_decide_eq_true hown) hne
    · rw [Ctx.fetched_entry_of_ne h other c f hplace] at hown
      exact ⟨hown, Function.update_of_ne hplace _ _⟩
  eaDelta := by
    intro hown
    cases f with
    | eaRel => exact absurd (of_decide_eq_true hown) hne
    | _ => exact ⟨hown, hdelta (by decide)⟩

end Spares

namespace Ctx

variable {streamId other : Fin streamsMax} {b c d : Ctx} {action : Option AtfAction}

theorem returnInstrOld_sh {set : SetVea} (h : c.returnInstrOld set = .ok (action, d)) :
    d.sh.atfInstructions = Function.update c.sh.atfInstructions c.place
        { c.sh.atfInstructions c.place with ea := set.apply (c.sh.atfInstructions c.place).ea } ∧
      d.sh.readEaDelta = c.sh.readEaDelta := by
  unfold returnInstrOld atfCacheLookup at h
  rw [cachePlace_eq] at h
  split_ifs at h
  · cases h
    refine ⟨?_, c.atfTlbTranslate_readEaDelta c.vpc true⟩
    change Function.update (c.atfTlbTranslate c.vpc true).2.sh.atfInstructions _ _ = _
    rw [atfTlbTranslate_atfInstructions]
  · cases h

theorem returnInstrNew_sh {opcode : Opcode} {vea : Address}
    (h : c.returnInstrNew opcode vea = .ok (action, d)) :
    d.sh.atfInstructions = Function.update c.sh.atfInstructions c.place ⟨vea, opcode⟩ ∧
      d.sh.readEaDelta = c.sh.readEaDelta := by
  unfold returnInstrNew atfCacheOpcode at h
  rw [cachePlace_eq] at h
  split_ifs at h
  · cases h
    refine ⟨?_, c.atfTlbTranslate_readEaDelta c.vpc true⟩
    change Function.update (c.atfTlbTranslate c.vpc true).2.sh.atfInstructions _ _ = _
    rw [atfTlbTranslate_atfInstructions]
  · cases h

theorem returnSet_sh {varnum : AtfVariable} {value : U64}
    (h : c.returnSet varnum value = .ok (action, d)) : d.sh = c.sh := by
  unfold returnSet at h
  obtain ⟨ast, -, h⟩ := bind_eq_ok h
  cases h
  rfl

theorem readDump_sh (h : c.readDump = .ok (action, d)) : d.sh = c.sh := by
  have hgetIf (c : Ctx) {w : Nat} (p : Bool) (f : List Byte → BitVec w × List Byte) :
      (c.getIf p f).2.sh = c.sh := by
    cases p <;> rfl
  unfold readDump at h
  dsimp only at h
  split_ifs at h
  · cases h
    rw [hgetIf, hgetIf]
    rfl
  · cases h
    rfl

theorem readCommand_sh {command : Byte} (h : c.readCommand command = .ok (action, d)) :
    d.sh = c.sh := by
  have hstring {c d : Ctx} {string : List Byte} (h : c.getString = .ok (string, d)) :
      d.sh = c.sh := by
    unfold getString at h
    obtain ⟨r, -, h⟩ := bind_eq_ok h
    cases h
    rfl
  unfold readCommand at h
  split at h
  all_goals first
    | (cases h; rfl)
    | (obtain ⟨⟨string, e⟩, he, h⟩ := bind_eq_ok h
       have hsh := hstring he
       cases h
       exact hsh)

variable {h : History}

/-- What another stream executes is its own from then on. -/
theorem spares_returnInstrOld (hne : other ≠ streamId) {f : Fetch} {set : SetVea}
    (hread : c.returnInstrOld set = .ok (action, d)) (hseq : f = .seq → set = .keep)
    (hb : b.Beside c) (hsh : c.sh = b.sh) :
    Spares streamId h (h.fetched other b f) b.sh d.sh := by
  obtain ⟨hentry, hdelta⟩ := returnInstrOld_sh hread
  rw [hsh, ← hb.place] at hentry
  rw [hsh] at hdelta
  refine .fetched hne hentry (fun hf => ?_) fun _ => hdelta
  rw [hseq hf]
  rfl

theorem spares_returnInstrNew (hne : other ≠ streamId) {opcode : Opcode} {vea : Address}
    (hread : c.returnInstrNew opcode vea = .ok (action, d)) (hb : b.Beside c)
    (hsh : c.sh = b.sh) :
    Spares streamId h (h.fetched other b .new) b.sh d.sh := by
  obtain ⟨hentry, hdelta⟩ := returnInstrNew_sh hread
  rw [hsh, ← hb.place] at hentry
  rw [hsh] at hdelta
  exact .fetched hne hentry (fun hf => Fetch.noConfusion hf) fun _ => hdelta

theorem spares_execEaRel (hne : other ≠ streamId) {delta : U64}
    (hread : c.execEaRel delta = .ok (action, d)) (hb : b.Beside c) (hsh : c.sh = b.sh) :
    Spares streamId h (h.fetched other b .eaRel) b.sh d.sh := by
  obtain ⟨hentry, -⟩ := returnInstrOld_sh hread
  change d.sh.atfInstructions = Function.update c.sh.atfInstructions _ _ at hentry
  rw [hsh, ← (hb.setEaDelta delta).place] at hentry
  exact .fetched hne hentry (fun hf => Fetch.noConfusion hf) fun hf => absurd rfl hf

theorem spares_readFormat (hne : other ≠ streamId) {token : Byte}
    (hread : c.readFormat token = .ok (action, d)) :
    Spares streamId h (h.tokenNote other c token) c.sh d.sh := by
  have hsame {e : Statics} (hsh : e = c.sh) : Spares streamId h h c.sh e := by
    rw [hsh]
    exact .refl h c.sh
  have hb := Beside.refl c
  unfold readFormat at hread
  split at hread
  all_goals try simp only [get] at hread
  · cases hread
    exact hsame rfl
  · cases hread
    exact hsame rfl
  · exact spares_returnInstrOld (f := .eaLast) hne hread (fun hf => Fetch.noConfusion hf) hb rfl
  · exact spares_execEaRel hne hread (hb.setFp _) rfl
  · exact spares_returnInstrOld (f := .eaExact) hne hread (fun hf => Fetch.noConfusion hf)
      (hb.setFp _) rfl
  · exact spares_returnInstrNew hne hread (hb.setFp _) rfl
  · exact spares_returnInstrNew hne hread ((hb.setFp _).setFp _) rfl
  · exact spares_returnInstrNew hne hread ((hb.setFp _).setFp _) rfl
  · split at hread
    · have hsh := returnSet_sh hread
      exact hsame hsh
    · cases hread
  · split at hread
    · have hsh := returnSet_sh hread
      exact hsame hsh
    · cases hread
  · exact hsame (returnSet_sh hread)
  · unfold returnPte at hread
    dsimp only at hread
    split_ifs at hread
    · cases hread
      exact .of_kept hne (atfTlbFillEntry_atfInstructions ..) (atfTlbFillEntry_readEaDelta ..)
  · cases hread
    exact hsame rfl
  · have hsh := readCommand_sh hread
    exact hsame hsh
  · cases hread

theorem spares_readToken (hne : other ≠ streamId) {token : Byte}
    (hread : c.readToken token = .ok (action, d)) :
    Spares streamId h (h.tokenNote other c token) c.sh d.sh := by
  unfold readToken at hread
  split_ifs at hread with hseq hjmp hea hcpu
  · rw [tokenNote_eq (by simp only [tokenFetch, if_pos hseq]) (by rintro rfl; contradiction)]
    cases hread
    exact .refl h c.sh
  · rw [tokenNote_eq (by simp only [tokenFetch, if_neg hseq, if_pos hjmp])
      (by rintro rfl; contradiction)]
    cases hread
    exact .refl h c.sh
  · have hfetch : tokenFetch token = some .eaRel := by
      simp only [tokenFetch, if_neg hseq, if_neg hjmp, if_pos hea]
    rw [tokenNote_fetch hfetch]
    exact spares_execEaRel hne hread (.refl c) rfl
  · rw [tokenNote_eq (tokenFetch_setCpu hseq hjmp hea hcpu) (by rintro rfl; contradiction),
      returnSet_sh hread]
    exact .refl h c.sh
  · exact spares_readFormat hne hread

/-- A pass on another stream. -/
theorem spares_readStep (hne : other ≠ streamId) (hread : c.readStep = .ok (action, d)) :
    Spares streamId h (h.readNote other c) c.sh d.sh := by
  unfold readStep at hread
  unfold History.readNote
  split_ifs at hread ⊢ with hleft hdumping
  · exact spares_returnInstrOld hne hread (fun _ => rfl) ((Beside.refl c).instrLeft (· - 1)) rfl
  · rw [readDump_sh hread]
    exact .refl h c.sh
  · cases hfile : c.ast.fp with
    | nil =>
        rw [hfile] at hread
        cases hread
        exact .refl h c.sh
    | cons token fp =>
        rw [hfile] at hread
        exact spares_readToken hne hread

end Ctx

end AsimFeeder.Atf
