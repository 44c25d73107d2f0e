/-
Reading what a writer wrote, one token at a time.

`Reads` takes bytes off the file and returns records, whatever follows on the file.  Between
two tokens a reader `Follows` the writer: it has the same variables and page table entries,
made the same last translations, and has the same opcodes in its cache.  The effective
addresses in the cache are the same for loads and stores only, since no other instruction
is written with one; and the last difference of two effective addresses is the same once
one was written.
-/
import AsimFeeder.Atf.WriteRecords
import AsimFeeder.Atf.WriteRetry

namespace AsimFeeder.Atf

namespace Ctx

variable {c d e w r : Ctx} {rs rs' : List Record} {bytes bytes' : List Byte} {moved : Bool}
  {n m k : Nat}

/-! ### Passes -/

/-- Passes of the reader that return these records. -/
inductive Passes : Ctx → List Record → Ctx → Prop
  | done (c : Ctx) : Passes c [] c
  | skip {c d e : Ctx} {rs : List Record} (hstep : c.readStep = .ok (none, d))
      (hrest : Passes d rs e) : Passes c rs e
  | action {c d e : Ctx} {rs : List Record} {a : AtfAction}
      (hstep : c.readStep = .ok (some a, d)) (hrest : Passes d rs e) :
      Passes c (Record.ofAction d.ast.cpuPtr a :: rs) e

theorem Passes.trans (h : Passes c rs d) (h' : Passes d rs' e) : Passes c (rs ++ rs') e := by
  induction h with
  | done c => exact h'
  | skip hstep _ ih => exact .skip hstep (ih h')
  | action hstep _ ih => exact .action hstep (ih h')

/-- The same state with this on the file, and so many instructions left to return. -/
def fed (c : Ctx) (fp : List Byte) (left : Nat) : Ctx :=
  { c with ast := { c.ast with fp, instrLeft := left } }

/-- These bytes are read, and these records returned, whatever follows on the file.  There are
`n` instructions left to return before, and `m` after. -/
def Reads (c : Ctx) (n : Nat) (bytes : List Byte) (rs : List Record) (d : Ctx) (m : Nat) : Prop :=
  ∀ fp, Passes (c.fed (bytes ++ fp) n) rs (d.fed fp m)

theorem Reads.refl (c : Ctx) (n : Nat) : c.Reads n [] [] c n :=
  fun fp => .done (c.fed fp n)

theorem Reads.trans (h : c.Reads n bytes rs d m) (h' : d.Reads m bytes' rs' e k) :
    c.Reads n (bytes ++ bytes') (rs ++ rs') e k := by
  intro fp
  rw [List.append_assoc]
  exact (h (bytes' ++ fp)).trans (h' fp)

theorem Reads.skip (h : ∀ fp, (c.fed (bytes ++ fp) n).readStep = .ok (none, d.fed fp m)) :
    c.Reads n bytes [] d m :=
  fun fp => .skip (h fp) (.done _)

theorem Reads.action {a : AtfAction}
    (h : ∀ fp, (c.fed (bytes ++ fp) n).readStep = .ok (some a, d.fed fp m)) :
    c.Reads n bytes [Record.ofAction d.ast.cpuPtr a] d m :=
  fun fp => Passes.action (d := d.fed fp m) (h fp) (.done _)

/-! ### Passes are what calls of the reader make -/

theorem readLoop_stable {n m : Nat} (hn : c.unread < n) (hm : c.unread < m) :
    readLoop n c = readLoop m c := by
  induction n generalizing c m with
  | zero => exact absurd hn (Nat.not_lt_zero _)
  | succ n ih =>
      obtain ⟨m, rfl⟩ := Nat.exists_eq_succ_of_ne_zero (Nat.ne_zero_of_lt hm)
      have hadvances := c.advances_readStep
      rw [readLoop, readLoop]
      rcases hstep : c.readStep with _ | ⟨_ | a, d⟩
      · simp only [bind, Except.bind]
      · rw [hstep] at hadvances
        exact ih (lt_of_lt_of_le hadvances (Nat.le_of_lt_succ hn))
          (lt_of_lt_of_le hadvances (Nat.le_of_lt_succ hm))
      · simp only [bind, Except.bind]

theorem atfReadAction_skip (h : c.readStep = .ok (none, d)) :
    atfReadAction c = atfReadAction d := by
  have hadvances := c.advances_readStep
  rw [h] at hadvances
  unfold atfReadAction
  rw [readLoop, h]
  exact readLoop_stable hadvances (Nat.lt_succ_self _)

theorem atfReadAction_action {a : AtfAction} (h : c.readStep = .ok (some a, d)) :
    atfReadAction c = .ok (a, d) := by
  unfold atfReadAction
  rw [readLoop, h]
  rfl

/-- The records of so many calls of the reader. -/
def readRecords : Nat → Ctx → Except Fault (List Record × Ctx)
  | 0, c => .ok ([], c)
  | n + 1, c => do
      let (a, d) ← atfReadAction c
      let (rs, e) ← readRecords n d
      .ok (Record.ofAction d.ast.cpuPtr a :: rs, e)

/-- **Calls of the reader** return the records of its passes, and then the end of the file. -/
theorem Passes.readRecords (h : Passes c rs d) (hfp : d.ast.fp = []) (hleft : d.ast.instrLeft = 0)
    (hdumping : d.ast.isDumping = false) :
    c.readRecords (rs.length + 1) = .ok (rs ++ [.action .eof], d) := by
  induction h with
  | done c =>
      have hstep : c.readStep = .ok (some .eof, c) := by
        simp [readStep, hfp, hleft, hdumping]
      rw [Ctx.readRecords, atfReadAction_action hstep]
      rfl
  | skip hstep _ ih =>
      rw [Ctx.readRecords, atfReadAction_skip hstep]
      exact ih hfp hleft hdumping
  | action hstep _ ih =>
      rw [Ctx.readRecords, atfReadAction_action hstep]
      simp only [bind, Except.bind, List.length_cons]
      rw [ih hfp hleft hdumping]
      rfl

/-! ### One token -/

@[simp] theorem get_fed {α : Type} (c : Ctx) (fp : List Byte) (n : Nat)
    (f : List Byte → α × List Byte) : (c.fed fp n).get f = ((f fp).1, c.fed (f fp).2 n) := rfl

theorem readStep_left (c : Ctx) (fp : List Byte) (n : Nat) :
    (c.fed fp (n + 1)).readStep = (c.fed fp n).returnInstrOld .keep := by
  simp [readStep, fed, onAst]

theorem readStep_token (hdumping : c.ast.isDumping = false) (token : Byte) (fp : List Byte) :
    (c.fed (token :: fp) 0).readStep = (c.fed fp 0).readToken token := by
  simp [readStep, fed, setFp, hdumping]

theorem readToken_format (c : Ctx) {token : Byte} (htoken : 0xe0 ≤ token) :
    c.readToken token = c.readFormat token := by
  have hclass : ∀ t : Byte, 0xe0 ≤ t → t &&& 0xe0 = 0xe0 ∧ t &&& 0xc0 = 0xc0 ∧
      t &&& 0xf0 ≠ 0xd0 := by decide
  obtain ⟨hformat, hhigh, hcpu⟩ := hclass token htoken
  rw [readToken, hformat, hhigh, if_neg (by decide), if_neg (by decide), if_neg (by decide),
    if_neg hcpu, if_pos rfl]

theorem readStep_format (hdumping : c.ast.isDumping = false) {token : Byte} (htoken : 0xe0 ≤ token)
    (fp : List Byte) : (c.fed (token :: fp) 0).readStep = (c.fed fp 0).readFormat token := by
  rw [readStep_token hdumping, readToken_format _ htoken]

theorem readStep_dump (hdumping : c.ast.isDumping = true) (fp : List Byte) :
    (c.fed fp 0).readStep = (c.fed fp 0).readDump := by
  simp [readStep, fed, hdumping]

theorem getString_stringBytes (c : Ctx) (s : CString) (fp : List Byte) (n : Nat) :
    (c.fed (stringBytes s ++ fp) n).getString = .ok (s.chars, c.fed fp n) := by
  have hsize : (BitVec.ofNat 32 s.chars.length).toNat = s.chars.length := by
    rw [BitVec.toNat_ofNat]
    exact Nat.mod_eq_of_lt (by have := s.fits; omega)
  have hchars : s.chars.takeWhile (· ≠ 0) = s.chars :=
    List.takeWhile_eq_self_iff.mpr fun b hb => by simpa using s.noNul b hb
  have hget : atfGetString (stringBytes s ++ fp) = .ok (s.chars, fp) := by
    unfold atfGetString stringBytes
    rw [List.append_assoc, getLw_lwBytes]
    simp only [hsize, s.fits, if_true, List.take_left, List.drop_left]
    rw [hchars]
  have hfp : (c.fed (stringBytes s ++ fp) n).ast.fp = stringBytes s ++ fp := rfl
  unfold getString
  rw [hfp, hget]
  rfl

/-! ### The file does not matter for an instruction -/

theorem atfTlbFindValid_fed (c : Ctx) (fp : List Byte) (n : Nat) (va : Address) (asn : U64) :
    (c.fed fp n).ast.atfTlbFindValid va asn =
      ((c.ast.atfTlbFindValid va asn).1,
        { (c.ast.atfTlbFindValid va asn).2 with fp, instrLeft := n }) := by
  have hmatch : (c.fed fp n).ast.tlbMatch va asn = c.ast.tlbMatch va asn := rfl
  unfold AtfStream.atfTlbFindValid AtfStream.atfTlbFind
  rw [hmatch]
  cases c.ast.tlbMatch va asn with
  | none => rfl
  | some ent => rfl

theorem tlbWalk_fed (c : Ctx) (fp : List Byte) (n : Nat) (va : Address) (isIstream : Bool) :
    (c.fed fp n).ast.tlbWalk va isIstream =
      ((c.ast.tlbWalk va isIstream).1,
        { (c.ast.tlbWalk va isIstream).2 with fp, instrLeft := n }) := by
  have hfind := c.atfTlbFindValid_fed fp n (pageAddrPage va) (c.ast.cur.localVar .avlASN)
  have hcur : (c.fed fp n).ast.cur = c.ast.cur := rfl
  unfold AtfStream.tlbWalk AtfStream.isAddrDirect AtfStream.isAddrSpEv5 AtfStream.isAddrSpEv6
    AtfStream.isAddrKsegEv5 AtfStream.isAddrKsegEv6 AtfStream.isAddrAsm AtfStream.suppag
  rw [hcur]
  dsimp only
  rw [hfind]
  generalize c.ast.atfTlbFindValid (pageAddrPage va) (c.ast.cur.localVar .avlASN) = found
  obtain ⟨ent, ast⟩ := found
  split_ifs
  all_goals try rfl
  cases ent with
  | none => rfl
  | some ent => rfl

theorem atfTlbTranslate_fed (c : Ctx) (fp : List Byte) (n : Nat) (va : Address)
    (isIstream : Bool) : (c.fed fp n).atfTlbTranslate va isIstream =
      ((c.atfTlbTranslate va isIstream).1, (c.atfTlbTranslate va isIstream).2.fed fp n) := by
  have hwalk := c.tlbWalk_fed fp n va isIstream
  have hsh : (c.fed fp n).sh = c.sh ∧ (c.fed fp n).cpunum = c.cpunum ∧
      (c.fed fp n).asn = c.asn := ⟨rfl, rfl, rfl⟩
  unfold atfTlbTranslate
  rw [hwalk, hsh.1, hsh.2.1, hsh.2.2]
  dsimp only
  split_ifs <;> rfl

theorem cachePlace_fed (c : Ctx) (fp : List Byte) (n : Nat) :
    (c.fed fp n).cachePlace = c.cachePlace.map fun (place, d) => (place, d.fed fp n) := by
  have htranslate : (c.fed fp n).atfTlbTranslate (c.fed fp n).vpc true =
      ((c.atfTlbTranslate c.vpc true).1, (c.atfTlbTranslate c.vpc true).2.fed fp n) :=
    c.atfTlbTranslate_fed fp n c.vpc true
  rw [cachePlace_eq, cachePlace_eq, place, place, htranslate]
  split_ifs <;> rfl

theorem returnInstrOld_fed (c : Ctx) (fp : List Byte) (n : Nat) (set : SetVea) :
    (c.fed fp n).returnInstrOld set =
      (c.returnInstrOld set).map fun (a, d) => (a, d.fed fp n) := by
  unfold returnInstrOld atfCacheLookup
  rw [cachePlace_fed]
  rcases c.cachePlace with _ | ⟨place, d⟩
  · rfl
  · rfl

theorem returnInstrNew_fed (c : Ctx) (fp : List Byte) (n : Nat) (opcode : Opcode)
    (vea : Address) : (c.fed fp n).returnInstrNew opcode vea =
      (c.returnInstrNew opcode vea).map fun (a, d) => (a, d.fed fp n) := by
  unfold returnInstrNew atfCacheOpcode
  rw [cachePlace_fed]
  rcases c.cachePlace with _ | ⟨place, d⟩
  · rfl
  · rfl

/-! ### The writer's state but for its file -/

/-- The same state, but for the file, the instructions counted and the recent entries. -/
structure Alike (c d : Ctx) : Prop where
  agrees : c.ast.Agrees d.ast
  isDumping : c.ast.isDumping = d.ast.isDumping
  sh : c.sh = d.sh

namespace Alike

theorem refl (c : Ctx) : c.Alike c :=
  ⟨.refl _, rfl, rfl⟩

theorem trans (h : c.Alike d) (h' : d.Alike e) : c.Alike e :=
  ⟨h.agrees.trans h'.agrees, h.isDumping.trans h'.isDumping, h.sh.trans h'.sh⟩

theorem emit (c : Ctx) (bytes : List Byte) : (c.emit bytes).Alike c :=
  ⟨⟨rfl, rfl, fun _ => ⟨rfl, rfl, rfl⟩⟩, rfl, rfl⟩

theorem setLeft (c : Ctx) (n : Nat) :
    (c.onAst fun ast => { ast with instrLeft := n }).Alike c :=
  ⟨⟨rfl, rfl, fun _ => ⟨rfl, rfl, rfl⟩⟩, rfl, rfl⟩

theorem emitSkip (c : Ctx) : c.emitSkip.Alike c := by
  unfold Ctx.emitSkip
  split
  · exact (setLeft _ 0).trans (emit c _)
  · exact refl c

theorem emitToken (c : Ctx) (token : Byte) (bytes : List Byte) :
    ((c.emitToken token).emit bytes).Alike c :=
  (emit _ bytes).trans ((emit _ [token]).trans (emitSkip c))

theorem of_touched (h : c.ast.Touched d.ast) (hsh : d.sh = c.sh) : d.Alike c := by
  refine ⟨.of_touched h, ?_, hsh⟩
  rcases h with heq | ⟨ent, heq⟩
  · rw [heq]
  · rw [heq]
    rfl

end Alike

end Ctx

/-! ### Setting a variable -/

/-- What setting a variable leaves alone, and that the file does not matter for it. -/
structure AtfStream.SetsVariable (varnum : AtfVariable) (value : U64) (a b : AtfStream) :
    Prop where
  fp : b.fp = a.fp
  instrLeft : b.instrLeft = a.instrLeft
  isDumping : b.isDumping = a.isDumping
  limitCpuPtr : b.limitCpuPtr = a.limitCpuPtr
  cpu : a.globalVar .avgCPU = BitVec.ofNat 64 a.cpuPtr.val →
    b.globalVar .avgCPU = BitVec.ofNat 64 b.cpuPtr.val
  fed : ∀ fp n, { a with fp, instrLeft := n }.atfSetVariable varnum value =
    .ok { b with fp, instrLeft := n }

theorem AtfStream.setsVariable_of_ok {a b : AtfStream} {varnum : AtfVariable} {value : U64}
    (hset : a.atfSetVariable varnum value = .ok b) : SetsVariable varnum value a b := by
  unfold atfSetVariable at hset
  split_ifs at hset with hlocal hcpu hlt
  · obtain rfl := Except.ok.inj hset
    refine ⟨rfl, rfl, rfl, rfl, fun h => h, fun fp n => ?_⟩
    rw [atfSetVariable, if_pos hlocal]
    rfl
  · obtain rfl := Except.ok.inj hset
    subst hcpu
    refine ⟨rfl, rfl, rfl, rfl, fun _ => ?_, fun fp n => ?_⟩
    · show Function.update a.globalVar .avgCPU value .avgCPU = BitVec.ofNat 64 value.toNat
      rw [Function.update_self, BitVec.ofNat_toNat, BitVec.setWidth_eq]
    · rw [atfSetVariable, if_neg hlocal, if_pos rfl, dif_pos hlt]
  · obtain rfl := Except.ok.inj hset
    refine ⟨rfl, rfl, rfl, rfl, fun h => ?_, fun fp n => ?_⟩
    · exact (Function.update_of_ne (Ne.symm hcpu) _ _).trans h
    · rw [atfSetVariable, if_neg hlocal, if_neg hcpu]

namespace Ctx

variable {c d e w r : Ctx} {rs rs' : List Record} {bytes bytes' : List Byte} {moved : Bool}
  {n m k : Nat}

/-! ### Following the writer -/

theorem atfTlbTranslate_writeEaDelta (c : Ctx) (va : Address) (isIstream : Bool) :
    (c.atfTlbTranslate va isIstream).2.sh.writeEaDelta = c.sh.writeEaDelta := by
  unfold atfTlbTranslate
  dsimp only
  split_ifs <;> rfl

/-- What a reader has cached will do for what the writer has. -/
structure SameInstr (a b : AtfInstrEntry) : Prop where
  opcode : a.opcode = b.opcode
  ea : isLoadStore a.opcode = true → a.ea = b.ea

/-- The reader `r` has read all that the writer `w` did.  When a difference of effective
addresses was written, `moved`, both have the same. -/
structure Follows (moved : Bool) (w r : Ctx) : Prop where
  agrees : w.ast.Agrees r.ast
  cpu : w.cpunum = BitVec.ofNat 64 w.ast.cpuPtr.val
  limit : r.ast.limitCpuPtr = none
  dumping : w.ast.isDumping = r.ast.isDumping
  last : w.sh.last = r.sh.last
  last2 : w.sh.last2 = r.sh.last2
  instr : ∀ place, SameInstr (w.sh.atfInstructions place) (r.sh.atfInstructions place)
  delta : if moved then w.sh.writeEaDelta = r.sh.readEaDelta else w.sh.writeEaDelta = ~~~0

namespace Follows

theorem alike (h : Follows moved w r) (hw : c.Alike w) : Follows moved c r where
  agrees := hw.agrees.trans h.agrees
  cpu := by
    rw [cpunum_eq hw.agrees, hw.agrees.cpuPtr]
    exact h.cpu
  limit := h.limit
  dumping := hw.isDumping.trans h.dumping
  last := hw.sh ▸ h.last
  last2 := hw.sh ▸ h.last2
  instr := hw.sh ▸ h.instr
  delta := hw.sh ▸ h.delta

/-- The file of the reader does not matter. -/
theorem fed (h : Follows moved w r) (fp : List Byte) (n : Nat) : Follows moved w (r.fed fp n) :=
  ⟨⟨h.agrees.cpuPtr, h.agrees.globalVar, h.agrees.cpu⟩, h.cpu, h.limit, h.dumping, h.last, h.last2,
    h.instr, h.delta⟩

theorem returnOrContinue (h : Follows moved w r) (action : AtfAction) :
    r.returnOrContinue action = (some action, r) := by
  unfold Ctx.returnOrContinue
  rw [if_pos (.inl h.limit)]

theorem atfSetPc (h : Follows moved w r) (pc : Address) (isRelative : Bool) :
    Follows moved (w.onAst (·.atfSetPc pc isRelative)) (r.onAst (·.atfSetPc pc isRelative)) := by
  have hagrees := h.agrees.atfSetPc pc isRelative
  cases isRelative
  · exact ⟨hagrees, h.cpu, h.limit, h.dumping, h.last, h.last2, h.instr, h.delta⟩
  · exact ⟨hagrees, h.cpu, h.limit, h.dumping, h.last, h.last2, h.instr, h.delta⟩

theorem setInstr (h : Follows moved w r) (place : Address) {a b : AtfInstrEntry}
    (hab : SameInstr a b) : Follows moved (w.setInstr place a) (r.setInstr place b) where
  agrees := h.agrees
  cpu := h.cpu
  limit := h.limit
  dumping := h.dumping
  last := h.last
  last2 := h.last2
  instr := by
    intro p
    show SameInstr (Function.update w.sh.atfInstructions place a p)
      (Function.update r.sh.atfInstructions place b p)
    by_cases hp : p = place
    · subst hp
      rw [Function.update_self, Function.update_self]
      exact hab
    · rw [Function.update_of_ne hp, Function.update_of_ne hp]
      exact h.instr p
  delta := h.delta

/-- Both translate alike. -/
theorem translate_fst (h : Follows moved w r) (va : Address) (isIstream : Bool) :
    (w.atfTlbTranslate va isIstream).1 = (r.atfTlbTranslate va isIstream).1 :=
  atfTlbTranslate_fst_eq h.agrees h.last h.last2 va isIstream

/-- Both are left with the same last translations. -/
theorem translate_last (h : Follows moved w r) (va : Address) (isIstream : Bool) :
    (w.atfTlbTranslate va isIstream).2.sh.last = (r.atfTlbTranslate va isIstream).2.sh.last ∧
      (w.atfTlbTranslate va isIstream).2.sh.last2 =
        (r.atfTlbTranslate va isIstream).2.sh.last2 := by
  have hwalk := h.agrees.tlbWalk_fst va isIstream
  unfold atfTlbTranslate
  dsimp only
  rw [cpunum_eq h.agrees, asn_eq h.agrees, h.last, h.last2]
  split_ifs
  · exact ⟨h.last, h.last2⟩
  · exact ⟨h.last, h.last2⟩
  · have hmade := congrArg
      (fun p => (⟨r.cpunum, pageAddrPage va, r.asn, p.1, p.2.1⟩ : LastPage)) hwalk
    exact ⟨hmade, rfl⟩

theorem translate (h : Follows moved w r) (va : Address) (isIstream : Bool) :
    Follows moved (w.atfTlbTranslate va isIstream).2 (r.atfTlbTranslate va isIstream).2 := by
  have hw := AtfStream.InStep.of_touched (w.atfTlbTranslate_touched va isIstream)
  have hr := AtfStream.InStep.of_touched (r.atfTlbTranslate_touched va isIstream)
  obtain ⟨hlast, hlast2⟩ := h.translate_last va isIstream
  refine ⟨hw.toAgrees.trans (h.agrees.trans hr.toAgrees.symm), ?_, hr.limitCpuPtr.trans h.limit,
    hw.isDumping.trans (h.dumping.trans hr.isDumping.symm), hlast, hlast2, ?_, ?_⟩
  · rw [cpunum_eq hw.toAgrees, hw.cpuPtr]
    exact h.cpu
  · rw [atfTlbTranslate_atfInstructions, atfTlbTranslate_atfInstructions]
    exact h.instr
  · rw [atfTlbTranslate_writeEaDelta, atfTlbTranslate_readEaDelta]
    exact h.delta

theorem vpc (h : Follows moved w r) : w.vpc = r.vpc :=
  vpc_eq h.agrees

/-- The instruction at the pc is at the same place for both. -/
theorem cachePlace (h : Follows moved w r) {place : Address} (hw : w.cachePlace = .ok (place, d)) :
    ∃ e, r.cachePlace = .ok (place, e) ∧ Follows moved d e := by
  have hplace : w.place = r.place := by
    unfold Ctx.place
    rw [h.translate_fst, h.vpc]
  rw [cachePlace_eq] at hw
  rw [cachePlace_eq, ← hplace]
  split_ifs at hw with htable
  obtain ⟨rfl, rfl⟩ := Prod.mk.inj (Except.ok.inj hw)
  refine ⟨_, if_pos htable, ?_⟩
  rw [← h.vpc]
  exact h.translate w.vpc true

theorem setEaDelta (h : Follows moved w r) (delta : U64) :
    Follows true (w.setWriteEaDelta delta) (r.setEaDelta delta) :=
  ⟨h.agrees, h.cpu, h.limit, h.dumping, h.last, h.last2, h.instr, rfl⟩

theorem setDumping (h : Follows moved w r) (isDumping : Bool) :
    Follows moved (w.onAst fun ast => { ast with isDumping })
      (r.onAst fun ast => { ast with isDumping }) :=
  ⟨⟨h.agrees.cpuPtr, h.agrees.globalVar, h.agrees.cpu⟩, h.cpu, h.limit, rfl, h.last, h.last2,
    h.instr, h.delta⟩

/-- **A variable** is set to the same value. -/
theorem atfSetVariable (h : Follows moved w r) {varnum : AtfVariable} {value : U64}
    {ast : AtfStream} (hset : w.ast.atfSetVariable varnum value = .ok ast) :
    ∃ e, (∀ fp n, (r.fed fp n).returnSet varnum value =
        .ok (some (.set varnum value), e.fed fp n)) ∧ Follows moved { w with ast } e := by
  have hagrees := h.agrees.atfSetVariable varnum value
  rw [hset] at hagrees
  rcases hr : r.ast.atfSetVariable varnum value with _ | ast'
  · rw [hr] at hagrees
    exact absurd hagrees id
  · rw [hr] at hagrees
    have hw := AtfStream.setsVariable_of_ok hset
    have hr' := AtfStream.setsVariable_of_ok hr
    refine ⟨{ r with ast := ast' }, ?_, ?_⟩
    · intro fp n
      unfold returnSet
      have hfed : (r.fed fp n).ast.atfSetVariable varnum value =
          .ok { ast' with fp, instrLeft := n } := hr'.fed fp n
      rw [hfed]
      rfl
    · exact ⟨hagrees, hw.cpu h.cpu, hr'.limitCpuPtr.trans h.limit,
        hw.isDumping.trans (h.dumping.trans hr'.isDumping.symm), h.last, h.last2, h.instr, h.delta⟩

/-- **A page table entry** is filled in the same place. -/
theorem atfTlbFillEntry (h : Follows moved w r) (va : Address) (pte : U64) (ent : Fin tlbAssoc) :
    Follows moved (w.atfTlbFillEntry va pte ent) (r.atfTlbFillEntry va pte ent) := by
  have hagrees := atfTlbFillEntry_agrees h.agrees va pte ent
  have hlast : (w.atfTlbFillEntry va pte ent).sh.last = (r.atfTlbFillEntry va pte ent).sh.last ∧
      (w.atfTlbFillEntry va pte ent).sh.last2 = (r.atfTlbFillEntry va pte ent).sh.last2 := by
    unfold Ctx.atfTlbFillEntry
    dsimp only
    rw [cpunum_eq h.agrees, asn_eq h.agrees, h.last, h.last2]
    split_ifs
    · exact ⟨rfl, rfl⟩
    · exact ⟨rfl, rfl⟩
    · exact ⟨h.last, h.last2⟩
  have hkeeps (c : Ctx) : (c.atfTlbFillEntry va pte ent).sh.atfInstructions = c.sh.atfInstructions ∧
      (c.atfTlbFillEntry va pte ent).sh.writeEaDelta = c.sh.writeEaDelta ∧
      (c.atfTlbFillEntry va pte ent).sh.readEaDelta = c.sh.readEaDelta := by
    unfold Ctx.atfTlbFillEntry
    dsimp only
    split_ifs
    · exact ⟨rfl, rfl, rfl⟩
    · exact ⟨rfl, rfl, rfl⟩
    · exact ⟨rfl, rfl, rfl⟩
  refine ⟨hagrees, h.cpu, h.limit, h.dumping, hlast.1, hlast.2, ?_, ?_⟩
  · rw [(hkeeps w).1, (hkeeps r).1]
    exact h.instr
  · rw [(hkeeps w).2.1, (hkeeps r).2.2]
    exact h.delta

end Follows

/-! ### Instructions -/

variable {place : Address} {opcode : Opcode} {vea : Address}

/-- The state when the instruction at `place` is executed. -/
def stepped (c : Ctx) (place : Address) (opcode : Opcode) (vea : Address) : Ctx :=
  (c.setInstr place ⟨vea, opcode⟩).onAst (·.atfSetPc 4 true)

/-- The reader's call for an instruction returned what the writer executed. -/
def Executes (moved : Bool) (w : Ctx) (opcode : Opcode) (vea : Address) (w' : Ctx)
    (call : Except Fault (Option AtfAction × Ctx)) : Prop :=
  ∃ a e, call = .ok (some a, e) ∧
    Record.ofAction e.ast.cpuPtr a = .executed w.ast.cpuPtr w.vpc opcode vea ∧ Follows moved w' e

namespace Follows

/-- Both are on the same CPU, at the same pc. -/
theorem executed (h : Follows moved w r) (hplace : w.cachePlace = .ok (place, d))
    (hd : Follows moved d e) {vea' : Address} (hvea : isLoadStore opcode = true → vea = vea') :
    Record.executed e.ast.cpuPtr r.vpc opcode vea' =
      Record.executed w.ast.cpuPtr w.vpc opcode vea := by
  have hcpu : e.ast.cpuPtr = w.ast.cpuPtr := by
    rw [← hd.agrees.cpuPtr]
    rw [cachePlace_eq] at hplace
    split_ifs at hplace
    obtain ⟨-, rfl⟩ := Prod.mk.inj (Except.ok.inj hplace)
    exact (w.agrees_atfTlbTranslate w.vpc true).cpuPtr
  rw [hcpu, h.vpc]
  unfold Record.executed
  by_cases hls : isLoadStore opcode = true
  · rw [if_pos hls, if_pos hls, hvea hls]
  · rw [if_neg hls, if_neg hls]

/-- **The opcode that was cached** is executed, when the effective address is found from the
one that was cached. -/
theorem returnInstrOld (h : Follows moved w r) (vea : Address)
    (hplace : w.cachePlace = .ok (place, d)) (set : SetVea)
    (hopcode : (d.sh.atfInstructions place).opcode = opcode)
    (hvea : isLoadStore opcode = true → set.apply (d.sh.atfInstructions place).ea = vea) :
    Executes moved w opcode vea (stepped d place opcode vea) (r.returnInstrOld set) := by
  obtain ⟨e, hr, hfollows⟩ := h.cachePlace hplace
  have hentry := hfollows.instr place
  have hopcode' : (e.sh.atfInstructions place).opcode = opcode := hentry.opcode.symm.trans hopcode
  have hea : isLoadStore opcode = true → vea = set.apply (e.sh.atfInstructions place).ea := by
    intro hls
    rw [← hvea hls, hentry.ea (by rwa [hopcode])]
  have hnext := (hfollows.setInstr place
    (a := ⟨vea, opcode⟩) (b := ⟨set.apply (e.sh.atfInstructions place).ea, opcode⟩)
    ⟨rfl, hea⟩).atfSetPc 4 true
  refine ⟨.instrOld r.vpc opcode (set.apply (e.sh.atfInstructions place).ea), _, ?_, ?_, hnext⟩
  · unfold Ctx.returnInstrOld atfCacheLookup
    rw [hr]
    show Except.ok (Ctx.returnOrContinue _ _) = _
    rw [hopcode', hnext.returnOrContinue]
  · exact h.executed hplace hfollows hea

/-- **A new opcode** is executed, with the effective address that comes with it. -/
theorem returnInstrNew (h : Follows moved w r) (hplace : w.cachePlace = .ok (place, d))
    (lastVea : Address) (hvea : isLoadStore opcode = true → vea = lastVea) :
    Executes moved w opcode vea (stepped d place opcode vea) (r.returnInstrNew opcode lastVea) := by
  obtain ⟨e, hr, hfollows⟩ := h.cachePlace hplace
  have hnext := (hfollows.setInstr place (a := ⟨vea, opcode⟩) (b := ⟨lastVea, opcode⟩)
    ⟨rfl, hvea⟩).atfSetPc 4 true
  refine ⟨.instrNew r.vpc opcode lastVea, _, ?_, ?_, hnext⟩
  · unfold Ctx.returnInstrNew atfCacheOpcode
    rw [hr]
    show Except.ok (Ctx.returnOrContinue _ _) = _
    rw [hnext.returnOrContinue]
  · exact h.executed hplace hfollows hvea

end Follows

end Ctx

end AsimFeeder.Atf
