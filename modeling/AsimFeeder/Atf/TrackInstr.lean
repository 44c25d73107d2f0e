/-
What a reader makes of an instruction.

A jump is read back as the same pc, whichever of its three forms is written.  An instruction
is read back from what is cached at its place: its opcode, and for a load or store the
effective address it had there.
-/
import AsimFeeder.Atf.TrackCalls

namespace AsimFeeder.Atf

/-! ### Short differences -/

/-- A short difference has six bits. -/
theorem deltatCodea_high (delta : U64) : deltatCodea delta &&& 0xc0 = 0 := by
  have hbits : ∀ b : Byte, ((b &&& 0x1f) ||| 0x20) &&& 0xc0 = 0 ∧ (b &&& 0x1f) &&& 0xc0 = 0 := by
    decide
  unfold deltatCodea
  split
  · rw [BitVec.setWidth_or, BitVec.setWidth_and]
    exact (hbits _).1
  · rw [BitVec.setWidth_and]
    exact (hbits _).2

/-- The token is told from its two high bits, and the difference from the others. -/
theorem short_token {b : Byte} (hb : b &&& 0xc0 = 0) :
    (0x00 ||| b) &&& 0xe0 ≠ 0x80 ∧ (0x00 ||| b) &&& 0xc0 = 0x00 ∧
      (0x40 ||| b) &&& 0xe0 ≠ 0x80 ∧ (0x40 ||| b) &&& 0xc0 = 0x40 ∧
      valueDeltat (0x00 ||| b) = valueDeltat b ∧ valueDeltat (0x40 ||| b) = valueDeltat b := by
  have hall : ∀ b : Byte, b &&& 0xc0 = 0 → (0x00 ||| b) &&& 0xe0 ≠ 0x80 ∧
      (0x00 ||| b) &&& 0xc0 = 0x00 ∧ (0x40 ||| b) &&& 0xe0 ≠ 0x80 ∧ (0x40 ||| b) &&& 0xc0 = 0x40 ∧
      (0x00 ||| b) &&& 0x1f = b &&& 0x1f ∧ (0x00 ||| b) &&& 0x20 = b &&& 0x20 ∧
      (0x40 ||| b) &&& 0x1f = b &&& 0x1f ∧ (0x40 ||| b) &&& 0x20 = b &&& 0x20 := by decide
  obtain ⟨hjump, hclass, hea, hclass', hfive, hsign, hfive', hsign'⟩ := hall b hb
  refine ⟨hjump, hclass, hea, hclass', ?_, ?_⟩
  · unfold valueDeltat
    rw [hfive, hsign]
  · unfold valueDeltat
    rw [hfive', hsign']

/-- A difference of words, as it is written and read. -/
theorem valueDeltat_words {words delta : U64} (hdelta : words <<< 2 = delta) (hne : delta ≠ 0)
    (hlow : -32 ≤ words.toInt) (hhigh : words.toInt ≤ 32) :
    valueDeltat (deltatCodea words) <<< 2 = delta := by
  rw [valueDeltat_deltatCodea hlow hhigh, hdelta]
  intro hzero
  rw [hzero] at hdelta
  exact hne (hdelta.symm.trans (BitVec.zero_shiftLeft 2))

/-- A difference in words, when its low bits are clear. -/
theorem sshiftRight_shiftLeft {delta : U64} (hclear : delta &&& 3 = 0) :
    delta.sshiftRight 2 <<< 2 = delta := by
  have hbit (i : Nat) (hi : i < 2) : delta.getLsbD i = false := by
    have h : (delta &&& 3#64).getLsbD i = false := by
      have hzero : delta &&& 3#64 = 0#64 := hclear
      rw [hzero, BitVec.getLsbD_zero]
    have hthree : ∀ i < 2, (3#64).getLsbD i = true := by decide
    rwa [BitVec.getLsbD_and, hthree i hi, Bool.and_true] at h
  apply BitVec.eq_of_getLsbD_eq
  intro i hi
  rw [BitVec.getLsbD_shiftLeft]
  by_cases hlow : i < 2
  · rw [hbit i hlow]
    simp [hlow]
  · have hsum : 2 + (i - 2) = i := by omega
    rw [BitVec.getLsbD_sshiftRight, hsum]
    simp [hi, hlow, show ¬ 64 ≤ i - 2 by omega]

/-- The difference of two addresses in words. -/
theorem words_shiftLeft {a b : U64} (hclear : (a - b) &&& 3 = 0) :
    ((a >>> 2) - (b >>> 2)) <<< 2 = a - b := by
  have hmod : (a - b).toNat % 4 = 0 := by
    have h := congrArg BitVec.toNat hclear
    rw [BitVec.toNat_and] at h
    exact (Nat.and_two_pow_sub_one_eq_mod _ 2).symm.trans h
  apply BitVec.eq_of_toNat_eq
  rw [BitVec.toNat_sub] at hmod ⊢
  rw [BitVec.toNat_shiftLeft, BitVec.toNat_sub, BitVec.toNat_ushiftRight, BitVec.toNat_ushiftRight,
    Nat.shiftLeft_eq, Nat.shiftRight_eq_div_pow, Nat.shiftRight_eq_div_pow]
  have ha := a.isLt
  have hb := b.isLt
  omega

namespace Ctx

variable {c d e w w' r start : Ctx} {rs rs' done pend : List Record} {bytes : List Byte}
  {moved moved' : Bool} {token : Byte} {n k : Nat} {vpc vea place : Address} {opcode : Opcode}

/-! ### Jumps -/

theorem fitsDelta3_bounds {delta : U64} (h : fitsDelta3 delta = true) :
    -2 ^ 23 ≤ delta.toInt ∧ delta.toInt < 2 ^ 23 := by
  unfold fitsDelta3 at h
  rw [Bool.and_eq_true, decide_eq_true_eq, decide_eq_true_eq] at h
  omega

theorem fitsDelta3_words {words delta : U64} (hdelta : words <<< 2 = delta)
    (hlow : -32 ≤ words.toInt) (hhigh : words.toInt ≤ 32) : fitsDelta3 delta = true := by
  have hint : delta.toInt = words.toInt * 4 := by
    subst hdelta
    rw [BitVec.toInt_shiftLeft, Nat.shiftLeft_eq, BitVec.toInt_eq_toNat_cond] at *
    have := words.isLt
    rw [Int.bmod_def]
    push_cast
    split_ifs at * <;> omega
  unfold fitsDelta3
  rw [Bool.and_eq_true, decide_eq_true_eq, decide_eq_true_eq, hint]
  omega
/-- The pc is moved to where it is set. -/
theorem atfSetPc_relative (ast : AtfStream) {delta : U64} (h : ast.cur.vpc + delta = vpc) :
    ast.atfSetPc delta true = ast.atfSetPc vpc false := by
  show ast.setCur (fun c => { c with vpc := c.vpc + delta }) = ast.setCur fun c => { c with vpc }
  unfold AtfStream.setCur
  dsimp only
  rw [h]

/-- A token that sets the pc. -/
theorem emits_pc (hw : w.ast.isDumping = false)
    (hread : ∀ r fp, Follows moved w r → (r.fed (bytes ++ fp) 0).readToken token =
      .ok (none, (r.fed fp 0).onAst (·.atfSetPc vpc false))) :
    Emits moved moved w (((w.onAst (·.atfSetPc vpc false)).emitToken token).emit bytes)
      (token :: bytes) [] := by
  rw [emitToken_emit]
  refine ⟨rfl, rfl, fun r hr => ⟨r.onAst (·.atfSetPc vpc false), .skip fun fp => ?_,
    (hr.atfSetPc vpc false).alike (.fed _ _ 0)⟩⟩
  rw [List.cons_append, readStep_token (hr.dumping ▸ hw), hread r fp hr]
  rfl

/-- **A jump** is read back as the same pc. -/
theorem emits_jump (moved : Bool) (hw : w.ast.isDumping = false) (hne : vpc - w.vpc ≠ 0) :
    ∃ bytes, Emits moved moved w
      ((w.onAst (·.atfSetPc vpc false)).writeJump vpc (vpc - w.vpc)) bytes [] := by
  have hpc (r : Ctx) (hr : Follows moved w r) : r.ast.cur.vpc + (vpc - w.vpc) = vpc := by
    have hvpc : r.ast.cur.vpc = w.vpc := hr.vpc.symm
    rw [hvpc, BitVec.add_comm, BitVec.sub_add_cancel]
  have hrelative (r : Ctx) (fp : List Byte) (hr : Follows moved w r) :
      (r.fed fp 0).onAst (·.atfSetPc (vpc - w.vpc) true) =
        (r.fed fp 0).onAst (·.atfSetPc vpc false) := by
    exact congrArg (fun ast => (⟨ast, r.sh⟩ : Ctx))
      (atfSetPc_relative (r.fed fp 0).ast (hpc r hr))
  unfold writeJump
  rw [if_neg hne]
  split_ifs with hshort hrel
  · obtain ⟨hlow, hhigh, hclear⟩ := hshort
    obtain ⟨hseq, hclass, -, -, hvalue, -⟩ :=
      short_token (deltatCodea_high ((vpc - w.vpc).sshiftRight 2))
    rw [← emit_nil (emitToken _ _)]
    refine ⟨_, emits_pc hw fun r fp hr => ?_⟩
    have hint : ((vpc - w.vpc).sshiftRight 2).toInt = (vpc - w.vpc).toInt / 4 := by
      rw [BitVec.toInt_sshiftRight]
      exact Int.shiftRight_eq_div_pow _ 2
    rw [readToken, if_neg hseq, if_pos hclass, hvalue,
      valueDeltat_words (sshiftRight_shiftLeft hclear) hne (by omega) (by omega)]
    exact congrArg (fun x => Except.ok (none, x)) (hrelative r fp hr)
  · obtain ⟨hlow, hhigh⟩ := fitsDelta3_bounds hrel
    refine ⟨_, emits_pc hw fun r fp hr => ?_⟩
    obtain ⟨datum, hget, hdatum⟩ := getDelta3_delta3Bytes hlow hhigh fp
    rw [readToken_format _ (by decide)]
    simp only [readFormat, get_fed, hget, hdatum]
    exact congrArg (fun x => Except.ok (none, x)) (hrelative r fp hr)
  · refine ⟨_, emits_pc hw fun r fp hr => ?_⟩
    rw [readToken_format _ (by decide)]
    simp only [readFormat, get_fed, getQw_qwBytes]
    rfl

/-- A jump that is none. -/
theorem follows_stay (hw : vpc - w.vpc = 0) (h : Follows moved w r) :
    Follows moved (w.onAst (·.atfSetPc vpc false)) r := by
  have hvpc : vpc = w.vpc := by grind
  refine h.alike ⟨⟨rfl, rfl, fun i => ?_⟩, rfl, rfl⟩
  show (Function.update w.ast.cpu w.ast.cpuPtr { w.ast.cur with vpc } i).Agrees (w.ast.cpu i)
  by_cases hi : i = w.ast.cpuPtr
  · subst hi
    rw [Function.update_self]
    exact ⟨hvpc, rfl, rfl⟩
  · rw [Function.update_of_ne hi]
    exact ⟨rfl, rfl, rfl⟩

/-! ### Execution -/

/-- A call that executes an instruction reads the bytes of its token. -/
theorem Executes.reads {call : Except Fault (Option AtfAction × Ctx)}
    (h : Executes moved w opcode vea w' call)
    (hstep : ∀ fp, (r.fed (bytes ++ fp) n).readStep = call.map fun (a, d) => (a, d.fed fp k)) :
    ∃ e, r.Reads n bytes [.executed w.ast.cpuPtr w.vpc opcode vea] e k ∧ Follows moved w' e := by
  obtain ⟨a, e, hcall, hrecord, hfollows⟩ := h
  refine ⟨e, ?_, hfollows⟩
  rw [← hrecord]
  refine .action fun fp => ?_
  rw [hstep fp, hcall]
  rfl

theorem cachePlace_keeps (h : w.cachePlace = .ok (place, d)) : d.ast.fp = w.ast.fp ∧
    d.ast.instrLeft = w.ast.instrLeft ∧ d.ast.isDumping = w.ast.isDumping ∧
    d.sh.writeEaDelta = w.sh.writeEaDelta := by
  rw [cachePlace_eq] at h
  split_ifs at h
  obtain ⟨-, rfl⟩ := Prod.mk.inj (Except.ok.inj h)
  have htouched := AtfStream.InStep.of_touched (w.atfTlbTranslate_touched w.vpc true)
  exact ⟨htouched.fp, htouched.instrLeft, htouched.isDumping,
    w.atfTlbTranslate_writeEaDelta w.vpc true⟩

/-- A token that executes an instruction. -/
theorem emits_executed {after : Ctx} (hw : w.ast.isDumping = false)
    (hend : w' = after.fed (w.ast.fp ++ skipBytes w.ast.instrLeft ++ token :: bytes) 0)
    (hread : ∀ r, Follows moved w r → ∃ call, Executes moved' w opcode vea after call ∧
      ∀ fp, (r.fed (bytes ++ fp) 0).readToken token = call.map fun (a, e) => (a, e.fed fp 0)) :
    Emits moved moved' w w' (token :: bytes) [.executed w.ast.cpuPtr w.vpc opcode vea] := by
  subst hend
  refine ⟨rfl, rfl, fun r hr => ?_⟩
  obtain ⟨call, hexec, htoken⟩ := hread r hr
  obtain ⟨e, hreads, hfollows⟩ := hexec.reads (r := r) (n := 0) (k := 0)
    fun fp => by
      rw [List.cons_append, readStep_token (hr.dumping ▸ hw)]
      exact htoken fp
  exact ⟨e, hreads, hfollows.alike (.fed after _ 0)⟩

/-- The writer's state after such a token. -/
theorem token_end (hplace : w.cachePlace = .ok (place, d)) (opcode : Opcode) (vea : Address)
    (token : Byte) (bytes : List Byte) :
    (((d.setInstr place ⟨vea, opcode⟩).emitToken token).emit bytes).onAst (·.atfSetPc 4 true) =
      (stepped d place opcode vea).fed
        (w.ast.fp ++ skipBytes w.ast.instrLeft ++ token :: bytes) 0 := by
  obtain ⟨hfp, hleft, -⟩ := cachePlace_keeps hplace
  rw [emitToken_emit, ← hfp, ← hleft]
  rfl

theorem token_end_delta (hplace : w.cachePlace = .ok (place, d)) (opcode : Opcode) (vea : Address)
    (token : Byte) (bytes : List Byte) (delta : U64) :
    ((((d.setInstr place ⟨vea, opcode⟩).emitToken token).emit bytes).setWriteEaDelta delta).onAst
        (·.atfSetPc 4 true) =
      (stepped (d.setWriteEaDelta delta) place opcode vea).fed
        (w.ast.fp ++ skipBytes w.ast.instrLeft ++ token :: bytes) 0 := by
  obtain ⟨hfp, hleft, -⟩ := cachePlace_keeps hplace
  rw [emitToken_emit, ← hfp, ← hleft]
  rfl

/-- The last difference does not matter for where an instruction is. -/
theorem cachePlace_setWriteEaDelta (hplace : w.cachePlace = .ok (place, d)) (delta : U64) :
    (w.setWriteEaDelta delta).cachePlace = .ok (place, d.setWriteEaDelta delta) := by
  have htranslate : (w.setWriteEaDelta delta).atfTlbTranslate (w.setWriteEaDelta delta).vpc true =
      ((w.atfTlbTranslate w.vpc true).1,
        (w.atfTlbTranslate w.vpc true).2.setWriteEaDelta delta) := by
    have hsame : (w.setWriteEaDelta delta).cpunum = w.cpunum ∧
        (w.setWriteEaDelta delta).asn = w.asn ∧ (w.setWriteEaDelta delta).vpc = w.vpc ∧
        (w.setWriteEaDelta delta).sh.last = w.sh.last ∧
        (w.setWriteEaDelta delta).sh.last2 = w.sh.last2 := ⟨rfl, rfl, rfl, rfl, rfl⟩
    unfold atfTlbTranslate
    rw [hsame.1, hsame.2.1, hsame.2.2.1, hsame.2.2.2.1, hsame.2.2.2.2]
    dsimp only
    split_ifs <;> rfl
  rw [cachePlace_eq, Ctx.place] at hplace
  rw [cachePlace_eq, Ctx.place, htranslate]
  split_ifs at hplace with htable
  obtain ⟨rfl, rfl⟩ := Prod.mk.inj (Except.ok.inj hplace)
  exact if_pos htable

/-- A word of 32 bits holds what has no higher bits. -/
theorem setWidth_of_high (h : vea &&& 0xffffffff00000000 = 0) :
    vea = (vea.setWidth 32).setWidth 64 := by
  have hones : ∀ i < 64, 32 ≤ i → (0xffffffff00000000#64).getLsbD i = true := by decide
  apply BitVec.eq_of_getLsbD_eq
  intro i hi
  rw [BitVec.getLsbD_setWidth, BitVec.getLsbD_setWidth]
  by_cases hlow : i < 32
  · simp [hi, hlow]
  · have hbit : (vea &&& 0xffffffff00000000#64).getLsbD i = false := by
      have hzero : vea &&& 0xffffffff00000000#64 = 0#64 := h
      rw [hzero, BitVec.getLsbD_zero]
    rw [BitVec.getLsbD_and, hones i hi (by omega), Bool.and_true] at hbit
    simp [hlow, hbit]

/-- **A new opcode** comes with its effective address. -/
theorem emits_new (moved : Bool) (vea : Address) (hw : w.ast.isDumping = false)
    (hplace : w.cachePlace = .ok (place, d))
    (hnew : (d.sh.atfInstructions place).opcode ≠ opcode) :
    ∃ bytes, Emits moved moved w
      (((d.setInstr place ⟨vea, opcode⟩).writeExec opcode vea (d.sh.atfInstructions place)).onAst
        (·.atfSetPc 4 true)) bytes [.executed w.ast.cpuPtr w.vpc opcode vea] := by
  unfold writeExec
  dsimp only
  rw [if_pos hnew]
  split_ifs with hls hlong
  · rw [emit_emit]
    refine ⟨_, emits_executed hw (token_end hplace ..) fun r hr =>
      ⟨_, hr.returnInstrNew hplace vea fun _ => rfl, fun fp => ?_⟩⟩
    rw [readToken_format _ (by decide), ← returnInstrNew_fed]
    simp only [readFormat, get_fed, List.append_assoc, getLw_lwBytes, getQw_qwBytes]
    rfl
  · rw [emit_emit]
    refine ⟨_, emits_executed hw (token_end hplace ..) fun r hr =>
      ⟨_, hr.returnInstrNew hplace ((vea.setWidth 32).setWidth 64)
        fun _ => setWidth_of_high (not_not.mp hlong), fun fp => ?_⟩⟩
    rw [readToken_format _ (by decide), ← returnInstrNew_fed]
    simp only [readFormat, get_fed, List.append_assoc, getLw_lwBytes]
    rfl
  · refine ⟨_, emits_executed hw (token_end hplace ..) fun r hr =>
      ⟨_, hr.returnInstrNew hplace 0 fun h => absurd h hls, fun fp => ?_⟩⟩
    rw [readToken_format _ (by decide), ← returnInstrNew_fed]
    simp only [readFormat, get_fed, getLw_lwBytes]
    rfl

/-- **An effective address that moved** is read back from the one that was cached. -/
theorem emits_moved (moved : Bool) (hw : w.ast.isDumping = false)
    (hplace : w.cachePlace = .ok (place, d))
    (hopcode : (d.sh.atfInstructions place).opcode = opcode) (hls : isLoadStore opcode = true)
    (hne : vea - (d.sh.atfInstructions place).ea ≠ 0)
    (hfirst : moved = false → vea - (d.sh.atfInstructions place).ea ≠ -1) :
    ∃ bytes, Emits moved (moved || fitsDelta3 (vea - (d.sh.atfInstructions place).ea)) w
      (((d.setInstr place ⟨vea, opcode⟩).writeExec opcode vea (d.sh.atfInstructions place)).onAst
        (·.atfSetPc 4 true)) bytes [.executed w.ast.cpuPtr w.vpc opcode vea] := by
  generalize hlast : d.sh.atfInstructions place = last at *
  have hvea : vea - last.ea + last.ea = vea := BitVec.sub_add_cancel _ _
  -- a difference that is written and kept
  have hkept (token : Byte) (bytes : List Byte) (hread : ∀ (r : Ctx) fp,
      (r.fed (bytes ++ fp) 0).readToken token = (r.fed fp 0).execEaRel (vea - last.ea)) :
      Emits moved true w
        (((((d.setInstr place ⟨vea, opcode⟩).emitToken token).emit bytes).setWriteEaDelta
          (vea - last.ea)).onAst (·.atfSetPc 4 true)) (token :: bytes)
        [.executed w.ast.cpuPtr w.vpc opcode vea] := by
    refine emits_executed hw (token_end_delta hplace ..) fun r hr => ?_
    have hold := (hr.setEaDelta (vea - last.ea)).returnInstrOld vea
      (cachePlace_setWriteEaDelta hplace _) (.relative (vea - last.ea))
      ((congrArg (·.opcode) hlast).trans hopcode)
      fun _ => (congrArg (fun x => vea - last.ea + x.ea) hlast).trans hvea
    refine ⟨_, hold, fun fp => ?_⟩
    rw [hread, ← returnInstrOld_fed]
    rfl
  unfold writeExec
  dsimp only
  rw [if_neg (not_not_intro hopcode), if_pos ⟨hls, hne⟩]
  split_ifs with hshort hsame hrel
  · obtain ⟨hclear, hlow, hhigh⟩ := hshort
    obtain ⟨-, -, hseq, hclass, -, hvalue⟩ :=
      short_token (deltatCodea_high ((vea >>> 2) - (last.ea >>> 2)))
    have hwords := words_shiftLeft hclear
    rw [fitsDelta3_words hwords (by omega) (by omega), Bool.or_true, ← emit_nil (emitToken _ _)]
    refine ⟨_, hkept _ [] fun r fp => ?_⟩
    rw [List.nil_append, readToken, if_neg hseq, hclass, if_neg (by decide), if_pos rfl, hvalue,
      valueDeltat_words hwords hne (by omega) (by omega)]
  · rw [← emit_nil (emitToken _ _)]
    have hwritten : vea - last.ea = w.sh.writeEaDelta :=
      hsame.trans (cachePlace_keeps hplace).2.2.2
    refine ⟨_, emits_executed hw (token_end hplace ..) fun r hr => ?_⟩
    have hdelta := hr.delta
    rw [← hwritten] at hdelta
    -- it is the first one only if it is -1
    have hmoved : moved = true := by
      by_contra hnot
      rw [Bool.not_eq_true] at hnot
      rw [hnot] at hdelta
      exact hfirst hnot hdelta
    subst hmoved
    have hread : vea - last.ea = r.sh.readEaDelta := hdelta
    refine ⟨_, hr.returnInstrOld vea hplace (.relative r.sh.readEaDelta)
      ((congrArg (·.opcode) hlast).trans hopcode) fun _ => ?_, fun fp => ?_⟩
    · rw [← hread]
      exact (congrArg (fun x => vea - last.ea + x.ea) hlast).trans hvea
    · rw [List.nil_append, readToken_format _ (by decide), ← returnInstrOld_fed]
      rfl
  · rw [hrel, Bool.or_true]
    obtain ⟨hlow, hhigh⟩ := fitsDelta3_bounds hrel
    refine ⟨_, hkept 0xe2 _ fun r fp => ?_⟩
    obtain ⟨datum, hget, hdatum⟩ := getDelta3_delta3Bytes hlow hhigh fp
    rw [readToken_format _ (by decide)]
    simp only [readFormat, get_fed, hget, hdatum]
    rfl
  · rw [Bool.eq_false_iff.mpr hrel, Bool.or_false]
    refine ⟨_, emits_executed hw (token_end hplace ..) fun r hr => ?_⟩
    refine ⟨_, hr.returnInstrOld vea hplace (.absolute vea)
      ((congrArg (·.opcode) hlast).trans hopcode)
      fun _ => rfl, fun fp => ?_⟩
    rw [readToken_format _ (by decide), ← returnInstrOld_fed]
    simp only [readFormat, get_fed, getQw_qwBytes]
    rfl

/-- **An instruction that is the same** as before is counted. -/
theorem counts_same (hplace : w.cachePlace = .ok (place, d))
    (hopcode : (d.sh.atfInstructions place).opcode = opcode)
    (hsame : isLoadStore opcode = true → vea - (d.sh.atfInstructions place).ea = 0) :
    Counts moved w
      (((d.setInstr place ⟨vea, opcode⟩).onAst fun ast =>
        { ast with instrLeft := ast.instrLeft + 1 }).onAst (·.atfSetPc 4 true))
      (.executed w.ast.cpuPtr w.vpc opcode vea) := by
  obtain ⟨hfp, hleft, -⟩ := cachePlace_keeps hplace
  refine ⟨hfp, congrArg (· + 1) hleft, rfl, fun r hr => ?_⟩
  have hold := hr.returnInstrOld vea hplace .keep hopcode fun hls => by
    have hzero := hsame hls
    show (d.sh.atfInstructions place).ea = vea
    grind
  obtain ⟨a, e, hcall, hrecord, hfollows⟩ := hold
  refine ⟨e, fun k => ?_, hfollows.alike (.fed (stepped d place opcode vea) _ _)⟩
  rw [← hrecord]
  refine .action fun fp => ?_
  rw [List.nil_append, readStep_left, returnInstrOld_fed, hcall]
  rfl

/-! ### Keeping track of an instruction -/

/-- The records so far are `rs`, the last of them counted. -/
structure Tracked (start w : Ctx) (moved : Bool) (rs : List Record) : Prop where
  tracks : ∃ done pend, rs = done ++ pend ∧ Tracks start w moved done pend
  bound : w.ast.instrLeft < 32
  quiet : w.ast.isDumping = true → w.ast.instrLeft = 0

namespace Tracked

theorem emits (h : Tracked start w moved rs) (he : Emits moved moved' w w' bytes rs') :
    Tracked start w' moved' (rs ++ rs') := by
  obtain ⟨done, pend, rfl, htracks⟩ := h.tracks
  refine ⟨⟨_, [], (List.append_nil _).symm, htracks.emits he⟩, ?_, fun _ => he.left⟩
  rw [he.left]
  decide

theorem same (h : Tracked start w moved rs) (hfp : w'.ast.fp = w.ast.fp)
    (hleft : w'.ast.instrLeft = w.ast.instrLeft) (hdumping : w'.ast.isDumping = w.ast.isDumping)
    (hfollows : ∀ r, Follows moved w r → Follows moved w' r) : Tracked start w' moved rs := by
  obtain ⟨done, pend, hrs, htracks⟩ := h.tracks
  refine ⟨⟨done, pend, hrs, htracks.same hfp hleft hfollows⟩, hleft ▸ h.bound, fun hd => ?_⟩
  rw [hleft]
  exact h.quiet (hdumping ▸ hd)

theorem alike (h : Tracked start w moved rs) (hw : w'.Alike w) (hfp : w'.ast.fp = w.ast.fp)
    (hleft : w'.ast.instrLeft = w.ast.instrLeft) : Tracked start w' moved rs :=
  h.same hfp hleft hw.isDumping fun _ hr => hr.alike hw

/-- One more instruction is counted; 32 of them are written. -/
theorem counts (h : Tracked start w moved rs) {c : Ctx} {x : Record}
    (hc : Counts moved w (c.onAst (·.atfSetPc 4 true)) x) (hw : w.ast.isDumping = false)
    (hdumping : c.ast.isDumping = false) :
    Tracked start ((if 0x1f < c.ast.instrLeft then c.emitSkip else c).onAst (·.atfSetPc 4 true))
      moved (rs ++ [x]) := by
  obtain ⟨done, pend, rfl, htracks⟩ := h.tracks
  have hcounted := htracks.counts hc hw h.bound
  have hleft : (c.onAst (·.atfSetPc 4 true)).ast.instrLeft = c.ast.instrLeft := rfl
  by_cases hfull : 0x1f < c.ast.instrLeft
  · rw [if_pos hfull]
    have hend : c.emitSkip.onAst (·.atfSetPc 4 true) = (c.onAst (·.atfSetPc 4 true)).emitSkip := by
      rw [emitSkip_eq, emitSkip_eq]
      rfl
    have hzero : (c.onAst (·.atfSetPc 4 true)).emitSkip.ast.instrLeft = 0 := by
      rw [emitSkip_eq]
      rfl
    rw [hend]
    refine ⟨⟨_, [], ?_, hcounted.emitSkip⟩, ?_, fun _ => hzero⟩
    · rw [List.append_nil, List.append_assoc]
    · rw [hzero]
      decide
  · rw [if_neg hfull]
    refine ⟨⟨done, pend ++ [x], List.append_assoc .., hcounted⟩, ?_, fun hd => ?_⟩
    · show c.ast.instrLeft < 32
      omega
    · exact absurd (hdumping.symm.trans hd) Bool.false_ne_true

/-- **An executed instruction** is the next record. -/
theorem executes (h : Tracked start w moved rs) (opcode : Opcode) (vea : Address)
    (hw : w.ast.isDumping = false)
    (hplace : w.cachePlace = .ok (place, d))
    (hfirst : moved = false → eaMoved (d.sh.atfInstructions place) opcode vea ≠ some (-1)) :
    Tracked start
      (((d.setInstr place ⟨vea, opcode⟩).writeExec opcode vea (d.sh.atfInstructions place)).onAst
        (·.atfSetPc 4 true))
      (moved || (eaMoved (d.sh.atfInstructions place) opcode vea).isSome)
      (rs ++ [.executed w.ast.cpuPtr w.vpc opcode vea]) := by
  by_cases hopcode : (d.sh.atfInstructions place).opcode = opcode
  · by_cases hmoves : isLoadStore opcode = true ∧ vea - (d.sh.atfInstructions place).ea ≠ 0
    · obtain ⟨hls, hne⟩ := hmoves
      have hmoved : eaMoved (d.sh.atfInstructions place) opcode vea =
          if fitsDelta3 (vea - (d.sh.atfInstructions place).ea) then
            some (vea - (d.sh.atfInstructions place).ea) else none := by
        simp only [eaMoved]
        by_cases hfits : fitsDelta3 (vea - (d.sh.atfInstructions place).ea) = true
        · rw [if_pos ⟨hopcode, hls, hne, hfits⟩, if_pos hfits]
        · rw [if_neg fun hall => hfits hall.2.2.2, if_neg hfits]
      have hsome : (eaMoved (d.sh.atfInstructions place) opcode vea).isSome =
          fitsDelta3 (vea - (d.sh.atfInstructions place).ea) := by
        rw [hmoved]
        by_cases hfits : fitsDelta3 (vea - (d.sh.atfInstructions place).ea) = true
        · rw [if_pos hfits, hfits]
          rfl
        · rw [if_neg hfits, Bool.eq_false_iff.mpr hfits]
          rfl
      obtain ⟨bytes, hemits⟩ := emits_moved moved hw hplace hopcode hls hne
        fun hnot hone => hfirst hnot (by
          rw [hmoved, hone, if_pos (by decide)])
      rw [hsome]
      exact h.emits hemits
    · have hnone : eaMoved (d.sh.atfInstructions place) opcode vea = none := by
        simp only [eaMoved]
        rw [if_neg fun hall => hmoves ⟨hall.2.1, hall.2.2.1⟩]
      have hdumping := (cachePlace_keeps hplace).2.2.1
      have hsame : isLoadStore opcode = true → vea - (d.sh.atfInstructions place).ea = 0 :=
        fun hls => by_contra fun hne => hmoves ⟨hls, hne⟩
      rw [hnone, Option.isSome_none, Bool.or_false]
      unfold writeExec
      dsimp only
      rw [if_neg (not_not_intro hopcode), if_neg hmoves]
      exact h.counts (counts_same hplace hopcode hsame) hw (hdumping.trans hw)
  · have hnone : eaMoved (d.sh.atfInstructions place) opcode vea = none := by
      simp only [eaMoved]
      rw [if_neg fun hall => hopcode hall.1]
    obtain ⟨bytes, hemits⟩ := emits_new moved vea hw hplace hopcode
    rw [hnone, Option.isSome_none, Bool.or_false]
    exact h.emits hemits

end Tracked

end Ctx

end AsimFeeder.Atf
