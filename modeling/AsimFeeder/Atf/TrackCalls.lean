/-
What a reader makes of each call of the writer.

The call of a variable, of a page table entry, of a command or of a cache dump writes bytes
that are read back as one record, or as none.  An instruction is written as a jump, when it
does not follow the one before, and then as a token of its own or as one more that is counted.
-/
import AsimFeeder.Atf.Tracking

namespace AsimFeeder.Atf

namespace Ctx

variable {c d e w w' r start : Ctx} {rs rs' done pend : List Record} {bytes : List Byte}
  {moved moved' : Bool} {token : Byte} {n k : Nat}

/-! ### Informational calls -/

/-- A token that changes nothing in the reader, and what it returns. -/
theorem emits_format {a : AtfAction} (hw : w.ast.isDumping = false) (hformat : 0xe0 ≤ token)
    (hread : ∀ r fp, Follows moved w r →
      (r.fed (bytes ++ fp) 0).readFormat token = .ok (some a, r.fed fp 0))
    (hrecord : ∀ cpu, Record.ofAction cpu a = .action a) :
    Emits moved moved w ((w.emitToken token).emit bytes) (token :: bytes) [.action a] := by
  rw [emitToken_emit]
  refine ⟨rfl, rfl, fun r hr => ⟨r, ?_, hr.alike (.fed w _ 0)⟩⟩
  rw [← hrecord r.ast.cpuPtr]
  refine .action fun fp => ?_
  rw [List.cons_append, readStep_format (hr.dumping ▸ hw) hformat]
  exact hread r fp hr

/-- A token that changes nothing in the reader, and is passed over. -/
theorem emits_format_none (hw : w.ast.isDumping = false) (hformat : 0xe0 ≤ token)
    (hread : ∀ (r : Ctx) fp, (r.fed (bytes ++ fp) 0).readFormat token = .ok (none, r.fed fp 0)) :
    Emits moved moved w ((w.emitToken token).emit bytes) (token :: bytes) [] := by
  rw [emitToken_emit]
  refine ⟨rfl, rfl, fun r hr => ⟨r, .skip fun fp => ?_, hr.alike (.fed w _ 0)⟩⟩
  rw [List.cons_append, readStep_format (hr.dumping ▸ hw) hformat]
  exact hread r fp

/-- A command is a token too. -/
theorem readFormat_command (r : Ctx) (command : Byte) (fp : List Byte) :
    (r.fed (command :: fp) 0).readFormat 0xff = (r.fed fp 0).readCommand command := by
  simp only [readFormat, get_fed, getByte_cons]
  rfl

theorem emits_command {a : AtfAction} {command : Byte} (hw : w.ast.isDumping = false)
    (hread : ∀ (r : Ctx) fp,
      (r.fed (bytes ++ fp) 0).readCommand command = .ok (some a, r.fed fp 0))
    (hrecord : ∀ cpu, Record.ofAction cpu a = .action a) :
    Emits moved moved w (w.emitCommand command bytes) (0xff :: command :: bytes) [.action a] :=
  emits_format hw (by decide)
    (fun r fp _ => (r.readFormat_command command (bytes ++ fp)).trans (hread r fp)) hrecord

theorem emits_command_none {command : Byte} (hw : w.ast.isDumping = false)
    (hread : ∀ (r : Ctx) fp, (r.fed (bytes ++ fp) 0).readCommand command = .ok (none, r.fed fp 0)) :
    Emits moved moved w (w.emitCommand command bytes) (0xff :: command :: bytes) [] :=
  emits_format_none hw (by decide)
    (fun r fp => (r.readFormat_command command (bytes ++ fp)).trans (hread r fp))

/-- **The informational calls** are read back as they were made. -/
theorem emits_informational (moved : Bool) (hw : w.ast.isDumping = false) {call : WriteCall}
    (hcall : call.informational = true) (hexec : call.exec w = .ok w') :
    ∃ bytes, Emits moved moved w w' bytes (call.records w) := by
  cases call
  all_goals try cases hcall
  all_goals obtain rfl := Except.ok.inj hexec
  case writeDma pa length isDMAwrite =>
    refine ⟨_, emits_format hw (by decide) (fun r fp hr => ?_) fun _ => rfl⟩
    simp only [readFormat, get_fed, List.append_assoc, List.cons_append, List.nil_append,
      getQw_qwBytes, getLw_lwBytes, getByte_cons]
    exact congrArg Except.ok ((hr.fed fp 0).returnOrContinue _)
  -- these two are not passed outside
  case writeCommentRout | writeResync =>
    refine ⟨_, emits_command_none hw fun r fp => ?_⟩
    simp only [readCommand, get_fed, List.append_assoc, getQw_qwBytes, getString_stringBytes,
      bind, Except.bind]
    rfl
  all_goals
    refine ⟨_, emits_command hw (fun r fp => ?_) fun _ => rfl⟩
    simp only [readCommand, get_fed, List.append_assoc, List.cons_append, List.nil_append,
      getQw_qwBytes, getByte_cons, getString_stringBytes, bind, Except.bind]
    rfl

/-! ### Variables -/

/-- A token that sets a variable. -/
theorem emits_set {varnum : AtfVariable} {value : U64} {ast : AtfStream}
    (hw : w.ast.isDumping = false) (hset : w.ast.atfSetVariable varnum value = .ok ast)
    (hread : ∀ r fp, Follows moved w r →
      (r.fed (bytes ++ fp) 0).readToken token = (r.fed fp 0).returnSet varnum value) :
    Emits moved moved w (({ w with ast }.emitToken token).emit bytes) (token :: bytes)
      [.action (.set varnum value)] := by
  have hsets := AtfStream.setsVariable_of_ok hset
  rw [emitToken_emit]
  refine ⟨?_, rfl, fun r hr => ?_⟩
  · show ast.fp ++ skipBytes ast.instrLeft ++ token :: bytes = _
    rw [hsets.instrLeft, hsets.fp]
  · obtain ⟨e, hreturns, hfollows⟩ := hr.atfSetVariable hset
    refine ⟨e, Reads.action (a := .set varnum value) fun fp => ?_,
      hfollows.alike (.fed { w with ast } _ 0)⟩
    rw [List.cons_append, readStep_token (hr.dumping ▸ hw), hread r fp hr]
    exact hreturns fp 0

/-- A CPU number below 15 is in the token. -/
theorem readToken_cpu {value : U64} (hvalue : value.toNat < 0xf) (c : Ctx) :
    c.readToken (0xd0 ||| (value.setWidth 8 &&& 0xf)) = c.returnSet .avgCPU value := by
  have htoken : ∀ i : Fin 15,
      let token : Byte := 0xd0 ||| ((BitVec.ofNat 64 i.val).setWidth 8 &&& 0xf)
      token &&& 0xe0 ≠ 0x80 ∧ token &&& 0xc0 ≠ 0x00 ∧ token &&& 0xc0 ≠ 0x40 ∧
        token &&& 0xf0 = 0xd0 ∧ (token &&& 0x0f).setWidth 64 = BitVec.ofNat 64 i.val := by decide
  have hcast : BitVec.ofNat 64 value.toNat = value := by
    rw [BitVec.ofNat_toNat, BitVec.setWidth_eq]
  obtain ⟨hseq, hjump, hea, hcpu, hback⟩ := htoken ⟨value.toNat, hvalue⟩
  rw [hcast] at hseq hjump hea hcpu hback
  rw [readToken, if_neg hseq, if_neg hjump, if_neg hea, if_pos hcpu, hback]

/-- **A variable that changes** is read back, however it is written. -/
theorem emits_variable (moved : Bool) {varnum : AtfVariable} {value : U64} {ast : AtfStream}
    (hw : w.ast.isDumping = false) (hset : w.ast.atfSetVariable varnum value = .ok ast)
    (hchanges : w.ast.atfGetVariable varnum ≠ value) :
    ∃ bytes, Emits moved moved w
      ({ w with ast }.atfWriteVariable varnum value (w.ast.atfGetVariable varnum)) bytes
      [.action (.set varnum value)] := by
  have hdelta : value - w.ast.atfGetVariable varnum ≠ 0 := by
    intro h
    exact hchanges (by grind)
  have hback : value - w.ast.atfGetVariable varnum + w.ast.atfGetVariable varnum = value :=
    BitVec.sub_add_cancel _ _
  have hshort (token : Byte) :
      { w with ast }.emitToken token = ({ w with ast }.emitToken token).emit [] := (emit_nil _).symm
  unfold atfWriteVariable
  dsimp only
  rw [if_neg hdelta]
  split_ifs with hcpu hepoch hrel
  · obtain ⟨rfl, hlt⟩ := hcpu
    rw [hshort]
    exact ⟨_, emits_set hw hset fun r fp _ => readToken_cpu hlt _⟩
  · obtain ⟨rfl, hone⟩ := hepoch
    rw [hshort]
    refine ⟨_, emits_set hw hset fun r fp hr => ?_⟩
    rw [readToken_format _ (by decide)]
    have hvalue : r.ast.globalVar .avgEPOCH + 1 = value := by
      rw [← hback, hone, ← hr.agrees.globalVar, BitVec.add_comm]
      rfl
    show (r.fed fp 0).returnSet .avgEPOCH (r.ast.globalVar .avgEPOCH + 1) = _
    rw [hvalue]
  · refine ⟨_, emits_set hw hset fun r fp hr => ?_⟩
    have hvalue : ((value - w.ast.atfGetVariable varnum).setWidth 8).signExtend 64 +
        r.ast.atfGetVariable varnum = value := by
      rw [signExtend_setWidth (v := 7) (by decide) (by omega) (by omega),
        ← hr.agrees.atfGetVariable, hback]
    rw [readToken_format _ (by decide)]
    simp only [readFormat, get_fed, List.cons_append, List.nil_append, getByte_cons,
      AtfVariable.ofByte_toByte]
    show (r.fed fp 0).returnSet varnum (_ + r.ast.atfGetVariable varnum) = _
    rw [hvalue]
  · refine ⟨_, emits_set hw hset fun r fp hr => ?_⟩
    rw [readToken_format _ (by decide)]
    simp only [readFormat, get_fed, List.cons_append, getByte_cons, getQw_qwBytes,
      AtfVariable.ofByte_toByte]
    rfl

/-- A variable that does not change leaves the same variables and CPUs. -/
theorem agrees_of_set_same {varnum : AtfVariable} {ast : AtfStream}
    (hcpu : w.cpunum = BitVec.ofNat 64 w.ast.cpuPtr.val)
    (hset : w.ast.atfSetVariable varnum (w.ast.atfGetVariable varnum) = .ok ast) :
    ast.Agrees w.ast := by
  unfold AtfStream.atfSetVariable AtfStream.atfGetVariable at hset
  split_ifs at hset with hlocal hvar hlt
  · obtain rfl := Except.ok.inj hset
    refine ⟨rfl, rfl, fun i => ?_⟩
    show (Function.update w.ast.cpu w.ast.cpuPtr _ i).Agrees (w.ast.cpu i)
    by_cases hi : i = w.ast.cpuPtr
    · subst hi
      rw [Function.update_self]
      exact ⟨rfl, Function.update_eq_self _ _, rfl⟩
    · rw [Function.update_of_ne hi]
      exact ⟨rfl, rfl, rfl⟩
  · obtain rfl := Except.ok.inj hset
    subst hvar
    refine ⟨Fin.ext ?_, Function.update_eq_self _ _, fun _ => ⟨rfl, rfl, rfl⟩⟩
    show (w.cpunum).toNat = w.ast.cpuPtr.val
    rw [hcpu, BitVec.toNat_ofNat]
    exact Nat.mod_eq_of_lt (w.ast.cpuPtr.isLt.trans (by decide))
  · obtain rfl := Except.ok.inj hset
    exact ⟨rfl, Function.update_eq_self _ _, fun _ => ⟨rfl, rfl, rfl⟩⟩

/-! ### Page table entries -/

/-- What filling an entry does, apart from the recent entries. -/
theorem atfTlbFill_cases (c : Ctx) (va : Address) (pte : U64) :
    (∃ d : Ctx, c.atfTlbFill va pte = (none, d) ∧ d.Alike c ∧ d.ast.fp = c.ast.fp ∧
        d.ast.instrLeft = c.ast.instrLeft) ∨
      ∃ (ent : _) (d : Ctx), c.atfTlbFill va pte = (some ent, d.atfTlbFillEntry va pte ent) ∧
        d.Alike c ∧ d.ast.fp = c.ast.fp ∧ d.ast.instrLeft = c.ast.instrLeft := by
  unfold atfTlbFill
  dsimp only
  have htouched := c.ast.atfTlbFind_touched (pageAddrPage va) c.asn
  split_ifs
  · exact .inl ⟨c, rfl, .refl c, rfl, rfl⟩
  · generalize c.ast.atfTlbFind (pageAddrPage va) c.asn = found at htouched
    obtain ⟨_ | ent, ast⟩ := found
    · refine .inr ⟨ast.atfTlbNew.1, { c with ast := ast.atfTlbNew.2 }, rfl, ?_, htouched.fp,
        htouched.instrLeft⟩
      have hnew : ({ c with ast := ast.atfTlbNew.2 } : Ctx).Alike { c with ast } := by
        refine ⟨⟨rfl, rfl, fun i => ?_⟩, rfl, rfl⟩
        show (Function.update ast.cpu ast.cpuPtr _ i).Agrees (ast.cpu i)
        by_cases hi : i = ast.cpuPtr
        · subst hi
          rw [Function.update_self]
          exact ⟨rfl, rfl, rfl⟩
        · rw [Function.update_of_ne hi]
          exact ⟨rfl, rfl, rfl⟩
      exact hnew.trans (.of_touched htouched rfl)
    · dsimp only
      split_ifs
      · exact .inl ⟨{ c with ast }, rfl, .of_touched htouched rfl, htouched.fp, htouched.instrLeft⟩
      · exact .inr ⟨ent, { c with ast }, rfl, .of_touched htouched rfl, htouched.fp,
          htouched.instrLeft⟩

/-- The number of the entry is in the offset of its page. -/
theorem pageAddr_entry (va : Address) (ent : Fin tlbAssoc) :
    pageAddrPage (pageAddrPage va ||| BitVec.ofNat 64 ent.val) = pageAddrPage va ∧
      pageAddrOffset (pageAddrPage va ||| BitVec.ofNat 64 ent.val) = BitVec.ofNat 64 ent.val := by
  have hent : ∀ i : Fin 64, BitVec.ofNat 64 i.val &&& ~~~mask pageSizeLog2 = 0#64 ∧
      BitVec.ofNat 64 i.val &&& mask pageSizeLog2 = BitVec.ofNat 64 i.val := by decide
  have hpage : pageAddrPage va &&& mask pageSizeLog2 = 0#64 := by
    unfold pageAddrPage
    grind
  obtain ⟨hhigh, hlow⟩ := hent ent
  refine ⟨?_, ?_⟩
  · rw [pageAddrPage, BitVec.and_or_distrib_right, hhigh, BitVec.or_zero]
    exact pageAddrPage_idem va
  · rw [pageAddrOffset, BitVec.and_or_distrib_right, hlow, hpage, BitVec.zero_or]

/-- **An entry that is filled** is filled in the same place by the reader. -/
theorem emits_pte (moved : Bool) (hw : w.ast.isDumping = false) {va : Address} {pte : U64}
    {ent : Fin tlbAssoc}
    (hd : d.Alike w) (hfp : d.ast.fp = w.ast.fp) (hleft : d.ast.instrLeft = w.ast.instrLeft) :
    ∃ bytes, Emits moved moved w
      ((((d.atfTlbFillEntry (pageAddrPage va) pte ent).emitToken 0xeb).emit
        (qwBytes (pageAddrPage va ||| BitVec.ofNat 64 ent.val))).emit (qwBytes pte)) bytes
      [.action (.pte (pageAddrPage va) pte)] := by
  refine ⟨0xeb :: (qwBytes (pageAddrPage va ||| BitVec.ofNat 64 ent.val) ++ qwBytes pte), ?_⟩
  rw [emit_emit, emitToken_emit]
  refine ⟨?_, rfl, fun r hr => ?_⟩
  · show d.ast.fp ++ skipBytes d.ast.instrLeft ++ _ = _
    rw [hfp, hleft]
  · have hfollows := (hr.alike hd).atfTlbFillEntry (pageAddrPage va) pte ent
    refine ⟨_, Reads.action (a := .pte (pageAddrPage va) pte) fun fp => ?_,
      hfollows.alike (.fed _ _ 0)⟩
    obtain ⟨hpage, hoffset⟩ := pageAddr_entry va ent
    have hent : (BitVec.ofNat 64 ent.val).toNat = ent.val :=
      Nat.mod_eq_of_lt (ent.isLt.trans (by decide))
    rw [List.cons_append, readStep_format (hr.dumping ▸ hw) (by decide)]
    simp only [readFormat, get_fed, List.append_assoc, getQw_qwBytes]
    show (r.fed fp 0).returnPte _ pte = _
    unfold returnPte
    dsimp only
    rw [hpage, hoffset, hent, if_pos ent.isLt]
    have hcast : Fin.ofNat tlbAssoc ent.val = ent := Fin.ext (Nat.mod_eq_of_lt ent.isLt)
    rw [hcast]
    exact congrArg Except.ok ((hfollows.fed fp 0).returnOrContinue _)

/-! ### Cache dumps -/

theorem emits_dumpStart (moved : Bool) (hw : w.ast.isDumping = false) :
    ∃ bytes, Emits moved moved w w.atfWriteDumpStart bytes [] := by
  refine ⟨[0xff, 0], ?_⟩
  unfold atfWriteDumpStart emitCommand
  rw [emitToken_emit]
  refine ⟨rfl, rfl, fun r hr => ⟨r.onAst fun ast => { ast with isDumping := true }, ?_,
    (hr.setDumping true).alike (.fed _ _ 0)⟩⟩
  refine .skip fun fp => ?_
  show (r.fed (0xff :: 0 :: fp) 0).readStep = _
  rw [readStep_format (hr.dumping ▸ hw) (by decide), readFormat_command]
  rfl

theorem emits_dumpEnd (moved : Bool) (hw : w.ast.isDumping = true) (hleft : w.ast.instrLeft = 0) :
    ∃ bytes, Emits moved moved w w.atfWriteDumpEnd bytes [] := by
  refine ⟨lwBytes 0, ⟨?_, hleft, fun r hr => ?_⟩⟩
  · rw [hleft, skipBytes, if_neg (by decide), List.append_nil]
    rfl
  · refine ⟨r.onAst fun ast => { ast with isDumping := false }, .skip fun fp => ?_,
      (hr.setDumping false).alike (.emit _ _)⟩
    rw [readStep_dump (hr.dumping ▸ hw), readDump]
    simp only [get_fed, getLw_lwBytes]
    rfl

/-- The bits of an entry below its cache line, and the form that it has. -/
def dumpLow (isDstream : Bool) (state : Fin 4) (form : Fin 3) : BitVec 32 :=
  (if isDstream then 1#32 else 0#32) ||| (BitVec.ofNat 32 state.val <<< 3) |||
    BitVec.ofNat 32 (2 * form.val + 2)

theorem dumpLow_bits : ∀ isDstream state form,
    (dumpLow isDstream state form).setWidth 64 &&& ~~~0x3f#64 = 0#64 ∧
      (dumpLow isDstream state form).setWidth 64 &&& 1#64 = (if isDstream then 1#64 else 0#64) ∧
      ((dumpLow isDstream state form).setWidth 64 >>> 3) &&& 3#64 =
        (BitVec.ofNat 32 state.val).setWidth 64 ∧
      (dumpLow isDstream state form).setWidth 64 &&& 6#64 =
        (BitVec.ofNat 32 (2 * form.val + 2)).setWidth 64 := by
  decide

/-- A mask for the low half leaves the high one. -/
theorem halves_and {m : U64} (hm : ∀ i < 32, m.getLsbD (32 + i) = true) (pa : Address) :
    ((pa &&& m).setWidth 32).setWidth 64 ||| (((pa >>> 32).setWidth 32).setWidth 64 <<< 32) =
      pa &&& m := by
  ext i hi
  simp only [BitVec.getElem_or, BitVec.getElem_shiftLeft, BitVec.getElem_setWidth,
    BitVec.getLsbD_setWidth, BitVec.getLsbD_ushiftRight, BitVec.getLsbD_and, BitVec.getElem_and]
  rw [← BitVec.getLsbD_eq_getElem (x := pa), ← BitVec.getLsbD_eq_getElem (x := m)]
  by_cases hlow : i < 32
  · simp [hlow]
  · have hone := hm (i - 32) (by omega)
    have hsum : 32 + (i - 32) = i := by omega
    rw [hsum] at hone
    have hhigh : i - 32 < 32 := by omega
    simp [hlow, hhigh, hsum, hone]

/-- The words of an entry put together. -/
theorem dump_word (pa : Address) (isDstream : Boolean) (state : BitVec 32) (form : Fin 3) :
    ∃ s : Fin 4, BitVec.ofNat 32 s.val = state &&& 3 ∧
      (dumpLower pa isDstream state ||| BitVec.ofNat 32 (2 * form.val + 2)).setWidth 64 |||
          (((pa >>> 32).setWidth 32).setWidth 64 <<< 32) =
        (pa &&& ~~~0x3f#64) ||| (dumpLow (isDstream ≠ 0) s form).setWidth 64 := by
  have hstate : (state &&& 3).toNat < 4 := by
    rw [BitVec.toNat_and]
    exact Nat.lt_succ_of_le Nat.and_le_right
  have hcast : BitVec.ofNat 32 (state &&& 3).toNat = state &&& 3 := by
    rw [BitVec.ofNat_toNat, BitVec.setWidth_eq]
  refine ⟨⟨(state &&& 3).toNat, hstate⟩, hcast, ?_⟩
  have hhalves := halves_and (m := ~~~0x3f#64) (by decide) pa
  have hlow : dumpLower pa isDstream state ||| BitVec.ofNat 32 (2 * form.val + 2) =
      (pa &&& ~~~0x3f#64).setWidth 32 ||| dumpLow (isDstream ≠ 0) ⟨_, hstate⟩ form := by
    unfold dumpLower dumpLow
    rw [hcast, BitVec.or_assoc]
    simp only [decide_eq_true_eq]
    rfl
  rw [hlow, BitVec.setWidth_or, BitVec.or_assoc,
    BitVec.or_comm (BitVec.setWidth 64 (dumpLow _ _ _)), ← BitVec.or_assoc, hhalves]

/-- What is below a cache line is not in the line's address. -/
theorem line_bits (pa : Address) {low : U64} (hlow : low &&& ~~~0x3f#64 = 0#64) :
    ((pa &&& ~~~0x3f#64) ||| low) &&& ~~~0x3f#64 = pa &&& ~~~0x3f#64 ∧
      ((pa &&& ~~~0x3f#64) ||| low) &&& 1#64 = low &&& 1#64 ∧
      (((pa &&& ~~~0x3f#64) ||| low) >>> 3) &&& 3#64 = (low >>> 3) &&& 3#64 ∧
      ((pa &&& ~~~0x3f#64) ||| low) &&& 6#64 = low &&& 6#64 := by
  have hmask : (~~~0x3f#64) &&& ~~~0x3f#64 = ~~~0x3f#64 ∧ (~~~0x3f#64) &&& 1#64 = 0#64 ∧
      (~~~0x3f#64) >>> 3 &&& 3#64 = 0#64 ∧ (~~~0x3f#64) &&& 6#64 = 0#64 := by decide
  obtain ⟨hline, hone, hthree, hsix⟩ := hmask
  refine ⟨?_, ?_, ?_, ?_⟩
  · rw [BitVec.and_or_distrib_right, hlow, BitVec.or_zero, BitVec.and_assoc, hline]
  · rw [BitVec.and_or_distrib_right, BitVec.and_assoc, hone, BitVec.and_zero, BitVec.zero_or]
  · rw [BitVec.ushiftRight_or_distrib, BitVec.ushiftRight_and_distrib,
      BitVec.and_or_distrib_right, BitVec.and_assoc, hthree, BitVec.and_zero, BitVec.zero_or]
  · rw [BitVec.and_or_distrib_right, BitVec.and_assoc, hsix, BitVec.and_zero, BitVec.zero_or]

/-- The form is in the first word alone. -/
theorem form_bits {lw upper form : BitVec 32}
    (h : (lw.setWidth 64 ||| (upper.setWidth 64 <<< 32)) &&& 6#64 = form.setWidth 64) :
    lw.setWidth 64 &&& 6#64 = form.setWidth 64 ∧
      lw.setWidth 64 &&& 4#64 = form.setWidth 64 &&& 4#64 := by
  have hmask : 6#64 = 6#64 &&& mask 3 ∧ 6#64 &&& 4#64 = 4#64 := by decide
  have hupper : (upper.setWidth 64 <<< 32) &&& 6#64 = 0#64 := by
    have hbits : ∀ i < 64, 32 ≤ i → (6#64).getLsbD i = false := by decide
    apply BitVec.eq_of_getLsbD_eq
    intro i hi
    rw [BitVec.getLsbD_and, BitVec.getLsbD_shiftLeft, BitVec.getLsbD_zero]
    by_cases hlow : i < 32
    · simp [hlow]
    · rw [hbits i hi (by omega), Bool.and_false]
  have hlw : lw.setWidth 64 &&& 6#64 = form.setWidth 64 := by
    rw [← h, BitVec.and_or_distrib_right, hupper, BitVec.or_zero]
  refine ⟨hlw, ?_⟩
  rw [← hlw, BitVec.and_assoc, hmask.2]

/-- **An entry** is read back, in whichever form it is written. -/
theorem readDump_entry (r : Ctx) (pa va : Address) (isDstream : Boolean) (state : BitVec 32)
    (form : Fin 3) (hupper : form.val = 0 → (pa >>> 32).setWidth 32 = (0 : BitVec 32))
    (hva : form.val ≠ 2 → va = 0) (fp : List Byte) :
    (r.fed (lwBytes (dumpLower pa isDstream state ||| BitVec.ofNat 32 (2 * form.val + 2)) ++
        (if form.val = 0 then [] else lwBytes ((pa >>> 32).setWidth 32)) ++
        (if form.val = 2 then qwBytes va else []) ++ fp) 0).readDump =
      .ok (some (.dump (pa &&& ~~~0x3f) va (if isDstream ≠ 0 then 1#64 else 0#64)
        ((state &&& 3).setWidth 64)), r.fed fp 0) := by
  obtain ⟨s, hs, hword⟩ := dump_word pa isDstream state form
  obtain ⟨hline, hflag, hstate, hform⟩ := dumpLow_bits (isDstream ≠ 0) s form
  obtain ⟨hpa, hone, hthree, hsix⟩ := line_bits pa hline
  simp only [decide_eq_true_eq] at hflag
  rw [← hword, hflag] at hone
  rw [← hword, hstate, hs] at hthree
  rw [← hword, hform] at hsix
  rw [← hword] at hpa
  generalize dumpLower pa isDstream state ||| BitVec.ofNat 32 (2 * form.val + 2) = lw at *
  obtain ⟨hlw, hfour⟩ := form_bits hsix
  have hforms : ∀ f : Fin 3, (BitVec.ofNat 32 (2 * f.val + 2)).setWidth 64 ≠ 0#64 ∧
      ((BitVec.ofNat 32 (2 * f.val + 2)).setWidth 64 &&& 4#64 ≠ 0#64 ↔ f.val ≠ 0) ∧
      ((BitVec.ofNat 32 (2 * f.val + 2)).setWidth 64 = 6#64 ↔ f.val = 2) := by decide
  obtain ⟨hnonzero, hwhenUpper, hwhenVa⟩ := hforms form
  have hne : lw.setWidth 64 ≠ 0 := by
    intro h
    rw [h] at hlw
    exact hnonzero (hlw.symm.trans (BitVec.zero_and (x := 6#64)))
  have hupperRead (rest : List Byte) :
      (r.fed ((if form.val = 0 then [] else lwBytes ((pa >>> 32).setWidth 32)) ++ rest) 0).getIf
        (lw.setWidth 64 &&& 4 ≠ 0) getLw = ((pa >>> 32).setWidth 32, r.fed rest 0) := by
    change Ctx.getIf _ (lw.setWidth 64 &&& 4#64 ≠ 0#64) getLw = _
    rw [hfour]
    unfold getIf
    by_cases hzero : form.val = 0
    · rw [if_neg (by simpa using hwhenUpper.not.mpr (not_not_intro hzero)), if_pos hzero,
        hupper hzero]
      rfl
    · rw [if_pos (by simpa using hwhenUpper.mpr hzero), if_neg hzero]
      simp only [get_fed, getLw_lwBytes]
  have hvaRead : (r.fed ((if form.val = 2 then qwBytes va else []) ++ fp) 0).getIf
      ((lw.setWidth 64 ||| (((pa >>> 32).setWidth 32).setWidth 64 <<< 32)) &&& 6 = 6) getQw =
        (va, r.fed fp 0) := by
    change Ctx.getIf _ (_ &&& 6#64 = 6#64) getQw = _
    rw [hsix]
    unfold getIf
    by_cases htwo : form.val = 2
    · rw [if_pos (by simpa using hwhenVa.mpr htwo), if_pos htwo]
      simp only [get_fed, getQw_qwBytes]
    · rw [if_neg (by simpa using hwhenVa.not.mpr htwo), if_neg htwo, hva htwo]
      rfl
  unfold readDump
  simp only [List.append_assoc, get_fed, getLw_lwBytes]
  rw [if_pos hne, hupperRead, hvaRead]
  dsimp only
  refine congrArg (fun a => Except.ok (some a, r.fed fp 0)) ?_
  rw [AtfAction.dump.injEq]
  exact ⟨hpa, rfl, hone, hthree⟩

theorem emits_dump (moved : Bool) (hw : w.ast.isDumping = true) (hleft : w.ast.instrLeft = 0)
    (pa va : Address) (isDstream : Boolean) (state : BitVec 32) :
    ∃ bytes, Emits moved moved w (w.atfWriteDump pa va isDstream state) bytes
      [.action (.dump (pa &&& ~~~0x3f) (va &&& ~~~0x3f) (if isDstream ≠ 0 then 1#64 else 0#64)
        ((state &&& 3).setWidth 64))] := by
  have hentry (form : Fin 3) (hupper : form.val = 0 → (pa >>> 32).setWidth 32 = (0 : BitVec 32))
      (hva : form.val ≠ 2 → va &&& ~~~0x3f = 0) {bytes : List Byte}
      (hbytes : bytes =
        lwBytes (dumpLower pa isDstream state ||| BitVec.ofNat 32 (2 * form.val + 2)) ++
          (if form.val = 0 then [] else lwBytes ((pa >>> 32).setWidth 32)) ++
          (if form.val = 2 then qwBytes (va &&& ~~~0x3f) else [])) :
      Emits moved moved w (w.emit bytes) bytes
        [.action (.dump (pa &&& ~~~0x3f) (va &&& ~~~0x3f) (if isDstream ≠ 0 then 1#64 else 0#64)
          ((state &&& 3).setWidth 64))] := by
    refine ⟨?_, hleft, fun r hr => ⟨r, ?_, hr.alike (.emit _ _)⟩⟩
    · rw [hleft, skipBytes, if_neg (not_not_intro rfl), List.append_nil]
      rfl
    · refine Reads.action (a := .dump _ _ _ _) fun fp => ?_
      rw [hbytes, readStep_dump (hr.dumping ▸ hw)]
      exact readDump_entry r pa _ isDstream state form hupper hva fp
  unfold atfWriteDump
  dsimp only
  by_cases hva : va = 0
  · have hzero : va &&& ~~~0x3f = 0 := by
      rw [hva]
      exact BitVec.zero_and
    rw [if_pos hva]
    by_cases hupper : (pa >>> 32).setWidth 32 = (0 : BitVec 32)
    · rw [if_pos hupper]
      exact ⟨_, hentry 0 (fun _ => hupper) (fun _ => hzero) (by simp)⟩
    · rw [if_neg hupper]
      exact ⟨_, hentry 1 (fun h => absurd h (by decide)) (fun _ => hzero) (by simp)⟩
  · rw [if_neg hva]
    exact ⟨_, hentry 2 (fun h => absurd h (by decide)) (fun h => absurd rfl h) (by simp)⟩

end Ctx

end AsimFeeder.Atf
