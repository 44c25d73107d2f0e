/-
A trace that was written is read back.

Opening the file puts a magic number on it, and then calls the writer for the version and for
two comments.  These go to stream 0 whatever stream is opened; the file here is that of stream 0.
Then the writer makes any calls, where a cache dump is written between its start and its end.
The reader checks the magic number, and reads the file to its end.  It gets what was written,
but for the instructions that were only counted when the file was closed, fewer than 32 of
them.

There is one more exception.  The writer starts as if the last effective address had moved by
-1, and the reader as if it had not moved.  When the first move that the writer keeps is by
-1, the reader takes it for no move.
-/
import AsimFeeder.Atf.TrackInstr
import AsimFeeder.Atf.TraceReader

namespace AsimFeeder.Atf

namespace Ctx

variable {c d e w w' r start : Ctx} {rs rs' done pend : List Record} {bytes : List Byte}
  {moved moved' : Bool} {n k : Nat} {vpc vea place : Address} {opcode : Opcode}

/-! ### The call for an instruction -/

/-- A call that wrote no instruction wrote nothing. -/
theorem atfWriteInstruction_missed {i : Int}
    (h : w.atfWriteInstruction vpc opcode vea = .ok (i, w')) (hi : i ≠ 1) :
    w'.Alike w ∧ w'.ast.fp = w.ast.fp ∧ w'.ast.instrLeft = w.ast.instrLeft := by
  obtain ⟨htouched, hsh⟩ := w.vpcMisses_touched vpc
  obtain ⟨htouched', hsh'⟩ := (w.vpcMisses vpc).2.veaMisses_touched opcode vea
  rcases w.atfWriteInstruction_cases vpc opcode vea with
    ⟨-, hcall⟩ | ⟨-, -, hcall⟩ | ⟨-, ⟨-, e, hcall⟩ | ⟨-, hcall⟩⟩
  · rw [hcall] at h
    obtain ⟨-, rfl⟩ := Prod.mk.inj (Except.ok.inj h)
    exact ⟨.of_touched htouched hsh, htouched.fp, htouched.instrLeft⟩
  · rw [hcall] at h
    obtain ⟨-, rfl⟩ := Prod.mk.inj (Except.ok.inj h)
    exact ⟨(Alike.of_touched htouched' hsh').trans (.of_touched htouched hsh),
      htouched'.fp.trans htouched.fp, htouched'.instrLeft.trans htouched.instrLeft⟩
  · rw [hcall] at h
    obtain ⟨rfl, -⟩ := Prod.mk.inj (Except.ok.inj h)
    exact absurd rfl hi
  · rw [hcall] at h
    cases h

/-- The state where the pc is written and the opcode is not yet. -/
def jumped (c : Ctx) (vpc : Address) : Ctx :=
  (c.onAst (·.atfSetPc vpc false)).writeJump vpc (vpc - c.vpc)

/-- **A call that wrote its instruction** moved to it and executed it. -/
theorem atfWriteInstruction_wrote (h : w.atfWriteInstruction vpc opcode vea = .ok (1, w')) :
    ∃ (c : Ctx) (place : Address) (d : Ctx), c.Alike w ∧ c.ast.fp = w.ast.fp ∧
      c.ast.instrLeft = w.ast.instrLeft ∧ (c.jumped vpc).cachePlace = .ok (place, d) ∧
      w' = ((d.setInstr place ⟨vea, opcode⟩).writeExec opcode vea
        (d.sh.atfInstructions place)).onAst (·.atfSetPc 4 true) := by
  obtain ⟨htouched, hsh⟩ := w.vpcMisses_touched vpc
  obtain ⟨htouched', hsh'⟩ := (w.vpcMisses vpc).2.veaMisses_touched opcode vea
  have halike := (Alike.of_touched htouched' hsh').trans (.of_touched htouched hsh)
  unfold atfWriteInstruction at h
  dsimp only at h
  split_ifs at h
  · cases h
  · cases h
  · generalize ((w.vpcMisses vpc).2.veaMisses opcode vea).2 = c at *
    unfold atfCacheOpcodeLast at h
    rcases hplace : (c.jumped vpc).cachePlace with _ | ⟨place, d⟩
    · unfold jumped at hplace
      rw [hplace] at h
      cases h
    · have hcache := hplace
      unfold jumped at hcache
      rw [hcache] at h
      obtain ⟨-, rfl⟩ := Prod.mk.inj (Except.ok.inj h)
      exact ⟨c, place, d, halike, htouched'.fp.trans htouched.fp,
        htouched'.instrLeft.trans htouched.instrLeft, hplace, rfl⟩

/-- The call did what the writer's function does. -/
theorem exec_writeInstruction
    (h : (WriteCall.writeInstruction vpc opcode vea).exec w = .ok w') :
    ∃ i, w.atfWriteInstruction vpc opcode vea = .ok (i, w') := by
  unfold WriteCall.exec at h
  dsimp only at h
  rcases hcall : w.atfWriteInstruction vpc opcode vea with _ | ⟨i, c⟩
  · rw [hcall] at h
    cases h
  · rw [hcall] at h
    obtain rfl := Except.ok.inj h
    exact ⟨i, rfl⟩

theorem jumped_alike (c : Ctx) (vpc : Address) :
    (c.jumped vpc).Alike (c.onAst (·.atfSetPc vpc false)) := by
  unfold jumped writeJump
  split_ifs
  · exact .refl _
  · rw [← emit_nil (emitToken _ _)]
    exact .emitToken _ _ _
  · exact .emitToken _ _ _
  · exact .emitToken _ _ _

theorem jumped_vpc (c : Ctx) (vpc : Address) : (c.jumped vpc).vpc = vpc := by
  rw [vpc_eq (c.jumped_alike vpc).agrees]
  exact congrArg (·.vpc) (setCur_cur c.ast fun cpu => { cpu with vpc })

/-- The entry that an instruction is compared with is the one at its place before the call. -/
theorem jumped_entry (halike : c.Alike w) (hplace : (c.jumped vpc).cachePlace = .ok (place, d)) :
    d.sh.atfInstructions place = w.entryAt vpc := by
  have hmap : (c.jumped vpc).SameMap w :=
    ((SameMap.of_agrees (c.jumped_alike vpc).agrees (c.jumped_alike vpc).sh).trans
      (.onAst_atfSetPc c vpc false)).trans (.of_agrees halike.agrees halike.sh)
  have hsh : (c.jumped vpc).sh = w.sh := (c.jumped_alike vpc).sh.trans halike.sh
  rw [cachePlace_eq] at hplace
  split_ifs at hplace
  obtain ⟨rfl, rfl⟩ := Prod.mk.inj (Except.ok.inj hplace)
  rw [atfTlbTranslate_atfInstructions, hsh]
  unfold entryAt Ctx.place
  rw [jumped_vpc, hmap.translate]

namespace Tracked

theorem jumps (h : Tracked start c moved rs) (hc : c.ast.isDumping = false) (vpc : Address) :
    Tracked start (c.jumped vpc) moved rs := by
  by_cases hstay : vpc - c.vpc = 0
  · have hjumped : c.jumped vpc = c.onAst (·.atfSetPc vpc false) := by
      unfold jumped writeJump
      rw [if_pos hstay]
    rw [hjumped]
    exact h.same rfl rfl rfl fun _ hr => follows_stay hstay hr
  · obtain ⟨bytes, hemits⟩ := emits_jump moved hc hstay
    have hjumps := h.emits hemits
    rwa [List.append_nil] at hjumps

/-- **An instruction that is written** is the next record. -/
theorem writeInstruction (h : Tracked start w moved rs) (hw : w.ast.isDumping = false)
    (hcall : w.atfWriteInstruction vpc opcode vea = .ok (1, w'))
    (hfirst : moved = false → eaMoved (w.entryAt vpc) opcode vea ≠ some (-1)) :
    Tracked start w' (moved || (eaMoved (w.entryAt vpc) opcode vea).isSome)
      (rs ++ [.executed w.ast.cpuPtr vpc opcode vea]) := by
  obtain ⟨c, place, d, halike, hfp, hleft, hplace, rfl⟩ := atfWriteInstruction_wrote hcall
  have hc : c.ast.isDumping = false := halike.isDumping.trans hw
  have hjumped := (h.alike halike hfp hleft).jumps hc vpc
  have hentry := jumped_entry halike hplace
  have hj : (c.jumped vpc).ast.isDumping = false := (c.jumped_alike vpc).isDumping.trans hc
  have hcpu : (c.jumped vpc).ast.cpuPtr = w.ast.cpuPtr :=
    (c.jumped_alike vpc).agrees.cpuPtr.trans halike.agrees.cpuPtr
  rw [← hentry] at hfirst ⊢
  have hexecutes := hjumped.executes opcode vea hj hplace hfirst
  rwa [hcpu, jumped_vpc] at hexecutes

/-! ### Any call -/

/-- A variable is the next record when it changes. -/
theorem writeSet (h : Tracked start w moved rs) (hw : w.ast.isDumping = false)
    {varnum : AtfVariable} {value : U64} (hset : w.atfWriteSet varnum value = .ok w') :
    Tracked start w' moved
      (rs ++ if w.ast.atfGetVariable varnum = value then []
        else [.action (.set varnum value)]) := by
  unfold atfWriteSet at hset
  rcases hvar : w.ast.atfSetVariable varnum value with _ | ast
  · rw [hvar] at hset
    cases hset
  · rw [hvar] at hset
    obtain rfl := Except.ok.inj hset
    by_cases hsame : w.ast.atfGetVariable varnum = value
    · have hsets := AtfStream.setsVariable_of_ok hvar
      have hwritten : ({ w with ast } : Ctx).atfWriteVariable varnum value
          (w.ast.atfGetVariable varnum) = { w with ast } := by
        unfold atfWriteVariable
        dsimp only
        have hzero : value - value = 0 := BitVec.sub_self value
        rw [hsame, if_pos hzero]
      rw [if_pos hsame, List.append_nil]
      show Tracked start (({ w with ast } : Ctx).atfWriteVariable _ _ _) moved rs
      rw [hwritten]
      refine h.same hsets.fp hsets.instrLeft hsets.isDumping fun r hr => hr.alike ?_
      subst hsame
      exact ⟨agrees_of_set_same hr.cpu hvar, hsets.isDumping, rfl⟩
    · obtain ⟨bytes, hemits⟩ := emits_variable moved hw hvar hsame
      rw [if_neg hsame]
      exact h.emits hemits

/-- A page table entry is the next record when it is filled. -/
theorem writePte (h : Tracked start w moved rs) (hw : w.ast.isDumping = false) (va : Address)
    (pte : U64) : Tracked start (w.atfWritePte va pte) moved
      (rs ++ if (w.atfTlbFill (pageAddrPage va) pte).1.isSome then
        [.action (.pte (pageAddrPage va) pte)] else []) := by
  unfold atfWritePte
  rcases w.atfTlbFill_cases (pageAddrPage va) pte with
    ⟨d, hfill, halike, hfp, hleft⟩ | ⟨ent, d, hfill, halike, hfp, hleft⟩
  · dsimp only
    rw [hfill, if_neg (by simp), List.append_nil]
    exact h.alike halike hfp hleft
  · dsimp only
    rw [hfill]
    obtain ⟨bytes, hemits⟩ := emits_pte moved hw halike hfp hleft
    exact h.emits hemits

/-- A call that writes no instruction. -/
theorem execOther (h : Tracked start w moved rs) {call : WriteCall}
    (hdump : call.inDump = w.ast.isDumping) (hexec : call.exec w = .ok w')
    (hother : ∀ vpc opcode vea, call ≠ .writeInstruction vpc opcode vea) :
    Tracked start w' moved (rs ++ call.records w) := by
  by_cases hinfo : call.informational = true
  · have hplain : call.inDump = false := by
      cases call
      all_goals try cases hinfo
      all_goals rfl
    obtain ⟨bytes, hemits⟩ :=
      emits_informational moved (hdump.symm.trans hplain) hinfo hexec
    exact h.emits hemits
  · cases call with
    | writeGlobal varnum value =>
        change w.atfWriteGlobal varnum value = .ok w' at hexec
        unfold atfWriteGlobal at hexec
        split_ifs at hexec
        exact h.writeSet hdump.symm hexec
    | writeLocal varnum value =>
        change w.atfWriteLocal varnum value = .ok w' at hexec
        unfold atfWriteLocal at hexec
        split_ifs at hexec
        exact h.writeSet hdump.symm hexec
    | writePte va pte =>
        obtain rfl := Except.ok.inj hexec
        exact h.writePte hdump.symm va pte
    | writeDumpStart =>
        obtain rfl := Except.ok.inj hexec
        obtain ⟨bytes, hemits⟩ := emits_dumpStart moved hdump.symm
        exact h.emits hemits
    | writeDump pa va isDstream state =>
        obtain rfl := Except.ok.inj hexec
        obtain ⟨bytes, hemits⟩ := emits_dump moved hdump.symm (h.quiet hdump.symm)
          pa va isDstream state
        exact h.emits hemits
    | writeDumpEnd =>
        obtain rfl := Except.ok.inj hexec
        obtain ⟨bytes, hemits⟩ := emits_dumpEnd moved hdump.symm (h.quiet hdump.symm)
        exact h.emits hemits
    | writeInstruction vpc opcode vea => exact absurd rfl (hother vpc opcode vea)
    | _ => exact absurd rfl hinfo

/-- **Any call** puts its records behind those before. -/
theorem exec (h : Tracked start w moved rs) {call : WriteCall}
    (hdump : call.inDump = w.ast.isDumping) (hexec : call.exec w = .ok w')
    (hfirst : moved = false → call.eaDelta w ≠ some (-1)) :
    Tracked start w' (moved || (call.eaDelta w).isSome) (rs ++ call.records w) := by
  by_cases hother : ∀ vpc opcode vea, call ≠ .writeInstruction vpc opcode vea
  · have hnone : call.eaDelta w = none := by
      cases call
      case writeInstruction vpc opcode vea => exact absurd rfl (hother vpc opcode vea)
      all_goals rfl
    rw [hnone, Option.isSome_none, Bool.or_false]
    exact h.execOther hdump hexec hother
  · simp only [not_forall, not_not] at hother
    obtain ⟨vpc, opcode, vea, rfl⟩ := hother
    obtain ⟨i, hcall⟩ := exec_writeInstruction hexec
    have hwrote : WriteCall.wrote w vpc opcode vea = decide (i = 1) := by
      unfold WriteCall.wrote
      rw [hcall]
    unfold WriteCall.eaDelta at hfirst ⊢
    unfold WriteCall.records
    dsimp only at hfirst ⊢
    rw [hwrote] at hfirst ⊢
    by_cases hone : i = 1
    · subst hone
      exact h.writeInstruction hdump.symm hcall hfirst
    · obtain ⟨halike, hfp, hleft⟩ := atfWriteInstruction_missed hcall hone
      rw [decide_eq_false hone]
      have hsame := h.alike halike hfp hleft
      rwa [← List.append_nil rs, ← Bool.or_false moved] at hsame

end Tracked

/-! ### Runs -/

@[simp] theorem emit_isDumping (c : Ctx) (bytes : List Byte) :
    (c.emit bytes).ast.isDumping = c.ast.isDumping := rfl

@[simp] theorem emitToken_isDumping (c : Ctx) (token : Byte) :
    (c.emitToken token).ast.isDumping = c.ast.isDumping := by
  rw [← emit_nil (c.emitToken token), emitToken_emit]
  rfl

@[simp] theorem emitCommand_isDumping (c : Ctx) (command : Byte) (bytes : List Byte) :
    (c.emitCommand command bytes).ast.isDumping = c.ast.isDumping :=
  emitToken_isDumping c 0xff

theorem writeExec_isDumping (c : Ctx) (opcode : Opcode) (vea : Address) (last : AtfInstrEntry) :
    (c.writeExec opcode vea last).ast.isDumping = c.ast.isDumping := by
  have hkept (c : Ctx) (delta : U64) :
      (c.setWriteEaDelta delta).ast.isDumping = c.ast.isDumping := rfl
  unfold writeExec
  dsimp only
  split_ifs
  all_goals try simp only [hkept, emit_isDumping, emitToken_isDumping]
  all_goals rfl

theorem atfWriteInstruction_isDumping {i : Int}
    (h : w.atfWriteInstruction vpc opcode vea = .ok (i, w')) :
    w'.ast.isDumping = w.ast.isDumping := by
  by_cases hone : i = 1
  · subst hone
    obtain ⟨c, place, d, halike, -, -, hplace, rfl⟩ := atfWriteInstruction_wrote h
    show (Ctx.writeExec _ _ _ _).ast.isDumping = _
    rw [writeExec_isDumping]
    exact (cachePlace_keeps hplace).2.2.1.trans
      ((c.jumped_alike vpc).isDumping.trans halike.isDumping)
  · exact (atfWriteInstruction_missed h hone).1.isDumping

theorem atfWriteSet_isDumping {varnum : AtfVariable} {value : U64}
    (h : w.atfWriteSet varnum value = .ok w') : w'.ast.isDumping = w.ast.isDumping := by
  unfold atfWriteSet at h
  rcases hvar : w.ast.atfSetVariable varnum value with _ | ast
  · rw [hvar] at h
    cases h
  · rw [hvar] at h
    obtain rfl := Except.ok.inj h
    rw [← (AtfStream.setsVariable_of_ok hvar).isDumping]
    unfold atfWriteVariable
    dsimp only
    split_ifs <;> simp

/-- A call starts or ends a dump, or leaves it. -/
theorem exec_isDumping {call : WriteCall} (h : call.exec w = .ok w') :
    w'.ast.isDumping = call.dumpingAfter w.ast.isDumping := by
  cases call
  case writeGlobal varnum value =>
    change w.atfWriteGlobal varnum value = .ok w' at h
    unfold atfWriteGlobal at h
    split_ifs at h
    exact atfWriteSet_isDumping h
  case writeLocal varnum value =>
    change w.atfWriteLocal varnum value = .ok w' at h
    unfold atfWriteLocal at h
    split_ifs at h
    exact atfWriteSet_isDumping h
  case writeInstruction vpc opcode vea =>
    obtain ⟨i, hcall⟩ := exec_writeInstruction h
    exact atfWriteInstruction_isDumping hcall
  case writePte va pte =>
    obtain rfl := Except.ok.inj h
    show (w.atfWritePte va pte).ast.isDumping = w.ast.isDumping
    unfold atfWritePte
    rcases w.atfTlbFill_cases (pageAddrPage va) pte with
      ⟨d, hfill, halike, -, -⟩ | ⟨ent, d, hfill, halike, -, -⟩
    · dsimp only
      rw [hfill]
      exact halike.isDumping
    · dsimp only
      rw [hfill]
      dsimp only
      rw [emit_isDumping, emit_isDumping, emitToken_isDumping]
      exact halike.isDumping
  case writeDump pa va isDstream state =>
    obtain rfl := Except.ok.inj h
    show (w.atfWriteDump pa va isDstream state).ast.isDumping = w.ast.isDumping
    unfold atfWriteDump
    dsimp only
    split_ifs <;> rfl
  case writeDma pa length isDMAwrite =>
    obtain rfl := Except.ok.inj h
    exact emitToken_isDumping w 0xec
  all_goals
    obtain rfl := Except.ok.inj h
    first
      | exact emitCommand_isDumping ..
      | rfl

/-- **A whole run** is tracked. -/
theorem Tracked.run {calls : List WriteCall} (h : Tracked start w moved rs)
    (hbracketed : WriteCall.bracketed w.ast.isDumping calls = true)
    (hrun : WriteCall.run w calls = .ok w')
    (hfirst : moved = false → (WriteCall.runDeltas w calls).head? ≠ some (-1)) :
    w'.ast.isDumping = false ∧
      ∃ moved', Tracked start w' moved' (rs ++ WriteCall.runRecords w calls) := by
  induction calls generalizing w moved rs with
  | nil =>
      obtain rfl := Except.ok.inj hrun
      refine ⟨by simpa [WriteCall.bracketed] using hbracketed, moved, ?_⟩
      rwa [WriteCall.runRecords, WriteCall.trail, List.flatMap_nil, List.append_nil]
  | cons call calls ih =>
      rw [WriteCall.bracketed, Bool.and_eq_true, beq_iff_eq] at hbracketed
      rcases hexec : call.exec w with _ | d
      · rw [WriteCall.run, hexec] at hrun
        cases hrun
      · rw [WriteCall.run, hexec] at hrun
        have hdeltas : WriteCall.runDeltas w (call :: calls) =
            (call.eaDelta w).toList ++ WriteCall.runDeltas d calls := by
          rcases hdelta : call.eaDelta w with _ | delta
          · simp [WriteCall.runDeltas, WriteCall.trail, hexec, hdelta]
          · simp [WriteCall.runDeltas, WriteCall.trail, hexec, hdelta]
        have hrecords : WriteCall.runRecords w (call :: calls) =
            call.records w ++ WriteCall.runRecords d calls := by
          unfold WriteCall.runRecords
          rw [WriteCall.trail, hexec, List.flatMap_cons]
        rw [hdeltas] at hfirst
        have hcall := h.exec hbracketed.1 hexec fun hnot hone => hfirst hnot (by rw [hone]; rfl)
        rw [← exec_isDumping hexec] at hbracketed
        obtain ⟨hend, moved', htracked⟩ := ih hcall hbracketed.2 hrun fun hnot hone => by
          rw [Bool.or_eq_false_iff, Option.isSome_eq_false_iff, Option.isNone_iff_eq_none] at hnot
          exact hfirst hnot.1 (by rw [hnot.2]; exact hone)
        refine ⟨hend, moved', ?_⟩
        rw [hrecords, ← List.append_assoc]
        exact htracked

section Append

variable {xs ys : List WriteCall}

theorem trail_append (h : WriteCall.run c xs = .ok d) :
    WriteCall.trail c (xs ++ ys) = WriteCall.trail c xs ++ WriteCall.trail d ys := by
  induction xs generalizing c with
  | nil =>
      obtain rfl := Except.ok.inj h
      rfl
  | cons call xs ih =>
      rcases hexec : call.exec c with _ | e
      · rw [WriteCall.run, hexec] at h
        cases h
      · rw [WriteCall.run, hexec] at h
        rw [List.cons_append, WriteCall.trail, WriteCall.trail, hexec, List.cons_append]
        exact congrArg _ (ih h)

theorem run_append (h : WriteCall.run c xs = .ok d) (h' : WriteCall.run d ys = .ok e) :
    WriteCall.run c (xs ++ ys) = .ok e := by
  induction xs generalizing c with
  | nil =>
      obtain rfl := Except.ok.inj h
      exact h'
  | cons call xs ih =>
      rcases hexec : call.exec c with _ | c'
      · rw [WriteCall.run, hexec] at h
        cases h
      · rw [WriteCall.run, hexec] at h
        rw [List.cons_append, WriteCall.run, hexec]
        exact ih h

theorem runRecords_append (h : WriteCall.run c xs = .ok d) :
    WriteCall.runRecords c (xs ++ ys) = WriteCall.runRecords c xs ++ WriteCall.runRecords d ys := by
  unfold WriteCall.runRecords
  rw [trail_append h, List.flatMap_append]

theorem runDeltas_append (h : WriteCall.run c xs = .ok d) :
    WriteCall.runDeltas c (xs ++ ys) = WriteCall.runDeltas c xs ++ WriteCall.runDeltas d ys := by
  unfold WriteCall.runDeltas
  rw [trail_append h, List.filterMap_append]

end Append

/-! ### The whole file -/

/-- The file that `atf_file_open_single` makes, in a process that just started. -/
def created : Ctx :=
  ⟨{ AtfStream.zero with opened := true, fp := lwBytes atfMagicNumber }, .fresh⟩

def versionComment : CString where
  chars := "#Version: $Header$".toList.map fun ch => BitVec.ofNat 8 ch.toNat
  noNul := by decide
  fits := by decide

/-- The calls of `ATF_file_open`; `date` is the comment that has the date. -/
def header (date : CString) : List WriteCall :=
  [.writeGlobal .avgVERSION 3, .writeComment versionComment, .writeComment date]

def headerRecords (date : CString) : List Record :=
  [.action (.set .avgVERSION 3), .action (.comment versionComment.chars),
    .action (.comment date.chars)]

/-- `ATF_file_open` for writing. -/
def opened (date : CString) : Except WriteFault Ctx :=
  WriteCall.run created (header date)

theorem tracked_created : Tracked created created false [] := by
  have hfollows : Follows false created created := by
    refine ⟨.refl _, rfl, rfl, rfl, rfl, rfl, fun _ => ⟨rfl, fun _ => rfl⟩, rfl⟩
  exact ⟨⟨[], [], rfl, rfl, Nat.zero_le 32, by simp, [], created, created,
    (List.append_nil _).symm, .refl created 0, by simp,
      fun k => by simpa using Reads.refl created k,
    hfollows⟩, by decide, fun _ => rfl⟩

/-- **What was written is read back**: the header, all records but the instructions that were
only counted when the file was closed, and then the end of the file. -/
theorem reads_back {date : CString} {calls : List WriteCall} {c w : Ctx}
    (hopen : opened date = .ok c) (hbracketed : WriteCall.bracketed false calls = true)
    (hrun : WriteCall.run c calls = .ok w)
    (hfirst : (WriteCall.runDeltas c calls).head? ≠ some (-1)) :
    ∃ read counted ast d,
      headerRecords date ++ WriteCall.runRecords c calls = read ++ counted ∧
      AtfStream.zero.atfFileOpen ⟨w.ast.fp, none⟩ = some ast ∧
      (⟨ast, .fresh⟩ : Ctx).readRecords (read.length + 1) = .ok (read ++ [.action .eof], d) ∧
      counted.length = w.ast.instrLeft ∧ counted.length < 32 ∧
      ∀ x ∈ counted, x.isInstr = true := by
  have hdeltas : WriteCall.runDeltas created (header date ++ calls)
      = WriteCall.runDeltas c calls := runDeltas_append hopen
  have hheader : WriteCall.runRecords created (header date ++ calls)
      = headerRecords date ++ WriteCall.runRecords c calls := runRecords_append hopen
  have hwhole : WriteCall.bracketed created.ast.isDumping (header date ++ calls) = true :=
    hbracketed
  obtain ⟨hend, moved, htracked⟩ := tracked_created.run hwhole (run_append hopen hrun)
    fun _ => by rwa [hdeltas]
  obtain ⟨done, pend, hrecords, htracks⟩ := htracked.tracks
  rw [List.nil_append, hheader] at hrecords
  obtain ⟨bytes, d, e, hfp, hdone, hquiet, hpend, hfollows⟩ := htracks.reads
  -- the reader checks the magic number, and then reads what was written behind it
  have hfile : AtfStream.zero.atfFileOpen ⟨w.ast.fp, none⟩
      = some { AtfStream.zero with fp := bytes, opened := true } := by
    unfold AtfStream.atfFileOpen
    rw [hfp, show created.ast.fp = lwBytes atfMagicNumber from rfl, getLw_lwBytes]
    rfl
  have hread {d : Ctx} {read : List Record} (h : created.Reads 0 bytes read d 0)
      (hd : d.ast.isDumping = false) :
      (⟨{ AtfStream.zero with fp := bytes, opened := true }, .fresh⟩ : Ctx).readRecords
        (read.length + 1) = .ok (read ++ [.action .eof], d.fed [] 0) := by
    have hpasses := h []
    rw [List.append_nil] at hpasses
    exact hpasses.readRecords rfl rfl hd
  by_cases hempty : pend = []
  · rw [hempty] at hpend
    have hall := hdone.trans (hpend 0)
    rw [List.append_nil, List.append_nil] at hall
    exact ⟨done, pend, _, _, hrecords, hfile, hread hall (hfollows.dumping.symm.trans hend),
      htracks.length,
      htracks.length ▸ htracked.bound, htracks.isInstr⟩
  · exact ⟨done, pend, _, _, hrecords, hfile, hread hdone (hquiet hempty), htracks.length,
      htracks.length ▸ htracked.bound, htracks.isInstr⟩

/-- A load is executed twice, and then something that is no load, twice. -/
def loadRun : List WriteCall :=
  [.writeGlobal .avgCPU 1, .writeLocal .avlSUPPAG 0x100,
    .writeInstruction 0x2000 0xa4000000 0x10000, .writeInstruction 0x2000 0xa4000000 0x10008,
    .writeComment ⟨[0x68, 0x69], by decide, by decide⟩, .writeDumpStart,
    .writeDump 0x12345640 0x80 1 3, .writeDumpEnd,
    .writeInstruction 0x2004 0x47ff041f 0, .writeInstruction 0x2004 0x47ff041f 0]

theorem reads_back_loadRun : ∃ c w, opened versionComment = .ok c ∧
    WriteCall.run c loadRun = .ok w ∧ ∃ read counted ast d,
      headerRecords versionComment ++ WriteCall.runRecords c loadRun = read ++ counted ∧
      AtfStream.zero.atfFileOpen ⟨w.ast.fp, none⟩ = some ast ∧
      (⟨ast, .fresh⟩ : Ctx).readRecords (read.length + 1) = .ok (read ++ [.action .eof], d) ∧
      counted.length = w.ast.instrLeft ∧ counted.length < 32 ∧
      ∀ x ∈ counted, x.isInstr = true :=
  ⟨_, _, rfl, rfl, @reads_back versionComment loadRun _ _ rfl rfl rfl (by decide)⟩

/-- A first move by -1 is read back as no move. -/
example : ∃ c w ast d, opened versionComment = .ok c ∧ WriteCall.run c
    [.writeLocal .avlSUPPAG 0x100, .writeInstruction 0x2000 0xa4000000 0x10001,
      .writeInstruction 0x2000 0xa4000000 0x10000] = .ok w ∧
    AtfStream.zero.atfFileOpen ⟨w.ast.fp, none⟩ = some ast ∧
    (⟨ast, .fresh⟩ : Ctx).readRecords 6 = .ok (headerRecords versionComment ++
      [.action (.set .avlSUPPAG 0x100),
        .instr ⟨0, by decide⟩ 0x2000 0xa4000000 (some 0x10001),
        .instr ⟨0, by decide⟩ 0x2000 0xa4000000 (some 0x10001)], d) :=
  ⟨_, _, _, _, rfl, rfl, rfl, rfl⟩

end Ctx

end AsimFeeder.Atf
