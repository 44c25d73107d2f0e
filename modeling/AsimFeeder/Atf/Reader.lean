/-
Reading the records of a trace.

`readStep` is one pass through the loop of `ATF_read_action`: it takes one token with its
operands off the file, or one instruction off the sequence that is left to return, or one
entry off a cache dump, and it returns an action or goes round again.

`fgetc` returns -1 at the end of the file.  A string that the file ends in the middle of
is returned as far as it goes; the rest of its buffer is not modelled.
-/
import AsimFeeder.Atf.Translate
import AsimFeeder.Lib.Checks

namespace AsimFeeder.Atf

/-- `AtfAction_enum`, with the values that come with each. -/
inductive AtfAction
  | instrOld (vpc : Address) (opcode : Opcode) (vea : Address)
  | instrNew (vpc : Address) (opcode : Opcode) (vea : Address)
  | set (varnum : AtfVariable) (value : U64)
  | pte (vpage : Address) (pte : U64)
  | dma (pa : Address) (len : BitVec 32) (isDMAwrite : Byte)
  | dump (pa va : Address) (isDstream : U64) (state : U64)
  | comment (string : List Byte)
  | brAction (action : Byte)
  | interrupt
  | procTextInfo (pid : U64) (textStart textEnd : Address) (comm : List Byte)
  | procBssInfo (pid : U64) (bssStart bssEnd : Address)
  | threadUstackAddrInfo (pid tid : U64) (ustackStart ustackEnd : Address)
  | threadUstackGrowInfo (pid tid ustackCurrSize : U64) (ustackGrowUp : Byte)
  | threadKstackInfo (pid tid : U64) (kstackStart kstackEnd : Address)
  | libloaderInfo (textStart textEnd bssStart bssEnd : Address)
  | libInfo (textStart textEnd bssStart bssEnd : Address)
  | kernelSwitch (inKernel : Byte) (addr : Address) (string : List Byte)
  | idleThread (idleStart : Byte)
  | eof
  deriving DecidableEq, Repr

/-! ### Taking numbers off the file -/

def fgetc : List Byte → BitVec 32 × List Byte
  | [] => (-1, [])
  | b :: fp => (b.setWidth 32, fp)

def getByte (fp : List Byte) : Byte × List Byte :=
  let (datum, fp) := fgetc fp
  (datum.setWidth 8, fp)

/-- Sign extend. -/
def extend3 (datum : BitVec 32) : BitVec 32 :=
  if datum &&& 0x800000 ≠ 0 then datum ||| 0xff000000 else datum

def getDelta3 (fp : List Byte) : BitVec 32 × List Byte :=
  let (b0, fp) := fgetc fp
  let (b1, fp) := fgetc fp
  let (b2, fp) := fgetc fp
  (extend3 (b0 ||| (b1 <<< 8) ||| (b2 <<< 16)), fp)

def getLw (fp : List Byte) : BitVec 32 × List Byte :=
  let (b0, fp) := fgetc fp
  let (b1, fp) := fgetc fp
  let (b2, fp) := fgetc fp
  let (b3, fp) := fgetc fp
  (b0 ||| (b1 <<< 8) ||| (b2 <<< 16) ||| (b3 <<< 24), fp)

def getQw (fp : List Byte) : U64 × List Byte :=
  let (datuml, fp) := getLw fp
  let (datumh, fp) := getLw fp
  (datuml.setWidth 64 ||| (datumh.setWidth 64 <<< 32), fp)

@[simp] theorem fgetc_snd (fp : List Byte) : (fgetc fp).2 = fp.drop 1 := by
  cases fp <;> rfl

@[simp] theorem getByte_snd (fp : List Byte) : (getByte fp).2 = fp.drop 1 :=
  fgetc_snd fp

@[simp] theorem getDelta3_snd (fp : List Byte) : (getDelta3 fp).2 = fp.drop 3 := by
  simp only [getDelta3, fgetc_snd, List.drop_drop]

@[simp] theorem getLw_snd (fp : List Byte) : (getLw fp).2 = fp.drop 4 := by
  simp only [getLw, fgetc_snd, List.drop_drop]

@[simp] theorem getQw_snd (fp : List Byte) : (getQw fp).2 = fp.drop 8 := by
  simp only [getQw, getLw_snd, List.drop_drop]

/-- The string ends at its first NUL. -/
def atfGetString (fp : List Byte) : Except Fault (List Byte × List Byte) :=
  let (size, fp) := getLw fp
  if size.toNat + 2 < 2 ^ 31 then
    .ok ((fp.take size.toNat).takeWhile (· ≠ 0), fp.drop size.toNat)
  else
    .error .outOfBounds

/-- `VALUE_DELTAT`: decode a 5-bit delta value. -/
def valueDeltat (value : Byte) : U64 :=
  let n := (value &&& 0x1f).setWidth 64
  if value &&& 0x20 ≠ 0 then -n - 1 else n + 1

namespace Ctx

variable (c : Ctx)

def setFp (fp : List Byte) : Ctx :=
  { c with ast := { c.ast with fp } }

def onAst (f : AtfStream → AtfStream) : Ctx :=
  { c with ast := f c.ast }

/-- Take something off the file. -/
def get {α : Type} (f : List Byte → α × List Byte) : α × Ctx :=
  ((f c.ast.fp).1, c.setFp (f c.ast.fp).2)

/-- Take something off the file that is only there sometimes. -/
def getIf {w : Nat} (p : Bool) (f : List Byte → BitVec w × List Byte) : BitVec w × Ctx :=
  if p then c.get f else (0, c)

def getString : Except Fault (List Byte × Ctx) := do
  let (string, fp) ← atfGetString c.ast.fp
  .ok (string, c.setFp fp)

/-! ### The cases of a pass -/

/-- `RETURN_OR_CONTINUE`: the action is returned if we are on the correct CPU number. -/
def returnOrContinue (action : AtfAction) : Option AtfAction × Ctx :=
  (if c.ast.limitCpuPtr = none ∨ c.ast.limitCpuPtr = some c.ast.cpuPtr then some action else none,
    c)

/-- `return_instr_old`, after the lookup. -/
def returnInstrOld (set : SetVea) : Except Fault (Option AtfAction × Ctx) := do
  let (entry, d) ← c.atfCacheLookup set
  .ok ((d.onAst (·.atfSetPc 4 true)).returnOrContinue (.instrOld c.vpc entry.opcode entry.ea))

/-- `return_instr_new`. -/
def returnInstrNew (opcode : Opcode) (lastVea : Address) :
    Except Fault (Option AtfAction × Ctx) := do
  let d ← c.atfCacheOpcode opcode lastVea
  .ok ((d.onAst (·.atfSetPc 4 true)).returnOrContinue (.instrNew c.vpc opcode lastVea))

/-- The variable is set, and this is returned. -/
def returnSet (varnum : AtfVariable) (value : U64) : Except Fault (Option AtfAction × Ctx) := do
  let ast ← c.ast.atfSetVariable varnum value
  .ok (some (.set varnum value), { c with ast })

def setEaDelta (delta : U64) : Ctx :=
  { c with sh := { c.sh with readEaDelta := delta } }

/-- An instruction whose effective address moved by `delta`. -/
def execEaRel (delta : U64) : Except Fault (Option AtfAction × Ctx) :=
  (c.setEaDelta delta).returnInstrOld (.relative delta)

/-- The page table entry is filled; the page comes with the number of the entry. -/
def returnPte (delta pte : U64) : Except Fault (Option AtfAction × Ctx) :=
  let vpage := pageAddrPage delta
  let ent := (pageAddrOffset delta).toNat
  if ent < tlbAssoc then
    .ok ((c.atfTlbFillEntry vpage pte (Fin.ofNat tlbAssoc ent)).returnOrContinue (.pte vpage pte))
  else
    .error .outOfBounds

/-- An entry of a cache dump, or its end. -/
def readDump : Except Fault (Option AtfAction × Ctx) :=
  let (lw, c) := c.get getLw
  let pa : Address := lw.setWidth 64
  if pa ≠ 0 then
    let (upper, c) := c.getIf (pa &&& 4 ≠ 0) getLw
    let pa := pa ||| (upper.setWidth 64 <<< 32)
    let (va, c) := c.getIf (pa &&& 6 = 6) getQw
    .ok (some (.dump (pa &&& ~~~0x3f) va (pa &&& 1) ((pa >>> 3) &&& 3)), c)
  else
    .ok (none, c.onAst fun ast => { ast with isDumping := false })

/-- The extended command `command`; an unknown one is passed over. -/
def readCommand (command : Byte) : Except Fault (Option AtfAction × Ctx) :=
  match command with
  | 0 => .ok (none, c.onAst fun ast => { ast with isDumping := true })
  | 1 => do
      let (string, c) ← c.getString
      .ok (some (.comment string), c)
  | 2 => do
      -- not passed outside yet
      let (_, c) := c.get getQw
      let (_, c) := c.get getQw
      let (_, c) ← c.getString
      .ok (none, c)
  | 3 => .ok (some .interrupt, c)
  | 4 => .ok (none, c)
  | 5 =>
      let (action, c) := c.get getByte
      .ok (some (.brAction action), c)
  | 6 => do
      let (pid, c) := c.get getQw
      let (textStart, c) := c.get getQw
      let (textEnd, c) := c.get getQw
      let (comm, c) ← c.getString
      .ok (some (.procTextInfo pid textStart textEnd comm), c)
  | 7 =>
      let (pid, c) := c.get getQw
      let (bssStart, c) := c.get getQw
      let (bssEnd, c) := c.get getQw
      .ok (some (.procBssInfo pid bssStart bssEnd), c)
  | 8 =>
      let (pid, c) := c.get getQw
      let (tid, c) := c.get getQw
      let (ustackStart, c) := c.get getQw
      let (ustackEnd, c) := c.get getQw
      .ok (some (.threadUstackAddrInfo pid tid ustackStart ustackEnd), c)
  | 9 =>
      let (pid, c) := c.get getQw
      let (tid, c) := c.get getQw
      let (size, c) := c.get getQw
      let (growUp, c) := c.get getByte
      .ok (some (.threadUstackGrowInfo pid tid size growUp), c)
  | 10 =>
      let (pid, c) := c.get getQw
      let (tid, c) := c.get getQw
      let (kstackStart, c) := c.get getQw
      let (kstackEnd, c) := c.get getQw
      .ok (some (.threadKstackInfo pid tid kstackStart kstackEnd), c)
  | 11 =>
      let (textStart, c) := c.get getQw
      let (textEnd, c) := c.get getQw
      let (bssStart, c) := c.get getQw
      let (bssEnd, c) := c.get getQw
      .ok (some (.libloaderInfo textStart textEnd bssStart bssEnd), c)
  | 12 =>
      let (textStart, c) := c.get getQw
      let (textEnd, c) := c.get getQw
      let (bssStart, c) := c.get getQw
      let (bssEnd, c) := c.get getQw
      .ok (some (.libInfo textStart textEnd bssStart bssEnd), c)
  | 13 => do
      let (inKernel, c) := c.get getByte
      let (addr, c) := c.get getQw
      let (string, c) ← c.getString
      .ok (some (.kernelSwitch inKernel addr string), c)
  | 14 =>
      let (idleStart, c) := c.get getByte
      .ok (some (.idleThread idleStart), c)
  | _ => .ok (none, c)

/-- A token of 0xe0 and above. -/
def readFormat (token : Byte) : Except Fault (Option AtfAction × Ctx) :=
  match token with
  | 0xe0 =>
      let (delta, c) := c.get getDelta3
      .ok (none, c.onAst (·.atfSetPc (delta.signExtend 64) true))
  | 0xe1 =>
      let (delta, c) := c.get getQw
      .ok (none, c.onAst (·.atfSetPc delta false))
  | 0xe7 => c.returnInstrOld (.relative c.sh.readEaDelta)
  | 0xe2 =>
      let (delta, c) := c.get getDelta3
      c.execEaRel (delta.signExtend 64)
  | 0xe3 =>
      let (lastVea, c) := c.get getQw
      c.returnInstrOld (.absolute lastVea)
  | 0xe4 =>
      let (opcode, c) := c.get getLw
      c.returnInstrNew opcode 0
  | 0xe5 =>
      let (opcode, c) := c.get getLw
      let (lastVea, c) := c.get getQw
      c.returnInstrNew opcode lastVea
  | 0xe6 =>
      let (opcode, c) := c.get getLw
      let (lastVea, c) := c.get getLw
      c.returnInstrNew opcode (lastVea.setWidth 64)
  | 0xe8 =>
      let (varnum, c) := c.get getByte
      let (byte, c) := c.get getByte
      match AtfVariable.ofByte varnum with
      | some varnum => c.returnSet varnum (byte.signExtend 64 + c.ast.atfGetVariable varnum)
      | none => .error .outOfBounds
  | 0xe9 =>
      let (varnum, c) := c.get getByte
      let (value, c) := c.get getQw
      match AtfVariable.ofByte varnum with
      | some varnum => c.returnSet varnum value
      | none => .error .outOfBounds
  | 0xea => c.returnSet .avgEPOCH (c.ast.globalVar .avgEPOCH + 1)
  | 0xeb =>
      let (delta, c) := c.get getQw
      let (pte, c) := c.get getQw
      c.returnPte delta pte
  | 0xec =>
      let (pa, c) := c.get getQw
      let (len, c) := c.get getLw
      let (isDMAwrite, c) := c.get getByte
      .ok (c.returnOrContinue (.dma pa len isDMAwrite))
  | 0xff =>
      let (command, c) := c.get getByte
      c.readCommand command
  | _ => .error (.badFormat token)

def readToken (token : Byte) : Except Fault (Option AtfAction × Ctx) :=
  if token &&& 0xe0 = 0x80 then
    .ok (none, c.onAst fun ast => { ast with
      instrLeft := ast.instrLeft + ((token &&& 0x1f).toNat + 1) })
  else if token &&& 0xc0 = 0x00 then
    .ok (none, c.onAst (·.atfSetPc (valueDeltat token <<< 2) true))
  else if token &&& 0xc0 = 0x40 then
    c.execEaRel (valueDeltat token <<< 2)
  else if token &&& 0xf0 = 0xd0 then
    c.returnSet .avgCPU ((token &&& 0x0f).setWidth 64)
  else if token &&& 0xe0 = 0xe0 then
    c.readFormat token
  else
    .error (.badToken token)

/-- One pass through the loop of `ATF_read_action`. -/
def readStep : Except Fault (Option AtfAction × Ctx) :=
  if c.ast.instrLeft ≠ 0 then
    (c.onAst fun ast => { ast with instrLeft := ast.instrLeft - 1 }).returnInstrOld .keep
  else if c.ast.isDumping then
    c.readDump
  else
    match c.ast.fp with
    | [] => .ok (some .eof, c)
    | token :: fp => (c.setFp fp).readToken token

end Ctx

/-! ### The loop -/

/-- The loop of `ATF_read_action`, for so many passes. -/
def readLoop : Nat → Ctx → Except Fault (AtfAction × Ctx)
  | 0, _ => .error .running
  | n + 1, c => do
      match ← c.readStep with
      | (some action, c) => .ok (action, c)
      | (none, c) => readLoop n c

/-- What is still to be read; each pass that returns nothing leaves less. -/
def Ctx.unread (c : Ctx) : Nat :=
  33 * c.ast.fp.length + c.ast.instrLeft

def atfReadAction (c : Ctx) : Except Fault (AtfAction × Ctx) :=
  readLoop (c.unread + 1) c

/-! ### The loop ends -/

/-- A case puts nothing back on the file, and adds at most `k` instructions. -/
def Shrinks (k : Nat) (c : Ctx) : Except Fault (Option AtfAction × Ctx) → Prop
  | .ok (_, d) => d.ast.fp.length ≤ c.ast.fp.length ∧ d.ast.instrLeft ≤ c.ast.instrLeft + k
  | .error e => e ≠ .running

theorem Shrinks.of_le {k : Nat} {c d : Ctx} {r : Except Fault (Option AtfAction × Ctx)}
    (h : Shrinks k d r) (hfp : d.ast.fp.length ≤ c.ast.fp.length)
    (hleft : d.ast.instrLeft ≤ c.ast.instrLeft) : Shrinks k c r := by
  cases r with
  | ok r => exact ⟨h.1.trans hfp, h.2.trans (Nat.add_le_add_right hleft k)⟩
  | error e => exact h

namespace AtfStream

variable {ast ast' : AtfStream}

theorem Touched.fp (h : ast.Touched ast') : ast'.fp = ast.fp := by
  rcases h with rfl | ⟨ent, rfl⟩ <;> rfl

theorem Touched.instrLeft (h : ast.Touched ast') : ast'.instrLeft = ast.instrLeft := by
  rcases h with rfl | ⟨ent, rfl⟩ <;> rfl

theorem atfSetPc_fp (pc : Address) (isRelative : Bool) :
    (ast.atfSetPc pc isRelative).fp = ast.fp := by
  cases isRelative <;> rfl

theorem atfSetPc_instrLeft (pc : Address) (isRelative : Bool) :
    (ast.atfSetPc pc isRelative).instrLeft = ast.instrLeft := by
  cases isRelative <;> rfl

end AtfStream

namespace Ctx

variable (c : Ctx)

theorem shrinks_cachePlace {f : Address × Ctx → Except Fault (Option AtfAction × Ctx)}
    (h : ∀ place d, c.ast.Touched d.ast → Shrinks 0 c (f (place, d))) :
    Shrinks 0 c (c.cachePlace >>= f) := by
  unfold cachePlace
  have htouched := c.atfTlbTranslate_touched c.vpc true
  generalize c.atfTlbTranslate c.vpc true = r at htouched
  obtain ⟨ppc, d⟩ := r
  unfold atfCacheLocation
  dsimp only
  split_ifs
  · exact h _ _ htouched
  · exact fun h => Fault.noConfusion h

theorem shrinks_of_touched {d : Ctx} (h : c.ast.Touched d.ast) (action : AtfAction) :
    Shrinks 0 c (.ok ((d.onAst (·.atfSetPc 4 true)).returnOrContinue action)) := by
  refine ⟨?_, ?_⟩
  · exact le_of_eq ((AtfStream.atfSetPc_fp _ _).trans h.fp ▸ rfl)
  · exact le_of_eq ((AtfStream.atfSetPc_instrLeft _ _).trans h.instrLeft)

theorem shrinks_returnInstrOld (set : SetVea) : Shrinks 0 c (c.returnInstrOld set) := by
  unfold returnInstrOld atfCacheLookup
  rw [bind_assoc]
  exact c.shrinks_cachePlace fun place d h => c.shrinks_of_touched (d := d.setInstr place _) h _

theorem shrinks_returnInstrNew (opcode : Opcode) (vea : Address) :
    Shrinks 0 c (c.returnInstrNew opcode vea) := by
  unfold returnInstrNew atfCacheOpcode
  rw [bind_assoc]
  exact c.shrinks_cachePlace fun place d h => c.shrinks_of_touched (d := d.setInstr place _) h _

theorem shrinks_returnSet (varnum : AtfVariable) (value : U64) :
    Shrinks 0 c (c.returnSet varnum value) := by
  unfold returnSet AtfStream.atfSetVariable
  split_ifs
  · exact ⟨le_refl _, le_refl _⟩
  · exact ⟨le_refl _, le_refl _⟩
  · exact fun h => Fault.noConfusion h
  · exact ⟨le_refl _, le_refl _⟩

theorem shrinks_getString {d : Ctx}
    {f : List Byte × Ctx → Except Fault (Option AtfAction × Ctx)}
    (h : ∀ string fp, fp.length ≤ d.ast.fp.length → Shrinks 0 c (f (string, d.setFp fp))) :
    Shrinks 0 c (d.getString >>= f) := by
  unfold getString atfGetString
  dsimp only
  rw [bind_assoc]
  split_ifs
  · refine h _ _ ?_
    rw [getLw_snd, List.drop_drop, List.length_drop]
    exact Nat.sub_le _ _
  · exact fun h => Fault.noConfusion h

theorem shrinks_readCommand (command : Byte) : Shrinks 0 c (c.readCommand command) := by
  unfold readCommand
  split
  all_goals try simp only [get]
  all_goals try refine shrinks_getString _ fun string fp hfp => ?_
  all_goals simp only [Shrinks, setFp, onAst, getQw_snd, getByte_snd, List.drop_drop,
    List.length_drop] at *
  all_goals omega

theorem shrinks_execEaRel (delta : U64) : Shrinks 0 c (c.execEaRel delta) :=
  (c.setEaDelta delta).shrinks_returnInstrOld _

theorem shrinks_returnOrContinue {d : Ctx} (action : AtfAction)
    (hfp : d.ast.fp.length ≤ c.ast.fp.length) (hleft : d.ast.instrLeft ≤ c.ast.instrLeft) :
    Shrinks 0 c (.ok (d.returnOrContinue action)) :=
  ⟨hfp, hleft⟩

theorem shrinks_returnPte (delta pte : U64) : Shrinks 0 c (c.returnPte delta pte) := by
  unfold returnPte
  dsimp only
  split_ifs
  · exact shrinks_returnOrContinue _ _ (le_refl _) (le_refl _)
  · exact fun h => Fault.noConfusion h

theorem shrinks_readFormat (token : Byte) : Shrinks 0 c (c.readFormat token) := by
  -- what is read of a token comes off the file first
  have hdrop (d : Ctx) (n : Nat) {r : Except Fault (Option AtfAction × Ctx)}
      (h : Shrinks 0 (d.setFp (d.ast.fp.drop n)) r) : Shrinks 0 d r :=
    h.of_le ((List.length_drop ..).trans_le (Nat.sub_le _ _)) (le_refl _)
  have hjump (d : Ctx) (pc : Address) (isRelative : Bool) :
      Shrinks 0 d (.ok (none, d.onAst (·.atfSetPc pc isRelative))) :=
    ⟨(congrArg _ (AtfStream.atfSetPc_fp ..)).le, (AtfStream.atfSetPc_instrLeft ..).le⟩
  unfold readFormat
  split
  all_goals try simp only [get, getByte_snd, getDelta3_snd, getLw_snd, getQw_snd]
  · exact hdrop _ _ (hjump _ _ _)
  · exact hdrop _ _ (hjump _ _ _)
  · exact shrinks_returnInstrOld _ _
  · exact hdrop _ _ (shrinks_execEaRel _ _)
  · exact hdrop _ _ (shrinks_returnInstrOld _ _)
  · exact hdrop _ _ (shrinks_returnInstrNew _ _ _)
  · exact hdrop _ _ (hdrop _ _ (shrinks_returnInstrNew _ _ _))
  · exact hdrop _ _ (hdrop _ _ (shrinks_returnInstrNew _ _ _))
  · split
    · exact hdrop _ _ (hdrop _ _ (shrinks_returnSet _ _ _))
    · exact fun h => Fault.noConfusion h
  · split
    · exact hdrop _ _ (hdrop _ _ (shrinks_returnSet _ _ _))
    · exact fun h => Fault.noConfusion h
  · exact shrinks_returnSet _ _ _
  · exact hdrop _ _ (hdrop _ _ (shrinks_returnPte _ _ _))
  · exact hdrop _ _ (hdrop _ _ (hdrop _ _ (shrinks_returnOrContinue _ _ (le_refl _) (le_refl _))))
  · exact hdrop _ _ (shrinks_readCommand _ _)
  · exact fun h => Fault.noConfusion h

theorem shrinks_readToken (token : Byte) : Shrinks 32 c (c.readToken token) := by
  have hweak {r : Except Fault (Option AtfAction × Ctx)} (h : Shrinks 0 c r) :
      Shrinks 32 c r := by
    cases r with
    | ok r => exact ⟨h.1, h.2.trans (Nat.add_le_add_left (Nat.zero_le 32) _)⟩
    | error e => exact h
  unfold readToken
  split_ifs
  · refine ⟨le_refl _, Nat.add_le_add_left ?_ _⟩
    have hle : (token &&& 0x1f).toNat ≤ 31 := by
      rw [BitVec.toNat_and]
      exact Nat.and_le_right
    exact Nat.succ_le_succ hle
  · exact hweak ⟨(congrArg _ (AtfStream.atfSetPc_fp ..)).le, (AtfStream.atfSetPc_instrLeft ..).le⟩
  · exact hweak (shrinks_execEaRel _ _)
  · exact hweak (shrinks_returnSet _ _ _)
  · exact hweak (shrinks_readFormat _ _)
  · exact fun h => Fault.noConfusion h

/-- A pass that returns nothing leaves less to be read. -/
def Advances : Except Fault (Option AtfAction × Ctx) → Prop
  | .ok (none, d) => d.unread < c.unread
  | .ok (some _, _) => True
  | .error e => e ≠ .running

theorem advances_readStep : c.Advances c.readStep := by
  have hunread {k : Nat} {d : Ctx} {r : Except Fault (Option AtfAction × Ctx)}
      (h : Shrinks k d r) (hd : d.unread + k < c.unread) : c.Advances r := by
    cases r with
    | error e => exact h
    | ok r =>
        obtain ⟨_ | _, e⟩ := r
        · have := h.1
          have := h.2
          simp only [unread, Advances] at hd ⊢
          omega
        · trivial
  unfold readStep
  split_ifs with hleft hdumping
  · refine hunread (shrinks_returnInstrOld _ _) ?_
    simp only [unread, onAst]
    omega
  · unfold readDump
    simp only [get, getLw_snd]
    split_ifs
    all_goals try trivial
    -- the dump ends with a word of zeros, which the end of the file is not
    rename_i hzero
    cases hfp : c.ast.fp with
    | nil =>
        rw [hfp] at hzero
        exact absurd hzero (by decide)
    | cons b fp =>
        simp only [Advances, unread, onAst, setFp, hfp, List.length_drop, List.length_cons]
        omega
  · cases hfp : c.ast.fp with
    | nil => trivial
    | cons token fp =>
        refine hunread (shrinks_readToken _ _) ?_
        simp only [unread, setFp, hfp, List.length_cons]
        omega

end Ctx

end AsimFeeder.Atf
