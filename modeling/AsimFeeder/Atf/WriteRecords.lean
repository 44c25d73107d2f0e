/-
The other records of a trace, and runs of the writer.

A variable is written when it changes, and as shortly as its change allows.  An entry of a
cache dump has no token: it stands between the start and the end of the dump, as a word
whose bits below the cache line say what else is there.

A call does what it does to the stream.  What a reader is to make of it is its `records`:
an instruction counts when its call returned 1, a variable when it changed, and a page
table entry when it was filled.
-/
import AsimFeeder.Atf.WriteInstr

namespace AsimFeeder.Atf

/-- `Boolean` -/
abbrev Boolean := BitVec 32

/-- A C string, and room for it where it is read. -/
structure CString where
  chars : List Byte
  noNul : ∀ b ∈ chars, b ≠ 0
  fits : chars.length + 2 < 2 ^ 31

/-- `EMIT_LW` of the length, and `EMIT_STRING`. -/
def stringBytes (s : CString) : List Byte :=
  lwBytes (BitVec.ofNat 32 s.chars.length) ++ s.chars

/-- `varnum>avl_MAX && varnum<avg_MAX` -/
def AtfVariable.isGlobal : AtfVariable → Bool
  | avgCPU | avgEPOCH | avgVERSION | avgOS => true
  | _ => false

/-- How a call of the writer can end the process. -/
inductive WriteFault
  | badGlobal (varnum : AtfVariable)
  | badLocal (varnum : AtfVariable)
  | fault (f : Fault)
  deriving DecidableEq, Repr

namespace Ctx

variable (c : Ctx)

/-! ### Variables -/

/-- `atf_write_variable`: write a set to the given variable. -/
def atfWriteVariable (varnum : AtfVariable) (value oldValue : U64) : Ctx :=
  let delta := value - oldValue
  if delta = 0 then c
  else if varnum = .avgCPU ∧ value.toNat < 0xf then
    c.emitToken (0xd0 ||| (value.setWidth 8 &&& 0xf))
  else if varnum = .avgEPOCH ∧ delta = 1 then
    c.emitToken 0xea
  else if -0x7f < delta.toInt ∧ delta.toInt < 0x7f then
    (c.emitToken 0xe8).emit [varnum.toByte, delta.setWidth 8]
  else
    (c.emitToken 0xe9).emit (varnum.toByte :: qwBytes value)

/-- Determine difference and set. -/
def atfWriteSet (varnum : AtfVariable) (value : U64) : Except WriteFault Ctx := do
  let oldValue := c.ast.atfGetVariable varnum
  let ast ← (c.ast.atfSetVariable varnum value).mapError .fault
  .ok ({ c with ast }.atfWriteVariable varnum value oldValue)

/-- `ATF_write_global` -/
def atfWriteGlobal (varnum : AtfVariable) (value : U64) : Except WriteFault Ctx :=
  if varnum.isGlobal then c.atfWriteSet varnum value else .error (.badGlobal varnum)

/-- `ATF_write_local` -/
def atfWriteLocal (varnum : AtfVariable) (value : U64) : Except WriteFault Ctx :=
  if varnum.isLocal then c.atfWriteSet varnum value else .error (.badLocal varnum)

/-! ### Informationals -/

/-- `aft_COMMAND`, with the command and what comes with it. -/
def emitCommand (command : Byte) (bytes : List Byte) : Ctx :=
  (c.emitToken 0xff).emit (command :: bytes)

def atfWriteComment (comment : CString) : Ctx :=
  c.emitCommand 1 (stringBytes comment)

def atfWriteCommentRout (ppcStart ppcEnd : Address) (comment : CString) : Ctx :=
  c.emitCommand 2 (qwBytes ppcStart ++ qwBytes ppcEnd ++ stringBytes comment)

def atfWriteInterrupt : Ctx :=
  c.emitCommand 3 []

def atfWriteResync : Ctx :=
  c.emitCommand 4 []

def atfWriteBranchAction (action : Byte) : Ctx :=
  c.emitCommand 5 [action]

def atfWriteProcTextInfo (pid : U64) (textStart textEnd : Address) (comment : CString) : Ctx :=
  c.emitCommand 6 (qwBytes pid ++ qwBytes textStart ++ qwBytes textEnd ++ stringBytes comment)

def atfWriteProcBssInfo (pid : U64) (bssStart bssEnd : Address) : Ctx :=
  c.emitCommand 7 (qwBytes pid ++ qwBytes bssStart ++ qwBytes bssEnd)

def atfWriteThreadUstackAddrInfo (pid tid : U64) (ustackStart ustackEnd : Address) : Ctx :=
  c.emitCommand 8 (qwBytes pid ++ qwBytes tid ++ qwBytes ustackStart ++ qwBytes ustackEnd)

def atfWriteThreadUstackGrowInfo (pid tid ustackCurrSize : U64) (ustackGrowUp : Boolean) : Ctx :=
  c.emitCommand 9
    (qwBytes pid ++ qwBytes tid ++ qwBytes ustackCurrSize ++ [ustackGrowUp.setWidth 8])

def atfWriteThreadKstackInfo (pid tid : U64) (kstackStart kstackEnd : Address) : Ctx :=
  c.emitCommand 10 (qwBytes pid ++ qwBytes tid ++ qwBytes kstackStart ++ qwBytes kstackEnd)

def atfWriteLibloaderInfo (textStart textEnd bssStart bssEnd : Address) : Ctx :=
  c.emitCommand 11 (qwBytes textStart ++ qwBytes textEnd ++ qwBytes bssStart ++ qwBytes bssEnd)

def atfWriteLibInfo (textStart textEnd bssStart bssEnd : Address) : Ctx :=
  c.emitCommand 12 (qwBytes textStart ++ qwBytes textEnd ++ qwBytes bssStart ++ qwBytes bssEnd)

def atfWriteKernelSwitch (inKernel : Boolean) (addr : Address) (comment : CString) : Ctx :=
  c.emitCommand 13 (inKernel.setWidth 8 :: (qwBytes addr ++ stringBytes comment))

def atfWriteIdleThread (idleStart : Boolean) : Ctx :=
  c.emitCommand 14 [idleStart.setWidth 8]

/-! ### DMA, and cache dumping -/

def atfWriteDma (pa : Address) (length : BitVec 32) (isDMAwrite : Boolean) : Ctx :=
  (c.emitToken 0xec).emit (qwBytes pa ++ lwBytes length ++ [isDMAwrite.setWidth 8])

def atfWriteDumpStart : Ctx :=
  (c.onAst fun ast => { ast with isDumping := true }).emitCommand 0 []

/-- `pa_lower`, with the I/D and OSDE bits in the within-cache line bits. -/
def dumpLower (pa : Address) (isDstream : Boolean) (state : BitVec 32) : BitVec 32 :=
  (pa &&& ~~~0x3f).setWidth 32 |||
    ((if isDstream ≠ 0 then 1#32 else 0#32) ||| ((state &&& 3) <<< 3))

/-- `ATF_write_dump` -/
def atfWriteDump (pa va : Address) (isDstream : Boolean) (state : BitVec 32) : Ctx :=
  let paLower := dumpLower pa isDstream state
  let paUpper : BitVec 32 := (pa >>> 32).setWidth 32
  if va = 0 then
    if paUpper = 0 then
      c.emit (lwBytes (paLower ||| 2))
    else
      c.emit (lwBytes (paLower ||| 4) ++ lwBytes paUpper)
  else
    c.emit (lwBytes (paLower ||| 6) ++ lwBytes paUpper ++ qwBytes (va &&& ~~~0x3f))

def atfWriteDumpEnd : Ctx :=
  (c.onAst fun ast => { ast with isDumping := false }).emit (lwBytes 0)

/-! ### What an instruction finds in the opcode cache -/

/-- The entry for the instruction at `vpc`. -/
def entryAt (vpc : Address) : AtfInstrEntry :=
  c.sh.atfInstructions ((c.atfTlbTranslate vpc true).1 >>> 2)

/-- How far the effective address moved from the one cached, where that is written and kept. -/
def eaMoved (last : AtfInstrEntry) (opcode : Opcode) (vea : Address) : Option U64 :=
  let delta := vea - last.ea
  if last.opcode = opcode ∧ isLoadStore opcode ∧ delta ≠ 0 ∧ fitsDelta3 delta then some delta
  else none

end Ctx

/-! ### Calls -/

/-- A call of the writer. -/
inductive WriteCall
  | writeGlobal (varnum : AtfVariable) (value : U64)
  | writeLocal (varnum : AtfVariable) (value : U64)
  | writePte (va : Address) (pte : U64)
  | writeComment (comment : CString)
  | writeCommentRout (ppcStart ppcEnd : Address) (comment : CString)
  | writeInterrupt
  | writeResync
  | writeBranchAction (action : Byte)
  | writeProcTextInfo (pid : U64) (textStart textEnd : Address) (comment : CString)
  | writeProcBssInfo (pid : U64) (bssStart bssEnd : Address)
  | writeThreadUstackAddrInfo (pid tid : U64) (ustackStart ustackEnd : Address)
  | writeThreadUstackGrowInfo (pid tid ustackCurrSize : U64) (ustackGrowUp : Boolean)
  | writeThreadKstackInfo (pid tid : U64) (kstackStart kstackEnd : Address)
  | writeLibloaderInfo (textStart textEnd bssStart bssEnd : Address)
  | writeLibInfo (textStart textEnd bssStart bssEnd : Address)
  | writeKernelSwitch (inKernel : Boolean) (addr : Address) (comment : CString)
  | writeIdleThread (idleStart : Boolean)
  | writeDma (pa : Address) (length : BitVec 32) (isDMAwrite : Boolean)
  | writeDumpStart
  | writeDump (pa va : Address) (isDstream : Boolean) (state : BitVec 32)
  | writeDumpEnd
  | writeInstruction (vpc : Address) (opcode : Opcode) (vea : Address)

/-- What a reader makes of an action: of an instruction, what the program did. -/
inductive Record
  | instr (cpu : Fin cpuMax) (vpc : Address) (opcode : Opcode) (vea : Option Address)
  | action (action : AtfAction)
  deriving DecidableEq, Repr

namespace Record

/-- Only a load or store has an effective address. -/
def executed (cpu : Fin cpuMax) (vpc : Address) (opcode : Opcode) (vea : Address) : Record :=
  .instr cpu vpc opcode (if isLoadStore opcode then some vea else none)

def ofAction (cpu : Fin cpuMax) : AtfAction → Record
  | .instrOld vpc opcode vea => executed cpu vpc opcode vea
  | .instrNew vpc opcode vea => executed cpu vpc opcode vea
  | a => .action a

def isInstr : Record → Bool
  | instr .. => true
  | action _ => false

end Record

namespace WriteCall

def exec (c : Ctx) : WriteCall → Except WriteFault Ctx
  | writeGlobal varnum value => c.atfWriteGlobal varnum value
  | writeLocal varnum value => c.atfWriteLocal varnum value
  | writePte va pte => .ok (c.atfWritePte va pte)
  | writeComment comment => .ok (c.atfWriteComment comment)
  | writeCommentRout ppcStart ppcEnd comment =>
      .ok (c.atfWriteCommentRout ppcStart ppcEnd comment)
  | writeInterrupt => .ok c.atfWriteInterrupt
  | writeResync => .ok c.atfWriteResync
  | writeBranchAction action => .ok (c.atfWriteBranchAction action)
  | writeProcTextInfo pid textStart textEnd comment =>
      .ok (c.atfWriteProcTextInfo pid textStart textEnd comment)
  | writeProcBssInfo pid bssStart bssEnd => .ok (c.atfWriteProcBssInfo pid bssStart bssEnd)
  | writeThreadUstackAddrInfo pid tid ustackStart ustackEnd =>
      .ok (c.atfWriteThreadUstackAddrInfo pid tid ustackStart ustackEnd)
  | writeThreadUstackGrowInfo pid tid ustackCurrSize ustackGrowUp =>
      .ok (c.atfWriteThreadUstackGrowInfo pid tid ustackCurrSize ustackGrowUp)
  | writeThreadKstackInfo pid tid kstackStart kstackEnd =>
      .ok (c.atfWriteThreadKstackInfo pid tid kstackStart kstackEnd)
  | writeLibloaderInfo textStart textEnd bssStart bssEnd =>
      .ok (c.atfWriteLibloaderInfo textStart textEnd bssStart bssEnd)
  | writeLibInfo textStart textEnd bssStart bssEnd =>
      .ok (c.atfWriteLibInfo textStart textEnd bssStart bssEnd)
  | writeKernelSwitch inKernel addr comment => .ok (c.atfWriteKernelSwitch inKernel addr comment)
  | writeIdleThread idleStart => .ok (c.atfWriteIdleThread idleStart)
  | writeDma pa length isDMAwrite => .ok (c.atfWriteDma pa length isDMAwrite)
  | writeDumpStart => .ok c.atfWriteDumpStart
  | writeDump pa va isDstream state => .ok (c.atfWriteDump pa va isDstream state)
  | writeDumpEnd => .ok c.atfWriteDumpEnd
  | writeInstruction vpc opcode vea => do
      let (_, c) ← (c.atfWriteInstruction vpc opcode vea).mapError .fault
      .ok c

/-- The call wrote its instruction. -/
def wrote (c : Ctx) (vpc : Address) (opcode : Opcode) (vea : Address) : Bool :=
  match c.atfWriteInstruction vpc opcode vea with
  | .ok (r, _) => r = 1
  | .error _ => false

/-- What a reader is to make of the call.  Routine comments and resyncs are not passed
outside, and the addresses of a dump are those of cache lines. -/
def records (c : Ctx) : WriteCall → List Record
  | writeGlobal varnum value | writeLocal varnum value =>
      if c.ast.atfGetVariable varnum = value then [] else [.action (.set varnum value)]
  | writePte va pte =>
      if (c.atfTlbFill (pageAddrPage va) pte).1.isSome then [.action (.pte (pageAddrPage va) pte)]
      else []
  | writeComment comment => [.action (.comment comment.chars)]
  | writeCommentRout .. | writeResync | writeDumpStart | writeDumpEnd => []
  | writeInterrupt => [.action .interrupt]
  | writeBranchAction action => [.action (.brAction action)]
  | writeProcTextInfo pid textStart textEnd comment =>
      [.action (.procTextInfo pid textStart textEnd comment.chars)]
  | writeProcBssInfo pid bssStart bssEnd => [.action (.procBssInfo pid bssStart bssEnd)]
  | writeThreadUstackAddrInfo pid tid ustackStart ustackEnd =>
      [.action (.threadUstackAddrInfo pid tid ustackStart ustackEnd)]
  | writeThreadUstackGrowInfo pid tid ustackCurrSize ustackGrowUp =>
      [.action (.threadUstackGrowInfo pid tid ustackCurrSize (ustackGrowUp.setWidth 8))]
  | writeThreadKstackInfo pid tid kstackStart kstackEnd =>
      [.action (.threadKstackInfo pid tid kstackStart kstackEnd)]
  | writeLibloaderInfo textStart textEnd bssStart bssEnd =>
      [.action (.libloaderInfo textStart textEnd bssStart bssEnd)]
  | writeLibInfo textStart textEnd bssStart bssEnd =>
      [.action (.libInfo textStart textEnd bssStart bssEnd)]
  | writeKernelSwitch inKernel addr comment =>
      [.action (.kernelSwitch (inKernel.setWidth 8) addr comment.chars)]
  | writeIdleThread idleStart => [.action (.idleThread (idleStart.setWidth 8))]
  | writeDma pa length isDMAwrite => [.action (.dma pa length (isDMAwrite.setWidth 8))]
  | writeDump pa va isDstream state =>
      [.action (.dump (pa &&& ~~~0x3f) (va &&& ~~~0x3f) (if isDstream ≠ 0 then 1#64 else 0#64)
        ((state &&& 3).setWidth 64))]
  | writeInstruction vpc opcode vea =>
      if wrote c vpc opcode vea then [.executed c.ast.cpuPtr vpc opcode vea] else []

/-- The effective address of an instruction moved, and by how much is written and kept. -/
def eaDelta (c : Ctx) : WriteCall → Option U64
  | writeInstruction vpc opcode vea =>
      if wrote c vpc opcode vea then Ctx.eaMoved (c.entryAt vpc) opcode vea else none
  | _ => none

/-- The calls of a run, each with the state it is made in. -/
def trail (c : Ctx) : List WriteCall → List (Ctx × WriteCall)
  | [] => []
  | call :: calls =>
      (c, call) :: match call.exec c with
        | .ok d => trail d calls
        | .error _ => []

/-- The state after a run. -/
def run (c : Ctx) : List WriteCall → Except WriteFault Ctx
  | [] => .ok c
  | call :: calls => do
      let d ← call.exec c
      run d calls

/-- What a reader is to make of a run. -/
def runRecords (c : Ctx) (calls : List WriteCall) : List Record :=
  (trail c calls).flatMap fun (d, call) => call.records d

/-- How far effective addresses moved in a run. -/
def runDeltas (c : Ctx) (calls : List WriteCall) : List U64 :=
  (trail c calls).filterMap fun (d, call) => call.eaDelta d

/-- The call tells something, and does nothing to the stream but that. -/
def informational : WriteCall → Bool
  | writeComment .. | writeCommentRout .. | writeInterrupt | writeResync | writeBranchAction ..
  | writeProcTextInfo .. | writeProcBssInfo .. | writeThreadUstackAddrInfo ..
  | writeThreadUstackGrowInfo .. | writeThreadKstackInfo .. | writeLibloaderInfo ..
  | writeLibInfo .. | writeKernelSwitch .. | writeIdleThread .. | writeDma .. => true
  | _ => false

/-- The call belongs in a cache dump. -/
def inDump : WriteCall → Bool
  | writeDump .. | writeDumpEnd => true
  | _ => false

def dumpingAfter (dumping : Bool) : WriteCall → Bool
  | writeDumpStart => true
  | writeDumpEnd => false
  | _ => dumping

/-- In a cache dump there are its entries and its end, and these are nowhere else; a dump that
was started is ended. -/
def bracketed (dumping : Bool) : List WriteCall → Bool
  | [] => !dumping
  | call :: calls => call.inDump == dumping && bracketed (call.dumpingAfter dumping) calls

end WriteCall

end AsimFeeder.Atf
