/-
The writer of instructions.

An instruction is written only when its pc, and the effective address of a load or store,
can be translated.  If not, the call returns which of the two is missing, and the caller
writes a page table entry and calls again.  Then the jump to its pc is written, if it is
one, and what differs from the instruction that was last executed at that place; an
instruction that does not differ is counted, and up to 32 of them are written as one token.

A stream that is written is open.
-/
import AsimFeeder.Atf.Encoding

namespace AsimFeeder.Atf

namespace Ctx

variable (c : Ctx)

/-! ### Bytes -/

def emit (bytes : List Byte) : Ctx :=
  c.onAst fun ast => { ast with fp := ast.fp ++ bytes }

/-- `EMIT_SKIP`: the instructions that were only counted. -/
def emitSkip : Ctx :=
  if c.ast.instrLeft ≠ 0 then
    (c.emit [0x80 ||| (BitVec.ofNat 8 (c.ast.instrLeft - 1) &&& 0x1f)]).onAst fun ast =>
      { ast with instrLeft := 0 }
  else c

/-- `EMIT_TOKEN` -/
def emitToken (token : Byte) : Ctx :=
  c.emitSkip.emit [token]

/-! ### Page table entries -/

/-- `ATF_write_pte` -/
def atfWritePte (va : Address) (pte : U64) : Ctx :=
  let vpage := pageAddrPage va
  match c.atfTlbFill vpage pte with
  | (some ent, c) =>
      ((c.emitToken 0xeb).emit (qwBytes (vpage ||| BitVec.ofNat 64 ent.val))).emit (qwBytes pte)
  | (none, c) => c

/-! ### Instructions -/

/-- `delta > -((1L<<23) - 1) && delta < ((1L<<23) - 1)` -/
def fitsDelta3 (delta : U64) : Bool :=
  decide (-(2 ^ 23 - 1) < delta.toInt) && decide (delta.toInt < 2 ^ 23 - 1)

/-- How the pc moves. -/
def writeJump (vpc : Address) (delta : U64) : Ctx :=
  if delta = 0 then c
  else if -0x80 < delta.toInt ∧ delta.toInt < 0x80 ∧ delta &&& 3 = 0 then
    c.emitToken (0x00 ||| deltatCodea (delta.sshiftRight 2))
  else if fitsDelta3 delta then
    (c.emitToken 0xe0).emit (delta3Bytes (delta.setWidth 32))
  else
    (c.emitToken 0xe1).emit (qwBytes vpc)

def setWriteEaDelta (delta : U64) : Ctx :=
  { c with sh := { c.sh with writeEaDelta := delta } }

/-- How the instruction differs from `last`, the one executed at its place before. -/
def writeExec (opcode : Opcode) (vea : Address) (last : AtfInstrEntry) : Ctx :=
  let delta := vea - last.ea
  let lwdelta := (vea >>> 2) - (last.ea >>> 2)
  if last.opcode ≠ opcode then
    if isLoadStore opcode then
      if vea &&& 0xffffffff00000000 ≠ 0 then
        ((c.emitToken 0xe5).emit (lwBytes opcode)).emit (qwBytes vea)
      else
        ((c.emitToken 0xe6).emit (lwBytes opcode)).emit (lwBytes (vea.setWidth 32))
    else
      (c.emitToken 0xe4).emit (lwBytes opcode)
  else if isLoadStore opcode ∧ delta ≠ 0 then
    if delta &&& 3 = 0 ∧ -0x20 < lwdelta.toInt ∧ lwdelta.toInt < 0x20 then
      (c.emitToken (0x40 ||| deltatCodea lwdelta)).setWriteEaDelta delta
    else if delta = c.sh.writeEaDelta then
      c.emitToken 0xe7
    else if fitsDelta3 delta then
      ((c.emitToken 0xe2).emit (delta3Bytes (delta.setWidth 32))).setWriteEaDelta delta
    else
      (c.emitToken 0xe3).emit (qwBytes vea)
  else
    let c := c.onAst fun ast => { ast with instrLeft := ast.instrLeft + 1 }
    if 0x1f < c.ast.instrLeft then c.emitSkip else c

/-- Whether `vpc` cannot be translated, and the entries that were read to find out. -/
def vpcMisses (vpc : Address) : Bool × Ctx :=
  if isPal vpc || c.ast.isAddrSuppag vpc then (false, c)
  else
    let (ent, ast) := c.ast.atfTlbFindValid vpc c.asn
    (ent.isNone, { c with ast })

def veaMisses (opcode : Opcode) (vea : Address) : Bool × Ctx :=
  if !isLoadStore opcode || c.ast.isAddrSuppag vea then (false, c)
  else
    let (ent, ast) := c.ast.atfTlbFindValid vea c.asn
    (ent.isNone, { c with ast })

/-- `ATF_write_instruction` -/
def atfWriteInstruction (vpc : Address) (opcode : Opcode) (vea : Address) :
    Except Fault (Int × Ctx) :=
  let (vpcMissed, c) := c.vpcMisses vpc
  if vpcMissed then .ok (-1, c)
  else
    let (veaMissed, c) := c.veaMisses opcode vea
    if veaMissed then .ok (-2, c)
    else do
      let delta := vpc - c.vpc
      let c := (c.onAst fun ast => ast.atfSetPc vpc false).writeJump vpc delta
      let (last, c) ← c.atfCacheOpcodeLast opcode vea
      let c := c.writeExec opcode vea last
      .ok (1, c.onAst fun ast => ast.atfSetPc 4 true)

/-- The caller writes the page table entries that are asked for, and calls again. -/
def writeRetrying (vpc : Address) (opcode : Opcode) (vea : Address) :
    List U64 → Ctx → Except Fault (Int × Ctx)
  | [], c => c.atfWriteInstruction vpc opcode vea
  | pte :: ptes, c => do
      let (r, c) ← c.atfWriteInstruction vpc opcode vea
      if r = -1 then writeRetrying vpc opcode vea ptes (c.atfWritePte vpc pte)
      else if r = -2 then writeRetrying vpc opcode vea ptes (c.atfWritePte vea pte)
      else .ok (r, c)

end Ctx

end AsimFeeder.Atf
