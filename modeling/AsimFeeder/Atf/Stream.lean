/-
A stream of the Arana trace format, and what all streams of the process share.

`Atf_Stream` is what one open trace keeps: its file, its variables, and for each CPU the
pc and the page table entries.  The rest is static: the opcode cache, the last two
translations, and for the writer and the reader each the last difference between two
effective addresses.  A call on a stream sees that stream and the statics, which together
are a `Ctx`.

`fp` holds the bytes of the file: those written so far, or those still to be read.  A file
that was never opened is not `opened`.  What is left out is what no call reads back: the
file name, `ppc`, and whether the file is a pipe.

The opcode cache is a four level table, with the last page found cached in front of it;
here it is a map from the instruction's place.  Its first level has thirteen entries, and
an address that asks for a later one is outside of it.
-/
import Mathlib

namespace AsimFeeder.Atf

abbrev Byte := BitVec 8
abbrev U64 := BitVec 64
abbrev Address := BitVec 64
abbrev Opcode := BitVec 32

/-- How a call can fail to return.  `running` is a loop that has not ended yet. -/
inductive Fault
  | badFormat (token : Byte)
  | badToken (token : Byte)
  | outOfBounds
  | nullFile
  | mismatchedIdle
  | running
  deriving DecidableEq, Repr

/-! ### Variables -/

/-- `AtfVariable_enum`, without `avg_MAX`. -/
inductive AtfVariable
  | avlTID
  | avlPID
  | avlASN
  | avlASM
  | avlSUPPAG
  | avlMAX
  | avgCPU
  | avgEPOCH
  | avgVERSION
  | avgOS
  deriving DecidableEq, Repr

namespace AtfVariable

/-- The variables in the order of their numbers. -/
def all : List AtfVariable :=
  [avlTID, avlPID, avlASN, avlASM, avlSUPPAG, avlMAX, avgCPU, avgEPOCH, avgVERSION, avgOS]

def toByte : AtfVariable → Byte
  | avlTID => 0
  | avlPID => 1
  | avlASN => 2
  | avlASM => 3
  | avlSUPPAG => 4
  | avlMAX => 5
  | avgCPU => 6
  | avgEPOCH => 7
  | avgVERSION => 8
  | avgOS => 9

/-- The variable with this number, if there is one. -/
def ofByte (b : Byte) : Option AtfVariable :=
  all[b.toNat]?

/-- `varnum<avl_MAX`. -/
def isLocal : AtfVariable → Bool
  | avlTID | avlPID | avlASN | avlASM | avlSUPPAG => true
  | _ => false

@[simp] theorem ofByte_toByte (v : AtfVariable) : ofByte v.toByte = some v := by
  cases v <;> rfl

end AtfVariable

/-! ### Streams -/

/-- `ATF_TLB_ASSOC`. -/
abbrev tlbAssoc : Nat := 64

/-- `ATF_TLB_RECENTS`. -/
abbrev tlbRecents : Nat := 8

/-- `ATF_CPU_MAX`. -/
abbrev cpuMax : Nat := 16

/-- `ATF_STREAMS_MAX`, which is `MAX_THREADS`. -/
abbrev streamsMax : Nat := 4

instance : NeZero tlbAssoc := ⟨by decide⟩

structure AtfTlbEntry where
  vpage : Address
  asn : U64
  pte : U64
  ppage : Address
  deriving DecidableEq, Repr

structure AtfCpu where
  vpc : Address
  localVar : AtfVariable → U64
  tlb : Fin tlbAssoc → AtfTlbEntry
  tlbLru : Fin tlbAssoc
  tlbRecentLru : Nat
  tlbRecent : Fin tlbRecents → Fin tlbAssoc

structure AtfStream where
  fp : List Byte
  opened : Bool
  cpuPtr : Fin cpuMax
  limitCpuPtr : Option (Fin cpuMax)
  isDumping : Bool
  instrLeft : Nat
  globalVar : AtfVariable → U64
  cpu : Fin cpuMax → AtfCpu

/-- An entry of the opcode cache. -/
structure AtfInstrEntry where
  ea : Address
  opcode : Opcode
  deriving DecidableEq, Repr

/-- `last_cpu`, `last_vpage`, `last_asn`, `last_ppage` and `last_gh`, or the second ones. -/
structure LastPage where
  cpu : U64
  vpage : Address
  asn : U64
  ppage : Address
  gh : Nat
  deriving DecidableEq, Repr

/-- What the calls on all streams share. -/
structure Statics where
  last : LastPage
  last2 : LastPage
  atfInstructions : Address → AtfInstrEntry
  writeEaDelta : U64
  readEaDelta : U64

/-- A stream, and the statics. -/
structure Ctx where
  ast : AtfStream
  sh : Statics

/-! ### Before anything happened -/

def AtfCpu.zero : AtfCpu where
  vpc := 0
  localVar _ := 0
  tlb _ := ⟨0, 0, 0, 0⟩
  tlbLru := 0
  tlbRecentLru := 0
  tlbRecent _ := 0

/-- A stream after `ATF_init`. -/
def AtfStream.zero : AtfStream where
  fp := []
  opened := false
  cpuPtr := ⟨0, by decide⟩
  limitCpuPtr := none
  isDumping := false
  instrLeft := 0
  globalVar _ := 0
  cpu _ := AtfCpu.zero

/-- The statics of a process that has just started. -/
def Statics.fresh : Statics where
  last := ⟨0, ~~~0, 0, 0, 0⟩
  last2 := ⟨0, ~~~0, 0, 0, 0⟩
  atfInstructions _ := ⟨0, 0⟩
  writeEaDelta := ~~~0
  readEaDelta := 0

/-! ### Reading and setting -/

namespace AtfStream

variable (ast : AtfStream)

/-- `*ast_ptr->cpu_ptr`. -/
def cur : AtfCpu :=
  ast.cpu ast.cpuPtr

def setCur (f : AtfCpu → AtfCpu) : AtfStream :=
  { ast with cpu := Function.update ast.cpu ast.cpuPtr (f ast.cur) }

def atfGetVariable (varnum : AtfVariable) : U64 :=
  if varnum.isLocal then ast.cur.localVar varnum else ast.globalVar varnum

/-- A CPU number past the array leaves `cpu_ptr` outside of it. -/
def atfSetVariable (varnum : AtfVariable) (value : U64) : Except Fault AtfStream :=
  if varnum.isLocal then
    .ok (ast.setCur fun c => { c with localVar := Function.update c.localVar varnum value })
  else
    let ast := { ast with globalVar := Function.update ast.globalVar varnum value }
    if varnum = .avgCPU then
      if h : value.toNat < cpuMax then
        .ok { ast with cpuPtr := ⟨value.toNat, h⟩ }
      else
        .error .outOfBounds
    else
      .ok ast

def atfSetPc (newVpc : Address) (isRelative : Bool) : AtfStream :=
  if isRelative then
    ast.setCur fun c => { c with vpc := c.vpc + newVpc }
  else
    ast.setCur fun c => { c with vpc := newVpc }

end AtfStream

/-! ### Instruction classes -/

/-- `OPCODE`: bits 31 to 26. -/
def opcodeOf (inst : Opcode) : Nat :=
  (inst >>> 26).toNat % 64

def isLoadStore (inst : Opcode) : Bool :=
  ((0x0000ffff0000fc00#64 >>> opcodeOf inst) &&& 1) ≠ 0

end AsimFeeder.Atf
