/-
The zero register of an AINT thread.

`R31` and `F31` name a physical register that holds zero.  Nothing keeps an instruction from
writing it: an instruction that has one of them as its destination does, and the routines of
`op_asm.c` set the register to zero again before they return.

The routines are those of the scalar integer instructions.  A routine of `op_asm.c` that
wraps an instruction of the host (`asm`) leaves to the host what is computed.  Registers
hold signed integers of 64 bits.  An instruction of `newinst.c` reads its operands before it
writes `RC`.

An issue of a memory reference only finds its address (`event_read`, `event_write`); its own
routine runs when the memory is accessed.
-/
import AsimFeeder.Aint.NewInst
import AsimFeeder.Aint.Renaming

namespace AsimFeeder.Aint

open Lib Packed

/-- The instructions that `OPFMT` stands for. -/
inductive OpFmt
  | addl | s4addl | subl | s4subl | cmpbge | s8addl | s8subl | cmpult | addq | s4addq | subq
  | s4subq | cmpeq | s8addq | s8subq | cmpule | addlv | sublv | cmplt | addqv | subqv | cmple
  | and | bic | bis | ornot | xor | eqv
  | mskbl | extbl | insbl | mskwl | extwl | inswl | mskll | extll | insll | zap | zapnot
  | mskql | srl | extql | sll | insql | sra | mskwh | inswh | extwh | msklh | inslh | extlh
  | mskqh | insqh | extqh | mull | mulq | umulh | mullv | mulqv
  deriving DecidableEq, Repr

inductive Cond
  | lbs | lbc | eq | ne | lt | ge | le | gt
  deriving DecidableEq, Repr

def Cond.holds (ra : Int) : Cond → Bool
  | .lbs => ra % 2 = 1
  | .lbc => ra % 2 = 0
  | .eq => ra = 0
  | .ne => ra ≠ 0
  | .lt => ra < 0
  | .ge => 0 ≤ ra
  | .le => ra ≤ 0
  | .gt => 0 < ra

/-- `func` of an `icode`; `empty` is one that is reserved, not implemented or does nothing. -/
inductive Routine
  | lda | ldah | ldq_u | stq_u
  | opfmt (name : OpFmt)
  | cmov (cond : Cond)
  | amask | implver
  | empty
  | rpcc
  | jump
  | pal1b
  | newinst (name : NewInst)
  deriving DecidableEq, Repr

/-- An `icode`, by the fields of the instruction. -/
structure ScalarIcode where
  func : Routine
  ra : Fin 32
  rb : Fin 32
  rc : Fin 32
  literal : Option (BitVec 8)
  immed : Int
  deriving DecidableEq

instance neZeroIntegers : NeZero (32 : Nat) := ⟨by decide⟩

def logicalOf (reg : Fin 32) : LogicalRegNum := ⟨reg.val, Nat.lt_trans reg.isLt (by decide)⟩

namespace ScalarIcode

/-- Operate instructions write `RC`; those that load, `lda`, `ldah` and jumps write `RA`. -/
def dest (i : ScalarIcode) : Option Arg :=
  match i.func with
  | .lda => some .RA
  | .ldah => some .RA
  | .ldq_u => some .RA
  | .stq_u => none
  | .opfmt _ => some .RC
  | .cmov _ => some .RC
  | .amask => some .RC
  | .implver => some .RC
  | .empty => none
  | .rpcc => none
  | .jump => some .RA
  | .pal1b => some .RA
  | .newinst _ => some .RC

/-- `E_WAS_LDQ_U`: a `ldq_u` to `R31` is decoded as one that reads no memory. -/
def wasLdqU (i : ScalarIcode) : Bool := i.func == .ldq_u && i.ra == 31

/-- `E_MEM_REF`. -/
def isMemRef (i : ScalarIcode) : Bool :=
  match i.func with
  | .ldq_u => !i.wasLdqU
  | .stq_u => true
  | .pal1b => true
  | _ => false

/-- `decode_instr`: the registers of an instruction. -/
def args (i : ScalarIcode) : Arg → LogicalRegNum
  | .RA => logicalOf i.ra
  | .RB => if i.dest = some .RC ∧ i.literal.isSome ∨ i.wasLdqU then 31 else logicalOf i.rb
  | .RC => if i.dest = some .RC then logicalOf i.rc else 31

def icode (i : ScalarIcode) : Icode := ⟨i.args, i.dest⟩

/-- The routine sets the zero register to zero. -/
def clears (i : ScalarIcode) : Bool :=
  match i.func with
  | .stq_u => false
  | .empty => false
  | .newinst _ => false
  | _ => true

end ScalarIcode

/-- What a routine gets from elsewhere: the host, and what it finds when it is called, with the
data of the instruction in flight. -/
structure Host where
  asm : OpFmt → Int → Int → Int
  AINT_AMASK : BitVec 64
  AINT_IMPLVER : Int

structure Asked where
  next : Int
  cycle : Int
  data : Int

/-- The value as a `long`. -/
def long (value : Int) : Int := (BitVec.ofInt 64 value).toInt

def RegFile.ZERO_ZERO_REG (r : RegFile) : RegFile := r.write 31 0

/-- What a routine leaves in the registers, if anything. -/
def ScalarIcode.run (host : Host) (asked : Asked) (i : ScalarIcode) (x : InflightInst)
    (r : RegFile) : Option RegFile :=
  let REG := fun arg => r.Reg (x.args arg)
  let rbv := match i.literal with
    | some literal => (literal.toNat : Int)
    | none => REG .RB
  match i.func with
  | .lda => some (r.write (x.args .RA) (long (REG .RB + i.immed))).ZERO_ZERO_REG
  | .ldah => some (r.write (x.args .RA) (long (REG .RB + i.immed))).ZERO_ZERO_REG
  | .ldq_u => some (r.write (x.args .RA) asked.data).ZERO_ZERO_REG
  | .stq_u => some r
  | .opfmt name => some (r.write (x.args .RC) (host.asm name (REG .RA) rbv)).ZERO_ZERO_REG
  | .cmov cond =>
      some (if cond.holds (REG .RA) then r.write (x.args .RC) rbv else r).ZERO_ZERO_REG
  | .amask =>
      some (r.write (x.args .RC) (BitVec.ofInt 64 rbv &&& ~~~ host.AINT_AMASK).toInt).ZERO_ZERO_REG
  | .implver => some (r.write (x.args .RC) host.AINT_IMPLVER).ZERO_ZERO_REG
  | .empty => some r
  | .rpcc => some (r.write (x.args .RA) asked.cycle).ZERO_ZERO_REG
  | .jump => some (r.write (x.args .RA) asked.next).ZERO_ZERO_REG
  | .pal1b => some (r.write (x.args .RA) asked.data).ZERO_ZERO_REG
  | .newinst name =>
      let src := match i.literal with
        | some literal =>
            if name.testsLiteral then Operand.literal literal else .reg (BitVec.ofInt 64 (REG .RB))
        | none => .reg (BitVec.ofInt 64 (REG .RB))
      (name.func (BitVec.ofInt 64 (REG .RC)) (BitVec.ofInt 64 (REG .RA)) src).map fun value =>
        r.write (x.args .RC) value.toInt

/-- What `picode->func` leaves: that of a memory reference writes no register. -/
def ScalarIcode.issue (host : Host) (asked : Asked) (i : ScalarIcode) (x : InflightInst)
    (r : RegFile) : Option RegFile :=
  if i.isMemRef then some r else i.run host asked x r

/-! ### A thread -/

/-- What a thread has of each instruction besides its registers: the rest of its `icode`. -/
structure ScalarThread where
  rename : RenameThread
  picode : UInt64 → ScalarIcode

inductive ScalarEvent
  | fetch (picode : Option ScalarIcode)
  | issue (instid : UInt64) (asked : Asked)
  | memop (instid : UInt64) (asked : Asked)
  | commit (instid : UInt64)
  | kill (instid : UInt64)

namespace ScalarThread

variable (s : ScalarThread)

def AINT_fetch_next_instr (picode : Option ScalarIcode) : Option ScalarThread :=
  (s.rename.AINT_fetch_next_instr (picode.map ScalarIcode.icode)).map fun rename =>
    match picode with
    | none => { s with rename := rename }
    | some picode =>
        { s with
          rename := rename
          picode := Function.update s.picode rename.instid picode }

/-- The old value is copied, then the routine runs, or the address is found. -/
def AINT_issue_other (host : Host) (instid : UInt64) (asked : Asked) : Option ScalarThread :=
  let x := s.rename.cbif instid
  if x.picode.isSome then
    let regs :=
      match (s.picode instid).dest with
      | none => s.rename.regs
      | some dest => s.rename.regs.write (x.args dest) (s.rename.regs.Reg x.OldDest_Phys)
    ((s.picode instid).issue host asked x regs).map fun regs =>
      { s with rename := { s.rename with regs := regs } }
  else some s

/-- The routine of the instruction runs, in `AINT_do_read` on what was read. -/
def AINT_do_memop (host : Host) (instid : UInt64) (asked : Asked) : Option ScalarThread :=
  ((s.picode instid).run host asked (s.rename.cbif instid) s.rename.regs).map fun regs =>
    { s with rename := { s.rename with regs := regs } }

def exec (host : Host) : ScalarEvent → Option ScalarThread
  | .fetch picode => s.AINT_fetch_next_instr picode
  | .issue instid asked => s.AINT_issue_other host instid asked
  | .memop instid asked => s.AINT_do_memop host instid asked
  | .commit instid =>
      (s.rename.AINT_commit_instr instid).map fun rename => { s with rename := rename }
  | .kill instid =>
      (s.rename.AINT_kill_instrs instid).map fun rename => { s with rename := rename }

/-- Instructions in flight are issued and killed, those that are memory references access
memory, and the oldest of all commits. -/
def legal : ScalarEvent → Bool
  | .fetch _ => true
  | .issue instid _ => s.rename.flight.contains instid
  | .memop instid _ => s.rename.flight.contains instid && (s.picode instid).isMemRef
  | .commit instid => s.rename.flight.head? == some instid
  | .kill instid => s.rename.flight.contains instid || instid == SUCC_CIRC s.rename.instid

/-- No instruction of `newinst.c` is issued that has the zero register as `RC`. -/
def careful (e : ScalarEvent) : Bool :=
  s.legal e &&
    match e with
    | .issue instid _ =>
        match (s.picode instid).func with
        | .newinst _ => decide ((s.picode instid).rc ≠ 31)
        | _ => true
    | _ => true

def Start (s : ScalarThread) : Prop := s.rename = .init

def Step (host : Host) (ok : ScalarThread → ScalarEvent → Bool) (s s' : ScalarThread) : Prop :=
  ∃ e, ok s e = true ∧ s.exec host e = some s'

/-- Whenever an instruction is issued, the zero register holds zero, and so does every source
operand that names `R31` or `F31`. -/
structure ReadsZero (ok : ScalarThread → ScalarEvent → Bool) (s : ScalarThread) : Prop where
  register : ∀ instid asked, ok s (.issue instid asked) = true →
    s.rename.regs.Reg ZERO_REGISTER = 0
  operands : ∀ instid asked arg, ok s (.issue instid asked) = true →
    (s.picode instid).dest ≠ some arg → isNonzero ((s.picode instid).args arg) = false →
      s.rename.regs.Reg ((s.rename.cbif instid).args arg) = 0

end ScalarThread

end AsimFeeder.Aint
