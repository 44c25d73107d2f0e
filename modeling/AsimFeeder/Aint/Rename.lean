/-
Register renaming of an AINT thread.

An instruction that writes a register gets a new physical register when it is fetched, and
keeps the old one until it commits; if it is killed, it gives the new one back.  Free
registers are linked through the registers themselves, scalar and vector registers apart.
A vector register is `MAX_VECTOR_LENGTH` consecutive cells, the first of which names it.

What instructions compute is left open: an issue comes with the cells that it writes and
their values.  Cells are written through the arguments of the instruction (`REG`,
`VELEMINT`), through the map of the thread (`MapReg`), or, by a system call, through the
map that was in force after it was renamed.  Validity bits, which only decide whether the
simulator stops at a commit, are left out, and so is everything about memory.
-/
import AsimFeeder.Lib.Threaded
import AsimFeeder.Lib.Runs

namespace AsimFeeder.Aint

open Lib

/-! ### Registers -/

def ZERO_REGISTER : Nat := 31

def FP_ZERO_REGISTER : Nat := ZERO_REGISTER + 32

/-- Integer, floating point and vector control registers. -/
def TOTAL_SCALAR_LOGICALS : Nat := 32 + 32 + 4

def FIRST_VEC_LOGICAL : Nat := TOTAL_SCALAR_LOGICALS

def MAX_VECTOR_LENGTH : Nat := 128

def LOG_TO_PHY_RATIO : Nat := 16

def TOTAL_SCALAR_PHYSICALS : Nat :=
  32 * LOG_TO_PHY_RATIO + 32 * LOG_TO_PHY_RATIO + 4 * LOG_TO_PHY_RATIO * 8

def FIRST_VECTOR_PHYSICAL : Nat := TOTAL_SCALAR_PHYSICALS

def TOTAL_PHYSICALS : Nat :=
  TOTAL_SCALAR_PHYSICALS + 32 * MAX_VECTOR_LENGTH * LOG_TO_PHY_RATIO

/-- One of the `TOTAL_LOGICALS` registers: the scalar ones and 32 vector registers. -/
abbrev LogicalRegNum := Fin 100

instance neZeroLogicals : NeZero (100 : Nat) := ⟨by decide⟩

structure RegFile where
  FirstFreePhysicalRegister : Int
  FirstFreeVectorPhysicalRegister : Int
  Reg : Nat → Int
  RegMap : LogicalRegNum → Nat

namespace RegFile

variable (r : RegFile)

/-- The head of one of the two free lists. -/
def free (vec : Bool) : Int :=
  if vec then r.FirstFreeVectorPhysicalRegister else r.FirstFreePhysicalRegister

def setFree (vec : Bool) (head : Int) : RegFile :=
  if vec then { r with FirstFreeVectorPhysicalRegister := head }
  else { r with FirstFreePhysicalRegister := head }

def write (pr : Nat) (value : Int) : RegFile := { r with Reg := Function.update r.Reg pr value }

def setMap (reg : LogicalRegNum) (pr : Nat) : RegFile :=
  { r with RegMap := Function.update r.RegMap reg pr }

/-- A register goes in front of its free list. -/
def release (pr : Nat) : RegFile :=
  let vec := decide (FIRST_VECTOR_PHYSICAL ≤ pr)
  (r.write pr (r.free vec)).setFree vec pr

/-- Nothing, if there is no register left. -/
def ReMap (reg : LogicalRegNum) : Option (Nat × RegFile) :=
  if reg.val = ZERO_REGISTER ∨ reg.val = FP_ZERO_REGISTER then some (ZERO_REGISTER, r)
  else
    let vec := decide (FIRST_VEC_LOGICAL ≤ reg.val)
    let pr := r.free vec
    if pr = -1 then none
    else some (pr.toNat, (r.setFree vec (r.Reg pr.toNat)).setMap reg pr.toNat)

end RegFile

/-- The map that a thread starts with. -/
def initialMap (reg : LogicalRegNum) : Nat :=
  if reg.val < TOTAL_SCALAR_LOGICALS then
    if reg.val = FP_ZERO_REGISTER then ZERO_REGISTER else reg.val
  else (reg.val - FIRST_VEC_LOGICAL) * MAX_VECTOR_LENGTH + TOTAL_SCALAR_PHYSICALS

/-- The scalar registers that start free, in the order in which they are linked. -/
def initialFree : List Nat :=
  (List.range' TOTAL_SCALAR_LOGICALS (TOTAL_SCALAR_PHYSICALS - TOTAL_SCALAR_LOGICALS)).reverse ++
    [FP_ZERO_REGISTER]

/-- The vector registers behind those that are mapped. -/
def initialVectorFree : List Nat :=
  (List.range' 32 (32 * LOG_TO_PHY_RATIO - 32)).map fun i =>
    i * MAX_VECTOR_LENGTH + FIRST_VECTOR_PHYSICAL

/-- `init_all_queues`, for the registers of one thread. -/
def RegFile.init : RegFile :=
  (initialFree ++ initialVectorFree).foldl RegFile.release ⟨-1, -1, fun _ => 0, initialMap⟩

/-! ### Instructions in flight -/

inductive Arg
  | RA
  | RB
  | RC
  deriving DecidableEq, Repr

/-- `icode`: the registers of an instruction, and which of them it writes. -/
structure Icode where
  args : Arg → LogicalRegNum
  dest : Option Arg

structure InflightInst where
  picode : Option Icode
  args : Arg → Nat
  OldDest_Phys : Nat
  fetchnum : Nat
  committed : Bool

def CBIF_SIZE : UInt64 := 1024

def SUCC_CIRC (i : UInt64) : UInt64 := (i + 1) &&& (CBIF_SIZE - 1)

def PRED_CIRC (i : UInt64) : UInt64 := (i + CBIF_SIZE - 1) &&& (CBIF_SIZE - 1)

/-- A thread; `flight` are the entries that are in use, the oldest first. -/
structure RenameThread where
  instid : UInt64
  cbif : UInt64 → InflightInst
  fetch_count : Nat
  regs : RegFile
  flight : List UInt64

/-- A cell that an instruction writes; an element may be one that its register does not have. -/
inductive Target
  | element (arg : Arg) (i : Int)
  | mapped (reg : LogicalRegNum)
  | atCall (reg : LogicalRegNum)
  deriving DecidableEq, Repr

namespace InflightInst

/-- The map before the instruction was renamed, from the map after it. -/
def undo (x : InflightInst) (picode : Icode) (map : LogicalRegNum → Nat) : LogicalRegNum → Nat :=
  match picode.dest with
  | none => map
  | some dest =>
      if x.args dest = ZERO_REGISTER then map
      else Function.update map (picode.args dest) x.OldDest_Phys

end InflightInst

namespace RenameThread

/-- `init_all_queues` and `init_thread`. -/
def init : RenameThread :=
  ⟨0xffffffffffffffff, fun _ => ⟨none, fun _ => 0, 0, 0, false⟩, 0, RegFile.init, []⟩

variable (t : RenameThread)

/-- A fetch of what is at the predicted address; nothing, if the simulator stops. -/
def AINT_fetch_next_instr : Option Icode → Option RenameThread
  | none => some t
  | some picode =>
      let instid := SUCC_CIRC t.instid
      -- `new_instid`: the ring has bitten its own tail
      if (t.cbif instid).picode.isSome then none
      else
        let args := fun arg => t.regs.RegMap (picode.args arg)
        let enter := fun (args : Arg → Nat) (old : Nat) (regs : RegFile) =>
          { t with
            instid := instid
            cbif := Function.update t.cbif instid
              ⟨some picode, args, old, t.fetch_count, false⟩
            fetch_count := t.fetch_count + 1
            regs := regs
            flight := t.flight ++ [instid] }
        match picode.dest with
        | none => some (enter args ZERO_REGISTER t.regs)
        | some dest =>
            (t.regs.ReMap (picode.args dest)).map fun (pr, regs) =>
              enter (Function.update args dest pr) (args dest) regs

/-- The walk of `AINT_regmap_snapshot`; nothing, if it runs out of the instructions. -/
def rollback (current : UInt64) :
    Nat → UInt64 → (LogicalRegNum → Nat) → Option (LogicalRegNum → Nat)
  | 0, instid, map => if instid = current then some map else none
  | fuel + 1, instid, map =>
      if instid = current then some map
      else if CBIF_SIZE ≤ instid then none
      else
        match (t.cbif instid).picode with
        | none => none
        | some picode =>
            rollback current fuel (PRED_CIRC instid) ((t.cbif instid).undo picode map)

def AINT_regmap_snapshot (current : UInt64) : Option (LogicalRegNum → Nat) :=
  t.rollback current CBIF_SIZE.toNat t.instid t.regs.RegMap

/-- The cell that is written; nothing, if it is before all registers. -/
def cell (instid : UInt64) : Target → Option Nat
  | .element arg i => Int.toNat? ((t.cbif instid).args arg + i)
  | .mapped reg => some (t.regs.RegMap reg)
  | .atCall reg => (t.AINT_regmap_snapshot instid).map fun map => map reg

/-- What an instruction writes, one cell after the other. -/
def writeCells (instid : UInt64) : List (Target × Int) → RenameThread → Option RenameThread
  | [], t => some t
  | (target, value) :: rest, t =>
      (t.cell instid target).bind fun pr =>
        writeCells instid rest { t with regs := t.regs.write pr value }

/-- The new register starts with the old value, for instructions that may not write it. -/
def AINT_issue_other (instid : UInt64) (writes : List (Target × Int)) : Option RenameThread :=
  let x := t.cbif instid
  match x.picode with
  | none => some t
  | some picode =>
      match picode.dest with
      | none => writeCells instid writes t
      | some dest =>
          writeCells instid writes
            { t with regs := t.regs.write (x.args dest) (t.regs.Reg x.OldDest_Phys) }

/-- Nothing, if the instruction before it is not committed, or there is no instruction. -/
def AINT_commit_instr (instid : UInt64) : Option RenameThread :=
  let x := t.cbif instid
  x.picode.bind fun picode =>
    if 0 < x.fetchnum ∧ (t.cbif (PRED_CIRC instid)).committed = false then none
    else
      let regs :=
        if picode.dest.isSome ∧ x.OldDest_Phys ≠ ZERO_REGISTER then t.regs.release x.OldDest_Phys
        else t.regs
      if x.committed then some { t with regs := regs }
      else
        some { t with
          regs := regs
          cbif := Function.update t.cbif instid { x with picode := none, committed := true }
          flight := t.flight.tail }

/-- One round of the loop of `AINT_kill_instrs`: the youngest instruction goes. -/
def killYoungest (picode : Icode) : RenameThread :=
  let x := t.cbif t.instid
  let regs :=
    match picode.dest with
    | none => t.regs
    | some dest =>
        if x.args dest = ZERO_REGISTER then t.regs else t.regs.release (x.args dest)
  { t with
    regs := { regs with RegMap := x.undo picode t.regs.RegMap }
    cbif := Function.update t.cbif t.instid { x with picode := none }
    instid := PRED_CIRC t.instid
    flight := t.flight.dropLast }

/-- From the youngest back to `stop`; it gives up at an entry that is not in use. -/
def killLoop (stop : UInt64) : Nat → RenameThread → Option RenameThread
  | 0, t => if t.instid = stop then some t else none
  | fuel + 1, t =>
      if t.instid = stop then some t
      else if CBIF_SIZE ≤ t.instid then none
      else
        match (t.cbif t.instid).picode with
        | none => some t
        | some picode => killLoop stop fuel (t.killYoungest picode)

def AINT_kill_instrs (instid : UInt64) : Option RenameThread :=
  killLoop (PRED_CIRC instid) CBIF_SIZE.toNat t

end RenameThread

/-! ### All that can happen to a thread -/

inductive RenameEvent
  | fetch (picode : Option Icode)
  | issue (instid : UInt64) (writes : List (Target × Int))
  | commit (instid : UInt64)
  | kill (instid : UInt64)

def RenameThread.exec (t : RenameThread) : RenameEvent → Option RenameThread
  | .fetch picode => t.AINT_fetch_next_instr picode
  | .issue instid writes => t.AINT_issue_other instid writes
  | .commit instid => t.AINT_commit_instr instid
  | .kill instid => t.AINT_kill_instrs instid

end AsimFeeder.Aint
