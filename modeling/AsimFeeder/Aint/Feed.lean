/-
What the performance model sees of an AINT thread (`FEED_Fetch` to `FEED_Kill`).

An instruction that is handed out is named by its identifier: the slot of the ring that it
is in, or `AINT_WRONGPATH_ID` for the no-op that stands for an address that is not mapped.
A no-op is in no slot, and nothing is renamed for it.

Beside the thread stand the instructions that were handed out and are neither committed nor
killed, in the order of their fetches, each with the maps in force before and behind it.
Nothing of the feeder calls `AINT_stc_failed`, and what an oracle does is left out.
-/
import AsimFeeder.Aint.Renaming
import AsimFeeder.Aint.StoreRuns

namespace AsimFeeder.Aint

open Lib

/-- `UINT64_MAX` -/
def AINT_WRONGPATH_ID : UInt64 := 0xffffffffffffffff

/-- An instruction that was handed out. -/
structure HandedInst where
  identifier : UInt64
  before : LogicalRegNum → Nat
  after : LogicalRegNum → Nat

namespace HandedInst

/-- The slot that it is in. -/
def instid? (x : HandedInst) : Option UInt64 :=
  if x.identifier = AINT_WRONGPATH_ID then none else some x.identifier

/-- What `AINT_kill_instrs` is asked to kill: behind a misprediction, the instruction after. -/
def killId (x : HandedInst) (mispredict : Bool) : UInt64 :=
  if mispredict then SUCC_CIRC x.identifier else x.identifier

end HandedInst

/-- The slots of the instructions that are in one. -/
def instids (l : List HandedInst) : List UInt64 := l.filterMap HandedInst.instid?

structure FeedThread where
  aint : AintThread
  handed : List HandedInst

inductive FeedEvent
  | fetch (picode : Option MemIcode)
  /-- `FEED_Issue`, `FEED_DoRead`, `FEED_DoSpecWrite` and `FEED_DoWrite`. -/
  | operate (e : AintEvent)
  | commit
  /-- The instruction at a place among those that were handed out. -/
  | kill (n : Nat) (mispredict : Bool)

namespace FeedThread

def init (memory : BitVec 64 → BitVec 64) : FeedThread := ⟨.init memory, []⟩

variable (pmap : BitVec 64 → BitVec 64) (t : FeedThread)

/-- Nothing, if the simulator stops. -/
def FEED_Fetch (picode : Option MemIcode) : Option FeedThread :=
  (t.aint.AINT_fetch_next_instr picode).toOption.map fun aint =>
    let identifier := if picode.isNone then AINT_WRONGPATH_ID else aint.rename.instid
    ⟨aint, t.handed ++ [⟨identifier, t.aint.rename.regs.RegMap, aint.rename.regs.RegMap⟩]⟩

/-- The oldest instruction, which is not a no-op. -/
def FEED_Commit : Option FeedThread :=
  match t.handed with
  | [] => none
  | x :: rest =>
      if x.identifier = AINT_WRONGPATH_ID then none
      else (t.aint.AINT_commit_instr x.identifier).toOption.map fun aint => ⟨aint, rest⟩

/-- How many stay when one is killed. -/
def keeps (n : Nat) (mispredict : Bool) : Nat := if mispredict then n + 1 else n

def FEED_Kill (n : Nat) (mispredict : Bool) : Option FeedThread :=
  t.handed[n]?.bind fun x =>
    (t.aint.AINT_kill_instrs (x.killId mispredict)).toOption.map fun aint =>
      ⟨aint, t.handed.take (keeps n mispredict)⟩

def exec : FeedEvent → Option FeedThread
  | .fetch picode => t.FEED_Fetch picode
  | .operate e => (t.aint.exec pmap e).toOption.map fun aint => ⟨aint, t.handed⟩
  | .commit => t.FEED_Commit
  | .kill n mispredict => t.FEED_Kill n mispredict

/-! ### What a kill is for -/

/-- A cell of a register. -/
def Cell (reg : LogicalRegNum) (i : Nat) : Prop :=
  (i = 0 ∨ FIRST_VEC_LOGICAL ≤ reg.val) ∧ i < MAX_VECTOR_LENGTH

/-- From `s`, all but the instructions `kept` are gone, and the map is the one behind them.
What is kept stays as it is, and so does what its registers, and the mapped ones, hold. -/
structure RolledBack (s t : FeedThread) (kept : List HandedInst)
    (regmap : LogicalRegNum → Nat) : Prop where
  handed : t.handed = kept
  flight : t.aint.rename.flight = instids kept
  entries : ∀ i ∈ instids kept,
    t.aint.rename.cbif i = s.aint.rename.cbif i ∧ t.aint.memops i = s.aint.memops i
  map : t.aint.rename.regs.RegMap = regmap
  buffer : (Bucket.contents t.aint.sb.StoreQ).Perm
    (((instids kept).map s.aint.memops).flatMap Memop.held)
  memory : t.aint.memory = s.aint.memory
  free : ∀ vec free, s.aint.rename.Partition vec free →
    ∃ new, t.aint.rename.Partition vec (new ++ free)
  results : ∀ i ∈ instids kept, ∀ picode, (s.aint.rename.cbif i).picode = some picode →
    ∀ arg j, Cell (picode.args arg) j →
      t.aint.rename.regs.Reg ((s.aint.rename.cbif i).args arg + j) =
        s.aint.rename.regs.Reg ((s.aint.rename.cbif i).args arg + j)
  sources : ∀ reg j, Cell reg j →
    t.aint.rename.regs.Reg (regmap reg + j) = s.aint.rename.regs.Reg (regmap reg + j)
  refetch : ∀ picode t', t.FEED_Fetch (some picode) = some t' → ∀ arg, picode.dest ≠ some arg →
    (t'.aint.rename.cbif t'.aint.rename.instid).args arg = regmap (picode.args arg)

/-- A kill takes back exactly what was fetched from the instruction on, or behind it, and the
snapshot at an instruction is the map that it left. -/
structure RollsBack (ok : FeedThread → FeedEvent → Bool) (t : FeedThread) : Prop where
  kill : ∀ n mispredict x, t.handed[n]? = some x → ok t (.kill n mispredict) = true →
    ∃ t', t.exec pmap (.kill n mispredict) = some t' ∧
      RolledBack t t' (t.handed.take (keeps n mispredict))
        (if mispredict then x.after else x.before)
  snapshot : ∀ x ∈ t.handed, ∀ i, x.instid? = some i →
    t.aint.rename.AINT_regmap_snapshot i = some x.after

/-! ### What may happen -/

/-- Instructions in flight are issued, loads read, and stores write once they are issued. -/
def legalOperation (t : AintThread) : AintEvent → Bool
  | .issue instid _ _ _ => t.rename.flight.contains instid
  | .specWrite instid elements =>
      t.rename.flight.contains instid && (t.memops instid).isStore && (t.memops instid).issued &&
        (!(t.memops instid).is_vector ||
          elements.length == AintThread.VL t.rename (t.memops instid))
  | .read instid _ _ => t.rename.flight.contains instid && (t.memops instid).kind == .load
  | .write instid => t.rename.flight.contains instid && (t.memops instid).isStore
  | .fetch _ | .stcFailed _ | .commit _ | .kill _ => false

/-- What is not a no-op commits in the order of the fetches. -/
def legal (t : FeedThread) : FeedEvent → Bool
  | .fetch _ => true
  | .operate e => legalOperation t.aint e
  | .commit => t.handed.head?.any fun x => x.instid?.isSome
  | .kill n _ => decide (n < t.handed.length)

/-- The lists of the updates of a store are found: by its present address, if no other update
is in the quadword, or with as many elements as the vector length says. -/
def found (VL : Nat) (x : Memop) (others : List StqEntry) : Bool :=
  (x.stq_update.all fun u =>
    others.any (fun v => v.addr == u.addr) || x.vaddr &&& QWORD_MASK == u.addr) &&
  (!x.is_vector || x.stq_update_array.all fun array => array.length == VL)

/-- So are those of each of these, the youngest first. -/
def foundAll (t : AintThread) : List UInt64 → List UInt64 → Bool
  | _, [] => true
  | older, i :: rest =>
      found (AintThread.VL t.rename (t.memops i)) (t.memops i)
        ((older.map t.memops).flatMap Memop.held) && foundAll t (older ++ [i]) rest

/-- The walk from the youngest instruction back to `stop` ends behind those that stay, or in a
slot that is not in use if none does. -/
def stopsAt (instid stop : UInt64) (kept gone : List UInt64) : Bool :=
  let last := (gone.head?.map PRED_CIRC).getD instid
  !gone.contains stop && (last == stop || kept.isEmpty && decide (last < CBIF_SIZE))

/-- No instruction writes outside of its own registers, and the lists of stores are found; a
kill stops where it should. -/
def careful (t : FeedThread) : FeedEvent → Bool
  | .fetch _ => true
  | .operate (.issue instid writes _ _) =>
      writes.all fun w => w.1.within (t.aint.rename.cbif instid)
  | .operate (.read instid writes _) =>
      writes.all fun w => w.1.within (t.aint.rename.cbif instid)
  | .operate (.specWrite instid elements) =>
      !(t.aint.memops instid).is_vector ||
        (t.aint.memops instid).stq_update_array.all fun array => array.length == elements.length
  | .operate _ => true
  | .commit =>
      (instids t.handed).head?.all fun i =>
        (t.aint.rename.AINT_commit_instr i).all fun rename =>
          found (AintThread.VL rename (t.aint.memops i)) (t.aint.memops i)
            (((instids t.handed).tail.map t.aint.memops).flatMap Memop.held)
  | .kill n mispredict =>
      let kept := instids (t.handed.take (keeps n mispredict))
      let gone := instids (t.handed.drop (keeps n mispredict))
      t.handed[n]?.all fun x =>
        stopsAt t.aint.rename.instid (PRED_CIRC (x.killId mispredict)) kept gone &&
          foundAll t.aint kept gone

def safe (t : FeedThread) (e : FeedEvent) : Bool := t.legal e && t.careful e

def Start (memory : BitVec 64 → BitVec 64) (t : FeedThread) : Prop := t = init memory

def Step (ok : FeedThread → FeedEvent → Bool) (t t' : FeedThread) : Prop :=
  ∃ e, ok t e = true ∧ t.exec pmap e = some t'

end FeedThread

end AsimFeeder.Aint
