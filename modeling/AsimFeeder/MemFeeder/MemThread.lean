/-
The memory-trace feeder: threads that read operations from their traces.

A thread makes bundles of three syllables, the last of them a no-op, and hands them out
one by one.  A line of its trace may wait for another thread: until the commit counter of
that thread is far enough, the bundles are filled with no-ops.  At the end of the trace
they are filled with no-ops as well, and the first such bundle that is made with nothing
in flight but no-ops ends the thread.

Traces are lists of lines here, as they are read after the warm-up lines.  The encoding of
the syllables, with the registers that they load to, is left out.  Numbers of instructions
are natural numbers, since they are only compared; the commit counter is a machine word.

Beside the thread stands what happened: the lines of the trace, what of them has become
an operation, what was committed, and what the model has in flight, which is not what
the issued list says when no-ops have been dropped from it.
-/
import AsimFeeder.Lib.ReplayWindow
import AsimFeeder.Lib.Runs

namespace AsimFeeder.MemFeeder

open Lib

def SYLLABLES_PER_BUNDLE : Nat := 3

/-- `MEM_ETYPE`, as far as this feeder generates it. -/
inductive MemEtype
  | LOAD
  | STORE
  | NOPM
  | NOPI
  deriving DecidableEq, Repr

/-- `MEM_MEMOP`; the address is that of the bundle, with the syllable in it. -/
structure MemMemop where
  uid : Nat
  ea : UInt64
  sz : UInt8
  hint : UInt8
  etype : MemEtype
  pc : UInt64 × Nat
  deriving DecidableEq, Repr

/-- What a memory operation does. -/
structure Access where
  store : Bool
  ea : UInt64
  sz : UInt8
  hint : UInt8
  deriving DecidableEq, Repr

/-- A line `r`, `w`, `wr` or `ww`; the last two name a thread and a number to wait for. -/
structure TraceLine (ι : Type) where
  store : Bool
  addr : UInt64
  sz : UInt32
  byte : UInt32
  hint : UInt32
  wait : Option (ι × UInt64)
  deriving DecidableEq, Repr

/-- An operation and what has to be committed before it. -/
structure Request (ι : Type) where
  access : Access
  after : Option (ι × UInt64)
  deriving DecidableEq, Repr

/-- `waiting`, with what it waits with. -/
structure Waiting (ι : Type) where
  access : Access
  waitingThread : ι
  waitingInst : UInt64
  deriving DecidableEq, Repr

structure MemThread (ι : Type) where
  lists : Window MemMemop
  current_inst : Nat
  haveBundle : Bool
  op : List MemMemop
  stopped : Bool
  trace : List (TraceLine ι)
  waiting : Option (Waiting ι)
  currentInst : UInt64
  lines : List (TraceLine ι)
  read : List (Request ι)
  committed : List Access
  inflight : List MemMemop
  fetched : List Nat
  ended : Bool
  deriving Repr

variable {ι : Type}

namespace MemMemop

def isNOP (m : MemMemop) : Bool := m.etype == .NOPI || m.etype == .NOPM

def nop (etype : MemEtype) (pc : UInt64) (syllable : Nat) : MemMemop :=
  ⟨0, 0, 0, 0, etype, (pc, syllable)⟩

def access? (m : MemMemop) : Option Access :=
  match m.etype with
  | .LOAD => some ⟨false, m.ea, m.sz, m.hint⟩
  | .STORE => some ⟨true, m.ea, m.sz, m.hint⟩
  | .NOPM => none
  | .NOPI => none

/-- The memory operations among some instructions. -/
def ops (l : List MemMemop) : List Access := l.filterMap access?

end MemMemop

def Access.memop (a : Access) (pc : UInt64) (syllable : Nat) : MemMemop :=
  ⟨0, a.ea, a.sz, a.hint, if a.store then .STORE else .LOAD, (pc, syllable)⟩

namespace TraceLine

def access (line : TraceLine ι) : Access :=
  ⟨line.store, line.addr + (8 * line.byte).toUInt64, line.sz.toUInt8, line.hint.toUInt8⟩

def request (line : TraceLine ι) : Request ι := ⟨line.access, line.wait⟩

end TraceLine

def Waiting.request (w : Waiting ι) : Request ι := ⟨w.access, some (w.waitingThread, w.waitingInst)⟩

/-! ### Making bundles -/

/-- The trace while a bundle is made from it. -/
structure Reading (ι : Type) where
  trace : List (TraceLine ι)
  waiting : Option (Waiting ι)
  eof : Bool
  read : List (Request ι)

namespace Reading

variable (getCurrentInst : ι → UInt64) (stopped : Bool) (predicted_pc : UInt64) (i : Nat)

/-- The syllable while the thread waits: its operation, if the other thread is far enough. -/
def check (r : Reading ι) (w : Waiting ι) : MemMemop × Reading ι :=
  if w.waitingInst ≤ getCurrentInst w.waitingThread then
    (w.access.memop predicted_pc i, { r with waiting := none, read := r.read ++ [w.request] })
  else (.nop .NOPM predicted_pc i, { r with waiting := some w })

/-- One round of the loop of `makeBundle`; a line that waits is checked in the next one. -/
def syllable (r : Reading ι) : MemMemop × Reading ι :=
  if r.eof || stopped then (.nop .NOPM predicted_pc i, r)
  else
    match r.waiting, r.trace with
    | some w, _ => r.check getCurrentInst predicted_pc i w
    | none, [] => (.nop .NOPM predicted_pc i, { r with eof := i == 0 })
    | none, line :: trace =>
        match line.wait with
        | none =>
            (line.access.memop predicted_pc i,
              { r with trace := trace, read := r.read ++ [line.request] })
        | some (w_thread, w_inst) =>
            let w := ⟨line.access, w_thread, w_inst⟩
            { r with trace := trace, waiting := some w }.check getCurrentInst predicted_pc i w

end Reading

namespace MemThread

variable (getCurrentInst : ι → UInt64) (t : MemThread ι)

/-- The thread with a new bundle, and whether the trace has ended. -/
def makeBundle (predicted_pc : UInt64) : Bool × MemThread ι :=
  let r : Reading ι := ⟨t.trace, t.waiting, false, t.read⟩
  let (m₀, r) := r.syllable getCurrentInst t.stopped predicted_pc 0
  let (m₁, r) := r.syllable getCurrentInst t.stopped predicted_pc 1
  (r.eof, { t with
    op := [m₀, m₁, .nop .NOPI predicted_pc 2]
    haveBundle := true
    current_inst := 0
    trace := r.trace
    waiting := r.waiting
    read := r.read })

/-- No-ops are deleted, also if something else is in flight. -/
def empty_issued : MemThread ι :=
  { t with lists := { t.lists with issued := t.lists.issued.filter fun m => !m.isNOP } }

/-- `ThreadEnd` and `StopThread`. -/
def finish : MemThread ι := { t with stopped := true, ended := true }

/-- There is a bundle to take a syllable from. -/
def withBundle (predicted_pc : UInt64) : MemThread ι :=
  if t.haveBundle then t
  else
    match t.makeBundle getCurrentInst predicted_pc with
    | (false, t) => t
    | (true, t) =>
        let t := t.empty_issued
        if t.lists.issued.isEmpty && !t.stopped then t.finish else t

def GetNextInstr (predicted_pc : UInt64) : Option (MemMemop × MemThread ι) :=
  match t.lists.replay with
  | m :: replay => some (m, { t with lists := { t.lists with replay := replay } })
  | [] =>
      let t := t.withBundle getCurrentInst predicted_pc
      t.op[t.current_inst]?.map fun m =>
        (m, { t with
          current_inst := t.current_inst + 1
          haveBundle := t.current_inst + 1 < SYLLABLES_PER_BUNDLE })

/-! ### Fetching, killing and committing -/

def generate_asim_inst (predicted_pc : UInt64) (uid : Nat) : Option (MemThread ι) :=
  (t.GetNextInstr getCurrentInst predicted_pc).map fun (m, t) =>
    let p := { m with uid := uid }
    { t with
      lists := { t.lists with issued := t.lists.issued ++ [p] }
      inflight := t.inflight ++ [p]
      fetched := uid :: t.fetched }

def copy_to_replay_queue (ref_uid : Nat) (lists : Window MemMemop) : Option (Window MemMemop) :=
  lists.copyToReplay MemMemop.uid ref_uid

def kill_and_replay_this_inst (ref_uid : Nat) (lists : Window MemMemop) : Window MemMemop :=
  lists.replayThis MemMemop.uid ref_uid

def kill (uid : Nat) (killMe : Bool) : Option (MemThread ι) :=
  (copy_to_replay_queue uid t.lists).map fun lists =>
    { t with
      lists := if killMe then kill_and_replay_this_inst uid lists else lists
      inflight := t.inflight.filter fun p => ¬ Window.Killed MemMemop.uid uid killMe p }

def commit_skipping_nops (ref_uid : Nat) : Option (MemThread ι) :=
  (Window.commitSkipping MemMemop.uid MemMemop.isNOP ref_uid t.lists.issued).map
    fun (left, issued, found) =>
      { t with
        lists := { t.lists with issued := issued }
        currentInst := if found then t.currentInst + 1 else t.currentInst
        committed := t.committed ++ MemMemop.ops left
        inflight := t.inflight.filter fun p => ref_uid < p.uid }

end MemThread

/-! ### All threads -/

inductive MemEvent (ι : Type)
  | fetch (thread : ι) (predicted_pc : UInt64) (uid : Nat)
  | kill (thread : ι) (uid : Nat) (killMe : Bool)
  | commit (thread : ι) (uid : Nat)
  deriving DecidableEq, Repr

/-- An event happens to one thread; nothing, where the program has no meaning or stops. -/
def exec [DecidableEq ι] (s : ι → MemThread ι) : MemEvent ι → Option (ι → MemThread ι)
  | .fetch thread predicted_pc uid =>
      ((s thread).generate_asim_inst (fun u => (s u).currentInst) predicted_pc uid).map
        (Function.update s thread)
  | .kill thread uid killMe => ((s thread).kill uid killMe).map (Function.update s thread)
  | .commit thread uid => ((s thread).commit_skipping_nops uid).map (Function.update s thread)

end AsimFeeder.MemFeeder
