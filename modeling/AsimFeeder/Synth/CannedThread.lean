/-
A thread of the synthetic feeder that runs the canned lock.

The program is a loop: a load looks whether the lock is free, a compare-exchange takes it,
and behind each of them a conditional branch leads back to the start when it was not.
Then the lock is held for some bundles, a store releases it, and after some more bundles
the loop begins again.

Any address in the program is fetched from the program, wherever the thread is; elsewhere
the thread hands out junk, which it forgets.  What is added to the replay list is issued
at once, and what a kill takes out of the issued list is deleted, so nothing ever waits in
the replay list and it is left out.

Loads and compare-exchanges are numbered, and the outcome of each is kept under its number.
A branch carries the number of the test before it and looks there for its direction.

`asim_inst_to_synth_inst_map` holds pointers to the instructions of the issued list.  An
instruction changes no more once it is in the map, so the map holds the instruction; like
the source, it keeps the entries of what was deleted.

An `ASSERT` or `ASIMERROR` that strikes is an error here, and so is reading on behind the
front of an empty list.  The count of committed instructions is left out.
-/
import AsimFeeder.MemoryValues.MemoryValues
import AsimFeeder.Synth.SynthThread

namespace AsimFeeder.Synth

open Lib MemoryValues

/-! ### The outcomes of tests -/

inductive SynchStatusEnum
  | invalid
  | entering
  | blocked
  deriving DecidableEq, Repr

def SYNCH_STATUS_HISTORY : Nat := 10000

/-- A `SYNCH_STATUS_CLASS`. -/
structure SynchStatus where
  array : Nat → SynchStatusEnum
  iteration : Nat

namespace SynchStatus

variable (s : SynchStatus)

def overflowed : String := "Overflowed the synch status array"

def new : SynchStatus := ⟨fun _ => .invalid, 0⟩

def set_iter_count (new_count : Nat) : Except String SynchStatus :=
  if SYNCH_STATUS_HISTORY ≤ new_count then .error overflowed
  else .ok { s with iteration := new_count }

def inc_iter : SynchStatus :=
  if s.iteration + 1 = SYNCH_STATUS_HISTORY then { s with iteration := 0 }
  else { s with iteration := s.iteration + 1 }

def get_elem (idx : Nat) : Except String SynchStatusEnum :=
  if SYNCH_STATUS_HISTORY ≤ idx then .error overflowed else .ok (s.array idx)

def set_elem (idx : Nat) (v : SynchStatusEnum) : Except String SynchStatus :=
  if SYNCH_STATUS_HISTORY ≤ idx then .error overflowed
  else .ok { s with array := Function.update s.array idx v }

def entering (idx : Nat) : Except String Bool := (s.get_elem idx).map (· == .entering)

def blocked (idx : Nat) : Except String Bool := (s.get_elem idx).map (· == .blocked)

def clear_elem (idx : Nat) : Except String SynchStatus := s.set_elem idx .invalid

end SynchStatus

/-! ### Instructions -/

/-- `SYNTH_IPF_ENUM`, as far as canned programs use it. -/
inductive SynthIpf
  | nopi
  | nopb
  | xor
  | compare
  | load
  | compareExchange
  | store
  | branch
  deriving DecidableEq, Repr

/-- An `IADDR_CLASS`: the address of a bundle, and a syllable in it. -/
structure Iaddr where
  bundleAddr : BitVec 64
  syllable : Fin 3
  deriving DecidableEq, Repr

/-- A `SYNTH_INST_CLASS`. -/
structure CannedInst where
  uid : Nat := magic_uid
  type : SynthIpf
  pc : Iaddr
  ea : BitVec 64 := 0
  access_size : Nat := 0
  target : Iaddr := ⟨0, 0⟩
  value : UWord128 := .zero
  iteration : Nat := 0
  conditional_branch : Bool := false

namespace CannedInst

def isNOP (p : CannedInst) : Bool := p.type == .nopi || p.type == .nopb

def isCompareExchange (p : CannedInst) : Bool := p.type == .compareExchange

def isLoad (p : CannedInst) : Bool := p.type == .load

def isBranch (p : CannedInst) : Bool := p.type == .branch

end CannedInst

/-- What the simulator sees of an instruction; the program makes its branches predicated. -/
structure AsimInst where
  uid : Nat
  type : SynthIpf
  predicated : Bool
  ea : BitVec 64
  access_size : Nat
  deriving DecidableEq, Repr

namespace AsimInst

/-- Junk is none of what the feeder asks for. -/
def junk (uid : Nat) : AsimInst := ⟨uid, .xor, false, 0, 0⟩

def isCompareExchange (i : AsimInst) : Bool := i.type == .compareExchange

def isLoad (i : AsimInst) : Bool := i.type == .load

def isStore (i : AsimInst) : Bool := i.type == .store

def isSemaphore (i : AsimInst) : Bool := i.type == .compareExchange

def isBranch (i : AsimInst) : Bool := i.type == .branch

end AsimInst

def convert_synth_inst_to_asim_inst (minst : CannedInst) : AsimInst where
  uid := minst.uid
  type := minst.type
  predicated := minst.isBranch && minst.conditional_branch
  ea := minst.ea
  access_size := minst.access_size

/-! ### The program -/

def BYTES_PER_BUNDLE : Nat := 16

def invalid_reg : Nat := 999

/-- A `GENABLE_INST_CLASS`: an instruction, and its qualifying predicate. -/
structure GenableInst where
  minst : CannedInst
  qp : Nat := invalid_reg

def GenableInst.isPredicated (g : GenableInst) : Bool := g.qp != 0

/-- A `GENABLE_PROGRAM_CLASS`. -/
structure GenableProgram where
  start_pc : BitVec 64
  bundles : List (Fin 3 → GenableInst)

namespace GenableProgram

variable (g : GenableProgram)

/-- The bundle behind those that the program has. -/
def pc : BitVec 64 := g.start_pc + BitVec.ofNat 64 (g.bundles.length * BYTES_PER_BUNDLE)

def add_bundle (bundle : BitVec 64 → Fin 3 → GenableInst) : GenableProgram :=
  { g with bundles := g.bundles ++ [bundle g.pc] }

def get_inst (pc : Iaddr) : Option GenableInst :=
  if g.start_pc ≤ pc.bundleAddr ∧ pc.bundleAddr < g.pc then
    (g.bundles[(pc.bundleAddr - g.start_pc).toNat / BYTES_PER_BUNDLE]?).map (· pc.syllable)
  else none

def in_range (pc : Iaddr) : Bool := (g.get_inst pc).isSome

/-- An instruction, and no-ops up to the end of the bundle. -/
def fill_rest_with_nops (first : Iaddr → GenableInst) (type : SynthIpf) (pc : BitVec 64) :
    Fin 3 → GenableInst
  | 0 => first ⟨pc, 0⟩
  | i => { minst := { type := type, pc := ⟨pc, i⟩ } }

/-- The lock is at address 0. -/
def mem_addr : BitVec 64 := 0

def add_load_test (pc : Iaddr) : GenableInst where
  minst := { type := .load, pc := pc, ea := mem_addr, access_size := 1 }

def add_cmp (pc : Iaddr) : GenableInst where
  minst := { type := .compare, pc := pc }

def add_cmpxch (pc : Iaddr) : GenableInst where
  minst := {
    type := .compareExchange
    pc := pc
    ea := mem_addr
    access_size := 1
    value := UWord128.zero.setElement 4 (mem_addr &&& 3).toNat (-1) }

def add_xor (pc : Iaddr) : GenableInst where
  minst := { type := .xor, pc := pc }

def add_xor_bundle (pc : BitVec 64) (i : Fin 3) : GenableInst := add_xor ⟨pc, i⟩

def add_branch (target_pc : BitVec 64) (qp : Nat) (pc : Iaddr) : GenableInst where
  minst := { type := .branch, pc := pc, target := ⟨target_pc, 0⟩ }
  qp := qp

def add_store_release (pc : Iaddr) : GenableInst where
  minst := {
    type := .store
    pc := pc
    ea := mem_addr
    access_size := 1
    value := UWord128.zero.setElement 4 (mem_addr &&& 3).toNat 0 }

def add_xor_bundles : Nat → GenableProgram → GenableProgram
  | 0, g => g
  | n + 1, g => add_xor_bundles n (g.add_bundle add_xor_bundle)

/-- The canned lock. -/
def make_synchronization_routine (arg_pc : BitVec 64)
    (holding_delay_bundles reentry_delay_bundles : Nat) : GenableProgram :=
  let g : GenableProgram := ⟨arg_pc, []⟩
  -- pre-test to see if the lock is free
  let g := g.add_bundle (fill_rest_with_nops add_load_test .nopi)
  let g := g.add_bundle (fill_rest_with_nops add_cmp .nopi)
  let g := g.add_bundle (fill_rest_with_nops (add_branch arg_pc 2) .nopb)
  let g := g.add_bundle (fill_rest_with_nops add_cmpxch .nopi)
  let g := g.add_bundle (fill_rest_with_nops add_cmp .nopi)
  let g := g.add_bundle (fill_rest_with_nops (add_branch arg_pc 2) .nopb)
  let g := add_xor_bundles holding_delay_bundles g
  let g := g.add_bundle (fill_rest_with_nops add_store_release .nopi)
  let g := add_xor_bundles reentry_delay_bundles g
  -- always taken
  g.add_bundle (fill_rest_with_nops (add_branch arg_pc 0) .nopb)

end GenableProgram

/-! ### The thread -/

structure CannedThread where
  needJumpToNextPC : Bool
  wrong_path : Nat
  /-- Issued but not committed. -/
  issued : List CannedInst
  synch_iteration_status : SynchStatus
  a2s_map : Nat → Option CannedInst
  a2v_map : Nat → Option UWord128

namespace CannedThread

variable (s : CannedThread)

def new : CannedThread where
  needJumpToNextPC := true
  wrong_path := 0
  issued := []
  synch_iteration_status := .new
  a2s_map _ := none
  a2v_map _ := none

/-! ### Fetching -/

def remember_si (minst : CannedInst) : CannedThread :=
  { s with a2s_map := Function.update s.a2s_map minst.uid (some minst) }

def remember_si_value (minst : CannedInst) : CannedThread :=
  { s with a2v_map := Function.update s.a2v_map minst.uid (some minst.value) }

def inc_iteration_count : Except String CannedThread :=
  let status := s.synch_iteration_status.inc_iter
  (status.clear_elem status.iteration).map fun status =>
    { s with synch_iteration_status := status }

/-- Put it in the issued list, and hook everything together so that it is found later. -/
def hook_together (minst : CannedInst) : Except String CannedThread := do
  let inst := convert_synth_inst_to_asim_inst minst
  let s := if inst.isSemaphore || inst.isStore then s.remember_si_value minst else s
  if minst.isCompareExchange || minst.isLoad then
    let s ← s.inc_iteration_count
    let minst := { minst with iteration := s.synch_iteration_status.iteration }
    .ok (({ s with issued := s.issued ++ [minst] }).remember_si minst)
  else if minst.isBranch && minst.conditional_branch then
    let minst := { minst with iteration := s.synch_iteration_status.iteration }
    .ok (({ s with issued := s.issued ++ [minst] }).remember_si minst)
  else
    .ok { s with issued := s.issued ++ [minst] }

/-- `minst` is all there is in the replay list. -/
def issue_synth_inst_from_replay (minst : CannedInst) (uid : Nat) :
    Except String (CannedThread × AsimInst) :=
  let minst := { minst with uid := uid }
  (s.hook_together minst).map fun s => (s, convert_synth_inst_to_asim_inst minst)

def make_indirect_branch (pc target : BitVec 64) : CannedInst where
  type := .branch
  pc := ⟨pc, 0⟩
  target := ⟨target, 0⟩

/-- The thread has not moved yet, so its address is where the program starts. -/
def emit_first_branch (g : GenableProgram) (predicted_pc : Iaddr) (uid : Nat) :
    Except String (CannedThread × AsimInst) :=
  (s.issue_synth_inst_from_replay (make_indirect_branch predicted_pc.bundleAddr g.start_pc)
    uid).map fun x => ({ x.1 with needJumpToNextPC := false, wrong_path := 0 }, x.2)

def correct_path_programmed (g : GenableInst) (uid : Nat) :
    Except String (CannedThread × AsimInst) :=
  let minst :=
    if g.isPredicated then { g.minst with conditional_branch := true } else g.minst
  ({ s with wrong_path := 0 }).issue_synth_inst_from_replay minst uid

def wrongPath (uid : Nat) : Except String (CannedThread × AsimInst) :=
  if WRONG_PATH_LIMIT ≤ s.wrong_path + 1 then .error "ERROR: We were on the wrong path"
  else .ok ({ s with wrong_path := s.wrong_path + 1 }, .junk uid)

def generate_asim_inst (g : GenableProgram) (predicted_pc : Iaddr) (uid : Nat) :
    Except String (CannedThread × AsimInst) :=
  if s.needJumpToNextPC then s.emit_first_branch g predicted_pc uid
  else
    match g.get_inst predicted_pc with
    | some inst => s.correct_path_programmed inst uid
    | none => s.wrongPath uid

/-! ### Tests and branches -/

/-- The part of `handle_mvm_read` behind the read; `old_val` is what was read. -/
def handle_mvm_read (inst : AsimInst) (old_val : BitVec 32) : Except String CannedThread :=
  if inst.isCompareExchange || inst.isLoad then
    match s.a2s_map inst.uid with
    | none => .ok s
    | some minst =>
        -- A lock that reads zero is free.
        (s.synch_iteration_status.set_elem minst.iteration
          (if old_val = 0 then .entering else .blocked)).map
          fun status => { s with synch_iteration_status := status }
  else .ok s

/-- The direction and the target that a predicated branch gets. -/
def issue (next : Iaddr → Iaddr) (inst : AsimInst) : Except String (Option (Bool × Iaddr)) :=
  if inst.isBranch && inst.predicated then
    match s.a2s_map inst.uid with
    | none => .error "issue() did not find the SYNTH_INST"
    | some minst =>
        (s.synch_iteration_status.blocked minst.iteration).map fun blocked =>
          some (blocked, if blocked then minst.target else next minst.pc)
  else .ok none

/-! ### Killing and committing -/

def minCountError : String := "Error in min iteration count"

/-- One round of the loop of `find_new_iteration_count`: the minimum, unless there is none. -/
def min_count (ref_uid : Nat) (killMe : Bool) (x : Option Nat) (p : CannedInst) : Option Nat :=
  if Window.Killed CannedInst.uid ref_uid killMe p ∧
      (p.type = .compareExchange ∨ p.type = .load) then
    match x with
    | none => some p.iteration
    | some min_count => some (if p.iteration < min_count then p.iteration else min_count)
  else x

def find_new_iteration_count (ref_uid : Nat) (killMe : Bool) : Except String CannedThread :=
  match s.issued.foldl (min_count ref_uid killMe) none with
  | none => .ok s
  | some min_count =>
      if 0 < min_count then
        (s.synch_iteration_status.set_iter_count (min_count - 1)).map fun status =>
          { s with synch_iteration_status := status }
      else .error minCountError

/-- What would be replayed is deleted. -/
def kill (uid : Nat) (killMe : Bool) : Except String CannedThread := do
  let s ← s.find_new_iteration_count uid killMe
  match Window.kill CannedInst.uid uid killMe ⟨s.issued, []⟩ with
  | none => .error "p"
  | some lists => .ok { s with issued := lists.issued }

def commit_skipping_nops (ref_uid : Nat) : Except String CannedThread :=
  match Window.commitSkipping CannedInst.uid CannedInst.isNOP ref_uid s.issued with
  | none => .error "committing out of order is not supported yet"
  | some (_, issued, _) => .ok { s with issued := issued }

end CannedThread

end AsimFeeder.Synth
