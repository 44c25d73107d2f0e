/-
The synchronizing threads of the synthetic feeder, and the values that they share.

All threads have one memory value model.  A store becomes visible through a memop, which
`asim_inst_to_memop_map` finds again by the number of its instruction: it is made when the
store becomes visible first, handed to the model, and reclaimed when the store is globally
visible.  A compare-exchange that saw the lock taken stores nothing.

Memops are handed around as pointers; here a pointer is the count of memops made before,
and `ops` and `asim_uid` have what is behind it.  The model's copy of the pointers is in
`Model`, with the stamps.  A memop is deleted when neither the model nor the feeder cares
for it any more.
-/
import AsimFeeder.MemoryValues.MemoryReads
import AsimFeeder.Synth.CannedThread

namespace AsimFeeder

/-- `get_value32`: element `a & 3` of four bytes. -/
def MemoryValues.MemOp.getValue32 (m : MemoryValues.MemOp) (a : BitVec 64) : BitVec 32 :=
  let i := 4 * (a &&& 3)
  m.getValue8 (i + 3) ++ m.getValue8 (i + 2) ++ m.getValue8 (i + 1) ++ m.getValue8 i

namespace Synth

open Lib MemoryValues

structure ThreadMgmt where
  threads : Nat → CannedThread
  mvm : MemoryValueModel
  asim_inst_to_memop_map : Nat → Option Ref
  ops : Ref → MemOp
  asim_uid : Ref → Nat
  mvm_cares : Ref → Bool
  feeder_cares : Ref → Bool
  /-- The memops made so far are below. -/
  made : Ref

namespace ThreadMgmt

variable (s : ThreadMgmt)

def new : ThreadMgmt where
  threads _ := .new
  mvm := .new fun _ => 0
  asim_inst_to_memop_map _ := none
  ops _ := .new 0 0 0
  asim_uid _ := 0
  mvm_cares _ := false
  feeder_cares _ := false
  made := 0

def setThread (streamId : Nat) (thread : CannedThread) : ThreadMgmt :=
  { s with threads := Function.update s.threads streamId thread }

/-! ### Memops -/

def find_memop_in_map (asim_uid : Nat) : Option Ref := s.asim_inst_to_memop_map asim_uid

def remove_memop_from_map (m : Ref) : ThreadMgmt :=
  { s with
    asim_inst_to_memop_map := Function.update s.asim_inst_to_memop_map (s.asim_uid m) none }

def remember_memop_in_map (asim_uid : Nat) (m : Ref) : ThreadMgmt :=
  { s with asim_inst_to_memop_map := Function.update s.asim_inst_to_memop_map asim_uid (some m) }

/-- It is deleted now, if the model does not care either. -/
def reclaim_memop (m : Ref) : ThreadMgmt :=
  let s := s.remove_memop_from_map m
  { s with feeder_cares := Function.update s.feeder_cares m false }

/-- The memop has not been deleted. -/
def live (m : Ref) : Prop := m < s.made ∧ (s.mvm_cares m = true ∨ s.feeder_cares m = true)

/-- `new MVM_MEMOP`, with its value. -/
def new_memop (bits streamId : Nat) (pa : BitVec 64) (asim_uid : Nat) (value : UWord128) :
    ThreadMgmt :=
  { s with
    ops := Function.update s.ops s.made ((MemOp.new bits streamId pa).setValue128 value)
    asim_uid := Function.update s.asim_uid s.made asim_uid
    mvm_cares := Function.update s.mvm_cares s.made false
    feeder_cares := Function.update s.feeder_cares s.made true
    made := s.made + 1 }

def set_state (m : Ref) (st : MemState) : Except String ThreadMgmt :=
  ((s.ops m).setState st).map fun op => { s with ops := Function.update s.ops m op }

def store_visible (m : Ref) : MemState → Except String ThreadMgmt
  | .locallyVisible => (s.mvm.storeLocallyVisibleNow s.ops m).map fun mvm =>
      { s with mvm := mvm, mvm_cares := Function.update s.mvm_cares m true }
  | .globallyVisible => (s.mvm.storeGloballyVisibleNow s.ops m).map fun mvm =>
      { s with mvm := mvm, mvm_cares := Function.update s.mvm_cares m false }
  | _ => .error "0"

def killed (m : Ref) : Except String ThreadMgmt :=
  (s.mvm.killed s.ops m).map fun mvm => { s with mvm := mvm }

/-! ### Reads and writes -/

/-- Bits of an access; its size is a logarithm. -/
def bits_size (inst : AsimInst) : Nat := 2 ^ inst.access_size * 8

def handle_mvm_read (inst : AsimInst) (streamId : Nat) : Except String ThreadMgmt := do
  let m ← s.mvm.readValueNow s.ops (.new (bits_size inst) streamId inst.ea)
  let old_val := m.getValue32 inst.ea
  let thread ← (s.threads streamId).handle_mvm_read inst old_val
  .ok (s.setThread streamId thread)

def remove_si_value (streamId : Nat) (inst : AsimInst) : ThreadMgmt :=
  s.setThread streamId { s.threads streamId with
    a2v_map := Function.update (s.threads streamId).a2v_map inst.uid none }

/-- A compare-exchange stores if its test is entering. -/
def doing_conditional_store (inst : AsimInst) (streamId : Nat) : Except String Bool :=
  if inst.isCompareExchange then
    match (s.threads streamId).a2s_map inst.uid with
    | none => .ok false
    | some minst => (s.threads streamId).synch_iteration_status.entering minst.iteration
  else .ok true

/-- The memop of the instruction, or a new one. -/
def find_or_make (inst : AsimInst) (streamId : Nat) (bits : Nat) (pa : BitVec 64)
    (value : UWord128) : ThreadMgmt × Ref :=
  match s.find_memop_in_map inst.uid with
  | some m => (s, m)
  | none => (s.new_memop bits streamId pa inst.uid value, s.made)

def handle_mvm_one_write (inst : AsimInst) (streamId : Nat) (st : MemState) (bits : Nat)
    (pa : BitVec 64) (value : UWord128) : Except String ThreadMgmt := do
  -- It is set whether a memop was found or not.
  let found := true
  if ← s.doing_conditional_store inst streamId then
    let (s, m) := s.find_or_make inst streamId bits pa value
    let s ← s.set_state m st
    let s ← s.store_visible m st
    if st = .globallyVisible then
      .ok ((s.reclaim_memop m).remove_si_value streamId inst)
    else if !found then
      .ok (s.remember_memop_in_map inst.uid m)
    else
      .ok s
  else
    let t := s.remove_si_value streamId inst
    match s.find_memop_in_map inst.uid with
    | some m => .ok (t.reclaim_memop m)
    | none => .ok t

def handle_mvm_writes (inst : AsimInst) (streamId : Nat) (st : MemState) :
    Except String ThreadMgmt :=
  let stored_value := ((s.threads streamId).a2v_map inst.uid).getD .zero
  s.handle_mvm_one_write inst streamId st (bits_size inst) inst.ea stored_value

/-! ### What the simulator calls -/

def Fetch (g : GenableProgram) (streamId : Nat) (predicted_pc : Iaddr) (uid : Nat) :
    Except String (ThreadMgmt × AsimInst) :=
  ((s.threads streamId).generate_asim_inst g predicted_pc uid).map fun x =>
    (s.setThread streamId x.1, x.2)

def DoRead (inst : AsimInst) (streamId : Nat) : Except String ThreadMgmt :=
  s.handle_mvm_read inst streamId

def DoSpecWrite (inst : AsimInst) (streamId : Nat) : Except String ThreadMgmt :=
  if inst.isSemaphore then .ok s else s.handle_mvm_writes inst streamId .locallyVisible

def DoWrite (inst : AsimInst) (streamId : Nat) : Except String ThreadMgmt :=
  s.handle_mvm_writes inst streamId .globallyVisible

def Commit (inst : AsimInst) (streamId : Nat) : Except String ThreadMgmt :=
  ((s.threads streamId).commit_skipping_nops inst.uid).map (s.setThread streamId)

/-- One instruction of the issued list in the loop of `kill_memops`. -/
def kill_memop (asim_uid : Nat) (killme : Bool) (s : ThreadMgmt) (p : CannedInst) :
    Except String ThreadMgmt :=
  if asim_uid < p.uid ∨ killme = true ∧ p.uid = asim_uid then
    match s.find_memop_in_map p.uid with
    | some m => s.killed m
    | none => .ok s
  else .ok s

/-- The number is a `UINT32` here. -/
def kill_memops (streamId asim_uid : Nat) (killme : Bool) : Except String ThreadMgmt :=
  (s.threads streamId).issued.foldlM (kill_memop (asim_uid % 2 ^ 32) killme) s

def Kill (inst : AsimInst) (streamId : Nat) (killMe : Bool) : Except String ThreadMgmt := do
  let s ← s.kill_memops streamId inst.uid killMe
  let thread ← (s.threads streamId).kill inst.uid killMe
  .ok (s.setThread streamId thread)

end ThreadMgmt

end Synth

end AsimFeeder
