/-
Where the syllables of a synthetic thread come from (`synth-routine.h`, `synth-thread.h`,
`synth-thread-mgmt.cpp`).

A thread runs one of two routines.  A routine keeps its own program counter; a syllable index
of three means that its bundle is done.  The first routine calls the second at random; the
second returns when it has run long enough.  The return address and the routine to return to
are on two stacks.  A target of 0 stands for no branch, which is not so where a routine starts
at 0, or a return goes there.

Random numbers come from a tape: `drand48()` as a count of units of `2 ^ -48`, and the types of
syllables that a bundle is refined to.  Only the draws that the path depends on are on the
tape.  Registers, memory operands and dependent uses are left out, and with them the count of
bundles on the correct path.
-/
import AsimFeeder.Synth.SynthThread

namespace AsimFeeder.Synth.Routines

def SYLLABLES_PER_BUNDLE : Nat := 3

def BYTES_PER_BUNDLE : BitVec 64 := 16

def mask_bundle_addr (pc : BitVec 64) : BitVec 64 := pc &&& ~~~(BYTES_PER_BUNDLE - 1)

structure IADDR where
  bundleAddr : BitVec 64
  syllableIndex : Nat
deriving DecidableEq, Repr

def IADDR.Next (ia : IADDR) : IADDR :=
  if ia.syllableIndex + 1 < SYLLABLES_PER_BUNDLE then ⟨ia.bundleAddr, ia.syllableIndex + 1⟩
  else ⟨ia.bundleAddr + BYTES_PER_BUNDLE, 0⟩

/-- `SYNTH_IPF_*`. -/
inductive SynthIpf
  | INVALID
  | NOPM
  | NOPI
  | NOPB
  | NOPF
  | XOR
  | XOR_DEPENDENT
  | LOAD
  | STORE
  | COMPARE_EXCHANGE
  | EXCHANGE
  | FENCE
  | BRANCH
  | LONG_BRANCH
  | LIMM
  | FMA
  | COMPARE
  | FETCH_AND_ADD
  | LFETCH
  | LAST
deriving DecidableEq, Repr

/-- How a syllable came to be; the source does not keep it. -/
inductive Kind
  | plain
  | first
  | loop
  | call
  | ret
deriving DecidableEq, Repr

structure PathSyllable where
  pc : IADDR
  type : SynthIpf
  taken : Bool
  target : IADDR
  kind : Kind
deriving DecidableEq, Repr

def PathSyllable.isNOP (minst : PathSyllable) : Bool :=
  minst.type = .NOPI ∨ minst.type = .NOPB ∨ minst.type = .NOPF ∨ minst.type = .NOPM

/-! ### Routines -/

structure SynthRoutine where
  start_pc : BitVec 64
  slength : BitVec 32
  dlength : BitVec 32
  leaf : Bool
  branch_off_path_pct : Nat
  local_icount : BitVec 64
  cur_pc : BitVec 64
  syllable : Nat
  non_branch_ctr : BitVec 32
deriving DecidableEq, Repr

namespace SynthRoutine

variable (r : SynthRoutine)

def on_main_path : Bool := r.dlength = 0

def make_done : SynthRoutine := { r with syllable := SYLLABLES_PER_BUNDLE }

def emitted_branch : SynthRoutine := { r with non_branch_ctr := r.slength }

def reinit : SynthRoutine :=
  let r := { r with cur_pc := r.start_pc }
  let r := { r.make_done with local_icount := 0 }
  r.emitted_branch

/-- A new routine. -/
def new (branch_off_path_pct : Nat) (start_pc : BitVec 64) (slength dlength : BitVec 32)
    (leaf : Bool) : SynthRoutine :=
  reinit
    { start_pc := start_pc
      slength := slength
      dlength := dlength
      leaf := leaf
      branch_off_path_pct := branch_off_path_pct
      local_icount := 0
      cur_pc := 0
      syllable := 0
      non_branch_ctr := 0 }

def inc_pc : SynthRoutine := { r with cur_pc := r.cur_pc + BYTES_PER_BUNDLE }

def set_pc (pc : BitVec 64) : SynthRoutine :=
  { r with
    cur_pc := mask_bundle_addr pc
    syllable := 0 }

def need_to_return : Bool := !r.on_main_path && decide (r.dlength.setWidth 64 ≤ r.local_icount)

def emitted_non_branch : SynthRoutine :=
  { r with
    local_icount := r.local_icount + 1
    non_branch_ctr := r.non_branch_ctr - 1 }

/-- If we go negative, then we need to emit a branch. -/
def need_branch_to_top : Bool := r.non_branch_ctr.toInt ≤ 0

def get_ipf_pc : IADDR := ⟨r.cur_pc, r.syllable⟩

def set_syllable (a : Nat) : SynthRoutine := { r with syllable := a }

/-- The pc advances behind the last syllable of a bundle. -/
def inc_syllable : SynthRoutine :=
  if r.syllable + 1 = SYLLABLES_PER_BUNDLE then (r.set_syllable (r.syllable + 1)).inc_pc
  else r.set_syllable (r.syllable + 1)

end SynthRoutine

/-! ### The thread's path -/

/-- One draw: a random number, and the syllables that a bundle is refined to. -/
structure Draw where
  drand48 : Nat
  syllables : Nat → SynthIpf

structure PathParams where
  fixed_spacing : Bool
  memop_frequency : BitVec 32
  random_threshold : Nat
  branch_off_path_pct : Nat
  branch_bundle_in_routine : BitVec 32
  static_syllables : BitVec 32
  dynamic_syllables : BitVec 32
  /-- `random_aligned_address`. -/
  start_pc1 : BitVec 64
  routine_offset : BitVec 32
  tape : Nat → Draw

def PathParams.start_pc2 (p : PathParams) : BitVec 64 :=
  p.start_pc1 + p.routine_offset.setWidth 64

inductive PathName
  | main
  | second
deriving DecidableEq, Repr

structure SynthPath where
  main_path : SynthRoutine
  second_path : SynthRoutine
  current_path : PathName
  pc_stack : List (BitVec 64)
  path_stack : List PathName
  preceeding_inst : Nat
  ipf_syllables : Nat → SynthIpf
  /-- How many draws were made. -/
  drawn : Nat
  /-- The branch that is under way, and its target. -/
  branch : Option (Kind × BitVec 64)
  /-- An assertion that failed. -/
  fault : Option String

namespace SynthPath

variable (p : PathParams) (s : SynthPath)

def new : SynthPath where
  main_path := .new p.branch_off_path_pct p.start_pc1 p.static_syllables 0 false
  second_path := .new p.branch_off_path_pct p.start_pc2 p.static_syllables p.dynamic_syllables true
  current_path := .main
  pc_stack := []
  path_stack := []
  preceeding_inst := 0
  ipf_syllables := fun _ => .INVALID
  drawn := 0
  branch := none
  fault := none

def routine : PathName → SynthRoutine
  | .main => s.main_path
  | .second => s.second_path

def current : SynthRoutine := s.routine s.current_path

def setCurrent (r : SynthRoutine) : SynthPath :=
  match s.current_path with
  | .main => { s with main_path := r }
  | .second => { s with second_path := r }

def assert_failed (msg : String) : SynthPath := { s with fault := some msg }

def clear_preceeding_insts : SynthPath := { s with preceeding_inst := 0 }

def set_gap : SynthPath :=
  { s with preceeding_inst := if p.fixed_spacing then (p.memop_frequency - 1).toNat else 0 }

def dec_preceeding_inst : SynthPath :=
  if p.fixed_spacing then { s with preceeding_inst := s.preceeding_inst - 1 } else s

def make_done : SynthPath := (s.setCurrent s.current.make_done).clear_preceeding_insts

/-- The pc is advanced and the syllable index is at the end, so that a new event is drawn. -/
def next_bundle : SynthPath := (s.setCurrent s.current.inc_pc).make_done

def done : Bool := s.current.syllable = SYLLABLES_PER_BUNDLE

def done_with_entire_event : Bool := s.done && decide (s.preceeding_inst = 0)

def get_ipf_pc : IADDR := s.current.get_ipf_pc

/-- `random_pct() < pct`, of the next draw. -/
def random_pct_below (pct : Nat) : Bool := 100 * (p.tape s.drawn).drand48 < pct * 2 ^ 48

def random_over_threshold (thresh : Nat) : Bool :=
  thresh * 2 ^ 48 < 100 * (p.tape s.drawn).drand48

def draw : SynthPath := { s with drawn := s.drawn + 1 }

/-- An address, which counts as true unless it is 0; the product is one of 32 bits. -/
def at_branch : Bool :=
  s.current.start_pc +
    (p.branch_bundle_in_routine * BYTES_PER_BUNDLE.setWidth 32).setWidth 64 ≠ 0

def need_to_branch_out : Bool :=
  !s.current.leaf && s.random_pct_below p s.current.branch_off_path_pct

def push_pc : SynthPath :=
  { s with pc_stack := (s.current.cur_pc + BYTES_PER_BUNDLE) :: s.pc_stack }

def push_current_path : SynthPath := { s with path_stack := s.current_path :: s.path_stack }

def pop_path : SynthPath :=
  match s.path_stack with
  | [] => s.assert_failed "!path_stack.empty()"
  | path :: path_stack => { s with current_path := path, path_stack := path_stack }

def select_second_path : SynthPath :=
  { s with
    current_path := .second
    second_path := s.second_path.reinit
    preceeding_inst := 0 }

/-! ### Events and bundles -/

def consume_synthetic_events : SynthPath :=
  let s := s.set_gap p
  let s := s.setCurrent (s.current.set_syllable 0)
  { s with ipf_syllables := (p.tape s.drawn).syllables }.draw

def make_indirect_branch (kind : Kind) (pc target : BitVec 64) : PathSyllable :=
  ⟨⟨pc, 0⟩, .BRANCH, true, ⟨target, 0⟩, kind⟩

/-- The branch that is needed, if its target is not 0. -/
def make_branch (kind : Kind) (tgt : BitVec 64) : Option PathSyllable × SynthPath :=
  if tgt ≠ 0 then
    (some (make_indirect_branch kind s.current.cur_pc tgt),
      { s with branch := some (kind, tgt) })
  else (none, s)

/-- `test_and_make_branch`, up to the branch. -/
def test_branch : Option PathSyllable × SynthPath :=
  if s.current.need_to_return then
    match s.pc_stack with
    | [] => (none, s.assert_failed "!pc_stack.empty()")
    | tgt :: pc_stack => make_branch { s with pc_stack := pc_stack } .ret tgt
  else if s.current.need_branch_to_top then s.make_branch .loop s.current.start_pc
  else if s.at_branch p then
    if s.need_to_branch_out p then s.draw.push_pc.make_branch .call s.second_path.start_pc
    else (none, if s.current.leaf then s else s.draw)
  else (none, s)

/-- The rest of it. -/
def after_branch : SynthPath :=
  match s.branch with
  | some (.call, _) => { s with branch := none }.next_bundle.push_current_path.select_second_path
  | some (.ret, _) => { s with branch := none }.pop_path.clear_preceeding_insts
  | some (_, tgt) =>
      let s := { s with branch := none }
      let s := s.setCurrent s.current.emitted_branch
      s.setCurrent (s.current.set_pc tgt)
  | none => s

/-- After the three that are counted. -/
def need_filler : Bool × SynthPath :=
  let s := s.setCurrent
    s.current.emitted_non_branch.emitted_non_branch.emitted_non_branch
  if p.fixed_spacing then (decide (s.preceeding_inst ≠ 0), s)
  else (s.random_over_threshold p p.random_threshold, s.draw)

def create_junk_bundle_keeper : (PathSyllable × PathSyllable × PathSyllable) × SynthPath :=
  let types := (p.tape s.drawn).syllables
  let pc := s.current.cur_pc
  let junk := fun i => PathSyllable.mk ⟨pc, i⟩ (types i) false ⟨0, 0⟩ .plain
  let s := s.draw
  let s := s.setCurrent s.current.inc_syllable.inc_syllable.inc_syllable
  let s := s.setCurrent (s.current.set_syllable 0)
  ((junk 0, junk 1, junk 2), s.dec_preceeding_inst p)

def convert_event_to_synth_inst : PathSyllable × SynthPath :=
  let idx := s.current.syllable
  let pc := s.get_ipf_pc
  let type := s.ipf_syllables idx
  let s := if idx < SYLLABLES_PER_BUNDLE then s else s.assert_failed "idx < SYLLABLES_PER_BUNDLE"
  match type with
  | .LONG_BRANCH | .BRANCH =>
      -- an event is always taken, to 0
      let s := s.setCurrent s.current.inc_syllable
      let s := s.setCurrent (s.current.set_pc 0)
      (⟨pc, type, true, ⟨0, 0⟩, .plain⟩, s.make_done)
  | .INVALID | .LAST =>
      (⟨pc, type, false, ⟨0, 0⟩, .plain⟩, s.assert_failed "Unexpected SYNTH_IPF_* node.")
  | _ => (⟨pc, type, false, ⟨0, 0⟩, .plain⟩, s.setCurrent s.current.inc_syllable)

/-- The synthetic generator. -/
def generator : Generator SynthPath IADDR PathSyllable where
  done_with_entire_event := done_with_entire_event
  consume_synthetic_events := consume_synthetic_events p
  get_ipf_pc := get_ipf_pc
  first_branch := fun s predicted_pc =>
    make_indirect_branch .first predicted_pc.bundleAddr s.current.cur_pc
  test_branch := test_branch p
  after_branch := after_branch
  need_filler := need_filler p
  create_junk_bundle_keeper := create_junk_bundle_keeper p
  convert_event_to_synth_inst := convert_event_to_synth_inst
  inc_correct_path_bundle_count := id
  create_junk_bundle_upper := fun s _ => s
  pc := PathSyllable.pc
  isNOP := PathSyllable.isNOP

end SynthPath

end AsimFeeder.Synth.Routines
