/-
A thread of the synthetic feeder: what it has issued and what it replays.

Everything on the correct path goes through the replay list, also the first time.  The
issued list remembers it until it commits or is killed; what is handed out on the wrong
path is forgotten.

Where the syllables come from is a parameter: the routines that draw random events, build
bundles and keep the program counter, with all that they keep as `γ`.  So are the
syllables themselves, `σ`, of which only the address and whether they are no-ops matter
here.  Memory values, the status of loads and branches in canned programs, and the count
of committed instructions that ends a thread are left out.

Beside the lists stands what happened: the syllables that were generated for the correct
path, those that were committed, and the instructions that were fetched.

Numbers of instructions are natural numbers: they only grow, and are only compared.
-/
import AsimFeeder.Lib.ReplayWindow
import AsimFeeder.Lib.Runs

namespace AsimFeeder.Synth

open Lib

/-- New syllables have this number until they are issued. -/
def magic_uid : Nat := 0xffffffffffffffff

/-- Number of wrong path fetches before we decide that the simulation is hosed. -/
def WRONG_PATH_LIMIT : Nat := 2000

/-- What generates the syllables of a thread; what each does to the thread is part of `γ`. -/
structure Generator (γ IADDR σ : Type) where
  /-- `done_with_entire_event`. -/
  done_with_entire_event : γ → Bool
  /-- `consume_synthetic_events`. -/
  consume_synthetic_events : γ → γ
  /-- `get_ipf_pc`. -/
  get_ipf_pc : γ → IADDR
  /-- The branch from the predicted address to where the thread starts. -/
  first_branch : γ → IADDR → σ
  /-- `test_and_make_branch`, up to the branch if there is one. -/
  test_branch : γ → Option σ × γ
  /-- What it does after the branch is issued. -/
  after_branch : γ → γ
  /-- `need_filler`, and the count of what is emitted before it. -/
  need_filler : γ → Bool × γ
  /-- `create_junk_bundle_keeper`. -/
  create_junk_bundle_keeper : γ → (σ × σ × σ) × γ
  /-- `convert_event_to_synth_inst`, with the register that it adds to the history. -/
  convert_event_to_synth_inst : γ → σ × γ
  /-- `inc_correct_path_bundle_count`. -/
  inc_correct_path_bundle_count : γ → γ
  /-- `create_junk_bundle_upper`. -/
  create_junk_bundle_upper : γ → IADDR → γ
  pc : σ → IADDR
  isNOP : σ → Bool

/-- A syllable with the number of the instruction it was handed out as last. -/
structure SynthInst (σ : Type) where
  syllable : σ
  uid : Nat
  deriving DecidableEq, Repr

structure SynthThread (γ σ : Type) where
  gen : γ
  needJumpToNextPC : Bool
  wrong_path : Nat
  lists : Window (SynthInst σ)
  generated : List σ
  committed : List σ
  fetched : List Nat

/-- What ends the simulator, or means nothing: `front` or `back` of an empty list. -/
inductive Fault
  | wrongPathLimit
  | emptyList
  | outOfOrder
  deriving DecidableEq, Repr

inductive ThreadEvent (IADDR : Type)
  | fetch (predicted_pc : IADDR) (uid : Nat)
  | kill (uid : Nat) (killMe : Bool)
  | commit (uid : Nat)
  deriving DecidableEq, Repr

namespace SynthThread

variable {γ IADDR σ : Type} (g : Generator γ IADDR σ) (s : SynthThread γ σ)

/-! ### Killing and committing -/

def copy_to_replay_queue (ref_uid : Nat) (lists : Window (SynthInst σ)) :
    Option (Window (SynthInst σ)) :=
  lists.copyToReplay SynthInst.uid ref_uid

def kill_and_replay_this_inst (ref_uid : Nat) (lists : Window (SynthInst σ)) :
    Window (SynthInst σ) :=
  lists.replayThis SynthInst.uid ref_uid

/-- A kill with `killMe` is one that does not fetch the next instruction. -/
def kill (uid : Nat) (killMe : Bool) : Except Fault (SynthThread γ σ) :=
  match copy_to_replay_queue uid s.lists with
  | none => .error .emptyList
  | some lists =>
      .ok { s with lists := if killMe then kill_and_replay_this_inst uid lists else lists }

def commit_skipping_nops (ref_uid : Nat) : Except Fault (SynthThread γ σ) :=
  match Window.commitSkipping SynthInst.uid (fun p => g.isNOP p.syllable) ref_uid
      s.lists.issued with
  | none => .error .outOfOrder
  | some (left, issued, _) =>
      .ok { s with
        lists := { s.lists with issued := issued }
        committed := s.committed ++ left.map SynthInst.syllable }

/-! ### Fetching -/

/-- A syllable is generated, and waits for its turn in the replay list. -/
def add_to_replay (syllable : σ) : SynthThread γ σ :=
  { s with
    lists := { s.lists with replay := s.lists.replay ++ [⟨syllable, magic_uid⟩] }
    generated := s.generated ++ [syllable] }

def issue_synth_inst_from_replay (uid : Nat) : Except Fault (SynthThread γ σ) :=
  match s.lists.replay with
  | [] => .error .emptyList
  | minst :: replay =>
      .ok { s with
        gen := if minst.uid = magic_uid then g.inc_correct_path_bundle_count s.gen else s.gen
        lists := ⟨s.lists.issued ++ [{ minst with uid := uid }], replay⟩ }

def not_wrong_path : SynthThread γ σ := { s with wrong_path := 0 }

def wrongPath (predicted_pc : IADDR) : Except Fault (SynthThread γ σ) :=
  if WRONG_PATH_LIMIT ≤ s.wrong_path + 1 then .error .wrongPathLimit
  else
    .ok { s with
      gen := g.create_junk_bundle_upper s.gen predicted_pc
      wrong_path := s.wrong_path + 1 }

def emit_first_branch (predicted_pc : IADDR) (uid : Nat) : Except Fault (SynthThread γ σ) :=
  ((s.add_to_replay (g.first_branch s.gen predicted_pc)).issue_synth_inst_from_replay g uid).map
    fun s => { s with needJumpToNextPC := false, wrong_path := 0 }

/-- One syllable of the event goes to the replay list. -/
def addEvent : SynthThread γ σ :=
  let minst := g.convert_event_to_synth_inst s.gen
  let s := { s with gen := minst.2 }
  s.add_to_replay minst.1

def correct_path_synthetic (uid : Nat) : Except Fault (SynthThread γ σ) :=
  let s := s.not_wrong_path
  match g.test_branch s.gen with
  | (some branch, gen) =>
      let s := { s with gen := gen }
      ((s.add_to_replay branch).issue_synth_inst_from_replay g uid).map
        fun s => { s with gen := g.after_branch s.gen }
  | (none, gen) =>
      match g.need_filler gen with
      | (true, gen) =>
          let junk := g.create_junk_bundle_keeper gen
          let s := { s with gen := junk.2 }
          (((s.add_to_replay junk.1.1).add_to_replay junk.1.2.1).add_to_replay
            junk.1.2.2).issue_synth_inst_from_replay g uid
      | (false, gen) =>
          let s := { s with gen := gen }
          (((s.addEvent g).addEvent g).addEvent g).issue_synth_inst_from_replay g uid

variable [DecidableEq IADDR]

def assemble_inst_from_synth_events (predicted_pc : IADDR) (uid : Nat) :
    Except Fault (SynthThread γ σ) :=
  let s :=
    if g.done_with_entire_event s.gen then
      { s with gen := g.consume_synthetic_events s.gen }
    else s
  if s.needJumpToNextPC then s.emit_first_branch g predicted_pc uid
  else if g.get_ipf_pc s.gen = predicted_pc then s.correct_path_synthetic g uid
  else s.wrongPath g predicted_pc

def generate_asim_inst (predicted_pc : IADDR) (uid : Nat) :
    Except Fault (SynthThread γ σ) :=
  match s.lists.replay with
  | p :: _ =>
      if g.pc p.syllable = predicted_pc then
        (s.issue_synth_inst_from_replay g uid).map not_wrong_path
      else s.wrongPath g predicted_pc
  | [] => s.assemble_inst_from_synth_events g predicted_pc uid

/-! ### All that can happen to a thread -/

def exec : ThreadEvent IADDR → Except Fault (SynthThread γ σ)
  | .fetch predicted_pc uid =>
      (s.generate_asim_inst g predicted_pc uid).map fun t => { t with fetched := uid :: s.fetched }
  | .kill uid killMe => s.kill uid killMe
  | .commit uid => s.commit_skipping_nops g uid

end SynthThread

end AsimFeeder.Synth
