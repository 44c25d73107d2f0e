/-
A step of the generator is a step of a path through the program.

Each syllable stands where the one before it goes on, and each return goes behind its call.
One invariant says which routine runs and what is on the stacks, another where the next
syllable is: at the program counter, whose syllable index is 0 or says that the bundle is done.

A branch to 0 is not made.  A loop may do without it.  A call has by then pushed its return
address, and a return has popped its own, so that the two stacks no longer agree.
-/
import AsimFeeder.Synth.PathGenerator

namespace AsimFeeder.Synth.Routines

/-! ### Paths through the program -/

/-- Where the program goes on. -/
def PathSyllable.successor (x : PathSyllable) : IADDR :=
  if x.taken then ⟨x.target.bundleAddr, 0⟩ else x.pc.Next

/-- What a syllable does to the addresses that calls are to return to. -/
def nestStep (stack : List (BitVec 64)) (x : PathSyllable) : Option (List (BitVec 64)) :=
  match x.kind with
  | .call => some ((x.pc.bundleAddr + BYTES_PER_BUNDLE) :: stack)
  | .ret =>
      match stack with
      | [] => none
      | a :: stack => if x.successor = ⟨a, 0⟩ then some stack else none
  | _ => some stack

/-- The addresses that are to be returned to; none if a return goes elsewhere. -/
def nest (xs : List PathSyllable) : Option (List (BitVec 64)) := xs.foldlM nestStep []

/-- What a bundle can be refined to, without branches. -/
def SynthIpf.refined : SynthIpf → Bool
  | .BRANCH | .LONG_BRANCH | .INVALID | .LAST => false
  | _ => true

/-- Routines are aligned, and no bundle is specified with a branch. -/
structure PathParams.WellFormed (p : PathParams) : Prop where
  aligned1 : mask_bundle_addr p.start_pc1 = p.start_pc1
  aligned2 : mask_bundle_addr p.start_pc2 = p.start_pc2
  refined : ∀ n i, ((p.tape n).syllables i).refined = true

namespace SynthPath

variable {p : PathParams} {s t u : SynthPath}

/-! ### What an update of a routine changes -/

@[simp]
theorem current_setCurrent (s : SynthPath) (r : SynthRoutine) : (s.setCurrent r).current = r := by
  unfold setCurrent current routine
  cases s.current_path <;> rfl

@[simp]
theorem current_path_setCurrent (s : SynthPath) (r : SynthRoutine) :
    (s.setCurrent r).current_path = s.current_path := by
  unfold setCurrent
  cases s.current_path <;> rfl

@[simp]
theorem pc_stack_setCurrent (s : SynthPath) (r : SynthRoutine) :
    (s.setCurrent r).pc_stack = s.pc_stack := by
  unfold setCurrent
  cases s.current_path <;> rfl

@[simp]
theorem path_stack_setCurrent (s : SynthPath) (r : SynthRoutine) :
    (s.setCurrent r).path_stack = s.path_stack := by
  unfold setCurrent
  cases s.current_path <;> rfl

@[simp]
theorem fault_setCurrent (s : SynthPath) (r : SynthRoutine) :
    (s.setCurrent r).fault = s.fault := by
  unfold setCurrent
  cases s.current_path <;> rfl

@[simp]
theorem preceeding_inst_setCurrent (s : SynthPath) (r : SynthRoutine) :
    (s.setCurrent r).preceeding_inst = s.preceeding_inst := by
  unfold setCurrent
  cases s.current_path <;> rfl

@[simp]
theorem ipf_syllables_setCurrent (s : SynthPath) (r : SynthRoutine) :
    (s.setCurrent r).ipf_syllables = s.ipf_syllables := by
  unfold setCurrent
  cases s.current_path <;> rfl

/-! ### Which routine runs -/

/-- Only the first routine calls; the second has one return address, behind the call. -/
structure Shape (p : PathParams) (s : SynthPath) : Prop where
  fault : s.fault = none
  main_start : s.main_path.start_pc = p.start_pc1
  second_start : s.second_path.start_pc = p.start_pc2
  main_dlength : s.main_path.dlength = 0
  second_leaf : s.second_path.leaf = true
  in_main : s.current_path = .main → s.path_stack = [] ∧ s.pc_stack = []
  in_second : s.current_path = .second → s.path_stack = [.main] ∧
    s.pc_stack = [s.main_path.cur_pc] ∧ s.main_path.syllable = SYLLABLES_PER_BUNDLE

namespace Shape

/-- Only the routines, the stacks and the assertions matter. -/
theorem of_eq (h : Shape p s) (hmain : t.main_path = s.main_path)
    (hsecond : t.second_path = s.second_path) (hcurrent : t.current_path = s.current_path)
    (hpc : t.pc_stack = s.pc_stack) (hpath : t.path_stack = s.path_stack)
    (hfault : t.fault = s.fault) : Shape p t where
  fault := hfault.trans h.fault
  main_start := by rw [hmain]; exact h.main_start
  second_start := by rw [hsecond]; exact h.second_start
  main_dlength := by rw [hmain]; exact h.main_dlength
  second_leaf := by rw [hsecond]; exact h.second_leaf
  in_main := by rw [hcurrent, hpath, hpc]; exact h.in_main
  in_second := by rw [hcurrent, hpath, hpc, hmain]; exact h.in_second

/-- The routine that runs may move on. -/
theorem setCurrent (h : Shape p s) {r : SynthRoutine} (hstart : r.start_pc = s.current.start_pc)
    (hdlength : r.dlength = s.current.dlength) (hleaf : r.leaf = s.current.leaf) :
    Shape p (s.setCurrent r) := by
  cases hpath : s.current_path with
  | main =>
      have hcurrent : s.current = s.main_path := by rw [current, hpath, routine]
      have hset : s.setCurrent r = { s with main_path := r } := by
        rw [SynthPath.setCurrent, hpath]
      rw [hset]
      exact {
        fault := h.fault
        main_start := by rw [← h.main_start, ← hcurrent, ← hstart]
        second_start := h.second_start
        main_dlength := by rw [← h.main_dlength, ← hcurrent, ← hdlength]
        second_leaf := h.second_leaf
        in_main := h.in_main
        in_second := fun hsecond => by rw [hpath] at hsecond; cases hsecond }
  | second =>
      have hcurrent : s.current = s.second_path := by rw [current, hpath, routine]
      have hset : s.setCurrent r = { s with second_path := r } := by
        rw [SynthPath.setCurrent, hpath]
      rw [hset]
      exact {
        fault := h.fault
        main_start := h.main_start
        second_start := by rw [← h.second_start, ← hcurrent, ← hstart]
        main_dlength := h.main_dlength
        second_leaf := by rw [← h.second_leaf, ← hcurrent, ← hleaf]
        in_main := h.in_main
        in_second := h.in_second }

theorem depths (h : Shape p s) : s.pc_stack.length = s.path_stack.length := by
  cases hpath : s.current_path with
  | main => rw [(h.in_main hpath).1, (h.in_main hpath).2]; rfl
  | second => rw [(h.in_second hpath).1, (h.in_second hpath).2.1]; rfl

/-- A routine that is to return was called. -/
theorem second_of_return (h : Shape p s) (hreturn : s.current.need_to_return = true) :
    s.current_path = .second := by
  cases hpath : s.current_path with
  | second => rfl
  | main =>
      have hcurrent : s.current = s.main_path := by rw [current, hpath, routine]
      rw [hcurrent, SynthRoutine.need_to_return, SynthRoutine.on_main_path,
        h.main_dlength] at hreturn
      simp at hreturn

/-- A routine that calls was not called. -/
theorem main_of_call (h : Shape p s) (hcall : s.need_to_branch_out p = true) :
    s.current_path = .main := by
  cases hpath : s.current_path with
  | main => rfl
  | second =>
      have hcurrent : s.current = s.second_path := by rw [current, hpath, routine]
      rw [need_to_branch_out, hcurrent, h.second_leaf] at hcall
      simp at hcall

theorem new (p : PathParams) : Shape p (new p) where
  fault := rfl
  main_start := rfl
  second_start := rfl
  main_dlength := rfl
  second_leaf := rfl
  in_main := fun _ => ⟨rfl, rfl⟩
  in_second := fun h => by cases h

end Shape

/-! ### Where the next syllable is -/

/-- The bundle is done: a new event is drawn before anything else. -/
structure Done (s : SynthPath) : Prop where
  syllable : s.current.syllable = SYLLABLES_PER_BUNDLE
  gap : s.preceeding_inst = 0

/-- A bundle begins. -/
structure Begins (p : PathParams) (s : SynthPath) : Prop where
  syllable : s.current.syllable = 0
  gap : p.fixed_spacing = false → s.preceeding_inst = 0
  refined : ∀ i, (s.ipf_syllables i).refined = true

/-- With the event that is drawn when there is none. -/
def ready (p : PathParams) (s : SynthPath) : SynthPath :=
  if s.done_with_entire_event then s.consume_synthetic_events p else s

theorem Begins.ready_eq (h : Begins p s) : s.ready p = s := by
  have hdone : s.done_with_entire_event = false := by
    simp [done_with_entire_event, done, h.syllable, SYLLABLES_PER_BUNDLE]
  rw [ready, hdone]
  rfl

theorem Done.ready_eq (h : Done s) : s.ready p = s.consume_synthetic_events p := by
  have hdone : s.done_with_entire_event = true := by
    simp [done_with_entire_event, done, h.syllable, h.gap]
  rw [ready, hdone, if_pos rfl]

/-- An event is drawn without a step of the path. -/
theorem Shape.consume (h : Shape p s) : Shape p (s.consume_synthetic_events p) := by
  have hgap : Shape p (s.set_gap p) := h.of_eq rfl rfl rfl rfl rfl rfl
  exact (hgap.setCurrent (r := (s.set_gap p).current.set_syllable 0) rfl rfl rfl).of_eq
    rfl rfl rfl rfl rfl rfl

theorem Done.consume (hp : p.WellFormed) : Begins p (s.consume_synthetic_events p) where
  syllable := by
    show ((s.set_gap p).setCurrent _).current.syllable = 0
    rw [current_setCurrent]
    rfl
  gap := by
    intro hfixed
    show ((s.set_gap p).setCurrent _).preceeding_inst = 0
    rw [preceeding_inst_setCurrent, set_gap, hfixed]
    rfl
  refined := fun i => hp.refined _ i

/-! ### Syllables that go on from the program counter -/

/-- The syllables so far are a path to the program counter. -/
structure Follows (s : SynthPath) (xs : List PathSyllable) : Prop where
  chain : xs.IsChain fun x y => y.pc = x.successor
  ends : ∀ x ∈ xs.getLast?, x.successor = ⟨s.current.cur_pc, 0⟩
  nests : nest xs = some s.pc_stack

/-- More syllables are a path from one program counter to another. -/
structure Emits (s : SynthPath) (xs : List PathSyllable) (t : SynthPath) : Prop where
  nonempty : xs ≠ []
  chain : xs.IsChain fun x y => y.pc = x.successor
  begins : ∀ x ∈ xs.head?, x.pc = ⟨s.current.cur_pc, 0⟩
  ends : ∀ x ∈ xs.getLast?, x.successor = ⟨t.current.cur_pc, 0⟩
  nests : xs.foldlM nestStep s.pc_stack = some t.pc_stack

theorem Follows.append {xs ys : List PathSyllable} (h : Follows s xs) (hemits : Emits s ys t) :
    Follows t (xs ++ ys) where
  chain := by
    refine List.isChain_append.mpr ⟨h.chain, hemits.chain, fun x hx y hy => ?_⟩
    rw [hemits.begins y hy, h.ends x hx]
  ends := by
    intro x hx
    rw [List.getLast?_append_of_ne_nil xs hemits.nonempty] at hx
    exact hemits.ends x hx
  nests := by
    have hxs : xs.foldlM nestStep [] = some s.pc_stack := h.nests
    rw [nest, List.foldlM_append, hxs]
    exact hemits.nests

/-- Neither the program counter nor a stack moves. -/
structure Stays (s t : SynthPath) : Prop where
  cur_pc : t.current.cur_pc = s.current.cur_pc
  pc_stack : t.pc_stack = s.pc_stack
  path_stack : t.path_stack = s.path_stack

theorem Stays.follows (h : Stays s t) {xs : List PathSyllable} (hs : Follows s xs) :
    Follows t xs where
  chain := hs.chain
  ends := by rw [h.cur_pc]; exact hs.ends
  nests := by rw [h.pc_stack]; exact hs.nests

theorem Stays.emits (h : Stays s t) {xs : List PathSyllable} (ht : Emits t xs u) :
    Emits s xs u where
  nonempty := ht.nonempty
  chain := ht.chain
  begins := by rw [← h.cur_pc]; exact ht.begins
  ends := ht.ends
  nests := by rw [← h.pc_stack]; exact ht.nests

theorem stays_consume (p : PathParams) (s : SynthPath) :
    Stays s (s.consume_synthetic_events p) where
  cur_pc := by
    show ((s.set_gap p).setCurrent _).current.cur_pc = _
    rw [current_setCurrent]
    rfl
  pc_stack := pc_stack_setCurrent (s.set_gap p) _
  path_stack := path_stack_setCurrent (s.set_gap p) _

/-! ### Bundles without a branch -/

/-- One of a bundle's syllables, that goes on to the next. -/
structure Plain (pc : IADDR) (x : PathSyllable) : Prop where
  pc : x.pc = pc
  taken : x.taken = false
  kind : x.kind = .plain

theorem Plain.successor {pc : IADDR} {x : PathSyllable} (h : Plain pc x) :
    x.successor = pc.Next := by
  rw [PathSyllable.successor, h.taken, h.pc]
  rfl

theorem Plain.nestStep {pc : IADDR} {x : PathSyllable} (h : Plain pc x)
    (stack : List (BitVec 64)) : nestStep stack x = some stack := by
  unfold Routines.nestStep
  rw [h.kind]

theorem emits_bundle {x y z : PathSyllable} (hx : Plain ⟨s.current.cur_pc, 0⟩ x)
    (hy : Plain ⟨s.current.cur_pc, 1⟩ y) (hz : Plain ⟨s.current.cur_pc, 2⟩ z)
    (hpc : t.current.cur_pc = s.current.cur_pc + BYTES_PER_BUNDLE)
    (hstack : t.pc_stack = s.pc_stack) : Emits s [x, y, z] t where
  nonempty := List.cons_ne_nil _ _
  chain := by
    refine .cons_cons ?_ (.cons_cons ?_ (.singleton z))
    · rw [hx.successor, hy.pc]
      rfl
    · rw [hy.successor, hz.pc]
      rfl
  begins := by
    intro w hw
    obtain rfl : x = w := Option.some.inj hw
    exact hx.pc
  ends := by
    intro w hw
    obtain rfl : z = w := Option.some.inj hw
    rw [hz.successor, hpc]
    rfl
  nests := by
    simp [hx.nestStep, hy.nestStep, hz.nestStep, hstack]

/-- Three syllables are a bundle. -/
theorem inc_three {r : SynthRoutine} (h : r.syllable = 0) :
    r.inc_syllable.inc_syllable.inc_syllable =
      { r with
        cur_pc := r.cur_pc + BYTES_PER_BUNDLE
        syllable := SYLLABLES_PER_BUNDLE } := by
  simp [SynthRoutine.inc_syllable, SynthRoutine.set_syllable, SynthRoutine.inc_pc, h,
    SYLLABLES_PER_BUNDLE]

/-- The three syllables are counted, and nothing else happens. -/
theorem need_filler_stays (p : PathParams) (s : SynthPath) : Stays s (s.need_filler p).2 := by
  unfold need_filler
  by_cases hfixed : p.fixed_spacing = true
  · simp only [hfixed, if_true]
    exact ⟨by rw [current_setCurrent]; rfl, pc_stack_setCurrent s _, path_stack_setCurrent s _⟩
  · simp only [hfixed]
    refine ⟨?_, pc_stack_setCurrent s _, path_stack_setCurrent s _⟩
    show (s.setCurrent _).current.cur_pc = _
    rw [current_setCurrent]
    rfl

theorem Shape.need_filler (h : Shape p s) : Shape p (s.need_filler p).2 := by
  have hcounted : Shape p (s.setCurrent
      s.current.emitted_non_branch.emitted_non_branch.emitted_non_branch) :=
    h.setCurrent rfl rfl rfl
  unfold SynthPath.need_filler
  by_cases hfixed : p.fixed_spacing = true
  · simp only [hfixed, if_true]
    exact hcounted
  · simp only [hfixed]
    exact hcounted.of_eq rfl rfl rfl rfl rfl rfl

theorem Begins.need_filler (h : Begins p s) : Begins p (s.need_filler p).2 ∧
    ((s.need_filler p).1 = false → (s.need_filler p).2.preceeding_inst = 0) := by
  have hcounted : Begins p (s.setCurrent
      s.current.emitted_non_branch.emitted_non_branch.emitted_non_branch) := {
    syllable := by rw [current_setCurrent]; exact h.syllable
    gap := by rw [preceeding_inst_setCurrent]; exact h.gap
    refined := by rw [ipf_syllables_setCurrent]; exact h.refined }
  unfold SynthPath.need_filler
  by_cases hfixed : p.fixed_spacing = true
  · simp only [hfixed, if_true]
    refine ⟨hcounted, fun hnone => ?_⟩
    simpa using hnone
  · simp only [hfixed]
    refine ⟨⟨hcounted.syllable, hcounted.gap, hcounted.refined⟩, fun _ => ?_⟩
    exact hcounted.gap (Bool.eq_false_iff.mpr hfixed)

/-- The three syllables of a junk bundle. -/
def junkSyllables (p : PathParams) (s : SynthPath) : List PathSyllable :=
  [(s.create_junk_bundle_keeper p).1.1, (s.create_junk_bundle_keeper p).1.2.1,
    (s.create_junk_bundle_keeper p).1.2.2]

/-- A junk bundle but for the count. -/
def skipBundle (s : SynthPath) : SynthPath :=
  let s := s.draw
  let s := s.setCurrent s.current.inc_syllable.inc_syllable.inc_syllable
  s.setCurrent (s.current.set_syllable 0)

theorem junk_eq (p : PathParams) (s : SynthPath) :
    (s.create_junk_bundle_keeper p).2 = s.skipBundle.dec_preceeding_inst p := rfl

theorem Begins.skipBundle_current (h : Begins p s) : s.skipBundle.current =
    { s.current with cur_pc := s.current.cur_pc + BYTES_PER_BUNDLE } := by
  have hthree : s.draw.current.inc_syllable.inc_syllable.inc_syllable =
      { s.current with
        cur_pc := s.current.cur_pc + BYTES_PER_BUNDLE
        syllable := SYLLABLES_PER_BUNDLE } := inc_three h.syllable
  simp only [skipBundle, current_setCurrent, hthree, SynthRoutine.set_syllable]
  rw [← h.syllable]

theorem Shape.skipBundle (h : Shape p s) (hbegins : Begins p s) : Shape p s.skipBundle := by
  have hdraw : Shape p s.draw := h.of_eq rfl rfl rfl rfl rfl rfl
  have hthree := inc_three (r := s.draw.current) hbegins.syllable
  have hset : Shape p
      (s.draw.setCurrent s.draw.current.inc_syllable.inc_syllable.inc_syllable) := by
    rw [hthree]
    exact hdraw.setCurrent rfl rfl rfl
  exact hset.setCurrent rfl rfl rfl

theorem dec_preceeding_inst_eq (p : PathParams) (s : SynthPath) : s.dec_preceeding_inst p =
    { s with preceeding_inst :=
        if p.fixed_spacing then s.preceeding_inst - 1 else s.preceeding_inst } := by
  unfold dec_preceeding_inst
  by_cases hfixed : p.fixed_spacing = true
  · simp only [hfixed, if_true]
  · simp only [hfixed]
    rfl

theorem Shape.junk (h : Shape p s) (hbegins : Begins p s) :
    Shape p (s.create_junk_bundle_keeper p).2 := by
  rw [junk_eq, dec_preceeding_inst_eq]
  exact (h.skipBundle hbegins).of_eq rfl rfl rfl rfl rfl rfl

theorem stacks_junk (p : PathParams) (s : SynthPath) :
    (s.create_junk_bundle_keeper p).2.pc_stack = s.pc_stack ∧
      (s.create_junk_bundle_keeper p).2.path_stack = s.path_stack := by
  rw [junk_eq, dec_preceeding_inst_eq]
  simp only [skipBundle, pc_stack_setCurrent, path_stack_setCurrent]
  exact ⟨rfl, rfl⟩

theorem Begins.junk (h : Begins p s) : Begins p (s.create_junk_bundle_keeper p).2 := by
  rw [junk_eq, dec_preceeding_inst_eq]
  constructor
  · show s.skipBundle.current.syllable = 0
    rw [h.skipBundle_current]
    exact h.syllable
  · intro hfixed
    have hgap : s.skipBundle.preceeding_inst = 0 := by
      simp only [skipBundle, preceeding_inst_setCurrent]
      exact h.gap hfixed
    simp only [hfixed]
    exact hgap
  · show ∀ i, (s.skipBundle.ipf_syllables i).refined = true
    simp only [skipBundle, ipf_syllables_setCurrent]
    exact h.refined

theorem Begins.emits_junk (h : Begins p s) :
    Emits s (s.junkSyllables p) (s.create_junk_bundle_keeper p).2 := by
  refine emits_bundle ⟨rfl, rfl, rfl⟩ ⟨rfl, rfl, rfl⟩ ⟨rfl, rfl, rfl⟩ ?_ (stacks_junk p s).1
  rw [junk_eq, dec_preceeding_inst_eq]
  show s.skipBundle.current.cur_pc = _
  rw [h.skipBundle_current]

/-- The syllable that the next of the event's is converted to. -/
def eventSyllable (s : SynthPath) : PathSyllable :=
  ⟨s.get_ipf_pc, s.ipf_syllables s.current.syllable, false, ⟨0, 0⟩, .plain⟩

theorem convert_eq (hrefined : ∀ i, (s.ipf_syllables i).refined = true)
    (hidx : s.current.syllable < SYLLABLES_PER_BUNDLE) :
    s.convert_event_to_synth_inst = (s.eventSyllable, s.setCurrent s.current.inc_syllable) := by
  have href := hrefined s.current.syllable
  unfold convert_event_to_synth_inst eventSyllable
  simp only [hidx, if_true]
  cases htype : s.ipf_syllables s.current.syllable
  all_goals first
    | rfl
    | (rw [htype] at href; cases href)

theorem Shape.convert (h : Shape p s) (hrefined : ∀ i, (s.ipf_syllables i).refined = true)
    (hidx : s.current.syllable < SYLLABLES_PER_BUNDLE) :
    Shape p s.convert_event_to_synth_inst.2 := by
  rw [convert_eq hrefined hidx]
  refine h.setCurrent ?_ ?_ ?_
  all_goals
    unfold SynthRoutine.inc_syllable
    split <;> rfl

/-- So many syllables of the event were converted, of a bundle that began at `s`. -/
structure Within (s : SynthPath) (n : Nat) (t : SynthPath) : Prop where
  current : t.current = s.current.set_syllable n
  pc_stack : t.pc_stack = s.pc_stack
  path_stack : t.path_stack = s.path_stack
  gap : t.preceeding_inst = s.preceeding_inst
  refined : ∀ i, (t.ipf_syllables i).refined = true

theorem Begins.within (h : Begins p s) : Within s 0 s where
  current := by
    rw [SynthRoutine.set_syllable, ← h.syllable]
  pc_stack := rfl
  path_stack := rfl
  gap := rfl
  refined := h.refined

namespace Within

variable {n : Nat}

theorem syllable (h : Within s n t) : t.current.syllable = n := by
  rw [h.current]
  rfl

theorem convert (h : Within s n t) (hn : n < SYLLABLES_PER_BUNDLE) :
    t.convert_event_to_synth_inst = (t.eventSyllable, t.setCurrent t.current.inc_syllable) :=
  convert_eq h.refined (h.syllable.symm ▸ hn)

theorem plain (h : Within s n t) (hn : n < SYLLABLES_PER_BUNDLE) :
    Plain ⟨s.current.cur_pc, n⟩ t.convert_event_to_synth_inst.1 := by
  rw [h.convert hn]
  refine ⟨?_, rfl, rfl⟩
  show t.current.get_ipf_pc = _
  rw [h.current]
  rfl

theorem next (h : Within s n t) (hn : n + 1 < SYLLABLES_PER_BUNDLE) :
    Within s (n + 1) t.convert_event_to_synth_inst.2 := by
  rw [h.convert (Nat.lt_of_succ_lt hn)]
  constructor
  · have hmore : ¬ n + 1 = SYLLABLES_PER_BUNDLE := Nat.ne_of_lt hn
    show (t.setCurrent _).current = _
    rw [current_setCurrent, SynthRoutine.inc_syllable, h.syllable, if_neg hmore, h.current]
    rfl
  · exact (pc_stack_setCurrent t _).trans h.pc_stack
  · exact (path_stack_setCurrent t _).trans h.path_stack
  · exact (preceeding_inst_setCurrent t _).trans h.gap
  · show ∀ i, ((t.setCurrent _).ipf_syllables i).refined = true
    rw [ipf_syllables_setCurrent]
    exact h.refined

/-- Behind the last one the bundle is done, and the program counter moves on. -/
theorem last (h : Within s n t) (hn : n + 1 = SYLLABLES_PER_BUNDLE) (hgap : s.preceeding_inst = 0) :
    Done t.convert_event_to_synth_inst.2 ∧
      t.convert_event_to_synth_inst.2.current.cur_pc = s.current.cur_pc + BYTES_PER_BUNDLE ∧
      t.convert_event_to_synth_inst.2.pc_stack = s.pc_stack ∧
      t.convert_event_to_synth_inst.2.path_stack = s.path_stack := by
  rw [h.convert (by omega)]
  have hcurrent : (t.setCurrent t.current.inc_syllable).current =
      (t.current.set_syllable (n + 1)).inc_pc := by
    rw [current_setCurrent, SynthRoutine.inc_syllable, h.syllable, if_pos hn]
  refine ⟨⟨?_, ?_⟩, ?_, ?_, ?_⟩
  · show (t.setCurrent _).current.syllable = _
    rw [hcurrent, ← hn]
    rfl
  · exact ((preceeding_inst_setCurrent t _).trans h.gap).trans hgap
  · show (t.setCurrent _).current.cur_pc = _
    rw [hcurrent, h.current]
    rfl
  · exact (pc_stack_setCurrent t _).trans h.pc_stack
  · exact (path_stack_setCurrent t _).trans h.path_stack

end Within

/-- Behind so many syllables of the event. -/
def afterEvents (s : SynthPath) : Nat → SynthPath
  | 0 => s
  | n + 1 => (s.afterEvents n).convert_event_to_synth_inst.2

/-- The three syllables of the event. -/
def eventSyllables (s : SynthPath) : List PathSyllable :=
  [(s.afterEvents 0).convert_event_to_synth_inst.1,
    (s.afterEvents 1).convert_event_to_synth_inst.1,
    (s.afterEvents 2).convert_event_to_synth_inst.1]

theorem Begins.events (h : Begins p s) (hgap : s.preceeding_inst = 0) :
    Done (s.afterEvents 3) ∧ Emits s s.eventSyllables (s.afterEvents 3) ∧
      (s.afterEvents 3).pc_stack = s.pc_stack ∧ (s.afterEvents 3).path_stack = s.path_stack := by
  have h0 : Within s 0 (s.afterEvents 0) := h.within
  have h1 : Within s 1 (s.afterEvents 1) := h0.next (by decide)
  have h2 : Within s 2 (s.afterEvents 2) := h1.next (by decide)
  obtain ⟨hdone, hpc, hstack, hpath⟩ := h2.last rfl hgap
  refine ⟨hdone, ?_, hstack, hpath⟩
  exact emits_bundle (h0.plain (by decide)) (h1.plain (by decide)) (h2.plain (by decide)) hpc hstack

theorem Shape.events (h : Shape p s) (hbegins : Begins p s) : Shape p (s.afterEvents 3) := by
  have h0 : Within s 0 (s.afterEvents 0) := hbegins.within
  have h1 : Within s 1 (s.afterEvents 1) := h0.next (by decide)
  have h2 : Within s 2 (s.afterEvents 2) := h1.next (by decide)
  have hshape1 : Shape p (s.afterEvents 1) :=
    h.convert h0.refined (by rw [hbegins.syllable]; decide)
  have hshape2 : Shape p (s.afterEvents 2) :=
    hshape1.convert h1.refined (by rw [h1.syllable]; decide)
  exact hshape2.convert h2.refined (by rw [h2.syllable]; decide)

/-! ### Branches -/

/-- No return goes to 0, and no call to a routine that starts there. -/
structure Lands (p : PathParams) (s : SynthPath) : Prop where
  returns : s.current.need_to_return = true → s.pc_stack.head? ≠ some 0
  calls : s.current.need_to_return = false → s.current.need_branch_to_top = false →
    s.at_branch p = true → s.need_to_branch_out p = true → s.second_path.start_pc ≠ 0

/-- What becomes of a path at a branch. -/
structure Branches (p : PathParams) (s : SynthPath) (b : PathSyllable) (t : SynthPath) : Prop where
  shape : Shape p t
  place : Done t ∨ Begins p t
  emits : Emits s [b] t

theorem Stays.branches (h : Stays s t) {b : PathSyllable} (ht : Branches p t b u) :
    Branches p s b u :=
  ⟨ht.shape, ht.place, h.emits ht.emits⟩

/-- A branch that is taken is one more syllable. -/
theorem emits_branch {kind : Kind} {tgt : BitVec 64} (hpc : t.current.cur_pc = tgt)
    (hnests : nestStep s.pc_stack (make_indirect_branch kind s.current.cur_pc tgt) =
      some t.pc_stack) : Emits s [make_indirect_branch kind s.current.cur_pc tgt] t where
  nonempty := List.cons_ne_nil _ _
  chain := .singleton _
  begins := by
    intro x hx
    obtain rfl := Option.some.inj hx
    rfl
  ends := by
    intro x hx
    obtain rfl := Option.some.inj hx
    rw [hpc]
    rfl
  nests := by simp [hnests]

/-- Behind the bundle that ends a loop, the routine begins again. -/
theorem loop_branches (hp : p.WellFormed) (h : Shape p s) (hbegins : Begins p s) {tgt : BitVec 64}
    (htgt : tgt = s.current.start_pc) :
    Branches p s (make_indirect_branch .loop s.current.cur_pc tgt)
      { s with branch := some (.loop, tgt) }.after_branch := by
  have haligned : mask_bundle_addr tgt = tgt := by
    rw [htgt]
    cases hpath : s.current_path with
    | main =>
        rw [current, hpath, routine, h.main_start]
        exact hp.aligned1
    | second =>
        rw [current, hpath, routine, h.second_start]
        exact hp.aligned2
  have hbranch : Shape p { s with branch := none } := h.of_eq rfl rfl rfl rfl rfl rfl
  have hcurrent : ({ s with branch := some (.loop, tgt) }.after_branch).current =
      { s.current.emitted_branch with
        cur_pc := tgt
        syllable := 0 } := by
    show ((SynthPath.setCurrent _ _).setCurrent _).current = _
    rw [current_setCurrent, current_setCurrent, SynthRoutine.set_pc, haligned]
    rfl
  constructor
  · exact (hbranch.setCurrent (r := s.current.emitted_branch) rfl rfl rfl).setCurrent rfl rfl rfl
  · right
    constructor
    · rw [hcurrent]
    · show _ → ((SynthPath.setCurrent _ _).setCurrent _).preceeding_inst = 0
      rw [preceeding_inst_setCurrent, preceeding_inst_setCurrent]
      exact hbegins.gap
    · show ∀ i, (((SynthPath.setCurrent _ _).setCurrent _).ipf_syllables i).refined = true
      rw [ipf_syllables_setCurrent, ipf_syllables_setCurrent]
      exact hbegins.refined
  · apply emits_branch
    · rw [hcurrent]
    · show some s.pc_stack = some ((SynthPath.setCurrent _ _).setCurrent _).pc_stack
      rw [pc_stack_setCurrent, pc_stack_setCurrent]

theorem after_call (hpath : s.current_path = .main) (tgt : BitVec 64) :
    { s.push_pc with branch := some (.call, tgt) }.after_branch =
      { s with
        main_path := s.main_path.inc_pc.make_done
        second_path := s.second_path.reinit
        current_path := .second
        pc_stack := (s.main_path.cur_pc + BYTES_PER_BUNDLE) :: s.pc_stack
        path_stack := .main :: s.path_stack
        preceeding_inst := 0
        branch := none } := by
  simp only [after_branch, push_pc, next_bundle, make_done, clear_preceeding_insts, setCurrent,
    current, routine, push_current_path, select_second_path, hpath]

/-- A call goes to the second routine, and the first waits behind the call. -/
theorem call_branches (h : Shape p s) (hpath : s.current_path = .main) :
    Branches p s
      (make_indirect_branch .call s.push_pc.current.cur_pc s.push_pc.second_path.start_pc)
      { s.push_pc with branch := some (.call, s.push_pc.second_path.start_pc) }.after_branch := by
  obtain ⟨hpaths, hpcs⟩ := h.in_main hpath
  rw [after_call hpath]
  constructor
  · exact {
      fault := h.fault
      main_start := h.main_start
      second_start := h.second_start
      main_dlength := h.main_dlength
      second_leaf := h.second_leaf
      in_main := fun hmain => by cases hmain
      in_second := fun _ => ⟨by rw [hpaths], by rw [hpcs]; rfl, rfl⟩ }
  · exact .inl ⟨rfl, rfl⟩
  · apply emits_branch
    · rfl
    · show some _ = some _
      rw [current, hpath]
      rfl

theorem after_return (hpath : s.path_stack = [.main]) (tgt : BitVec 64) :
    { s with branch := some (.ret, tgt) }.after_branch =
      { s with
        current_path := .main
        path_stack := []
        preceeding_inst := 0
        branch := none } := by
  simp only [after_branch, pop_path, clear_preceeding_insts, hpath]

/-- A return goes to where the first routine waits. -/
theorem return_branches (h : Shape p s) (hpath : s.current_path = .second) :
    Branches p s (make_indirect_branch .ret s.current.cur_pc s.main_path.cur_pc)
      { s with
        pc_stack := []
        branch := some (.ret, s.main_path.cur_pc) }.after_branch := by
  obtain ⟨hpaths, hpcs, hdone⟩ := h.in_second hpath
  have hafter := after_return (s := { s with pc_stack := [] }) hpaths s.main_path.cur_pc
  rw [hafter]
  constructor
  · exact {
      fault := h.fault
      main_start := h.main_start
      second_start := h.second_start
      main_dlength := h.main_dlength
      second_leaf := h.second_leaf
      in_main := fun _ => ⟨rfl, rfl⟩
      in_second := fun hsecond => by cases hsecond }
  · exact .inl ⟨hdone, rfl⟩
  · apply emits_branch
    · rfl
    · rw [hpcs]
      exact if_pos rfl

/-- What `test_branch` makes, or leaves as it is. -/
theorem test_branch_cases (hp : p.WellFormed) (h : Shape p s) (hbegins : Begins p s)
    (hlands : Lands p s) :
    (∃ b t, s.test_branch p = (some b, t) ∧ Branches p s b t.after_branch) ∨
      ∃ t, s.test_branch p = (none, t) ∧ Shape p t ∧ Begins p t ∧ Stays s t := by
  by_cases hreturn : s.current.need_to_return = true
  · left
    have hpath := h.second_of_return hreturn
    have hpcs := (h.in_second hpath).2.1
    have htgt : s.main_path.cur_pc ≠ 0 := by
      intro hzero
      apply hlands.returns hreturn
      rw [hpcs, hzero]
      rfl
    refine ⟨_, _, ?_, return_branches h hpath⟩
    simp only [test_branch, hreturn, if_true, hpcs, make_branch, if_pos htgt]
    rfl
  have hreturn' := Bool.eq_false_iff.mpr hreturn
  by_cases htop : s.current.need_branch_to_top = true
  · by_cases htgt : s.current.start_pc = 0
    · right
      refine ⟨s, ?_, h, hbegins, rfl, rfl, rfl⟩
      simp [test_branch, hreturn', htop, make_branch, htgt]
    · left
      refine ⟨_, _, ?_, loop_branches hp h hbegins rfl⟩
      simpa [test_branch, hreturn', htop, make_branch] using htgt
  have htop' := Bool.eq_false_iff.mpr htop
  by_cases hat : s.at_branch p = true
  · by_cases hout : s.need_to_branch_out p = true
    · left
      have htgt := hlands.calls hreturn' htop' hat hout
      have hdraw : Shape p s.draw := h.of_eq rfl rfl rfl rfl rfl rfl
      have hstays : Stays s s.draw := ⟨rfl, rfl, rfl⟩
      refine ⟨_, _, ?_, hstays.branches (call_branches hdraw (h.main_of_call hout))⟩
      simp only [test_branch, hreturn', htop', hat, hout, make_branch, if_true]
      exact if_pos htgt
    · right
      refine ⟨if s.current.leaf then s else s.draw, ?_, ?_⟩
      · simp [test_branch, hreturn', htop', hat, hout]
      · cases s.current.leaf with
        | true => exact ⟨h, hbegins, rfl, rfl, rfl⟩
        | false =>
            exact ⟨h.of_eq rfl rfl rfl rfl rfl rfl,
              ⟨hbegins.syllable, hbegins.gap, hbegins.refined⟩, rfl, rfl, rfl⟩
  · right
    refine ⟨s, ?_, h, hbegins, rfl, rfl, rfl⟩
    simp [test_branch, hreturn', htop', hat]

/-- Otherwise a stack has changed, and the other one has not. -/
theorem test_branch_strays (h : Shape p s) (hbegins : Begins p s) (hnot : ¬ Lands p s) :
    ∃ t, s.test_branch p = (none, t) ∧ Begins p t ∧ t.pc_stack.length ≠ t.path_stack.length := by
  by_cases hreturn : s.current.need_to_return = true
  · obtain ⟨hpaths, hpcs, -⟩ := h.in_second (h.second_of_return hreturn)
    have hzero : s.main_path.cur_pc = 0 := by
      by_contra htgt
      refine hnot ⟨fun _ hhead => htgt ?_, fun hno => absurd hreturn (Bool.eq_false_iff.mp hno)⟩
      rw [hpcs] at hhead
      exact Option.some.inj hhead
    refine ⟨{ s with pc_stack := [] }, ?_, ⟨hbegins.syllable, hbegins.gap, hbegins.refined⟩, ?_⟩
    · simp [test_branch, hreturn, hpcs, make_branch, hzero]
    · rw [hpaths]
      exact Nat.zero_ne_one
  · have hreturn' := Bool.eq_false_iff.mpr hreturn
    have hcall : s.current.need_branch_to_top = false ∧ s.at_branch p = true ∧
        s.need_to_branch_out p = true ∧ s.second_path.start_pc = 0 := by
      by_contra hno
      refine hnot ⟨fun hyes => absurd hyes hreturn, fun _ htop hat hout hzero => ?_⟩
      exact hno ⟨htop, hat, hout, hzero⟩
    obtain ⟨htop, hat, hout, hzero⟩ := hcall
    obtain ⟨hpaths, hpcs⟩ := h.in_main (h.main_of_call hout)
    refine ⟨s.draw.push_pc, ?_, ⟨hbegins.syllable, hbegins.gap, hbegins.refined⟩, ?_⟩
    · simp only [test_branch, hreturn', htop, hat, hout, make_branch, if_true]
      exact if_neg (not_not_intro hzero)
    · show (_ :: s.pc_stack).length ≠ s.path_stack.length
      rw [hpaths, hpcs]
      exact Nat.one_ne_zero

/-- What becomes of a path at a bundle without a branch. -/
structure Bundles (p : PathParams) (s : SynthPath) (xs : List PathSyllable) (t : SynthPath) :
    Prop where
  emits : Emits s xs t
  place : Done t ∨ Begins p t
  pc_stack : t.pc_stack = s.pc_stack
  path_stack : t.path_stack = s.path_stack
  shape : Shape p s → Shape p t

theorem Begins.bundles_junk (h : Begins p s) :
    Bundles p s ((s.need_filler p).2.junkSyllables p)
      ((s.need_filler p).2.create_junk_bundle_keeper p).2 := by
  have hstays := need_filler_stays p s
  have hbegins := h.need_filler.1
  have hstacks := stacks_junk p (s.need_filler p).2
  exact {
    emits := hstays.emits hbegins.emits_junk
    place := .inr hbegins.junk
    pc_stack := hstacks.1.trans hstays.pc_stack
    path_stack := hstacks.2.trans hstays.path_stack
    shape := fun hshape => hshape.need_filler.junk hbegins }

theorem Begins.bundles_events (h : Begins p s) (hnone : (s.need_filler p).1 = false) :
    Bundles p s (s.need_filler p).2.eventSyllables ((s.need_filler p).2.afterEvents 3) := by
  have hstays := need_filler_stays p s
  obtain ⟨hbegins, hgap⟩ := h.need_filler
  obtain ⟨hdone, hemits, hpc, hpath⟩ := hbegins.events (hgap hnone)
  exact {
    emits := hstays.emits hemits
    place := .inl hdone
    pc_stack := hpc.trans hstays.pc_stack
    path_stack := hpath.trans hstays.path_stack
    shape := fun hshape => hshape.need_filler.events hbegins }

end SynthPath

end AsimFeeder.Synth.Routines
