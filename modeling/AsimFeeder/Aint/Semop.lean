/-
System V semaphores of AINT.

`aint_semop` tests each operation of a call by itself, against the values that there are,
and performs them all after that.  The loop that performs them wakes up who waits for a
zero in a loop of its own, which uses the same variable: after a semaphore has got zero, or
is zero, the operations go on from the second one.

Values are words of 16 bits.  Of who waits for a value only the value matters, and of who
waits for a zero only how many there are: whoever is woken up ends the simulator.
-/
import Mathlib

namespace AsimFeeder.Aint.Semaphores

def SEM_UNDO : UInt16 := 0x1000

def IPC_NOWAIT : UInt16 := 0x800

structure Sembuf where
  sem_num : UInt16
  sem_op : Int16
  sem_flg : UInt16
  deriving DecidableEq, Repr

/-- `nwait_q` is what the threads wait for that are blocked until it is there. -/
structure Sem where
  semval : UInt16
  semncnt : Nat
  semzcnt : Nat
  nwait_q : List Int
  deriving DecidableEq, Repr

inductive Outcome
  | fatal
  | error
  | blocked
  | success
  deriving DecidableEq, Repr

abbrev SemSet := UInt16 → Sem

/-! ### `aint_semop` -/

/-- The first loop; nothing, if it comes to its end. -/
def check (sem_base : SemSet) : List Sembuf → Option (Outcome × SemSet)
  | [] => none
  | op :: sops =>
      let psem := sem_base op.sem_num
      if op.sem_flg &&& SEM_UNDO ≠ 0 then some (.fatal, sem_base)
      else if op.sem_op < 0 then
        if (psem.semval.toNat : Int) < -op.sem_op.toInt then
          if op.sem_flg &&& IPC_NOWAIT ≠ 0 then some (.error, sem_base)
          else
            some (.blocked, Function.update sem_base op.sem_num
              { psem with
                semncnt := psem.semncnt + 1
                nwait_q := psem.nwait_q ++ [-op.sem_op.toInt] })
        else check sem_base sops
      else if op.sem_op = 0 then
        if psem.semval ≠ 0 then
          if op.sem_flg &&& IPC_NOWAIT ≠ 0 then some (.error, sem_base)
          else
            some (.blocked, Function.update sem_base op.sem_num
              { psem with semzcnt := psem.semzcnt + 1 })
        else check sem_base sops
      else check sem_base sops

/-- A thread that waits for the value is woken up. -/
def Sem.wakes (psem : Sem) (op : Sembuf) : Bool :=
  0 < op.sem_op && 0 < psem.semval && psem.semncnt ≠ 0 &&
    psem.nwait_q.any fun semval => semval ≤ psem.semval.toNat

/-- The second loop, from the operation `i` on. -/
def perform (sops : List Sembuf) : Nat → Nat → SemSet → Option (Outcome × SemSet)
  | 0, _, _ => none
  | fuel + 1, i, sem_base =>
      match sops[i]? with
      | none => some (.success, sem_base)
      | some op =>
          let psem := sem_base op.sem_num
          let psem := { psem with semval := psem.semval + op.sem_op.toUInt16 }
          let sem_base := Function.update sem_base op.sem_num psem
          if psem.wakes op || psem.semzcnt ≠ 0 then some (.fatal, sem_base)
          else if psem.semval = 0 then
            -- the loop over those that wait for zero leaves `i` at 0
            perform sops fuel 1 sem_base
          else perform sops fuel (i + 1) sem_base

/-- Nothing, if the operations are not through after `fuel` rounds. -/
def aint_semop (fuel : Nat) (sops : List Sembuf) (sem_base : SemSet) :
    Option (Outcome × SemSet) :=
  match check sem_base sops with
  | some result => some result
  | none => perform sops fuel 0 sem_base

/-! ### What a call should do -/

/-- The sum of the operations on a semaphore. -/
def total (sops : List Sembuf) (s : UInt16) : Int :=
  (sops.map fun op => if op.sem_num = s then op.sem_op.toInt else 0).sum

/-- The operations can be carried out one after the other. -/
def Feasible (val : UInt16 → Int) : List Sembuf → Prop
  | [] => True
  | op :: sops =>
      (op.sem_op = 0 → val op.sem_num = 0) ∧ 0 ≤ val op.sem_num + op.sem_op.toInt ∧
        Feasible (Function.update val op.sem_num (val op.sem_num + op.sem_op.toInt)) sops

/-- The value of a semaphore, as an integer. -/
def value (sem_base : SemSet) (s : UInt16) : Int := (sem_base s).semval.toNat

/-- The call ends, and has performed all of the operations or none. -/
def AllOrNothing (sops : List Sembuf) (sem_base : SemSet) : Prop :=
  ∃ fuel outcome after, aint_semop fuel sops sem_base = some (outcome, after) ∧
    (outcome ≠ .success → ∀ s, value after s = value sem_base s) ∧
    (outcome = .success → Feasible (value sem_base) sops ∧
      ∀ s, value after s = value sem_base s + total sops s)

/-- Nobody waits. -/
def NoWaiters (sem_base : SemSet) : Prop :=
  ∀ s, (sem_base s).semncnt = 0 ∧ (sem_base s).semzcnt = 0

def NoUndo (sops : List Sembuf) : Prop := ∀ op ∈ sops, op.sem_flg &&& SEM_UNDO = 0

/-- The operation cannot be performed on the values that there are. -/
def Stops (sem_base : SemSet) (op : Sembuf) : Prop :=
  op.sem_op < 0 ∧ value sem_base op.sem_num < -op.sem_op.toInt ∨
    op.sem_op = 0 ∧ value sem_base op.sem_num ≠ 0

/-- The operations can be carried out, no value leaves its word, and only the first one
leaves a zero. -/
structure Straight (sops : List Sembuf) (sem_base : SemSet) : Prop where
  feasible : Feasible (value sem_base) sops
  fits : ∀ s, value sem_base s + total sops s < 65536
  nonzero : ∀ i op, 1 ≤ i → sops[i]? = some op →
    (value sem_base op.sem_num + total (sops.take (i + 1)) op.sem_num) % 65536 ≠ 0

/-! ### Words -/

theorem toNat_add_op (a : UInt16) (b : Int16) :
    ((a + b.toUInt16).toNat : Int) = ((a.toNat : Int) + b.toInt) % 65536 := by
  have hb : b.toInt = if 2 * b.toUInt16.toNat < 2 ^ 16 then (b.toUInt16.toNat : Int)
      else (b.toUInt16.toNat : Int) - 2 ^ 16 := BitVec.toInt_eq_toNat_cond b.toBitVec
  rw [UInt16.toNat_add, hb]
  split <;> omega

/-- The values after an operation. -/
def add (v : UInt16 → UInt16) (op : Sembuf) : UInt16 → UInt16 :=
  Function.update v op.sem_num (v op.sem_num + op.sem_op.toUInt16)

def addAll (v : UInt16 → UInt16) (sops : List Sembuf) : UInt16 → UInt16 := sops.foldl add v

theorem total_cons (op : Sembuf) (sops : List Sembuf) (s : UInt16) :
    total (op :: sops) s = (if op.sem_num = s then op.sem_op.toInt else 0) + total sops s := by
  unfold total
  rw [List.map_cons, List.sum_cons]

theorem toNat_addAll (v : UInt16 → UInt16) (sops : List Sembuf) (s : UInt16) :
    ((addAll v sops s).toNat : Int) = ((v s).toNat + total sops s) % 65536 := by
  induction sops generalizing v with
  | nil =>
      have hlt := (v s).toNat_lt
      show ((v s).toNat : Int) = ((v s).toNat + 0) % 65536
      omega
  | cons op sops ih =>
      have hrest := ih (add v op)
      have htotal := total_cons op sops s
      show ((addAll (add v op) sops s).toNat : Int) = _
      rw [hrest, htotal]
      by_cases hs : op.sem_num = s
      · subst hs
        have hadd := toNat_add_op (v op.sem_num) op.sem_op
        unfold add
        rw [Function.update_self, if_pos rfl, hadd]
        omega
      · unfold add
        rw [Function.update_of_ne (Ne.symm hs), if_neg hs]
        omega

theorem add_injective {v w : UInt16 → UInt16} {op : Sembuf} (h : add v op = add w op) : v = w := by
  funext s
  have hs := congrFun h s
  unfold add at hs
  by_cases heq : s = op.sem_num
  · subst heq
    rw [Function.update_self, Function.update_self] at hs
    exact (UInt16.add_left_inj _).mp hs
  · rwa [Function.update_of_ne heq, Function.update_of_ne heq] at hs

theorem addAll_injective {v w : UInt16 → UInt16} {sops : List Sembuf}
    (h : addAll v sops = addAll w sops) : v = w := by
  induction sops generalizing v w with
  | nil => exact h
  | cons op sops ih => exact add_injective (ih h)

/-- Operations that can be carried out leave no value negative. -/
theorem feasible_nonneg {val : UInt16 → Int} {sops : List Sembuf} (h : Feasible val sops)
    (hval : ∀ s, 0 ≤ val s) (s : UInt16) : 0 ≤ val s + total sops s := by
  induction sops generalizing val with
  | nil =>
      have := hval s
      show 0 ≤ val s + 0
      omega
  | cons op sops ih =>
      obtain ⟨-, hnonneg, hrest⟩ := h
      have hnext := ih hrest (by
        intro s
        by_cases hs : s = op.sem_num
        · rw [hs, Function.update_self]
          exact hnonneg
        · rw [Function.update_of_ne hs]
          exact hval s)
      rw [total_cons]
      by_cases hs : s = op.sem_num
      · rw [hs, Function.update_self] at hnext
        rw [if_pos hs.symm, hs]
        omega
      · rw [Function.update_of_ne hs] at hnext
        rw [if_neg (Ne.symm hs)]
        omega

/-! ### The second loop -/

/-- The values of a set. -/
def vals (sem_base : SemSet) : UInt16 → UInt16 := fun s => (sem_base s).semval

/-- No operation leaves a zero. -/
def Nonzero (v : UInt16 → UInt16) : List Sembuf → Prop
  | [] => True
  | op :: sops => add v op op.sem_num ≠ 0 ∧ Nonzero (add v op) sops

variable {sops : List Sembuf} {sem_base after : SemSet} {i : Nat}

theorem nonzero_iff {v : UInt16 → UInt16} :
    Nonzero v sops ↔
      ∀ i op, sops[i]? = some op → addAll v (sops.take (i + 1)) op.sem_num ≠ 0 := by
  induction sops generalizing v with
  | nil => simp [Nonzero]
  | cons op sops ih =>
      unfold Nonzero
      rw [ih]
      constructor
      · rintro ⟨hop, hrest⟩ i op' hi
        cases i with
        | zero =>
            cases hi
            exact hop
        | succ i => exact hrest i op' hi
      · intro hall
        exact ⟨hall 0 op rfl, fun i op' hi => hall (i + 1) op' hi⟩

/-- One round of the loop, when nobody waits. -/
theorem perform_round (hquiet : NoWaiters sem_base) {op : Sembuf} (hop : sops[i]? = some op) :
    ∃ after, NoWaiters after ∧ vals after = add (vals sem_base) op ∧
      ∀ fuel, perform sops (fuel + 1) i sem_base =
        perform sops fuel (if add (vals sem_base) op op.sem_num = 0 then 1 else i + 1) after := by
  obtain ⟨hncnt, hzcnt⟩ := hquiet op.sem_num
  refine ⟨Function.update sem_base op.sem_num { sem_base op.sem_num with
    semval := (sem_base op.sem_num).semval + op.sem_op.toUInt16 }, ?_, ?_, ?_⟩
  · intro s
    by_cases hs : s = op.sem_num
    · subst hs
      rw [Function.update_self]
      exact ⟨hncnt, hzcnt⟩
    · rw [Function.update_of_ne hs]
      exact hquiet s
  · funext s
    unfold vals add
    by_cases hs : s = op.sem_num
    · subst hs
      rw [Function.update_self, Function.update_self]
    · rw [Function.update_of_ne hs, Function.update_of_ne hs]
  · intro fuel
    have hvalue : add (vals sem_base) op op.sem_num
        = (sem_base op.sem_num).semval + op.sem_op.toUInt16 := Function.update_self ..
    rw [perform, hop, hvalue]
    dsimp only
    rw [if_neg]
    · split <;> rfl
    · simp [Sem.wakes, hncnt, hzcnt]

theorem drop_of_getElem? {op : Sembuf} (hop : sops[i]? = some op) :
    sops.drop i = op :: sops.drop (i + 1) := by
  obtain ⟨hlt, rfl⟩ := List.getElem?_eq_some_iff.mp hop
  exact List.drop_eq_getElem_cons hlt

/-- If no operation leaves a zero, the loop performs each once. -/
theorem perform_of_nonzero (hquiet : NoWaiters sem_base)
    (hnonzero : Nonzero (vals sem_base) (sops.drop i)) :
    ∃ fuel after, perform sops fuel i sem_base = some (.success, after) ∧
      vals after = addAll (vals sem_base) (sops.drop i) := by
  generalize hl : sops.drop i = l at hnonzero
  induction l generalizing i sem_base with
  | nil =>
      have hend : sops[i]? = none := List.getElem?_eq_none (List.drop_eq_nil_iff.mp hl)
      refine ⟨1, sem_base, ?_, rfl⟩
      rw [perform, hend]
  | cons op l ih =>
      have hop : sops[i]? = some op := by
        have hhead : (sops.drop i)[0]? = some op := by rw [hl]; rfl
        rwa [List.getElem?_drop] at hhead
      obtain ⟨next, hnext, hvals, hround⟩ := perform_round hquiet hop
      have htail : sops.drop (i + 1) = l := by
        have hcons := drop_of_getElem? hop
        rw [hl] at hcons
        exact (List.cons.inj hcons).2.symm
      obtain ⟨hop0, hrest⟩ := hnonzero
      obtain ⟨fuel, after, hperform, hafter⟩ := ih hnext htail (by rw [hvals]; exact hrest)
      refine ⟨fuel + 1, after, ?_, ?_⟩
      · rw [hround, if_neg hop0, hperform]
      · rw [hafter, hvals]
        rfl

/-- A loop that comes to its end has at last gone through without leaving a zero, from where
it is or from the second operation on. -/
theorem perform_ends {fuel : Nat} {outcome : Outcome} (hquiet : NoWaiters sem_base)
    (h : perform sops fuel i sem_base = some (outcome, after)) :
    outcome = .success ∧ ∃ j v, Nonzero v (sops.drop j) ∧ vals after = addAll v (sops.drop j) ∧
      (j = i ∧ v = vals sem_base ∨ j = 1) := by
  induction fuel generalizing i sem_base with
  | zero => cases h
  | succ fuel ih =>
      cases hop : sops[i]? with
      | none =>
          rw [perform, hop] at h
          cases h
          have hend : sops.drop i = [] :=
            List.drop_eq_nil_iff.mpr (List.getElem?_eq_none_iff.mp hop)
          refine ⟨rfl, i, _, ?_, ?_, .inl ⟨rfl, rfl⟩⟩
          · rw [hend]
            trivial
          · rw [hend]
            rfl
      | some op =>
          obtain ⟨next, hnext, hvals, hround⟩ := perform_round hquiet hop
          rw [hround] at h
          obtain ⟨hsuccess, j, v, hnonzero, hafter, hfrom⟩ := ih hnext h
          refine ⟨hsuccess, ?_⟩
          by_cases hzero : add (vals sem_base) op op.sem_num = 0
          · rw [if_pos hzero] at hfrom
            have hj : j = 1 := hfrom.elim And.left id
            exact ⟨j, v, hnonzero, hafter, .inr hj⟩
          · rw [if_neg hzero] at hfrom
            rcases hfrom with ⟨rfl, rfl⟩ | hj
            · have hdrop := drop_of_getElem? hop
              refine ⟨i, vals sem_base, ?_, ?_, .inl ⟨rfl, rfl⟩⟩
              · rw [hdrop]
                rw [hvals] at hnonzero
                exact ⟨hzero, hnonzero⟩
              · rw [hdrop, hafter, hvals]
                rfl
            · exact ⟨j, v, hnonzero, hafter, .inr hj⟩

/-! ### The first loop -/

theorem value_update {s : UInt16} {psem : Sem} (h : psem.semval = (sem_base s).semval)
    (s' : UInt16) :
    value (Function.update sem_base s psem) s' = value sem_base s' := by
  unfold value
  by_cases hs : s' = s
  · subst hs
    rw [Function.update_self, h]
  · rw [Function.update_of_ne hs]

theorem check_of_stops (hundo : NoUndo sops) (hstops : ∃ op ∈ sops, Stops sem_base op) :
    ∃ outcome after, check sem_base sops = some (outcome, after) ∧ outcome ≠ .success ∧
      ∀ s, value after s = value sem_base s := by
  induction sops with
  | nil =>
      obtain ⟨op, hmem, -⟩ := hstops
      cases hmem
  | cons op sops ih =>
      have hflag := hundo op List.mem_cons_self
      have hrest : ¬ Stops sem_base op → ∃ outcome after,
          check sem_base sops = some (outcome, after) ∧ outcome ≠ .success ∧
            ∀ s, value after s = value sem_base s := by
        intro hop
        refine ih (fun o ho => hundo o (List.mem_cons_of_mem _ ho)) ?_
        obtain ⟨o, ho, hstop⟩ := hstops
        rcases List.mem_cons.mp ho with rfl | ho
        · exact absurd hstop hop
        · exact ⟨o, ho, hstop⟩
      unfold check
      dsimp only
      rw [if_neg (not_not.mpr hflag)]
      split
      · rename_i hneg
        split
        · split
          · exact ⟨_, _, rfl, by decide, fun _ => rfl⟩
          · exact ⟨_, _, rfl, by decide, value_update rfl⟩
        · rename_i henough
          refine hrest ?_
          rintro (⟨-, hless⟩ | ⟨hzero, -⟩)
          · exact henough hless
          · rw [hzero] at hneg
            exact absurd hneg (by decide)
      · rename_i hneg
        split
        · rename_i hzero
          split
          · split
            · exact ⟨_, _, rfl, by decide, fun _ => rfl⟩
            · exact ⟨_, _, rfl, by decide, value_update rfl⟩
          · rename_i hval
            refine hrest ?_
            rintro (⟨hless, -⟩ | ⟨-, hnonzero⟩)
            · exact hneg hless
            · refine hnonzero ?_
              unfold value
              rw [not_not.mp hval]
              rfl
        · rename_i hzero
          refine hrest ?_
          rintro (⟨hless, -⟩ | ⟨hzero', -⟩)
          · exact hneg hless
          · exact hzero hzero'

theorem check_of_not_stops (hundo : NoUndo sops) (hstops : ¬ ∃ op ∈ sops, Stops sem_base op) :
    check sem_base sops = none := by
  induction sops with
  | nil => rfl
  | cons op sops ih =>
      have hflag := hundo op List.mem_cons_self
      have hop : ¬ Stops sem_base op := fun hstop => hstops ⟨op, List.mem_cons_self, hstop⟩
      have hrest := ih (fun o ho => hundo o (List.mem_cons_of_mem _ ho)) fun ⟨o, ho, hstop⟩ =>
        hstops ⟨o, List.mem_cons_of_mem _ ho, hstop⟩
      unfold check
      dsimp only
      rw [if_neg (not_not.mpr hflag)]
      split
      · rename_i hneg
        rw [if_neg, hrest]
        exact fun hless => hop (.inl ⟨hneg, hless⟩)
      · split
        · rename_i hzero
          rw [if_neg, hrest]
          intro hval
          refine hop (.inr ⟨hzero, fun hvalue => hval ?_⟩)
          unfold value at hvalue
          exact UInt16.toNat_inj.mp (Int.ofNat_inj.mp hvalue)
        · exact hrest

/-! ### When a call is all or nothing -/

theorem addAll_ne_zero_iff {s : UInt16} :
    addAll (vals sem_base) sops s ≠ 0 ↔ (value sem_base s + total sops s) % 65536 ≠ 0 := by
  have hword := toNat_addAll (vals sem_base) sops s
  unfold value
  unfold vals at hword ⊢
  rw [← hword, not_iff_not, ← UInt16.toNat_inj]
  exact Int.natCast_eq_zero.symm

/-- What the condition says of the operations after the first. -/
theorem nonzero_tail_iff {op : Sembuf} :
    Nonzero (add (vals sem_base) op) sops ↔
      ∀ i o, 1 ≤ i → (op :: sops)[i]? = some o →
        (value sem_base o.sem_num + total ((op :: sops).take (i + 1)) o.sem_num) % 65536 ≠ 0 := by
  rw [nonzero_iff]
  constructor
  · intro hall i o hi ho
    obtain ⟨i, rfl⟩ := Nat.exists_eq_add_of_le' hi
    exact addAll_ne_zero_iff.mp (hall i o ho)
  · intro hall i o ho
    have hne := addAll_ne_zero_iff.mpr (hall (i + 1) o (Nat.le_add_left 1 i) ho)
    exact hne

theorem allOrNothing_of_straight (hquiet : NoWaiters sem_base) (hundo : NoUndo sops)
    (hstops : ¬ ∃ op ∈ sops, Stops sem_base op) (h : Straight sops sem_base) :
    AllOrNothing sops sem_base := by
  have hperform : ∃ fuel after, perform sops fuel 0 sem_base = some (.success, after) ∧
      vals after = addAll (vals sem_base) sops := by
    cases sops with
    | nil => exact ⟨1, sem_base, rfl, rfl⟩
    | cons op sops =>
        -- after the first operation the second one is next, whether it left a zero or not
        have hop : (op :: sops)[0]? = some op := rfl
        obtain ⟨next, hnext, hvals, hround⟩ := perform_round hquiet hop
        have hnonzero : Nonzero (vals next) ((op :: sops).drop 1) := by
          rw [hvals]
          exact nonzero_tail_iff.mpr h.nonzero
        obtain ⟨fuel, after, hperform, hafter⟩ := perform_of_nonzero hnext hnonzero
        refine ⟨fuel + 1, after, ?_, ?_⟩
        · rw [hround, ite_self, hperform]
        · rw [hafter, hvals]
          rfl
  obtain ⟨fuel, after, hperform, hafter⟩ := hperform
  refine ⟨fuel, .success, after, ?_, fun hne => absurd rfl hne, fun _ => ⟨h.feasible, fun s => ?_⟩⟩
  · unfold aint_semop
    rw [check_of_not_stops hundo hstops]
    exact hperform
  · have hword := toNat_addAll (vals sem_base) sops s
    rw [← hafter] at hword
    have hfits := h.fits s
    have hnonneg := feasible_nonneg h.feasible (fun s => Int.natCast_nonneg _) s
    unfold value vals at *
    omega

theorem straight_of_allOrNothing (hquiet : NoWaiters sem_base) (hundo : NoUndo sops)
    (hstops : ¬ ∃ op ∈ sops, Stops sem_base op) (h : AllOrNothing sops sem_base) :
    Straight sops sem_base := by
  obtain ⟨fuel, outcome, after, hrun, -, hsuccess⟩ := h
  unfold aint_semop at hrun
  rw [check_of_not_stops hundo hstops] at hrun
  dsimp only at hrun
  obtain ⟨rfl, -⟩ := perform_ends hquiet hrun
  obtain ⟨hfeasible, hvalue⟩ := hsuccess rfl
  have hlt : ∀ s, value after s < 65536 := fun s => by
    have := (after s).semval.toNat_lt
    unfold value
    omega
  refine ⟨hfeasible, fun s => hvalue s ▸ hlt s, ?_⟩
  have hvals : vals after = addAll (vals sem_base) sops := by
    funext s
    have hword := toNat_addAll (vals sem_base) sops s
    have hs := hvalue s
    have hslt := hlt s
    apply UInt16.toNat_inj.mp
    unfold value vals at *
    omega
  cases sops with
  | nil =>
      intro i op _ hi
      cases hi
  | cons op sops =>
      cases fuel with
      | zero => cases hrun
      | succ fuel =>
          have hop : (op :: sops)[0]? = some op := rfl
          obtain ⟨next, hnext, hnextVals, hround⟩ := perform_round hquiet hop
          rw [hround, ite_self] at hrun
          obtain ⟨-, j, v, hnonzero, hafter, hfrom⟩ := perform_ends hnext hrun
          obtain rfl : j = 1 := hfrom.elim And.left id
          -- the last pass started from the values that the first one started from
          obtain rfl : v = add (vals sem_base) op :=
            addAll_injective (hafter.symm.trans hvals)
          exact nonzero_tail_iff.mp hnonzero

/-- **A call is all or nothing if an operation stops it, or if all can be carried out within
their words and only the first one leaves a zero.** -/
theorem allOrNothing_iff (hquiet : NoWaiters sem_base) (hundo : NoUndo sops) :
    AllOrNothing sops sem_base ↔
      (∃ op ∈ sops, Stops sem_base op) ∨ Straight sops sem_base := by
  by_cases hstops : ∃ op ∈ sops, Stops sem_base op
  · refine iff_of_true ?_ (.inl hstops)
    obtain ⟨outcome, after, hcheck, hne, hsame⟩ := check_of_stops hundo hstops
    refine ⟨0, outcome, after, ?_, fun _ => hsame, fun heq => absurd heq hne⟩
    unfold aint_semop
    rw [hcheck]
  · constructor
    · exact fun h => .inr (straight_of_allOrNothing hquiet hundo hstops h)
    · rintro (h | h)
      · exact absurd h hstops
      · exact allOrNothing_of_straight hquiet hundo hstops h

/-- Nobody waits, and every semaphore has the value. -/
def allAt (semval : UInt16) : SemSet := fun _ => ⟨semval, 0, 0, []⟩

/-- The first operation takes what there is. -/
theorem allOrNothing_iff_take :
    AllOrNothing [⟨0, -1, 0⟩, ⟨1, 2, 0⟩] (allAt 1) ↔
      (∃ op ∈ [(⟨0, -1, 0⟩ : Sembuf), ⟨1, 2, 0⟩], Stops (allAt 1) op) ∨
        Straight [⟨0, -1, 0⟩, ⟨1, 2, 0⟩] (allAt 1) := by
  refine allOrNothing_iff (fun _ => ⟨rfl, rfl⟩) ?_
  unfold NoUndo
  decide

/-- The second operation takes what there is, and the loop performs it once more. -/
theorem not_always_allOrNothing :
    ¬ ∀ sops sem_base, NoWaiters sem_base → NoUndo sops → AllOrNothing sops sem_base := by
  intro hall
  have hundo : NoUndo [⟨1, 2, 0⟩, ⟨0, -1, 0⟩] := by
    unfold NoUndo
    decide
  have hquiet : NoWaiters (allAt 1) := fun _ => ⟨rfl, rfl⟩
  have hstops : ¬ ∃ op ∈ [(⟨1, 2, 0⟩ : Sembuf), ⟨0, -1, 0⟩], Stops (allAt 1) op := by
    unfold Stops value allAt
    decide
  have h := straight_of_allOrNothing hquiet hundo hstops (hall _ _ hquiet hundo)
  exact h.nonzero 1 ⟨0, -1, 0⟩ (Nat.le_refl 1) rfl (by decide)

end AsimFeeder.Aint.Semaphores
