/-
A chain of cells whose head remembers the cell that was found last.

New cells go in front.  A cell is pointed at by how many were there before it, so a pointer
stays good when the chain grows.  Only the head's `lookaside` is looked at: what the other
cells keep there is what they had when they were the head.

A chain is `Aimed` when its keys differ and its head, if there is one, remembers a cell.
That is all a lookup needs, and a lookup and `push` keep it.
-/
import Mathlib

namespace AsimFeeder.Lib

structure Cell (κ α : Type) where
  key : κ
  value : α
  lookaside : Option Nat
  deriving DecidableEq, Repr

abbrev Chain (κ α : Type) := List (Cell κ α)

namespace Chain

variable {κ α : Type}

/-- The cell at a pointer. -/
def cellAt (c : Chain κ α) (k : Nat) : Option (Cell κ α) := c.reverse[k]?

/-- The cell that the head remembers. -/
def remembered : Chain κ α → Option (Cell κ α)
  | [] => none
  | head :: next => head.lookaside.bind (cellAt (head :: next))

/-- The head remembers another cell. -/
def aim (k : Nat) : Chain κ α → Chain κ α
  | [] => []
  | head :: next => { head with lookaside := some k } :: next

/-- The pointer to the first cell with that key, on the way down the chain. -/
def walk [DecidableEq κ] (key : κ) : Chain κ α → Option Nat
  | [] => none
  | cell :: next => if cell.key = key then some next.length else walk key next

def push (key : κ) (value : α) (c : Chain κ α) : Chain κ α :=
  { key := key, value := value, lookaside := some c.length } :: c

/-- What a lookup comes to: the head remembers nothing, a cell was found, or none was. -/
inductive Look (κ α : Type)
  | broken
  | hit (cell : Cell κ α) (c : Chain κ α)
  | miss

def look [DecidableEq κ] (key : κ) (c : Chain κ α) : Look κ α :=
  match c with
  | [] => .miss
  | _ :: _ =>
      match c.remembered with
      | none => .broken
      | some cell =>
          if cell.key = key then .hit cell c
          else
            match c.walk key with
            | none => .miss
            | some k =>
                match c.cellAt k with
                | none => .broken
                | some cell => .hit cell (c.aim k)

/-! ### What the chain maps -/

/-- The keys and values, and nothing of what is remembered. -/
def Maps (c : Chain κ α) (key : κ) (value : α) : Prop :=
  ∃ cell ∈ c, cell.key = key ∧ cell.value = value

structure Aimed (c : Chain κ α) : Prop where
  nodup : (c.map Cell.key).Nodup
  remembers : c ≠ [] → ∃ cell, c.remembered = some cell

theorem aimed_nil : Aimed ([] : Chain κ α) := ⟨List.nodup_nil, fun h => absurd rfl h⟩

theorem mem_of_cellAt {c : Chain κ α} {k : Nat} {cell : Cell κ α} (h : c.cellAt k = some cell) :
    cell ∈ c :=
  List.mem_reverse.mp (List.mem_of_getElem? h)

theorem mem_of_remembered {c : Chain κ α} {cell : Cell κ α} (h : c.remembered = some cell) :
    cell ∈ c := by
  cases c with
  | nil => cases h
  | cons head next =>
      obtain ⟨k, -, hk⟩ := Option.bind_eq_some_iff.mp h
      exact mem_of_cellAt hk

/-- Within a chain whose keys differ, a key has one value. -/
theorem Aimed.maps_inj {c : Chain κ α} (h : c.Aimed) {key : κ} {x y : α} (hx : c.Maps key x)
    (hy : c.Maps key y) : x = y := by
  obtain ⟨e, he, hek, rfl⟩ := hx
  obtain ⟨f, hf, hfk, rfl⟩ := hy
  rw [List.inj_on_of_nodup_map h.nodup he hf (hek.trans hfk.symm)]

/-! ### Looking -/

/-- What the head remembers is not part of what is mapped. -/
theorem maps_aim {c : Chain κ α} {k : Nat} {key : κ} {value : α} :
    (c.aim k).Maps key value ↔ c.Maps key value := by
  cases c with
  | nil => rfl
  | cons head next =>
      unfold Maps aim
      simp only [List.mem_cons, exists_eq_or_imp]

theorem cellAt_length_next (head : Cell κ α) (next : Chain κ α) :
    cellAt (head :: next) next.length = some head := by
  unfold cellAt
  rw [List.reverse_cons, List.getElem?_append_right (by simp), List.length_reverse]
  simp

theorem cellAt_cons {head : Cell κ α} {next : Chain κ α} {k : Nat} (hk : k < next.length) :
    cellAt (head :: next) k = cellAt next k := by
  unfold cellAt
  rw [List.reverse_cons, List.getElem?_append_left (by simpa using hk)]

theorem walk_lt [DecidableEq κ] {key : κ} {c : Chain κ α} {k : Nat} (h : c.walk key = some k) :
    k < c.length := by
  induction c with
  | nil => cases h
  | cons cell next ih =>
      unfold walk at h
      rw [List.length_cons]
      split at h
      · cases h
        omega
      · have := ih h
        omega

theorem cellAt_walk [DecidableEq κ] {key : κ} {c : Chain κ α} {k : Nat} (h : c.walk key = some k) :
    ∃ cell, c.cellAt k = some cell ∧ cell.key = key := by
  induction c with
  | nil => cases h
  | cons cell next ih =>
      unfold walk at h
      split at h
      · rename_i hkey
        cases h
        exact ⟨cell, cellAt_length_next cell next, hkey⟩
      · obtain ⟨found, hat, hkey⟩ := ih h
        exact ⟨found, (cellAt_cons (walk_lt h)).trans hat, hkey⟩

theorem not_maps_of_walk [DecidableEq κ] {key : κ} {c : Chain κ α} (h : c.walk key = none)
    (value : α) :
    ¬ c.Maps key value := by
  induction c with
  | nil =>
      rintro ⟨cell, hmem, -⟩
      cases hmem
  | cons cell next ih =>
      unfold walk at h
      split at h
      · cases h
      · rename_i hkey
        rintro ⟨found, hmem, hfound, hvalue⟩
        rcases List.mem_cons.mp hmem with rfl | hnext
        · exact hkey hfound
        · exact ih h ⟨found, hnext, hfound, hvalue⟩

theorem aimed_aim {c : Chain κ α} (h : c.Aimed) {k : Nat} {cell : Cell κ α}
    (hk : c.cellAt k = some cell) : (c.aim k).Aimed := by
  cases c with
  | nil => exact h
  | cons head next =>
      refine ⟨h.nodup, fun _ => ?_⟩
      have hlt : k < (head :: next).length := by
        obtain ⟨hlt, -⟩ := List.getElem?_eq_some_iff.mp hk
        simpa using hlt
      have hat : k < ({ head with lookaside := some k } :: next).reverse.length := by
        simpa using hlt
      exact ⟨_, List.getElem?_eq_getElem hat⟩

/-- What a lookup in an aimed chain comes to. -/
inductive Found (key : κ) (c : Chain κ α) : Look κ α → Prop
  | hit {cell : Cell κ α} {d : Chain κ α} (hcell : c.Maps key cell.value) (hd : d.Aimed)
      (hmaps : ∀ k value, d.Maps k value ↔ c.Maps k value) : Found key c (.hit cell d)
  | miss (h : ∀ value, ¬ c.Maps key value) : Found key c .miss

/-- **A lookup in an aimed chain finds what is there and leaves it aimed.** -/
theorem Aimed.look [DecidableEq κ] {c : Chain κ α} (h : c.Aimed) (key : κ) :
    Found key c (c.look key) := by
  cases c with
  | nil =>
      refine .miss fun value => ?_
      rintro ⟨cell, hmem, -⟩
      cases hmem
  | cons head next =>
      obtain ⟨cell, hcell⟩ := h.remembers (List.cons_ne_nil _ _)
      unfold Chain.look
      dsimp only
      rw [hcell]
      dsimp only
      split
      · rename_i hkey
        exact .hit ⟨cell, mem_of_remembered hcell, hkey, rfl⟩ h fun _ _ => Iff.rfl
      · cases hwalk : walk key (head :: next) with
        | none => exact .miss (not_maps_of_walk hwalk)
        | some k =>
            obtain ⟨found, hat, hkey⟩ := cellAt_walk hwalk
            dsimp only
            rw [hat]
            exact .hit ⟨found, mem_of_cellAt hat, hkey, rfl⟩ (aimed_aim h hat) fun _ _ => maps_aim

theorem length_aim (c : Chain κ α) (k : Nat) : (c.aim k).length = c.length := by
  cases c with
  | nil => rfl
  | cons head next => rfl

/-- A lookup that finds a cell leaves as many as there were. -/
theorem length_look [DecidableEq κ] {c d : Chain κ α} {key : κ} {cell : Cell κ α}
    (h : c.look key = .hit cell d) : d.length = c.length ∧ c ≠ [] := by
  cases c with
  | nil => cases h
  | cons head next =>
      refine ⟨?_, List.cons_ne_nil _ _⟩
      unfold Chain.look at h
      dsimp only at h
      split at h
      · cases h
      · split at h
        · cases h
          rfl
        · split at h
          · cases h
          · split at h
            · cases h
            · cases h
              exact length_aim _ _

/-! ### A new cell -/

theorem maps_push {c : Chain κ α} {key k : κ} {value v : α} :
    (push key value c).Maps k v ↔ (k = key ∧ v = value) ∨ c.Maps k v := by
  unfold Maps push
  simp only [List.mem_cons, exists_eq_or_imp]
  rw [eq_comm (a := key), eq_comm (a := value)]

theorem remembered_push (key : κ) (value : α) (c : Chain κ α) :
    (push key value c).remembered = some ⟨key, value, some c.length⟩ :=
  cellAt_length_next _ _

theorem Aimed.push {c : Chain κ α} (h : c.Aimed) {key : κ} (hnew : ∀ value, ¬ c.Maps key value)
    (value : α) : (push key value c).Aimed := by
  refine ⟨List.nodup_cons.mpr ⟨?_, h.nodup⟩, fun _ => ⟨_, remembered_push key value c⟩⟩
  intro hmem
  obtain ⟨cell, hcell, hkey⟩ := List.mem_map.mp hmem
  exact hnew cell.value ⟨cell, hcell, hkey, rfl⟩

end Chain

end AsimFeeder.Lib
