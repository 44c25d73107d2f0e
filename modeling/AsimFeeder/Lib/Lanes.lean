/-
Words of lanes.

A word is an array of lanes of `w` bits, the lowest first.  A lane is read and stored alone.
When lanes are stored one after the other, each of them has what was stored there, whatever
the word was before.
-/
import Mathlib.Data.List.Nodup

namespace AsimFeeder.Lib

variable {v w : Nat}

/-- The lane `i` of a word. -/
def lane (w : Nat) (r : BitVec v) (i : Nat) : BitVec w := r.extractLsb' (w * i) w

/-- A word with a new lane `i`. -/
def setLane (r : BitVec v) (i : Nat) (x : BitVec w) : BitVec v :=
  (r &&& ~~~ ((BitVec.allOnes w).setWidth v <<< (w * i))) ||| (x.setWidth v <<< (w * i))

def storeLanes (stores : List (Nat × BitVec w)) (r : BitVec v) : BitVec v :=
  stores.foldl (fun r s => setLane r s.1 s.2) r

/-- All lanes of a loop over `n` lanes are stored. -/
def forLanes (n : Nat) (r : BitVec v) (f : Nat → BitVec w) : BitVec v :=
  storeLanes ((List.range n).map fun i => (i, f i)) r

/-! ### One lane -/

variable {r : BitVec v} {i j n : Nat} {x : BitVec w}

theorem getLsbD_lane (k : Nat) : (lane w r i).getLsbD k =
    (decide (k < w) && r.getLsbD (w * i + k)) := by
  unfold lane
  rw [BitVec.getLsbD_extractLsb']

theorem lane_setLane (hroom : w * (i + 1) ≤ v) : lane w (setLane r i x) i = x := by
  apply BitVec.eq_of_getLsbD_eq
  intro k hk
  have hin : w * i + k < v := by
    rw [Nat.mul_add, Nat.mul_one] at hroom
    omega
  rw [getLsbD_lane]
  unfold setLane
  simp [hk, hin, Nat.not_lt.mpr (Nat.le_add_right (w * i) k)]

/-- No place of one lane is a place of another. -/
theorem lane_disjoint {k : Nat} (hne : i ≠ j) (hk : k < w) (hle : w * i ≤ w * j + k) :
    w ≤ w * j + k - w * i := by
  rcases Nat.lt_or_gt_of_ne hne with hlt | hgt
  · have hmul : w * (i + 1) ≤ w * j := Nat.mul_le_mul_left w hlt
    rw [Nat.mul_add, Nat.mul_one] at hmul
    omega
  · have hmul : w * (j + 1) ≤ w * i := Nat.mul_le_mul_left w hgt
    rw [Nat.mul_add, Nat.mul_one] at hmul
    omega

theorem lane_setLane_of_ne (hne : i ≠ j) : lane w (setLane r i x) j = lane w r j := by
  apply BitVec.eq_of_getLsbD_eq
  intro k hk
  rw [getLsbD_lane, getLsbD_lane]
  unfold setLane
  by_cases hle : w * i ≤ w * j + k
  · have hout := lane_disjoint hne hk hle
    have hx : x.getLsbD (w * j + k - w * i) = false := BitVec.getLsbD_of_ge _ _ hout
    simp [hx, Nat.not_lt.mpr hout, hk]
    exact BitVec.lt_of_getLsbD
  · simp [Nat.lt_of_not_le hle, hk]
    exact BitVec.lt_of_getLsbD

/-! ### Many lanes -/

theorem lane_storeLanes_of_notMem {stores : List (Nat × BitVec w)}
    (h : i ∉ stores.map Prod.fst) : lane w (storeLanes stores r) i = lane w r i := by
  induction stores generalizing r with
  | nil => rfl
  | cons s rest ih =>
      rw [List.map_cons, List.mem_cons, not_or] at h
      show lane w (storeLanes rest (setLane r s.1 s.2)) i = _
      rw [ih h.2, lane_setLane_of_ne (Ne.symm h.1)]

/-- **A lane has what was stored there.** -/
theorem lane_storeLanes {stores : List (Nat × BitVec w)} (hnodup : (stores.map Prod.fst).Nodup)
    (hmem : (i, x) ∈ stores) (hroom : w * (i + 1) ≤ v) : lane w (storeLanes stores r) i = x := by
  induction stores generalizing r with
  | nil => cases hmem
  | cons s rest ih =>
      rw [List.map_cons, List.nodup_cons] at hnodup
      show lane w (storeLanes rest (setLane r s.1 s.2)) i = _
      rcases List.mem_cons.mp hmem with rfl | hrest
      · rw [lane_storeLanes_of_notMem hnodup.1]
        exact lane_setLane hroom
      · exact ih hnodup.2 hrest

theorem lane_forLanes {f : Nat → BitVec w} (hi : i < n) (hroom : w * n ≤ v) :
    lane w (forLanes n r f) i = f i := by
  unfold forLanes
  have hfst : Prod.fst ∘ (fun i => (i, f i)) = id := rfl
  apply lane_storeLanes
  · rw [List.map_map, hfst, List.map_id]
    exact List.nodup_range
  · exact List.mem_map.mpr ⟨i, List.mem_range.mpr hi, rfl⟩
  · exact Nat.le_trans (Nat.mul_le_mul_left w hi) hroom

theorem forLanes_congr {f g : Nat → BitVec w} (h : ∀ i < n, f i = g i) :
    forLanes n r f = forLanes n r g := by
  unfold forLanes
  congr 1
  apply List.map_congr_left
  intro i hi
  rw [h i (List.mem_range.mp hi)]

end AsimFeeder.Lib
