/-
Numbering keys in the order they are first asked for.

An allocator that hands a key the next free number when it first sees the key, and
the same number ever after, is a list of keys without repetition: the number of a key
is its index.  Touching one more key moves no other, so numbers are never taken back.
-/
import Mathlib

namespace AsimFeeder.Lib

variable {α : Type*} [DecidableEq α] {ks : List α} {k v : α}

/-- The keys after `k` is asked for. -/
def touch (ks : List α) (k : α) : List α := if k ∈ ks then ks else ks ++ [k]

theorem touch_of_mem (h : k ∈ ks) : touch ks k = ks := if_pos h

theorem touch_of_not_mem (h : k ∉ ks) : touch ks k = ks ++ [k] := if_neg h

@[simp] theorem mem_touch : v ∈ touch ks k ↔ v ∈ ks ∨ v = k := by
  by_cases h : k ∈ ks
  · rw [touch_of_mem h]
    refine ⟨Or.inl, ?_⟩
    rintro (hv | rfl)
    · exact hv
    · exact h
  · rw [touch_of_not_mem h, List.mem_append, List.mem_singleton]

theorem nodup_touch (h : ks.Nodup) : (touch ks k).Nodup := by
  by_cases hk : k ∈ ks
  · rwa [touch_of_mem hk]
  · rw [touch_of_not_mem hk, List.nodup_append]
    refine ⟨h, List.nodup_singleton k, ?_⟩
    rintro a ha b hb rfl
    exact hk (List.mem_singleton.mp hb ▸ ha)

theorem length_touch_le : (touch ks k).length ≤ ks.length + 1 := by
  by_cases hk : k ∈ ks
  · rw [touch_of_mem hk]
    exact Nat.le_succ _
  · have hone : (touch ks k).length = ks.length + 1 := by
      rw [touch_of_not_mem hk, List.length_append, List.length_singleton]
    exact Nat.le_of_eq hone

/-- A key that has its number keeps it. -/
theorem idxOf_touch (h : v ∈ ks) : (touch ks k).idxOf v = ks.idxOf v := by
  by_cases hk : k ∈ ks
  · rw [touch_of_mem hk]
  · rw [touch_of_not_mem hk, List.idxOf_append_of_mem h]

/-- A new key gets the next number. -/
theorem idxOf_touch_new (h : k ∉ ks) : (touch ks k).idxOf k = ks.length := by
  rw [touch_of_not_mem h, List.idxOf_append_of_notMem h, List.idxOf_cons_self, Nat.add_zero]

end AsimFeeder.Lib
