/-
Hashing a stream block by block.

A hash that compresses blocks of `n` items takes its input in pieces of any size: whole blocks
are compressed as they come, and what is left waits for more.  What such a hash knows of a
message is the state after the whole blocks and the items that wait, and feeding more is the
same as having fed the concatenation.
-/
import Mathlib

namespace AsimFeeder.Lib

variable {σ β : Type*}

/-- The first `k` blocks of `n` items. -/
def blocks (n : Nat) : Nat → List β → List (List β)
  | 0, _ => []
  | k + 1, l => l.take n :: blocks n k (l.drop n)

/-- Compress the whole blocks of a message, and keep what is left. -/
def absorb (compress : σ → List β → σ) (n : Nat) (s : σ) (l : List β) : σ × List β :=
  ((blocks n (l.length / n) l).foldl compress s, l.drop (n * (l.length / n)))

variable (compress : σ → List β → σ) {n : Nat}

/-- Less than a block only waits. -/
theorem absorb_short (s : σ) {l : List β} (h : l.length < n) :
    absorb compress n s l = (s, l) := by
  simp [absorb, blocks, Nat.div_eq_of_lt h]

theorem absorb_step (s : σ) {l : List β} (hn : 0 < n) (h : n ≤ l.length) :
    absorb compress n s l = absorb compress n (compress s (l.take n)) (l.drop n) := by
  have hdiv : l.length / n = (l.length - n) / n + 1 := by
    rw [← Nat.div_eq_sub_div hn h]
  simp only [absorb, hdiv, blocks, List.foldl_cons, List.length_drop, List.drop_drop]
  congr 2
  ring

/-- A block in front is compressed first. -/
theorem absorb_block_append (s : σ) {b l : List β} (hn : 0 < n) (hb : b.length = n) :
    absorb compress n s (b ++ l) = absorb compress n (compress s b) l := by
  have hle : n ≤ (b ++ l).length := by simp [hb]
  rw [absorb_step compress s hn hle, List.take_append_of_le_length (by omega),
    List.take_of_length_le (by omega),
    List.drop_append_of_le_length (by omega), List.drop_of_length_le (by omega), List.nil_append]

/-- One block alone. -/
theorem absorb_block (s : σ) {b : List β} (hn : 0 < n) (hb : b.length = n) :
    absorb compress n s b = (compress s b, []) := by
  have happ := absorb_block_append compress s (l := []) hn hb
  rw [List.append_nil] at happ
  rw [happ, absorb_short compress _ (by simpa using hn)]

theorem absorb_waiting_length (s : σ) (l : List β) :
    (absorb compress n s l).2.length = l.length % n := by
  have := Nat.div_add_mod l.length n
  simp only [absorb, List.length_drop]
  omega

/-- **To absorb more is to have absorbed the concatenation.** -/
theorem absorb_append (s : σ) (l more : List β) (hn : 0 < n) :
    absorb compress n s (l ++ more) =
      absorb compress n (absorb compress n s l).1 ((absorb compress n s l).2 ++ more) := by
  induction hk : l.length using Nat.strong_induction_on generalizing s l with
  | _ k ih =>
      by_cases h : l.length < n
      · rw [absorb_short compress s h]
      · have hle : n ≤ l.length := by omega
        have hle' : n ≤ (l ++ more).length := by
          rw [List.length_append]
          omega
        rw [absorb_step compress s hn hle, absorb_step compress s hn hle',
          List.take_append_of_le_length hle, List.drop_append_of_le_length hle]
        exact ih (l.drop n).length (by rw [List.length_drop]; omega) _ _ rfl

end AsimFeeder.Lib
