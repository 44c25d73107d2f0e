/-
Skipping instructions of a trace stream (`SkipHelper` of `tracefeeder.cpp`, `CommitAll` of
`tracebuffer.cpp`).

`CommitAll` puts the indices back and fills the ring from the reader, so whatever had been
read ahead is not in it any more.  The loop goes to the next instruction before it counts
one: the one at the head after `CommitAll` is passed over as well.

The indices start again at slot 0, so the slots are those of the positions relative to
where the reader was.
-/
import AsimFeeder.Trace.TraceBufferReplay

namespace AsimFeeder.Trace

open AsimFeeder.Lib

variable {Pc Data : Type}

namespace TraceBuffer

section Code

variable (trace : Nat → TraceInst Pc Data)

def commitAll (b : TraceBuffer Pc Data) : Except String (TraceBuffer Pc Data) := do
  let b ← fillBuffer trace
    { b with
      headIndex := slot bufSize 0
      lastcommitIndex := slot bufSize (bufSize - 1)
      filledIndex := slot bufSize 0 }
  .ok { b with lastcommitIndex := slot bufSize 0 }

/-- The loop of `SkipHelper`; `marker` is what `IsSet` says, if there is a marker. -/
def skipInstrs (marker : Option (Pc → Bool)) (n : Nat) :
    Nat → TraceBuffer Pc Data → Nat → Except String (TraceBuffer Pc Data × Nat)
  | 0, _, _ => .error "out of fuel"
  | fuel + 1, b, instructions =>
      if instructions < n then
        if b.eof then
          .ok (b, instructions)
        else do
          let b ← b.nextInstr trace
          -- embedded wrongpath instructions are not counted
          if b.isWrongpath then
            skipInstrs marker n fuel b instructions
          else
            let (b, _) ← b.commitInstr b.getIdentifier
            if marker.any fun IsSet => IsSet b.virtualPc then
              .ok (b, instructions + 1)
            else
              skipInstrs marker n fuel b (instructions + 1)
      else
        .ok (b, instructions)

/-- The buffer, the PC that the thread is told, and what is returned. -/
def skipHelper (marker : Option (Pc → Bool)) (n : Nat) (b : TraceBuffer Pc Data) :
    Except String (TraceBuffer Pc Data × Pc × Nat) := do
  let b ← b.commitAll trace
  -- Between two instructions that are counted there is less than one ring.
  let (b, instructions) ← b.skipInstrs trace marker n (n * bufSize + 1) 0
  let b ← b.nextInstr trace
  .ok (b, b.virtualPc, instructions)

end Code

end TraceBuffer

/-! ### What a skip should do -/

/-- How many of the entries from `p` up to `q` are not embedded wrongpath. -/
def instructionsBetween (trace : Nat → TraceInst Pc Data) (p q : Nat) : Nat :=
  (List.range' p (q - p)).countP fun r => !(trace r).wrongpath

/-- No end of the trace is at `c`, or behind it before the `n`-th instruction behind `c`. -/
def NoEnd (trace : Nat → TraceInst Pc Data) (c n : Nat) : Prop :=
  ∀ p, c ≤ p → instructionsBetween trace (c + 1) (p + 1) < n → (trace p).eof = false

/-- The entry at `q` is the next one to be fetched, and those behind it come after it. -/
structure StandsAt (trace : Nat → TraceInst Pc Data) (b : TraceBuffer Pc Data) (q : Nat) :
    Prop where
  ahead : q < b.delivered
  window : b.delivered < q + bufSize
  filled : b.filledIndex = slot bufSize (b.headIndex.val + (b.delivered - q))
  holds : ∀ k, q + k < b.delivered →
    b.buffer (slot bufSize (b.headIndex.val + k)) = trace (q + k)

/-- From `p` on, just `n` instructions have been passed over. -/
def Skipped (trace : Nat → TraceInst Pc Data) (p n : Nat) (b : TraceBuffer Pc Data) : Prop :=
  ∃ q, p ≤ q ∧ StandsAt trace b q ∧ instructionsBetween trace p q = n

/-- The `n`-th instruction behind position `c` is at `q`, and there is less than one ring of
wrongpath entries before each. -/
inductive Steps (trace : Nat → TraceInst Pc Data) : Nat → Nat → Nat → Prop
  | done (c : Nat) : Steps trace c 0 c
  | step {c x n q : Nat} (hcx : c < x) (hring : x < c + bufSize)
      (hbetween : ∀ r, c < r → r < x → (trace r).wrongpath = true)
      (hx : (trace x).wrongpath = false) (hrest : Steps trace x n q) : Steps trace c (n + 1) q

variable {trace : Nat → TraceInst Pc Data}

theorem StandsAt.unique {b : TraceBuffer Pc Data} {q q' : Nat} (h : StandsAt trace b q)
    (h' : StandsAt trace b q') : q = q' := by
  have hslot := h.filled.symm.trans h'.filled
  have h1 := h.ahead
  have h2 := h.window
  have h3 := h'.ahead
  have h4 := h'.window
  have hpos := slot_inj hslot (by omega) (by omega)
  omega

theorem instructionsBetween_add {p m q : Nat} (hpm : p ≤ m) (hmq : m ≤ q) :
    instructionsBetween trace p q
      = instructionsBetween trace p m + instructionsBetween trace m q := by
  have hrange : List.range' p (q - p) = List.range' p (m - p) ++ List.range' m (q - m) := by
    have happend := List.range'_append_1 (s := p) (m := m - p) (n := q - m)
    rw [show p + (m - p) = m by omega, show m - p + (q - m) = q - p by omega] at happend
    exact happend.symm
  unfold instructionsBetween
  rw [hrange, List.countP_append]

theorem instructionsBetween_eq_zero {p q : Nat} : instructionsBetween trace p q = 0 ↔
    ∀ r, p ≤ r → r < q → (trace r).wrongpath = true := by
  unfold instructionsBetween
  rw [List.countP_eq_zero]
  constructor
  · intro h r h1 h2
    have hr := h r (List.mem_range'_1.mpr ⟨h1, by omega⟩)
    simpa using hr
  · intro h r hr
    obtain ⟨h1, h2⟩ := List.mem_range'_1.mp hr
    rw [h r h1 (by omega)]
    exact Bool.false_ne_true

theorem instructionsBetween_one {x : Nat} (hx : (trace x).wrongpath = false) :
    instructionsBetween trace x (x + 1) = 1 := by
  unfold instructionsBetween
  rw [Nat.add_sub_cancel_left, List.range'_one, List.countP_singleton, hx]
  rfl

/-- A whole ring of wrongpath entries leads to no instruction. -/
theorem not_steps_of_wrongpath {c n q : Nat} (hn : 0 < n)
    (hwrong : ∀ r, c < r → r < c + bufSize → (trace r).wrongpath = true) :
    ¬ Steps trace c n q := by
  intro hsteps
  cases hsteps with
  | done => exact Nat.lt_irrefl 0 hn
  | @step _ y _ _ hcy hy _ hright _ =>
      rw [hwrong y hcy hy] at hright
      cases hright

/-- The steps behind the first instruction that comes. -/
theorem Steps.tail {c x n q : Nat} (h : Steps trace c (n + 1) q) (hcx : c < x)
    (hbetween : ∀ r, c < r → r < x → (trace r).wrongpath = true)
    (hx : (trace x).wrongpath = false) : Steps trace x n q := by
  cases h with
  | @step _ y _ _ hcy _ hbetween' hy hrest =>
      rcases Nat.lt_trichotomy y x with hlt | rfl | hgt
      · rw [hbetween y hcy hlt] at hy
        cases hy
      · exact hrest
      · rw [hbetween' x hcx hgt] at hx
        cases hx

/-- Behind an instruction there is one less to come. -/
theorem NoEnd.step {c x n : Nat} (h : NoEnd trace c (n + 1)) (hcx : c < x)
    (hbetween : ∀ r, c < r → r < x → (trace r).wrongpath = true)
    (hx : (trace x).wrongpath = false) : NoEnd trace x n := by
  intro p hp hcount
  have hnone : instructionsBetween trace (c + 1) x = 0 :=
    instructionsBetween_eq_zero.mpr fun r h1 h2 => hbetween r h1 h2
  refine h p (by omega) ?_
  rw [instructionsBetween_add hcx (by omega),
    instructionsBetween_add (Nat.le_add_right x 1) (by omega), hnone, instructionsBetween_one hx]
  omega

theorem Steps.count {c n q : Nat} (h : Steps trace c n q) :
    c ≤ q ∧ instructionsBetween trace (c + 1) (q + 1) = n := by
  induction h with
  | done c =>
      refine ⟨Nat.le_refl c, ?_⟩
      unfold instructionsBetween
      rw [Nat.sub_self]
      rfl
  | @step c x n q hcx _ hbetween hx _ ih =>
      obtain ⟨hxq, hcount⟩ := ih
      have hnone : instructionsBetween trace (c + 1) x = 0 :=
        instructionsBetween_eq_zero.mpr fun r h1 h2 => hbetween r h1 h2
      have hone := instructionsBetween_one hx
      refine ⟨by omega, ?_⟩
      rw [instructionsBetween_add hcx (by omega),
        instructionsBetween_add (Nat.le_succ x) (by omega), hnone, hone, hcount]
      omega

namespace TraceBuffer

/-! ### Positions from where the reader was -/

/-- How the indices and slots stand to the positions behind `d`.  The head may be one
behind the commit. -/
structure Follows (trace : Nat → TraceInst Pc Data) (d m : Nat) (b : TraceBuffer Pc Data)
    (c x : Nat) : Prop where
  delivered : b.delivered = d + m
  filled : b.filledIndex = slot bufSize m
  head : b.headIndex = slot bufSize x
  lastcommit : b.lastcommitIndex = slot bufSize (c + (bufSize - 1))
  near : c ≤ x + 1
  ahead : x < m
  window : m < c + bufSize
  holds : Holds bufSize b.buffer (fun p => trace (d + p)) (m - bufSize) m

variable {d m c x : Nat} {b : TraceBuffer Pc Data}

def rebase (d : Nat) (b : TraceBuffer Pc Data) : TraceBuffer Pc Data :=
  { b with delivered := d + b.delivered }

theorem fillLoop_rebase (fuel : Nat) : (rebase d b).fillLoop trace fuel =
    rebase d (b.fillLoop (fun p => trace (d + p)) fuel) := by
  induction fuel generalizing b with
  | zero => rfl
  | succ fuel ih =>
      have hslot : (rebase d b).fillSlot trace
          = rebase d (b.fillSlot fun p => trace (d + p)) := rfl
      generalize hfilled : b.fillSlot (fun p => trace (d + p)) = b' at hslot
      rw [fillLoop, fillLoop, hslot, hfilled]
      by_cases hmore : b'.filledIndex ≠ b'.lastcommitIndex
      · rw [if_pos hmore]
        exact (if_pos hmore).trans ih
      · rw [if_neg hmore]
        exact if_neg hmore

/-- A fill up to the last commit. -/
theorem fillBuffer_follows (hdelivered : b.delivered = d + m)
    (hfilled : b.filledIndex = slot bufSize m) (hhead : b.headIndex = slot bufSize m)
    (hlast : b.lastcommitIndex = slot bufSize (c + (bufSize - 1))) (hc : c ≤ m)
    (hroom : m < c + (bufSize - 1))
    (hholds : Holds bufSize b.buffer (fun p => trace (d + p)) (m - bufSize) m) :
    ∃ b', b.fillBuffer trace = .ok b' ∧ Follows trace d (c + (bufSize - 1)) b' c m := by
  have hb : b = rebase d { b with delivered := m } := by
    unfold rebase
    rw [← hdelivered]
  have hne : b.filledIndex ≠ b.lastcommitIndex := by
    rw [hfilled, hlast]
    exact slot_ne (by omega) (by omega) (by omega)
  have hfill : FilledTo (fun p => trace (d + p)) { b with delivered := m }
      (fillLoop (fun p => trace (d + p)) bufSize { b with delivered := m }) (c + (bufSize - 1)) :=
    fillLoop_spec bufSize { b with delivered := m } hfilled hholds hlast hroom
      (by show _ < m + _; omega) (by show _ ≤ m + _; omega)
  refine ⟨b.fillLoop trace bufSize, ?_, ?_⟩
  · unfold fillBuffer
    rw [if_neg (by rw [hhead, hfilled]; exact fun h => h rfl), if_neg hne]
  · rw [hb, fillLoop_rebase]
    exact
      { delivered := congrArg (d + ·) hfill.delivered
        filled := hfill.filled
        head := hfill.head.trans hhead
        lastcommit := hfill.lastcommit.trans hlast
        near := by omega
        ahead := hroom
        window := by omega
        holds := hfill.holds }

namespace Follows

theorem getInst (h : Follows trace d m b c x) : b.getInst = trace (d + x) := by
  have h1 := h.ahead
  have h2 := h.near
  have h3 := h.window
  unfold TraceBuffer.getInst
  rw [h.head]
  exact h.holds x (by omega) h1

/-- The head goes to the next entry, as long as it is not a whole ring behind the commit. -/
theorem nextInstr (h : Follows trace d m b c x) (hroom : x + 1 < c + (bufSize - 1)) :
    ∃ m' b', b.nextInstr trace = .ok b' ∧ Follows trace d m' b' c (x + 1) := by
  have h1 := h.ahead
  have h2 := h.near
  have h3 := h.window
  have hmoved : next b.headIndex = slot bufSize (x + 1) := by rw [h.head, next_slot]
  unfold TraceBuffer.nextInstr
  dsimp only
  by_cases hlast : x + 1 = m
  · have hmeet : next b.headIndex = b.filledIndex := by rw [hmoved, h.filled, hlast]
    subst hlast
    rw [if_pos hmeet]
    obtain ⟨b', hfill, hfollows⟩ := fillBuffer_follows
      (b := { b with headIndex := next b.headIndex }) h.delivered h.filled hmoved h.lastcommit h2
      hroom h.holds
    exact ⟨_, b', hfill, hfollows⟩
  · have hmeet : next b.headIndex ≠ b.filledIndex := by
      rw [hmoved, h.filled]
      exact slot_ne hlast (by omega) (by omega)
    rw [if_neg hmeet]
    exact ⟨m, _, rfl,
      { delivered := h.delivered
        filled := h.filled
        head := hmoved
        lastcommit := h.lastcommit
        near := by omega
        ahead := by omega
        window := h3
        holds := h.holds }⟩

theorem overruns (h : Follows trace d m b c x) (hfull : x + 1 = c + (bufSize - 1)) :
    b.nextInstr trace = .error overrun := by
  have h1 := h.ahead
  have h3 := h.window
  have hm : m = x + 1 := by omega
  have hmoved : next b.headIndex = b.filledIndex := by rw [h.head, next_slot, h.filled, hm]
  have hlast : b.filledIndex = b.lastcommitIndex := by rw [h.filled, h.lastcommit, hm, hfull]
  unfold TraceBuffer.nextInstr fillBuffer
  dsimp only
  rw [if_pos hmoved, if_neg (fun hne => hne hmoved), if_pos hlast]
  rfl

/-- The entry at the head is committed, over wrongpath entries only. -/
theorem commitInstr (h : Follows trace d m b c x) (hcx : c ≤ x)
    (hskip : ∀ r, c ≤ r → r < x → (trace (d + r)).wrongpath = true) :
    ∃ b', b.commitInstr b.getIdentifier = .ok (b', x - c) ∧
      Follows trace d m b' (x + 1) x := by
  have hn : bufSize = 2048 := rfl
  have h1 := h.ahead
  have h3 := h.window
  have hstart : next b.lastcommitIndex = slot bufSize c := by
    rw [h.lastcommit, next_slot, show c + (bufSize - 1) + 1 = c + bufSize by omega, slot_add_size]
  have hloop := commitLoop_spec bufSize c { b with lastcommitIndex := next b.lastcommitIndex } 0
    hstart hcx (by omega) (by omega) (fun r hr hrp => by
      show (b.buffer (slot bufSize r)).skippable = true
      rw [h.holds r (by omega) (by omega)]
      unfold TraceInst.skippable
      rw [hskip r hr hrp]
      rfl)
  rw [Nat.zero_add] at hloop
  refine ⟨{ b with lastcommitIndex := slot bufSize x }, ?_, ?_⟩
  · have hid : b.getIdentifier = slot bufSize x := h.head
    rw [hid]
    exact hloop
  · exact
      { delivered := h.delivered
        filled := h.filled
        head := h.head
        lastcommit := by
          show slot bufSize x = slot bufSize (x + 1 + (bufSize - 1))
          rw [show x + 1 + (bufSize - 1) = x + bufSize by omega, slot_add_size]
        near := Nat.le_refl _
        ahead := h1
        window := by omega
        holds := h.holds }

theorem standsAt (h : Follows trace d m b c x) (hcx : c ≤ x) : StandsAt trace b (d + x) := by
  have h1 := h.ahead
  have h3 := h.window
  have hdelivered := h.delivered
  refine ⟨by omega, by omega, ?_, fun k hk => ?_⟩
  · rw [h.head, slot_val_add, h.filled]
    congr 1
    omega
  · rw [h.head, slot_val_add, h.holds (x + k) (by omega) (by omega), Nat.add_assoc]

end Follows

/-! ### The skip -/

theorem commitAll_follows (b : TraceBuffer Pc Data) : ∃ m b', b.commitAll trace = .ok b' ∧
    Follows trace b.delivered m b' 1 0 := by
  have hn : bufSize = 2048 := rfl
  obtain ⟨b', hfill, hfollows⟩ : ∃ b', fillBuffer trace
      { b with
        headIndex := slot bufSize 0
        lastcommitIndex := slot bufSize (bufSize - 1)
        filledIndex := slot bufSize 0 } = .ok b' ∧
      Follows trace b.delivered (0 + (bufSize - 1)) b' 0 0 :=
    fillBuffer_follows rfl rfl rfl (by rw [Nat.zero_add]) (Nat.le_refl 0) (by omega)
      (holds_empty _ _ 0)
  refine ⟨_, { b' with lastcommitIndex := slot bufSize 0 }, ?_,
    { delivered := hfollows.delivered
      filled := hfollows.filled
      head := hfollows.head
      lastcommit := ?_
      near := Nat.le_refl 1
      ahead := hfollows.ahead
      window := by omega
      holds := hfollows.holds }⟩
  · unfold commitAll
    rw [hfill]
    rfl
  · show slot bufSize 0 = slot bufSize (1 + (bufSize - 1))
    rw [show 1 + (bufSize - 1) = 0 + bufSize by omega, slot_add_size]

/-- The loop stops behind the `n`-th instruction, or runs into the last commit.

By induction on the fuel, `i` instructions having been counted and the last of them at
position `c`; the head is among the wrongpath entries behind it. -/
theorem Follows.skipInstrs {n i : Nat} (fuel : Nat) (heof : NoEnd trace (d + c) (n - i))
    (h : Follows trace d m b (c + 1) x) (hcx : c ≤ x)
    (hwrong : ∀ r, c < r → r ≤ x → (trace (d + r)).wrongpath = true) (hi : i ≤ n)
    (hdone : i = n → x = c) (hfuel : (n - i) * bufSize < fuel + (x - c)) :
    (∃ q m' b', Steps trace (d + c) (n - i) (d + q) ∧
      b.skipInstrs trace none n fuel i = .ok (b', n) ∧ Follows trace d m' b' (q + 1) q) ∨
    (b.skipInstrs trace none n fuel i = .error overrun ∧
      ∀ q, ¬ Steps trace (d + c) (n - i) q) := by
  have hn : bufSize = 2048 := rfl
  induction fuel generalizing b m c x i with
  | zero =>
      exfalso
      have h1 := h.ahead
      have h3 := h.window
      rcases Nat.eq_or_lt_of_le hi with rfl | hlt
      · have hxc := hdone rfl
        omega
      · have hone : 1 * bufSize ≤ (n - i) * bufSize := Nat.mul_le_mul_right _ (by omega)
        omega
  | succ fuel ih =>
      rw [TraceBuffer.skipInstrs]
      have hbehind : ∀ r, d + c < r → r < d + (x + 1) → (trace r).wrongpath = true := by
        intro r h1 h2
        have hw := hwrong (r - d) (by omega) (by omega)
        rwa [show d + (r - d) = r by omega] at hw
      by_cases hless : i < n
      · have heof' : b.eof = false := by
          have hnone : instructionsBetween trace (d + c + 1) (d + x + 1) = 0 :=
            instructionsBetween_eq_zero.mpr fun r h1 h2 => hbehind r h1 h2
          unfold TraceBuffer.eof
          rw [h.getInst]
          exact heof _ (by omega) (by omega)
        rw [if_pos hless, heof', if_neg Bool.false_ne_true]
        by_cases hring : x + 1 = c + 1 + (bufSize - 1)
        · -- a whole ring of wrongpath entries
          rw [h.overruns hring]
          exact .inr ⟨rfl, fun q => not_steps_of_wrongpath (by omega)
            fun r h1 h2 => hbehind r h1 (by omega)⟩
        · have h1 := h.ahead
          have h3 := h.window
          obtain ⟨m', b', hnext, hfollows⟩ := h.nextInstr (by omega)
          rw [hnext]
          have hinst : b'.isWrongpath = (trace (d + (x + 1))).wrongpath := by
            unfold TraceBuffer.isWrongpath
            rw [hfollows.getInst]
          cases hnextWrong : (trace (d + (x + 1))).wrongpath with
          | true =>
              have hwrong' : ∀ r, c < r → r ≤ x + 1 → (trace (d + r)).wrongpath = true := by
                intro r hcr hr
                rcases Nat.eq_or_lt_of_le hr with rfl | hlt
                · exact hnextWrong
                · exact hwrong r hcr (by omega)
              have hrest := ih heof hfollows (by omega) hwrong' hi (by omega) (by omega)
              show (∃ q m₁ b₁, _ ∧ (if b'.isWrongpath = true then _ else _) = _ ∧ _) ∨
                ((if b'.isWrongpath = true then _ else _) = _ ∧ _)
              rw [hinst, hnextWrong, if_pos rfl]
              exact hrest
          | false =>
              have hskip : ∀ r, c + 1 ≤ r → r < x + 1 → (trace (d + r)).wrongpath = true :=
                fun r hcr hr => hwrong r hcr (by omega)
              obtain ⟨b₂, hcommit, hcommitted⟩ := hfollows.commitInstr (by omega) hskip
              obtain ⟨k, hk⟩ : ∃ k, n - i = k + 1 := ⟨n - i - 1, by omega⟩
              have hk' : n - (i + 1) = k := by omega
              rw [hk, Nat.succ_mul] at hfuel
              rw [hk] at heof
              have heof' := heof.step (by omega) hbehind hnextWrong
              rw [← hk'] at heof'
              have hrest := ih heof' hcommitted (Nat.le_refl _) (fun r hr hr' => by omega) hless
                (fun _ => rfl) (by rw [hk']; omega)
              rw [hk'] at hrest
              show (∃ q m₁ b₁, _ ∧ (if b'.isWrongpath = true then _ else _) = _ ∧ _) ∨
                ((if b'.isWrongpath = true then _ else _) = _ ∧ _)
              rw [hinst, hnextWrong, if_neg Bool.false_ne_true, hcommit, hk]
              rcases hrest with ⟨q, m₁, b₁, hsteps, hloop, hfinal⟩ | ⟨hloop, hnot⟩
              · refine .inl ⟨q, m₁, b₁, ?_, hloop, hfinal⟩
                exact .step (by omega) (by omega) hbehind hnextWrong hsteps
              · exact .inr ⟨hloop, fun q hsteps =>
                  hnot q (hsteps.tail (by omega) hbehind hnextWrong)⟩
      · have hin : i = n := by omega
        have hxc := hdone hin
        subst hin
        subst hxc
        rw [if_neg hless, Nat.sub_self]
        exact .inl ⟨x, m, b, .done _, rfl, h⟩

/-- **A skip ends behind the `n`-th instruction after the one that the reader has next.** -/
theorem skipHelper_spec {n : Nat} (b : TraceBuffer Pc Data) (heof : NoEnd trace b.delivered n) :
    (∃ q b', Steps trace b.delivered n q ∧
      b.skipHelper trace none n = .ok (b', b'.virtualPc, n) ∧ StandsAt trace b' (q + 1)) ∨
    (b.skipHelper trace none n = .error overrun ∧ ∀ q, ¬ Steps trace b.delivered n q) := by
  have hn : bufSize = 2048 := rfl
  obtain ⟨m, b₁, hall, hfollows⟩ : ∃ m b₁, b.commitAll trace = .ok b₁ ∧
      Follows trace b.delivered m b₁ 1 0 := commitAll_follows b
  unfold skipHelper
  rw [hall]
  rcases hfollows.skipInstrs (n * bufSize + 1) heof (Nat.le_refl 0) (fun r hr hr' => by omega)
    (Nat.zero_le n) (fun _ => rfl) (by rw [Nat.sub_zero]; omega) with
    ⟨q, m₁, b₂, hsteps, hloop, hended⟩ | ⟨hloop, hnot⟩
  · obtain ⟨m₂, b₃, hnext, hfinal⟩ := hended.nextInstr (by omega)
    refine .inl ⟨b.delivered + q, b₃, hsteps, ?_, hfinal.standsAt (Nat.le_refl _)⟩
    show (b₁.skipInstrs trace none n (n * bufSize + 1) 0 >>= _) = _
    rw [hloop]
    show (b₂.nextInstr trace >>= _) = _
    rw [hnext]
    rfl
  · refine .inr ⟨?_, hnot⟩
    show (b₁.skipInstrs trace none n (n * bufSize + 1) 0 >>= _) = _
    rw [hloop]
    rfl

/-- A skip is exact just if what it does not count is embedded wrongpath. -/
theorem Tracks.skipped_iff {g : Stream} {n : Nat} (h : Tracks trace b g)
    (heof : NoEnd trace b.delivered n) :
    (∃ b', b.skipHelper trace none n = .ok (b', b'.virtualPc, n) ∧
      Skipped trace g.position n b') ↔
    (∀ p, g.position ≤ p → p ≤ b.delivered → (trace p).wrongpath = true) ∧
      ∃ q, Steps trace b.delivered n q := by
  have hahead := h.ahead
  rcases skipHelper_spec b heof with ⟨q, b₁, hsteps, hskip, hstands⟩ | ⟨hskip, hnot⟩
  · obtain ⟨hle, hcount⟩ := hsteps.count
    have hsplit : instructionsBetween trace g.position (q + 1)
        = instructionsBetween trace g.position (b.delivered + 1)
          + instructionsBetween trace (b.delivered + 1) (q + 1) :=
      instructionsBetween_add (by omega) (by omega)
    rw [hcount] at hsplit
    constructor
    · rintro ⟨b', hok, q', -, hstands', hcount'⟩
      rw [hskip] at hok
      cases hok
      rw [← hstands.unique hstands'] at hcount'
      have hzero := instructionsBetween_eq_zero.mp
        (show instructionsBetween trace g.position (b.delivered + 1) = 0 by omega)
      exact ⟨fun p h1 h2 => hzero p h1 (Nat.lt_succ_of_le h2), q, hsteps⟩
    · rintro ⟨hwrong, -⟩
      have hzero := instructionsBetween_eq_zero.mpr
        (fun r h1 (h2 : r < b.delivered + 1) => hwrong r h1 (Nat.le_of_lt_succ h2))
      exact ⟨b₁, hskip, q + 1, by omega, hstands, by omega⟩
  · constructor
    · rintro ⟨b', hok, -⟩
      rw [hskip] at hok
      cases hok
    · rintro ⟨-, q, hsteps⟩
      exact absurd hsteps (hnot q)

end TraceBuffer

/-! ### From any state of a stream -/

/-- **A skip of `n` that meets no end of the trace passes over `n` instructions just if all
entries from the one that would be fetched next to the first that has not been read are embedded
wrongpath, and less than a ring of wrongpath comes before each of the `n` behind them.** -/
theorem skip_exact_iff [DecidableEq Pc] {s : TraceBuffer Pc Data × Stream} {n : Nat}
    (h : Reaches (BufferStart trace) (BufferStep trace) s) (heof : NoEnd trace s.1.delivered n) :
    (∃ b', s.1.skipHelper trace none n = .ok (b', b'.virtualPc, n) ∧
      Skipped trace s.2.position n b') ↔
    (∀ p, s.2.position ≤ p → p ≤ s.1.delivered → (trace p).wrongpath = true) ∧
      ∃ q, Steps trace s.1.delivered n q :=
  (tracks_of_reaches h).skipped_iff heof

/-- A trace that begins with a ring of wrongpath entries. -/
def orphansTrace (p : Nat) : TraceInst Nat Unit :=
  ⟨p, decide (p < bufSize), false, false, false, ()⟩

theorem skip_exact_iff_orphans : ∃ s : TraceBuffer Nat Unit × Stream, s.2 = ⟨0, 0, [], []⟩ ∧
    ∃ b', s.1.skipHelper orphansTrace none 1 = .ok (b', b'.virtualPc, 1) ∧
      Skipped orphansTrace 0 1 b' := by
  have hn : bufSize = 2048 := rfl
  obtain ⟨b, hb, hd, -⟩ := @TraceBuffer.init_spec _ _ orphansTrace fun _ => orphansTrace 0
  have hstart : Reaches (BufferStart orphansTrace) (BufferStep orphansTrace)
      (b, ⟨0, 0, [], []⟩) := .start ⟨_, hb, rfl⟩
  refine ⟨_, rfl, (skip_exact_iff hstart fun _ _ _ => rfl).mpr ⟨fun p _ hp => ?_, bufSize, ?_⟩⟩
  · exact decide_eq_true (by rw [hd] at hp; omega)
  · rw [hd]
    exact .step (by omega) (by omega) (fun r h1 h2 => by omega) (by decide) (.done _)

/-- **A skip of one instruction at the start of a trace passes over 2049.** -/
theorem skip_not_always_exact : ¬ ∀ s : TraceBuffer Nat Unit × Stream,
    Reaches (BufferStart countingTrace) (BufferStep countingTrace) s →
      ∃ b', s.1.skipHelper countingTrace none 1 = .ok (b', b'.virtualPc, 1) ∧
        Skipped countingTrace s.2.position 1 b' := by
  intro hall
  obtain ⟨b, hb, -, ht⟩ := @TraceBuffer.init_spec _ _ countingTrace fun _ => countingTrace 0
  have hstart : Reaches (BufferStart countingTrace) (BufferStep countingTrace)
      (b, ⟨0, 0, [], []⟩) := .start ⟨_, hb, rfl⟩
  have hexact := hall _ hstart
  have hiff := ht.skipped_iff (n := 1) fun _ _ _ => rfl
  dsimp only at hexact hiff
  have hwrong := (hiff.mp hexact).1 0 (Nat.le_refl 0) (Nat.zero_le _)
  cases hwrong

end AsimFeeder.Trace
