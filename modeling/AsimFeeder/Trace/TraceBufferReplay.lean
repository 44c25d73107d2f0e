/-
The trace buffer replays its stream.

What the buffer owes its feeder is told in absolute positions of the stream: the
position fetch is at, how much has been committed, and which instructions have been
handed out.  `Tracks` says how the three indices and the slots stand to those
positions, and every operation keeps it.

Two facts carry the argument.  The distance from the last commit to the filled index
never exceeds `BufSize - 1`, so a fill only ever reuses slots of committed
instructions.  And the fill stops exactly there, so when it starts with nothing
committed since the last one it finds `filled_index` on `lastcommit_index`, which is
the overrun the source asserts against.
-/
import AsimFeeder.Lib.Runs
import AsimFeeder.Trace.TraceBuffer

namespace AsimFeeder.Trace

open AsimFeeder.Lib

variable {Pc Data : Type} {trace : Nat → TraceInst Pc Data}

/-- What `CommitInstr` passes over on its way to the instruction it commits. -/
def TraceInst.skippable (i : TraceInst Pc Data) : Bool := i.wrongpath || i.longImm || i.nop

/--
The stream as its feeder sees it.  `fetched` lists the positions ever handed out;
`inFlight` drops those a kill has taken back, which are fetched again before they commit.
-/
structure Stream where
  position : Nat
  committed : Nat
  fetched : List Nat
  inFlight : List Nat

/-- The stream with its logical position `k` further on. -/
def Stream.moved (g : Stream) (k : Nat) : Stream := { g with position := g.position + k }

@[simp] theorem Stream.moved_position (g : Stream) (k : Nat) :
    (g.moved k).position = g.position + k := rfl
@[simp] theorem Stream.moved_committed (g : Stream) (k : Nat) :
    (g.moved k).committed = g.committed := rfl
theorem Stream.moved_moved (g : Stream) (j k : Nat) : (g.moved j).moved k = g.moved (j + k) := by
  simp only [Stream.moved, Nat.add_assoc]

namespace TraceBuffer

/-! ### What a fill does -/

/-- `b'` is `b` after it was filled up to position `upto`. -/
structure FilledTo (trace : Nat → TraceInst Pc Data) (b b' : TraceBuffer Pc Data) (upto : Nat) :
    Prop where
  delivered : b'.delivered = upto
  filled : b'.filledIndex = slot bufSize upto
  head : b'.headIndex = b.headIndex
  lastcommit : b'.lastcommitIndex = b.lastcommitIndex
  holds : Holds bufSize b'.buffer trace (upto - bufSize) upto
  log : ∃ w, b'.fillLog = w ++ b.fillLog ∧
    ∀ i ∈ w, ∃ q, b.delivered ≤ q ∧ q < upto ∧ i = slot bufSize q

theorem fillSlot_spec {b : TraceBuffer Pc Data} (hf : b.filledIndex = slot bufSize b.delivered)
    (hh : Holds bufSize b.buffer trace (b.delivered - bufSize) b.delivered) :
    FilledTo trace b (b.fillSlot trace) (b.delivered + 1) where
  delivered := rfl
  filled := by
    show next b.filledIndex = _
    rw [hf, next_slot]
  head := rfl
  lastcommit := rfl
  holds := by
    show Holds bufSize (Function.update b.buffer b.filledIndex (trace b.delivered)) trace _ _
    rw [hf]
    exact (hh.mono (by omega) (Nat.le_refl _)).push (by omega)
  log := ⟨[b.filledIndex], rfl, by
    intro i hi
    rw [List.mem_singleton] at hi
    exact ⟨b.delivered, Nat.le_refl _, Nat.lt_succ_self _, by rw [hi, hf]⟩⟩

theorem FilledTo.trans {b b₁ b₂ : TraceBuffer Pc Data} {m k : Nat} (h₁ : FilledTo trace b b₁ m)
    (h₂ : FilledTo trace b₁ b₂ k) (hb : b.delivered ≤ m) (hmk : m ≤ k) :
    FilledTo trace b b₂ k where
  delivered := h₂.delivered
  filled := h₂.filled
  head := h₂.head.trans h₁.head
  lastcommit := h₂.lastcommit.trans h₁.lastcommit
  holds := h₂.holds
  log := by
    obtain ⟨w₁, hw₁, hs₁⟩ := h₁.log
    obtain ⟨w₂, hw₂, hs₂⟩ := h₂.log
    refine ⟨w₂ ++ w₁, by rw [hw₂, hw₁, List.append_assoc], ?_⟩
    intro i hi
    rcases List.mem_append.mp hi with hi | hi
    · obtain ⟨q, hq, hqk, hiq⟩ := hs₂ i hi
      exact ⟨q, by rw [h₁.delivered] at hq; omega, hqk, hiq⟩
    · obtain ⟨q, hq, hqm, hiq⟩ := hs₁ i hi
      exact ⟨q, hq, by omega, hiq⟩

/-- The loop fills up to the slot of the last commit, however full the ring was. -/
theorem fillLoop_spec {stop : Nat} :
    ∀ (fuel : Nat) (b : TraceBuffer Pc Data), b.filledIndex = slot bufSize b.delivered →
      Holds bufSize b.buffer trace (b.delivered - bufSize) b.delivered →
      b.lastcommitIndex = slot bufSize stop → b.delivered < stop →
      stop < b.delivered + bufSize → stop ≤ b.delivered + fuel →
      FilledTo trace b (b.fillLoop trace fuel) stop := by
  intro fuel
  induction fuel with
  | zero => intro b _ _ _ hlt _ hfuel; omega
  | succ fuel ih =>
      intro b hf hh hl hlt hroom hfuel
      have hone := fillSlot_spec hf hh
      have hd := hone.delivered
      show FilledTo trace b (if (b.fillSlot trace).filledIndex ≠ (b.fillSlot trace).lastcommitIndex
        then fillLoop trace fuel (b.fillSlot trace) else b.fillSlot trace) stop
      rw [hone.filled, hone.lastcommit, hl]
      by_cases hstop : b.delivered + 1 = stop
      · rw [if_neg (by rw [hstop]; simp)]
        rw [← hstop]
        exact hone
      · rw [if_pos (slot_ne hstop (by omega) (by omega))]
        refine hone.trans (ih _ ?_ ?_ ?_ ?_ ?_ ?_) (by omega) (by omega)
        · rw [hone.filled, hd]
        · rw [hd]; exact hone.holds
        · rw [hone.lastcommit, hl]
        · rw [hd]; omega
        · rw [hd]; omega
        · rw [hd]; omega

/-- What `ASSERT` prints when the head has overrun what may be filled. -/
def overrun : String := "Trace buffer overrun on fill"

/-- A fill from the head either reaches the last commit or is the overrun. -/
theorem fillBuffer_spec {b : TraceBuffer Pc Data} {c : Nat} (hhead : b.headIndex = b.filledIndex)
    (hf : b.filledIndex = slot bufSize b.delivered)
    (hh : Holds bufSize b.buffer trace (b.delivered - bufSize) b.delivered)
    (hl : b.lastcommitIndex = slot bufSize (c + (bufSize - 1))) (hc : c ≤ b.delivered)
    (hroom : b.delivered < c + bufSize) :
    (∃ b', b.fillBuffer trace = .ok b' ∧ b.delivered < c + (bufSize - 1) ∧
      FilledTo trace b b' (c + (bufSize - 1))) ∨ b.fillBuffer trace = .error overrun := by
  have hn : 0 < bufSize := by decide
  unfold fillBuffer
  rw [if_neg (by rw [hhead]; simp)]
  by_cases hfull : b.filledIndex = b.lastcommitIndex
  · rw [if_pos hfull]
    exact Or.inr rfl
  · rw [if_neg hfull]
    have hlt : b.delivered < c + (bufSize - 1) := by
      rcases Nat.lt_or_ge b.delivered (c + (bufSize - 1)) with h | h
      · exact h
      · refine absurd ?_ hfull
        rw [hf, hl]
        exact congrArg _ (by omega)
    exact Or.inl ⟨_, rfl, hlt, fillLoop_spec _ b hf hh hl hlt (by omega) (by omega)⟩

/-! ### The invariant -/

/-- How the indices and slots of the buffer stand to the positions of its stream. -/
structure Tracks (trace : Nat → TraceInst Pc Data) (b : TraceBuffer Pc Data) (g : Stream) :
    Prop where
  filled : b.filledIndex = slot bufSize b.delivered
  head : b.headIndex = slot bufSize g.position
  lastcommit : b.lastcommitIndex = slot bufSize (g.committed + (bufSize - 1))
  uncommitted : g.committed ≤ g.position
  ahead : g.position < b.delivered
  window : b.delivered < g.committed + bufSize
  holds : Holds bufSize b.buffer trace (b.delivered - bufSize) b.delivered
  fetched : ∀ p ∈ g.fetched, p < b.delivered
  inFlight : ∀ p ∈ g.inFlight, p < g.position

/-- No slot of an uncommitted instruction was filled on the way from `b` to `b'`. -/
structure KeepsUncommitted (g : Stream) (b b' : TraceBuffer Pc Data) : Prop where
  grows : b.delivered ≤ b'.delivered
  log : ∃ w, b'.fillLog = w ++ b.fillLog ∧
    ∀ p, g.committed ≤ p → p < b.delivered → slot bufSize p ∉ w

theorem KeepsUncommitted.of_log_eq {g : Stream} {b b' : TraceBuffer Pc Data}
    (hd : b'.delivered = b.delivered) (hl : b'.fillLog = b.fillLog) : KeepsUncommitted g b b' :=
  ⟨by omega, [], by rw [hl]; rfl, fun _ _ _ => List.not_mem_nil⟩

theorem KeepsUncommitted.trans {g g' : Stream} {b b₁ b₂ : TraceBuffer Pc Data}
    (h₁ : KeepsUncommitted g b b₁) (h₂ : KeepsUncommitted g' b₁ b₂)
    (hg : g'.committed = g.committed) : KeepsUncommitted g b b₂ := by
  obtain ⟨w₁, hw₁, hs₁⟩ := h₁.log
  obtain ⟨w₂, hw₂, hs₂⟩ := h₂.log
  refine ⟨Nat.le_trans h₁.grows h₂.grows, w₂ ++ w₁, by rw [hw₂, hw₁, List.append_assoc], ?_⟩
  intro p hp hlt hmem
  have := h₁.grows
  rcases List.mem_append.mp hmem with h | h
  · exact hs₂ p (by omega) (by omega) h
  · exact hs₁ p hp hlt h

/-- A fill that stops at the last commit reuses slots of committed instructions only. -/
theorem FilledTo.keepsUncommitted {g : Stream} {b b' : TraceBuffer Pc Data}
    (h : FilledTo trace b b' (g.committed + (bufSize - 1)))
    (hlt : b.delivered < g.committed + (bufSize - 1)) : KeepsUncommitted g b b' := by
  obtain ⟨w, hw, hs⟩ := h.log
  refine ⟨by rw [h.delivered]; omega, w, hw, ?_⟩
  intro p hp hpd hmem
  obtain ⟨q, hq, hqu, hpq⟩ := hs _ hmem
  exact slot_ne (show p ≠ q by omega) (by omega) (by omega) hpq

theorem Tracks.getInst {b : TraceBuffer Pc Data} {g : Stream} (h : Tracks trace b g) :
    b.getInst = trace g.position := by
  have h1 := h.ahead
  have h2 := h.uncommitted
  have h3 := h.window
  unfold TraceBuffer.getInst
  rw [h.head]
  exact h.holds _ (by omega) h1

/-! ### Each operation keeps it -/

theorem init_spec (slots : Fin bufSize → TraceInst Pc Data) :
    ∃ b, init trace slots = .ok b ∧ b.delivered = bufSize - 1 ∧
      Tracks trace b ⟨0, 0, [], []⟩ := by
  have hn : bufSize = 2048 := rfl
  have hl : (unfilled slots).lastcommitIndex = slot bufSize (0 + (bufSize - 1)) := by
    apply Fin.ext
    rw [val_slot, Nat.mod_eq_of_lt (by omega), Nat.zero_add]
    rfl
  have hne : (unfilled slots).filledIndex ≠ (unfilled slots).lastcommitIndex := by
    intro h
    have := congrArg Fin.val h
    simp [unfilled, hn] at this
  have hh : Holds bufSize (unfilled slots).buffer trace (0 - bufSize) 0 := by
    rw [Nat.zero_sub]
    exact holds_empty _ _ _
  have hfirst := fillBuffer_spec (c := 0) (b := unfilled slots) rfl rfl hh hl
    (Nat.le_refl _) (by show 0 < 0 + bufSize; omega)
  rcases hfirst with ⟨b, hb, -, hfill⟩ | herr
  · have hd := hfill.delivered
    rw [Nat.zero_add] at hd
    refine ⟨b, hb, hd, ?_⟩
    exact
      { filled := by rw [hfill.filled, hfill.delivered]
        head := hfill.head
        lastcommit := hfill.lastcommit.trans hl
        uncommitted := Nat.le_refl _
        ahead := by show 0 < b.delivered; omega
        window := by show b.delivered < 0 + bufSize; omega
        holds := by rw [hfill.delivered]; exact hfill.holds
        fetched := by intro p hp; cases hp
        inFlight := by intro p hp; cases hp }
  · -- The first fill starts at slot 0, and the last commit is at the other end.
    exfalso
    unfold fillBuffer at herr
    rw [if_neg (fun h => h rfl), if_neg hne] at herr
    cases herr

theorem nextInstr_spec {b : TraceBuffer Pc Data} {g : Stream} (h : Tracks trace b g) :
    (∃ b', b.nextInstr trace = .ok b' ∧ Tracks trace b' (g.moved 1) ∧ KeepsUncommitted g b b') ∨
      b.nextInstr trace = .error overrun := by
  have hn : bufSize = 2048 := rfl
  have hahead := h.ahead
  have hwin := h.window
  have hunc := h.uncommitted
  have hflight : ∀ p ∈ (g.moved 1).inFlight, p < g.position + 1 :=
    fun p hp => Nat.lt_succ_of_lt (h.inFlight p hp)
  have hmoved : next b.headIndex = slot bufSize (g.position + 1) := by rw [h.head, next_slot]
  simp only [nextInstr]
  by_cases hmeet : next b.headIndex = b.filledIndex
  · rw [if_pos hmeet]
    -- The head has reached the filled index, so its position is what was delivered.
    have hpos : g.position + 1 = b.delivered := by
      refine slot_inj (n := bufSize) ?_ (by omega) (by omega)
      rw [← hmoved, hmeet, h.filled]
    rcases fillBuffer_spec (b := { b with headIndex := next b.headIndex }) hmeet h.filled h.holds
      h.lastcommit (show g.committed ≤ b.delivered by omega) hwin with ⟨b', hb', hlt, hfill⟩ | herr
    · refine Or.inl ⟨b', hb', ?_, ?_⟩
      · have hd := hfill.delivered
        have hlt' : b.delivered < g.committed + (bufSize - 1) := hlt
        exact
          { filled := by rw [hfill.filled, hd]
            head := hfill.head.trans hmoved
            lastcommit := hfill.lastcommit.trans h.lastcommit
            uncommitted := by show g.committed ≤ g.position + 1; omega
            ahead := by rw [hd]; show g.position + 1 < _; omega
            window := by rw [hd]; show _ < g.committed + _; omega
            holds := by rw [hd]; exact hfill.holds
            fetched := by
              intro p hp
              have := h.fetched p hp
              omega
            inFlight := hflight }
      · have hk := hfill.keepsUncommitted (g := g) hlt
        exact ⟨hk.grows, hk.log⟩
    · exact Or.inr herr
  · rw [if_neg hmeet]
    have hne : g.position + 1 ≠ b.delivered := by
      intro hc
      exact hmeet (by rw [hmoved, hc, h.filled])
    exact Or.inl ⟨_, rfl,
      { filled := h.filled
        head := hmoved
        lastcommit := h.lastcommit
        uncommitted := by show g.committed ≤ g.position + 1; omega
        ahead := by show g.position + 1 < b.delivered; omega
        window := hwin
        holds := h.holds
        fetched := h.fetched
        inFlight := hflight }, .of_log_eq rfl rfl⟩

/-- Going back to an uncommitted position takes back what was fetched from there on. -/
theorem backup_spec {b : TraceBuffer Pc Data} {g : Stream} (h : Tracks trace b g) {p : Nat}
    (hc : g.committed ≤ p) (hp : p < b.delivered) :
    Tracks trace (b.backup (slot bufSize p))
      { g with position := p, inFlight := g.inFlight.filter (· < p) } where
  filled := h.filled
  head := rfl
  lastcommit := h.lastcommit
  uncommitted := hc
  ahead := hp
  window := h.window
  holds := h.holds
  fetched := h.fetched
  inFlight := by
    intro q hq
    simpa using (List.mem_filter.mp hq).2

/-- The loop stops before its fuel: it cannot pass a whole ring of uncommitted instructions. -/
theorem skipLoop_spec : ∀ (fuel : Nat) (b : TraceBuffer Pc Data) (g : Stream) (skipped : Nat),
    Tracks trace b g → g.committed + bufSize ≤ g.position + fuel →
    (∃ b' k, b.skipLoop trace fuel skipped = .ok (b', skipped + k) ∧ Tracks trace b' (g.moved k) ∧
      KeepsUncommitted g b b') ∨ b.skipLoop trace fuel skipped = .error overrun := by
  intro fuel
  induction fuel with
  | zero =>
      intro b g skipped h hfuel
      have := h.ahead
      have := h.window
      omega
  | succ fuel ih =>
      intro b g skipped h hfuel
      rw [skipLoop]
      by_cases hw : b.isWrongpath = true
      · rw [if_pos hw]
        rcases nextInstr_spec h with ⟨b₁, hb₁, ht₁, hk₁⟩ | herr
        · rw [hb₁]
          show (∃ b' k, b₁.skipLoop trace fuel (skipped + 1) = .ok (b', skipped + k) ∧ _ ∧ _) ∨
            b₁.skipLoop trace fuel (skipped + 1) = _
          rcases ih b₁ (g.moved 1) (skipped + 1) ht₁
            (by simp only [Stream.moved_committed, Stream.moved_position]; omega)
            with ⟨b₂, k, hb₂, ht₂, hk₂⟩ | herr
          · refine Or.inl ⟨b₂, 1 + k, ?_, ?_, hk₁.trans hk₂ rfl⟩
            · rw [hb₂, Nat.add_assoc]
            · rw [← Stream.moved_moved]; exact ht₂
          · exact Or.inr herr
        · rw [herr]
          exact Or.inr rfl
      · rw [if_neg hw]
        exact Or.inl ⟨b, 0, rfl, h, .of_log_eq rfl rfl⟩

theorem skipOverWrongpath_spec [DecidableEq Pc] {b : TraceBuffer Pc Data} {g : Stream}
    (h : Tracks trace b g) (pc : Pc) :
    (∃ b' k, b.skipOverWrongpath trace pc = .ok (b', k) ∧ Tracks trace b' (g.moved k) ∧
      KeepsUncommitted g b b') ∨ b.skipOverWrongpath trace pc = .error overrun := by
  have hunc := h.uncommitted
  unfold skipOverWrongpath
  by_cases hw : b.isWrongpath = true
  · rw [if_neg (by simp [hw])]
    rcases skipLoop_spec bufSize b g 0 h (by omega) with ⟨b₁, k, hb₁, ht₁, hk₁⟩ | herr
    · rw [hb₁]
      simp only [Nat.zero_add, bind, Except.bind]
      by_cases hfound : b₁.virtualPc = pc ∨ b₁.eof = true
      · rw [if_pos hfound]
        exact Or.inl ⟨b₁, k, rfl, ht₁, hk₁⟩
      · rw [if_neg hfound]
        -- The original instruction is uncommitted, so the skip has not filled over it.
        have hback := backup_spec ht₁ (p := g.position) hunc
          (Nat.lt_of_le_of_lt (Nat.le_add_right _ _) ht₁.ahead)
        have hsame : g.inFlight.filter (· < g.position) = g.inFlight :=
          List.filter_eq_self.mpr fun p hp => by simpa using h.inFlight p hp
        refine Or.inl ⟨_, 0, rfl, ?_, ⟨hk₁.grows, hk₁.log⟩⟩
        rw [show b.getIdentifier = slot bufSize g.position from h.head]
        rw [show ({ g.moved k with position := g.position, inFlight := _ } : Stream) = g.moved 0
          from congrArg (fun l => { g with inFlight := l }) hsame] at hback
        exact hback
    · rw [herr]
      exact Or.inr rfl
  · rw [if_pos (by simp [hw])]
    exact Or.inl ⟨b, 0, rfl, h, .of_log_eq rfl rfl⟩

/-- The commit loop from position `q` stops at `p`, if all it passes may be passed over. -/
theorem commitLoop_spec {p : Nat} :
    ∀ (fuel q : Nat) (b : TraceBuffer Pc Data) (skippedCount : Nat),
      b.lastcommitIndex = slot bufSize q → q ≤ p → p < q + fuel → p < q + bufSize →
      (∀ r, q ≤ r → r < p → (b.buffer (slot bufSize r)).skippable = true) →
      b.commitLoop (slot bufSize p) fuel skippedCount =
        .ok ({ b with lastcommitIndex := slot bufSize p }, skippedCount + (p - q)) := by
  intro fuel
  induction fuel with
  | zero => intro q b skippedCount _ hq hfuel _ _; omega
  | succ fuel ih =>
      intro q b skippedCount hl hq hfuel hroom hskip
      rw [commitLoop]
      by_cases hqp : q = p
      · subst hqp
        rw [if_pos hl, Nat.sub_self, ← hl]
        rfl
      · have hne : slot bufSize q ≠ slot bufSize p := slot_ne hqp (by omega) (by omega)
        have hpass := hskip q (Nat.le_refl _) (by omega)
        unfold TraceInst.skippable at hpass
        rw [if_neg (by rw [hl]; exact hne), hl]
        simp only [hpass, if_true]
        have hrest := ih (q + 1) { b with lastcommitIndex := next (slot bufSize q) }
          (skippedCount + 1) (next_slot q) (by omega) (by omega) (by omega)
          (fun r hr hrp => hskip r (by omega) hrp)
        rw [hrest, show skippedCount + 1 + (p - (q + 1)) = skippedCount + (p - q) by omega]

theorem commitInstr_spec {b : TraceBuffer Pc Data} {g : Stream} (h : Tracks trace b g) {p : Nat}
    (hc : g.committed ≤ p) (hp : p ∈ g.inFlight)
    (hskip : ∀ r, g.committed ≤ r → r < p → (trace r).skippable = true) :
    ∃ b', b.commitInstr (slot bufSize p) = .ok (b', p - g.committed) ∧
      Tracks trace b' { g with committed := p + 1 } ∧ KeepsUncommitted g b b' := by
  have hn : bufSize = 2048 := rfl
  have h1 := h.ahead
  have h2 := h.window
  have h3 := h.inFlight p hp
  have hstart : next b.lastcommitIndex = slot bufSize g.committed := by
    rw [h.lastcommit, next_slot, show g.committed + (bufSize - 1) + 1 = g.committed + bufSize by
      omega, slot_add_size]
  have hloop := commitLoop_spec (p := p) bufSize g.committed
    { b with lastcommitIndex := next b.lastcommitIndex } 0 hstart hc (by omega) (by omega)
    (fun r hr hrp => by
      show (b.buffer (slot bufSize r)).skippable = true
      rw [h.holds r (by omega) (by omega)]
      exact hskip r hr hrp)
  rw [Nat.zero_add] at hloop
  refine ⟨_, hloop, ?_, .of_log_eq rfl rfl⟩
  exact
    { filled := h.filled
      head := h.head
      lastcommit := by
        show slot bufSize p = slot bufSize (p + 1 + (bufSize - 1))
        rw [show p + 1 + (bufSize - 1) = p + bufSize by omega, slot_add_size]
      uncommitted := h3
      ahead := h1
      window := by show b.delivered < p + 1 + bufSize; omega
      holds := h.holds
      fetched := h.fetched
      inFlight := h.inFlight }

end TraceBuffer

/-! ### Runs -/

/-- What a feeder calls; `backup` and `commitInstr` are told the position `id` stands for. -/
inductive BufferOp (Pc : Type)
  | nextInstr
  | skipOverWrongpath (lookaheadPc : Pc)
  | backup (p : Nat)
  | commitInstr (p : Nat)

/-- When a feeder makes the call. -/
def BufferOp.Allowed (trace : Nat → TraceInst Pc Data) (g : Stream) : BufferOp Pc → Prop
  | nextInstr => True
  | skipOverWrongpath _ => True
  | backup p => p ∈ g.fetched ∧ g.committed ≤ p
  | commitInstr p => p ∈ g.inFlight ∧ g.committed ≤ p ∧
      ∀ r, g.committed ≤ r → r < p → (trace r).skippable = true

/-- The call, with the stream's own account of it. -/
def BufferOp.exec [DecidableEq Pc] (trace : Nat → TraceInst Pc Data)
    (s : TraceBuffer Pc Data × Stream) :
    BufferOp Pc → Except String (TraceBuffer Pc Data × Stream)
  | nextInstr => do
      let b ← s.1.nextInstr trace
      let p := s.2.position
      .ok (b, { s.2.moved 1 with fetched := p :: s.2.fetched, inFlight := p :: s.2.inFlight })
  | skipOverWrongpath pc => do
      let (b, skipped) ← s.1.skipOverWrongpath trace pc
      .ok (b, s.2.moved skipped)
  | backup p =>
      .ok (s.1.backup (slot bufSize p),
        { s.2 with position := p, inFlight := s.2.inFlight.filter (· < p) })
  | commitInstr p => do
      let (b, _) ← s.1.commitInstr (slot bufSize p)
      .ok (b, { s.2 with committed := p + 1 })

open TraceBuffer in
/-- An allowed call keeps the invariant and the uncommitted slots, or is the overrun. -/
theorem exec_spec [DecidableEq Pc] {s : TraceBuffer Pc Data × Stream} {op : BufferOp Pc}
    (h : Tracks trace s.1 s.2) (hop : op.Allowed trace s.2) :
    (∃ t, op.exec trace s = .ok t ∧ Tracks trace t.1 t.2 ∧ KeepsUncommitted s.2 s.1 t.1) ∨
      op.exec trace s = .error overrun := by
  cases op with
  | nextInstr =>
      rcases nextInstr_spec h with ⟨b, hb, ht, hk⟩ | herr
      · refine Or.inl ⟨_, by rw [BufferOp.exec, hb]; rfl, ?_, hk⟩
        have hpos := ht.ahead
        rw [Stream.moved_position] at hpos
        exact { ht with
          fetched := by
            intro p hp
            rcases List.mem_cons.mp hp with rfl | hp
            · show s.2.position < b.delivered; omega
            · exact ht.fetched p hp
          inFlight := by
            intro p hp
            rcases List.mem_cons.mp hp with rfl | hp
            · exact Nat.lt_succ_self _
            · exact ht.inFlight p hp }
      · exact Or.inr (by rw [BufferOp.exec, herr]; rfl)
  | skipOverWrongpath pc =>
      rcases skipOverWrongpath_spec h pc with ⟨b, k, hb, ht, hk⟩ | herr
      · exact Or.inl ⟨_, by rw [BufferOp.exec, hb]; rfl, ht, hk⟩
      · exact Or.inr (by rw [BufferOp.exec, herr]; rfl)
  | backup p =>
      exact Or.inl ⟨_, rfl, backup_spec h hop.2 (h.fetched p hop.1), .of_log_eq rfl rfl⟩
  | commitInstr p =>
      obtain ⟨b, hb, ht, hk⟩ := commitInstr_spec h hop.2.1 hop.1 hop.2.2
      exact Or.inl ⟨_, by rw [BufferOp.exec, hb]; rfl, ht, hk⟩

/-- The buffer after `Init`, over whatever its slots held. -/
def BufferStart (trace : Nat → TraceInst Pc Data) (s : TraceBuffer Pc Data × Stream) : Prop :=
  ∃ slots, TraceBuffer.init trace slots = .ok s.1 ∧ s.2 = ⟨0, 0, [], []⟩

/-- One call that fails no assertion. -/
def BufferStep [DecidableEq Pc] (trace : Nat → TraceInst Pc Data)
    (s t : TraceBuffer Pc Data × Stream) : Prop :=
  ∃ op : BufferOp Pc, op.Allowed trace s.2 ∧ op.exec trace s = .ok t

theorem tracks_of_reaches [DecidableEq Pc] {s : TraceBuffer Pc Data × Stream}
    (h : Reaches (BufferStart trace) (BufferStep trace) s) : s.1.Tracks trace s.2 := by
  refine h.invariant (P := fun s => s.1.Tracks trace s.2) ?_ ?_
  · rintro s ⟨slots, hinit, hs⟩
    obtain ⟨b, hb, -, ht⟩ := @TraceBuffer.init_spec _ _ trace slots
    rw [hb] at hinit
    cases hinit
    rw [hs]
    exact ht
  · rintro s t hs ⟨op, hop, hexec⟩
    rcases exec_spec hs hop with ⟨t', ht', htr, -⟩ | herr
    · rw [ht'] at hexec
      cases hexec
      exact htr
    · rw [herr] at hexec
      cases hexec

/--
**The trace buffer replays its stream.**

In every state a run reaches, the head holds the instruction at the stream's logical
position, every slot of an uncommitted instruction holds that instruction, and backing
up to one that was fetched finds it there.  From such a state a call fails on no
assertion but the overrun, and `w`, the slots it fills, has none of an uncommitted
instruction among them.
-/
theorem traceBuffer_replays [DecidableEq Pc] {s : TraceBuffer Pc Data × Stream}
    (h : Reaches (BufferStart trace) (BufferStep trace) s) :
    s.1.getInst = trace s.2.position ∧
    (∀ p, s.2.committed ≤ p → p < s.1.delivered → s.1.buffer (slot bufSize p) = trace p) ∧
    (∀ p ∈ s.2.fetched, s.2.committed ≤ p → (s.1.backup (slot bufSize p)).getInst = trace p) ∧
    ∀ op : BufferOp Pc, op.Allowed trace s.2 →
      (op.exec trace s = .error "Trace buffer overrun on fill") ∨
      ∃ t w, op.exec trace s = .ok t ∧ t.1.fillLog = w ++ s.1.fillLog ∧
        ∀ p, s.2.committed ≤ p → p < s.1.delivered → slot bufSize p ∉ w := by
  have ht := tracks_of_reaches h
  refine ⟨ht.getInst, ?_, ?_, ?_⟩
  · intro p hc hp
    have := ht.window
    exact ht.holds p (by omega) hp
  · intro p hp hc
    exact (TraceBuffer.backup_spec ht hc (ht.fetched p hp)).getInst
  · intro op hop
    rcases exec_spec ht hop with ⟨t, hexec, -, hk⟩ | herr
    · obtain ⟨w, hw, hs⟩ := hk.log
      exact Or.inr ⟨t, w, hexec, hw, hs⟩
    · exact Or.inl herr

/-- A stream that names each of its instructions by its position. -/
def countingTrace (p : Nat) : TraceInst Nat Unit := ⟨p, false, false, false, false, ()⟩

/-- The first instruction is fetched, killed, and there to be fetched again. -/
theorem traceBuffer_replays_first :
    ∃ s : TraceBuffer Nat Unit × Stream,
      s.2 = ⟨0, 0, [0], []⟩ ∧ s.1.getInst = countingTrace 0 := by
  have hn : bufSize = 2048 := rfl
  obtain ⟨b, hb, hd, ht⟩ := @TraceBuffer.init_spec _ _ countingTrace fun _ => countingTrace 0
  have hnext : BufferOp.nextInstr.exec countingTrace (b, ⟨0, 0, [], []⟩) =
      .ok ({ b with headIndex := next b.headIndex }, ⟨1, 0, [0], [0]⟩) := by
    have hne : next b.headIndex ≠ b.filledIndex := by
      rw [ht.head, ht.filled, next_slot, hd]
      show slot bufSize 1 ≠ slot bufSize (bufSize - 1)
      exact slot_ne (by omega) (by omega) (by omega)
    simp only [BufferOp.exec, TraceBuffer.nextInstr, if_neg hne]
    rfl
  have hstart : Reaches (BufferStart countingTrace) (BufferStep countingTrace)
      (b, ⟨0, 0, [], []⟩) := .start ⟨_, hb, rfl⟩
  have hfetched := Reaches.step hstart ⟨.nextInstr, trivial, hnext⟩
  have hkilled := Reaches.step hfetched ⟨.backup 0,
    ⟨List.mem_singleton.mpr rfl, Nat.le_refl 0⟩, rfl⟩
  exact ⟨_, rfl, (traceBuffer_replays hkilled).1⟩

end AsimFeeder.Trace
