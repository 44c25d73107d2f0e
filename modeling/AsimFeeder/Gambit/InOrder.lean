/-
In-order commit from the refeed buffer (`refeed_buffer.cpp`, and `Refeed`,
`ConvertCorrectPathSpeed` and `Commit` of `gambit_feeder.cpp`).

Not every NOP and long immediate is committed, so `removehead(Uid)` passes over the entries
with the flags `nop` and `longImm` in front of the one that it is called for.  The flags are
those of a slot.  `set_nop(true)` and `set_longImm(true)` set them before `add` fills the
slot at the tail, and nothing clears them again.  Whether they say something about the
instruction in the slot depends on what was there before.

The `k`-th entry of the queue is the `k`-th slot behind the head.
-/
import AsimFeeder.Lib.Runs
import AsimFeeder.Gambit.RefeedRuns

namespace AsimFeeder.Gambit.InOrder

open AsimFeeder.Lib FeederQueue

variable {n : Nat} [NeZero n] {Data : Type}

/-- What an instruction decodes as. -/
structure Decoder (Data : Type) where
  IsNOP : Data → Bool
  IsTypeL : Data → Bool

def Decoder.skippable (d : Decoder Data) (data : Data) : Bool := d.IsNOP data || d.IsTypeL data

def flagged (i : InstructionFeedInfo Data) : Bool := i.nop || i.longImm

/-- The `k`-th entry from the head on. -/
def entry (q : FeederQueue n Data) (k : Nat) : InstructionFeedInfo Data :=
  q.instructionBuffer (slot n (q.head.val + k))

/-! ### How the feeder uses the queue -/

/-- An instruction on the correct path. -/
def feed (q : FeederQueue n Data) (data : Data) (uid : UInt64) (isNop isTypeL : Bool) :
    Except String (FeederQueue n Data) :=
  let q := if isNop then q.setNop true else q
  let q := if isTypeL then q.setLongImm true else q
  q.add data uid

inductive Call (Data : Type)
  | feed (data : Data) (uid : UInt64) (isNop isTypeL : Bool)
  | setMispecPt (uid : UInt64) (killMe : Bool)
  | refeed (newUid : UInt64)
  | removehead
  | removeheadUid (uid : UInt64)
deriving DecidableEq

variable (d : Decoder Data) (q : FeederQueue n Data)

def exec : Call Data → Except String (FeederQueue n Data)
  | .feed data uid isNop isTypeL => feed q data uid isNop isTypeL
  | .setMispecPt uid killMe => .ok (q.setMispecPt uid killMe).1
  | .refeed newUid =>
      let data := (q.instructionBuffer q.mispeculationPt).data
      (q.refeed (d.IsNOP data) (d.IsTypeL data) newUid).map Prod.fst
  | .removehead => q.removehead
  | .removeheadUid uid => q.removeheadUid uid

/-- The flags are set for a NOP and for a long immediate only. -/
def legal (d : Decoder Data) (_ : FeederQueue n Data) : Call Data → Bool
  | .feed data _ isNop isTypeL => (!isNop || d.IsNOP data) && (!isTypeL || d.IsTypeL data)
  | _ => true

/-- And no other instruction is put where a flag is still set. -/
def careful (d : Decoder Data) (q : FeederQueue n Data) (call : Call Data) : Bool :=
  legal d q call &&
    match call with
    | .feed data _ _ _ => d.skippable data || !flagged (q.instructionBuffer q.tail)
    | _ => true

def Start (q : FeederQueue n Data) : Prop := ∃ uid data, q = .empty uid data

/-- One call that raises no error. -/
def Step (ok : FeederQueue n Data → Call Data → Bool) (q q' : FeederQueue n Data) : Prop :=
  ∃ call, ok q call = true ∧ exec d q call = .ok q'

/-- What is passed over are NOPs and long immediates, and anything else is out of order. -/
structure Commits : Prop where
  skips : ∀ uid q', q.removeheadUid uid = .ok q' → ∃ k < q.size, (entry q k).uid = uid ∧
    (∀ j < k, (entry q j).uid ≠ uid ∧ d.skippable (entry q j).data = true) ∧
      q'.size = q.size - (k + 1) ∧ q'.head = slot n (q.head.val + (k + 1))
  refuses : ∀ uid j k, j < k → k < q.size → (entry q k).uid = uid →
    (∀ i < k, (entry q i).uid ≠ uid) → d.skippable (entry q j).data = false →
      q.removeheadUid uid = .error uidMismatch

/-! ### The flags of the entries -/

/-- The flags of the entries are right where they are set. -/
structure Sound : Prop where
  room : q.size < n
  tail : q.tail = slot n (q.head.val + q.size)
  valid : ∀ k < q.size, (entry q k).valid = true
  right : ∀ k < q.size, flagged (entry q k) = true → d.skippable (entry q k).data = true

variable {d : Decoder Data} {q : FeederQueue n Data}

theorem entry_zero : entry q 0 = q.instructionBuffer q.head := by
  unfold entry
  rw [Nat.add_zero, slot_val]

/-- What a change of an entry that leaves its instruction does to the queue. -/
theorem Sound.modify (h : Sound d q) (i : Fin n)
    {f : InstructionFeedInfo Data → InstructionFeedInfo Data}
    (hvalid : ∀ e, (f e).valid = e.valid) (hdata : ∀ e, (f e).data = e.data)
    (hright : flagged (f (q.instructionBuffer i)) = true →
      flagged (q.instructionBuffer i) = true ∨
        d.skippable (q.instructionBuffer i).data = true) : Sound d (q.modify i f) := by
  refine ⟨h.room, h.tail, fun k hk => ?_, fun k hk => ?_⟩
  · show (Function.update q.instructionBuffer i _ (slot n (q.head.val + k))).valid = true
    have hentry := h.valid k hk
    by_cases hi : slot n (q.head.val + k) = i
    · subst hi
      rw [Function.update_self, hvalid]
      exact hentry
    · rw [Function.update_of_ne hi]
      exact hentry
  · show flagged (Function.update q.instructionBuffer i _ (slot n (q.head.val + k))) = true →
      d.skippable (Function.update q.instructionBuffer i _ (slot n (q.head.val + k))).data = true
    have hentry := h.right k hk
    by_cases hi : slot n (q.head.val + k) = i
    · subst hi
      rw [Function.update_self, hdata]
      intro hflag
      exact (hright hflag).elim hentry id
    · rw [Function.update_of_ne hi]
      exact hentry

/-- Only the ring, the head, the tail and the size count. -/
theorem Sound.congr {q' : FeederQueue n Data} (h : Sound d q)
    (hbuffer : q'.instructionBuffer = q.instructionBuffer) (hhead : q'.head = q.head)
    (htail : q'.tail = q.tail) (hsize : q'.size = q.size) : Sound d q' := by
  have hentry : entry q' = entry q := by
    unfold entry
    rw [hbuffer, hhead]
  refine ⟨hsize ▸ h.room, ?_, ?_, ?_⟩
  · rw [htail, hhead, hsize]
    exact h.tail
  · rw [hsize, hentry]
    exact h.valid
  · rw [hsize, hentry]
    exact h.right

/-! ### Removing -/

theorem entry_dropHead {j : Nat} (hj : j + 1 < n) : entry q.dropHead j = entry q (j + 1) := by
  have hhead : q.dropHead.head = slot n (q.head.val + 1) := by
    show next q.head = _
    rw [← next_slot, slot_val]
  have hother : slot n (q.head.val + (j + 1)) ≠ q.head := by
    intro heq
    rw [← slot_val q.head, slot_val_add] at heq
    have hpos := slot_inj heq (by omega) (by omega)
    omega
  unfold entry
  rw [hhead, slot_val_add, Nat.add_assoc, Nat.add_comm 1 j]
  exact Function.update_of_ne hother ..

theorem Sound.dropHead (h : Sound d q) (hpos : q.size ≠ 0) : Sound d q.dropHead := by
  have hroom := h.room
  have hsize : q.dropHead.size = q.size - 1 := rfl
  refine ⟨by omega, ?_, fun k hk => ?_, fun k hk => ?_⟩
  · show q.tail = slot n ((next q.head).val + (q.size - 1))
    rw [h.tail, ← slot_val q.head, next_slot, slot_val_add, slot_val_add]
    congr 1
    omega
  · rw [entry_dropHead (by omega)]
    exact h.valid (k + 1) (by omega)
  · rw [entry_dropHead (by omega)]
    exact h.right (k + 1) (by omega)

/-- `m` entries are passed over, up to one that is not to be passed over. -/
structure Passed (uid : UInt64) (q q' : FeederQueue n Data) (m : Nat) : Prop where
  within : m ≤ q.size
  size : q'.size = q.size - m
  head : q'.head = slot n (q.head.val + m)
  entries : ∀ j, m + j < q.size → entry q' j = entry q (m + j)
  passed : ∀ j < m, (entry q j).uid ≠ uid ∧ flagged (entry q j) = true
  stops : m < q.size → (entry q m).uid = uid ∨ flagged (entry q m) = false

/-- By induction on the fuel; each pass removes one entry. -/
theorem Sound.dropNops {fuel : Nat} (h : Sound d q) (uid : UInt64) (hfuel : q.size < fuel) :
    Sound d (q.dropNops uid fuel) ∧ ∃ m, Passed uid q (q.dropNops uid fuel) m := by
  induction fuel generalizing q with
  | zero => cases hfuel
  | succ fuel ih =>
      have hroom := h.room
      rw [FeederQueue.dropNops]
      by_cases hdrop : uid ≠ (q.instructionBuffer q.head).uid ∧
          ((q.instructionBuffer q.head).nop || (q.instructionBuffer q.head).longImm) = true ∧
            q.size ≠ 0
      · rw [if_pos hdrop]
        obtain ⟨huid, hflag, hpos⟩ := hdrop
        have hsize : q.dropHead.size = q.size - 1 := rfl
        obtain ⟨hsound, m, hpassed⟩ := ih (h.dropHead hpos) (by omega)
        have hwithin := hpassed.within
        refine ⟨hsound, m + 1, by omega, ?_, ?_, fun j hj => ?_, fun j hj => ?_, fun hm => ?_⟩
        · rw [hpassed.size]
          omega
        · rw [hpassed.head]
          show slot n ((next q.head).val + m) = _
          rw [← slot_val q.head, next_slot, slot_val_add, slot_val_add]
          congr 1
          omega
        · rw [hpassed.entries j (by omega), entry_dropHead (by omega)]
          congr 1
          omega
        · cases j with
          | zero =>
              rw [entry_zero]
              exact ⟨huid.symm, hflag⟩
          | succ j =>
              have hbefore := hpassed.passed j (by omega)
              rw [entry_dropHead (by omega)] at hbefore
              exact hbefore
        · have hstop := hpassed.stops (by omega)
          rw [entry_dropHead (by omega)] at hstop
          exact hstop
      · rw [if_neg hdrop]
        refine ⟨h, 0, Nat.zero_le _, rfl, ?_, fun j _ => ?_, fun j hj => ?_, fun hpos => ?_⟩
        · rw [Nat.add_zero, slot_val]
        · rw [Nat.zero_add]
        · cases hj
        · rw [entry_zero]
          by_contra hnot
          obtain ⟨huid, hflag⟩ := not_or.mp hnot
          exact hdrop ⟨Ne.symm huid, Bool.not_eq_false _ ▸ hflag, by omega⟩

/-- What is behind the entries that were passed over decides. -/
theorem Sound.removeheadUid (h : Sound d q) (uid : UInt64) :
    ∃ q₁ m, Sound d q₁ ∧ Passed uid q q₁ m ∧ q.removeheadUid uid =
      if m = q.size then .error emptyOrInvalid
      else if uid ≠ (entry q m).uid then .error uidMismatch else .ok q₁.dropHead := by
  obtain ⟨hsound, m, hpassed⟩ := h.dropNops uid (Nat.lt_succ_self q.size)
  refine ⟨_, m, hsound, hpassed, ?_⟩
  unfold FeederQueue.removeheadUid
  have hwithin := hpassed.within
  have hsize := hpassed.size
  have hentries := hpassed.entries
  generalize q.dropNops uid (q.size + 1) = q₁ at *
  dsimp only
  by_cases hm : m = q.size
  · rw [if_pos hm, if_pos (.inl (by omega))]
  · have hentry := hentries 0 (by omega)
    rw [entry_zero, Nat.add_zero] at hentry
    have hvalid := hsound.valid 0 (by omega)
    rw [entry_zero] at hvalid
    have hok : ¬ (q₁.size = 0 ∨ (q₁.instructionBuffer q₁.head).valid = false) := by
      rw [hvalid]
      rintro (hzero | hfalse)
      · omega
      · cases hfalse
    rw [if_neg hm, if_neg hok, hentry]
    rfl

/-- **While the flags are right, only NOPs and long immediates are passed over.** -/
theorem Sound.commits (h : Sound d q) : Commits d q := by
  refine ⟨fun uid q' hok => ?_, fun uid j k hjk hk huid hfirst hskip => ?_⟩
  · obtain ⟨q₁, m, -, hpassed, hcommit⟩ := h.removeheadUid uid
    have hwithin := hpassed.within
    rw [hcommit] at hok
    by_cases hm : m = q.size
    · rw [if_pos hm] at hok
      cases hok
    · rw [if_neg hm] at hok
      by_cases hother : uid ≠ (entry q m).uid
      · rw [if_pos hother] at hok
        cases hok
      · rw [if_neg hother] at hok
        cases hok
        refine ⟨m, by omega, (not_not.mp hother).symm, fun j hj => ?_, ?_, ?_⟩
        · obtain ⟨hne, hflag⟩ := hpassed.passed j hj
          exact ⟨hne, h.right j (by omega) hflag⟩
        · show q₁.size - 1 = _
          rw [hpassed.size]
          omega
        · show next q₁.head = _
          rw [hpassed.head, next_slot]
          rfl
  · obtain ⟨q₁, m, -, hpassed, hcommit⟩ := h.removeheadUid uid
    -- the entry that must not be passed over is not
    have hmj : m ≤ j := by
      by_contra hlt
      obtain ⟨-, hflag⟩ := hpassed.passed j (by omega)
      have hright := h.right j (by omega) hflag
      rw [hskip] at hright
      cases hright
    have hne : uid ≠ (entry q m).uid := (hfirst m (by omega)).symm
    rw [hcommit, if_neg (by omega), if_pos hne]

/-! ### The other calls -/

omit [NeZero n] in
/-- The entry that `add` fills keeps the flags of its slot. -/
theorem feed_eq (data : Data) (uid : UInt64) (isNop isTypeL : Bool) :
    feed q data uid isNop isTypeL =
      if next q.tail = q.head then .error "Gambit_FEEDER buffer queue is full"
      else .ok { q.modify q.tail fun i =>
        { i with nop := i.nop || isNop, longImm := i.longImm || isTypeL, data, uid, valid := true }
          with size := q.size + 1, tail := next q.tail } := by
  cases isNop <;> cases isTypeL <;>
    simp [feed, setNop, setLongImm, add, FeederQueue.modify]

theorem Sound.feed {q' : FeederQueue n Data} {data : Data} {uid : UInt64} {isNop isTypeL : Bool}
    (h : Sound d q) (hok : careful d q (.feed data uid isNop isTypeL) = true)
    (hfeed : feed q data uid isNop isTypeL = .ok q') : Sound d q' := by
  rw [feed_eq] at hfeed
  by_cases hfull : next q.tail = q.head
  · rw [if_pos hfull] at hfeed
    cases hfeed
  · rw [if_neg hfull] at hfeed
    cases hfeed
    have hroom := h.room
    have htail : next q.tail = slot n (q.head.val + (q.size + 1)) := by
      rw [h.tail, next_slot, Nat.add_assoc]
    have hless : q.size + 1 < n := by
      by_contra hge
      have hn : q.size + 1 = n := by omega
      apply hfull
      rw [htail, hn, slot_add_size, slot_val]
    have hother : ∀ k < q.size, slot n (q.head.val + k) ≠ q.tail := by
      intro k hk
      rw [h.tail]
      exact slot_ne (by omega) (by omega) (by omega)
    refine ⟨hless, htail, fun k hk => ?_, fun k hk => ?_⟩
    · show (Function.update q.instructionBuffer q.tail _ (slot n (q.head.val + k))).valid = true
      rcases Nat.lt_succ_iff_lt_or_eq.mp hk with hlt | rfl
      · rw [Function.update_of_ne (hother k hlt)]
        exact h.valid k hlt
      · rw [← h.tail, Function.update_self]
    · show flagged (Function.update q.instructionBuffer q.tail _ (slot n (q.head.val + k))) = true →
        d.skippable
          (Function.update q.instructionBuffer q.tail _ (slot n (q.head.val + k))).data = true
      rcases Nat.lt_succ_iff_lt_or_eq.mp hk with hlt | rfl
      · rw [Function.update_of_ne (hother k hlt)]
        exact h.right k hlt
      · rw [← h.tail, Function.update_self]
        intro hflag
        simp only [careful, legal, flagged, Decoder.skippable, Bool.and_eq_true, Bool.or_eq_true,
          Bool.not_eq_true', Bool.or_eq_false_iff] at hok hflag ⊢
        grind

theorem Sound.setMispecPt (h : Sound d q) (uid : UInt64) (killMe : Bool) :
    Sound d (q.setMispecPt uid killMe).1 := by
  unfold FeederQueue.setMispecPt
  dsimp only
  split_ifs <;> exact h.congr rfl rfl rfl rfl

/-- A refeed notes what the instruction in the slot decodes as. -/
theorem Sound.refeed {q' : FeederQueue n Data} {newUid : UInt64} (h : Sound d q)
    (hrefeed : exec d q (.refeed newUid) = .ok q') : Sound d q' := by
  have hnoted : Sound d (q.noteFlags
      (d.IsNOP (q.instructionBuffer q.mispeculationPt).data)
      (d.IsTypeL (q.instructionBuffer q.mispeculationPt).data)) := by
    refine h.modify q.mispeculationPt (fun _ => rfl) (fun _ => rfl) fun hflag => ?_
    simp only [flagged, Decoder.skippable, Bool.or_eq_true] at hflag ⊢
    tauto
  dsimp only [exec] at hrefeed
  unfold FeederQueue.refeed at hrefeed
  cases hget : q.getmispec with
  | none =>
      rw [hget] at hrefeed
      cases hrefeed
  | some inst =>
      rw [hget] at hrefeed
      generalize q.noteFlags _ _ = noted at hnoted hrefeed
      unfold rename at hrefeed
      dsimp only at hrefeed
      split at hrefeed
      · cases hrefeed
      · cases hrefeed
        have hrenamed : Sound d (noted.modify noted.mispeculationPt fun i =>
            { i with uid := newUid }) :=
          hnoted.modify _ (fun _ => rfl) (fun _ => rfl) fun hflag => .inl hflag
        unfold incrementMispecPt
        dsimp only
        split <;> exact hrenamed.congr rfl rfl rfl rfl

/-- **A call that is careful keeps the flags right.** -/
theorem Sound.exec {q' : FeederQueue n Data} {call : Call Data} (h : Sound d q)
    (hok : careful d q call = true) (hexec : exec d q call = .ok q') : Sound d q' := by
  cases call with
  | feed data uid isNop isTypeL => exact h.feed hok hexec
  | setMispecPt uid killMe =>
      cases hexec
      exact h.setMispecPt uid killMe
  | refeed newUid => exact h.refeed hexec
  | removehead =>
      have hremove : q.removehead = .ok q' := hexec
      unfold FeederQueue.removehead at hremove
      by_cases hnone : q.size = 0 ∨ (q.instructionBuffer q.head).valid = false
      · rw [if_pos hnone] at hremove
        cases hremove
      · rw [if_neg hnone] at hremove
        cases hremove
        exact h.dropHead fun hzero => hnone (.inl hzero)
  | removeheadUid uid =>
      have hremove : q.removeheadUid uid = .ok q' := hexec
      obtain ⟨q₁, m, hsound, hpassed, hcommit⟩ := h.removeheadUid uid
      have hwithin := hpassed.within
      rw [hcommit] at hremove
      by_cases hm : m = q.size
      · rw [if_pos hm] at hremove
        cases hremove
      · rw [if_neg hm] at hremove
        by_cases hother : uid ≠ (entry q m).uid
        · rw [if_pos hother] at hremove
          cases hremove
        · rw [if_neg hother] at hremove
          cases hremove
          have hsize := hpassed.size
          exact hsound.dropHead (by omega)

/-! ### Runs -/

theorem sound_empty (uid : Fin n → UInt64) (data : Fin n → Data) : Sound d (empty uid data) := by
  refine ⟨Nat.pos_of_ne_zero (NeZero.ne n), ?_, fun k hk => ?_, fun k hk => ?_⟩
  · show slot n 0 = slot n ((slot n 0).val + 0)
    rw [slot_val_add]
  · cases hk
  · cases hk

/-- **As long as no instruction is put where a flag is still set, in-order commit drops
NOPs and long immediates only.** -/
theorem commits_of_careful (h : Reaches Start (Step d (careful d)) q) : Commits d q := by
  refine Sound.commits (h.invariant (P := Sound d) (fun q hq => ?_) fun q q' hq hstep => ?_)
  · obtain ⟨uid, data, rfl⟩ := hq
    exact sound_empty uid data
  · obtain ⟨call, hok, hexec⟩ := hstep
    exact hq.exec hok hexec

/-- 0 is a NOP, and 1 a long immediate. -/
def small : Decoder Nat := ⟨fun data => data == 0, fun data => data == 1⟩

theorem commits_of_careful_nop : ∃ q : FeederQueue 3 Nat, Commits small q ∧ q.size = 2 ∧
    (q.removeheadUid 2).toOption.map size = some 0 := by
  have hstart : Reaches Start (Step small (careful small))
      (.empty (fun _ => 0) fun _ => 0 : FeederQueue 3 Nat) := .start ⟨_, _, rfl⟩
  have hnop := hstart.step ⟨.feed 0 1 true false, rfl, rfl⟩
  have hreal := hnop.step ⟨.feed 5 2 false false, rfl, rfl⟩
  exact ⟨_, commits_of_careful hreal, rfl, rfl⟩

/-- **An instruction that is put where a NOP was before is dropped without an error.** -/
theorem not_always_commits : ¬ ∀ q : FeederQueue 3 Nat,
    Reaches Start (Step small (legal small)) q → Commits small q := by
  intro hall
  have hstart : Reaches Start (Step small (legal small))
      (.empty (fun _ => 0) fun _ => 0 : FeederQueue 3 Nat) := .start ⟨_, _, rfl⟩
  have hnop := hstart.step ⟨.feed 0 1 true false, rfl, rfl⟩
  have hgone := hnop.step ⟨.removehead, rfl, rfl⟩
  have hsecond := hgone.step ⟨.feed 5 2 false false, rfl, rfl⟩
  have hgone₂ := hsecond.step ⟨.removehead, rfl, rfl⟩
  have hthird := hgone₂.step ⟨.feed 6 3 false false, rfl, rfl⟩
  have hgone₃ := hthird.step ⟨.removehead, rfl, rfl⟩
  -- the ring is at its start again
  have hreal := hgone₃.step ⟨.feed 7 4 false false, rfl, rfl⟩
  have hlast := hreal.step ⟨.feed 8 5 false false, rfl, rfl⟩
  have hrefused := (hall _ hlast).refuses 5 0 1 (by decide) (by decide) rfl (by decide) rfl
  cases hrefused

end AsimFeeder.Gambit.InOrder
