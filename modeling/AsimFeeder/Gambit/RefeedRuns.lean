/-
The refeed buffer refeeds what was killed, once and in order.

Entries have positions: the `k`-th instruction ever added has position `k`, and lives in
slot `k mod n` until it is removed.  A call of `set_mispec_pt` opens a refeed, from the
position `start` it was asked for up to `stop`, where the queue ended then.  `delivered`
is what the refeed steps have handed out since, so the mispeculation point is at position
`start + delivered.length` while there are instructions left.

Nothing is added while instructions are left and nothing left is removed, which is why
the positions between the mispeculation point and the tail are those still to come.
-/
import Mathlib
import AsimFeeder.Lib.Runs
import AsimFeeder.Gambit.RefeedBuffer

namespace AsimFeeder.Gambit

open AsimFeeder.Lib

variable {n : Nat} [NeZero n] {Data : Type}

/-- What has happened to a queue, by positions. -/
structure QueueHistory (Data : Type) where
  removed : Nat
  added : Nat
  uid : Nat → UInt64
  data : Nat → Data
  start : Nat
  stop : Nat
  delivered : List Data

namespace QueueHistory

/-- The position the next refeed step hands out. -/
def cursor (g : QueueHistory Data) : Nat := g.start + g.delivered.length

/-- The entry at position `p` is in the queue with this uid. -/
def Holds (g : QueueHistory Data) (uid : UInt64) (p : Nat) : Prop :=
  g.removed ≤ p ∧ p < g.added ∧ g.uid p = uid

instance (g : QueueHistory Data) (uid : UInt64) : DecidablePred (g.Holds uid) :=
  fun p => inferInstanceAs (Decidable (g.removed ≤ p ∧ p < g.added ∧ g.uid p = uid))

/-- The position of the youngest entry with this uid. -/
def youngest (g : QueueHistory Data) (uid : UInt64) : Nat :=
  Nat.findGreatest (g.Holds uid) g.added

/-- The entry at `p` has been handed out, and not been taken back since. -/
def HandedOut (g : QueueHistory Data) (p : Nat) : Prop :=
  g.removed ≤ p ∧ p < g.added ∧ (g.cursor < g.stop → p < g.cursor)

theorem youngest_spec {g : QueueHistory Data} {uid : UInt64} {p : Nat} (h : g.Holds uid p) :
    g.Holds uid (g.youngest uid) ∧ ∀ r, g.youngest uid < r → r < g.added → g.uid r ≠ uid := by
  have hspec : g.Holds uid (g.youngest uid) := Nat.findGreatest_spec (Nat.le_of_lt h.2.1) h
  refine ⟨hspec, ?_⟩
  intro r hr hlt huid
  exact Nat.findGreatest_is_greatest hr (Nat.le_of_lt hlt)
    ⟨Nat.le_trans hspec.1 (Nat.le_of_lt hr), hlt, huid⟩

end QueueHistory

/-! ### The operations and their history -/

inductive RefeedOp (Data : Type)
  | setNop (nop : Bool)
  | setLongImm (li : Bool)
  | add (data : Data) (uid : UInt64)
  | setMispecPt (uid : UInt64) (killMe : Bool)
  | refeed (isNop isTypeL : Bool) (newUid : UInt64)
  | removehead
  | removeheadUid (uid : UInt64)

namespace RefeedOp

/-- When a feeder makes the call. -/
def Allowed (s : FeederQueue n Data × QueueHistory Data) : RefeedOp Data → Prop
  | setNop _ | setLongImm _ => True
  | add _ _ => s.1.mispInstLeft = false ∧ s.1.size < n - 1
  | setMispecPt uid _ => ∃ p, s.2.Holds uid p
  | refeed _ _ _ => s.1.mispInstLeft = true
  | removehead => s.2.HandedOut s.2.removed
  | removeheadUid uid => ∃ p, s.2.Holds uid p ∧ s.2.HandedOut p

/-- The call, and what the history makes of it. -/
def exec (s : FeederQueue n Data × QueueHistory Data) :
    RefeedOp Data → Except String (FeederQueue n Data × QueueHistory Data)
  | setNop nop => .ok (s.1.setNop nop, s.2)
  | setLongImm li => .ok (s.1.setLongImm li, s.2)
  | add data uid => do
      let q ← s.1.add data uid
      .ok (q, { s.2 with
        added := s.2.added + 1
        uid := Function.update s.2.uid s.2.added uid
        data := Function.update s.2.data s.2.added data })
  | setMispecPt uid killMe =>
      let p := s.2.youngest uid
      .ok ((s.1.setMispecPt uid killMe).1, { s.2 with
        start := if killMe then p else p + 1
        stop := s.2.added
        delivered := [] })
  | refeed isNop isTypeL newUid => do
      let (q, inst) ← s.1.refeed isNop isTypeL newUid
      .ok (q, { s.2 with
        uid := Function.update s.2.uid s.2.cursor newUid
        delivered := s.2.delivered ++ [inst.data] })
  | removehead => do
      let q ← s.1.removehead
      .ok (q, { s.2 with removed := s.2.removed + 1 })
  | removeheadUid uid => do
      let q ← s.1.removeheadUid uid
      .ok (q, { s.2 with removed := s.2.removed + (s.1.size - q.size) })

end RefeedOp

/-! ### The invariant -/

/-- A valid entry with this uid and this data. -/
def InstructionFeedInfo.Keeps (i : InstructionFeedInfo Data) (uid : UInt64) (data : Data) : Prop :=
  i.valid = true ∧ i.uid = uid ∧ i.data = data

namespace FeederQueue

/-- How the queue stands to the positions of its history. -/
structure Tracks (q : FeederQueue n Data) (g : QueueHistory Data) : Prop where
  head : q.head = slot n g.removed
  tail : q.tail = slot n g.added
  order : g.removed ≤ g.added
  room : g.added < g.removed + n
  size : q.size = g.added - g.removed
  entries : ∀ p, g.removed ≤ p → p < g.added →
    (q.instructionBuffer (slot n p)).Keeps (g.uid p) (g.data p)
  delivered : g.delivered = (List.range' g.start g.delivered.length).map g.data
  within : g.cursor ≤ g.stop
  stop : g.stop ≤ g.added
  left : q.mispInstLeft = true ↔ g.cursor < g.stop
  pending : g.cursor < g.stop →
    g.stop = g.added ∧ g.removed ≤ g.cursor ∧ q.mispeculationPt = slot n g.cursor

variable {q : FeederQueue n Data} {g : QueueHistory Data}

omit [NeZero n] in
@[simp] theorem modify_self (i : Fin n) (f : InstructionFeedInfo Data → InstructionFeedInfo Data) :
    (q.modify i f).instructionBuffer i = f (q.instructionBuffer i) := Function.update_self ..

omit [NeZero n] in
theorem modify_of_ne {i j : Fin n} (h : j ≠ i)
    (f : InstructionFeedInfo Data → InstructionFeedInfo Data) :
    (q.modify i f).instructionBuffer j = q.instructionBuffer j := Function.update_of_ne h ..

/-- The entry at the tail is in no queue position. -/
theorem Tracks.tail_ne (h : Tracks q g) {p : Nat} (h1 : g.removed ≤ p) (h2 : p < g.added) :
    slot n p ≠ q.tail := by
  have hroom := h.room
  rw [h.tail]
  exact slot_ne (by omega) (by omega) (by omega)

/-- Writing to the entry at the tail. -/
theorem Tracks.modifyTail (h : Tracks q g)
    (f : InstructionFeedInfo Data → InstructionFeedInfo Data) : Tracks (q.modify q.tail f) g :=
  { h with
    entries := by
      intro p h1 h2
      rw [modify_of_ne (h.tail_ne h1 h2)]
      exact h.entries p h1 h2 }

/-- Writing to an entry what the queue keeps no track of. -/
theorem Tracks.modifyFlags (h : Tracks q g) (i : Fin n)
    {f : InstructionFeedInfo Data → InstructionFeedInfo Data}
    (hf : ∀ i uid data, i.Keeps uid data → (f i).Keeps uid data) : Tracks (q.modify i f) g :=
  { h with
    entries := by
      intro p h1 h2
      by_cases hp : slot n p = i
      · rw [← hp, modify_self]
        exact hf _ _ _ (h.entries p h1 h2)
      · rw [modify_of_ne hp]
        exact h.entries p h1 h2 }

theorem Tracks.size_pos (h : Tracks q g) {p : Nat} (h1 : g.removed ≤ p) (h2 : p < g.added) :
    q.size ≠ 0 := by
  rw [h.size]
  omega

/-! ### Each operation keeps it -/

theorem tracks_empty (hn : 2 ≤ n) (uid : Fin n → UInt64) (data : Fin n → Data)
    (uid' : Nat → UInt64) (data' : Nat → Data) :
    Tracks (empty uid data) ⟨0, 0, uid', data', 0, 0, []⟩ where
  head := rfl
  tail := rfl
  order := Nat.le_refl _
  room := by show 0 < 0 + n; omega
  size := rfl
  entries := fun p _ h2 => absurd h2 (Nat.not_lt_zero p)
  delivered := rfl
  within := Nat.le_refl _
  stop := Nat.le_refl _
  left := by
    constructor
    · intro h; cases h
    · intro h; exact absurd h (Nat.lt_irrefl _)
  pending := fun h => absurd h (Nat.lt_irrefl _)

theorem add_spec (h : Tracks q g) (hleft : q.mispInstLeft = false) (hsize : q.size < n - 1)
    (data : Data) (uid : UInt64) :
    ∃ q', q.add data uid = .ok q' ∧ Tracks q' { g with
      added := g.added + 1
      uid := Function.update g.uid g.added uid
      data := Function.update g.data g.added data } := by
  have horder := h.order
  have hsz := h.size
  have hnot : ¬ g.cursor < g.stop := fun hlt => by
    rw [h.left.mpr hlt] at hleft
    cases hleft
  have hnext : next q.tail = slot n (g.added + 1) := by rw [h.tail, next_slot]
  have hfull : next q.tail ≠ q.head := by
    rw [hnext, h.head]
    exact slot_ne (by omega) (by omega) (by omega)
  unfold add
  refine ⟨_, if_neg hfull, ?_⟩
  exact
    { head := h.head
      tail := hnext
      order := Nat.le_succ_of_le horder
      room := by show g.added + 1 < g.removed + n; omega
      size := by show q.size + 1 = g.added + 1 - g.removed; omega
      entries := by
        intro p h1 h2
        show ((q.modify q.tail fun i => { i with data, uid, valid := true }).instructionBuffer
          (slot n p)).Keeps (Function.update g.uid g.added uid p)
          (Function.update g.data g.added data p)
        by_cases hp : p = g.added
        · rw [hp, ← h.tail, modify_self, Function.update_self, Function.update_self]
          exact ⟨rfl, rfl, rfl⟩
        · have hlt : p < g.added := Nat.lt_of_le_of_ne (Nat.lt_succ_iff.mp h2) hp
          rw [modify_of_ne (h.tail_ne h1 hlt), Function.update_of_ne hp, Function.update_of_ne hp]
          exact h.entries p h1 hlt
      delivered := by
        have hsame : (List.range' g.start g.delivered.length).map
            (Function.update g.data g.added data) =
              (List.range' g.start g.delivered.length).map g.data := by
          refine List.map_congr_left fun p hp => ?_
          have hw := h.within
          have hs := h.stop
          have hpc : p < g.cursor := by
            rw [List.mem_range'_1] at hp
            exact hp.2
          exact Function.update_of_ne (by omega) ..
        exact h.delivered.trans hsame.symm
      within := h.within
      stop := Nat.le_succ_of_le h.stop
      left := h.left
      pending := fun hlt => absurd hlt hnot }

theorem dropHead_spec (h : Tracks q g) (hhead : g.HandedOut g.removed) :
    Tracks q.dropHead { g with removed := g.removed + 1 } := by
  obtain ⟨-, hlt, hcur⟩ := hhead
  have hroom := h.room
  have hsz := h.size
  exact
    { head := by
        show next q.head = _
        rw [h.head, next_slot]
      tail := h.tail
      order := hlt
      room := by show g.added < g.removed + 1 + n; omega
      size := by show q.size - 1 = g.added - (g.removed + 1); omega
      entries := by
        intro p h1 h2
        have h1' : g.removed + 1 ≤ p := h1
        have h2' : p < g.added := h2
        have hne : slot n p ≠ q.head := by
          rw [h.head]
          exact slot_ne (by omega) (by omega) (by omega)
        show ((q.modify q.head fun i => { i with valid := false, issued := false }
          ).instructionBuffer (slot n p)).Keeps (g.uid p) (g.data p)
        rw [modify_of_ne hne]
        exact h.entries p (by omega) h2
      delivered := h.delivered
      within := h.within
      stop := h.stop
      left := h.left
      pending := by
        intro hc
        have hc' : g.cursor < g.stop := hc
        obtain ⟨h1, h2, h3⟩ := h.pending hc'
        exact ⟨h1, hcur hc', h3⟩ }

/-- The nop loop of `removehead` only takes entries in front of the one it looks for. -/
theorem dropNops_spec {uid : UInt64} {p : Nat} : ∀ (fuel : Nat) (q : FeederQueue n Data)
    (g : QueueHistory Data), Tracks q g → g.Holds uid p → g.HandedOut p →
    ∃ r, g.removed ≤ r ∧ r ≤ p ∧ Tracks (dropNops uid fuel q) { g with removed := r } := by
  intro fuel
  induction fuel with
  | zero => intro q g h hp _; exact ⟨g.removed, Nat.le_refl _, hp.1, h⟩
  | succ fuel ih =>
      intro q g h hp hout
      rw [dropNops]
      split
      · rename_i hdrop
        have hhead := h.entries g.removed (Nat.le_refl _) (by have := hp.1; have := hp.2.1; omega)
        rw [← h.head] at hhead
        have hne : g.removed ≠ p := by
          intro e
          exact hdrop.1 (by rw [hhead.2.1, e, hp.2.2])
        have hlt : g.removed + 1 ≤ p := by have := hp.1; omega
        have hfirst : g.HandedOut g.removed := by
          refine ⟨Nat.le_refl _, Nat.lt_trans hlt hout.2.1, fun hc => ?_⟩
          exact Nat.lt_trans hlt (hout.2.2 hc)
        obtain ⟨r, h1, h2, h3⟩ := ih q.dropHead { g with removed := g.removed + 1 }
          (dropHead_spec h hfirst) ⟨hlt, hp.2.1, hp.2.2⟩ ⟨hlt, hout.2.1, hout.2.2⟩
        exact ⟨r, Nat.le_of_succ_le h1, h2, h3⟩
      · exact ⟨g.removed, Nat.le_refl _, hp.1, h⟩

theorem removehead_spec (h : Tracks q g) (hhead : g.HandedOut g.removed) :
    ∃ q', q.removehead = .ok q' ∧ Tracks q' { g with removed := g.removed + 1 } := by
  have hentry := h.entries g.removed (Nat.le_refl _) hhead.2.1
  rw [← h.head] at hentry
  have hok : ¬ (q.size = 0 ∨ (q.instructionBuffer q.head).valid = false) := by
    rw [hentry.1]
    have := h.size_pos (Nat.le_refl _) hhead.2.1
    simpa using this
  exact ⟨_, if_neg hok, dropHead_spec h hhead⟩

/-- What `ASIMERROR` prints when the head is another instruction. -/
def uidMismatch : String := "Gambit_FEEDER: Uid of commit does not match buffer head"

theorem removeheadUid_spec (h : Tracks q g) {uid : UInt64} {p : Nat} (hp : g.Holds uid p)
    (hout : g.HandedOut p) :
    (∃ q', q.removeheadUid uid = .ok q' ∧
      Tracks q' { g with removed := g.removed + (q.size - q'.size) }) ∨
    q.removeheadUid uid = .error uidMismatch := by
  obtain ⟨r, hr1, hr2, ht⟩ := dropNops_spec (q.size + 1) q g h hp hout
  have hlt : r < g.added := Nat.lt_of_le_of_lt hr2 hp.2.1
  have hentry := ht.entries r (Nat.le_refl _) hlt
  rw [← ht.head] at hentry
  have hok : ¬ ((dropNops uid (q.size + 1) q).size = 0 ∨
      ((dropNops uid (q.size + 1) q).instructionBuffer
        (dropNops uid (q.size + 1) q).head).valid = false) := by
    rw [hentry.1]
    have := ht.size_pos (Nat.le_refl _) hlt
    simpa using this
  unfold removeheadUid
  simp only [if_neg hok]
  split
  · exact Or.inr rfl
  · have hhead : ({ g with removed := r } : QueueHistory Data).HandedOut r :=
      ⟨Nat.le_refl _, hlt, fun hc => Nat.lt_of_le_of_lt hr2 (hout.2.2 hc)⟩
    have ht' := dropHead_spec ht hhead
    refine Or.inl ⟨_, rfl, ?_⟩
    have hsize := ht'.size
    have hsize₀ := h.size
    have hcount : g.removed + (q.size - (dropNops uid (q.size + 1) q).dropHead.size) = r + 1 := by
      have hle : r + 1 ≤ g.added := hlt
      have hs : (dropNops uid (q.size + 1) q).dropHead.size = g.added - (r + 1) := hsize
      omega
    rw [hcount]
    exact ht'

/-- Going back from position `p`, the search stops at the first entry with the uid. -/
theorem searchBack_spec (h : Tracks q g) {uid : UInt64} {m : Nat} (hm : g.Holds uid m) :
    ∀ (fuel p : Nat), m ≤ p → p < g.added → (∀ r, m < r → r ≤ p → g.uid r ≠ uid) →
      p < m + fuel → q.searchBack uid fuel (slot n p) = slot n m := by
  have hroom := h.room
  have h1 := hm.1
  intro fuel
  induction fuel with
  | zero => intro p hmp _ _ hfuel; omega
  | succ fuel ih =>
      intro p hmp hp hnone hfuel
      have hentry := h.entries p (Nat.le_trans hm.1 hmp) hp
      rw [searchBack, hentry.2.1]
      by_cases hpm : p = m
      · rw [if_neg]
        · rw [hpm]
        · rintro ⟨-, hne⟩
          exact hne (by rw [hpm, hm.2.2])
      · have hhead : slot n p ≠ q.head := by
          rw [h.head]
          exact slot_ne (by omega) (by omega) (by omega)
        rw [if_pos ⟨hhead, hnone p (by omega) (Nat.le_refl _)⟩]
        obtain ⟨k, rfl⟩ : ∃ k, p = k + 1 := ⟨p - 1, by omega⟩
        rw [prev_slot]
        exact ih k (by omega) (by omega) (fun r hr hrk => hnone r hr (by omega)) (by omega)

theorem setMispecPt_spec (h : Tracks q g) {uid : UInt64} {p : Nat} (hp : g.Holds uid p)
    (killMe : Bool) :
    (q.setMispecPt uid killMe).2 = true ∧ Tracks (q.setMispecPt uid killMe).1 { g with
      start := if killMe then g.youngest uid else g.youngest uid + 1
      stop := g.added
      delivered := [] } := by
  obtain ⟨hm, hnone⟩ := QueueHistory.youngest_spec hp
  generalize g.youngest uid = m at hm hnone
  have hroom := h.room
  have hm1 := hm.1
  have hm2 := hm.2.1
  have hprev : prev q.tail = slot n (g.added - 1) := by
    rw [h.tail, show g.added = g.added - 1 + 1 by omega, prev_slot, Nat.add_sub_cancel]
  have hfound : q.searchBack uid n (prev q.tail) = slot n m := by
    rw [hprev]
    exact searchBack_spec h hm n _ (by omega) (by omega)
      (fun r hr hrp => hnone r hr (by omega)) (by omega)
  have hentry := h.entries m hm1 hm2
  have hlast : slot n m = prev q.tail ↔ m + 1 = g.added := by
    rw [hprev]
    constructor
    · intro hslot
      have := slot_inj hslot (by omega) (by omega)
      omega
    · intro hadd
      rw [show g.added - 1 = m by omega]
  -- Whatever is refed, it is refed from `from` on, up to the tail.
  have hopen : ∀ (c : Nat) (pt : Fin n) (l : Bool), m ≤ c → c ≤ g.added → (l = true ↔ c < g.added) →
      (c < g.added → pt = slot n c) →
      Tracks { q with mispeculationPt := pt, mispInstLeft := l }
        { g with start := c, stop := g.added, delivered := [] } := by
    intro c pt l hc1 hc2 hl hpt
    exact
      { h with
        delivered := rfl
        within := hc2
        stop := Nat.le_refl _
        left := hl
        pending := fun hlt => ⟨rfl, Nat.le_trans hm1 hc1, hpt hlt⟩ }
  unfold setMispecPt
  rw [if_neg (h.size_pos hm1 hm2)]
  simp only [hfound]
  rw [if_pos (hentry.2.1.trans hm.2.2)]
  cases killMe with
  | true =>
      refine ⟨rfl, hopen m _ true (Nat.le_refl _) (Nat.le_of_lt hm2) ?_ fun _ => rfl⟩
      exact ⟨fun _ => hm2, fun _ => rfl⟩
  | false =>
      by_cases htail : m + 1 = g.added
      · rw [if_neg (by simp), if_pos (hlast.mpr htail)]
        refine ⟨rfl, hopen (m + 1) _ false (Nat.le_succ _) hm2 ?_ ?_⟩
        · constructor
          · intro hf; cases hf
          · intro hlt; omega
        · intro hlt; omega
      · rw [if_neg (by simp), if_neg fun e => htail (hlast.mp e)]
        refine ⟨rfl, hopen (m + 1) _ true (Nat.le_succ _) hm2 ?_ fun _ => next_slot m⟩
        exact ⟨fun _ => by omega, fun _ => rfl⟩

theorem Tracks.rename (h : Tracks q g) {p : Nat} (h1 : g.removed ≤ p) (h2 : p < g.added)
    (newUid : UInt64) : Tracks (q.modify (slot n p) fun i => { i with uid := newUid })
      { g with uid := Function.update g.uid p newUid } :=
  { h with
    entries := by
      intro r hr1 hr2
      have hr1' : g.removed ≤ r := hr1
      have hr2' : r < g.added := hr2
      have hroom := h.room
      by_cases hrp : r = p
      · have hentry := h.entries p h1 h2
        rw [hrp, modify_self]
        refine ⟨hentry.1, ?_, hentry.2.2⟩
        show newUid = Function.update g.uid p newUid p
        rw [Function.update_self]
      · rw [modify_of_ne (slot_ne hrp (by omega) (by omega))]
        show InstructionFeedInfo.Keeps _ (Function.update g.uid p newUid r) _
        rw [Function.update_of_ne hrp]
        exact h.entries r hr1 hr2 }

/-- Handing out the entry at the cursor moves the mispeculation point to the next one. -/
theorem Tracks.increment (h : Tracks q g) (hlt : g.cursor < g.stop) :
    Tracks q.incrementMispecPt { g with delivered := g.delivered ++ [g.data g.cursor] } := by
  obtain ⟨hstop, hrem, hpt⟩ := h.pending hlt
  have hroom := h.room
  have hnext : next q.mispeculationPt = slot n (g.cursor + 1) := by rw [hpt, next_slot]
  have htail : next q.mispeculationPt = q.tail ↔ g.cursor + 1 = g.stop := by
    rw [hnext, h.tail, hstop]
    constructor
    · intro hslot
      exact slot_inj hslot (by omega) (by omega)
    · intro he
      rw [he]
  have hlen : (g.delivered ++ [g.data g.cursor]).length = g.delivered.length + 1 := by simp
  have hcursor : ({ g with delivered := g.delivered ++ [g.data g.cursor] } :
      QueueHistory Data).cursor = g.cursor + 1 := by
    show g.start + (g.delivered ++ [g.data g.cursor]).length = g.start + g.delivered.length + 1
    rw [hlen, Nat.add_assoc]
  have hopen : ∀ l : Bool, (l = true ↔ g.cursor + 1 < g.stop) →
      Tracks { q with mispeculationPt := next q.mispeculationPt, mispInstLeft := l }
        { g with delivered := g.delivered ++ [g.data g.cursor] } := by
    intro l hl
    exact
      { h with
        delivered := by
          show g.delivered ++ [g.data g.cursor] = _
          rw [hlen, List.range'_1_concat, List.map_append, ← h.delivered]
          rfl
        within := by rw [hcursor]; exact hlt
        left := by rw [hcursor]; exact hl
        pending := by
          rw [hcursor]
          exact fun _ => ⟨hstop, Nat.le_succ_of_le hrem, hnext⟩ }
  unfold incrementMispecPt
  by_cases hend : next q.mispeculationPt = q.tail
  · simp only [if_pos hend]
    refine hopen false ⟨nofun, fun hc => ?_⟩
    have := htail.mp hend
    omega
  · simp only [if_neg hend]
    have hleft := h.left.mpr hlt
    have hne : g.cursor + 1 ≠ g.stop := fun e => hend (htail.mpr e)
    rw [hleft]
    exact hopen true ⟨fun _ => by omega, fun _ => rfl⟩

theorem refeed_spec (h : Tracks q g) (hleft : q.mispInstLeft = true) (isNop isTypeL : Bool)
    (newUid : UInt64) :
    ∃ q' inst, q.refeed isNop isTypeL newUid = .ok (q', inst) ∧
      inst.uid = g.uid g.cursor ∧ inst.data = g.data g.cursor ∧
      Tracks q' { g with
        uid := Function.update g.uid g.cursor newUid
        delivered := g.delivered ++ [inst.data] } := by
  have hlt := h.left.mp hleft
  obtain ⟨hstop, hrem, hpt⟩ := h.pending hlt
  have hadd : g.cursor < g.added := hstop ▸ hlt
  have hentry := h.entries g.cursor hrem hadd
  rw [← hpt] at hentry
  have hsize := h.size_pos hrem hadd
  have hget : q.getmispec = some (q.instructionBuffer q.mispeculationPt) := by
    refine if_neg ?_
    rw [hentry.1]
    simpa using hsize
  have hflags : Tracks (q.noteFlags isNop isTypeL) g :=
    h.modifyFlags q.mispeculationPt fun _ _ _ hi => hi
  have hrename : (q.noteFlags isNop isTypeL).rename newUid =
      ((q.noteFlags isNop isTypeL).modify (slot n g.cursor) fun i => { i with uid := newUid },
        true) := by
    have hvalid : ((q.noteFlags isNop isTypeL).instructionBuffer
        (q.noteFlags isNop isTypeL).mispeculationPt).valid = true := by
      have hpt' : (q.noteFlags isNop isTypeL).mispeculationPt = slot n g.cursor := hpt
      rw [hpt']
      exact (hflags.entries g.cursor hrem hadd).1
    rw [rename, if_neg]
    · rw [show (q.noteFlags isNop isTypeL).mispeculationPt = slot n g.cursor from hpt]
    · rw [hvalid]
      have hsize' : (q.noteFlags isNop isTypeL).size ≠ 0 := hsize
      simpa using hsize'
  refine ⟨((q.noteFlags isNop isTypeL).modify (slot n g.cursor) fun i =>
    { i with uid := newUid }).incrementMispecPt, q.instructionBuffer q.mispeculationPt, ?_,
    hentry.2.1, hentry.2.2, ?_⟩
  · unfold refeed
    rw [hget]
    simp only [hrename, if_true]
  · rw [hentry.2.2]
    exact (hflags.rename hrem hadd newUid).increment hlt

end FeederQueue

/-! ### Runs -/

/-- A new queue, over whatever its entries held. -/
def RefeedStart (s : FeederQueue n Data × QueueHistory Data) : Prop :=
  2 ≤ n ∧ ∃ uid data uid' data', s = (.empty uid data, ⟨0, 0, uid', data', 0, 0, []⟩)

/-- One call that raises no error. -/
def RefeedStep (s t : FeederQueue n Data × QueueHistory Data) : Prop :=
  ∃ op : RefeedOp Data, op.Allowed s ∧ op.exec s = .ok t

open FeederQueue in
/-- An allowed call keeps the invariant, or the head is not the instruction to remove. -/
theorem refeed_exec_spec {s : FeederQueue n Data × QueueHistory Data} {op : RefeedOp Data}
    (h : Tracks s.1 s.2) (hop : op.Allowed s) :
    (∃ t, op.exec s = .ok t ∧ Tracks t.1 t.2) ∨ op.exec s = .error uidMismatch := by
  cases op with
  | setNop nop => exact Or.inl ⟨_, rfl, h.modifyTail fun i => { i with nop }⟩
  | setLongImm li => exact Or.inl ⟨_, rfl, h.modifyTail fun i => { i with longImm := li }⟩
  | add data uid =>
      obtain ⟨q, hq, ht⟩ := add_spec h hop.1 hop.2 data uid
      exact Or.inl ⟨_, by rw [RefeedOp.exec, hq]; rfl, ht⟩
  | setMispecPt uid killMe =>
      obtain ⟨p, hp⟩ := hop
      exact Or.inl ⟨_, rfl, (setMispecPt_spec h hp killMe).2⟩
  | refeed isNop isTypeL newUid =>
      obtain ⟨q, inst, hq, -, -, ht⟩ := refeed_spec h hop isNop isTypeL newUid
      exact Or.inl ⟨_, by rw [RefeedOp.exec, hq]; rfl, ht⟩
  | removehead =>
      obtain ⟨q, hq, ht⟩ := removehead_spec h hop
      exact Or.inl ⟨_, by rw [RefeedOp.exec, hq]; rfl, ht⟩
  | removeheadUid uid =>
      obtain ⟨p, hp, hout⟩ := hop
      rcases removeheadUid_spec h hp hout with ⟨q, hq, ht⟩ | herr
      · exact Or.inl ⟨_, by rw [RefeedOp.exec, hq]; rfl, ht⟩
      · exact Or.inr (by rw [RefeedOp.exec, herr]; rfl)

theorem tracks_of_refeedReaches {s : FeederQueue n Data × QueueHistory Data}
    (h : Reaches RefeedStart RefeedStep s) : s.1.Tracks s.2 := by
  refine h.invariant (P := fun s => s.1.Tracks s.2) ?_ ?_
  · rintro s ⟨hn, uid, data, uid', data', rfl⟩
    exact FeederQueue.tracks_empty hn uid data uid' data'
  · rintro s t hs ⟨op, hop, hexec⟩
    rcases refeed_exec_spec hs hop with ⟨t', ht', htr⟩ | herr
    · rw [ht'] at hexec
      cases hexec
      exact htr
    · rw [herr] at hexec
      cases hexec

/--
**What was killed is refed once and in order.**

In every state a run reaches, what has been delivered since the last `set_mispec_pt` is
the entries from `start` on, in queue order and without a gap, and `get_misp_inst_left`
holds exactly as long as some entry up to `stop` is still to come.  The next refeed step
then hands out the next of them.  A `set_mispec_pt` for a uid of the queue always finds
its youngest entry, and the history says that it starts there, or behind it, and stops at
the tail.  No allowed call fails, except that the head may not be the one to remove.
-/
theorem refeed_exact {s : FeederQueue n Data × QueueHistory Data}
    (h : Reaches RefeedStart RefeedStep s) :
    s.2.delivered = (List.range' s.2.start s.2.delivered.length).map s.2.data ∧
    s.2.cursor ≤ s.2.stop ∧
    (s.1.mispInstLeft = true ↔ s.2.cursor < s.2.stop) ∧
    (s.1.mispInstLeft = true → s.2.stop = s.2.added ∧ ∃ inst, s.1.getmispec = some inst ∧
      inst.uid = s.2.uid s.2.cursor ∧ inst.data = s.2.data s.2.cursor) ∧
    (∀ p, s.2.removed ≤ p → p < s.2.added →
      (s.1.instructionBuffer (slot n p)).Keeps (s.2.uid p) (s.2.data p)) ∧
    (∀ uid p killMe, s.2.Holds uid p → (s.1.setMispecPt uid killMe).2 = true ∧
      s.2.Holds uid (s.2.youngest uid) ∧ p ≤ s.2.youngest uid) ∧
    ∀ op : RefeedOp Data, op.Allowed s → (∃ t, op.exec s = .ok t) ∨
      op.exec s = .error "Gambit_FEEDER: Uid of commit does not match buffer head" := by
  have ht := tracks_of_refeedReaches h
  refine ⟨ht.delivered, ht.within, ht.left, ?_, ht.entries, ?_, ?_⟩
  · intro hleft
    have hlt := ht.left.mp hleft
    obtain ⟨hstop, hrem, hpt⟩ := ht.pending hlt
    have hentry := ht.entries s.2.cursor hrem (hstop ▸ hlt)
    rw [← hpt] at hentry
    refine ⟨hstop, _, if_neg ?_, hentry.2.1, hentry.2.2⟩
    rw [hentry.1]
    have hsize := ht.size_pos hrem (hstop ▸ hlt)
    simpa using hsize
  · intro uid p killMe hp
    refine ⟨(FeederQueue.setMispecPt_spec ht hp killMe).1, (QueueHistory.youngest_spec hp).1, ?_⟩
    exact Nat.le_findGreatest (Nat.le_of_lt hp.2.1) hp
  · intro op hop
    rcases refeed_exec_spec ht hop with ⟨t, ht', -⟩ | herr
    · exact Or.inl ⟨t, ht'⟩
    · exact Or.inr herr

/-- Of two instructions the first is killed, refed under a new uid, and killed again. -/
theorem refeed_exact_two : ∃ s : FeederQueue 4 Nat × QueueHistory Nat,
    s.2.delivered = [10] ∧ s.1.mispInstLeft = true ∧ s.2.cursor < s.2.stop := by
  have hstart : Reaches RefeedStart RefeedStep ((.empty (fun _ => 0) fun _ => 0 :
      FeederQueue 4 Nat), (⟨0, 0, fun _ => 0, fun _ => 0, 0, 0, []⟩ : QueueHistory Nat)) :=
    .start ⟨by decide, _, _, _, _, rfl⟩
  have hadd := hstart.step ⟨.add 10 1, ⟨rfl, by decide⟩, rfl⟩
  have hadd₂ := hadd.step ⟨.add 11 2, ⟨rfl, by decide⟩, rfl⟩
  have hkill := hadd₂.step ⟨.setMispecPt 1 true, ⟨0, by decide⟩, rfl⟩
  have hrefeed := hkill.step ⟨.refeed false false 5, rfl, rfl⟩
  have hkill₂ := hrefeed.step ⟨.setMispecPt 5 true, ⟨0, by decide⟩, rfl⟩
  have hrefeed₂ := hkill₂.step ⟨.refeed false false 6, rfl, rfl⟩
  exact ⟨_, rfl, rfl, (refeed_exact hrefeed₂).2.2.1.mp rfl⟩

end AsimFeeder.Gambit
