/-
The SoftSDV rings lose and repeat nothing, except at shutdown.

The writer has closed `written.length` entries and the reader `consumed.length`.  The
slot indices are these two counts modulo the size of the ring, and the counts are
never `n` or more apart, which is what the writer's unused last slot is for.  So the
two index comparisons give back the true distances, whichever moment the other side's
index was read at: the reader's index only ever runs away from the writer, and the
writer's index only ever brings more to read.

At shutdown the reader looks at two things, the writer's index and then its
`isActive`.  The writer may close its last entries and exit in between, and `OpenNext`
does not look at the index again.
-/
import AsimFeeder.Lib.Runs
import AsimFeeder.SoftSDV.Ring

namespace AsimFeeder.SoftSDV

open AsimFeeder.Lib

/-! ### Index arithmetic -/

namespace RingSize

variable (n : RingSize)

/-- The entries of a ring as a number. -/
def size : Nat := n.entries.toNat

theorem two_le_size : 2 ≤ n.size := by
  have := UInt32.le_iff_toNat_le.mp n.two_le
  simpa [size] using this

theorem toNat_pred : (n.entries - 1).toNat = n.size - 1 := by
  have h := n.two_le_size
  rw [UInt32.toNat_sub_of_le _ _ (by rw [UInt32.le_iff_toNat_le]; show 1 ≤ n.size; omega)]
  rfl

theorem exists_size_eq : ∃ k, n.size = 2 ^ k := by
  have h2 := n.two_le_size
  have hand : n.size &&& (n.size - 1) = 0 := by
    have := congrArg UInt32.toNat n.powerOf2
    rw [UInt32.toNat_and, n.toNat_pred] at this
    exact this
  exact (Nat.and_sub_one_eq_zero_iff_isPowerOfTwo (by omega)).mp hand

theorem toNat_and_pred (x : UInt32) : (x &&& (n.entries - 1)).toNat = x.toNat % n.size := by
  obtain ⟨k, hk⟩ := n.exists_size_eq
  rw [UInt32.toNat_and, n.toNat_pred, hk, Nat.and_two_pow_sub_one_eq_mod]

/-- Two slot indices add up without overflow. -/
theorem size_add_size_le : n.size + n.size ≤ 2 ^ 32 := by
  obtain ⟨k, hk⟩ := n.exists_size_eq
  have hlt : 2 ^ k < 2 ^ 32 := by rw [← hk]; exact n.entries.toNat_lt
  have hk32 : k < 32 := (Nat.pow_lt_pow_iff_right (by omega)).mp hlt
  calc n.size + n.size = 2 ^ (k + 1) := by rw [hk]; omega
    _ ≤ 2 ^ 32 := Nat.pow_le_pow_right (by omega) (by omega)

variable {n} {w r : UInt32} {W R : Nat}

theorem increment_eq (hw : w.toNat = W % n.size) :
    (n.increment w).toNat = (W + 1) % n.size := by
  have h2 := n.two_le_size
  have hs := n.size_add_size_le
  have hlt : W % n.size < n.size := Nat.mod_lt _ (by omega)
  have hadd : (w + 1).toNat = W % n.size + 1 := by
    rw [UInt32.toNat_add, hw]
    exact Nat.mod_eq_of_lt (by show W % n.size + 1 < 2 ^ 32; omega)
  rw [increment, toNat_and_pred, hadd, Nat.mod_add_mod]

theorem nReadSlotsAvailable_eq (hw : w.toNat = W % n.size) (hr : r.toNat = R % n.size)
    (hle : R ≤ W) (hlt : W < R + n.size) : (n.nReadSlotsAvailable w r).toNat = W - R := by
  have h2 := n.two_le_size
  have hs := n.size_add_size_le
  have hwlt : W % n.size < n.size := Nat.mod_lt _ (by omega)
  have hrlt : R % n.size < n.size := Nat.mod_lt _ (by omega)
  have hadd : (w + n.entries).toNat = W % n.size + n.size := by
    rw [UInt32.toNat_add, hw]
    exact Nat.mod_eq_of_lt (by show W % n.size + n.size < 2 ^ 32; omega)
  rw [nReadSlotsAvailable, toNat_and_pred,
    UInt32.toNat_sub_of_le _ _ (by rw [UInt32.le_iff_toNat_le]; omega), hadd, hr]
  exact mod_dist (by simp) (Nat.mod_mod _ _) (by omega) hle hlt

theorem nWriteSlotsAvailable_eq (hw : w.toNat = W % n.size) (hr : r.toNat = R % n.size)
    (hle : R ≤ W) (hlt : W < R + n.size) :
    (n.nWriteSlotsAvailable r w).toNat = R + n.size - 1 - W := by
  have h2 := n.two_le_size
  have hs := n.size_add_size_le
  have hwlt : W % n.size < n.size := Nat.mod_lt _ (by omega)
  have hrlt : R % n.size < n.size := Nat.mod_lt _ (by omega)
  have hadd : (r + (n.entries - 1)).toNat = R % n.size + (n.size - 1) := by
    rw [UInt32.toNat_add, hr, n.toNat_pred]
    exact Nat.mod_eq_of_lt (by show R % n.size + (n.size - 1) < 2 ^ 32; omega)
  rw [nWriteSlotsAvailable, toNat_and_pred,
    UInt32.toNat_sub_of_le _ _ (by rw [UInt32.le_iff_toNat_le]; omega), hadd, hw]
  refine mod_dist ?_ (Nat.mod_mod _ _) (by omega) (by omega) (by omega)
  rw [Nat.mod_add_mod, Nat.add_sub_assoc (by omega)]

end RingSize

variable {α : Type} {n : RingSize} {reset : α → α}

/-! ### The invariant -/

/-- What the writer knows in each phase, `W` entries written and `R` consumed. -/
def WriterPhase.Ok (n : RingSize) (W R : Nat) : WriterPhase → Prop
  | idle | exited => True
  | granted | filling => W + 1 < R + n.size
  | closing nextReadSlot =>
      ∃ R', R' ≤ R ∧ nextReadSlot.toNat = R' % n.size ∧ W + 1 < R' + n.size
  | checking nextReadSlot nextWriteSlot =>
      ∃ R', R' < W ∧ W < R' + n.size ∧ nextReadSlot.toNat = R' % n.size ∧
        nextWriteSlot.toNat = W % n.size
  | overrun => False

/-- What the reader knows in each phase, `R` entries consumed. -/
def ReaderPhase.Ok (n : RingSize) (written : List (UInt32 × α)) (R : Nat) : ReaderPhase α → Prop
  | idle | ended => True
  | blocked testedSlot => testedSlot.toNat = R % n.size
  | granted => R < written.length
  | reading obj => ∃ e, written[R]? = some e ∧ ∀ v ∈ obj, v = e.2

theorem WriterPhase.Ok.mono {W R R' : Nat} {p : WriterPhase} (h : p.Ok n W R) (hR : R ≤ R') :
    p.Ok n W R' := by
  cases p with
  | idle => exact trivial
  | granted => exact Nat.lt_of_lt_of_le h (Nat.add_le_add_right hR _)
  | filling => exact Nat.lt_of_lt_of_le h (Nat.add_le_add_right hR _)
  | closing r =>
      obtain ⟨R₀, hR₀, hr, hlt⟩ := h
      exact ⟨R₀, Nat.le_trans hR₀ hR, hr, hlt⟩
  | checking r w => exact h
  | overrun => exact h
  | exited => exact trivial

theorem ReaderPhase.Ok.append {written : List (UInt32 × α)} {R : Nat} {p : ReaderPhase α}
    (h : p.Ok n written R) (more : List (UInt32 × α)) : p.Ok n (written ++ more) R := by
  cases p with
  | idle => exact trivial
  | blocked t => exact h
  | granted =>
      have hlt : R < written.length := h
      show R < (written ++ more).length
      rw [List.length_append]
      omega
  | reading obj =>
      obtain ⟨e, he, hobj⟩ := h
      exact ⟨e, List.getElem?_append_left (List.getElem?_eq_some_iff.mp he).1 ▸ he, hobj⟩
  | ended => exact trivial

theorem ReaderPhase.Ok.unread {written : List (UInt32 × α)} {R : Nat} {p : ReaderPhase α}
    (h : p.Ok n written R) (hp : p.holdsSlot = true) : R < written.length := by
  cases p with
  | granted => exact h
  | reading obj =>
      obtain ⟨e, he, -⟩ := h
      exact (List.getElem?_eq_some_iff.mp he).1
  | _ => cases hp

namespace Ring

/-- How the slot indices and payloads of a ring stand to what the two sides have closed. -/
structure Ok (n : RingSize) (s : Ring α) : Prop where
  writerSlot : s.writerSlot.toNat = s.written.length % n.size
  readerSlot : s.readerSlot.toNat = s.consumed.length % n.size
  order : s.consumed.length ≤ s.written.length
  room : s.written.length < s.consumed.length + n.size
  slots : ∀ i e, s.written[i]? = some e → e.1.toNat = i % n.size
  held : ∀ i e, s.consumed.length ≤ i → s.written[i]? = some e → s.payload e.1 = e.2
  consumed : s.consumed <+: s.written.map Prod.snd
  writer : s.writer.Ok n s.written.length s.consumed.length
  reader : s.reader.Ok n s.written s.consumed.length
  active : s.isActive = false → s.writer = .exited

variable {s : Ring α}

theorem Ok.entry_lt {i : Nat} {e : UInt32 × α} (he : s.written[i]? = some e) :
    i < s.written.length := (List.getElem?_eq_some_iff.mp he).1

/-- The slot the writer fills next holds no unread entry. -/
theorem Ok.writerSlot_ne (h : Ok n s) {i : Nat} {e : UInt32 × α} (hi : s.consumed.length ≤ i)
    (he : s.written[i]? = some e) : e.1 ≠ s.writerSlot := by
  intro hslot
  have hlt := Ok.entry_lt he
  have hroom := h.room
  have hmod : i % n.size = s.written.length % n.size := by
    rw [← h.slots i e he, hslot, h.writerSlot]
  have := mod_inj hmod (by omega) (by omega)
  omega

/-- The slot the writer fills next is not the slot of the reader, if there is something to read. -/
theorem Ok.slots_ne (h : Ok n s) (hlt : s.consumed.length < s.written.length) :
    s.readerSlot ≠ s.writerSlot := by
  intro hslot
  have hroom := h.room
  have hmod : s.consumed.length % n.size = s.written.length % n.size := by
    rw [← h.readerSlot, hslot, h.writerSlot]
  have := mod_inj hmod (by omega) (by omega)
  omega

theorem Ok.nRead (h : Ok n s) : (n.nReadSlotsAvailable s.writerSlot s.readerSlot).toNat =
    s.written.length - s.consumed.length :=
  RingSize.nReadSlotsAvailable_eq h.writerSlot h.readerSlot h.order h.room

theorem Ok.nWrite (h : Ok n s) : (n.nWriteSlotsAvailable s.readerSlot s.writerSlot).toNat =
    s.consumed.length + n.size - 1 - s.written.length :=
  RingSize.nWriteSlotsAvailable_eq h.writerSlot h.readerSlot h.order h.room

/-- The slot of the reader holds the first unread entry. -/
theorem Ok.payload_readerSlot (h : Ok n s) {e : UInt32 × α}
    (he : s.written[s.consumed.length]? = some e) : s.payload s.readerSlot = e.2 := by
  have hslot : s.readerSlot = e.1 := by
    apply UInt32.toNat_inj.mp
    rw [h.readerSlot, h.slots _ e he]
  rw [hslot]
  exact h.held _ e (Nat.le_refl _) he

theorem ok_empty (n : RingSize) (payload : UInt32 → α) : Ok n (empty payload) where
  writerSlot := (Nat.zero_mod _).symm
  readerSlot := (Nat.zero_mod _).symm
  order := Nat.le_refl _
  room := by have := n.two_le_size; show 0 < 0 + n.size; omega
  slots := by intro i e he; cases he
  held := by intro i e _ he; cases he
  consumed := List.nil_prefix
  writer := trivial
  reader := trivial
  active := by intro h; cases h

/-! ### The writer's events -/

theorem Ok.writerPhase (h : Ok n s) (hactive : s.isActive = true) {p : WriterPhase}
    (hp : p.Ok n s.written.length s.consumed.length) : Ok n { s with writer := p } :=
  { h with
    writer := hp
    active := by
      intro hf
      rw [show s.isActive = true from hactive] at hf
      cases hf }

/-- Writing into the writer's own slot disturbs no unread entry. -/
theorem Ok.store (h : Ok n s) (obj : α) : Ok n (s.store obj) :=
  { h with
    held := by
      intro i e hi he
      show Function.update s.payload s.writerSlot obj e.1 = e.2
      rw [Function.update_of_ne (h.writerSlot_ne hi he)]
      exact h.held i e hi he }

theorem Ok.increment (h : Ok n s) {r : UInt32} (hp : s.writer = .closing r) :
    Ok n { s with
      writerSlot := n.increment s.writerSlot
      writer := .checking r (n.increment s.writerSlot)
      written := s.written ++ [(s.writerSlot, s.payload s.writerSlot)] } := by
  have hw := h.writer
  rw [hp] at hw
  obtain ⟨R', hR', hr, hlt⟩ := hw
  have horder := h.order
  have hslot : (n.increment s.writerSlot).toNat = (s.written.length + 1) % n.size :=
    RingSize.increment_eq h.writerSlot
  have hlen : (s.written ++ [(s.writerSlot, s.payload s.writerSlot)]).length =
      s.written.length + 1 := by simp
  -- The new entry is the last one; all others are entries of `s`.
  have hentry : ∀ i e, (s.written ++ [(s.writerSlot, s.payload s.writerSlot)])[i]? = some e →
      s.written[i]? = some e ∨ i = s.written.length ∧
        e = (s.writerSlot, s.payload s.writerSlot) := by
    intro i e he
    rcases Nat.lt_or_ge i s.written.length with hi | hi
    · exact Or.inl (List.getElem?_append_left hi ▸ he)
    · rw [List.getElem?_append_right hi] at he
      have h0 : i - s.written.length = 0 := by
        have := (List.getElem?_eq_some_iff.mp he).1
        simpa using this
      rw [h0] at he
      cases he
      exact Or.inr ⟨by omega, rfl⟩
  exact
    { writerSlot := by rw [hlen]; exact hslot
      readerSlot := h.readerSlot
      order := by rw [hlen]; exact Nat.le_succ_of_le horder
      room := by rw [hlen]; show _ < s.consumed.length + n.size; omega
      slots := by
        intro i e he
        rcases hentry i e he with he | ⟨rfl, rfl⟩
        · exact h.slots i e he
        · exact h.writerSlot
      held := by
        intro i e hi he
        rcases hentry i e he with he | ⟨rfl, rfl⟩
        · exact h.held i e hi he
        · rfl
      consumed := by
        rw [List.map_append]
        exact h.consumed.trans (List.prefix_append _ _)
      writer := by
        rw [hlen]
        exact ⟨R', by omega, hlt, hr, hslot⟩
      reader := h.reader.append _
      active := by
        intro hf
        have := h.active hf
        rw [hp] at this
        cases this }

theorem Ok.active_of_ne (h : Ok n s) (hp : s.writer ≠ .exited) : s.isActive = true := by
  cases ha : s.isActive with
  | true => rfl
  | false => exact absurd (h.active ha) hp

/-- The sampled reader index is behind the writer's new one by less than the ring. -/
theorem WriterPhase.Ok.no_overrun {W R : Nat} {r w : UInt32}
    (h : (WriterPhase.checking r w).Ok n W R) : w ≠ r := by
  obtain ⟨R', hlt, hroom, hr, hw⟩ := h
  intro hwr
  have hmod : W % n.size = R' % n.size := by rw [← hw, ← hr, hwr]
  have := mod_inj hmod (by omega) (by omega)
  omega

theorem Ok.writerExec (h : Ok n s) {t : Ring α} {e : RingEvent α}
    (hexec : s.writerExec n reset s.writer e = some t) : Ok n t := by
  have hw := h.writer
  generalize hp : s.writer = p at hexec hw
  have hactive : p ≠ .exited → s.isActive = true := fun hne => h.active_of_ne (hp ▸ hne)
  unfold Ring.writerExec at hexec
  split at hexec
  case h_1 => -- test for room
    split at hexec
    · cases hexec
      exact h
    · rename_i htest
      cases hexec
      refine h.writerPhase (hactive (by simp)) ?_
      have hpos : n.nWriteSlotsAvailable s.readerSlot s.writerSlot ≠ 0 := htest
      have := h.nWrite
      show s.written.length + 1 < s.consumed.length + n.size
      have hne : (n.nWriteSlotsAvailable s.readerSlot s.writerSlot).toNat ≠ 0 :=
        fun h0 => hpos (UInt32.toNat_inj.mp h0)
      omega
  case h_2 => -- reset the slot
    cases hexec
    exact (h.store _).writerPhase (hactive (by simp)) hw
  case h_3 => -- fill it
    cases hexec
    exact h.store _
  case h_4 => -- read the reader's index
    cases hexec
    exact h.writerPhase (hactive (by simp)) ⟨_, Nat.le_refl _, h.readerSlot, hw⟩
  case h_5 => -- move the writer's index
    cases hexec
    exact h.increment hp
  case h_6 => -- compare the two
    cases hexec
    rw [if_pos (WriterPhase.Ok.no_overrun hw)]
    exact h.writerPhase (hactive (by simp)) trivial
  case h_7 => -- exit
    cases hexec
    exact { h with writer := trivial, active := fun _ => rfl }
  case h_8 => cases hexec

/-! ### The reader's events -/

theorem Ok.readerPhase (h : Ok n s) {p : ReaderPhase α}
    (hp : p.Ok n s.written s.consumed.length) : Ok n { s with reader := p } :=
  { h with reader := hp }

theorem Ok.close (h : Ok n s) {obj : α} (hp : s.reader = .reading (some obj)) :
    Ok n { s with
      readerSlot := n.increment s.readerSlot
      reader := .idle
      consumed := s.consumed ++ [obj] } := by
  have hr := h.reader
  rw [hp] at hr
  obtain ⟨e, he, hobj⟩ := hr
  have hlt := Ok.entry_lt he
  have hroom := h.room
  have hlen : (s.consumed ++ [obj]).length = s.consumed.length + 1 := by simp
  exact
    { writerSlot := h.writerSlot
      readerSlot := by rw [hlen]; exact RingSize.increment_eq h.readerSlot
      order := by rw [hlen]; exact hlt
      room := by rw [hlen]; show s.written.length < _; omega
      slots := h.slots
      held := by
        intro i e hi he
        rw [hlen] at hi
        exact h.held i e (by omega) he
      consumed := by
        have hnext : (s.written.map Prod.snd)[s.consumed.length]? = some obj := by
          rw [List.getElem?_map, he, hobj obj rfl]
          rfl
        obtain ⟨rest, hrest⟩ := h.consumed
        rw [← hrest, List.getElem?_append_right (Nat.le_refl _), Nat.sub_self] at hnext
        cases rest with
        | nil => cases hnext
        | cons x xs =>
            cases hnext
            exact ⟨xs, by rw [List.append_assoc]; exact hrest⟩
      writer := by rw [hlen]; exact h.writer.mono (Nat.le_succ _)
      reader := trivial
      active := h.active }

theorem Ok.readerExec (h : Ok n s) {t : Ring α} {e : RingEvent α}
    (hexec : s.readerExec n s.reader e = some t) : Ok n t := by
  have hr := h.reader
  generalize hp : s.reader = p at hexec hr
  have hn := h.nRead
  unfold Ring.readerExec at hexec
  split at hexec
  case h_1 => -- test for data
    split at hexec
    · rename_i htest
      cases hexec
      refine h.readerPhase ?_
      show s.writerSlot.toNat = s.consumed.length % n.size
      have horder := h.order
      rw [htest] at hn
      have hzero : s.written.length - s.consumed.length = 0 := hn.symm
      rw [h.writerSlot, show s.written.length = s.consumed.length by omega]
    · rename_i htest
      cases hexec
      refine h.readerPhase ?_
      show s.consumed.length < s.written.length
      have hne : (n.nReadSlotsAvailable s.writerSlot s.readerSlot).toNat ≠ 0 :=
        fun h0 => htest (UInt32.toNat_inj.mp h0)
      omega
  case h_2 => -- `Blocked`
    cases hexec
    exact h.readerPhase (by split <;> exact trivial)
  case h_3 => -- open the slot
    cases hexec
    have hlt : s.consumed.length < s.written.length := hr
    exact h.readerPhase ⟨_, List.getElem?_eq_getElem hlt, by intro v hv; cases hv⟩
  case h_4 => -- read it
    cases hexec
    obtain ⟨e, he, -⟩ := hr
    refine h.readerPhase ⟨e, he, ?_⟩
    intro v hv
    cases hv
    exact h.payload_readerSlot he
  case h_5 => -- close it
    cases hexec
    exact h.close hp
  case h_6 => -- call `OpenNext` again
    cases hexec
    exact h.readerPhase trivial
  case h_7 => cases hexec

theorem Ok.exec (h : Ok n s) {t : Ring α} {e : RingEvent α} (hexec : s.exec n reset e = some t) :
    Ok n t := by
  unfold Ring.exec at hexec
  cases hw : s.writerExec n reset s.writer e with
  | some t' =>
      rw [hw] at hexec
      cases hexec
      exact h.writerExec hw
  | none =>
      rw [hw] at hexec
      exact h.readerExec hexec

end Ring

/-! ### Runs -/

/-- A ring no entry of which has been written or read. -/
def RingStart (s : Ring α) : Prop := ∃ payload, s = Ring.empty payload

/-- One event of one of the two sides. -/
def RingStep (n : RingSize) (reset : α → α) (s t : Ring α) : Prop :=
  ∃ e, s.exec n reset e = some t

theorem ok_of_reaches {s : Ring α} (h : Reaches RingStart (RingStep n reset) s) : s.Ok n := by
  refine h.invariant ?_ ?_
  · rintro s ⟨payload, rfl⟩
    exact Ring.ok_empty n payload
  · rintro s t hs ⟨e, he⟩
    exact hs.exec he

/--
**The ring is a first-in first-out queue under every interleaving.**

The reader closes the payloads the writer closed, in their order.  The slot the writer
has open holds no unread entry and is not the one the reader has open.  Unread
entries keep their payload, the reader's open slot has the first of them, and the
writer's assertion holds.
-/
theorem ring_fifo {s : Ring α} (h : Reaches RingStart (RingStep n reset) s) :
    s.consumed <+: s.written.map Prod.snd ∧
    (s.writer.holdsSlot = true →
      (∀ e ∈ s.written.drop s.consumed.length, e.1 ≠ s.writerSlot) ∧
      (s.reader.holdsSlot = true → s.readerSlot ≠ s.writerSlot)) ∧
    (∀ e ∈ s.written.drop s.consumed.length, s.payload e.1 = e.2) ∧
    (s.reader.holdsSlot = true →
      s.written[s.consumed.length]? = some (s.readerSlot, s.payload s.readerSlot)) ∧
    s.writer ≠ .overrun := by
  have hok := ok_of_reaches h
  have hunread : ∀ e ∈ s.written.drop s.consumed.length,
      ∃ i, s.consumed.length ≤ i ∧ s.written[i]? = some e := by
    intro e he
    obtain ⟨i, hi⟩ := List.getElem?_of_mem he
    rw [List.getElem?_drop] at hi
    exact ⟨_, Nat.le_add_right _ _, hi⟩
  refine ⟨hok.consumed, ?_, ?_, ?_, ?_⟩
  · intro _
    refine ⟨?_, fun hr => hok.slots_ne (hok.reader.unread hr)⟩
    intro e he
    obtain ⟨i, hi, hie⟩ := hunread e he
    exact hok.writerSlot_ne hi hie
  · intro e he
    obtain ⟨i, hi, hie⟩ := hunread e he
    exact hok.held i e hi hie
  · intro hr
    have hlt := hok.reader.unread hr
    have he := List.getElem?_eq_getElem hlt
    have hslot : s.readerSlot = s.written[s.consumed.length].1 := by
      apply UInt32.toNat_inj.mp
      rw [hok.readerSlot, hok.slots _ _ he]
    rw [he, hok.payload_readerSlot he, hslot]
  · intro hp
    have hw := hok.writer
    rw [hp] at hw
    exact hw

/-- The smallest ring. -/
def pairRing : RingSize := ⟨2, by decide, by decide⟩

/-- The writer's way through `OpenNext` and `Close` with the payload `obj`. -/
def writerSends {α : Type} (obj : α) : List (RingEvent α) :=
  [.writerTest, .writerReset, .writerFill obj, .writerSample, .writerIncrement, .writerCheck]

/-- The reader's way through `OpenNext` and `Close` when there is an entry. -/
def readerTakes {α : Type} : List (RingEvent α) :=
  [.readerTest, .readerOpen, .readerRead, .readerClose]

theorem reaches_pairRing (es : List (RingEvent Nat)) {s : Ring Nat}
    (h : after (Ring.exec pairRing id) (fun _ _ => true) es (Ring.empty fun _ => 0) = some s) :
    Reaches RingStart (RingStep pairRing id) s :=
  Reaches.after (fun _ e _ _ he => ⟨e, he⟩) (.start ⟨_, rfl⟩) h

/-- Three payloads round the smallest ring, the last one not yet read. -/
theorem ring_fifo_pair : ∃ s : Ring Nat, s.consumed = [7, 8] ∧
    s.consumed <+: s.written.map Prod.snd ∧ s.writer ≠ .overrun := by
  have hrun := reaches_pairRing (writerSends 7 ++ readerTakes ++ writerSends 8 ++
    readerTakes ++ writerSends 9) rfl
  have hfifo := ring_fifo hrun
  exact ⟨_, rfl, hfifo.1, hfifo.2.2.2.2⟩

/-! ### Shutdown -/

/--
When the reader finds the writer's process gone, the writer's index is still what the
reader's last test for data read.
-/
def Ring.quietExit (s : Ring α) : RingEvent α → Bool
  | .readerBlocked =>
      match s.reader with
      | .blocked testedSlot => s.isActive || s.writerSlot == testedSlot
      | _ => true
  | _ => true

/-- One event, quiet if it is the reader finding the writer's process gone. -/
def QuietStep (n : RingSize) (reset : α → α) (s t : Ring α) : Prop :=
  ∃ e, s.quietExit e = true ∧ s.exec n reset e = some t

/-- Finding the process gone, the reader has everything iff the writer's index has not moved. -/
theorem Ring.Ok.consumed_all_iff {s : Ring α} (h : s.Ok n) {testedSlot : UInt32}
    (hp : s.reader = .blocked testedSlot) :
    s.consumed = s.written.map Prod.snd ↔ s.writerSlot = testedSlot := by
  have hr := h.reader
  rw [hp] at hr
  have hr : testedSlot.toNat = s.consumed.length % n.size := hr
  have horder := h.order
  have hroom := h.room
  constructor
  · intro hall
    have hlen : s.consumed.length = s.written.length := by rw [hall, List.length_map]
    apply UInt32.toNat_inj.mp
    rw [h.writerSlot, hr, hlen]
  · intro hslot
    refine h.consumed.eq_of_length ?_
    rw [List.length_map]
    refine mod_inj (n := n.size) ?_ (by omega) (by omega)
    rw [← hr, ← hslot, h.writerSlot]

/-- What a `NULL` from `OpenNext` must mean. -/
def Ring.NothingLost (s : Ring α) : Prop :=
  s.reader = .ended → s.isActive = false ∧ s.consumed = s.written.map Prod.snd

theorem Ring.writerExec_reader {s t : Ring α} {p : WriterPhase} {e : RingEvent α}
    (hexec : s.writerExec n reset p e = some t) : t.reader = s.reader := by
  unfold Ring.writerExec at hexec
  split at hexec
  case h_1 => split at hexec <;> (cases hexec; rfl)
  all_goals (cases hexec; try rfl)

theorem Ring.NothingLost.writerExec {s t : Ring α} (h : s.NothingLost) (hok : s.Ok n)
    {e : RingEvent α} (hexec : s.writerExec n reset s.writer e = some t) : t.NothingLost := by
  have hreader : t.reader = s.reader := Ring.writerExec_reader hexec
  intro hended
  -- After a `NULL` the writer has exited, and makes no event.
  have hgone := hok.active (h (hreader ▸ hended)).1
  rw [hgone] at hexec
  cases e <;> cases hexec

theorem Ring.NothingLost.readerExec {s t : Ring α} (hok : s.Ok n) {e : RingEvent α}
    (hquiet : s.quietExit e = true) (hexec : s.readerExec n s.reader e = some t) :
    t.NothingLost := by
  generalize hp : s.reader = p at hexec
  unfold Ring.readerExec at hexec
  intro hended
  split at hexec
  case h_2 tested => -- `Blocked`
    cases hexec
    rw [Ring.quietExit, hp] at hquiet
    rcases Bool.eq_false_or_eq_true s.isActive with hactive | hactive
    · have hidle : (if s.isActive = true then ReaderPhase.idle else .ended) = .ended := hended
      rw [if_pos hactive] at hidle
      cases hidle
    · have hslot : (s.isActive || s.writerSlot == tested) = true := hquiet
      rw [hactive, Bool.false_or] at hslot
      exact ⟨hactive, (hok.consumed_all_iff hp).mpr (eq_of_beq hslot)⟩
  case h_1 => split at hexec <;> (cases hexec; cases hended)
  case h_7 => cases hexec
  all_goals (cases hexec; cases hended)

/--
**Nothing is lost at shutdown by a reader that tests quietly.**

`OpenNext` returns `NULL` with every closed entry consumed, in every run in which the
writer's index does not move between a test that finds no data and the `isActive` that
is found cleared.
-/
theorem openNext_null_quiet {s : Ring α} (h : Reaches RingStart (QuietStep n reset) s)
    (hended : s.reader = .ended) : s.consumed = s.written.map Prod.snd := by
  have hboth : s.Ok n ∧ s.NothingLost := by
    refine h.invariant (P := fun s => s.Ok n ∧ s.NothingLost) ?_ ?_
    · rintro s ⟨payload, rfl⟩
      exact ⟨Ring.ok_empty n payload, fun h => by cases h⟩
    · rintro s t ⟨hok, hlost⟩ ⟨e, hquiet, hexec⟩
      refine ⟨hok.exec hexec, ?_⟩
      unfold Ring.exec at hexec
      cases hw : s.writerExec n reset s.writer e with
      | some t' =>
          rw [hw] at hexec
          cases hexec
          exact hlost.writerExec hok hw
      | none =>
          rw [hw] at hexec
          exact Ring.NothingLost.readerExec hok hquiet hexec
  exact (hboth.2 hended).2

/-- A payload is written and read, and the reader ends after the writer has exited. -/
theorem openNext_null_quiet_pair :
    ∃ s : Ring Nat, s.consumed = [7] ∧ s.consumed = s.written.map Prod.snd := by
  have hrun : ∀ {s}, after (Ring.exec pairRing id) Ring.quietExit
      (writerSends 7 ++ readerTakes ++ [.writerExiting, .readerTest, .readerBlocked])
      (Ring.empty fun _ => 0) = some s → Reaches RingStart (QuietStep pairRing id) s :=
    fun h => Reaches.after (fun _ e _ hq he => ⟨e, hq, he⟩) (.start ⟨_, rfl⟩) h
  exact ⟨_, rfl, openNext_null_quiet (hrun rfl) rfl⟩

/-- The writer closes an entry and exits between the reader's two looks. -/
theorem openNext_null_loses : ¬ ∀ s : Ring Nat, Reaches RingStart (RingStep pairRing id) s →
    s.reader = .ended → s.consumed = s.written.map Prod.snd := by
  intro h
  have hrun := reaches_pairRing ([.readerTest] ++ writerSends 7 ++
    [.writerExiting, .readerBlocked]) rfl
  have hall := h _ hrun rfl
  cases hall

end AsimFeeder.SoftSDV
