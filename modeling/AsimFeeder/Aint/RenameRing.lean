/-
The ring of instructions in flight.

Instructions have positions: each is fetched at the position behind the youngest one, and
lives in the slot of its position.  A kill takes positions back, so that they are used
again.  All that is in the ring are the instructions at the positions from `o` on
(`Ring`); the identifier of the thread is the slot of the youngest, or of the last one
that left.
-/
import AsimFeeder.Aint.Rename
import AsimFeeder.Lib.Slots

namespace AsimFeeder.Aint

open Lib

/-! ### Slots -/

/-- The slot of position `p`. -/
def slotOf (p : Nat) : UInt64 := UInt64.ofNat (p % 1024)

theorem toNat_slotOf (p : Nat) : (slotOf p).toNat = p % 1024 := by
  unfold slotOf
  rw [UInt64.toNat_ofNat_of_lt']
  have := Nat.mod_lt p (show 0 < 1024 by decide)
  exact Nat.lt_trans this (by decide)

theorem slotOf_lt (p : Nat) : slotOf p < CBIF_SIZE := by
  rw [UInt64.lt_iff_toNat_lt, toNat_slotOf]
  exact Nat.mod_lt p (by decide)

theorem slotOf_inj {p q : Nat} (h : slotOf p = slotOf q) (hpq : p < q + 1024)
    (hqp : q < p + 1024) : p = q := by
  apply mod_inj (n := 1024) _ hpq hqp
  rw [← toNat_slotOf, h, toNat_slotOf]

theorem toNat_mask (i : UInt64) : (i &&& (CBIF_SIZE - 1)).toNat = i.toNat % 1024 := by
  rw [UInt64.toNat_and]
  exact Nat.and_two_pow_sub_one_eq_mod i.toNat 10

theorem SUCC_CIRC_slotOf (p : Nat) : SUCC_CIRC (slotOf p) = slotOf (p + 1) := by
  have hone : (1 : UInt64).toNat = 1 := rfl
  apply UInt64.toNat_inj.mp
  unfold SUCC_CIRC
  rw [toNat_mask, UInt64.toNat_add, toNat_slotOf, toNat_slotOf, hone]
  omega

theorem PRED_CIRC_slotOf (p : Nat) : PRED_CIRC (slotOf (p + 1)) = slotOf p := by
  have hone : (1 : UInt64).toNat = 1 := rfl
  have hsize : CBIF_SIZE.toNat = 1024 := rfl
  apply UInt64.toNat_inj.mp
  unfold PRED_CIRC
  rw [toNat_mask, UInt64.toNat_sub, UInt64.toNat_add, toNat_slotOf, toNat_slotOf, hone, hsize]
  omega

/-- The slots of the `n` positions from `o` on. -/
def slots (o n : Nat) : List UInt64 := (List.range' o n).map slotOf

@[simp] theorem length_slots (o n : Nat) : (slots o n).length = n := by
  simp [slots]

theorem slots_add (o m n : Nat) : slots o (m + n) = slots o m ++ slots (o + m) n := by
  unfold slots
  rw [← List.range'_append_1, List.map_append]

theorem slots_succ (o n : Nat) : slots o (n + 1) = slots o n ++ [slotOf (o + n)] :=
  slots_add o n 1

theorem slots_cons (o n : Nat) : slots o (n + 1) = slotOf o :: slots (o + 1) n := by
  rw [Nat.add_comm n 1]
  exact slots_add o 1 n

theorem mem_slots {o n : Nat} {i : UInt64} :
    i ∈ slots o n ↔ ∃ p, o ≤ p ∧ p < o + n ∧ slotOf p = i := by
  unfold slots
  rw [List.mem_map]
  simp only [List.mem_range'_1, and_assoc]

theorem nodup_slots {o n : Nat} (hn : n ≤ 1024) : (slots o n).Nodup := by
  unfold slots
  apply List.Nodup.map_on _ List.nodup_range'
  intro p hp q hq h
  rw [List.mem_range'_1] at hp hq
  exact slotOf_inj h (by omega) (by omega)

/-! ### What a step does, apart from the registers -/

namespace RenameThread

variable {t t' : RenameThread} {instid : UInt64}

/-- A fetch enters an instruction behind the youngest, where nothing is in use. -/
theorem fetch_eq {picode : Icode} (h : t.AINT_fetch_next_instr (some picode) = some t') :
    (t.cbif (SUCC_CIRC t.instid)).picode = none ∧ ∃ args old regs, t' = { t with
      instid := SUCC_CIRC t.instid
      cbif := Function.update t.cbif (SUCC_CIRC t.instid)
        ⟨some picode, args, old, t.fetch_count, false⟩
      fetch_count := t.fetch_count + 1
      regs := regs
      flight := t.flight ++ [SUCC_CIRC t.instid] } := by
  unfold AINT_fetch_next_instr at h
  dsimp only at h
  split at h
  · cases h
  · rename_i hfree
    refine ⟨by simpa using hfree, ?_⟩
    cases hdest : picode.dest with
    | none =>
        rw [hdest] at h
        cases h
        exact ⟨_, _, _, rfl⟩
    | some dest =>
        rw [hdest] at h
        obtain ⟨⟨pr, regs⟩, -, rfl⟩ := Option.map_eq_some_iff.mp h
        exact ⟨_, _, _, rfl⟩

theorem writeCells_eq {writes : List (Target × Int)} (h : writeCells instid writes t = some t') :
    ∃ regs, t' = { t with regs := regs } := by
  induction writes generalizing t with
  | nil =>
      cases h
      exact ⟨_, rfl⟩
  | cons w rest ih =>
      rw [writeCells, Option.bind_eq_some_iff] at h
      obtain ⟨pr, -, hrest⟩ := h
      obtain ⟨regs, rfl⟩ := ih hrest
      exact ⟨regs, rfl⟩

theorem issue_eq {writes : List (Target × Int)}
    (h : t.AINT_issue_other instid writes = some t') : ∃ regs, t' = { t with regs := regs } := by
  unfold AINT_issue_other at h
  dsimp only at h
  split at h
  · cases h
    exact ⟨_, rfl⟩
  · split at h
    · exact writeCells_eq h
    · obtain ⟨regs, rfl⟩ := writeCells_eq h
      exact ⟨regs, rfl⟩

theorem commit_eq (h : t.AINT_commit_instr instid = some t')
    (huncommitted : (t.cbif instid).committed = false) : ∃ regs, t' = { t with
      regs := regs
      cbif := Function.update t.cbif instid
        { t.cbif instid with picode := none, committed := true }
      flight := t.flight.tail } := by
  unfold AINT_commit_instr at h
  dsimp only at h
  obtain ⟨picode, -, h⟩ := Option.bind_eq_some_iff.mp h
  split at h
  · cases h
  · rw [huncommitted, if_neg Bool.false_ne_true] at h
    cases h
    exact ⟨_, rfl⟩

end RenameThread

/-! ### What is in the ring -/

/-- The instructions in flight are those at the positions from `o` on. -/
structure Ring (t : RenameThread) (o : Nat) : Prop where
  start : 1024 ≤ o
  flight : t.flight = slots o t.flight.length
  room : t.flight.length ≤ 1024
  alive : ∀ i ∈ t.flight, ∃ picode, (t.cbif i).picode = some picode
  others : ∀ i < CBIF_SIZE, i ∉ t.flight → (t.cbif i).picode = none
  youngest : t.instid = slotOf (o + t.flight.length - 1) ∨
    t.instid = 0xffffffffffffffff ∧ t.flight = [] ∧ o = 1024

namespace Ring

variable {t : RenameThread} {o : Nat}

theorem nodup (h : Ring t o) : t.flight.Nodup := by
  rw [h.flight]
  exact nodup_slots h.room

theorem next (h : Ring t o) : SUCC_CIRC t.instid = slotOf (o + t.flight.length) := by
  rcases h.youngest with hyoungest | ⟨hstart, hempty, rfl⟩
  · have := h.start
    rw [hyoungest, SUCC_CIRC_slotOf, Nat.sub_add_cancel (by omega)]
  · rw [hstart, hempty]
    rfl

/-- With something in flight, the identifier is that of the youngest. -/
theorem last (h : Ring t o) {l : List UInt64} {i : UInt64} (hflight : t.flight = l ++ [i]) :
    t.instid = i ∧ l = slots o l.length ∧ i = slotOf (o + l.length) := by
  have hslots := h.flight
  have hlength : t.flight.length = l.length + 1 := by rw [hflight]; simp
  rw [hlength, slots_succ, hflight] at hslots
  obtain ⟨hl, hi⟩ := List.append_inj' hslots rfl
  obtain rfl := List.singleton_inj.mp hi
  refine ⟨?_, hl, rfl⟩
  rcases h.youngest with hyoungest | ⟨-, hempty, -⟩
  · rw [hyoungest, hlength]
    rfl
  · rw [hempty] at hlength
    cases hlength

/-- An instruction in flight splits the others into those before and behind it. -/
theorem split (h : Ring t o) {instid : UInt64} (hmem : instid ∈ t.flight) :
    ∃ k m, t.flight = slots o (k + 1 + m) ∧ instid = slotOf (o + k) ∧
      t.instid = slotOf (o + k + m) := by
  have hflight := h.flight
  rw [hflight, mem_slots] at hmem
  obtain ⟨p, hop, hpn, rfl⟩ := hmem
  have hlength : t.flight.length = p - o + 1 + (t.flight.length - (p - o + 1)) := by omega
  refine ⟨p - o, t.flight.length - (p - o + 1), ?_, ?_, ?_⟩
  · rw [← hlength]
    exact hflight
  · rw [Nat.add_sub_cancel' hop]
  · rcases h.youngest with hyoungest | ⟨-, hempty, -⟩
    · rw [hyoungest]
      congr 1
      omega
    · rw [hempty] at hpn
      simp only [List.length_nil] at hpn
      omega

/-- The identifier of the thread, if it is in use, is that of the youngest instruction. -/
theorem flight_concat (h : Ring t o) (hlt : t.instid < CBIF_SIZE) {picode : Icode}
    (hpicode : (t.cbif t.instid).picode = some picode) : ∃ l, t.flight = l ++ [t.instid] := by
  have hmem : t.instid ∈ t.flight := by
    by_contra hnot
    rw [h.others _ hlt hnot] at hpicode
    cases hpicode
  rcases List.eq_nil_or_concat t.flight with hnil | ⟨l, i, hl⟩
  · rw [hnil] at hmem
    cases hmem
  · rw [List.concat_eq_append] at hl
    exact ⟨l, by rw [(h.last hl).1]; exact hl⟩

theorem init : Ring .init 1024 where
  start := Nat.le_refl _
  flight := rfl
  room := Nat.zero_le _
  alive := fun _ hi => by cases hi
  others := fun _ _ _ => rfl
  youngest := .inr ⟨rfl, rfl, rfl⟩

/-- A new instruction gets a slot that is not in use, so there is room for it. -/
theorem next_notMem (h : Ring t o) (hfree : (t.cbif (SUCC_CIRC t.instid)).picode = none) :
    SUCC_CIRC t.instid ∉ t.flight ∧ t.flight.length < 1024 := by
  have hnot : SUCC_CIRC t.instid ∉ t.flight := by
    intro hmem
    obtain ⟨picode, hpicode⟩ := h.alive _ hmem
    rw [hpicode] at hfree
    cases hfree
  refine ⟨hnot, Nat.lt_of_le_of_ne h.room fun hfull => hnot ?_⟩
  rw [h.flight, mem_slots, h.next]
  refine ⟨o, Nat.le_refl o, by omega, ?_⟩
  rw [hfull]
  unfold slotOf
  rw [Nat.add_mod_right]

variable {t' : RenameThread}

theorem congr (h : Ring t o) (hinstid : t'.instid = t.instid) (hcbif : t'.cbif = t.cbif)
    (hflight : t'.flight = t.flight) : Ring t' o where
  start := h.start
  flight := by rw [hflight]; exact h.flight
  room := by rw [hflight]; exact h.room
  alive := by rw [hflight, hcbif]; exact h.alive
  others := by rw [hflight, hcbif]; exact h.others
  youngest := by rw [hflight, hinstid]; exact h.youngest

/-- A new instruction goes behind the youngest. -/
theorem enter (h : Ring t o) (hfree : (t.cbif (SUCC_CIRC t.instid)).picode = none)
    {x : InflightInst} {picode : Icode} (hx : x.picode = some picode)
    (hinstid : t'.instid = SUCC_CIRC t.instid)
    (hcbif : t'.cbif = Function.update t.cbif (SUCC_CIRC t.instid) x)
    (hflight : t'.flight = t.flight ++ [SUCC_CIRC t.instid]) : Ring t' o := by
  obtain ⟨hnot, hroom⟩ := h.next_notMem hfree
  have hlength : t'.flight.length = t.flight.length + 1 := by rw [hflight]; simp
  exact {
    start := h.start
    flight := by rw [hlength, slots_succ, hflight, h.next, ← h.flight]
    room := by omega
    alive := by
      intro i hi
      rw [hcbif]
      by_cases hnew : i = SUCC_CIRC t.instid
      · subst hnew
        rw [Function.update_self]
        exact ⟨picode, hx⟩
      · rw [Function.update_of_ne hnew]
        rw [hflight] at hi
        exact h.alive i ((List.mem_append.mp hi).resolve_right (by simpa using hnew))
    others := by
      intro i hi hnotMem
      rw [hflight, List.mem_append, not_or] at hnotMem
      rw [hcbif, Function.update_of_ne (by simpa using hnotMem.2)]
      exact h.others i hi hnotMem.1
    youngest := by
      refine .inl ?_
      rw [hinstid, h.next, hlength]
      rfl }

/-- The oldest instruction leaves. -/
theorem leaveFirst (h : Ring t o) {i : UInt64} {l : List UInt64} (hold : t.flight = i :: l)
    {x : InflightInst} (hx : x.picode = none) (hinstid : t'.instid = t.instid)
    (hcbif : t'.cbif = Function.update t.cbif i x) (hflight : t'.flight = l) :
    Ring t' (o + 1) := by
  have hlength : t.flight.length = t'.flight.length + 1 := by rw [hold, hflight]; simp
  have hslots := h.flight
  have hnodup := h.nodup
  rw [hlength, slots_cons, hold, ← hflight] at hslots
  rw [hold, List.nodup_cons] at hnodup
  obtain ⟨-, htail⟩ := List.cons_eq_cons.mp hslots
  exact {
    start := Nat.le_add_right_of_le h.start
    flight := htail
    room := by
      have := h.room
      omega
    alive := by
      intro j hj
      rw [hflight] at hj
      rw [hcbif, Function.update_of_ne]
      · exact h.alive j (by rw [hold]; exact List.mem_cons_of_mem i hj)
      · rintro rfl
        exact hnodup.1 hj
    others := by
      intro j hj hnotMem
      rw [hcbif]
      by_cases hji : j = i
      · subst hji
        rw [Function.update_self]
        exact hx
      · rw [Function.update_of_ne hji]
        apply h.others j hj
        rw [hold, List.mem_cons, not_or]
        exact ⟨hji, by rwa [hflight] at hnotMem⟩
    youngest := by
      rcases h.youngest with hyoungest | ⟨-, hempty, -⟩
      · refine .inl ?_
        rw [hinstid, hyoungest, hlength, Nat.add_right_comm, Nat.add_assoc]
      · rw [hold] at hempty
        cases hempty }

/-- The youngest instruction leaves. -/
theorem leaveLast (h : Ring t o) {i : UInt64} {l : List UInt64} (hold : t.flight = l ++ [i])
    {x : InflightInst} (hx : x.picode = none) (hinstid : t'.instid = PRED_CIRC t.instid)
    (hcbif : t'.cbif = Function.update t.cbif i x) (hflight : t'.flight = l) : Ring t' o := by
  obtain ⟨hyoungest, hl, hi⟩ := h.last hold
  have hnodup := h.nodup
  rw [hold] at hnodup
  have hnot : i ∉ l := by
    intro hmem
    exact (List.nodup_append.mp hnodup).2.2 i hmem i (List.mem_singleton.mpr rfl) rfl
  have hroom := h.room
  rw [hold, List.length_append, List.length_singleton] at hroom
  have hstart := h.start
  exact {
    start := h.start
    flight := by rw [hflight]; exact hl
    room := by rw [hflight]; omega
    alive := by
      intro j hj
      rw [hflight] at hj
      rw [hcbif, Function.update_of_ne]
      · exact h.alive j (by rw [hold]; exact List.mem_append_left _ hj)
      · rintro rfl
        exact hnot hj
    others := by
      intro j hj hnotMem
      rw [hcbif]
      by_cases hji : j = i
      · subst hji
        rw [Function.update_self]
        exact hx
      · rw [Function.update_of_ne hji]
        apply h.others j hj
        rw [hold, List.mem_append, not_or]
        exact ⟨by rwa [hflight] at hnotMem, by simpa using hji⟩
    youngest := by
      refine .inl ?_
      rw [hinstid, hyoungest, hi, hflight]
      have hpos : o + l.length = o + l.length - 1 + 1 := by omega
      rw [hpos, PRED_CIRC_slotOf]
      rfl }

end Ring

end AsimFeeder.Aint
