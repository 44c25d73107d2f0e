/-
Runs of the memory value model, and which loads a store leaves alone.

A run keeps beside the model which stores are only locally visible, newest first, and
which became globally visible, newest first.  Nothing in the model depends on these lists.

A store changes no load on other bytes as long as the bytes differ in their low 32 bits:
`mask_128b` cuts addresses to these, so cells of lines 4 GB apart are one cell.  A store
that becomes globally visible has to write the bytes it is for, too.
-/
import AsimFeeder.MemoryValues.MemoryStores
import AsimFeeder.Lib.Runs

namespace AsimFeeder.MemoryValues

open AsimFeeder.Lib

/-! ### Runs -/

structure Run where
  mvm : MemoryValueModel
  /-- The stores that only their processor sees, newest first. -/
  locals : List Ref
  /-- The stores that became globally visible, newest first. -/
  globals : List Ref
  /-- The stores that were visible in some way before. -/
  used : List Ref
  /-- How many stamps were handed out. -/
  stamped : Nat

def Event.globals : Event → List Ref → List Ref
  | .globallyVisible r, l => r :: l
  | _, l => l

namespace Run

/-- A run begins with an empty model. -/
def Start (r : Run) : Prop := ∃ stamps, r = ⟨.new stamps, [], [], [], 0⟩

def empty : Run := ⟨.new fun _ => 0, [], [], [], 0⟩

def exec (ops : Ref → MemOp) (r : Run) (e : Event) : Except String Run :=
  (r.mvm.exec ops e).map fun mvm => {
    mvm
    locals := e.stores r.locals
    globals := e.globals r.globals
    used := e.ref :: r.used
    stamped := if e.stamps then r.stamped + 1 else r.stamped }

theorem start_empty {step : Run → Run → Prop} : Reaches Start step empty := .start ⟨_, rfl⟩

/-- Any operation on any store. -/
def Step (ops : Ref → MemOp) (r t : Run) : Prop := ∃ e, r.exec ops e = .ok t

/-- The stamps have not wrapped around yet. -/
def InStamps (r : Run) : Prop := r.stamped ≤ 2 ^ 32 - 2

variable {ops : Ref → MemOp} {r t : Run} {e : Event}

theorem exec_spec (h : r.exec ops e = .ok t) :
    MemoryValueModel.Effect ops e r.mvm t.mvm ∧ t.locals = e.stores r.locals ∧
      t.globals = e.globals r.globals ∧ t.used = e.ref :: r.used ∧
      t.stamped = if e.stamps then r.stamped + 1 else r.stamped := by
  rw [exec] at h
  cases hm : r.mvm.exec ops e with
  | error msg => rw [hm] at h; cases h
  | ok mvm =>
      rw [hm] at h
      injection h with h
      subst h
      exact ⟨MemoryValueModel.exec_spec hm, rfl, rfl, rfl, rfl⟩

theorem InStamps.of_exec (ht : t.InStamps) (h : r.exec ops e = .ok t) : r.InStamps := by
  have hst := (exec_spec h).2.2.2.2
  rw [InStamps] at ht ⊢
  split at hst <;> omega

/-! ### What every run keeps -/

/-- Lists hold stores of their own cell and processor, each with a stamp. -/
structure Basic (ops : Ref → MemOp) (r : Run) : Prop where
  size : ∀ key, (r.mvm.cellAt key).localValues.length = nproc
  home : ∀ key p, ∀ q ∈ r.mvm.localStores key p,
    key = keyOf (ops q).pa ∧ p = (ops q).processor
  next : r.mvm.sTimeStamp = (2 + r.stamped) % 2 ^ 32
  stamps : r.InStamps → ∀ key p, ∀ q ∈ r.mvm.localStores key p,
    0 < r.mvm.timeStamp q ∧ r.mvm.timeStamp q ≤ maxStamp

theorem Basic.stamped (h : r.Basic ops) (hr : r.InStamps) : r.mvm.Stamped :=
  ⟨h.size, h.stamps hr⟩

theorem basic_start (h : r.Start) : r.Basic ops := by
  obtain ⟨stamps, rfl⟩ := h
  have hnil : ∀ key p, (MemoryValueModel.new stamps).localStores key p = [] :=
    fun key p => MemCell.stores_new p
  refine ⟨fun _ => List.length_replicate, ?_, rfl, ?_⟩
  · intro key p q hq
    rw [hnil] at hq
    cases hq
  · intro _ key p q hq
    rw [hnil] at hq
    cases hq

/-- A store in a list after the event was there before or is the store of the event. -/
theorem mem_stores {l : List Ref} {q : Ref} (h : q ∈ e.stores l) :
    q ∈ l ∨ (q = e.ref ∧ e.stamps = true) := by
  cases e with
  | locallyVisible r =>
      rcases List.mem_cons.mp h with rfl | h
      · exact Or.inr ⟨rfl, rfl⟩
      · exact Or.inl h
  | killed r => exact Or.inl (List.mem_of_mem_filter h)
  | globallyVisible r => exact Or.inl (List.mem_of_mem_filter h)

theorem Basic.exec (hr : r.Basic ops) (h : r.exec ops e = .ok t) : t.Basic ops := by
  obtain ⟨heff, -, -, -, hst⟩ := exec_spec h
  have hmem : ∀ key p, ∀ q ∈ t.mvm.localStores key p, q ∈ r.mvm.localStores key p ∨
      (q = e.ref ∧ e.stamps = true ∧ key = keyOf (ops q).pa ∧ p = (ops q).processor) := by
    intro key p q hq
    rw [heff.stores] at hq
    split at hq
    · rename_i hhome
      rcases mem_stores hq with hq | ⟨rfl, hstamp⟩
      · exact Or.inl hq
      · exact Or.inr ⟨rfl, hstamp, hhome⟩
    · exact Or.inl hq
  refine ⟨fun key => heff.size key (hr.size key), ?_, ?_, ?_⟩
  · intro key p q hq
    rcases hmem key p q hq with hq | ⟨-, -, hhome⟩
    · exact hr.home key p q hq
    · exact hhome
  · rw [heff.sTimeStamp, hst, hr.next]
    by_cases hstamp : e.stamps = true
    · rw [if_pos hstamp, if_pos hstamp]
      omega
    · rw [if_neg hstamp, if_neg hstamp]
  · intro ht key p q hq
    have hr' := ht.of_exec h
    rw [heff.timeStamp]
    by_cases hstamp : e.stamps = true
    · rw [if_pos hstamp, Function.update_apply]
      by_cases hqe : q = e.ref
      · rw [if_pos hqe, hr.next, maxStamp]
        rw [InStamps, hst, if_pos hstamp] at ht
        omega
      · rw [if_neg hqe]
        rcases hmem key p q hq with hq | ⟨hqe', -⟩
        · exact hr.stamps hr' key p q hq
        · exact absurd hqe' hqe
    · rw [if_neg hstamp]
      rcases hmem key p q hq with hq | ⟨-, hstamp', -⟩
      · exact hr.stamps hr' key p q hq
      · exact absurd hstamp' hstamp

theorem basic_of_reaches (h : Reaches Start (Step ops) r) : r.Basic ops :=
  h.invariant (fun _ => basic_start) fun _ _ hr ⟨_, he⟩ => hr.exec he

/-! ### Loads that a store leaves alone -/

section Frame

variable {s s' : MemoryValueModel} {key : BitVec 64} {p sz : Nat} {pa : BitVec 64} {k : Fin 16}

/-- What a processor finds for a byte that the event's store does not touch. -/
theorem found_eq (heff : MemoryValueModel.Effect ops e s s')
    (hhome : ∀ q ∈ s.localStores key p, key = keyOf (ops q).pa ∧ p = (ops q).processor)
    (hlist : key = keyOf (ops e.ref).pa → p = (ops e.ref).processor →
      (ops e.ref).touches k = false)
    (hwrite : e.writes ops key k = false) : s'.found ops key p k = s.found ops key p k := by
  have hbasis : s'.basis key k = s.basis key k := by
    rw [MemoryValueModel.basis, MemoryValueModel.basis, heff.hasByte, heff.globalByte, hwrite,
      Bool.or_false, if_neg Bool.false_ne_true]
  have hscan : ∀ best,
      scan (fun q => (ops q).touches k) s'.timeStamp (fun q => (ops q).value k)
        (s.localStores key p) best =
      scan (fun q => (ops q).touches k) s.timeStamp (fun q => (ops q).value k)
        (s.localStores key p) best := by
    refine scan_congr fun q hq hhit => ?_
    rw [heff.timeStamp]
    split
    · refine Function.update_of_ne ?_ _ _
      rintro rfl
      obtain ⟨hk, hp⟩ := hhome _ hq
      rw [hlist hk hp] at hhit
      cases hhit
    · rfl
  rw [MemoryValueModel.found, MemoryValueModel.found, hbasis, heff.stores, ← hscan]
  split
  · rename_i hhere
    have htouch := hlist hhere.1 hhere.2
    cases e with
    | locallyVisible q =>
        exact @scan_cons_of_not_hit _ _ (fun a => (ops a).touches k) _ _ q _ htouch _
    | killed q =>
        refine scan_filter (fun a _ ha => ?_) _
        rw [decide_eq_false_iff_not, not_not] at ha
        rw [ha]
        exact htouch
    | globallyVisible q =>
        refine scan_filter (fun a _ ha => ?_) _
        rw [decide_eq_false_iff_not, not_not] at ha
        rw [ha]
        exact htouch
  · rfl

/-- The store of `e` and the load of `sz` bits from `pa` have nothing to do with each other. -/
structure Apart (ops : Ref → MemOp) (e : Event) (sz : Nat) (pa : BitVec 64) : Prop where
  /-- No byte of one has the low 32 address bits of a byte of the other. -/
  low32 : ∀ i < (ops e.ref).size / 8, ∀ j < sz / 8,
    ((ops e.ref).pa.toNat + i) % 2 ^ 32 ≠ (pa.toNat + j) % 2 ^ 32
  /-- `set_global_value` writes no byte of the load. -/
  element : ∀ j < sz / 8, e.writes ops (keyOf pa) (byteAt pa j) = false

/-- A load by processor `p` gets the same state and the same bytes. -/
def SameLoad (ops : Ref → MemOp) (s s' : MemoryValueModel) (sz p : Nat) (pa : BitVec 64) : Prop :=
  ∃ m m', s.readValueNow ops (MemOp.new sz p pa) = .ok m ∧
    s'.readValueNow ops (MemOp.new sz p pa) = .ok m' ∧ m'.state = m.state ∧
      ∀ j < sz / 8, m'.getValue8 (pa + BitVec.ofNat 64 j) = m.getValue8 (pa + BitVec.ofNat 64 j)

theorem sameLoad_of_found (hs : s.Stamped) (hs' : s'.Stamped) (hpa : InLine sz pa) (hp : p < nproc)
    (h : ∀ j < sz / 8, s'.found ops (keyOf pa) p (byteAt pa j) =
      s.found ops (keyOf pa) p (byteAt pa j)) : SameLoad ops s s' sz p pa := by
  obtain ⟨m, hm, hstate, hbytes⟩ := @readValueNow_spec ops _ hs _ _ _ hpa hp
  obtain ⟨m', hm', hstate', hbytes'⟩ := @readValueNow_spec ops _ hs' _ _ _ hpa hp
  refine ⟨m, m', hm, hm', ?_, ?_⟩
  · rw [hstate, hstate']
    congr 1
    refine propext (forall_congr' fun j => imp_congr_right fun hj => ?_)
    rw [h j hj]
  · intro j hj
    rw [hbytes j hj, hbytes' j hj, h j hj]

/-- **A store leaves alone the loads of other bytes, and a local store those of others.** -/
theorem load_unchanged (h : Reaches Start (Step ops) r) (he : r.exec ops e = .ok t)
    (ht : t.InStamps) (hpa : InLine sz pa) (hp : p < nproc)
    (hst : InLine (ops e.ref).size (ops e.ref).pa)
    (hapart : Apart ops e sz pa ∨ (e.stamps = true ∧ p ≠ (ops e.ref).processor)) :
    SameLoad ops r.mvm t.mvm sz p pa := by
  have hr := basic_of_reaches h
  have heff := (exec_spec he).1
  refine sameLoad_of_found (hr.stamped (ht.of_exec he)) ((hr.exec he).stamped ht) hpa hp ?_
  intro j hj
  refine found_eq heff (fun q hq => hr.home _ _ q hq) ?_ ?_
  · intro hkey hproc
    rcases hapart with hapart | ⟨-, hother⟩
    · by_contra htouch
      obtain ⟨i, hi, hbyte⟩ := (MemOp.touches_iff _ _).mp (Bool.eq_true_of_not_eq_false htouch)
      refine hapart.low32 i hi j hj ?_
      rw [hst.low32 hi, hpa.low32 hj, hkey, hbyte]
    · exact absurd hproc hother
  · rcases hapart with hapart | ⟨hstamp, -⟩
    · exact hapart.element j hj
    · cases e with
      | locallyVisible q => rfl
      | killed q => cases hstamp
      | globallyVisible q => cases hstamp

end Frame

/-- A store of 7 to byte 0, and one of 5 to byte 9. -/
def twoStores : Ref → MemOp := fun ref =>
  if ref = 0 then (MemOp.new 8 0 0).setValue128 fun _ => 7
  else (MemOp.new 8 0 9).setValue128 fun _ => 5

/-- A load gets byte 0 from the first store, before and after the second. -/
theorem load_unchanged_byte : ∃ s t m, Reaches Start (Step twoStores) s ∧
    s.exec twoStores (.globallyVisible 1) = .ok t ∧ SameLoad twoStores s.mvm t.mvm 8 1 0 ∧
      s.mvm.readValueNow twoStores (MemOp.new 8 1 0) = .ok m ∧ m.state = .valueBound ∧
      m.getValue8 0 = 7 := by
  have hfirst : Step twoStores empty _ := ⟨.globallyVisible 0, rfl⟩
  have hreach := start_empty.step hfirst
  exact ⟨_, _, _, hreach, rfl, load_unchanged (e := .globallyVisible 1) hreach rfl (Nat.zero_le _)
    ⟨by decide, by decide⟩ (by decide) ⟨by decide, by decide⟩ (Or.inl ⟨by decide, by decide⟩), rfl,
    rfl, rfl⟩

/-- Eight bytes from byte 8 on. -/
def upperStore : Ref → MemOp := fun _ => (MemOp.new 64 0 8).setValue128 fun _ => 1

/-- Bytes 8 to 15 become globally visible as bytes 0 to 7. -/
theorem load_changed_by_upper_store : ∃ t,
    Reaches Start (Step upperStore) empty ∧
      empty.exec upperStore (.globallyVisible 0) = .ok t ∧ t.InStamps ∧
      ¬ SameLoad upperStore empty.mvm t.mvm 64 0 0 := by
  refine ⟨_, start_empty, rfl, Nat.zero_le _, ?_⟩
  rintro ⟨m, m', hm, hm', hstate, -⟩
  have hbefore := congrArg (fun x => x.toOption.map MemOp.state) hm
  have hafter := congrArg (fun x => x.toOption.map MemOp.state) hm'
  have h : some MemState.valueNotBound = some m.state := hbefore
  have h' : some MemState.valueBound = some m'.state := hafter
  rw [hstate, ← h] at h'
  cases h'

end Run

end AsimFeeder.MemoryValues
