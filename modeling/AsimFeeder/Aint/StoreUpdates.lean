/-
What the operations of one instruction do to the store buffer.

The entries of an instruction are those that it points to (`held`).  Cleaning up takes
out exactly these, if the lists are found (`SafeCleanup`); a speculative write exchanges
them for new ones.  The entries of all others stay.
-/
import AsimFeeder.Aint.AintThread
import AsimFeeder.Aint.StoreContent

namespace AsimFeeder.Aint

open Lib

namespace Memop

/-- The entries that an instruction points to. -/
def held (x : Memop) : List StqEntry := x.stq_update.toList ++ x.stq_update_array.getD []

/-- A scalar store has no array, and a vector store nothing else. -/
structure Pointed (x : Memop) : Prop where
  scalar : x.is_vector = false → x.stq_update_array = none
  vector : x.is_vector = true → x.stq_update = none

/-- The operation of an instruction and its entries belong together. -/
structure Shaped (x : Memop) : Prop extends Pointed x where
  idle : x.isStore = false → x.stq_update = none ∧ x.stq_update_array = none
  own : ∀ u ∈ x.held, u.fetchnum = x.fetchnum
  masks : ∀ u ∈ x.held, u.bitmask = byteMask x.size u.vaddr
  wrote : x.is_vector = false → x.kind = .store →
    x.stq_update.map (fun u => (u.vaddr, u.data)) = x.wrote
  mask : x.is_vector = false → x.kind ≠ .none → x.issued = true →
    x.bitmask = byteMask x.size x.vaddr
  done : x.is_vector = false → x.kind = .store → x.done_spec_write = true →
    x.wrote = some (x.vaddr, x.data)
  memop : x.is_vector = false → x.kind = .store → x.done_memop = true → x.done_spec_write = true

/-- The list of the last entry of a quadword is found: by the address that the instruction
has now, or, for a vector store, all along the array. -/
structure SafeCleanup (VL : Nat) (x : Memop) (others : List StqEntry) : Prop where
  address : ∀ u, x.stq_update = some u → (∀ v ∈ others, v.addr ≠ u.addr) →
    x.vaddr &&& QWORD_MASK = u.addr
  length : x.is_vector = true → ∀ array, x.stq_update_array = some array → array.length = VL

variable {x : Memop} {sb : StoreBuffer} {l : List StqEntry} {VL : Nat}

theorem shaped_fetched (picode : MemIcode) (fetchnum vl : Nat) :
    (fetched picode fetchnum vl).Shaped where
  own := fun _ hu => by cases hu
  masks := fun _ hu => by cases hu
  scalar := fun _ => rfl
  vector := fun _ => rfl
  idle := fun _ => ⟨rfl, rfl⟩
  wrote := fun _ _ => rfl
  mask := fun _ _ hissued => by cases hissued
  done := fun _ _ hdone => by cases hdone
  memop := fun _ _ hdone => by cases hdone

/-- Issuing again keeps the entries, whatever the address is now. -/
theorem Shaped.event (hx : x.Shaped) (pmap : BitVec 64 → BitVec 64) (vaddr data : BitVec 64) :
    (Memop.event pmap vaddr data
      { x with done_memop := false, done_spec_write := false, issued := true }).Shaped where
  scalar := hx.scalar
  vector := hx.vector
  idle := hx.idle
  own := hx.own
  masks := hx.masks
  wrote := hx.wrote
  mask := fun _ _ _ => rfl
  done := fun _ _ hdone => by cases hdone
  memop := fun _ _ hdone => by cases hdone

theorem Shaped.issued (hx : x.Shaped) (hkind : x.kind = .none) :
    Shaped { x with done_memop := false, done_spec_write := false, issued := true } where
  scalar := hx.scalar
  vector := hx.vector
  idle := hx.idle
  own := hx.own
  masks := hx.masks
  wrote := hx.wrote
  mask := fun _ hne => absurd hkind hne
  done := fun _ _ hdone => by cases hdone
  memop := fun _ _ hdone => by cases hdone

/-- A load that is done. -/
theorem Shaped.load (hx : x.Shaped) (hkind : x.kind = .load) (vaddr paddr data : BitVec 64)
    (hvaddr : x.is_vector = false → vaddr = x.vaddr) :
    Shaped { x with vaddr := vaddr, paddr := paddr, data := data, done_memop := true } where
  scalar := hx.scalar
  vector := hx.vector
  idle := hx.idle
  own := hx.own
  masks := hx.masks
  wrote := hx.wrote
  mask := by
    intro hscalar hne hissued
    show x.bitmask = byteMask x.size vaddr
    rw [hvaddr hscalar]
    exact hx.mask hscalar hne hissued
  done := fun _ hstore => by
    have hstore : x.kind = .store := hstore
    rw [hkind] at hstore
    cases hstore
  memop := fun _ hstore => by
    have hstore : x.kind = .store := hstore
    rw [hkind] at hstore
    cases hstore

/-- A store that is done. -/
theorem Shaped.store (hx : x.Shaped) (hdone : x.done_spec_write = true)
    (vaddr paddr data : BitVec 64)
    (hscalar : x.is_vector = false → vaddr = x.vaddr ∧ data = x.data) :
    Shaped { x with vaddr := vaddr, paddr := paddr, data := data, done_memop := true } where
  scalar := hx.scalar
  vector := hx.vector
  idle := hx.idle
  own := hx.own
  masks := hx.masks
  wrote := hx.wrote
  mask := by
    intro hs hne hissued
    show x.bitmask = byteMask x.size vaddr
    rw [(hscalar hs).1]
    exact hx.mask hs hne hissued
  done := by
    intro hs hstore hd
    show x.wrote = some (vaddr, data)
    rw [(hscalar hs).1, (hscalar hs).2]
    exact hx.done hs hstore hd
  memop := fun _ _ _ => hdone

/-! ### Cleaning up -/

/-- What is left after a clean up. -/
def cleaned (x : Memop) (vaddr : BitVec 64) : Memop :=
  { x with stq_update := none, stq_update_array := none, vaddr := vaddr }

theorem cleaned_self (hupdate : x.stq_update = none) (harray : x.stq_update_array = none) :
    x.cleaned x.vaddr = x := by
  unfold cleaned
  rw [← hupdate, ← harray]

/-- **A clean up takes out exactly the entries of the instruction.** -/
theorem cleanup_spec (h : sb.Holds (x.held ++ l)) (hx : x.Pointed) (hsafe : x.SafeCleanup VL l) :
    ∃ vaddr sb', Cleanup_StoreBuffer VL x sb = .ok (x.cleaned vaddr, sb') ∧ sb'.Holds l := by
  unfold Cleanup_StoreBuffer
  unfold held at h
  cases harray : x.stq_update_array with
  | some array =>
      have hvector : x.is_vector = true := by
        by_contra hscalar
        rw [hx.scalar (by simpa using hscalar)] at harray
        cases harray
      have hlength := hsafe.length hvector array harray
      have hvl : (if x.is_vector then VL else 1) = array.length := by
        rw [hvector, if_pos rfl, hlength]
      rw [hx.vector hvector, harray, Option.toList_none, Option.getD_some, List.nil_append] at h
      obtain ⟨StoreQ, hclean, hholds⟩ := cleanupArray_spec h
      dsimp only
      rw [hvl, if_neg (Nat.lt_irrefl _), List.take_length, hclean]
      exact ⟨_, _, rfl, hholds⟩
  | none =>
      rw [harray] at h
      dsimp only
      cases hupdate : x.stq_update with
      | none =>
          rw [hupdate] at h
          exact ⟨x.vaddr, sb, by rw [cleaned_self hupdate harray], h⟩
      | some u =>
          have hscalar : x.is_vector = false := by
            by_contra hvector
            rw [hx.vector (by simpa using hvector)] at hupdate
            cases hupdate
          have hvl : (if x.is_vector then VL else 1) = 1 := by
            rw [hscalar, if_neg Bool.false_ne_true]
          rw [hupdate] at h
          obtain ⟨StoreQ, hunlink, hholds⟩ := unlinkUpdate_spec h (hsafe.address u hupdate)
          refine ⟨x.vaddr, _, ?_, hholds⟩
          dsimp only
          rw [hvl, if_neg Nat.one_ne_zero, hunlink]
          unfold cleaned
          rw [← harray]
          rfl

/-- There is nothing to find for an instruction that holds nothing. -/
theorem safeCleanup_of_none (hupdate : x.stq_update = none) (harray : x.stq_update_array = none) :
    x.SafeCleanup VL l where
  address := by
    intro u hu
    rw [hupdate] at hu
    cases hu
  length := by
    intro _ array hsome
    rw [harray] at hsome
    cases hsome

/-! ### Writing speculatively -/

/-- A scalar store that points to this entry, or to none. -/
def pointing (x : Memop) (update : Option StqEntry) : Memop :=
  { x with stq_update := update, stq_update_array := none }

theorem pointing_self (harray : x.stq_update_array = none) : x.pointing x.stq_update = x := by
  unfold pointing
  rw [← harray]

/-- Before it writes, an instruction keeps its entry only if it would write the same. -/
theorem cleanupOld_spec (h : sb.Holds (x.held ++ l)) (hx : x.Pointed)
    (hlength : x.is_vector = true → ∀ array, x.stq_update_array = some array → array.length = VL) :
    ∃ update sb', x.cleanupOld VL sb = .ok (x.pointing update, sb') ∧
      sb'.Holds (update.toList ++ l) ∧
      ∀ u, update = some u → x.is_vector = false ∧ x.stq_update = some u ∧
        u.vaddr = x.vaddr ∧ u.data = x.data := by
  unfold cleanupOld
  cases hneeds : x.needs_cleanup with
  | true =>
      have hsafe : SafeCleanup VL
          { x with vaddr := (x.stq_update.map StqEntry.vaddr).getD x.vaddr } l := by
        refine ⟨fun u hu _ => ?_, hlength⟩
        have hu : x.stq_update = some u := hu
        rw [hu]
        rfl
      obtain ⟨vaddr, sb', hclean, hholds⟩ := cleanup_spec
        (x := { x with vaddr := (x.stq_update.map StqEntry.vaddr).getD x.vaddr }) h
        ⟨hx.scalar, hx.vector⟩ hsafe
      dsimp only
      rw [if_pos rfl, hclean]
      exact ⟨none, sb', rfl, hholds, fun _ hu => by cases hu⟩
  | false =>
      dsimp only
      rw [if_neg Bool.false_ne_true]
      unfold needs_cleanup at hneeds
      obtain ⟨hsame, harray⟩ := Bool.or_eq_false_iff.mp hneeds
      have hnone : x.stq_update_array = none := by
        cases hvector : x.is_vector with
        | false => exact hx.scalar hvector
        | true =>
            rw [hvector] at harray
            simpa using harray
      refine ⟨x.stq_update, sb, by rw [pointing_self hnone], ?_, fun u hu => ?_⟩
      · unfold held at h
        rw [hnone] at h
        simpa using h
      · have hvector : x.is_vector = false := by
          by_contra hvector
          rw [hx.vector (by simpa using hvector)] at hu
          cases hu
        rw [hvector, hu] at hsame
        simp only [Bool.not_false, Bool.true_and, Option.any_some, Bool.or_eq_false_iff,
          bne_eq_false_iff_eq] at hsame
        exact ⟨hvector, hu, hsame⟩

/-- **The elements of a vector store** are written one after the other. -/
theorem specWriteElements_spec (pmap : BitVec 64 → BitVec 64) (instid : UInt64)
    (elements : List (BitVec 64 × BitVec 64)) {array : List StqEntry}
    (h : sb.Holds (array ++ l)) (hupdate : x.stq_update = none)
    (harray : x.stq_update_array = some array)
    (hown : ∀ u ∈ array, u.fetchnum = x.fetchnum ∧ u.bitmask = byteMask x.size u.vaddr ∧
      u.pos_in_vreg < array.length)
    (hothers : ∀ v ∈ l, v.fetchnum ≠ x.fetchnum) :
    ∃ x' array' sb', x.specWriteElements pmap instid elements sb = .ok (x', sb') ∧
      sb'.Holds (array' ++ l) ∧ x'.stq_update = none ∧ x'.stq_update_array = some array' ∧
      (∀ u ∈ array', u.fetchnum = x.fetchnum ∧ u.bitmask = byteMask x.size u.vaddr) ∧
      array'.length = array.length + elements.length ∧
      (x'.kind, x'.size, x'.is_vector, x'.fetchnum, x'.vl) =
        (x.kind, x.size, x.is_vector, x.fetchnum, x.vl) := by
  induction elements generalizing x sb array with
  | nil => exact ⟨x, array, sb, rfl, h, hupdate, harray,
    fun u hu => ⟨(hown u hu).1, (hown u hu).2.1⟩, rfl, rfl⟩
  | cons e elements ih =>
      obtain ⟨vaddr, data⟩ := e
      rw [specWriteElements, harray]
      dsimp only [Option.getD_some]
      generalize hy : ({ x.event pmap vaddr data with pos_in_vreg := array.length } : Memop) = y
      have hfetchnum : y.fetchnum = x.fetchnum := by rw [← hy]; rfl
      have hupdate' : y.stq_update = none := by rw [← hy]; exact hupdate
      have hpositions : ∀ v ∈ array ++ l, v.fetchnum = y.fetchnum →
          v.pos_in_vreg ≠ y.pos_in_vreg := by
        intro v hv hsame
        rw [hfetchnum] at hsame
        rcases List.mem_append.mp hv with hv | hv
        · rw [← hy]
          exact Nat.ne_of_lt (hown v hv).2.2
        · exact absurd hsame (hothers v hv)
      obtain ⟨sb₁, hwrite, hholds⟩ := Update_StoreBuffer_spec h instid hupdate' hpositions
      have harray' : y.stq_update_array = some array := by rw [← hy]; exact harray
      have hperm : (y.entry instid sb.allocated :: (array ++ l)).Perm
          (array ++ [y.entry instid sb.allocated] ++ l) := by
        rw [List.append_assoc]
        exact List.perm_middle.symm
      rw [hwrite]
      show ∃ x' array' sb', specWriteElements pmap instid elements { y with
        stq_update := none
        stq_update_array := some (y.stq_update_array.getD [] ++ [y.entry instid sb.allocated]) }
        sb₁ = .ok (x', sb') ∧ _
      rw [harray', Option.getD_some]
      have hnew : ∀ u ∈ array ++ [y.entry instid sb.allocated], u.fetchnum = y.fetchnum ∧
          u.bitmask = byteMask y.size u.vaddr ∧
          u.pos_in_vreg < (array ++ [y.entry instid sb.allocated]).length := by
        intro u hu
        rw [List.length_append, List.length_singleton]
        rcases List.mem_append.mp hu with hu | hu
        · obtain ⟨hf, hm, hlt⟩ := hown u hu
          refine ⟨hf.trans hfetchnum.symm, ?_, Nat.lt_succ_of_lt hlt⟩
          rw [hm, ← hy]
          rfl
        · rw [List.mem_singleton.mp hu, ← hy]
          exact ⟨rfl, rfl, Nat.lt_succ_self _⟩
      have hothers' : ∀ v ∈ l, v.fetchnum ≠ y.fetchnum := by
        rw [hfetchnum]
        exact hothers
      obtain ⟨x', array', sb', hrest, hholds', hupdate', harray'', hown', hlength, hsame⟩ := ih
        (x := { y with
          stq_update := none
          stq_update_array := some (array ++ [y.entry instid sb.allocated]) })
        (hholds.congr hperm) rfl rfl hnew hothers'
      refine ⟨x', array', sb', hrest, hholds', hupdate', harray'', ?_, ?_, ?_⟩
      · intro u hu
        rw [← hfetchnum]
        have hsize : x.size = y.size := by rw [← hy]; rfl
        rw [hsize]
        exact hown' u hu
      · rw [hlength, List.length_append, List.length_cons, List.length_cons, List.length_nil]
        omega
      · rw [hsame, ← hy]
        rfl

/-- What a speculative write leaves as it is. -/
structure Same (x x' : Memop) : Prop where
  kind : x'.kind = x.kind
  size : x'.size = x.size
  is_vector : x'.is_vector = x.is_vector
  fetchnum : x'.fetchnum = x.fetchnum
  address : x.is_vector = false →
    x'.vaddr = x.vaddr ∧ x'.paddr = x.paddr ∧ x'.issued = x.issued

/-- A vector store with its entries. -/
theorem shaped_of_array (hstore : x.isStore = true) (hvector : x.is_vector = true)
    (hupdate : x.stq_update = none)
    {array : List StqEntry} (harray : x.stq_update_array = some array)
    (hown : ∀ u ∈ array, u.fetchnum = x.fetchnum ∧ u.bitmask = byteMask x.size u.vaddr) :
    x.Shaped := by
  have hheld : x.held = array := by
    unfold held
    rw [hupdate, harray]
    rfl
  have hno {P : Prop} (hscalar : x.is_vector = false) : P :=
    absurd (hscalar.symm.trans hvector) Bool.false_ne_true
  exact {
    scalar := hno
    vector := fun _ => hupdate
    idle := fun hidle => absurd (hidle.symm.trans hstore) Bool.false_ne_true
    own := fun u hu => (hown u (hheld ▸ hu)).1
    masks := fun u hu => (hown u (hheld ▸ hu)).2
    wrote := hno
    mask := hno
    done := hno
    memop := hno }

/-- A scalar store with the entry that it has just written. -/
theorem shaped_of_update (hstore : x.isStore = true) (hscalar : x.is_vector = false)
    (harray : x.stq_update_array = none)
    {u : StqEntry} (hupdate : x.stq_update = some u) (hfetchnum : u.fetchnum = x.fetchnum)
    (hmask : u.bitmask = byteMask x.size u.vaddr) (hbitmask : x.bitmask = byteMask x.size x.vaddr)
    (hvaddr : u.vaddr = x.vaddr) (hdata : u.data = x.data)
    (hwrote : x.wrote = some (x.vaddr, x.data)) (hdone : x.done_spec_write = true) :
    x.Shaped := by
  have hheld : x.held = [u] := by
    unfold held
    rw [hupdate, harray]
    rfl
  exact {
    scalar := fun _ => harray
    vector := fun hvector => absurd (hscalar.symm.trans hvector) Bool.false_ne_true
    idle := fun hidle => absurd (hidle.symm.trans hstore) Bool.false_ne_true
    own := by
      intro v hv
      rw [hheld] at hv
      rw [List.mem_singleton.mp hv]
      exact hfetchnum
    masks := by
      intro v hv
      rw [hheld] at hv
      rw [List.mem_singleton.mp hv]
      exact hmask
    wrote := by
      intro _ _
      rw [hupdate, hwrote, Option.map_some, hvaddr, hdata]
    mask := fun _ _ _ => hbitmask
    done := fun _ _ _ => hwrote
    memop := fun _ _ _ => hdone }

/-- The update of a scalar store, which may find its entry in place. -/
theorem update_spec (instid : UInt64) (h : sb.Holds (x.stq_update.toList ++ l))
    (hkept : ∀ u, x.stq_update = some u → u.fetchnum = x.fetchnum ∧
      u.bitmask = byteMask x.size u.vaddr ∧ u.vaddr = x.vaddr ∧ u.data = x.data)
    (hbitmask : x.bitmask = byteMask x.size x.vaddr) (hothers : ∀ v ∈ l, v.fetchnum ≠ x.fetchnum) :
    ∃ u sb', Update_StoreBuffer instid x sb = .ok ({ x with stq_update := some u }, sb') ∧
      sb'.Holds (u :: l) ∧ u.fetchnum = x.fetchnum ∧ u.bitmask = byteMask x.size u.vaddr ∧
      u.vaddr = x.vaddr ∧ u.data = x.data := by
  cases hupdate : x.stq_update with
  | none =>
      rw [hupdate] at h
      obtain ⟨sb', hwrite, hholds⟩ := Update_StoreBuffer_spec h instid hupdate
        fun v hv hsame => absurd hsame (hothers v hv)
      exact ⟨x.entry instid sb.allocated, sb', hwrite, hholds, rfl, hbitmask, rfl, rfl⟩
  | some u =>
      rw [hupdate] at h
      refine ⟨u, sb, ?_, h, hkept u hupdate⟩
      unfold Update_StoreBuffer
      rw [if_pos (by rw [hupdate]; rfl), ← hupdate]

/-- **A speculative write** leaves the instruction with the entries that it wrote. -/
theorem specWrite_spec (pmap : BitVec 64 → BitVec 64) (instid : UInt64)
    {elements : List (BitVec 64 × BitVec 64)} (h : sb.Holds (x.held ++ l)) (hx : x.Shaped)
    (hstore : x.isStore = true) (hissued : x.issued = true)
    (hlength : x.is_vector = true → ∀ array, x.stq_update_array = some array →
      array.length = elements.length)
    (hothers : ∀ v ∈ l, v.fetchnum ≠ x.fetchnum) :
    ∃ x' sb', x.specWrite pmap instid elements sb = .ok (x', sb') ∧ x'.Shaped ∧ x.Same x' ∧
      sb'.Holds (x'.held ++ l) ∧ (x.is_vector = false → x.kind = .store →
        x'.wrote = some (x.vaddr, x.data)) := by
  obtain ⟨update, sb₁, hclean, hholds, hkept⟩ := cleanupOld_spec
    (x := { x with done_memop := false }) h ⟨hx.scalar, hx.vector⟩ hlength
  have hkind : x.kind ≠ .none := by
    intro hnone
    unfold isStore at hstore
    rw [hnone] at hstore
    cases hstore
  unfold specWrite
  rw [hclean]
  generalize hy : pointing { x with done_memop := false } update = y
  have hsame : x.Same y := by
    rw [← hy]
    exact ⟨rfl, rfl, rfl, rfl, fun _ => ⟨rfl, rfl, rfl⟩⟩
  have hstore' : y.isStore = true := by rw [← hy]; exact hstore
  have hupdate : y.stq_update = update := by rw [← hy]; rfl
  have harray : y.stq_update_array = none := by rw [← hy]; rfl
  have haddress : y.vaddr = x.vaddr ∧ y.data = x.data ∧ y.bitmask = x.bitmask := by
    rw [← hy]
    exact ⟨rfl, rfl, rfl⟩
  show ∃ x' sb', (specUpdate pmap instid elements y sb₁).map _ = .ok (x', sb') ∧ _
  unfold specUpdate
  rcases Bool.eq_false_or_eq_true y.is_vector with hvector | hscalar
  · have hnone : update = none := by
      cases update with
      | none => rfl
      | some u =>
          exact absurd ((hkept u rfl).1.symm.trans (hsame.is_vector.symm.trans hvector))
            Bool.false_ne_true
    rw [hnone] at hholds hupdate
    have hholds : sb₁.Holds (([] : List StqEntry) ++ l) := hholds
    obtain ⟨x', array, sb', hwrite, hholds', hupdate', harray', hown, -, hall⟩ :=
      specWriteElements_spec (x := { y with stq_update_array := some [] })
        pmap instid elements hholds hupdate rfl
        (fun _ hu => by cases hu) (by
          show ∀ v ∈ l, v.fetchnum ≠ y.fetchnum
          rw [hsame.fetchnum]
          exact hothers)
    simp only [Prod.mk.injEq] at hall
    obtain ⟨hkind', hsize', hvector', hfetchnum', -⟩ := hall
    rw [if_pos hvector, hwrite]
    have hstore'' : x'.isStore = true := by
      unfold isStore at hstore' ⊢
      rw [hkind']
      exact hstore'
    have hshaped : Shaped { x' with done_spec_write := true } := by
      refine shaped_of_array hstore'' (hvector'.trans hvector) hupdate' harray' fun u hu => ?_
      show u.fetchnum = x'.fetchnum ∧ u.bitmask = byteMask x'.size u.vaddr
      rw [hfetchnum', hsize']
      exact hown u hu
    refine ⟨_, sb', rfl, hshaped, ⟨hkind'.trans hsame.kind, hsize'.trans hsame.size,
      hvector'.trans hsame.is_vector, hfetchnum'.trans hsame.fetchnum, fun hx => ?_⟩, ?_,
      fun hx => ?_⟩
    · rw [← hsame.is_vector, hvector] at hx
      cases hx
    · show sb'.Holds (x'.stq_update.toList ++ x'.stq_update_array.getD [] ++ l)
      rw [hupdate', harray']
      exact hholds'
    · rw [← hsame.is_vector, hvector] at hx
      cases hx
  · rw [if_neg (by rw [hscalar]; exact Bool.false_ne_true)]
    have hscalar' : x.is_vector = false := hsame.is_vector.symm.trans hscalar
    have hkept' : ∀ u, update = some u → u ∈ x.held ∧ u.vaddr = x.vaddr ∧ u.data = x.data := by
      intro u hu
      obtain ⟨-, hxu, hvaddr, hdata⟩ := hkept u hu
      refine ⟨?_, hvaddr, hdata⟩
      have hxu : x.stq_update = some u := hxu
      unfold held
      rw [hxu]
      exact List.mem_append_left _ List.mem_cons_self
    have hbitmask : y.bitmask = byteMask y.size y.vaddr := by
      rw [haddress.2.2, hsame.size, haddress.1]
      exact hx.mask hscalar' hkind hissued
    have hentry : ∀ u, y.stq_update = some u → u.fetchnum = y.fetchnum ∧
        u.bitmask = byteMask y.size u.vaddr ∧ u.vaddr = y.vaddr ∧ u.data = y.data := by
      intro u hu
      obtain ⟨hmem, hvaddr, hdata⟩ := hkept' u (hupdate.symm.trans hu)
      rw [hsame.fetchnum, hsame.size, haddress.1, haddress.2.1]
      exact ⟨hx.own u hmem, hx.masks u hmem, hvaddr, hdata⟩
    rw [← hupdate] at hholds
    by_cases hstc : y.kind = .storeConditional ∧ y.stc_success = false
    · rw [if_pos hstc]
      have hno {P : Prop} (hstore : y.kind = .store) : P := by
        rw [hstc.1] at hstore
        cases hstore
      have hheld : y.held = y.stq_update.toList := by
        unfold held
        rw [harray, Option.getD_none, List.append_nil]
      have hmem : ∀ u ∈ y.held, y.stq_update = some u := by
        intro u hu
        rw [hheld] at hu
        exact Option.mem_toList.mp hu
      refine ⟨_, sb₁, rfl, ?_, ⟨hsame.kind, hsame.size, hsame.is_vector, hsame.fetchnum,
        hsame.address⟩, ?_,
        fun _ hstore => hno (hsame.kind.trans hstore)⟩
      · exact {
          scalar := fun _ => harray
          vector := fun hvector => absurd (hscalar.symm.trans hvector) Bool.false_ne_true
          idle := fun hidle => absurd (hidle.symm.trans hstore') Bool.false_ne_true
          own := fun u hu => (hentry u (hmem u hu)).1
          masks := fun u hu => (hentry u (hmem u hu)).2.1
          wrote := fun _ hstore => hno hstore
          mask := fun _ _ _ => hbitmask
          done := fun _ hstore => hno hstore
          memop := fun _ hstore => hno hstore }
      · show sb₁.Holds (y.held ++ l)
        rw [hheld]
        exact hholds
    · rw [if_neg hstc]
      obtain ⟨u, sb', hwrite, hholds', hfetchnum, hmask, hvaddr, hdata⟩ :=
        update_spec instid hholds hentry hbitmask (by rw [hsame.fetchnum]; exact hothers)
      rw [hwrite]
      refine ⟨_, sb', rfl, ?_, ⟨hsame.kind, hsame.size, hsame.is_vector, hsame.fetchnum,
        hsame.address⟩, ?_,
        fun _ _ => ?_⟩
      · exact shaped_of_update hstore' hscalar harray rfl hfetchnum hmask hbitmask hvaddr
          hdata rfl rfl
      · show sb'.Holds ((some u).toList ++ y.stq_update_array.getD [] ++ l)
        rw [harray]
        exact hholds'
      · show some (y.vaddr, y.data) = _
        rw [haddress.1, haddress.2.1]

end Memop

end AsimFeeder.Aint
