/-
What a load reads.

The walk along the updates of a quadword settles each bit by the youngest update that has
it, and leaves the bits that none has to memory.  The updates of a quadword are those of
the stores in flight, in their order, so that a byte comes from the youngest store before
the load that covers it.
-/
import AsimFeeder.Aint.ForwardBytes
import AsimFeeder.Aint.StoreRuns

namespace AsimFeeder.Aint

open Lib

/-! ### The walk -/

/-- The data of an update where it belongs in its quadword. -/
def StqEntry.placed (u : StqEntry) : BitVec 64 := u.data <<< ((u.vaddr &&& 7) <<< 3)

variable {fetchnum : Nat} {data bitmask : BitVec 64} {j : Nat}

theorem readUpdates_zero (fetchnum : Nat) (l : List StqEntry) (data : BitVec 64) :
    readUpdates fetchnum l data 0 = (data, 0) := by
  induction l with
  | nil => rfl
  | cons u l ih =>
      rw [readUpdates, ih]
      split
      · rfl
      · have hall : data &&& BitVec.allOnes 64 = data := BitVec.and_allOnes
        simpa using hall

/-- The early end of the walk makes no difference. -/
theorem readUpdates_cons (u : StqEntry) (l : List StqEntry) (data bitmask : BitVec 64) :
    readUpdates fetchnum (u :: l) data bitmask =
      if fetchnum < u.fetchnum then readUpdates fetchnum l data bitmask
      else
        readUpdates fetchnum l
          (data &&& ~~~(bitmask &&& u.bitmask) ||| (bitmask &&& u.bitmask &&& u.placed))
          (bitmask &&& ~~~(bitmask &&& u.bitmask)) := by
  rw [readUpdates]
  dsimp only
  split
  · rfl
  · split
    · rename_i hzero
      rw [hzero, readUpdates_zero]
      rfl
    · rfl

/-- A bit that is not asked for stays as it is. -/
theorem readUpdates_kept (fetchnum : Nat) (data : BitVec 64) (l : List StqEntry)
    (hbit : bitmask.getLsbD j = false) :
    (readUpdates fetchnum l data bitmask).1.getLsbD j = data.getLsbD j ∧
      (readUpdates fetchnum l data bitmask).2.getLsbD j = false := by
  induction l generalizing data bitmask with
  | nil => exact ⟨rfl, hbit⟩
  | cons u l ih =>
      rw [readUpdates_cons]
      split
      · exact ih data hbit
      · have hbit' : (bitmask &&& ~~~(bitmask &&& u.bitmask)).getLsbD j = false := by
          simp [hbit]
        obtain ⟨hdata, hmask⟩ := ih _ hbit'
        refine ⟨hdata.trans ?_, hmask⟩
        by_cases hj : j < 64
        · simp only [BitVec.getLsbD_or, BitVec.getLsbD_and, BitVec.getLsbD_not, hbit, hj]
          simp
        · simp [BitVec.getLsbD_of_ge data j (Nat.not_lt.mp hj), hbit]

/-- **A bit comes from the first update on the walk that has it.** -/
theorem readUpdates_bit (fetchnum : Nat) (data : BitVec 64) (l : List StqEntry) (hj : j < 64)
    (hbit : bitmask.getLsbD j = true) :
    ((readUpdates fetchnum l data bitmask).1.getLsbD j,
      (readUpdates fetchnum l data bitmask).2.getLsbD j) =
      (l.find? fun u => decide (u.fetchnum ≤ fetchnum) && u.bitmask.getLsbD j).elim
        (data.getLsbD j, true) fun u => (u.placed.getLsbD j, false) := by
  induction l generalizing data bitmask with
  | nil => rw [readUpdates, List.find?_nil, hbit, Option.elim_none]
  | cons u l ih =>
      rw [readUpdates_cons]
      split
      · rename_i hyounger
        rw [List.find?_cons_of_neg (by simp; omega)]
        exact ih data hbit
      · rename_i holder
        rcases Bool.eq_false_or_eq_true (u.bitmask.getLsbD j) with hhas | hnot
        · rw [List.find?_cons_of_pos (by simp [hhas]; omega)]
          have hbit' : (bitmask &&& ~~~(bitmask &&& u.bitmask)).getLsbD j = false := by
            simp [hbit, hhas]
          obtain ⟨hdata, hmask⟩ := readUpdates_kept fetchnum
            (data &&& ~~~(bitmask &&& u.bitmask) ||| (bitmask &&& u.bitmask &&& u.placed)) l hbit'
          rw [hdata, hmask, Option.elim_some]
          simp [hbit, hhas]
        · rw [List.find?_cons_of_neg (by simp [hnot])]
          have hbit' : (bitmask &&& ~~~(bitmask &&& u.bitmask)).getLsbD j = true := by
            simp only [BitVec.getLsbD_and, BitVec.getLsbD_not, hbit, hnot, hj]
            rfl
          rw [ih _ hbit']
          have hdata : (data &&& ~~~(bitmask &&& u.bitmask) |||
              (bitmask &&& u.bitmask &&& u.placed)).getLsbD j = data.getLsbD j := by
            simp only [BitVec.getLsbD_or, BitVec.getLsbD_and, BitVec.getLsbD_not, hbit, hnot, hj]
            simp
          rw [hdata]

/-! ### The updates of a quadword -/

/-- At most one entry for each operation, and in the order of the operations. -/
theorem pairwise_entries {xs : List Memop} (harray : ∀ x ∈ xs, x.stq_update_array = none)
    (hown : ∀ x ∈ xs, ∀ u ∈ x.held, u.fetchnum = x.fetchnum)
    (horder : (xs.map Memop.fetchnum).Pairwise (· < ·)) :
    (xs.filterMap Memop.stq_update).Pairwise fun u v => u.fetchnum < v.fetchnum := by
  induction xs with
  | nil => exact List.Pairwise.nil
  | cons x xs ih =>
      rw [List.map_cons, List.pairwise_cons] at horder
      have hrest := ih (fun y hy => harray y (List.mem_cons_of_mem x hy))
        (fun y hy => hown y (List.mem_cons_of_mem x hy)) horder.2
      cases hupdate : x.stq_update with
      | none => rwa [List.filterMap_cons_none hupdate]
      | some u =>
          rw [List.filterMap_cons_some hupdate]
          refine List.pairwise_cons.mpr ⟨fun v hv => ?_, hrest⟩
          obtain ⟨y, hy, hyv⟩ := List.mem_filterMap.mp hv
          have hu := hown x List.mem_cons_self u (by simp [Memop.held, hupdate])
          have hv := hown y (List.mem_cons_of_mem x hy) v (by simp [Memop.held, hyv])
          rw [hu, hv]
          exact horder.1 _ (List.mem_map_of_mem hy)

theorem flatMap_held {xs : List Memop} (harray : ∀ x ∈ xs, x.stq_update_array = none) :
    xs.flatMap Memop.held = xs.filterMap Memop.stq_update := by
  induction xs with
  | nil => rfl
  | cons x xs ih =>
      rw [List.flatMap_cons, ih fun y hy => harray y (List.mem_cons_of_mem x hy)]
      unfold Memop.held
      rw [harray x List.mem_cons_self, Option.getD_none, List.append_nil]
      cases hupdate : x.stq_update with
      | none => rw [List.filterMap_cons_none hupdate]; rfl
      | some u => rw [List.filterMap_cons_some hupdate]; rfl

/-- **The list of a quadword** has the entries of the stores in flight, in their order. -/
theorem StoreBuffer.Holds.items_eq {sb : StoreBuffer} {l : List StqEntry} (h : sb.Holds l)
    (horder : l.Pairwise fun u v => u.fetchnum < v.fetchnum) {addr : BitVec 64} {sq : StqAddr}
    (hsearch : Bucket.search addr sb.StoreQ = some sq) :
    sq.items = l.filter fun u => u.addr = addr := by
  have hperm : sq.items.Perm (l.filter fun u => u.addr = addr) := by
    rw [h.valid.items_eq hsearch]
    exact h.perm.filter _
  have hordered := h.valid.ordered sq (Bucket.search_mem hsearch).1
  have hfiltered := horder.filter fun u => u.addr = addr
  refine hperm.eq_of_pairwise (fun u v hu hv huv hvu => ?_) hordered (hfiltered.imp Nat.le_of_lt)
  have hu' := (List.mem_filter.mp (hperm.mem_iff.mp hu)).1
  have hv' := (List.mem_filter.mp hv).1
  have hnodup : (l.map StqEntry.fetchnum).Nodup :=
    List.Pairwise.map _ (fun _ _ h => h) (horder.imp Nat.ne_of_lt)
  exact List.inj_on_of_nodup_map hnodup hu' hv' (Nat.le_antisymm huv hvu)

/-- What is left of a search along the list of a quadword. -/
theorem StoreBuffer.Holds.read_eq {sb : StoreBuffer} {l : List StqEntry} (h : sb.Holds l)
    (horder : l.Pairwise fun u v => u.fetchnum < v.fetchnum) (ifi : Memop) (bitmask : BitVec 64) :
    Read_StoreBuffer ifi sb bitmask =
      readUpdates ifi.fetchnum
        (l.filter fun u => u.addr = ifi.vaddr &&& QWORD_MASK).reverse ifi.data bitmask := by
  unfold Read_StoreBuffer
  cases hsearch : Bucket.search (ifi.vaddr &&& QWORD_MASK) sb.StoreQ with
  | none =>
      have hnone := h.valid.search_eq_none.mp hsearch
      have hnil : (l.filter fun u => u.addr = ifi.vaddr &&& QWORD_MASK) = [] := by
        rw [List.filter_eq_nil_iff]
        intro u hu
        simpa using hnone u (h.perm.mem_iff.mpr hu)
      rw [hnil]
      rfl
  | some sq =>
      dsimp only
      rw [h.items_eq horder hsearch]

/-! ### The bytes of a load -/

namespace Memop

/-- A scalar load or store, or no memory operation, as it is once it was issued. -/
structure Plain (pmap : BitVec 64 → BitVec 64) (x : Memop) : Prop where
  scalar : x.is_vector = false
  kind : x.kind ≠ .storeConditional
  size : x.kind ≠ .none → isSize x.size = true
  aligned : x.kind ≠ .none → x.issued = true → aligned x.size x.vaddr = true
  paddr : x.kind ≠ .none → x.issued = true → x.paddr = pmap x.vaddr
  wrote : ∀ va data, x.wrote = some (va, data) → Aint.aligned x.size va = true

/-- The byte that a store wrote at an address. -/
def byteAt (x : Memop) (a : BitVec 64) : Option (BitVec 8) :=
  if x.kind = .store then
    x.wrote.bind fun (va, data) =>
      if covers x.size va a then some (byteOf data (a.toNat - va.toNat)) else none
  else none

variable {pmap : BitVec 64 → BitVec 64} {x : Memop} {fetchnum : Nat} {a : BitVec 64} {b : Nat}

theorem isStore_of_plain (hx : x.Plain pmap) : x.isStore = true ↔ x.kind = .store := by
  unfold isStore
  have := hx.kind
  simp [this]

/-- An update that settles bit `b` of the byte at an address. -/
def settles (fetchnum : Nat) (a : BitVec 64) (b : Nat) (u : StqEntry) : Bool :=
  decide (u.addr = a &&& QWORD_MASK) &&
    (decide (u.fetchnum ≤ fetchnum) && u.bitmask.getLsbD (8 * (a.toNat % 8) + b))

/-- An update settles the bits of the bytes that its store covers. -/
theorem settles_eq (hx : x.Plain pmap) (hshaped : x.Shaped) {u : StqEntry}
    (hupdate : x.stq_update = some u) (hold : u.fetchnum ≤ fetchnum) (hb : b < 8) :
    x.kind = .store ∧ settles fetchnum a b u = covers x.size u.vaddr a := by
  have hmem : u ∈ x.held := by simp [held, hupdate]
  have hstore : x.kind = .store := by
    rw [← isStore_of_plain hx]
    by_contra hidle
    rw [(hshaped.idle (by simpa using hidle)).1] at hupdate
    cases hupdate
  have hwrote := hshaped.wrote hx.scalar hstore
  rw [hupdate] at hwrote
  have halign := hx.wrote u.vaddr u.data hwrote.symm
  have hsize := hx.size (by rw [hstore]; decide)
  refine ⟨hstore, ?_⟩
  rw [Bool.eq_iff_iff, ← covers_iff_mask hsize halign hb]
  unfold settles StqEntry.addr
  rw [hshaped.masks u hmem]
  simp [hold]

/-- What the update of an older instruction settles is what it wrote. -/
theorem byteAt_eq (hx : x.Plain pmap) (hshaped : x.Shaped) (hold : x.fetchnum ≤ fetchnum)
    (hb : b < 8) : (x.stq_update.filter (settles fetchnum a b)).map
      (fun u => byteOf u.data (a.toNat - u.vaddr.toNat)) = x.byteAt a := by
  unfold byteAt
  cases hupdate : x.stq_update with
  | none =>
      by_cases hstore : x.kind = .store
      · have hwrote := hshaped.wrote hx.scalar hstore
        rw [hupdate] at hwrote
        rw [if_pos hstore, ← hwrote]
        rfl
      · rw [if_neg hstore]
        rfl
  | some u =>
      have hmem : u ∈ x.held := by simp [held, hupdate]
      obtain ⟨hstore, hsettles⟩ := settles_eq (a := a) hx hshaped hupdate
        ((hshaped.own u hmem).trans_le hold) hb
      have hwrote := hshaped.wrote hx.scalar hstore
      rw [hupdate] at hwrote
      rw [if_pos hstore, ← hwrote, Option.map_some, Option.bind_some, Option.filter_some, hsettles]
      dsimp only
      cases covers x.size u.vaddr a with
      | true => rfl
      | false => rfl

/-- **The search along a quadword** ends at the youngest store before the load that covers
the byte. -/
theorem find_settles {older younger : List Memop} (hplain : ∀ y ∈ older, y.Plain pmap)
    (hshaped : ∀ y ∈ older ++ x :: younger, y.Shaped) (hload : x.isStore = false)
    (horder : ((older ++ x :: younger).map Memop.fetchnum).Pairwise (· < ·)) (hb : b < 8) :
    (((older ++ x :: younger).filterMap Memop.stq_update).reverse.find?
      (settles x.fetchnum a b)).map (fun u => byteOf u.data (a.toNat - u.vaddr.toNat)) =
        older.reverse.findSome? fun y => y.byteAt a := by
  rw [List.map_append, List.map_cons, List.pairwise_append, List.pairwise_cons] at horder
  rw [List.forall_mem_append, List.forall_mem_cons] at hshaped
  have hx : x.stq_update = none := (hshaped.2.1.idle hload).1
  -- the younger ones are passed over
  have hyounger : (younger.filterMap Memop.stq_update).reverse.find?
      (settles x.fetchnum a b) = none := by
    rw [List.find?_eq_none]
    intro u hu
    obtain ⟨y, hy, hyu⟩ := List.mem_filterMap.mp (List.mem_reverse.mp hu)
    have hown := (hshaped.2.2 y hy).own u (by simp [held, hyu])
    have hlt := horder.2.1.1 _ (List.mem_map_of_mem hy)
    have hnot : ¬ u.fetchnum ≤ x.fetchnum := by omega
    simp [settles, hnot]
  rw [List.filterMap_append, List.filterMap_cons_none hx, List.reverse_append, List.find?_append,
    hyounger, Option.none_or, ← List.filterMap_reverse]
  have holder : ∀ y ∈ older.reverse, y.Plain pmap ∧ y.Shaped ∧ y.fetchnum ≤ x.fetchnum := by
    intro y hy
    rw [List.mem_reverse] at hy
    refine ⟨hplain y hy, hshaped.1 y hy, Nat.le_of_lt ?_⟩
    exact horder.2.2 _ (List.mem_map_of_mem hy) _ List.mem_cons_self
  generalize older.reverse = l at holder
  induction l with
  | nil => rfl
  | cons y l ih =>
      obtain ⟨hp, hs, hle⟩ := holder y List.mem_cons_self
      have hbyte := byteAt_eq (a := a) hp hs hle hb
      have hrest := ih fun z hz => holder z (List.mem_cons_of_mem y hz)
      rw [List.findSome?_cons, ← hbyte]
      cases hupdate : y.stq_update with
      | none =>
          rw [List.filterMap_cons_none hupdate]
          exact hrest
      | some u =>
          rw [List.filterMap_cons_some hupdate, List.find?_cons, Option.filter_some]
          cases settles x.fetchnum a b u with
          | true => rfl
          | false => exact hrest

end Memop

namespace AintThread

/-- The byte of memory at a translated address, zero if it is not mapped. -/
def memoryByte (memory : BitVec 64 → BitVec 64) (pa : BitVec 64) : BitVec 8 :=
  if pa = 0 then 0 else byteOf (memory (pa &&& QWORD_MASK)) (pa.toNat % 8)

/-- **What is at an address** after these stores: the byte of the youngest of them that
covers it, or that of memory. -/
def byteAfter (pmap : BitVec 64 → BitVec 64) (memory : BitVec 64 → BitVec 64)
    (older : List Memop) (a : BitVec 64) : BitVec 8 :=
  (older.reverse.findSome? fun x => x.byteAt a).getD (memoryByte memory (pmap a))

variable {page : BitVec 48 → BitVec 48} {x : Memop} {sb : StoreBuffer} {a : BitVec 64} {k b : Nat}

/-- The bits of a load before they are shifted. -/
theorem getLsbD_gathered {older younger : List Memop}
    (hplain : ∀ y ∈ older ++ x :: younger, y.Plain (PMAP page))
    (hshaped : ∀ y ∈ older ++ x :: younger, y.Shaped)
    (horder : ((older ++ x :: younger).map Memop.fetchnum).Pairwise (· < ·))
    (hholds : sb.Holds ((older ++ x :: younger).flatMap Memop.held))
    (hload : x.kind = .load) (hissued : x.issued = true) (hcovers : covers x.size x.vaddr a = true)
    (memory : BitVec 64 → BitVec 64) (hb : b < 8) {data bitmask : BitVec 64}
    (hread : Read_StoreBuffer { x with data := 0 } sb x.bitmask = (data, bitmask)) :
    (if bitmask = 0 then data
      else if x.paddr = 0 then data &&& ~~~bitmask
      else data &&& ~~~bitmask ||| (memory (x.paddr &&& QWORD_MASK) &&& bitmask)).getLsbD
        (8 * (a.toNat % 8) + b) = (byteAfter (PMAP page) memory older a).getLsbD b := by
  have hall := hplain
  rw [List.forall_mem_append, List.forall_mem_cons] at hplain
  have hx := hplain.2.1
  have hsx : x.Shaped := hshaped x (List.mem_append_right _ List.mem_cons_self)
  have hkind : x.kind ≠ .none := by rw [hload]; decide
  have hidle : x.isStore = false := by
    unfold Memop.isStore
    rw [hload]
    rfl
  have hj : 8 * (a.toNat % 8) + b < 64 := by omega
  obtain ⟨hquadword, hbit⟩ := (covers_iff_mask (hx.size hkind) (hx.aligned hkind hissued) hb).mpr
    hcovers
  rw [← hsx.mask hx.scalar hkind hissued] at hbit
  have harray : ∀ y ∈ older ++ x :: younger, y.stq_update_array = none := by
    intro y hy
    refine (hshaped y hy).scalar ?_
    rcases List.mem_append.mp hy with hy | hy
    · exact (hplain.1 y hy).scalar
    · rcases List.mem_cons.mp hy with rfl | hy
      · exact hx.scalar
      · exact (hplain.2.2 y hy).scalar
  -- the walk settles the bit, or leaves it to memory
  have hentries := pairwise_entries harray (fun y hy => (hshaped y hy).own) horder
  rw [flatMap_held harray] at hholds
  have hwalk := hread.symm.trans (hholds.read_eq hentries { x with data := 0 } x.bitmask)
  have hfind := Memop.find_settles (x := x) (a := a) hplain.1 hshaped hidle horder hb
  have hsettled := readUpdates_bit x.fetchnum 0
    (((older ++ x :: younger).filterMap Memop.stq_update).filter
      fun u => u.addr = x.vaddr &&& QWORD_MASK).reverse hj hbit
  have hsearch (l : List StqEntry) : (l.filter fun u => u.addr = a &&& QWORD_MASK).find?
      (fun u => decide (u.fetchnum ≤ x.fetchnum) && u.bitmask.getLsbD (8 * (a.toNat % 8) + b)) =
        l.find? (Memop.settles x.fetchnum a b) := by
    rw [List.find?_filter]
    congr 1
    funext u
    unfold Memop.settles
    simp
  dsimp only at hwalk
  rw [← hwalk, ← List.filter_reverse, hquadword, hsearch] at hsettled
  have hsame := PMAP_quadword page hquadword
  rw [← hx.paddr hkind hissued] at hsame
  unfold byteAfter
  rw [← hfind]
  cases hlast : (((older ++ x :: younger).filterMap Memop.stq_update).reverse.find?
      (Memop.settles x.fetchnum a b)) with
  | some u =>
      rw [hlast, Option.elim_some, Prod.mk.injEq] at hsettled
      obtain ⟨hdata, hmask⟩ := hsettled
      rw [Option.map_some, Option.getD_some]
      obtain ⟨y, hy, hyu⟩ := List.mem_filterMap.mp
        (List.mem_reverse.mp (List.mem_of_find?_eq_some hlast))
      have hsettles := List.find?_some hlast
      have hold : u.fetchnum ≤ x.fetchnum := by
        unfold Memop.settles at hsettles
        simp only [Bool.and_eq_true, decide_eq_true_eq] at hsettles
        exact hsettles.2.1
      have haddr : u.vaddr &&& QWORD_MASK = a &&& QWORD_MASK := by
        unfold Memop.settles at hsettles
        simp only [Bool.and_eq_true, decide_eq_true_eq] at hsettles
        exact hsettles.1
      have hcovered := (Memop.settles_eq (a := a) (hall y hy) (hshaped y hy) hyu hold hb).2
      rw [hsettles] at hcovered
      rw [← getLsbD_placed u.data hcovered.symm haddr hb]
      show _ = u.placed.getLsbD _
      rw [← hdata]
      split
      · rfl
      · split
        · simp only [BitVec.getLsbD_and, BitVec.getLsbD_not, hmask, hj]
          simp
        · simp only [BitVec.getLsbD_or, BitVec.getLsbD_and, BitVec.getLsbD_not, hmask, hj]
          simp
  | none =>
      rw [hlast, Option.elim_none, Prod.mk.injEq] at hsettled
      obtain ⟨hdata, hmask⟩ := hsettled
      have hne : bitmask ≠ 0 := by
        rintro rfl
        simp at hmask
      rw [Option.map_none, Option.getD_none, if_neg hne]
      unfold memoryByte
      by_cases hnull : x.paddr = 0
      · rw [if_pos hnull, if_pos (hsame.1.mp hnull)]
        simp only [BitVec.getLsbD_and, BitVec.getLsbD_not, hmask]
        simp
      · have hmapped : PMAP page a ≠ 0 := fun hzero => hnull (hsame.1.mpr hzero)
        rw [if_neg hnull, if_neg hmapped, hsame.2.1, hsame.2.2 hmapped]
        unfold byteOf
        simp only [BitVec.getLsbD_or, BitVec.getLsbD_and, BitVec.getLsbD_not, hmask,
          BitVec.getLsbD_extractLsb', hb]
        simp

/-- **Each byte of a load** is that of the youngest store before it that covers the byte, or
that of memory. -/
theorem byteOf_readData {older younger : List Memop}
    (hplain : ∀ y ∈ older ++ x :: younger, y.Plain (PMAP page))
    (hshaped : ∀ y ∈ older ++ x :: younger, y.Shaped)
    (horder : ((older ++ x :: younger).map Memop.fetchnum).Pairwise (· < ·))
    (hholds : sb.Holds ((older ++ x :: younger).flatMap Memop.held))
    (hload : x.kind = .load) (hissued : x.issued = true) (hk : k < x.size)
    (memory : BitVec 64 → BitVec 64) :
    byteOf (readData x sb memory) k = byteAfter (PMAP page) memory older (x.vaddr + k) := by
  have hx := hplain x (List.mem_append_right _ List.mem_cons_self)
  have hkind : x.kind ≠ .none := by rw [hload]; decide
  have hroom := aligned_room (hx.size hkind) (hx.aligned hkind hissued)
  have hle := (isSize_pos (hx.size hkind)).2
  have hlt := x.vaddr.isLt
  have ha : (x.vaddr + (k : BitVec 64)).toNat = x.vaddr.toNat + k := by
    rw [BitVec.toNat_add, BitVec.natCast_eq_ofNat, BitVec.toNat_ofNat]
    omega
  have hcovers : covers x.size x.vaddr (x.vaddr + (k : BitVec 64)) = true := by
    rw [covers_iff, ha]
    omega
  apply BitVec.eq_of_getLsbD_eq
  intro b hb
  unfold readData
  cases hread : Read_StoreBuffer { x with data := 0 } sb x.bitmask with
  | mk data bitmask =>
      have hbits := getLsbD_gathered hplain hshaped horder hholds hload hissued hcovers
        memory hb hread
      rw [← hbits, ha]
      dsimp only
      generalize hall : (if bitmask = 0 then data
        else if x.paddr = 0 then data &&& ~~~bitmask
        else data &&& ~~~bitmask ||| (memory (x.paddr &&& QWORD_MASK) &&& bitmask)) = all
      unfold byteOf
      rw [BitVec.getLsbD_extractLsb']
      rw [decide_eq_true hb, Bool.true_and]
      split
      · have hshift : ((x.vaddr &&& 7) * 8).toNat = 8 * (x.vaddr.toNat % 8) := by
          rw [BitVec.toNat_mul, toNat_offset]
          show x.vaddr.toNat % 8 * 8 % 2 ^ 64 = _
          omega
        rw [BitVec.ushiftRight_eq', BitVec.getLsbD_ushiftRight, hshift]
        congr 1
        omega
      · congr 1
        omega

end AintThread

end AsimFeeder.Aint
