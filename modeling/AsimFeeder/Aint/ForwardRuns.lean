/-
Forwarding along whole runs.

Scalar loads and stores are fetched, issued, written, committed and killed.  The buffer
has one update for each store in flight that wrote, and each byte of a load comes from
where it should: provided that a kill finds the lists of the stores that it removes.  A
list is looked up by the address that the store has now, which another issue may have
changed since the store wrote.
-/
import AsimFeeder.Aint.Forwarding
import AsimFeeder.Lib.Checks

namespace AsimFeeder.Aint

open Lib

/-! ### Scalar operations -/

/-- No vectors and no store conditionals. -/
def MemIcode.plain (picode : MemIcode) : Bool :=
  !picode.is_vector && picode.kind != .storeConditional &&
    (picode.kind == .none || isSize picode.size)

namespace Memop

variable {pmap : BitVec 64 → BitVec 64} {x y : Memop}

theorem plain_fetched {picode : MemIcode} (h : picode.plain = true) (fetchnum vl : Nat) :
    (fetched picode fetchnum vl).Plain pmap where
  scalar := by
    unfold MemIcode.plain at h
    simp only [Bool.and_eq_true, Bool.not_eq_true'] at h
    exact h.1.1
  kind := by
    unfold MemIcode.plain at h
    simp only [Bool.and_eq_true, bne_iff_ne] at h
    exact h.1.2
  size := by
    intro hkind
    unfold MemIcode.plain at h
    simp only [Bool.and_eq_true, Bool.or_eq_true, beq_iff_eq] at h
    exact h.2.resolve_left hkind
  aligned := fun _ hissued => by cases hissued
  paddr := fun _ hissued => by cases hissued
  wrote := fun _ _ hwrote => by cases hwrote

/-- An operation that keeps its address. -/
theorem Plain.same (hx : x.Plain pmap) (hkind : y.kind = x.kind) (hsize : y.size = x.size)
    (hvector : y.is_vector = x.is_vector) (hvaddr : y.vaddr = x.vaddr) (hpaddr : y.paddr = x.paddr)
    (hissued : y.issued = x.issued)
    (hwrote : ∀ va data, y.wrote = some (va, data) → Aint.aligned x.size va = true) :
    y.Plain pmap where
  scalar := hvector.trans hx.scalar
  kind := by
    rw [hkind]
    exact hx.kind
  size := by
    rw [hkind, hsize]
    exact hx.size
  aligned := by
    rw [hkind, hissued, hsize, hvaddr]
    exact hx.aligned
  paddr := by
    rw [hkind, hissued, hpaddr, hvaddr]
    exact hx.paddr
  wrote := by
    rw [hsize]
    exact hwrote

/-- An issue gives an operation its address. -/
theorem Plain.issue (hx : x.Plain pmap) {vaddr data : BitVec 64}
    (haligned : Aint.aligned x.size vaddr = true) :
    (Memop.event pmap vaddr data
      { x with done_memop := false, done_spec_write := false, issued := true }).Plain pmap where
  scalar := hx.scalar
  kind := hx.kind
  size := hx.size
  aligned := fun _ _ => haligned
  paddr := fun _ _ => rfl
  wrote := hx.wrote

theorem Plain.issued (hx : x.Plain pmap) (hkind : x.kind = .none) :
    Plain pmap { x with done_memop := false, done_spec_write := false, issued := true } where
  scalar := hx.scalar
  kind := hx.kind
  size := hx.size
  aligned := fun hne => absurd hkind hne
  paddr := fun hne => absurd hkind hne
  wrote := hx.wrote

/-- What a store has in the buffer. -/
def write (x : Memop) : Option (Nat × BitVec 64 × BitVec 64 × BitVec 64) :=
  if x.kind = .store then
    x.wrote.map fun (va, data) => (x.fetchnum, va, data, byteMask x.size va)
  else none

end Memop

/-- When, where, what and how much an update writes. -/
def StqEntry.write (u : StqEntry) : Nat × BitVec 64 × BitVec 64 × BitVec 64 :=
  (u.fetchnum, u.vaddr, u.data, u.bitmask)

theorem Memop.map_write {pmap : BitVec 64 → BitVec 64} {x : Memop} (hx : x.Plain pmap)
    (hshaped : x.Shaped) : x.stq_update.map StqEntry.write = x.write := by
  unfold Memop.write
  by_cases hstore : x.kind = .store
  · rw [if_pos hstore, ← hshaped.wrote hx.scalar hstore]
    cases hupdate : x.stq_update with
    | none => rfl
    | some u =>
        have hmem : u ∈ x.held := by simp [held, hupdate]
        rw [Option.map_some, Option.map_some, Option.map_some]
        unfold StqEntry.write
        rw [hshaped.own u hmem, hshaped.masks u hmem]
  · have hidle : x.isStore = false := by
      rw [← Bool.not_eq_true, isStore_of_plain hx]
      exact hstore
    rw [if_neg hstore, (hshaped.idle hidle).1]
    rfl

namespace AintThread

/-! ### What may happen -/

/-- Scalar, aligned loads and stores; the oldest instruction writes and commits. -/
def legal (t : AintThread) : AintEvent → Bool
  | .fetch picode => picode.all MemIcode.plain
  | .issue instid _ vaddr _ =>
      t.rename.flight.contains instid &&
        ((t.memops instid).kind == .none || aligned (t.memops instid).size vaddr)
  | .specWrite instid _ =>
      t.rename.flight.contains instid && (t.memops instid).kind == .store &&
        (t.memops instid).issued
  | .stcFailed _ => false
  | .read instid _ _ =>
      t.rename.flight.contains instid && (t.memops instid).kind == .load &&
        (t.memops instid).issued
  | .write instid => t.rename.flight.head? == some instid && (t.memops instid).kind == .store
  | .commit instid => t.rename.flight.head? == some instid
  | .kill instid => t.rename.flight.contains instid

/-- An older store has an update in the same quadword, or the store is still there. -/
def sameQuadword (t : AintThread) (older : List UInt64) (instid : UInt64) : Bool :=
  (t.memops instid).stq_update.all fun u =>
    ((older.map t.memops).flatMap Memop.held).any (fun v => v.addr == u.addr) ||
      (t.memops instid).vaddr &&& QWORD_MASK == u.addr

def safeKill (t : AintThread) : List UInt64 → List UInt64 → Bool
  | _, [] => true
  | older, instid :: rest => t.sameQuadword older instid && safeKill t (older ++ [instid]) rest

/-- A kill finds the lists of the stores that it removes. -/
def careful (t : AintThread) : AintEvent → Bool
  | .kill instid =>
      PRED_CIRC instid == t.rename.instid ||
        t.safeKill (t.rename.flight.takeWhile (· != instid))
          (t.rename.flight.dropWhile (· != instid))
  | _ => true

def Start (memory : BitVec 64 → BitVec 64) (t : AintThread) : Prop := t = init memory

def Step (page : BitVec 48 → BitVec 48) (ok : AintThread → AintEvent → Bool)
    (t t' : AintThread) : Prop :=
  ∃ e, ok t e = true ∧ t.exec (PMAP page) e = .ok t'

/-- The buffer has the latest write of each store in flight and nothing else, loads read
the bytes of the youngest stores before them, and nothing is missed in the buffer. -/
structure Forwards (page : BitVec 48 → BitVec 48) (ok : AintThread → AintEvent → Bool)
    (t : AintThread) : Prop where
  contents : ((Bucket.contents t.sb.StoreQ).map StqEntry.write).Perm
    (t.window.filterMap Memop.write)
  distinct : (t.window.map Memop.fetchnum).Pairwise (· < ·)
  bytes : ∀ instid writes elements t', t.legal (.read instid writes elements) = true →
    t.exec (PMAP page) (.read instid writes elements) = .ok t' →
    ∀ k < (t.memops instid).size, byteOf (t'.memops instid).data k =
      byteAfter (PMAP page) t.memory
        ((t.rename.flight.takeWhile (· != instid)).map t.memops)
        ((t.memops instid).vaddr + (k : BitVec 64))
  found : ∀ e, ok t e = true → t.exec (PMAP page) e ≠ .error .notFound ∧
    t.exec (PMAP page) e ≠ .error .emptyUpdateList

/-! ### Steps -/

/-- What every careful step preserves. -/
structure Forwarding (page : BitVec 48 → BitVec 48) (t : AintThread) : Prop where
  buffers : t.Buffers
  plain : ∀ x ∈ t.window, x.Plain (PMAP page)

variable {page : BitVec 48 → BitVec 48} {t t' : AintThread} {instid : UInt64} {x : Memop}

theorem forwarding_init (memory : BitVec 64 → BitVec 64) :
    (init memory).Forwarding page where
  buffers := buffers_init memory
  plain := fun _ hx => by cases hx

/-- One operation changes. -/
theorem Forwarding.plain_change (h : t.Forwarding page)
    (hflight : t'.rename.flight = t.rename.flight)
    (hmemops : t'.memops = Function.update t.memops instid x) (hx : x.Plain (PMAP page)) :
    ∀ y ∈ t'.window, y.Plain (PMAP page) := by
  intro y hy
  unfold window at hy
  rw [hflight, hmemops] at hy
  obtain ⟨j, hj, rfl⟩ := List.mem_map.mp hy
  by_cases hji : j = instid
  · rw [hji, Function.update_self]
    exact hx
  · rw [Function.update_of_ne hji]
    exact h.plain _ (List.mem_map_of_mem hj)

theorem Forwarding.fetch (h : t.Forwarding page) {picode? : Option MemIcode}
    (hplain : picode?.all MemIcode.plain = true)
    (hfetch : t.AINT_fetch_next_instr picode? = .ok t') : t'.Forwarding page where
  buffers := h.buffers.fetch hfetch
  plain := by
    unfold AINT_fetch_next_instr renamed at hfetch
    cases picode? with
    | none =>
        have hnone : t.rename.AINT_fetch_next_instr none = some t.rename := rfl
        rw [Option.map_none, hnone] at hfetch
        cases hfetch
        exact h.plain
    | some picode =>
        rw [Option.map_some] at hfetch
        cases hrename : t.rename.AINT_fetch_next_instr (some picode.toIcode) with
        | none => rw [hrename] at hfetch; cases hfetch
        | some rename =>
            rw [hrename] at hfetch
            obtain ⟨hfree, args, old, regs, rfl⟩ := RenameThread.fetch_eq hrename
            cases hfetch
            intro y hy
            obtain ⟨j, hj, rfl⟩ := List.mem_map.mp hy
            dsimp only at hj ⊢
            by_cases hnew : j = SUCC_CIRC t.rename.instid
            · rw [hnew, Function.update_self]
              exact Memop.plain_fetched hplain _ _
            · rw [Function.update_of_ne hnew]
              refine h.plain _ (List.mem_map_of_mem ?_)
              exact (List.mem_append.mp hj).resolve_right (by simpa using hnew)

theorem Forwarding.issue (h : t.Forwarding page) (hmem : instid ∈ t.rename.flight)
    {writes : List (Target × Int)} {vaddr data : BitVec 64}
    (haligned : (t.memops instid).kind = .none ∨ aligned (t.memops instid).size vaddr = true)
    (hissue : t.AINT_issue_other (PMAP page) instid writes vaddr data = .ok t') :
    t'.Forwarding page where
  buffers := h.buffers.issue hmem hissue
  plain := by
    have hx := h.plain _ (List.mem_map_of_mem hmem)
    obtain ⟨o, ho⟩ := h.buffers.ring
    obtain ⟨picode, hpicode⟩ := ho.alive instid hmem
    unfold AINT_issue_other renamed at hissue
    cases hrename : t.rename.AINT_issue_other instid writes with
    | none => rw [hrename] at hissue; cases hissue
    | some rename =>
        obtain ⟨regs, rfl⟩ := RenameThread.issue_eq hrename
        rw [hrename] at hissue
        dsimp only at hissue
        rw [hpicode, Option.isNone_some, if_neg Bool.false_ne_true] at hissue
        split at hissue
        · rename_i hkind
          cases hissue
          exact h.plain_change rfl rfl (hx.issued hkind)
        · rename_i hkind
          split at hissue
          · cases hissue
            exact h.plain_change rfl rfl (hx.issue (haligned.resolve_left hkind))
          · cases hissue

theorem Forwarding.specWrite (h : t.Forwarding page) (hmem : instid ∈ t.rename.flight)
    (hstore : (t.memops instid).kind = .store) (hissued : (t.memops instid).issued = true)
    (elements : List (BitVec 64 × BitVec 64)) :
    ∃ t', t.AINT_do_spec_write (PMAP page) instid elements = .ok t' ∧ t'.Forwarding page := by
  have hx := h.plain _ (List.mem_map_of_mem hmem)
  obtain ⟨x, sb, hwrite, hbuffers, hsame, hwrote⟩ := h.buffers.specWrite (PMAP page) hmem
    ((Memop.isStore_of_plain hx).mpr hstore) hissued elements
    (fun hvector => absurd (hx.scalar.symm.trans hvector) Bool.false_ne_true)
  refine ⟨_, hwrite, hbuffers, h.plain_change rfl rfl ?_⟩
  obtain ⟨hvaddr, hpaddr, hissued'⟩ := hsame.address hx.scalar
  refine hx.same hsame.kind hsame.size hsame.is_vector hvaddr hpaddr hissued' fun va data hva => ?_
  rw [hwrote hx.scalar hstore] at hva
  cases hva
  exact hx.aligned (by rw [hstore]; decide) hissued

theorem Forwarding.read (h : t.Forwarding page) (hmem : instid ∈ t.rename.flight)
    (hload : (t.memops instid).kind = .load) {writes : List (Target × Int)}
    {elements : List (BitVec 64 × BitVec 64)}
    (hread : t.AINT_do_read (PMAP page) instid writes elements = .ok t') :
    t'.Forwarding page ∧
      (t'.memops instid).data = readData (t.memops instid) t.sb t.memory := by
  have hx := h.plain _ (List.mem_map_of_mem hmem)
  have hbuffers := h.buffers.read hmem hload hread
  unfold AINT_do_read renamed at hread
  cases hrename : t.rename.writeCells instid writes with
  | none => rw [hrename] at hread; cases hread
  | some rename =>
      obtain ⟨regs, rfl⟩ := RenameThread.writeCells_eq hrename
      rw [hrename] at hread
      dsimp only at hread
      rw [if_neg (by rw [hx.scalar]; exact Bool.false_ne_true)] at hread
      cases hread
      refine ⟨⟨hbuffers, h.plain_change rfl rfl ?_⟩, ?_⟩
      · exact hx.same rfl rfl rfl rfl rfl rfl hx.wrote
      · show (Function.update t.memops instid _ instid).data = _
        rw [Function.update_self]

theorem Forwarding.write (h : t.Forwarding page) (hmem : instid ∈ t.rename.flight)
    (hwrite : t.AINT_do_write (PMAP page) instid = .ok t') : t'.Forwarding page where
  buffers := h.buffers.write hmem hwrite
  plain := by
    have hx := h.plain _ (List.mem_map_of_mem hmem)
    unfold AINT_do_write at hwrite
    dsimp only at hwrite
    split at hwrite
    · cases hwrite
    · rw [if_pos (by rw [hx.scalar]; rfl)] at hwrite
      cases hwrite
      exact h.plain_change rfl rfl (hx.same rfl rfl rfl rfl rfl rfl hx.wrote)

/-- The address of a store that is done is the one that it wrote. -/
theorem Forwarding.commit (h : t.Forwarding page) {l : List UInt64}
    (hflight : t.rename.flight = instid :: l) :
    t.AINT_commit_instr instid = .error .renaming ∨
      t.AINT_commit_instr instid = .error .beforeMemop ∨
      ∃ t', t.AINT_commit_instr instid = .ok t' ∧ t'.Forwarding page := by
  have hmem : instid ∈ t.rename.flight := by rw [hflight]; exact List.mem_cons_self
  have hx := h.plain _ (List.mem_map_of_mem hmem)
  have hshaped := h.buffers.shaped _ (List.mem_map_of_mem hmem)
  have hsafe : (t.memops instid).isStore = true → (t.memops instid).done_memop = true →
      ∀ rename, t.rename.AINT_commit_instr instid = some rename →
        (t.memops instid).SafeCleanup (VL rename (t.memops instid))
          ((l.map t.memops).flatMap Memop.held) := by
    intro hstore hdone rename _
    rw [Memop.isStore_of_plain hx] at hstore
    refine ⟨fun u hu _ => ?_, fun hvector => ?_⟩
    · have hwrote := hshaped.done hx.scalar hstore (hshaped.memop hx.scalar hstore hdone)
      rw [← hshaped.wrote hx.scalar hstore, hu, Option.map_some, Option.some.injEq,
        Prod.mk.injEq] at hwrote
      unfold StqEntry.addr
      rw [hwrote.1]
    · exact absurd (hx.scalar.symm.trans hvector) Bool.false_ne_true
  have hwindow : ∀ t', t.AINT_commit_instr instid = .ok t' → ∀ y ∈ t'.window,
    y.Plain (PMAP page) := by
    intro t' hcommit y hy
    have hnodup := h.buffers.nodup
    rw [hflight, List.nodup_cons] at hnodup
    have huncommitted := h.buffers.uncommitted instid hmem
    unfold AINT_commit_instr renamed at hcommit
    cases hrename : t.rename.AINT_commit_instr instid with
    | none => rw [hrename] at hcommit; cases hcommit
    | some rename =>
        obtain ⟨regs, rfl⟩ := RenameThread.commit_eq hrename huncommitted
        rw [hrename] at hcommit
        dsimp only at hcommit
        rw [huncommitted, if_neg Bool.false_ne_true] at hcommit
        split at hcommit
        · cases hcommit
        · generalize Cleanup_StoreBuffer _ _ _ = r at hcommit
          cases r with
          | error f => cases hcommit
          | ok p =>
          cases hcommit
          obtain ⟨j, hj, rfl⟩ := List.mem_map.mp hy
          have hjl : j ∈ l := by
            have hj : j ∈ t.rename.flight.tail := hj
            rwa [hflight, List.tail_cons] at hj
          have hji : j ≠ instid := by
            rintro rfl
            exact hnodup.1 hjl
          show (Function.update t.memops instid _ j).Plain (PMAP page)
          rw [Function.update_of_ne hji]
          exact h.plain _ (List.mem_map_of_mem (by rw [hflight]; exact List.mem_cons_of_mem _ hjl))
  rcases h.buffers.commit hflight hsafe with hrenaming | hbefore | ⟨t', hcommit, hbuffers⟩
  · exact .inl hrenaming
  · exact .inr (.inl hbefore)
  · exact .inr (.inr ⟨t', hcommit, hbuffers, hwindow t' hcommit⟩)

/-! ### Killing -/

theorem safeKill_mem {older l pre post : List UInt64} {i : UInt64}
    (h : t.safeKill older l = true) (hl : l = pre ++ i :: post) :
    t.sameQuadword (older ++ pre) i = true := by
  induction pre generalizing older l with
  | nil =>
      subst hl
      rw [List.nil_append, safeKill, Bool.and_eq_true] at h
      rw [List.append_nil]
      exact h.1
  | cons j pre ih =>
      subst hl
      rw [List.cons_append, safeKill, Bool.and_eq_true] at h
      have hrest := ih h.2 rfl
      rwa [List.append_assoc, List.singleton_append] at hrest

/-- Where an instruction in flight splits the others. -/
theorem takeWhile_split {l r : List UInt64} {i : UInt64} (hi : i ∉ l) :
    (l ++ i :: r).takeWhile (· != i) = l ∧ (l ++ i :: r).dropWhile (· != i) = i :: r := by
  have hall : ∀ j ∈ l, (j != i) = true := by
    intro j hj
    rw [bne_iff_ne]
    rintro rfl
    exact hi hj
  rw [List.takeWhile_append_of_pos hall, List.dropWhile_append_of_pos hall,
    List.takeWhile_cons_of_neg (by simp), List.dropWhile_cons_of_neg (by simp), List.append_nil]
  exact ⟨rfl, rfl⟩

/-- Where the loop of a kill is, with `n` instructions left. -/
structure Killing (t : AintThread) (o n : Nat) (s : AintThread) : Prop where
  buffers : s.Buffers
  flight : s.rename.flight = slots o n
  instid : s.rename.instid = slotOf (o + n - 1)
  memops : ∀ j ∈ slots o n, s.memops j = t.memops j

theorem Killing.round {s : AintThread} {o n : Nat} (h : Killing t o (n + 1) s) (ho : 0 < o)
    (hscalar : (t.memops (slotOf (o + n))).is_vector = false)
    (hsame : t.sameQuadword (slots o n) (slotOf (o + n)) = true) :
    ∃ picode s', (s.rename.cbif s.rename.instid).picode = some picode ∧
      s.killYoungest picode = .ok s' ∧ Killing t o n s' := by
  have hflight := h.flight
  have hmemops := h.memops
  rw [slots_succ] at hflight hmemops
  have hinstid : s.rename.instid = slotOf (o + n) := h.instid
  obtain ⟨o', ho'⟩ := h.buffers.ring
  obtain ⟨picode, hpicode⟩ := ho'.alive (slotOf (o + n)) (by rw [hflight]; simp)
  have hself : s.memops (slotOf (o + n)) = t.memops (slotOf (o + n)) := hmemops _ (by simp)
  have hothers : (slots o n).map s.memops = (slots o n).map t.memops :=
    List.map_congr_left fun j hj => hmemops j (List.mem_append_left _ hj)
  have hclean : (s.memops (slotOf (o + n))).SafeCleanup
      (VL (s.rename.killYoungest picode) (s.memops (slotOf (o + n))))
      (((slots o n).map s.memops).flatMap Memop.held) := by
    rw [hself, hothers]
    refine ⟨fun u hu halone => ?_, fun hvector => ?_⟩
    · unfold sameQuadword at hsame
      rw [hu, Option.all_some, Bool.or_eq_true] at hsame
      rcases hsame with holder | hplace
      · obtain ⟨v, hv, hvu⟩ := List.any_eq_true.mp holder
        exact absurd (eq_of_beq hvu) (halone v hv)
      · exact eq_of_beq hplace
    · exact absurd (hscalar.symm.trans hvector) Bool.false_ne_true
  obtain ⟨s', hkill, hbuffers', hrename, hflight', hmemops', -⟩ :=
    h.buffers.killYoungest hflight picode hclean
  refine ⟨picode, s', by rw [hinstid]; exact hpicode, hkill, hbuffers', hflight', ?_, ?_⟩
  · rw [hrename]
    show PRED_CIRC s.rename.instid = _
    have hpos : o + n = o + n - 1 + 1 := by omega
    rw [hinstid, hpos, PRED_CIRC_slotOf]
    rfl
  · intro j hj
    rw [hmemops' j hj]
    exact hmemops j (List.mem_append_left _ hj)

/-- **A careful kill** removes the youngest instructions, one after the other. -/
theorem Forwarding.kill (h : t.Forwarding page) (hmem : instid ∈ t.rename.flight)
    (hcareful : t.careful (.kill instid) = true) :
    ∃ t', t.AINT_kill_instrs instid = .ok t' ∧ t'.Forwarding page := by
  obtain ⟨o, ho⟩ := h.buffers.ring
  obtain ⟨k, m, hflight, rfl, hinstid⟩ := ho.split hmem
  have hstart := ho.start
  have hroom : k + 1 + m ≤ 1024 := by
    have hlength := ho.room
    rwa [hflight, length_slots] at hlength
  have hpred : PRED_CIRC (slotOf (o + k)) = slotOf (o + k - 1) := by
    have hpos : o + k = o + k - 1 + 1 := by omega
    rw [hpos, PRED_CIRC_slotOf]
    rfl
  unfold AINT_kill_instrs
  rw [hpred]
  by_cases hfull : PRED_CIRC (slotOf (o + k)) = t.rename.instid
  · refine ⟨t, ?_, h⟩
    exact if_pos (hfull.symm.trans hpred)
  · -- the ring is not full, or it is not the oldest that is killed
    have hm : m + 1 ≤ 1023 := by
      by_contra hlarge
      have hk : k = 0 := by omega
      apply hfull
      rw [hpred, hinstid, hk]
      apply UInt64.toNat.inj
      rw [toNat_slotOf, toNat_slotOf]
      omega
    have hsplit : t.rename.flight = slots o k ++ slotOf (o + k) :: slots (o + k + 1) m := by
      rw [hflight, Nat.add_assoc, Nat.add_comm 1 m, slots_add, slots_cons]
    have hnodup := h.buffers.nodup
    rw [hsplit] at hnodup
    have hnot : slotOf (o + k) ∉ slots o k := by
      intro hin
      exact (List.nodup_append.mp hnodup).2.2 _ hin _ List.mem_cons_self rfl
    obtain ⟨htake, hdrop⟩ := takeWhile_split (r := slots (o + k + 1) m) hnot
    have hsafe : t.safeKill (slots o k) (slots (o + k) (m + 1)) = true := by
      have hcareful : (PRED_CIRC (slotOf (o + k)) == t.rename.instid ||
          t.safeKill (t.rename.flight.takeWhile (· != slotOf (o + k)))
            (t.rename.flight.dropWhile (· != slotOf (o + k)))) = true := hcareful
      rw [hsplit, htake, hdrop, beq_eq_false_iff_ne.mpr hfull, Bool.false_or] at hcareful
      rwa [slots_cons]
    have hround : ∀ n s, n < m + 1 → Killing t o (k + (n + 1)) s →
        ∃ picode s', (s.rename.cbif s.rename.instid).picode = some picode ∧
          s.killYoungest picode = .ok s' ∧ Killing t o (k + n) s' := by
      intro n s hn hs
      have hxmem : slotOf (o + (k + n)) ∈ t.rename.flight := by
        rw [hflight, mem_slots]
        exact ⟨o + (k + n), by omega, by omega, rfl⟩
      have hcut : slots (o + k) (m + 1) =
          slots (o + k) n ++ slotOf (o + (k + n)) :: slots (o + k + n + 1) (m - n) := by
        have hlen : m + 1 = n + (m - n + 1) := by omega
        rw [hlen, slots_add, slots_cons, Nat.add_assoc o k n]
      have hsame := safeKill_mem hsafe hcut
      rw [← slots_add] at hsame
      exact hs.round (by omega) (h.plain _ (List.mem_map_of_mem hxmem)).scalar hsame
    have hinit : Killing t o (k + (m + 1)) t := by
      refine ⟨h.buffers, ?_, ?_, fun _ _ => rfl⟩
      · rw [hflight]
        congr 1
        omega
      · rw [hinstid]
        congr 1
        omega
    obtain ⟨t', hkill, ht'⟩ := killLoop_rule (I := fun n s => Killing t o (k + n) s)
      hm (show m + 1 ≤ CBIF_SIZE.toNat from (by omega : m + 1 ≤ 1024)) (by omega)
      (fun _ _ hs => hs.instid) hround hinit
    refine ⟨t', hkill, ht'.buffers, fun y hy => ?_⟩
    unfold window at hy
    have hkept : t'.rename.flight.map t'.memops = (slots o k).map t.memops := by
      rw [ht'.flight, List.map_congr_left ht'.memops, Nat.add_zero]
    rw [hkept] at hy
    refine h.plain y ?_
    unfold window
    rw [hsplit, List.map_append]
    exact List.mem_append_left _ hy

/-! ### Runs -/

/-- **A careful step** finds what it looks for in the buffer. -/
theorem Forwarding.exec (h : t.Forwarding page) {e : AintEvent} (hlegal : t.legal e = true)
    (hcareful : t.careful e = true) : (∀ t', t.exec (PMAP page) e = .ok t' → t'.Forwarding page) ∧
      t.exec (PMAP page) e ≠ .error .notFound ∧
      t.exec (PMAP page) e ≠ .error .emptyUpdateList := by
  cases e with
  | fetch picode? =>
      refine ⟨fun t' hexec => h.fetch hlegal hexec, ?_⟩
      show t.AINT_fetch_next_instr picode? ≠ _ ∧ t.AINT_fetch_next_instr picode? ≠ _
      unfold AINT_fetch_next_instr renamed
      cases t.rename.AINT_fetch_next_instr (picode?.map MemIcode.toIcode) with
      | none => simp
      | some rename => cases picode? <;> simp
  | issue instid writes vaddr data =>
      obtain ⟨hmem, haligned⟩ := Bool.and_eq_true_iff.mp hlegal
      rw [Bool.or_eq_true, beq_iff_eq] at haligned
      refine ⟨fun t' hexec => h.issue (List.contains_iff_mem.mp hmem) haligned hexec, ?_⟩
      show t.AINT_issue_other _ instid writes vaddr data ≠ _ ∧
        t.AINT_issue_other _ instid writes vaddr data ≠ _
      unfold AINT_issue_other renamed
      cases t.rename.AINT_issue_other instid writes with
      | none => simp
      | some rename =>
          dsimp only
          split
          · simp
          · split
            · simp
            · split
              · simp
              · simp
  | specWrite instid elements =>
      obtain ⟨hand, hissued⟩ := Bool.and_eq_true_iff.mp hlegal
      obtain ⟨hmem, hstore⟩ := Bool.and_eq_true_iff.mp hand
      obtain ⟨t', hok, ht'⟩ := h.specWrite (List.contains_iff_mem.mp hmem) (eq_of_beq hstore)
        hissued elements
      show (∀ t'', t.AINT_do_spec_write _ instid elements = .ok t'' → _) ∧ _
      rw [AintThread.exec, hok]
      refine ⟨fun t'' hexec => ?_, by simp⟩
      cases hexec
      exact ht'
  | stcFailed instid => cases hlegal
  | read instid writes elements =>
      obtain ⟨hand, hissued⟩ := Bool.and_eq_true_iff.mp hlegal
      obtain ⟨hmem, hload⟩ := Bool.and_eq_true_iff.mp hand
      refine ⟨fun t' hexec => (h.read (List.contains_iff_mem.mp hmem)
        (eq_of_beq hload) hexec).1, ?_⟩
      show t.AINT_do_read _ instid writes elements ≠ _ ∧ t.AINT_do_read _ instid writes elements ≠ _
      unfold AINT_do_read renamed
      cases t.rename.writeCells instid writes with
      | none => simp
      | some rename => simp
  | write instid =>
      obtain ⟨holdest, hstore⟩ := Bool.and_eq_true_iff.mp hlegal
      obtain ⟨l, hl⟩ := List.head?_eq_some_iff.mp (eq_of_beq holdest)
      refine ⟨fun t' hexec => h.write (by rw [hl]; exact List.mem_cons_self) hexec, ?_⟩
      show t.AINT_do_write _ instid ≠ _ ∧ t.AINT_do_write _ instid ≠ _
      unfold AINT_do_write
      dsimp only
      split
      · simp
      · split
        · simp
        · split
          · simp
          · simp
  | commit instid =>
      obtain ⟨l, hl⟩ := List.head?_eq_some_iff.mp (eq_of_beq hlegal)
      show (∀ t', t.AINT_commit_instr instid = .ok t' → _) ∧ t.AINT_commit_instr instid ≠ _ ∧
        t.AINT_commit_instr instid ≠ _
      rcases h.commit hl with hrenaming | hbefore | ⟨t', hok, ht'⟩
      · rw [hrenaming]
        simp
      · rw [hbefore]
        simp
      · rw [hok]
        refine ⟨fun t'' hexec => ?_, by simp⟩
        cases hexec
        exact ht'
  | kill instid =>
      obtain ⟨t', hok, ht'⟩ := h.kill (List.contains_iff_mem.mp hlegal) hcareful
      show (∀ t'', t.AINT_kill_instrs instid = .ok t'' → _) ∧ t.AINT_kill_instrs instid ≠ _ ∧
        t.AINT_kill_instrs instid ≠ _
      rw [hok]
      refine ⟨fun t'' hexec => ?_, by simp⟩
      cases hexec
      exact ht'

/-- An event that is legal and careful. -/
def safe (t : AintThread) (e : AintEvent) : Bool := t.legal e && t.careful e

theorem Forwarding.step (h : t.Forwarding page) (hstep : Step page safe t t') :
    t'.Forwarding page := by
  obtain ⟨e, hok, hexec⟩ := hstep
  obtain ⟨hlegal, hcareful⟩ := Bool.and_eq_true_iff.mp hok
  exact (h.exec hlegal hcareful).1 t' hexec

theorem Forwarding.contents (h : t.Forwarding page) :
    ((Bucket.contents t.sb.StoreQ).map StqEntry.write).Perm (t.window.filterMap Memop.write) := by
  have harray : ∀ x ∈ t.window, x.stq_update_array = none := fun x hx =>
    (h.buffers.shaped x hx).scalar (h.plain x hx).scalar
  have hperm := h.buffers.holds.perm.map StqEntry.write
  rw [flatMap_held harray, List.map_filterMap] at hperm
  refine hperm.trans (.of_eq (List.filterMap_congr fun x hx => ?_))
  exact Memop.map_write (h.plain x hx) (h.buffers.shaped x hx)

theorem Forwarding.bytes (h : t.Forwarding page) {writes : List (Target × Int)}
    {elements : List (BitVec 64 × BitVec 64)}
    (hlegal : t.legal (.read instid writes elements) = true)
    (hread : t.AINT_do_read (PMAP page) instid writes elements = .ok t') {k : Nat}
    (hk : k < (t.memops instid).size) : byteOf (t'.memops instid).data k =
      byteAfter (PMAP page) t.memory ((t.rename.flight.takeWhile (· != instid)).map t.memops)
        ((t.memops instid).vaddr + (k : BitVec 64)) := by
  obtain ⟨hand, hissued⟩ := Bool.and_eq_true_iff.mp hlegal
  obtain ⟨hmem, hload⟩ := Bool.and_eq_true_iff.mp hand
  have hmem := List.contains_iff_mem.mp hmem
  obtain ⟨l, r, hflight⟩ := List.append_of_mem hmem
  have hnodup := h.buffers.nodup
  rw [hflight] at hnodup
  have hnot : instid ∉ l := by
    intro hin
    exact (List.nodup_append.mp hnodup).2.2 _ hin _ List.mem_cons_self rfl
  have hwindow : t.window = l.map t.memops ++ t.memops instid :: r.map t.memops := by
    unfold window
    rw [hflight, List.map_append, List.map_cons]
  have hplain := h.plain
  have hshaped := h.buffers.shaped
  have horder := h.buffers.order
  have hholds := h.buffers.holds
  rw [hwindow] at hplain hshaped horder hholds
  rw [(h.read hmem (eq_of_beq hload) hread).2, hflight, (takeWhile_split hnot).1]
  exact byteOf_readData hplain hshaped horder hholds (eq_of_beq hload) hissued hk t.memory

/-- **If every kill finds the lists of the stores that it removes, store data is forwarded
exactly.** -/
theorem forwards_of_careful {memory : BitVec 64 → BitVec 64}
    (h : Reaches (Start memory) (Step page safe) t) : t.Forwards page safe := by
  have hforwarding : t.Forwarding page := by
    refine h.invariant (fun s hs => ?_) fun s s' hs hstep => hs.step hstep
    rw [hs]
    exact forwarding_init memory
  exact {
    contents := hforwarding.contents
    distinct := hforwarding.buffers.order
    bytes := fun _ _ _ _ hlegal hread _ hk => hforwarding.bytes hlegal hread hk
    found := by
      intro e hok
      obtain ⟨hlegal, hcareful⟩ := Bool.and_eq_true_iff.mp hok
      exact (hforwarding.exec hlegal hcareful).2 }

/-! ### A store that moved -/

def storeIcode : MemIcode := ⟨⟨fun _ => 1, none⟩, .store, 8, false⟩

def loadIcode : MemIcode := ⟨⟨fun _ => 2, none⟩, .load, 4, false⟩

/-- A store writes, and is issued again for another address; the load before it is not. -/
def movedRun : List AintEvent :=
  [.fetch (some loadIcode), .fetch (some storeIcode), .issue 0 [] 0x10004 0,
    .issue 1 [] 0x10000 0x1122334455667788, .specWrite 1 [], .issue 1 [] 0x20000 7]

/-- It writes again before it is killed. -/
def carefulRun : List AintEvent :=
  movedRun ++ [.specWrite 1 [], .fetch (some loadIcode), .issue 2 [] 0x20004 0, .read 2 [] [],
    .kill 1]

/-- The events that are executed, nothing once the simulator stops. -/
def run? (page : BitVec 48 → BitVec 48) (t : AintThread) (e : AintEvent) : Option AintThread :=
  (t.exec (PMAP page) e).toOption

theorem step_of_run? {ok : AintThread → AintEvent → Bool} {e : AintEvent} (hok : ok t e = true)
    (h : run? page t e = some t') : Step page ok t t' :=
  ⟨e, hok, eq_ok_of_toOption h⟩

theorem forwards_of_careful_moved : ∃ t : AintThread,
    Lib.after (run? id) safe carefulRun (init fun _ => 0) = some t ∧ t.Forwards id safe := by
  have hrun : (Lib.after (run? id) safe carefulRun (init fun _ => 0)).isSome := by
    decide +kernel
  obtain ⟨t, ht⟩ := Option.isSome_iff_exists.mp hrun
  have hreaches : Reaches (Start fun _ => 0) (Step id safe) t :=
    .after (fun s e s' hok hexec => step_of_run? hok hexec) (.start rfl) ht
  exact ⟨t, ht, forwards_of_careful hreaches⟩

/-- The kill looks for the list of the new address. -/
theorem not_forwards_by_moved_store :
    ¬ ∀ t : AintThread, Reaches (Start fun _ => 0) (Step id legal) t → t.Forwards id legal := by
  intro hall
  have hrun : (Lib.after (run? id) legal movedRun (init fun _ => 0)).map (fun t =>
      (t.legal (.kill 1), (t.exec (PMAP id) (.kill 1)).map fun _ => ())) =
        some (true, .error .notFound) := by
    decide +kernel
  obtain ⟨t, ht, hkill⟩ := Option.map_eq_some_iff.mp hrun
  obtain ⟨hlegal, hfault⟩ := Prod.mk.inj hkill
  have hreaches : Reaches (Start fun _ => 0) (Step id legal) t :=
    .after (fun s e s' hok hexec => step_of_run? hok hexec) (.start rfl) ht
  have hfound := ((hall t hreaches).found (.kill 1) hlegal).1
  cases hexec : t.exec (PMAP id) (.kill 1) with
  | error f =>
      rw [hexec] at hfault hfound
      cases hfault
      exact hfound rfl
  | ok s =>
      rw [hexec] at hfault
      cases hfault

end AintThread

end AsimFeeder.Aint
