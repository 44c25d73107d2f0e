/-
The store buffer along a run.

The buffer holds the entries of the instructions in flight and no others (`Buffers`).
Each step changes the entries of one instruction; those of the others stay.  An
instruction that leaves takes its entries with it, if they are found.
-/
import AsimFeeder.Aint.RenameRing
import AsimFeeder.Aint.StoreUpdates

namespace AsimFeeder.Aint

open Lib

namespace AintThread

variable {pmap : BitVec 64 → BitVec 64} {t t' : AintThread} {instid : UInt64} {x : Memop}

/-- The memory operations of the instructions in flight, the oldest first. -/
def window (t : AintThread) : List Memop := t.rename.flight.map t.memops

/-- The entries of all other instructions. -/
def others (t : AintThread) (instid : UInt64) : List StqEntry :=
  ((t.rename.flight.erase instid).map t.memops).flatMap Memop.held

structure Buffers (t : AintThread) : Prop where
  ring : ∃ o, Ring t.rename o
  uncommitted : ∀ i ∈ t.rename.flight, (t.rename.cbif i).committed = false
  shaped : ∀ x ∈ t.window, x.Shaped
  order : (t.window.map Memop.fetchnum).Pairwise (· < ·)
  fetched : ∀ x ∈ t.window, x.fetchnum < t.rename.fetch_count
  holds : t.sb.Holds (t.window.flatMap Memop.held)

theorem map_update_memops {l : List UInt64} (hi : instid ∉ l) (memops : UInt64 → Memop)
    (x : Memop) : l.map (Function.update memops instid x) = l.map memops := by
  apply List.map_congr_left
  intro j hj
  rw [Function.update_of_ne]
  rintro rfl
  exact hi hj

theorem buffers_init (memory : BitVec 64 → BitVec 64) : (init memory).Buffers where
  ring := ⟨1024, .init⟩
  uncommitted := fun _ hi => by cases hi
  shaped := fun _ hx => by cases hx
  order := List.Pairwise.nil
  fetched := fun _ hx => by cases hx
  holds := StoreBuffer.holds_empty

theorem Buffers.nodup (h : t.Buffers) : t.rename.flight.Nodup := by
  obtain ⟨o, ho⟩ := h.ring
  exact ho.nodup

/-- What an instruction holds, and what the others do. -/
theorem perm_others (hmem : instid ∈ t.rename.flight) :
    (t.window.flatMap Memop.held).Perm ((t.memops instid).held ++ t.others instid) :=
  ((List.perm_cons_erase hmem).map t.memops).flatMap_right _

/-- No other instruction was fetched at the same time. -/
theorem Buffers.fetchnum_ne (h : t.Buffers) (hmem : instid ∈ t.rename.flight) :
    ∀ v ∈ t.others instid, v.fetchnum ≠ (t.memops instid).fetchnum := by
  intro v hv heq
  obtain ⟨y, hy, hvy⟩ := List.mem_flatMap.mp hv
  obtain ⟨j, hj, rfl⟩ := List.mem_map.mp hy
  have hjmem := List.mem_of_mem_erase hj
  have hinj : ∀ i ∈ t.rename.flight, ∀ k ∈ t.rename.flight,
      (t.memops i).fetchnum = (t.memops k).fetchnum → i = k := by
    have hnodup : (t.rename.flight.map fun i => (t.memops i).fetchnum).Nodup := by
      have horder := h.order
      unfold window at horder
      rw [List.map_map] at horder
      exact horder.imp Nat.ne_of_lt
    exact fun i hi k hk => List.inj_on_of_nodup_map hnodup hi hk
  have hown := (h.shaped _ (List.mem_map_of_mem hjmem)).own v hvy
  have hji := hinj j hjmem instid hmem (hown.symm.trans heq)
  rw [hji] at hj
  exact h.nodup.not_mem_erase hj

/-- One instruction changes, and its entries with it. -/
theorem Buffers.change (h : t.Buffers) (hmem : instid ∈ t.rename.flight)
    (hinstid : t'.rename.instid = t.rename.instid) (hcbif : t'.rename.cbif = t.rename.cbif)
    (hflight : t'.rename.flight = t.rename.flight)
    (hcount : t'.rename.fetch_count = t.rename.fetch_count)
    (hmemops : t'.memops = Function.update t.memops instid x) (hx : x.Shaped)
    (hfetchnum : x.fetchnum = (t.memops instid).fetchnum)
    (hholds : t'.sb.Holds (x.held ++ t.others instid)) : t'.Buffers := by
  have hfetchnums : t'.window.map Memop.fetchnum = t.window.map Memop.fetchnum := by
    unfold window
    rw [hflight, hmemops, List.map_map, List.map_map]
    apply List.map_congr_left
    intro j _
    by_cases hj : j = instid
    · rw [hj, Function.comp_apply, Function.comp_apply, Function.update_self, hfetchnum]
    · rw [Function.comp_apply, Function.comp_apply, Function.update_of_ne hj]
  have hothers : t'.others instid = t.others instid := by
    unfold others
    rw [hflight, hmemops, map_update_memops h.nodup.not_mem_erase]
  obtain ⟨o, ho⟩ := h.ring
  exact {
    ring := ⟨o, ho.congr hinstid hcbif hflight⟩
    uncommitted := by
      rw [hflight, hcbif]
      exact h.uncommitted
    shaped := by
      intro y hy
      unfold window at hy
      rw [hflight, hmemops] at hy
      obtain ⟨j, hj, rfl⟩ := List.mem_map.mp hy
      by_cases hji : j = instid
      · rw [hji, Function.update_self]
        exact hx
      · rw [Function.update_of_ne hji]
        exact h.shaped _ (List.mem_map_of_mem hj)
    order := by
      rw [hfetchnums]
      exact h.order
    fetched := by
      intro y hy
      have hmemFetchnum := List.mem_map_of_mem (f := Memop.fetchnum) hy
      rw [hfetchnums] at hmemFetchnum
      obtain ⟨z, hz, hzy⟩ := List.mem_map.mp hmemFetchnum
      rw [hcount, ← hzy]
      exact h.fetched z hz
    holds := by
      apply hholds.congr
      have hperm := perm_others (t := t') (hflight ▸ hmem : instid ∈ t'.rename.flight)
      rw [hothers, hmemops, Function.update_self] at hperm
      exact hperm.symm }

/-! ### The steps that leave the window as it is -/

theorem Buffers.issue (h : t.Buffers) (hmem : instid ∈ t.rename.flight)
    {writes : List (Target × Int)} {vaddr data : BitVec 64}
    (hissue : t.AINT_issue_other pmap instid writes vaddr data = .ok t') : t'.Buffers := by
  obtain ⟨o, ho⟩ := h.ring
  obtain ⟨picode, hpicode⟩ := ho.alive instid hmem
  have hx := h.shaped _ (List.mem_map_of_mem hmem)
  have hholds := h.holds.congr (perm_others hmem)
  unfold AINT_issue_other renamed at hissue
  cases hrename : t.rename.AINT_issue_other instid writes with
  | none => rw [hrename] at hissue; cases hissue
  | some rename =>
      obtain ⟨regs, rfl⟩ := RenameThread.issue_eq hrename
      rw [hrename] at hissue
      dsimp only at hissue
      rw [hpicode, Option.isNone_some, if_neg Bool.false_ne_true] at hissue
      split at hissue
      · rename_i hkind
        cases hissue
        exact h.change hmem rfl rfl rfl rfl rfl (hx.issued hkind) rfl hholds
      · split at hissue
        · cases hissue
          exact h.change hmem rfl rfl rfl rfl rfl (hx.event pmap vaddr data) rfl hholds
        · cases hissue

theorem Buffers.read (h : t.Buffers) (hmem : instid ∈ t.rename.flight)
    (hkind : (t.memops instid).kind = .load) {writes : List (Target × Int)}
    {elements : List (BitVec 64 × BitVec 64)}
    (hread : t.AINT_do_read pmap instid writes elements = .ok t') : t'.Buffers := by
  have hx := h.shaped _ (List.mem_map_of_mem hmem)
  have hholds := h.holds.congr (perm_others hmem)
  unfold AINT_do_read renamed at hread
  cases hrename : t.rename.writeCells instid writes with
  | none => rw [hrename] at hread; cases hread
  | some rename =>
      obtain ⟨regs, rfl⟩ := RenameThread.writeCells_eq hrename
      rw [hrename] at hread
      cases hread
      rcases Bool.eq_false_or_eq_true (t.memops instid).is_vector with hvector | hscalar
      · have hno {P : Prop} (hscalar : (t.memops instid).is_vector = false) : P :=
          absurd (hscalar.symm.trans hvector) Bool.false_ne_true
        rw [if_pos hvector]
        cases elements.getLast? with
        | none =>
            exact h.change hmem rfl rfl rfl rfl rfl (hx.load hkind _ _ _ hno) rfl hholds
        | some e =>
            exact h.change hmem rfl rfl rfl rfl rfl (hx.load hkind e.1 (pmap e.1) e.2 hno)
              rfl hholds
      · rw [if_neg (by rw [hscalar]; exact Bool.false_ne_true)]
        exact h.change hmem rfl rfl rfl rfl rfl (hx.load hkind _ _ _ fun _ => rfl) rfl hholds

/-- What the writes of the elements leave of the operation. -/
theorem writeElements_fst (pmap : BitVec 64 → BitVec 64) (array : List StqEntry) (x : Memop)
    (memory : BitVec 64 → BitVec 64) : ∃ vaddr paddr data,
      (writeElements pmap array x memory).1 =
        { x with vaddr := vaddr, paddr := paddr, data := data } := by
  induction array generalizing x memory with
  | nil => exact ⟨x.vaddr, x.paddr, x.data, rfl⟩
  | cons u array ih =>
      rw [writeElements]
      obtain ⟨vaddr, paddr, data, hx⟩ := ih
        { x with vaddr := u.vaddr, data := u.data, paddr := pmap u.vaddr }
        (writeMemory x.size (pmap u.vaddr) u.data memory)
      exact ⟨vaddr, paddr, data, hx⟩

theorem Buffers.write (h : t.Buffers) (hmem : instid ∈ t.rename.flight)
    (hwrite : t.AINT_do_write pmap instid = .ok t') : t'.Buffers := by
  have hx := h.shaped _ (List.mem_map_of_mem hmem)
  have hholds := h.holds.congr (perm_others hmem)
  unfold AINT_do_write at hwrite
  dsimp only at hwrite
  split at hwrite
  · cases hwrite
  · rename_i hdone
    have hdone : (t.memops instid).done_spec_write = true := by simpa using hdone
    split at hwrite
    · cases hwrite
      exact h.change hmem rfl rfl rfl rfl rfl (hx.store hdone _ _ _ fun _ => ⟨rfl, rfl⟩) rfl hholds
    · rename_i hvector
      have hvector : (t.memops instid).is_vector = true := by simpa using hvector
      split at hwrite
      · cases hwrite
      · obtain ⟨vaddr, paddr, data, heq⟩ := writeElements_fst pmap
          (((t.memops instid).stq_update_array.getD []).take (VL t.rename (t.memops instid)))
          (t.memops instid) t.memory
        cases hwrite
        rw [heq]
        exact h.change hmem rfl rfl rfl rfl rfl (hx.store hdone vaddr paddr data fun hscalar =>
          absurd (hscalar.symm.trans hvector) Bool.false_ne_true) rfl hholds

theorem Buffers.specWrite (h : t.Buffers) (pmap : BitVec 64 → BitVec 64)
    (hmem : instid ∈ t.rename.flight) (hstore : (t.memops instid).isStore = true)
    (hissued : (t.memops instid).issued = true) (elements : List (BitVec 64 × BitVec 64))
    (hlength : (t.memops instid).is_vector = true → ∀ array,
      (t.memops instid).stq_update_array = some array → array.length = elements.length) :
    ∃ x sb, t.AINT_do_spec_write pmap instid elements =
        .ok (setMemop { t with sb := sb } instid x) ∧
      (setMemop { t with sb := sb } instid x).Buffers ∧ (t.memops instid).Same x ∧
      ((t.memops instid).is_vector = false → (t.memops instid).kind = .store →
        x.wrote = some ((t.memops instid).vaddr, (t.memops instid).data)) := by
  have hx := h.shaped _ (List.mem_map_of_mem hmem)
  obtain ⟨x', sb', hwrite, hx', hsame, hholds, hwrote⟩ := Memop.specWrite_spec pmap instid
    (h.holds.congr (perm_others hmem)) hx hstore hissued hlength (h.fetchnum_ne hmem)
  refine ⟨x', sb', ?_, ?_, hsame, hwrote⟩
  · unfold AINT_do_spec_write
    rw [hstore, hwrite]
    rfl
  · exact h.change hmem rfl rfl rfl rfl rfl hx' hsame.fetchnum hholds

/-! ### Fetching -/

theorem Buffers.fetch (h : t.Buffers) {picode? : Option MemIcode}
    (hfetch : t.AINT_fetch_next_instr picode? = .ok t') : t'.Buffers := by
  unfold AINT_fetch_next_instr renamed at hfetch
  cases picode? with
  | none =>
      have hnone : t.rename.AINT_fetch_next_instr none = some t.rename := rfl
      rw [Option.map_none, hnone] at hfetch
      cases hfetch
      exact h
  | some picode =>
      rw [Option.map_some] at hfetch
      cases hrename : t.rename.AINT_fetch_next_instr (some picode.toIcode) with
      | none => rw [hrename] at hfetch; cases hfetch
      | some rename =>
          rw [hrename] at hfetch
          obtain ⟨hfree, args, old, regs, rfl⟩ := RenameThread.fetch_eq hrename
          cases hfetch
          obtain ⟨o, ho⟩ := h.ring
          have hnot := (ho.next_notMem hfree).1
          generalize hnew : SUCC_CIRC t.rename.instid = new at *
          have hwindow : (t.rename.flight ++ [new]).map (Function.update t.memops new
              (.fetched picode t.rename.fetch_count (t.rename.regs.RegMap VL_REG))) =
              t.window ++ [.fetched picode t.rename.fetch_count (t.rename.regs.RegMap VL_REG)] := by
            rw [List.map_append, map_update_memops hnot, List.map_singleton, Function.update_self]
            rfl
          exact {
            ring := ⟨o, ho.enter (by rw [hnew]; exact hfree) rfl hnew.symm (by rw [hnew])
              (by rw [hnew])⟩
            uncommitted := by
              intro i hi
              dsimp only at hi ⊢
              by_cases hin : i = new
              · rw [hin, Function.update_self]
              · rw [Function.update_of_ne hin]
                exact h.uncommitted i ((List.mem_append.mp hi).resolve_right (by simpa using hin))
            shaped := by
              unfold window
              dsimp only
              rw [hwindow]
              exact List.forall_mem_append.mpr ⟨h.shaped, fun x hx => by
                rw [List.mem_singleton.mp hx]
                exact Memop.shaped_fetched ..⟩
            order := by
              unfold window
              dsimp only
              rw [hwindow, List.map_append, List.pairwise_append]
              refine ⟨h.order, List.pairwise_singleton _ _, fun m hm n hn => ?_⟩
              obtain ⟨x, hx, rfl⟩ := List.mem_map.mp hm
              rw [List.mem_singleton.mp hn]
              exact h.fetched x hx
            fetched := by
              unfold window
              dsimp only
              rw [hwindow]
              refine List.forall_mem_append.mpr ⟨fun x hx => Nat.lt_succ_of_lt (h.fetched x hx),
                fun x hx => ?_⟩
              rw [List.mem_singleton.mp hx]
              exact Nat.lt_succ_self _
            holds := by
              unfold window
              dsimp only
              rw [hwindow, List.flatMap_append]
              simpa [Memop.held, Memop.fetched] using h.holds }

/-! ### Committing and killing -/

/-- What an instruction that leaves takes with it. -/
theorem Buffers.leave (h : t.Buffers) {l : List UInt64} {VL : Nat}
    (hflight : t.rename.flight.Perm (instid :: l))
    (hsafe : (t.memops instid).SafeCleanup VL ((l.map t.memops).flatMap Memop.held)) :
    ∃ vaddr sb, Cleanup_StoreBuffer VL (t.memops instid) t.sb =
        .ok ((t.memops instid).cleaned vaddr, sb) ∧
      sb.Holds ((l.map t.memops).flatMap Memop.held) := by
  have hmem : instid ∈ t.rename.flight := hflight.mem_iff.mpr List.mem_cons_self
  have hperm : (t.window.flatMap Memop.held).Perm
      ((t.memops instid).held ++ (l.map t.memops).flatMap Memop.held) :=
    (hflight.map t.memops).flatMap_right _
  have hx := h.shaped _ (List.mem_map_of_mem hmem)
  exact Memop.cleanup_spec (h.holds.congr hperm) hx.toPointed hsafe

/-- The others stay as they are. -/
theorem Buffers.left (h : t.Buffers) {l : List UInt64} (hsub : l.Sublist t.rename.flight)
    (hring : ∃ o, Ring t'.rename o)
    (huncommitted : ∀ i ∈ t'.rename.flight, (t'.rename.cbif i).committed = false)
    (hwindow : t'.window = l.map t.memops) (hcount : t'.rename.fetch_count = t.rename.fetch_count)
    (hholds : t'.sb.Holds ((l.map t.memops).flatMap Memop.held)) : t'.Buffers where
  ring := hring
  uncommitted := huncommitted
  shaped := by
    rw [hwindow]
    exact fun x hx => h.shaped x ((hsub.map t.memops).subset hx)
  order := by
    rw [hwindow]
    exact h.order.sublist ((hsub.map t.memops).map Memop.fetchnum)
  fetched := by
    rw [hwindow, hcount]
    exact fun x hx => h.fetched x ((hsub.map t.memops).subset hx)
  holds := by
    rw [hwindow]
    exact hholds

/-- **The oldest instruction commits**, and its entries leave the buffer. -/
theorem Buffers.commit (h : t.Buffers) {l : List UInt64} (hflight : t.rename.flight = instid :: l)
    (hsafe : (t.memops instid).isStore = true → (t.memops instid).done_memop = true →
      ∀ rename, t.rename.AINT_commit_instr instid = some rename →
        (t.memops instid).SafeCleanup (VL rename (t.memops instid))
          ((l.map t.memops).flatMap Memop.held)) :
    t.AINT_commit_instr instid = .error .renaming ∨
      t.AINT_commit_instr instid = .error .beforeMemop ∨
      ∃ t', t.AINT_commit_instr instid = .ok t' ∧ t'.Buffers := by
  have hmem : instid ∈ t.rename.flight := by rw [hflight]; exact List.mem_cons_self
  have hcommitted := h.uncommitted instid hmem
  have hx := h.shaped _ (List.mem_map_of_mem hmem)
  have hnodup := h.nodup
  rw [hflight, List.nodup_cons] at hnodup
  unfold AINT_commit_instr renamed
  cases hrename : t.rename.AINT_commit_instr instid with
  | none => exact .inl rfl
  | some rename =>
      dsimp only
      rw [hcommitted, if_neg Bool.false_ne_true]
      split
      · exact .inr (.inl rfl)
      · rename_i hdone
        have hclean : (t.memops instid).SafeCleanup (VL rename (t.memops instid))
            ((l.map t.memops).flatMap Memop.held) := by
          rcases Bool.eq_false_or_eq_true (t.memops instid).isStore with hstore | hidle
          · refine hsafe hstore ?_ rename hrename
            have hkind : (t.memops instid).kind ≠ .none := by
              intro hnone
              unfold Memop.isStore at hstore
              rw [hnone] at hstore
              cases hstore
            simpa [hkind] using hdone
          · obtain ⟨hupdate, harray⟩ := hx.idle hidle
            exact Memop.safeCleanup_of_none hupdate harray
        obtain ⟨vaddr, sb, hcleanup, hholds⟩ := h.leave (.of_eq hflight) hclean
        obtain ⟨regs, rfl⟩ := RenameThread.commit_eq hrename hcommitted
        obtain ⟨o, ho⟩ := h.ring
        have htail : t.rename.flight.tail = l := by rw [hflight]; rfl
        rw [hcleanup]
        refine .inr (.inr ⟨_, rfl, h.left (l := l) ?_ ?_ ?_ ?_ rfl hholds⟩)
        · rw [hflight]
          exact List.sublist_cons_self instid l
        · exact ⟨o + 1, ho.leaveFirst hflight rfl rfl rfl htail⟩
        · intro i hi
          have hil : i ∈ l := by
            rw [← htail]
            exact hi
          show (Function.update t.rename.cbif instid _ i).committed = false
          rw [Function.update_of_ne]
          · exact h.uncommitted i (by rw [hflight]; exact List.mem_cons_of_mem instid hil)
          · intro heq
            subst heq
            exact hnodup.1 hil
        · show t.rename.flight.tail.map (Function.update t.memops instid _) = _
          rw [htail, map_update_memops hnodup.1]

/-- **The youngest instruction is killed**, and its entries leave the buffer. -/
theorem Buffers.killYoungest (h : t.Buffers) {l : List UInt64} {i : UInt64}
    (hflight : t.rename.flight = l ++ [i]) (picode : Icode)
    (hsafe : (t.memops i).SafeCleanup (VL (t.rename.killYoungest picode) (t.memops i))
      ((l.map t.memops).flatMap Memop.held)) :
    ∃ t', t.killYoungest picode = .ok t' ∧ t'.Buffers ∧
      t'.rename = t.rename.killYoungest picode ∧ t'.rename.flight = l ∧
      (∀ j ∈ l, t'.memops j = t.memops j) ∧ t'.memory = t.memory := by
  obtain ⟨o, ho⟩ := h.ring
  obtain ⟨hi, -, -⟩ := ho.last hflight
  subst hi
  have hnodup := h.nodup
  rw [hflight] at hnodup
  have hnot : t.rename.instid ∉ l := by
    intro hmem
    exact (List.nodup_append.mp hnodup).2.2 _ hmem _ (List.mem_singleton.mpr rfl) rfl
  have hperm : t.rename.flight.Perm (t.rename.instid :: l) := by
    rw [hflight]
    exact List.perm_append_singleton _ _
  obtain ⟨vaddr, sb, hcleanup, hholds⟩ := h.leave hperm hsafe
  have hflight' : (t.rename.killYoungest picode).flight = l := by
    unfold RenameThread.killYoungest
    dsimp only
    rw [hflight, List.dropLast_concat]
  unfold AintThread.killYoungest
  dsimp only
  rw [hcleanup]
  refine ⟨_, rfl, h.left (l := l) ?_ ?_ ?_ ?_ rfl hholds, rfl, hflight', ?_, rfl⟩
  · rw [hflight]
    exact List.sublist_append_left l _
  · exact ⟨o, ho.leaveLast hflight rfl rfl rfl hflight'⟩
  · intro j hj
    have hj : j ∈ (t.rename.killYoungest picode).flight := hj
    rw [hflight'] at hj
    show (Function.update t.rename.cbif t.rename.instid _ j).committed = false
    rw [Function.update_of_ne]
    · exact h.uncommitted j (by rw [hflight]; exact List.mem_append_left _ hj)
    · rintro rfl
      exact hnot hj
  · show (t.rename.killYoungest picode).flight.map (Function.update t.memops t.rename.instid _) = _
    rw [hflight', map_update_memops hnot]
  · intro j hj
    show Function.update t.memops t.rename.instid _ j = t.memops j
    rw [Function.update_of_ne]
    rintro rfl
    exact hnot hj

/-! ### The loop of a kill -/

/-- What a round establishes for the next one holds when the loop stops. -/
theorem killLoop_rule {I : Nat → AintThread → Prop} {o k m fuel : Nat} (hm : m ≤ 1023)
    (hfuel : m ≤ fuel) (ho : 0 < o)
    (hinstid : ∀ n s, I n s → s.rename.instid = slotOf (o + (k + n) - 1))
    (hround : ∀ n s, n < m → I (n + 1) s → ∃ picode s',
      (s.rename.cbif s.rename.instid).picode = some picode ∧
        s.killYoungest picode = .ok s' ∧ I n s')
    (h : I m t) : ∃ t', killLoop (slotOf (o + k - 1)) fuel t = .ok t' ∧ I 0 t' := by
  induction m generalizing t fuel with
  | zero =>
      have heq := hinstid 0 t h
      rw [Nat.add_zero] at heq
      refine ⟨t, ?_, h⟩
      cases fuel with
      | zero => exact if_pos heq
      | succ fuel => exact if_pos heq
  | succ m ih =>
      obtain ⟨fuel, rfl⟩ := Nat.exists_eq_succ_of_ne_zero (Nat.ne_of_gt (Nat.lt_of_lt_of_le
        m.succ_pos hfuel))
      have heq := hinstid (m + 1) t h
      have hne : t.rename.instid ≠ slotOf (o + k - 1) := by
        rw [heq]
        intro hslot
        have := slotOf_inj hslot (by omega) (by omega)
        omega
      have hlt : ¬ CBIF_SIZE ≤ t.rename.instid := by
        rw [heq]
        exact UInt64.not_le.mpr (slotOf_lt _)
      obtain ⟨picode, s', hpicode, hkill, hs'⟩ := hround m t (Nat.lt_succ_self m) h
      obtain ⟨t', hloop, ht'⟩ := ih (by omega) (Nat.le_of_succ_le_succ hfuel)
        (fun n s hn => hround n s (Nat.lt_succ_of_lt hn)) hs'
      refine ⟨t', ?_, ht'⟩
      rw [killLoop, if_neg hne, if_neg hlt, hpicode]
      dsimp only
      rw [hkill]
      exact hloop

end AintThread

end AsimFeeder.Aint
