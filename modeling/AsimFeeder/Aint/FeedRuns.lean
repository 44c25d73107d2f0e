/-
Kills along whole runs.

Every instruction in flight keeps its place among those that were handed out, whatever is
fetched, issued, read, written, committed and killed.  So a kill takes back exactly what it
should: provided that no instruction writes behind its vector register, that a store finds its
lists in the buffer when it leaves, and that the walk of the kill stops where it should.  The
slot at which it stops says nothing when it is computed from the identifier of a no-op, and it
is the slot of the youngest when the oldest of a full ring is killed.
-/
import AsimFeeder.Aint.FeedBack
import AsimFeeder.Lib.Checks

namespace AsimFeeder.Aint

open Lib

/-! ### Fetching -/

theorem InflightInst.after_renamedTo {map : LogicalRegNum → Nat} {picode : Icode} {dest : Arg}
    (hdest : picode.dest = some dest) {pr fetchnum : Nat} :
    (renamedTo map picode dest pr fetchnum).after map picode =
      if pr = ZERO_REGISTER then map else Function.update map (picode.args dest) pr := by
  have hargs := args_renamedTo map picode dest pr fetchnum
  by_cases hzero : pr = ZERO_REGISTER
  · rw [if_pos hzero, after_zero hdest (hargs.trans hzero)]
  · rw [if_neg hzero, after_dest hdest (fun heq => hzero (hargs.symm.trans heq)), hargs]

namespace RenameThread

variable {t t' : RenameThread} {picode : Icode}

/-- A new register is not the one that is always zero, unless it stands for that. -/
theorem Conserves.ReMap_spec (h : t.Conserves) {reg : LogicalRegNum} {pr : Nat} {regs : RegFile}
    (hremap : t.regs.ReMap reg = some (pr, regs)) : (pr = ZERO_REGISTER ↔ isNonzero reg = false) ∧
      regs.RegMap = if pr = ZERO_REGISTER then t.regs.RegMap
        else Function.update t.regs.RegMap reg pr := by
  cases hnonzero : isNonzero reg with
  | false =>
      rw [RegFile.ReMap_of_zero hnonzero] at hremap
      cases hremap
      simp
  | true =>
      have hreg := mem_logicals.mpr ⟨hnonzero, rfl⟩
      generalize decide (FIRST_VEC_LOGICAL ≤ reg.val) = vec at hreg
      obtain ⟨free, hfree⟩ := h.partition vec
      rw [RegFile.ReMap_of_nonzero hreg] at hremap
      split at hremap
      · cases hremap
      · rename_i hhead
        cases hremap
        have hmem : (t.regs.free vec).toNat ∈ free := by
          cases free with
          | nil => exact absurd hfree.linked hhead
          | cons p rest =>
              rw [hfree.linked.1]
              exact List.mem_cons_self
        have hne := (class_of_mem (hfree.mem_physicals hmem)).2
        rw [if_neg hne]
        refine ⟨by simp [hne], ?_⟩
        unfold RegFile.setMap
        rw [RegFile.RegMap_setFree]

/-- **A fetch renames the instruction in the map of the thread.** -/
theorem Conserves.fetch_renamed (h : t.Conserves)
    (hfetch : t.AINT_fetch_next_instr (some picode) = some t') :
    ∃ x, t'.cbif = Function.update t.cbif (SUCC_CIRC t.instid) x ∧
      x.Renamed t.regs.RegMap picode ∧ t'.regs.RegMap = x.after t.regs.RegMap picode := by
  unfold AINT_fetch_next_instr at hfetch
  dsimp only at hfetch
  split at hfetch
  · cases hfetch
  · cases hdest : picode.dest with
    | none =>
        rw [hdest] at hfetch
        cases hfetch
        refine ⟨_, rfl, ⟨rfl, fun _ _ => rfl, by simp [hdest], by simp [hdest]⟩, ?_⟩
        unfold InflightInst.after
        rw [hdest]
    | some dest =>
        rw [hdest] at hfetch
        obtain ⟨⟨pr, regs⟩, hremap, rfl⟩ := Option.map_eq_some_iff.mp hfetch
        obtain ⟨hzero, hmap⟩ := h.ReMap_spec hremap
        refine ⟨_, rfl, InflightInst.renamed_renamedTo t.regs.RegMap hdest t.fetch_count hzero, ?_⟩
        show regs.RegMap =
          (InflightInst.renamedTo t.regs.RegMap picode dest pr t.fetch_count).after _ picode
        rw [hmap, InflightInst.after_renamedTo hdest]

end RenameThread

namespace FeedThread

variable {pmap : BitVec 64 → BitVec 64} {t t' : FeedThread} {a a' : AintThread}
  {l rest : List HandedInst} {x : HandedInst} {i : UInt64}

/-- The slot of an instruction is not the identifier of a no-op. -/
theorem instid?_slotOf (p : Nat) (before after : LogicalRegNum → Nat) :
    (⟨slotOf p, before, after⟩ : HandedInst).instid? = some (slotOf p) := by
  refine if_neg fun heq => ?_
  have hlt := slotOf_lt p
  rw [show slotOf p = AINT_WRONGPATH_ID from heq] at hlt
  exact absurd hlt (by decide)

theorem instid?_noop (before after : LogicalRegNum → Nat) :
    (⟨AINT_WRONGPATH_ID, before, after⟩ : HandedInst).instid? = none := if_pos rfl

theorem Feeding.fetchNoop (h : t.Feeding) : Feeding ⟨t.aint, t.handed ++
    [⟨AINT_WRONGPATH_ID, t.aint.rename.regs.RegMap, t.aint.rename.regs.RegMap⟩]⟩ where
  conserves := h.conserves
  buffers := h.buffers
  flight := by
    show t.aint.rename.flight = instids (t.handed ++ [_])
    rw [instids_noop (instid?_noop _ _)]
    exact h.flight
  handed := by
    obtain ⟨base, hbase⟩ := h.handed
    exact ⟨base, hbase.append (.cons ⟨rfl, fun _ => rfl, fun i hi => by cases hi⟩ .nil)⟩

/-- An instruction is handed out behind the others. -/
theorem Feeding.fetchSlot (h : t.Feeding) {picode : MemIcode}
    (hrename : t.aint.rename.AINT_fetch_next_instr (some picode.toIcode) = some a'.rename)
    (hmemops : a'.memops = Function.update t.aint.memops a'.rename.instid
      (.fetched picode t.aint.rename.fetch_count (t.aint.rename.regs.RegMap VL_REG)))
    (hbuffers : a'.Buffers) : Feeding ⟨a', t.handed ++
      [⟨a'.rename.instid, t.aint.rename.regs.RegMap, a'.rename.regs.RegMap⟩]⟩ := by
  obtain ⟨y, hcbif, hrenamed, hmap⟩ := h.conserves.fetch_renamed hrename
  obtain ⟨hfree, args, old, regs, heq⟩ := RenameThread.fetch_eq hrename
  have hinstid : a'.rename.instid = SUCC_CIRC t.aint.rename.instid := by rw [heq]
  have hflight : a'.rename.flight = t.aint.rename.flight ++ [a'.rename.instid] := by rw [heq]
  obtain ⟨o, ho⟩ := h.conserves.ring
  obtain ⟨base, hbase⟩ := h.handed
  have hnot := (ho.next_notMem hfree).1
  rw [← hinstid] at hcbif hnot
  have hslot : (⟨a'.rename.instid, t.aint.rename.regs.RegMap, a'.rename.regs.RegMap⟩ :
      HandedInst).instid? = some a'.rename.instid := by
    rw [hinstid, ho.next]
    exact instid?_slotOf _ _ _
  refine ⟨h.conserves.fetch hrename, hbuffers, ?_, base, ?_⟩
  · show a'.rename.flight = instids (t.handed ++ [_])
    rw [instids_slot hslot, hflight, h.flight]
  · have hsame : Handed a' base t.handed t.aint.rename.regs.RegMap := by
      refine hbase.congr fun j hj => ?_
      have hne : j ≠ a'.rename.instid := by
        rintro rfl
        exact hnot (h.flight ▸ hj)
      rw [hcbif, hmemops, Function.update_of_ne hne, Function.update_of_ne hne]
      exact ⟨rfl, rfl⟩
    refine hsame.append (.cons ⟨rfl, fun hnone => ?_, fun j hj => ?_⟩ .nil)
    · cases hnone.symm.trans hslot
    · obtain rfl := Option.some.inj (hslot.symm.trans hj)
      refine ⟨picode.toIcode, ?_, ?_, ?_⟩
      · rw [hcbif, Function.update_self]
        exact hrenamed
      · rw [hcbif, Function.update_self]
        exact hmap
      · rw [hmemops, Function.update_self]
        rfl

theorem Feeding.fetch (h : t.Feeding) {picode? : Option MemIcode}
    (hfetch : t.FEED_Fetch picode? = some t') : t'.Feeding := by
  obtain ⟨aint, haint, rfl⟩ := Option.map_eq_some_iff.mp hfetch
  have haint := eq_ok_of_toOption haint
  cases picode? with
  | none =>
      cases haint
      exact h.fetchNoop
  | some picode =>
      have hbuffers := h.buffers.fetch haint
      unfold AintThread.AINT_fetch_next_instr AintThread.renamed at haint
      rw [Option.map_some] at haint
      cases hrename : t.aint.rename.AINT_fetch_next_instr (some picode.toIcode) with
      | none => rw [hrename] at haint; cases haint
      | some rename =>
          rw [hrename] at haint
          cases haint
          exact h.fetchSlot hrename rfl hbuffers

/-! ### Operations -/

/-- An operation writes registers, and leaves all vector lengths where they are. -/
structure Operates (a a' : AintThread) : Prop where
  writes : RenameThread.Writes a.rename a'.rename
  vl : ∀ i, (a'.memops i).vl = (a.memops i).vl

theorem Feeding.operates (h : Feeding ⟨a, l⟩) (hoperates : Operates a a')
    (hconserves : a'.rename.Conserves) (hbuffers : a'.Buffers) : Feeding ⟨a', l⟩ where
  conserves := hconserves
  buffers := hbuffers
  flight := hoperates.writes.flight.trans h.flight
  handed := by
    obtain ⟨base, hbase⟩ := h.handed
    refine ⟨base, ?_⟩
    show Handed a' base l a'.rename.regs.RegMap
    rw [hoperates.writes.map]
    exact hbase.congr fun i _ => ⟨by rw [hoperates.writes.cbif], hoperates.vl i⟩

theorem vl_update {memops : UInt64 → Memop} {y : Memop} (h : y.vl = (memops i).vl) (j : UInt64) :
    (Function.update memops i y j).vl = (memops j).vl := by
  by_cases hj : j = i
  · rw [hj, Function.update_self, h]
  · rw [Function.update_of_ne hj]

theorem operates_issue {writes : List (Target × Int)} {vaddr data : BitVec 64}
    (h : a.AINT_issue_other pmap i writes vaddr data = .ok a') : Operates a a' ∧
      a.rename.AINT_issue_other i writes = some a'.rename := by
  unfold AintThread.AINT_issue_other AintThread.renamed at h
  cases hrename : a.rename.AINT_issue_other i writes with
  | none => rw [hrename] at h; cases h
  | some rename =>
      have hwrites := RenameThread.writes_issue hrename
      rw [hrename] at h
      dsimp only at h
      split at h
      · cases h
        exact ⟨⟨hwrites, vl_update rfl⟩, rfl⟩
      · split at h
        · cases h
          exact ⟨⟨hwrites, vl_update rfl⟩, rfl⟩
        · split at h
          · cases h
            exact ⟨⟨hwrites, vl_update rfl⟩, rfl⟩
          · cases h

theorem operates_read {writes : List (Target × Int)} {elements : List (BitVec 64 × BitVec 64)}
    (h : a.AINT_do_read pmap i writes elements = .ok a') : Operates a a' ∧
      a.rename.writeCells i writes = some a'.rename := by
  unfold AintThread.AINT_do_read AintThread.renamed at h
  cases hrename : a.rename.writeCells i writes with
  | none => rw [hrename] at h; cases h
  | some rename =>
      have hwrites := (RenameThread.writes_writeCells hrename).1
      rw [hrename] at h
      cases h
      refine ⟨⟨hwrites, vl_update ?_⟩, rfl⟩
      dsimp only
      split
      · split <;> rfl
      · rfl

theorem operates_write (h : a.AINT_do_write pmap i = .ok a') : Operates a a' ∧
    a'.rename = a.rename := by
  unfold AintThread.AINT_do_write at h
  dsimp only at h
  split at h
  · cases h
  · split at h
    · cases h
      exact ⟨⟨.refl _, vl_update rfl⟩, rfl⟩
    · split at h
      · cases h
      · obtain ⟨vaddr, paddr, data, heq⟩ := AintThread.writeElements_fst pmap
          (((a.memops i).stq_update_array.getD []).take (AintThread.VL a.rename (a.memops i)))
          (a.memops i) a.memory
        cases h
        refine ⟨⟨.refl _, vl_update ?_⟩, rfl⟩
        rw [heq]

theorem cleanup_vl {VL : Nat} {y y' : Memop} {sb sb' : StoreBuffer}
    (h : Cleanup_StoreBuffer VL y sb = .ok (y', sb')) : y'.vl = y.vl := by
  unfold Cleanup_StoreBuffer at h
  generalize (if y.is_vector then VL else 1) = vl at h
  dsimp only at h
  split at h
  · obtain ⟨-, h⟩ := check_eq_ok h
    obtain ⟨_, -, heq⟩ := map_eq_ok h
    cases heq
    rfl
  · split at h
    · cases h
      rfl
    · split at h
      · cases h
        rfl
      · obtain ⟨_, -, heq⟩ := map_eq_ok h
        cases heq
        rfl

theorem update_vl {instid : UInt64} {y y' : Memop} {sb sb' : StoreBuffer}
    (h : Update_StoreBuffer instid y sb = .ok (y', sb')) : y'.vl = y.vl := by
  unfold Update_StoreBuffer at h
  dsimp only at h
  split at h
  · cases h
    rfl
  · split at h
    · cases h
      rfl
    · obtain ⟨-, h⟩ := check_eq_ok h
      cases h
      rfl

theorem specWriteElements_vl {instid : UInt64} {elements : List (BitVec 64 × BitVec 64)}
    {y y' : Memop} {sb sb' : StoreBuffer}
    (h : y.specWriteElements pmap instid elements sb = .ok (y', sb')) : y'.vl = y.vl := by
  induction elements generalizing y sb with
  | nil =>
      cases h
      rfl
  | cons e elements ih =>
      rw [Memop.specWriteElements] at h
      obtain ⟨⟨z, sb₁⟩, hupdate, hrest⟩ := bind_eq_ok h
      have hz := update_vl hupdate
      have hlast := ih hrest
      exact hlast.trans hz

theorem specWrite_vl {instid : UInt64} {elements : List (BitVec 64 × BitVec 64)}
    {y y' : Memop} {sb sb' : StoreBuffer}
    (h : y.specWrite pmap instid elements sb = .ok (y', sb')) : y'.vl = y.vl := by
  unfold Memop.specWrite at h
  obtain ⟨⟨z, sb₁⟩, hold, hupdate⟩ := bind_eq_ok h
  obtain ⟨⟨z', sb₂⟩, hspec, heq⟩ := map_eq_ok hupdate
  cases heq
  have hz : z.vl = y.vl := by
    unfold Memop.cleanupOld at hold
    split at hold
    · obtain ⟨⟨_, _⟩, hclean, heq⟩ := map_eq_ok hold
      cases heq
      have hz := cleanup_vl hclean
      exact hz
    · cases hold
      rfl
  have hz' : z'.vl = z.vl := by
    unfold Memop.specUpdate at hspec
    split at hspec
    · have helements := specWriteElements_vl hspec
      exact helements
    · split at hspec
      · cases hspec
        rfl
      · obtain ⟨⟨_, _⟩, hwrite, heq⟩ := map_eq_ok hspec
        cases heq
        have hupdate := update_vl hwrite
        exact hupdate
  exact hz'.trans hz

theorem operates_specWrite {elements : List (BitVec 64 × BitVec 64)}
    (h : a.AINT_do_spec_write pmap i elements = .ok a') : Operates a a' ∧
      a'.rename = a.rename := by
  unfold AintThread.AINT_do_spec_write at h
  obtain ⟨-, h⟩ := check_eq_ok h
  obtain ⟨⟨y, sb⟩, hwrite, heq⟩ := map_eq_ok h
  cases heq
  exact ⟨⟨.refl _, vl_update (specWrite_vl hwrite)⟩, rfl⟩

/-- **An operation that is legal and careful** keeps everything. -/
theorem Feeding.operate (h : t.Feeding) {e : AintEvent} (hlegal : t.legal (.operate e) = true)
    (hcareful : t.careful (.operate e) = true) (hexec : t.exec pmap (.operate e) = some t') :
    t'.Feeding := by
  obtain ⟨a', ha', rfl⟩ := Option.map_eq_some_iff.mp hexec
  have ha' := eq_ok_of_toOption ha'
  cases e with
  | issue i writes vaddr data =>
      have hmem := List.contains_iff_mem.mp hlegal
      obtain ⟨hoperates, hrename⟩ := operates_issue ha'
      refine Feeding.operates (a := t.aint) h hoperates ?_ (h.buffers.issue hmem ha')
      exact h.conserves.issue hmem (List.all_eq_true.mp hcareful) hrename
  | read i writes elements =>
      obtain ⟨hmem, hload⟩ := Bool.and_eq_true_iff.mp hlegal
      have hmem := List.contains_iff_mem.mp hmem
      obtain ⟨hoperates, hrename⟩ := operates_read ha'
      refine Feeding.operates (a := t.aint) h hoperates ?_
        (h.buffers.read hmem (eq_of_beq hload) ha')
      exact h.conserves.writeCells hmem (List.all_eq_true.mp hcareful) hrename
  | specWrite i elements =>
      obtain ⟨hand, -⟩ := Bool.and_eq_true_iff.mp hlegal
      obtain ⟨hand, hissued⟩ := Bool.and_eq_true_iff.mp hand
      obtain ⟨hmem, hstore⟩ := Bool.and_eq_true_iff.mp hand
      obtain ⟨hoperates, hrename⟩ := operates_specWrite ha'
      obtain ⟨y, sb, hwrite, hbuffers, -⟩ := h.buffers.specWrite pmap
        (List.contains_iff_mem.mp hmem) hstore hissued elements (fun hvector array harray => by
          have hcareful : (!(t.aint.memops i).is_vector ||
              (t.aint.memops i).stq_update_array.all fun array =>
                array.length == elements.length) = true := hcareful
          rw [hvector, harray] at hcareful
          exact eq_of_beq hcareful)
      have heq : a' = _ := Except.ok.inj (ha'.symm.trans hwrite)
      refine Feeding.operates (a := t.aint) h hoperates ?_ (heq ▸ hbuffers)
      rw [hrename]
      exact h.conserves
  | write i =>
      obtain ⟨hmem, -⟩ := Bool.and_eq_true_iff.mp hlegal
      obtain ⟨hoperates, hrename⟩ := operates_write ha'
      refine Feeding.operates (a := t.aint) h hoperates ?_
        (h.buffers.write (List.contains_iff_mem.mp hmem) ha')
      rw [hrename]
      exact h.conserves
  | fetch picode => cases hlegal
  | stcFailed i => cases hlegal
  | commit i => cases hlegal
  | kill i => cases hlegal

/-! ### Committing -/

theorem commit_spec (huncommitted : (a.rename.cbif i).committed = false)
    (h : a.AINT_commit_instr i = .ok a') : a.rename.AINT_commit_instr i = some a'.rename ∧
      ∃ y, a'.memops = Function.update a.memops i y := by
  unfold AintThread.AINT_commit_instr AintThread.renamed at h
  cases hrename : a.rename.AINT_commit_instr i with
  | none => rw [hrename] at h; cases h
  | some rename =>
      rw [hrename] at h
      dsimp only at h
      rw [huncommitted, if_neg Bool.false_ne_true] at h
      obtain ⟨-, h⟩ := check_eq_ok h
      obtain ⟨⟨y, sb⟩, -, heq⟩ := map_eq_ok h
      cases heq
      exact ⟨rfl, y, rfl⟩

/-- **The oldest instruction commits**, and the others keep their places. -/
theorem Feeding.commit (h : t.Feeding) (hcareful : t.careful .commit = true)
    (hcommit : t.FEED_Commit = some t') : t'.Feeding := by
  obtain ⟨aint, handed⟩ := t
  unfold FEED_Commit at hcommit
  cases handed with
  | nil => cases hcommit
  | cons x rest =>
      obtain ⟨hnoop, hcommit⟩ := Option.ite_none_left_eq_some.mp hcommit
      obtain ⟨a', ha', rfl⟩ := Option.map_eq_some_iff.mp hcommit
      have ha' : aint.AINT_commit_instr x.identifier = .ok a' := eq_ok_of_toOption ha'
      have hslot : x.instid? = some x.identifier := if_neg hnoop
      have hinstids : instids (x :: rest) = x.identifier :: instids rest :=
        List.filterMap_cons_some hslot
      have hflight : aint.rename.flight = x.identifier :: instids rest := by
        rw [← hinstids]
        exact h.flight
      have huncommitted := h.buffers.uncommitted x.identifier (by
        rw [hflight]
        exact List.mem_cons_self)
      obtain ⟨hrename, y, hmemops⟩ := commit_spec huncommitted ha'
      have hsafe : found (AintThread.VL a'.rename (aint.memops x.identifier))
          (aint.memops x.identifier) (((instids rest).map aint.memops).flatMap Memop.held) =
          true := by
        unfold careful at hcareful
        dsimp only at hcareful
        rw [hinstids, List.head?_cons, Option.all_some, hrename] at hcareful
        exact hcareful
      have hbuffers : a'.Buffers := by
        rcases h.buffers.commit hflight (fun _ _ rename hsome => by
            obtain rfl := Option.some.inj (hrename.symm.trans hsome)
            exact safeCleanup_of_found hsafe) with herror | herror | ⟨t', ht', hbuffers⟩
        · cases ha'.symm.trans herror
        · cases ha'.symm.trans herror
        · cases ha'.symm.trans ht'
          exact hbuffers
      have hmap := (h.conserves.commit_keeps VL_REG hflight hrename).1
      obtain ⟨regs, heq⟩ := RenameThread.commit_eq hrename huncommitted
      obtain ⟨base, hbase⟩ := h.handed
      refine ⟨h.conserves.commit hflight hrename, hbuffers, ?_, ?_⟩
      · show a'.rename.flight = instids rest
        rw [heq]
        show aint.rename.flight.tail = instids rest
        rw [hflight, List.tail_cons]
      · cases hbase with
        | cons _ hrest =>
            refine ⟨x.after, ?_⟩
            show Handed a' x.after rest a'.rename.regs.RegMap
            rw [hmap]
            have hnodup := h.buffers.nodup
            rw [hflight, List.nodup_cons] at hnodup
            refine hrest.congr fun j hj => ?_
            have hne : j ≠ x.identifier := by
              rintro rfl
              exact hnodup.1 hj
            rw [hmemops, heq]
            dsimp only
            rw [Function.update_of_ne hne, Function.update_of_ne hne]
            exact ⟨rfl, rfl⟩

/-! ### Killing -/

theorem PRED_CIRC_lt (j : UInt64) : PRED_CIRC j < CBIF_SIZE := by
  rw [UInt64.lt_iff_toNat_lt]
  unfold PRED_CIRC
  rw [toNat_mask]
  exact Nat.mod_lt _ (by decide)

/-- **A careful kill** takes back exactly what it should. -/
theorem Feeding.kill (h : t.Feeding) {n : Nat} {mispredict : Bool} (hx : t.handed[n]? = some x)
    (hcareful : t.careful (.kill n mispredict) = true) :
    ∃ t', t.FEED_Kill n mispredict = some t' ∧ t'.Feeding ∧
      t'.handed = t.handed.take (keeps n mispredict) ∧
      Undone t.aint t'.aint (instids (t.handed.take (keeps n mispredict))) ∧
      t'.aint.rename.regs.RegMap = if mispredict then x.after else x.before := by
  obtain ⟨base, hbase⟩ := h.handed
  rw [← List.take_append_drop (keeps n mispredict) t.handed] at hbase
  obtain ⟨mid, hkept, hgone⟩ := hbase.of_append
  have hmid : mid = if mispredict then x.after else x.before := by
    cases mispredict with
    | true =>
        have htake : t.handed.take (keeps n true) = t.handed.take n ++ [x] := by
          show t.handed.take (n + 1) = _
          rw [List.take_add_one, hx]
          rfl
        rw [htake] at hkept
        obtain ⟨_, -, -, hafter⟩ := hkept.last
        exact hafter.symm
    | false =>
        have hdrop : t.handed.drop (keeps n false) = x :: t.handed.drop (n + 1) := by
          obtain ⟨hlt, hget⟩ := List.getElem?_eq_some_iff.mp hx
          rw [← hget]
          exact List.drop_eq_getElem_cons hlt
        rw [hdrop] at hgone
        cases hgone with
        | cons hx' _ => exact hx'.before.symm
  have hok : (stopsAt t.aint.rename.instid (PRED_CIRC (x.killId mispredict))
      (instids (t.handed.take (keeps n mispredict)))
      (instids (t.handed.drop (keeps n mispredict))) &&
      foundAll t.aint (instids (t.handed.take (keeps n mispredict)))
        (instids (t.handed.drop (keeps n mispredict)))) = true := by
    unfold careful at hcareful
    dsimp only at hcareful
    rw [hx, Option.all_some] at hcareful
    exact hcareful
  obtain ⟨hstop, hfound⟩ := Bool.and_eq_true_iff.mp hok
  have hfeeding : Feeding ⟨t.aint, t.handed.take (keeps n mispredict) ++
      t.handed.drop (keeps n mispredict)⟩ := by
    rw [List.take_append_drop]
    exact h
  have hnot : PRED_CIRC (x.killId mispredict) ∉
      instids (t.handed.drop (keeps n mispredict)) := by
    have hcontains := (Bool.and_eq_true_iff.mp hstop).1
    simpa using hcontains
  have hsub : (instids (t.handed.drop (keeps n mispredict))).Sublist
      (instids (t.handed.take (keeps n mispredict) ++ t.handed.drop (keeps n mispredict))) := by
    rw [instids_append]
    exact List.sublist_append_right _ _
  have hfuel := hfeeding.length_lt (PRED_CIRC_lt (x.killId mispredict)) hsub hnot
  obtain ⟨a', hkill, hfeeding', hundone, hmap⟩ := hfeeding.killLoop hfuel hgone hstop hfound
  refine ⟨⟨a', t.handed.take (keeps n mispredict)⟩, ?_, hfeeding', rfl, hundone, hmap.trans hmid⟩
  unfold FEED_Kill
  rw [hx]
  show (t.aint.AINT_kill_instrs (x.killId mispredict)).toOption.map _ = _
  unfold AintThread.AINT_kill_instrs
  rw [hkill]
  rfl

/-- What is left is what a kill is for. -/
theorem Feeding.rolledBack (h' : t'.Feeding) {kept : List HandedInst}
    {regmap : LogicalRegNum → Nat} (hhanded : t'.handed = kept)
    (hundone : Undone t.aint t'.aint (instids kept))
    (hmap : t'.aint.rename.regs.RegMap = regmap) : RolledBack t t' kept regmap := by
  have hflight : t'.aint.rename.flight = instids kept := by
    rw [← hhanded]
    exact h'.flight
  constructor
  · exact hhanded
  · exact hflight
  · exact hundone.entries
  · exact hmap
  · have hperm := h'.buffers.holds.perm
    unfold AintThread.window at hperm
    rw [hflight, List.map_congr_left fun i hi => (hundone.entries i hi).2] at hperm
    exact hperm
  · exact hundone.memory
  · exact hundone.free
  · intro i hi picode hpicode arg j hcell
    rw [← (hundone.entries i hi).1] at hpicode ⊢
    have hwithin := Target.within_of_cell hpicode hcell.1 hcell.2
    exact hundone.cells _ (h'.conserves.safe_target (hflight ▸ hi) hwithin rfl)
  · intro reg j hcell
    rw [← hmap]
    exact hundone.cells _ (h'.conserves.safe_mapped_cell (List.append_nil _).symm .nil hcell.1
      hcell.2)
  · intro picode t'' hfetch arg hdest
    obtain ⟨aint, haint, rfl⟩ := Option.map_eq_some_iff.mp hfetch
    have haint := eq_ok_of_toOption haint
    unfold AintThread.AINT_fetch_next_instr AintThread.renamed at haint
    rw [Option.map_some] at haint
    cases hrename : t'.aint.rename.AINT_fetch_next_instr (some picode.toIcode) with
    | none => rw [hrename] at haint; cases haint
    | some rename =>
        rw [hrename] at haint
        cases haint
        obtain ⟨y, hcbif, hrenamed, -⟩ := h'.conserves.fetch_renamed hrename
        obtain ⟨-, _, _, _, heq⟩ := RenameThread.fetch_eq hrename
        have hinstid : rename.instid = SUCC_CIRC t'.aint.rename.instid := by rw [heq]
        dsimp only
        rw [hcbif, hinstid, Function.update_self, hrenamed.source arg hdest, hmap]

/-! ### The map of an earlier instruction -/

/-- The map that is left tells the one before. -/
theorem base_unique {base base' map : LogicalRegNum → Nat} {entries : List InflightInst}
    (h : Renames base entries map) (h' : Renames base' entries map) : base = base' := by
  induction h generalizing base' with
  | nil =>
      cases h'
      rfl
  | @cons base map y picode entries hy _ ih =>
      cases h' with
      | @cons _ _ _ picode' _ hy' hl' =>
          obtain rfl := Option.some.inj (hy.entry.symm.trans hy'.entry)
          rw [← hy.undo_after, ih hl', hy'.undo_after]

theorem Feeding.snapshot (h : t.Feeding) (hx : x ∈ t.handed) (hslot : x.instid? = some i) :
    t.aint.rename.AINT_regmap_snapshot i = some x.after := by
  obtain ⟨base, hbase⟩ := h.handed
  obtain ⟨pre, post, hsplit⟩ := List.append_of_mem hx
  rw [hsplit] at hbase
  obtain ⟨mid, -, hmid⟩ := hbase.of_append
  have hflight : t.aint.rename.flight = instids pre ++ i :: instids post := by
    rw [h.flight, hsplit, instids_append]
    exact congrArg _ (List.filterMap_cons_some hslot)
  have hnodup := h.buffers.nodup
  have hmem : i ∈ t.aint.rename.flight := by
    rw [hflight]
    simp
  obtain ⟨older, younger, map, hflight', hsnapshot, hyounger, -⟩ := h.conserves.regmap_snapshot hmem
  have hpost : younger = instids post := by
    rw [hflight] at hflight' hnodup
    obtain ⟨-, hbehind, hbefore⟩ := List.nodup_append.mp hnodup
    have hpre : i ∉ instids pre := fun hmem => hbefore i hmem i List.mem_cons_self rfl
    have hafter := (List.nodup_cons.mp hbehind).1
    exact ((List.append_cons_inj_of_notMem hpre hafter).mp hflight').2.2.symm
  cases hmid with
  | cons _ hrest =>
      rw [hpost] at hyounger
      rw [hsnapshot, base_unique hyounger hrest.renames]

/-! ### Runs -/

theorem Feeding.exec (h : t.Feeding) {e : FeedEvent} (hlegal : t.legal e = true)
    (hcareful : t.careful e = true) (hexec : t.exec pmap e = some t') : t'.Feeding := by
  cases e with
  | fetch picode => exact h.fetch hexec
  | operate e => exact h.operate hlegal hcareful hexec
  | commit => exact h.commit hcareful hexec
  | kill n mispredict =>
      obtain ⟨x, hx⟩ : ∃ x, t.handed[n]? = some x :=
        ⟨_, List.getElem?_eq_getElem (of_decide_eq_true hlegal)⟩
      obtain ⟨t'', hkill, ht'', -⟩ := h.kill hx hcareful
      obtain rfl := Option.some.inj (hkill.symm.trans hexec)
      exact ht''

theorem feeding_init (memory : BitVec 64 → BitVec 64) : (init memory).Feeding where
  conserves := RenameThread.conserves_init
  buffers := AintThread.buffers_init memory
  flight := rfl
  handed := ⟨_, .nil⟩

/-- **If stores find their lists and the walk of a kill stops where it should, a kill takes back
exactly what was fetched from its instruction on.** -/
theorem rolls_back_of_careful {memory : BitVec 64 → BitVec 64}
    (h : Reaches (Start memory) (Step pmap safe) t) : t.RollsBack pmap safe := by
  have hfeeding : t.Feeding := by
    refine h.invariant (fun s hs => ?_) fun s s' hs ⟨e, hok, hexec⟩ => ?_
    · rw [hs]
      exact feeding_init memory
    · obtain ⟨hlegal, hcareful⟩ := Bool.and_eq_true_iff.mp hok
      exact hs.exec hlegal hcareful hexec
  constructor
  · intro n mispredict x hx hok
    obtain ⟨t', hkill, ht', hhanded, hundone, hmap⟩ :=
      hfeeding.kill hx (Bool.and_eq_true_iff.mp hok).2
    exact ⟨t', hkill, ht'.rolledBack hhanded hundone hmap⟩
  · exact fun x hx i hslot => hfeeding.snapshot hx hslot

/-! ### Where a kill stops -/

theorem slotOf_eq_iff (p q : Nat) : slotOf p = slotOf q ↔ p % 1024 = q % 1024 := by
  rw [← UInt64.toNat_inj, toNat_slotOf, toNat_slotOf]

/-- **The walk for an instruction in a slot stops where it should**, unless it is the oldest of
a full ring and goes itself. -/
theorem Feeding.stopsAt_slot (h : t.Feeding) {n : Nat} {mispredict : Bool}
    (hx : t.handed[n]? = some x) (hslot : x.instid? = some i) :
    stopsAt t.aint.rename.instid (PRED_CIRC (x.killId mispredict))
      (instids (t.handed.take (keeps n mispredict)))
      (instids (t.handed.drop (keeps n mispredict))) = true ↔
      mispredict = true ∨ PRED_CIRC i ≠ t.aint.rename.instid := by
  obtain ⟨hlt, hget⟩ := List.getElem?_eq_some_iff.mp hx
  have hsplit : t.handed = t.handed.take n ++ x :: t.handed.drop (n + 1) := by
    rw [← hget, ← List.drop_eq_getElem_cons hlt, List.take_append_drop]
  have hcons : instids (x :: t.handed.drop (n + 1)) = i :: instids (t.handed.drop (n + 1)) :=
    List.filterMap_cons_some hslot
  have hflight : t.aint.rename.flight =
      instids (t.handed.take n) ++ i :: instids (t.handed.drop (n + 1)) := by
    rw [h.flight, ← hcons, ← instids_append, ← hsplit]
  have hid : x.identifier = i := by
    unfold HandedInst.instid? at hslot
    split at hslot
    · cases hslot
    · exact Option.some.inj hslot
  obtain ⟨o, ho⟩ := h.conserves.ring
  have hstart := ho.start
  have hroom := ho.room
  have hnodup := h.buffers.nodup
  have hmem : i ∈ t.aint.rename.flight := by
    rw [hflight]
    simp
  obtain ⟨k, m, hslots, hi, hinstid⟩ := ho.split hmem
  have hcut : slots o (k + 1 + m) = slots o k ++ i :: slots (o + (k + 1)) m := by
    rw [slots_add, slots_succ, List.append_assoc, ← hi]
    rfl
  have hlength : k + 1 + m ≤ 1024 := by
    have hroom := ho.room
    rwa [hslots, length_slots] at hroom
  rw [hslots, hcut] at hflight hnodup
  obtain ⟨-, hbehind, hbefore⟩ := List.nodup_append.mp hnodup
  have hpost := (List.nodup_cons.mp hbehind).1
  have hrest : slots (o + (k + 1)) m = instids (t.handed.drop (n + 1)) :=
    ((List.append_cons_inj_of_notMem
      (fun hmem => hbefore i hmem i List.mem_cons_self rfl) hpost).mp hflight).2.2
  cases mispredict with
  | true =>
      have hpred : PRED_CIRC (x.killId true) = i := by
        show PRED_CIRC (SUCC_CIRC x.identifier) = i
        rw [hid, hi, SUCC_CIRC_slotOf, PRED_CIRC_slotOf]
      refine iff_of_true ?_ (.inl rfl)
      unfold stopsAt keeps
      rw [if_pos rfl, ← hrest, hpred, Bool.and_eq_true, Bool.or_eq_true]
      refine ⟨by simpa using hpost, .inl (beq_iff_eq.mpr ?_)⟩
      cases m with
      | zero => exact hinstid.trans hi.symm
      | succ m =>
          rw [slots_cons, List.head?_cons, Option.map_some, Option.getD_some, ← Nat.add_assoc,
            PRED_CIRC_slotOf, hi]
  | false =>
      have hgone : instids (t.handed.drop (keeps n false)) = i :: slots (o + (k + 1)) m := by
        rw [hrest, ← hcons, ← hget]
        exact congrArg instids (List.drop_eq_getElem_cons hlt)
      have hstop : PRED_CIRC (x.killId false) = slotOf (o + k - 1) := by
        show PRED_CIRC x.identifier = _
        have hpos : o + k = o + k - 1 + 1 := by omega
        rw [hid, hi, hpos, PRED_CIRC_slotOf]
        rfl
      have hpred : PRED_CIRC i = slotOf (o + k - 1) := by
        rw [← hstop]
        show _ = PRED_CIRC x.identifier
        rw [hid]
      have hmem : slotOf (o + k - 1) ∈ i :: slots (o + (k + 1)) m ↔
          slotOf (o + k - 1) = slotOf (o + k + m) := by
        have hall : i :: slots (o + (k + 1)) m = slots (o + k) (m + 1) := by
          rw [slots_cons, hi]
          rfl
        rw [hall, mem_slots]
        simp only [slotOf_eq_iff]
        constructor
        · rintro ⟨p, hlo, hhi, hp⟩
          omega
        · intro heq
          exact ⟨o + k + m, by omega, by omega, heq.symm⟩
      unfold stopsAt
      rw [hgone, hstop, hpred, hinstid, List.head?_cons, Option.map_some, Option.getD_some, hpred]
      simp [hmem]

/-! ### A kill that takes back what it should, and one that takes back too much -/

def addIcode : MemIcode := ⟨⟨fun _ => 3, some .RC⟩, .none, 0, false⟩

def storeIcode : MemIcode := ⟨⟨fun _ => 1, none⟩, .store, 8, false⟩

/-- An instruction, a store that writes to the buffer, a no-op, and one more instruction. -/
def killedRun : List FeedEvent :=
  [.fetch (some addIcode), .fetch (some storeIcode), .operate (.issue 0 [] 0 0),
    .operate (.issue 1 [] 0x10000 7), .operate (.specWrite 1 []), .fetch none,
    .fetch (some addIcode)]

/-- The store is killed, with all that was fetched behind it. -/
theorem rolls_back_of_careful_store : ∃ t t' : FeedThread, ∃ x,
    Lib.after (exec id) safe killedRun (init fun _ => 0) = some t ∧ t.handed.length = 4 ∧
      t.handed[1]? = some x ∧ t.FEED_Kill 1 false = some t' ∧
      RolledBack t t' (t.handed.take 1) x.before := by
  have hrun : (Lib.after (exec id) safe killedRun (init fun _ => 0)).map (fun t =>
      (t.handed.length, safe t (.kill 1 false))) = some (4, true) := by
    decide +kernel
  obtain ⟨t, ht, hfacts⟩ := Option.map_eq_some_iff.mp hrun
  obtain ⟨hlength, hsafe⟩ := Prod.mk.inj hfacts
  have hreaches : Reaches (Start fun _ => 0) (Step id safe) t :=
    .after (fun s e s' hok hexec => ⟨e, hok, hexec⟩) (.start rfl) ht
  have hx : t.handed[1]? = some (t.handed.get ⟨1, by rw [hlength]; decide⟩) :=
    List.getElem?_eq_getElem _
  obtain ⟨t', hkill, hback⟩ := (rolls_back_of_careful hreaches).kill 1 false _ hx hsafe
  exact ⟨t, t', _, ht, hlength, hx, hkill, hback⟩

/-- A no-op is killed, and the instruction before it with it. -/
theorem not_always_rolls_back : ¬ ∀ t : FeedThread,
    Reaches (Start fun _ => 0) (Step id legal) t → t.RollsBack id legal := by
  intro hall
  have hrun : (Lib.after (exec id) legal [.fetch (some addIcode), .fetch none]
      (init fun _ => 0)).map (fun t => (legal t (.kill 1 false), t.handed.map HandedInst.identifier,
        (t.FEED_Kill 1 false).map fun t' => t'.aint.rename.flight)) =
      some (true, [0, AINT_WRONGPATH_ID], some []) := by
    decide +kernel
  obtain ⟨t, ht, hfacts⟩ := Option.map_eq_some_iff.mp hrun
  obtain ⟨hlegal, hrest⟩ := Prod.mk.inj hfacts
  obtain ⟨hids, hflight⟩ := Prod.mk.inj hrest
  have hreaches : Reaches (Start fun _ => 0) (Step id legal) t :=
    .after (fun s e s' hok hexec => ⟨e, hok, hexec⟩) (.start rfl) ht
  obtain ⟨x, y, hhanded, hx, -⟩ : ∃ x y, t.handed = [x, y] ∧ x.identifier = 0 ∧
      y.identifier = AINT_WRONGPATH_ID := by
    obtain ⟨x, rest, hhanded, hx, hrest⟩ := List.map_eq_cons_iff.mp hids
    obtain ⟨y, others, rfl, hy, hnil⟩ := List.map_eq_cons_iff.mp hrest
    rw [List.map_eq_nil_iff.mp hnil] at hhanded
    exact ⟨x, y, hhanded, hx, hy⟩
  obtain ⟨t', hkill, hback⟩ := (hall t hreaches).kill 1 false y (by rw [hhanded]; rfl) hlegal
  have hkill : t.FEED_Kill 1 false = some t' := hkill
  rw [hkill] at hflight
  have hstays : t'.aint.rename.flight = [0] := by
    rw [hback.flight, hhanded]
    show instids [x] = [0]
    have hslot : x.instid? = some 0 := by
      unfold HandedInst.instid?
      rw [hx]
      rfl
    exact instids_slot hslot []
  rw [Option.map_some, hstays] at hflight
  cases hflight

end FeedThread

end AsimFeeder.Aint
