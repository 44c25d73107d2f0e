/-
Going back.

A kill takes the youngest instructions away, one after the other, and undoes what each of
them did to the map.  `rollback` undoes the same things without taking anything away, to
find the map that an instruction left when it was renamed.
-/
import AsimFeeder.Aint.RenameRuns

namespace AsimFeeder.Aint

open Lib

namespace RenameThread

variable {t t' : RenameThread} {vec : Bool} {free : List Nat} {o : Nat}
  {base map : LogicalRegNum → Nat}

/-! ### The map at an earlier instruction -/

/-- **The walk back from position `o + k + m` finds the map that position `o + k` left.** -/
theorem rollback_eq {k m fuel : Nat} (hroom : k + 1 + m ≤ 1024) (hfuel : m ≤ fuel)
    (h : Renames base ((slots o (k + 1 + m)).map t.cbif) map) :
    ∃ mid, t.rollback (slotOf (o + k)) fuel (slotOf (o + k + m)) map = some mid ∧
      Renames base ((slots o (k + 1)).map t.cbif) mid ∧
      Renames mid ((slots (o + (k + 1)) m).map t.cbif) map := by
  induction m generalizing map fuel with
  | zero =>
      refine ⟨map, ?_, h, .nil⟩
      cases fuel with
      | zero => exact if_pos rfl
      | succ fuel => exact if_pos rfl
  | succ m ih =>
      obtain ⟨fuel, rfl⟩ := Nat.exists_eq_succ_of_ne_zero (Nat.ne_of_gt (Nat.lt_of_lt_of_le
        m.succ_pos hfuel))
      rw [← Nat.add_assoc, slots_succ, List.map_append] at h
      obtain ⟨before, picode, hbefore, hx, rfl⟩ := h.of_concat
      have hpos : o + (k + 1 + m) = o + k + (m + 1) := by omega
      rw [hpos] at hx
      obtain ⟨mid, hmid, hleft, hright⟩ := ih (by omega) (Nat.le_of_succ_le_succ hfuel) hbefore
      refine ⟨mid, ?_, hleft, ?_⟩
      · have hne : slotOf (o + k + (m + 1)) ≠ slotOf (o + k) := by
          intro heq
          have := slotOf_inj heq (by omega) (by omega)
          omega
        have hlt : ¬ CBIF_SIZE ≤ slotOf (o + k + (m + 1)) :=
          UInt64.not_le.mpr (slotOf_lt _)
        rw [rollback, if_neg hne, if_neg hlt, hx.entry]
        dsimp only
        rw [hpos, hx.undo_after, ← Nat.add_assoc, PRED_CIRC_slotOf]
        exact hmid
      · rw [slots_succ, List.map_append]
        have hpos' : o + (k + 1) + m = o + (k + 1 + m) := by omega
        rw [hpos']
        rw [hpos]
        exact hright.concat hx

/-- **The snapshot is the map that the instruction left when it was renamed.** -/
theorem Conserves.regmap_snapshot (h : t.Conserves) {instid : UInt64}
    (hmem : instid ∈ t.flight) :
    ∃ older younger mid, t.flight = older ++ instid :: younger ∧
      t.AINT_regmap_snapshot instid = some mid ∧
      Renames mid (younger.map t.cbif) t.regs.RegMap ∧
      ∃ base, Renames base ((older ++ [instid]).map t.cbif) mid := by
  obtain ⟨o, ho⟩ := h.ring
  obtain ⟨base, hbase⟩ := h.renames
  obtain ⟨k, m, hflight, rfl, hinstid⟩ := ho.split hmem
  have hroom := ho.room
  unfold window at hbase
  rw [hflight] at hbase hroom
  rw [length_slots] at hroom
  have hfuel : m ≤ CBIF_SIZE.toNat := by
    show m ≤ 1024
    omega
  obtain ⟨mid, hmid, hleft, hright⟩ := rollback_eq hroom hfuel hbase
  refine ⟨slots o k, slots (o + (k + 1)) m, mid, ?_, ?_, hright, base, ?_⟩
  · rw [hflight, slots_add, slots_succ, List.append_assoc]
    rfl
  · unfold AINT_regmap_snapshot
    rw [hinstid]
    exact hmid
  · rw [← slots_succ]
    exact hleft

/-! ### Killing -/

/-- What the youngest instruction got becomes free, and what it kept is mapped again. -/
theorem Conserves.partition_kill (h : t.Conserves) {x : InflightInst} {rest : List InflightInst}
    (hold : t.window = rest ++ [x]) {picode : Icode} (hx : x.Renamed base picode)
    (hmap : t.regs.RegMap = x.after base picode) {regs : RegFile}
    (hregs : (match picode.dest with
      | none => t.regs
      | some dest =>
          if x.args dest = ZERO_REGISTER then t.regs else t.regs.release (x.args dest)) = regs)
    (hwindow : t'.window = rest) (hregs' : t'.regs = { regs with RegMap := base })
    (hfree : t.Partition vec free) : ∃ new, t'.Partition vec (new ++ free) := by
  obtain ⟨first, hfirst⟩ := h.renames
  have holds_none : x.old? vec = none → t'.olds vec = t.olds vec := by
    intro hnone
    exact (olds_concat_none (by rw [hold, hwindow]) hnone).symm
  cases hdest : picode.dest with
  | none =>
      rw [hdest] at hregs
      have hbase : x.after base picode = base := by
        unfold InflightInst.after
        rw [hdest]
      refine ⟨[], hfree.congr (fun _ _ => ?_) ?_ (fun reg _ => ?_) ?_⟩
      · rw [hregs', ← hregs]
      · rw [hregs', ← hregs]
        rfl
      · rw [hregs', hmap, hbase]
      · exact holds_none (old?_of_none hx.entry fun dest hd => by simp [hdest] at hd)
  | some dest =>
      rw [hdest] at hregs
      dsimp only at hregs
      by_cases hzero : x.args dest = ZERO_REGISTER
      · rw [if_pos hzero] at hregs
        have hbase : x.after base picode = base := InflightInst.after_zero hdest hzero
        refine ⟨[], hfree.congr (fun _ _ => ?_) ?_ (fun reg _ => ?_) ?_⟩
        · rw [hregs', ← hregs]
        · rw [hregs', ← hregs]
          rfl
        · rw [hregs', hmap, hbase]
        · apply holds_none
          refine old?_of_none hx.entry fun dest' hd hmem => ?_
          obtain rfl : dest = dest' := Option.some.inj (hdest.symm.trans hd)
          have hnonzero := (mem_logicals.mp hmem).1
          rw [(hx.zero dest hdest).mp hzero] at hnonzero
          cases hnonzero
      · rw [if_neg hzero] at hregs
        have hnonzero : isNonzero (picode.args dest) = true := by
          rw [hx.zero dest hdest] at hzero
          simpa using hzero
        have hbase : x.after base picode = Function.update base (picode.args dest) (x.args dest) :=
          InflightInst.after_dest hdest hzero
        have howned : ∀ vec, picode.args dest ∈ logicals vec →
            x.args dest ∈ Renames.owned vec t.window t.regs.RegMap := by
          intro vec hvec
          exact hfirst.args_owned (by rw [hold]; simp) hx.entry hvec
        obtain ⟨-, hlinked⟩ := h.release hnonzero howned hfree
        have hperm := hfree.perm
        by_cases hmem : picode.args dest ∈ logicals vec
        · rw [if_pos hmem, hregs] at hlinked
          refine ⟨[x.args dest], ?_, ?_⟩
          · rw [hregs']
            exact hlinked
          · have holds := olds_concat_some (t := t') (by rw [hold, hwindow])
              (hx.old?_eq hdest hmem)
            rw [holds, hmap, hbase] at hperm
            rw [hregs']
            exact (perm_rename (nodup_logicals vec) hmem base (x.args dest) _ _).symm.trans hperm
        · rw [if_neg hmem, hregs] at hlinked
          refine ⟨[], ?_, ?_⟩
          · rw [hregs']
            exact hlinked
          · have hmaps : (logicals vec).map base = (logicals vec).map t.regs.RegMap := by
              apply List.map_congr_left
              intro reg hreg
              rw [hmap, hbase, Function.update_of_ne]
              rintro rfl
              exact hmem hreg
            rw [hregs']
            dsimp only
            rw [hmaps, holds_none]
            · exact hperm
            · refine old?_of_none hx.entry fun dest' hd hmem' => ?_
              obtain rfl : dest = dest' := Option.some.inj (hdest.symm.trans hd)
              exact hmem hmem'

/-- The youngest instruction goes: the map is the one in which it was renamed, and what was
free stays free. -/
theorem Conserves.killYoungest (h : t.Conserves) {l : List UInt64} {i : UInt64}
    (hflight : t.flight = l ++ [i]) {picode : Icode}
    (hpicode : (t.cbif t.instid).picode = some picode) :
    (t.killYoungest picode).Conserves ∧
      (∀ vec free, t.Partition vec free →
        ∃ new, (t.killYoungest picode).Partition vec (new ++ free)) ∧
      ∃ base, Renames base (l.map t.cbif) (t.killYoungest picode).regs.RegMap ∧
        (t.cbif t.instid).Renamed (t.killYoungest picode).regs.RegMap picode ∧
        t.regs.RegMap =
          (t.cbif t.instid).after (t.killYoungest picode).regs.RegMap picode := by
  obtain ⟨o, ho⟩ := h.ring
  obtain ⟨base, hbase⟩ := h.renames
  obtain ⟨rfl, hl, -⟩ := ho.last hflight
  have hold := window_concat hflight
  have hnodup := ho.nodup
  rw [hflight] at hnodup
  have hnot : t.instid ∉ l := by
    intro hmem
    exact (List.nodup_append.mp hnodup).2.2 _ hmem _ (List.mem_singleton.mpr rfl) rfl
  rw [hold] at hbase
  obtain ⟨before, picode', hbefore, hx, hmap⟩ := hbase.of_concat
  obtain rfl : picode' = picode := Option.some.inj (hx.entry.symm.trans hpicode)
  have hundo : (t.cbif t.instid).undo picode' t.regs.RegMap = before := by
    rw [hmap, hx.undo_after]
  have hmap' : (t.killYoungest picode').regs.RegMap = before := hundo
  have hwindow : (t.killYoungest picode').window = l.map t.cbif := by
    unfold window RenameThread.killYoungest
    dsimp only
    rw [hflight, List.dropLast_concat, map_update hnot]
  have hflight' : (t.killYoungest picode').flight = l := by
    unfold RenameThread.killYoungest
    dsimp only
    rw [hflight, List.dropLast_concat]
  have hpartition : ∀ vec free, t.Partition vec free →
      ∃ new, (t.killYoungest picode').Partition vec (new ++ free) := by
    intro vec free hfree
    refine h.partition_kill hold hx hmap rfl hwindow ?_ hfree
    rw [← hundo]
    rfl
  rw [hmap']
  refine ⟨?_, hpartition, base, hbefore, hx, hmap⟩
  exact {
    ring := ⟨o, ho.leaveLast hflight rfl rfl rfl hflight'⟩
    zero := by
      intro reg hreg
      have hzero := h.zero reg hreg
      rw [hmap'] at *
      rw [← hzero, hmap, hx.after_of_ne fun _ _ _ => hreg]
    uncommitted := by
      intro y hy
      rw [hwindow] at hy
      exact h.uncommitted y (by rw [hold]; exact List.mem_append_left _ hy)
    renames := by
      rw [hwindow, hmap']
      exact ⟨base, hbefore⟩
    partition := by
      intro vec
      obtain ⟨free, hfree⟩ := h.partition vec
      obtain ⟨new, hnew⟩ := hpartition vec free hfree
      exact ⟨new ++ free, hnew⟩ }

theorem Conserves.killLoop {stop : UInt64} {fuel : Nat} (h : t.Conserves)
    (hkill : RenameThread.killLoop stop fuel t = some t') : t'.Conserves := by
  induction fuel generalizing t with
  | zero =>
      rw [RenameThread.killLoop] at hkill
      split at hkill
      · cases hkill
        exact h
      · cases hkill
  | succ fuel ih =>
      rw [RenameThread.killLoop] at hkill
      split at hkill
      · cases hkill
        exact h
      · split at hkill
        · cases hkill
        · rename_i hlt
          cases hpicode : (t.cbif t.instid).picode with
          | none =>
              rw [hpicode] at hkill
              cases hkill
              exact h
          | some picode =>
              rw [hpicode] at hkill
              obtain ⟨o, ho⟩ := h.ring
              obtain ⟨l, hl⟩ := ho.flight_concat (UInt64.not_le.mp hlt) hpicode
              exact ih (h.killYoungest hl hpicode).1 hkill

end RenameThread

end AsimFeeder.Aint
