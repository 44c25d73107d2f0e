/-
The replay buffer of one CPU while its register records come in.

SoftSDV closes a record before the instruction that names it, and closes records and
instructions of a CPU in the order of their uids.  So the records a CPU's buffer has
not given out yet, with those still in the register ring behind them, increase, and the
instructions on their way name some of them, in that order.  `Matched` says that, and that
every live instruction has the record it names.
-/
import AsimFeeder.SoftSDV.Link
import AsimFeeder.SoftSDV.RegRecords

namespace AsimFeeder.SoftSDV

/-- The register values of the record with this uid. -/
def regInfo {Regs : Type} (regsOf : Nat → Regs) (uid : Nat) : RegInfo Regs :=
  ⟨UInt64.ofNat uid, regsOf uid⟩

namespace ReplayOp

variable {Data Regs : Type}

/-- The calls that only the fetch loop makes. -/
def isIncoming : ReplayOp Data Regs → Bool
  | addInstruction _ | pushRegisterValues _ => true
  | _ => false

end ReplayOp

/-! ### One CPU -/

section OneCpu

variable {Data Rep Regs : Type} {regsOf : Nat → Regs} {noted : List RegRecord} {cpu : Nat}

/-- A live instruction has the record it names, which SoftSDV closed for this CPU. -/
structure HoldsItsRecord (regsOf : Nat → Regs) (noted : List RegRecord) (cpu : Nat)
    (b : ReplayBuffer Data Rep Regs) (r : Ref) : Prop where
  artificial : (b.cell r).artificialInstr = true → (b.cell r).inputRegValues = none
  unnamed : (b.cell r).artificialInstr = false → (b.cell r).softsdvInstr.regsUid = 0 →
    (b.cell r).inputRegValues = none
  named : (b.cell r).artificialInstr = false → (b.cell r).softsdvInstr.regsUid ≠ 0 →
    ∃ uid rec, ⟨uid, cpu⟩ ∈ noted ∧ uid < 2 ^ 64 ∧
      (b.cell r).softsdvInstr.regsUid = UInt64.ofNat uid ∧
      (b.cell r).inputRegValues = some rec ∧ b.regCell rec = regInfo regsOf uid

/--
The buffer of a CPU, with `ring` its records still in the register ring and `named` the
records that instructions on their way to it name; the instruction Asim has open names
`opened`.
-/
structure Matched (regsOf : Nat → Regs) (noted : List RegRecord) (cpu : Nat)
    (l : ReplayBuffer Data Rep Regs × ReplayHistory Data) (ring named : List Nat)
    (opened : Option Nat) : Prop where
  wf : ∃ free, l.1.list.WF l.2.live free
  owned : l.1.records.Owned l.2.live
  held : ∀ r ∈ l.2.live, HoldsItsRecord regsOf noted cpu l.1 r
  incoming : ∃ uids : List Nat,
    l.1.records.incoming.map l.1.records.regCell = uids.map (regInfo regsOf) ∧
    (uids ++ ring).Pairwise (· < ·) ∧ (∀ u ∈ uids ++ ring, ⟨u, cpu⟩ ∈ noted ∧ u < 2 ^ 64) ∧
    named.Sublist (uids ++ ring) ∧ ∀ u ∈ opened, u ∈ uids

variable {l l' : ReplayBuffer Data Rep Regs × ReplayHistory Data} {ring named : List Nat}
  {opened : Option Nat}

theorem HoldsItsRecord.mono {b : ReplayBuffer Data Rep Regs} {r : Ref}
    (h : HoldsItsRecord regsOf noted cpu b r) {noted' : List RegRecord} (hsub : noted ⊆ noted') :
    HoldsItsRecord regsOf noted' cpu b r where
  artificial := h.artificial
  unnamed := h.unnamed
  named := by
    intro hart hne
    obtain ⟨uid, rec, hmem, hrest⟩ := h.named hart hne
    exact ⟨uid, rec, hsub hmem, hrest⟩

theorem HoldsItsRecord.congr {b b' : ReplayBuffer Data Rep Regs} {r : Ref}
    (h : HoldsItsRecord regsOf noted cpu b r)
    (hart : (b'.cell r).artificialInstr = (b.cell r).artificialInstr)
    (hinstr : (b'.cell r).softsdvInstr = (b.cell r).softsdvInstr)
    (hattached : b'.records.attached r = b.records.attached r)
    (hcell : ∀ rec, b.records.attached r = some rec → b'.regCell rec = b.regCell rec) :
    HoldsItsRecord regsOf noted cpu b' r := by
  have hregs : (b'.cell r).inputRegValues = (b.cell r).inputRegValues := hattached
  refine ⟨?_, ?_, ?_⟩
  · rw [hart, hregs]
    exact h.artificial
  · rw [hart, hinstr, hregs]
    exact h.unnamed
  · rw [hart, hinstr, hregs]
    intro ha hne
    obtain ⟨uid, rec, hmem, hlt, hname, hrec, hvalue⟩ := h.named ha hne
    exact ⟨uid, rec, hmem, hlt, hname, hrec, (hcell rec hrec).trans hvalue⟩

/-- What SoftSDV and Asim still have to do with instructions of this CPU may become less. -/
theorem Matched.mono (h : Matched regsOf noted cpu l ring named opened) {named' : List Nat}
    {opened' : Option Nat} (hnamed : named'.Sublist named)
    (hopened : ∀ u ∈ opened', u ∈ opened ∨ (ring = [] ∧ u ∈ named)) :
    Matched regsOf noted cpu l ring named' opened' where
  wf := h.wf
  owned := h.owned
  held := h.held
  incoming := by
    obtain ⟨uids, hmap, hlt, hmem, hsub, hopen⟩ := h.incoming
    refine ⟨uids, hmap, hlt, hmem, hnamed.trans hsub, ?_⟩
    intro u hu
    rcases hopened u hu with hold | ⟨hnil, hin⟩
    · exact hopen u hold
    · have hin' := hsub.subset hin
      rwa [hnil, List.append_nil] at hin'

/-- SoftSDV closes a record for this CPU, and the next instruction is to name it. -/
theorem Matched.note (h : Matched regsOf noted cpu l ring named opened) {uid : Nat}
    (hlt : ∀ r ∈ noted, r.uid < uid) (hbound : uid < 2 ^ 64) :
    Matched regsOf (noted ++ [⟨uid, cpu⟩]) cpu l (ring ++ [uid]) (named ++ [uid]) opened where
  wf := h.wf
  owned := h.owned
  held := fun r hr => (h.held r hr).mono (List.subset_append_left _ _)
  incoming := by
    obtain ⟨uids, hmap, hpair, hmem, hsub, hopen⟩ := h.incoming
    refine ⟨uids, hmap, ?_, ?_, ?_, hopen⟩
    · rw [← List.append_assoc, List.pairwise_append]
      refine ⟨hpair, List.pairwise_singleton _ _, ?_⟩
      intro a ha b hb
      rw [List.mem_singleton.mp hb]
      exact hlt _ (hmem a ha).1
    · intro u hu
      rw [← List.append_assoc, List.mem_append, List.mem_singleton] at hu
      rcases hu with hold | rfl
      · exact ⟨List.mem_append_left _ (hmem u hold).1, (hmem u hold).2⟩
      · exact ⟨by simp, hbound⟩
    · rw [← List.append_assoc]
      exact hsub.append (List.Sublist.refl _)

/-- SoftSDV closes a record for another CPU. -/
theorem Matched.noteOther (h : Matched regsOf noted cpu l ring named opened)
    {noted' : List RegRecord} (hsub : noted ⊆ noted') :
    Matched regsOf noted' cpu l ring named opened where
  wf := h.wf
  owned := h.owned
  held := fun r hr => (h.held r hr).mono hsub
  incoming := by
    obtain ⟨uids, hmap, hpair, hmem, hrest⟩ := h.incoming
    exact ⟨uids, hmap, hpair, fun u hu => ⟨hsub (hmem u hu).1, (hmem u hu).2⟩, hrest⟩

/-- The oldest record of this CPU in the register ring is pushed to its buffer. -/
theorem Matched.push {u : Nat} (h : Matched regsOf noted cpu l (u :: ring) named opened) :
    Matched regsOf noted cpu (l.1.pushRegisterValues (regInfo regsOf u), l.2) ring named
      opened := by
  have hrecords := ReplayBuffer.records_pushRegisterValues l.1 (regInfo regsOf u)
  have hlist := ReplayBuffer.list_pushRegisterValues l.1 (regInfo regsOf u)
  obtain ⟨howned, rInfo, hincoming, hcell, hattached, hnew, hnotheld⟩ :=
    h.owned.push (regInfo regsOf u)
  rw [← hrecords] at howned hincoming hcell hattached
  have hentry := congrArg ReplayList.entry hlist
  refine ⟨?_, howned, ?_, ?_⟩
  · simp only [hlist]
    exact h.wf
  · intro r hr
    refine (h.held r hr).congr (congrArg Entry.artificialInstr (congrFun hentry r))
      (congrArg Entry.softsdvInstr (congrFun hentry r)) (congrFun hattached r) ?_
    intro rec hrec
    refine (congrFun hcell rec).trans (Function.update_of_ne ?_ ..)
    intro e
    exact hnotheld (List.mem_filterMap.mpr ⟨r, hr, e ▸ hrec⟩)
  · obtain ⟨uids, hmap, hpair, hmem, hsub, hopen⟩ := h.incoming
    refine ⟨uids ++ [u], ?_, by simpa using hpair, by simpa using hmem, by simpa using hsub,
      fun v hv => List.mem_append_left _ (hopen v hv)⟩
    rw [hincoming, hcell, List.map_append, List.map_append, ← hmap, List.map_singleton,
      List.map_singleton, Function.update_self]
    congr 1
    apply List.map_congr_left
    intro rec hrec
    exact Function.update_of_ne (fun e : rec = rInfo => hnew (e ▸ hrec)) ..

/-- In an increasing list, what comes behind a name is named behind it. -/
theorem sublist_behind {u : Nat} {pre rest names : List Nat}
    (hpair : (pre ++ u :: rest).Pairwise (· < ·)) (hsub : (u :: names).Sublist (pre ++ u :: rest)) :
    names.Sublist rest := by
  have hnames : names.filter (u < ·) = names := by
    rw [List.filter_eq_self]
    intro a ha
    simpa using (List.pairwise_cons.mp (hpair.sublist hsub)).1 a ha
  have hpre : (pre ++ u :: rest).filter (u < ·) = rest.filter (u < ·) := by
    have hnil : pre.filter (u < ·) = [] := by
      rw [List.filter_eq_nil_iff]
      intro a ha
      have hlt := (List.pairwise_append.mp hpair).2.2 a ha u List.mem_cons_self
      simpa using Nat.le_of_lt hlt
    rw [List.filter_append, hnil, List.nil_append, List.filter_cons_of_neg (by simp)]
  have hfilter := ((List.sublist_cons_self u names).trans hsub).filter (u < ·)
  rw [hnames, hpre] at hfilter
  exact hfilter.trans List.filter_sublist

/-- The open instruction is added, and gets the record it names. -/
theorem Matched.addNamed {u : Nat} (h : Matched regsOf noted cpu l ring (u :: named) (some u))
    (hu : u ≠ 0) {newInstr : SdvInstr Data} (hregs : newInstr.regsUid = UInt64.ofNat u) :
    ∃ t, (ReplayOp.addInstruction newInstr).exec l = .ok t ∧
      Matched regsOf noted cpu t ring named none := by
  obtain ⟨uids, hmap, hpair, hmem, hsub, hopen⟩ := h.incoming
  obtain ⟨free, hwf⟩ := h.wf
  obtain ⟨pre, post, rfl⟩ := List.append_of_mem (hopen u rfl)
  rw [List.append_assoc, List.cons_append] at hpair hmem hsub
  obtain ⟨hnote, hbound⟩ := hmem u (by simp)
  rw [List.map_append, List.map_cons] at hmap
  obtain ⟨dropped, later, hlist, hdropped, hlater⟩ := List.map_eq_append_iff.mp hmap
  obtain ⟨rec, rest, rfl, hrec, hrest⟩ := List.map_eq_cons_iff.mp hlater
  have hne : newInstr.regsUid ≠ 0 := by
    rw [hregs]
    intro hzero
    have hmod := (UInt64.ofNat_eq_iff_mod_eq_toNat u 0).mp hzero
    rw [Nat.mod_eq_of_lt hbound] at hmod
    exact hu hmod
  have hlt : ∀ d ∈ dropped, (l.1.records.regCell d).uid < newInstr.regsUid := by
    intro d hd
    have hin : l.1.records.regCell d ∈ pre.map (regInfo regsOf) :=
      hdropped ▸ List.mem_map_of_mem hd
    obtain ⟨v, hv, hvd⟩ := List.mem_map.mp hin
    have hvu : v < u := (List.pairwise_append.mp hpair).2.2 v hv u List.mem_cons_self
    rw [← hvd, hregs]
    exact (UInt64.ofNat_lt_iff_lt (Nat.lt_trans hvu hbound) hbound).mpr hvu
  have hrecUid : (l.1.records.regCell rec).uid = newInstr.regsUid := by rw [hrec, hregs]; rfl
  obtain ⟨⟨b', r⟩, hadd, hrecords⟩ := ReplayBuffer.records_addInstruction_named hne hlist
    hlt hrecUid
  rcases ReplayBuffer.addInstruction_spec hwf newInstr with
    ⟨b'', r', free', hb'', hwf', hnew⟩ | herr
  · rw [hadd] at hb''
    cases hb''
    have hexec : (ReplayOp.addInstruction newInstr).exec l = .ok (b', { l.2 with
        live := l.2.live ++ [r]
        added := l.2.added ++ [newInstr]
        serial := Function.update l.2.serial r l.2.added.length }) := by
      rw [ReplayOp.exec, hadd]
      rfl
    refine ⟨_, hexec, ⟨free', hwf'⟩, ?_, ?_, ?_⟩
    · rw [hrecords]
      exact (h.owned.take hnew.notMem hlist).perm (List.perm_append_singleton _ _)
    · intro s hs
      have hcell : ∀ x, b'.regCell x = l.1.regCell x := fun x =>
        congrFun (congrArg Records.regCell hrecords) x
      have hattached := congrArg Records.attached hrecords
      rcases List.mem_append.mp hs with hold | hs
      · have hsr : s ≠ r := fun e => hnew.notMem (e ▸ hold)
        refine (h.held s hold).congr (congrArg Entry.artificialInstr (hnew.entry s hold))
          (congrArg Entry.softsdvInstr (hnew.entry s hold)) ?_ fun x _ => hcell x
        rw [hattached]
        exact Function.update_of_ne hsr ..
      · rw [List.mem_singleton.mp hs]
        have hart : (b'.cell r).artificialInstr = false := congrArg Entry.artificialInstr hnew.new
        have hinstr : (b'.cell r).softsdvInstr = newInstr := congrArg Entry.softsdvInstr hnew.new
        have hhas : (b'.cell r).inputRegValues = some rec := by
          refine (congrFun hattached r).trans ?_
          exact Function.update_self ..
        refine ⟨?_, ?_, ?_⟩
        · rw [hart]
          exact fun hcon => absurd hcon Bool.false_ne_true
        · rw [hinstr]
          exact fun _ hzero => absurd hzero hne
        · rw [hinstr]
          exact fun _ _ => ⟨u, rec, hnote, hbound, hregs, hhas, (hcell rec).trans hrec⟩
    · refine ⟨post, ?_, ?_, ?_, sublist_behind hpair hsub, by simp⟩
      · rw [hrecords]
        exact hrest
      · exact (List.pairwise_cons.mp (List.pairwise_append.mp hpair).2.1).2
      · exact fun v hv => hmem v (by simp [hv])
  · rw [hadd] at herr
    cases herr

/-- The open instruction is added, and names no record. -/
theorem Matched.addUnnamed (h : Matched regsOf noted cpu l ring named opened)
    {newInstr : SdvInstr Data} (hzero : newInstr.regsUid = 0) :
    ∃ t, (ReplayOp.addInstruction newInstr).exec l = .ok t ∧
      Matched regsOf noted cpu t ring named none := by
  obtain ⟨uids, hmap, hpair, hmem, hsub, hopen⟩ := h.incoming
  obtain ⟨free, hwf⟩ := h.wf
  obtain ⟨⟨b', r⟩, hadd, hrecords⟩ :=
    @ReplayBuffer.records_addInstruction_unnamed _ _ _ l.1 newInstr hzero
  rcases ReplayBuffer.addInstruction_spec hwf newInstr with
    ⟨b'', r', free', hb'', hwf', hnew⟩ | herr
  · rw [hadd] at hb''
    cases hb''
    have hexec : (ReplayOp.addInstruction newInstr).exec l = .ok (b', { l.2 with
        live := l.2.live ++ [r]
        added := l.2.added ++ [newInstr]
        serial := Function.update l.2.serial r l.2.added.length }) := by
      rw [ReplayOp.exec, hadd]
      rfl
    have hattached := congrArg Records.attached hrecords
    refine ⟨_, hexec, ⟨free', hwf'⟩, ?_, ?_, ?_⟩
    · rw [hrecords]
      exact (h.owned.attach_none hnew.notMem).perm (List.perm_append_singleton _ _)
    · intro s hs
      rcases List.mem_append.mp hs with hold | hs
      · have hsr : s ≠ r := fun e => hnew.notMem (e ▸ hold)
        refine (h.held s hold).congr (congrArg Entry.artificialInstr (hnew.entry s hold))
          (congrArg Entry.softsdvInstr (hnew.entry s hold)) ?_
          fun x _ => congrFun (congrArg Records.regCell hrecords) x
        rw [hattached]
        exact Function.update_of_ne hsr ..
      · rw [List.mem_singleton.mp hs]
        have hinstr : (b'.cell r).softsdvInstr = newInstr := congrArg Entry.softsdvInstr hnew.new
        have hhas : (b'.cell r).inputRegValues = none := by
          refine (congrFun hattached r).trans ?_
          exact Function.update_self ..
        refine ⟨fun _ => hhas, fun _ _ => hhas, ?_⟩
        rw [hinstr]
        exact fun _ hne => absurd hzero hne
    · refine ⟨uids, ?_, hpair, hmem, hsub, by simp⟩
      rw [hrecords]
      exact hmap
  · rw [hadd] at herr
    cases herr

/-- Cells are freed, and the others keep what they hold. -/
theorem Matched.freed (h : Matched regsOf noted cpu l ring named opened) {xs rs ys : List Ref}
    (hlive : l.2.live = xs ++ rs ++ ys) (hwf : ∃ free, l'.1.list.WF l'.2.live free)
    (hlive' : l'.2.live = xs ++ ys)
    (hrecords : l'.1.records = rs.foldl Records.release l.1.records)
    (hart : ∀ r, (l'.1.cell r).artificialInstr = (l.1.cell r).artificialInstr)
    (hinstr : ∀ r, (l'.1.cell r).softsdvInstr = (l.1.cell r).softsdvInstr) :
    Matched regsOf noted cpu l' ring named opened := by
  obtain ⟨free, hwf₀⟩ := h.wf
  have hnd : (xs ++ rs ++ ys).Nodup := hlive ▸ (List.nodup_append.mp hwf₀.nodup).1
  have hperm : (rs ++ (xs ++ ys)).Perm l.2.live := by
    rw [hlive, ← List.append_assoc]
    exact List.perm_append_comm.append_right _
  have hnd' : (rs ++ (xs ++ ys)).Nodup := hperm.nodup_iff.mpr (hlive ▸ hnd)
  obtain ⟨hcell, hincoming, hattached⟩ := Records.foldl_release rs l.1.records
  refine ⟨hwf, ?_, ?_, ?_⟩
  · rw [hrecords, hlive']
    exact Records.Owned.foldl_release rs hnd' (h.owned.perm hperm)
  · intro r hr
    rw [hlive'] at hr
    have hrs : r ∉ rs := fun hin => (List.nodup_append.mp hnd').2.2 r hin r hr rfl
    refine (h.held r (hperm.subset (List.mem_append_right _ hr))).congr (hart r) (hinstr r) ?_ ?_
    · rw [hrecords]
      exact hattached r hrs
    · intro rec _
      show l'.1.records.regCell rec = _
      rw [hrecords, hcell]
      rfl
  · rw [hrecords, hcell, hincoming]
    exact h.incoming

/-- Only the cursor, or when instructions commit, is different. -/
theorem Matched.kept (h : Matched regsOf noted cpu l ring named opened)
    (hwf : ∃ free, l'.1.list.WF l'.2.live free) (hlive : l'.2.live = l.2.live)
    (hrecords : l'.1.records = l.1.records)
    (hart : ∀ r, (l'.1.cell r).artificialInstr = (l.1.cell r).artificialInstr)
    (hinstr : ∀ r, (l'.1.cell r).softsdvInstr = (l.1.cell r).softsdvInstr) :
    Matched regsOf noted cpu l' ring named opened := by
  have hnone : l.2.live = [] ++ [] ++ l.2.live := rfl
  exact h.freed hnone hwf hlive hrecords hart hinstr

/-- A place holder has no record. -/
theorem Matched.place (h : Matched regsOf noted cpu l ring named opened) {realInstr r : Ref}
    {xs ys : List Ref} {instr : SdvInstr Data} {uid : UInt64}
    (hlive : l.2.live = xs ++ realInstr :: ys) (hwf : ∃ free, l'.1.list.WF l'.2.live free)
    (hlive' : l'.2.live = xs ++ r :: realInstr :: ys)
    (hadd : ReplayBuffer.Added l.1.list l'.1.list l.2.live r ⟨instr, uid, true, true⟩)
    (hrecords : l'.1.records = l.1.records.attach r none) :
    Matched regsOf noted cpu l' ring named opened := by
  have hperm : l'.2.live.Perm (r :: l.2.live) := by
    rw [hlive', hlive]
    exact List.perm_middle
  have hattached := congrArg Records.attached hrecords
  have hcell := congrArg Records.regCell hrecords
  refine ⟨hwf, ?_, ?_, ?_⟩
  · rw [hrecords]
    exact (h.owned.attach_none hadd.notMem).perm hperm
  · intro s hs
    rcases List.mem_cons.mp (hperm.subset hs) with rfl | hold
    · have hart : (l'.1.cell s).artificialInstr = true := congrArg Entry.artificialInstr hadd.new
      have hhas : (l'.1.cell s).inputRegValues = none := by
        refine (congrFun hattached s).trans ?_
        exact Function.update_self ..
      refine ⟨fun _ => hhas, fun _ _ => hhas, ?_⟩
      rw [hart]
      nofun
    · have hsr : s ≠ r := fun e => hadd.notMem (e ▸ hold)
      refine (h.held s hold).congr (congrArg Entry.artificialInstr (hadd.entry s hold))
        (congrArg Entry.softsdvInstr (hadd.entry s hold)) ?_ fun x _ => congrFun hcell x
      rw [hattached]
      exact Function.update_of_ne hsr ..
  · rw [hrecords]
    exact h.incoming

open ReplayBuffer in
/-- A call outside the fetch loop moves no record except to free it. -/
theorem Matched.replay (h : Matched regsOf noted cpu l ring named opened)
    {op : ReplayOp Data Regs} (hop : op.Allowed l) (hin : op.isIncoming = false)
    (hexec : op.exec l = .ok l') : Matched regsOf noted cpu l' ring named opened := by
  have hwf' := (ReplayEffect.of_exec h.wf hop hexec).1
  obtain ⟨free, hwf⟩ := h.wf
  cases op with
  | addInstruction newInstr => cases hin
  | pushRegisterValues rv => cases hin
  | addArtificialPlaceHolder realInstr =>
      obtain ⟨xs, ys, hlive, hbefore, hfrom⟩ := cut hwf hop
      have hwf₁ := hwf
      rw [hlive] at hwf₁
      obtain ⟨b', r, free', hb', -, hadd⟩ := addArtificialPlaceHolder_spec hwf₁
      have hrecords := records_addArtificialPlaceHolder l.1 realInstr
      rw [ReplayOp.exec, hb', hbefore, hfrom] at hexec
      rw [hb'] at hrecords
      cases hexec
      exact h.place hlive hwf' rfl (hlive ▸ hadd) hrecords
  | deleteInstruction r =>
      obtain ⟨xs, ys, hlive, hbefore, hfrom⟩ := cut hwf hop
      have hwf₁ := hwf
      rw [hlive] at hwf₁
      obtain ⟨b', hb', -, hentry, -, -⟩ := deleteInstruction_spec hwf₁
      have hlive₁ : l.2.live = xs ++ [r] ++ ys := by simpa using hlive
      rw [ReplayOp.exec, hb', hbefore, hfrom] at hexec
      cases hexec
      refine h.freed hlive₁ hwf' rfl (records_deleteInstruction hb') ?_ ?_
      · intro s
        have hs := congrArg Entry.artificialInstr (congrFun hentry s)
        rwa [moveUid_artificialInstr] at hs
      · intro s
        have hs := congrArg Entry.softsdvInstr (congrFun hentry s)
        rwa [moveUid_softsdvInstr] at hs
  | commitInstruction r =>
      obtain ⟨hfetched, himp⟩ := hop
      obtain ⟨xs, ys, hlive, hbefore, hfrom⟩ := cut hwf (mem_of_fetched hfetched)
      have hcur := cursor_behind hwf hlive hfetched
      have hwf₁ := hwf
      rw [hlive] at hwf₁
      rw [hbefore] at himp
      obtain ⟨b', num, tag, hb', -, hkept⟩ := commitInstruction_spec hwf₁ himp hcur
      have hlive₁ : l.2.live = [] ++ (xs ++ [r]) ++ ys := by simpa using hlive
      rw [ReplayOp.exec, hb', hbefore, hfrom] at hexec
      cases hexec
      refine h.freed hlive₁ hwf' rfl (records_commitInstruction hwf₁ himp hcur hb') ?_ ?_
      · exact fun s => congrArg Entry.artificialInstr (congrFun hkept.entry s)
      · exact fun s => congrArg Entry.softsdvInstr (congrFun hkept.entry s)
  | getNextFetchHandle =>
      obtain ⟨cursor, hb', -⟩ := getNextFetchHandle_spec hwf
      rw [ReplayOp.exec, hb'] at hexec
      cases hexec
      exact h.kept hwf' rfl rfl (fun _ => rfl) (fun _ => rfl)
  | getNextRealFetchHandle =>
      obtain ⟨b', f, cursor, hb', rfl, -⟩ := getNextRealFetchHandle_spec hwf
      rw [ReplayOp.exec, hb'] at hexec
      cases hexec
      exact h.kept hwf' rfl rfl (fun _ => rfl) (fun _ => rfl)
  | setNextFetch r =>
      cases hexec
      exact h.kept hwf' rfl rfl (fun _ => rfl) (fun _ => rfl)
  | setImplicitCommit r v =>
      cases hexec
      refine h.kept hwf' rfl (records_setImplicitCommit _ _ _) ?_ ?_
      · intro s
        obtain ⟨v', hv⟩ := @setImplicitCommit_entry _ _ _ l.1 r s v
        have hs := congrArg Entry.artificialInstr hv
        exact hs
      · intro s
        obtain ⟨v', hv⟩ := @setImplicitCommit_entry _ _ _ l.1 r s v
        have hs := congrArg Entry.softsdvInstr hv
        exact hs

end OneCpu

end AsimFeeder.SoftSDV
