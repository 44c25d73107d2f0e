/-
The register records of a replay buffer.

A record is in one of three places: on the incoming list until an instruction asks for it
or for a later one, attached to a live instruction, or on the free list.  `records` is
the part of the buffer that says which, and each operation has one lemma about it.
Records leave an instruction only when its cell is freed, and that is `release`.
-/
import AsimFeeder.Lib.Checks
import AsimFeeder.SoftSDV.ReplayRuns

namespace AsimFeeder.SoftSDV

variable {Data Rep Regs : Type}

/-- The register records and what points to them; `attached` is for any cell. -/
structure Records (Regs : Type) where
  regCell : Nat → RegInfo Regs
  nRegCells : Nat
  incoming : List Nat
  free : List Nat
  attached : Ref → Option Nat

namespace Records

/-- The record of a cell that is freed goes to the free list. -/
def release (v : Records Regs) (r : Ref) : Records Regs :=
  match v.attached r with
  | some rv => { v with free := rv :: v.free, attached := Function.update v.attached r none }
  | none => v

/-- The records that are attached to live instructions. -/
def held (v : Records Regs) (live : List Ref) : List Nat := live.filterMap v.attached

/-- The cell `r` is new, and holds `rv`. -/
def attach (v : Records Regs) (r : Ref) (rv : Option Nat) : Records Regs :=
  { v with attached := Function.update v.attached r rv }

/-- The records `dropped` and the one behind them leave the incoming list. -/
def take (v : Records Regs) (dropped rest : List Nat) : Records Regs :=
  { v with incoming := rest, free := dropped.reverse ++ v.free }

/-- The local copy of an incoming record is a free one if there is one. -/
def push (v : Records Regs) (rv : RegInfo Regs) : Records Regs :=
  match v.free with
  | rInfo :: rest => { v with
      regCell := Function.update v.regCell rInfo rv
      free := rest
      incoming := v.incoming ++ [rInfo] }
  | [] => { v with
      regCell := Function.update v.regCell v.nRegCells rv
      nRegCells := v.nRegCells + 1
      incoming := v.incoming ++ [v.nRegCells] }

/-- Every record ever allocated is in one place, and in one only. -/
def Owned (v : Records Regs) (live : List Ref) : Prop :=
  (v.incoming ++ v.free ++ v.held live).Perm (List.range v.nRegCells)

end Records

namespace ReplayBuffer

/-- The register records of a buffer. -/
def records (b : ReplayBuffer Data Rep Regs) : Records Regs where
  regCell := b.regCell
  nRegCells := b.nRegCells
  incoming := b.regValuesList
  free := b.regValuesFreeList
  attached r := (b.cell r).inputRegValues

variable (b : ReplayBuffer Data Rep Regs)

/-! ### The records after a change of one cell -/

theorem records_modify (r : Ref) (f : LiveInstr Data Rep → LiveInstr Data Rep) :
    (b.modify r f).records = { b.records with
      attached := Function.update b.records.attached r (f (b.cell r)).inputRegValues } := by
  unfold records modify
  congr 1
  funext s
  show (Function.update b.cell r (f (b.cell r)) s).inputRegValues =
    Function.update (fun s => (b.cell s).inputRegValues) r (f (b.cell r)).inputRegValues s
  by_cases hs : s = r
  · rw [hs, Function.update_self, Function.update_self]
  · rw [Function.update_of_ne hs, Function.update_of_ne hs]

theorem records_modify_same {r : Ref} {f : LiveInstr Data Rep → LiveInstr Data Rep}
    (hf : (f (b.cell r)).inputRegValues = (b.cell r).inputRegValues) :
    (b.modify r f).records = b.records := by
  rw [records_modify, hf]
  exact congrArg (fun a => { b.records with attached := a }) (Function.update_eq_self _ _)

@[simp] theorem records_setNext (r : Ref) (n : Option Ref) :
    (b.setNext r n).records = b.records := b.records_modify_same rfl

@[simp] theorem records_setPrev (r : Ref) (p : Option Ref) :
    (b.setPrev r p).records = b.records := b.records_modify_same rfl

@[simp] theorem records_setUid (r : Ref) (id : UInt64) :
    (b.setUid r id).records = b.records := b.records_modify_same rfl

@[simp] theorem records_setSdvInstr (r : Ref) (instr : SdvInstr Data) :
    (b.setSdvInstr r instr).records = b.records := b.records_modify_same rfl

@[simp] theorem records_setImplicitCommit (r : Ref) (v : Bool) :
    (b.setImplicitCommit r v).records = b.records := b.records_modify_same rfl

@[simp] theorem records_deleteREPMemRegions (r : Ref) :
    (b.deleteREPMemRegions r).records = b.records := b.records_modify_same rfl

@[simp] theorem records_keepFetchable (r : Ref) : (b.keepFetchable r).records = b.records := by
  unfold keepFetchable
  split <;> rfl

@[simp] theorem records_linkAtTail (r : Ref) : (b.linkAtTail r).records = b.records := by
  unfold linkAtTail
  split
  · rfl
  · exact b.records_setNext _ _

@[simp] theorem records_linkToPrev (r : Ref) : (b.linkToPrev r).records = b.records := by
  unfold linkToPrev
  split
  · rfl
  · exact b.records_setNext _ _

@[simp] theorem records_unlinkHead (r : Ref) : (b.unlinkHead r).records = b.records := by
  unfold unlinkHead
  simp only
  split
  · rfl
  · exact records_setPrev _ _ _

/-! ### Freeing a cell -/

@[simp] theorem records_deleteInputRegValues (r : Ref) :
    (b.deleteInputRegValues r).records = b.records.release r := by
  unfold deleteInputRegValues Records.release
  show _ = match (b.cell r).inputRegValues with
    | some _ => _
    | none => _
  cases h : (b.cell r).inputRegValues with
  | some rv => rw [records_modify]; rfl
  | none => rfl

@[simp] theorem records_deallocateLiveInstr (r : Ref) :
    (b.deallocateLiveInstr r).records = b.records.release r := by
  show (((b.deleteREPMemRegions r).deleteInputRegValues r).setNext r _).records = _
  rw [records_setNext, records_deleteInputRegValues, records_deleteREPMemRegions]

theorem records_unlinkFromPrev {b b' : ReplayBuffer Data Rep Regs} {r : Ref}
    (h : b.unlinkFromPrev r = .ok b') : b'.records = b.records := by
  unfold unlinkFromPrev at h
  split at h
  · cases h
    rfl
  · cases hp : (b.cell r).prev with
    | none => rw [hp] at h; cases h
    | some p =>
        rw [hp] at h
        cases h
        rw [records_setUid, records_setNext]

theorem records_unlinkFromNext {b b' : ReplayBuffer Data Rep Regs} {r : Ref}
    (h : b.unlinkFromNext r = .ok b') : b'.records = b.records := by
  unfold unlinkFromNext at h
  split at h
  · cases h
    rfl
  · cases hn : (b.cell r).next with
    | none => rw [hn] at h; cases h
    | some n =>
        rw [hn] at h
        cases h
        rw [records_setPrev]

theorem records_deleteInstruction {b b' : ReplayBuffer Data Rep Regs} {r : Ref}
    (h : b.deleteInstruction r = .ok b') : b'.records = b.records.release r := by
  unfold deleteInstruction at h
  obtain ⟨b₁, hb₁, h⟩ := Lib.bind_eq_ok h
  obtain ⟨b₂, hb₂, h⟩ := Lib.bind_eq_ok h
  cases h
  rw [records_deallocateLiveInstr]
  have hcursor : (if b₂.nextFetch = some r then { b₂ with nextFetch := (b₂.cell r).next }
      else b₂).records = b₂.records := by
    split <;> rfl
  rw [hcursor, records_unlinkFromNext hb₂, records_unlinkFromPrev hb₁]

variable {b}

/-- The loop of `CommitInstruction` frees what is in front of `r`, from the head on. -/
theorem records_implicitCommitLoop {r : Ref} {ys : List Ref} : ∀ (xs : List Ref) (fuel : Nat)
    (b : ReplayBuffer Data Rep Regs) (free : List Ref) (num : UInt32) (tag : Option Int32)
    {x : ReplayBuffer Data Rep Regs × UInt32 × Option Int32}, b.list.WF (xs ++ r :: ys) free →
    (∀ s ∈ xs, (b.list.entry s).implicitCommit = true) →
    (∀ s, b.list.nextFetch = some s → s ∈ ys) →
    b.implicitCommitLoop r fuel num tag = .ok x →
      x.1.records = xs.foldl Records.release b.records := by
  intro xs
  induction xs with
  | nil =>
      intro fuel b free num tag x h _ _ hloop
      have hhead : b.head = some r := h.head
      cases fuel with
      | zero => cases hloop
      | succ fuel =>
          rw [implicitCommitLoop, hhead] at hloop
          simp only [bne_self_eq_false, Bool.and_false, Bool.false_eq_true, if_false] at hloop
          cases hloop
          rfl
  | cons a xs ih =>
      intro fuel b free num tag x h himp hcur hloop
      have hhead : b.head = some a := h.head
      have hne : a ≠ r := fun e => Lib.Links.not_mem_left (List.nodup_append.mp h.nodup).1 r
        List.mem_cons_self (e ▸ List.mem_cons_self)
      have hfirst : (b.cell a).implicitCommit = true := himp a List.mem_cons_self
      have hcur' : ∀ s, b.list.nextFetch = some s → s ∈ xs ++ r :: ys := fun s hs =>
        List.mem_append_right _ (List.mem_cons_of_mem _ (hcur s hs))
      obtain ⟨hwf, hkept⟩ := @removeHead_spec _ _ _ b free (xs ++ r :: ys) a h hcur'
      cases fuel with
      | zero => cases hloop
      | succ fuel =>
          rw [implicitCommitLoop, hhead] at hloop
          simp only [hfirst, bne_iff_ne.mpr hne, Bool.and_self, if_true] at hloop
          obtain ⟨c, hc, hloop⟩ := Lib.bind_eq_ok hloop
          have hnext : (b.cell a).next = some c := by
            cases hn : (b.cell a).next with
            | none => rw [hn] at hc; cases hc
            | some d => rw [hn] at hc; cases hc; rfl
          have hunlink : ({ b with head := some c } : ReplayBuffer Data Rep Regs).setPrev c none =
              b.unlinkHead a := by
            simp only [unlinkHead, hnext]
          rw [hunlink] at hloop
          have hrest := ih fuel _ _ _ _ hwf
            (fun s hs => by rw [hkept.entry]; exact himp s (List.mem_cons_of_mem _ hs))
            (fun s hs => hcur s (hkept.nextFetch ▸ hs)) hloop
          rw [hrest, records_deallocateLiveInstr, records_unlinkHead]
          rfl

theorem records_commitInstruction {r : Ref} {xs ys free : List Ref}
    {x : ReplayBuffer Data Rep Regs × UInt32 × Option Int32} (h : b.list.WF (xs ++ r :: ys) free)
    (himp : ∀ s ∈ xs, (b.list.entry s).implicitCommit = true)
    (hcur : ∀ s, b.list.nextFetch = some s → s ∈ ys) (hok : b.commitInstruction r = .ok x) :
    x.1.records = (xs ++ [r]).foldl Records.release b.records := by
  unfold commitInstruction at hok
  split at hok
  · cases hok
  · obtain ⟨⟨b₁, num, tag⟩, hloop, hok⟩ := Lib.bind_eq_ok hok
    have hrecords := records_implicitCommitLoop xs _ b free _ _ h himp hcur hloop
    simp only at hrecords hok
    split at hok
    · cases hok
    · cases hok
      rw [records_deallocateLiveInstr, records_unlinkHead, hrecords, List.foldl_append]
      rfl

/-! ### A new cell -/

/-- Taking a cell changes at most what that cell points to. -/
theorem records_allocateLiveInstr (b : ReplayBuffer Data Rep Regs) :
    ∃ rv, b.allocateLiveInstr.1.records = { b.records with
      attached := Function.update b.records.attached b.allocateLiveInstr.2 rv } := by
  unfold allocateLiveInstr
  split
  · rename_i r _
    refine ⟨b.records.attached r, ?_⟩
    rw [Function.update_eq_self]
    rfl
  · exact ⟨none, records_modify _ _ _⟩

theorem records_addArtificialPlaceHolder (b : ReplayBuffer Data Rep Regs) (realInstr : Ref) :
    (b.addArtificialPlaceHolder realInstr).1.records =
      b.records.attach (b.addArtificialPlaceHolder realInstr).2 none := by
  unfold addArtificialPlaceHolder
  obtain ⟨rv, hrv⟩ := records_allocateLiveInstr b
  generalize b.allocateLiveInstr = b₁ at hrv
  obtain ⟨b₁, r⟩ := b₁
  simp only at hrv ⊢
  rw [records_keepFetchable, records_setSdvInstr, records_linkToPrev, records_setPrev,
    records_modify]
  show { b₁.records with attached := Function.update b₁.records.attached r none } = _
  rw [hrv]
  simp only [Function.update_idem]
  rfl

/-- Records of earlier uids are dropped, and the first that is not is taken. -/
theorem dropUnusedRegisterValues_spec {regsUid : UInt64} {rec : Nat} {rest : List Nat} :
    ∀ (dropped : List Nat) (fuel : Nat) (b : ReplayBuffer Data Rep Regs),
    b.regValuesList = dropped ++ rec :: rest → (∀ d ∈ dropped, (b.regCell d).uid < regsUid) →
    ¬ (b.regCell rec).uid < regsUid → dropped.length < fuel →
    dropUnusedRegisterValues regsUid fuel b.popRegisterValues.1 b.popRegisterValues.2 =
      ({ b with
          regValuesList := rest
          regValuesFreeList := dropped.reverse ++ b.regValuesFreeList }, some rec) := by
  intro dropped
  induction dropped with
  | nil =>
      intro fuel b hlist _ hrec hfuel
      cases fuel with
      | zero => cases hfuel
      | succ fuel =>
          unfold popRegisterValues
          rw [hlist]
          simp only [List.nil_append]
          rw [dropUnusedRegisterValues]
          exact if_neg hrec
  | cons d dropped ih =>
      intro fuel b hlist hlt hrec hfuel
      cases fuel with
      | zero => cases hfuel
      | succ fuel =>
          have hnext := ih fuel
            (({ b with regValuesList := dropped ++ rec :: rest } : ReplayBuffer Data Rep Regs)
              |>.deallocateRegisterValues d) rfl
            (fun e he => hlt e (List.mem_cons_of_mem _ he)) hrec (Nat.lt_of_succ_lt_succ hfuel)
          have hd : (b.regCell d).uid < regsUid := hlt d List.mem_cons_self
          unfold popRegisterValues
          rw [hlist]
          simp only [List.cons_append]
          rw [dropUnusedRegisterValues]
          refine (if_pos hd).trans ?_
          refine hnext.trans ?_
          simp [deallocateRegisterValues]

variable {dropped rest : List Nat} {rec : Nat}

/-- The record that is named is taken if all in front of it are of earlier uids. -/
theorem records_attachRegisterValues {regsUid : UInt64} (hne : regsUid ≠ 0)
    (hlist : b.records.incoming = dropped ++ rec :: rest)
    (hlt : ∀ d ∈ dropped, (b.records.regCell d).uid < regsUid)
    (hrec : (b.records.regCell rec).uid = regsUid) (liveInstr : Ref) :
    ∃ b', b.attachRegisterValues liveInstr regsUid = .ok b' ∧
      b'.records = (b.records.take dropped rest).attach liveInstr (some rec) := by
  have hlist' : b.regValuesList = dropped ++ rec :: rest := hlist
  have hrec' : (b.regCell rec).uid = regsUid := hrec
  have hdrop := dropUnusedRegisterValues_spec dropped (b.regValuesList.length + 1) b hlist' hlt
    (by rw [hrec']; exact UInt64.lt_irrefl _) (by rw [hlist', List.length_append]; omega)
  unfold attachRegisterValues
  rw [if_pos hne]
  simp only
  rw [hdrop]
  refine ⟨_, if_pos hrec'.symm, ?_⟩
  rw [records_modify]
  rfl

/-- The cell of an added instruction, before the list leads to it. -/
theorem records_addInstruction_of_attach {newInstr : SdvInstr Data}
    (after : Records Regs → Ref → Records Regs)
    (hattach : ∀ (b' : ReplayBuffer Data Rep Regs) r rv, b'.records = b.records.attach r rv →
      ∃ b'', b'.attachRegisterValues r newInstr.regsUid = .ok b'' ∧
        b''.records = after b'.records r) :
    ∃ x, b.addInstruction newInstr = .ok x ∧
      x.1.records = after (b.records.attach x.2 none) x.2 := by
  unfold addInstruction
  obtain ⟨rv, hrv⟩ := records_allocateLiveInstr b
  generalize b.allocateLiveInstr = b₁ at hrv
  obtain ⟨b₁, r⟩ := b₁
  simp only at hrv ⊢
  have hwritten := records_modify ({ b₁ with uid := b₁.uid + 1 } : ReplayBuffer Data Rep Regs) r
    fun i => { i with
      softsdvInstr := newInstr
      inputRegValues := none
      uid := b₁.uid + 1
      next := none
      prev := b₁.tail
      implicitCommit := false
      artificialInstr := false }
  generalize ({ b₁ with uid := b₁.uid + 1 } : ReplayBuffer Data Rep Regs).modify r _ = b₂
    at hwritten
  have hb₂ : b₂.records = b.records.attach r none := by
    refine hwritten.trans ?_
    show { b₁.records with attached := Function.update b₁.records.attached r none } = _
    rw [hrv]
    simp only [Function.update_idem]
    rfl
  obtain ⟨b₃, hb₃, hrecords⟩ := hattach b₂ r none hb₂
  rw [hb₃]
  refine ⟨_, rfl, ?_⟩
  rw [records_keepFetchable, records_linkAtTail, hrecords, hb₂]

/-- An instruction that names no record gets none. -/
theorem records_addInstruction_unnamed {newInstr : SdvInstr Data} (hzero : newInstr.regsUid = 0) :
    ∃ x, b.addInstruction newInstr = .ok x ∧ x.1.records = b.records.attach x.2 none := by
  have hattach : ∀ (b' : ReplayBuffer Data Rep Regs) r rv, b'.records = b.records.attach r rv →
      ∃ b'', b'.attachRegisterValues r newInstr.regsUid = .ok b'' ∧
        b''.records = b'.records := by
    intro b' r rv _
    refine ⟨b', ?_, rfl⟩
    unfold attachRegisterValues
    exact if_neg (by simp [hzero])
  exact records_addInstruction_of_attach (fun v _ => v) hattach

/-- An instruction that names a record gets it, and the records in front of it are dropped. -/
theorem records_addInstruction_named {newInstr : SdvInstr Data} (hne : newInstr.regsUid ≠ 0)
    (hlist : b.records.incoming = dropped ++ rec :: rest)
    (hlt : ∀ d ∈ dropped, (b.records.regCell d).uid < newInstr.regsUid)
    (hrec : (b.records.regCell rec).uid = newInstr.regsUid) :
    ∃ x, b.addInstruction newInstr = .ok x ∧
      x.1.records = (b.records.take dropped rest).attach x.2 (some rec) := by
  have hattach : ∀ (b' : ReplayBuffer Data Rep Regs) r rv, b'.records = b.records.attach r rv →
      ∃ b'', b'.attachRegisterValues r newInstr.regsUid = .ok b'' ∧
        b''.records = (b'.records.take dropped rest).attach r (some rec) := by
    intro b' r rv hb'
    refine records_attachRegisterValues hne ?_ ?_ ?_ r
    · rw [hb']
      exact hlist
    · intro d hd
      rw [hb']
      exact hlt d hd
    · rw [hb']
      exact hrec
  obtain ⟨x, hx, hrecords⟩ := records_addInstruction_of_attach
    (fun v r => (v.take dropped rest).attach r (some rec)) hattach
  refine ⟨x, hx, hrecords.trans ?_⟩
  simp only [Records.attach, Records.take, Function.update_idem]

theorem records_pushRegisterValues (b : ReplayBuffer Data Rep Regs) (rv : RegInfo Regs) :
    (b.pushRegisterValues rv).records = b.records.push rv := by
  unfold pushRegisterValues Records.push
  split
  · rename_i rInfo rest hfree
    rw [show b.records.free = rInfo :: rest from hfree]
    rfl
  · rename_i hfree
    simp only [records, hfree]

end ReplayBuffer

/-! ### Every record is in one place -/

namespace Records

variable {v : Records Regs} {live xs ys : List Ref} {r s : Ref}

@[simp] theorem release_regCell : (v.release r).regCell = v.regCell := by
  unfold release
  split <;> rfl

@[simp] theorem release_incoming : (v.release r).incoming = v.incoming := by
  unfold release
  split <;> rfl

@[simp] theorem release_nRegCells : (v.release r).nRegCells = v.nRegCells := by
  unfold release
  split <;> rfl

theorem release_attached (hs : s ≠ r) : (v.release r).attached s = v.attached s := by
  unfold release
  split
  · exact Function.update_of_ne hs ..
  · rfl

/-- What is freed no longer holds a record, and the others hold what they held. -/
theorem foldl_release (rs : List Ref) : ∀ v : Records Regs,
    (rs.foldl release v).regCell = v.regCell ∧ (rs.foldl release v).incoming = v.incoming ∧
      ∀ s ∉ rs, (rs.foldl release v).attached s = v.attached s := by
  induction rs with
  | nil => exact fun v => ⟨rfl, rfl, fun _ _ => rfl⟩
  | cons a rs ih =>
      intro v
      obtain ⟨hcell, hincoming, hattached⟩ := ih (v.release a)
      refine ⟨by rw [List.foldl_cons, hcell, release_regCell],
        by rw [List.foldl_cons, hincoming, release_incoming], ?_⟩
      intro s hs
      rw [List.mem_cons, not_or] at hs
      rw [List.foldl_cons, hattached s hs.2, release_attached hs.1]

theorem held_congr {v' : Records Regs} (h : ∀ s ∈ live, v'.attached s = v.attached s) :
    v'.held live = v.held live := List.filterMap_congr h

theorem Owned.perm (h : v.Owned live) {live' : List Ref} (hperm : live'.Perm live) :
    v.Owned live' := by
  refine List.Perm.trans ?_ h
  exact (hperm.filterMap _).append_left _

theorem Owned.attach_none (h : v.Owned live) (hr : r ∉ live) :
    (v.attach r none).Owned (r :: live) := by
  have hheld : (v.attach r none).held (r :: live) = v.held live := by
    have hold : ∀ s ∈ live, (v.attach r none).attached s = v.attached s :=
      fun s hs => Function.update_of_ne (fun e : s = r => hr (e ▸ hs)) ..
    rw [← held_congr hold]
    exact List.filterMap_cons_none (Function.update_self ..)
  unfold Owned
  rw [hheld]
  exact h

theorem Owned.release (h : v.Owned (r :: live)) (hr : r ∉ live) : (v.release r).Owned live := by
  have hold : ∀ s ∈ live, (v.release r).attached s = v.attached s :=
    fun s hs => release_attached fun e => hr (e ▸ hs)
  unfold Owned at h ⊢
  rw [held_congr hold, release_incoming, release_nRegCells]
  cases hv : v.attached r with
  | none =>
      have hfree : (v.release r).free = v.free := by unfold Records.release; rw [hv]
      have hheld : v.held (r :: live) = v.held live := List.filterMap_cons_none hv
      rw [hfree]
      rwa [hheld] at h
  | some rv =>
      have hfree : (v.release r).free = rv :: v.free := by unfold Records.release; rw [hv]
      have hheld : v.held (r :: live) = rv :: v.held live := List.filterMap_cons_some hv
      rw [hfree]
      rw [hheld] at h
      refine List.Perm.trans ?_ h
      rw [List.append_assoc, List.append_assoc, List.cons_append]
      exact (List.perm_middle.symm).append_left _

theorem Owned.foldl_release (rs : List Ref) : ∀ {v : Records Regs}, (rs ++ live).Nodup →
    v.Owned (rs ++ live) → (rs.foldl Records.release v).Owned live := by
  induction rs with
  | nil => exact fun _ h => h
  | cons a rs ih =>
      intro v hnd h
      rw [List.cons_append, List.nodup_cons] at hnd
      exact ih hnd.2 (h.release hnd.1)

theorem Owned.take (h : v.Owned live) (hr : r ∉ live) {dropped rest : List Nat} {rec : Nat}
    (hlist : v.incoming = dropped ++ rec :: rest) :
    ((v.take dropped rest).attach r (some rec)).Owned (r :: live) := by
  have hold : ∀ s ∈ live, ((v.take dropped rest).attach r (some rec)).attached s = v.attached s :=
    fun s hs => Function.update_of_ne (fun e : s = r => hr (e ▸ hs)) ..
  have hheld : ((v.take dropped rest).attach r (some rec)).held (r :: live) =
      rec :: v.held live := by
    rw [← held_congr hold]
    exact List.filterMap_cons_some (Function.update_self ..)
  unfold Owned at h ⊢
  rw [hheld]
  rw [hlist] at h
  show (rest ++ (dropped.reverse ++ v.free) ++ rec :: v.held live).Perm _
  refine List.Perm.trans ?_ h
  rw [List.perm_iff_count]
  intro a
  simp only [List.count_append, List.count_cons, List.count_reverse]
  omega

/-- The cell that a new record goes to held none. -/
theorem Owned.push (h : v.Owned live) (rv : RegInfo Regs) : (v.push rv).Owned live ∧
    ∃ rInfo, (v.push rv).incoming = v.incoming ++ [rInfo] ∧
      (v.push rv).regCell = Function.update v.regCell rInfo rv ∧
      (v.push rv).attached = v.attached ∧ rInfo ∉ v.incoming ∧ rInfo ∉ v.held live := by
  have hnd : (v.incoming ++ v.free ++ v.held live).Nodup := h.nodup_iff.mpr List.nodup_range
  unfold Records.push
  split
  · rename_i rInfo rest hfree
    rw [hfree, List.append_assoc, List.cons_append] at hnd
    have hout := (List.nodup_middle.mp hnd)
    rw [List.nodup_cons, List.mem_append, List.mem_append] at hout
    refine ⟨?_, rInfo, rfl, rfl, rfl, fun hin => hout.1 (Or.inl hin),
      fun hin => hout.1 (Or.inr (Or.inr hin))⟩
    unfold Owned at h ⊢
    rw [hfree] at h
    show (v.incoming ++ [rInfo] ++ rest ++ v.held live).Perm _
    simpa using h
  · rename_i hfree
    have hbound : ∀ x ∈ v.incoming ++ v.free ++ v.held live, x < v.nRegCells := fun x hx =>
      List.mem_range.mp (h.mem_iff.mp hx)
    have hnew : v.nRegCells ∉ v.incoming ++ v.free ++ v.held live := fun hin =>
      Nat.lt_irrefl _ (hbound _ hin)
    rw [List.mem_append, List.mem_append] at hnew
    refine ⟨?_, v.nRegCells, rfl, rfl, rfl, fun hin => hnew (Or.inl (Or.inl hin)),
      fun hin => hnew (Or.inr hin)⟩
    unfold Owned at h ⊢
    rw [hfree] at h
    show (v.incoming ++ [v.nRegCells] ++ v.free ++ v.held live).Perm (List.range (v.nRegCells + 1))
    rw [hfree, List.range_succ]
    rw [List.append_nil] at h ⊢
    refine List.Perm.trans ?_ (h.append_right [v.nRegCells])
    rw [List.append_assoc, List.append_assoc]
    exact List.perm_append_comm.append_left _

end Records

end AsimFeeder.SoftSDV
