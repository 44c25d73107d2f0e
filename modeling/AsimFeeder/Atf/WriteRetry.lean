/-
Retrying a write after a miss.

A call that misses changes nothing but which entries were read last.  The entry that is
filled for the missing page is the first that matches it, and it is not the one that was
just read for the pc; so the third call, at the latest, finds both pages.
-/
import AsimFeeder.Atf.LastPages
import AsimFeeder.Atf.InStep
import AsimFeeder.Atf.WriteInstr

namespace AsimFeeder.Atf

local instance neZeroTlbRecents : NeZero tlbRecents := ⟨by decide⟩

/-! ### The first match -/

variable {α : Type} {p q : α → Bool} {l : List α} {a : α}

/-- What matches less than before, but still here, has its first match here. -/
theorem find?_of_imp (hfind : l.find? p = some a) (hqp : ∀ b, q b = true → p b = true)
    (ha : q a = true) : l.find? q = some a := by
  induction l with
  | nil => cases hfind
  | cons b l ih =>
      rw [List.find?_cons] at hfind ⊢
      cases hb : p b with
      | true =>
          rw [hb] at hfind
          cases hfind
          rw [ha]
      | false =>
          rw [hb] at hfind
          have hqb : q b = false := by
            rw [Bool.eq_false_iff]
            intro hqb
            rw [hqp b hqb] at hb
            cases hb
          rw [hqb]
          exact ih hfind

theorem find?_of_unique (hmem : a ∈ l) (ha : q a = true) (hq : ∀ b, q b = true → b = a) :
    l.find? q = some a := by
  cases hfind : l.find? q with
  | none =>
      have hnone := List.find?_eq_none.mp hfind a hmem
      exact absurd ha hnone
  | some b => rw [hq b (List.find?_some hfind)]

/-! ### The loop of `atf_tlb_new` -/

theorem skipRecents_cases (recent : Fin tlbRecents → Fin tlbAssoc) (fuel : Nat)
    (lru : Fin tlbAssoc) : (∀ i, recent i ≠ AtfStream.skipRecents recent fuel lru) ∨
      ∀ k : Nat, k < fuel → ∃ i, recent i = lru + Fin.ofNat tlbAssoc k := by
  induction fuel generalizing lru with
  | zero => exact .inr fun k hk => absurd hk (Nat.not_lt_zero k)
  | succ fuel ih =>
      rw [AtfStream.skipRecents]
      split
      · rename_i hrecent
        refine (ih (lru + 1)).imp_right fun hall k hk => ?_
        cases k with
        | zero =>
            have hzero : lru + Fin.ofNat tlbAssoc 0 = lru := add_zero lru
            rw [hzero]
            exact hrecent
        | succ k =>
            obtain ⟨i, hi⟩ := hall k (Nat.lt_of_succ_lt_succ hk)
            refine ⟨i, ?_⟩
            rw [hi, add_assoc]
            congr 1
            apply Fin.ext
            rw [Fin.val_add, Fin.val_ofNat, Fin.val_ofNat]
            show (1 + k % 64) % 64 = (k + 1) % 64
            omega
      · rename_i hnot
        exact .inl fun i hi => hnot ⟨i, hi⟩

/-- **The loop ends at an entry that was not read lately.** -/
theorem skipRecents_not_recent (recent : Fin tlbRecents → Fin tlbAssoc) (lru : Fin tlbAssoc)
    (i : Fin tlbRecents) : recent i ≠ AtfStream.skipRecents recent tlbAssoc lru := by
  rcases skipRecents_cases recent tlbAssoc lru with hnot | hall
  · exact hnot i
  · -- eight entries are not sixty-four
    have hsurjective : Function.Surjective recent := by
      intro ent
      obtain ⟨j, hj⟩ := hall (ent - lru).val (ent - lru).isLt
      refine ⟨j, ?_⟩
      rw [hj]
      have hcast : Fin.ofNat tlbAssoc (ent - lru).val = ent - lru := by
        apply Fin.ext
        rw [Fin.val_ofNat, Nat.mod_eq_of_lt (ent - lru).isLt]
      rw [hcast, add_sub_cancel]
    have hcard := Fintype.card_le_of_surjective recent hsurjective
    rw [Fintype.card_fin, Fintype.card_fin] at hcard
    exact absurd hcard (by decide)

namespace AtfStream

variable {ast b : AtfStream} {va va' : Address} {ent f : Fin tlbAssoc} {e : AtfTlbEntry}

/-- No valid entry is there for `va`, and one is needed. -/
def lacks (ast : AtfStream) (va : Address) : Bool :=
  !ast.isAddrSuppag va && (ast.tlbValid va).isNone

/-- What makes a superpage is above the offset in the page. -/
theorem isAddrSuppag_page (ast : AtfStream) (va : Address) :
    ast.isAddrSuppag (pageAddrPage va) = ast.isAddrSuppag va := by
  have hones : ∀ j < 64, 13 ≤ j → (~~~mask pageSizeLog2).getLsbD j = true := by decide
  have hshift (n : Nat) (hn : 13 ≤ n) : pageAddrPage va >>> n = va >>> n := by
    apply BitVec.eq_of_getLsbD_eq
    intro i hi
    rw [BitVec.getLsbD_ushiftRight, BitVec.getLsbD_ushiftRight]
    unfold pageAddrPage
    rw [BitVec.getLsbD_and]
    rcases Nat.lt_or_ge (n + i) 64 with hlt | hge
    · rw [hones (n + i) hlt (by omega), Bool.and_true]
    · rw [BitVec.getLsbD_of_ge va (n + i) hge, Bool.false_and]
  unfold isAddrSuppag isAddrSpEv5 isAddrSpEv6 isAddrKsegEv5 isAddrKsegEv6
  rw [hshift 30 (by decide), hshift 41 (by decide), hshift 46 (by decide)]

/-- The entry matches the page of `va`. -/
def isMatch (ast : AtfStream) (va : Address) (asn : U64) (ent : Fin tlbAssoc) : Bool :=
  (ast.cur.tlb ent).vpage = pageAddrPage va &&
    ((ast.cur.tlb ent).asn = asn || (ast.cur.tlb ent).pte &&& 0x10 ≠ 0)

theorem tlbMatch_eq_find (ast : AtfStream) (va : Address) (asn : U64) :
    ast.tlbMatch va asn = (List.finRange tlbAssoc).find? (ast.isMatch va asn) := rfl

theorem isMatch_page {asn : U64} (h : ast.isMatch va asn ent = true) :
    (ast.cur.tlb ent).vpage = pageAddrPage va := by
  unfold isMatch at h
  rw [Bool.and_eq_true, decide_eq_true_eq] at h
  exact h.1

theorem tlbMatch_page {asn : U64} (h : ast.tlbMatch va asn = some ent) :
    (ast.cur.tlb ent).vpage = pageAddrPage va :=
  isMatch_page (List.find?_some (ast.tlbMatch_eq_find va asn ▸ h))

/-- Only the entry that is filled can change how it matches. -/
theorem isMatch_of_ne (htlb : b.cur.tlb = Function.update ast.cur.tlb f e) (va : Address)
    (asn : U64) (hne : ent ≠ f) : b.isMatch va asn ent = ast.isMatch va asn ent := by
  unfold isMatch
  rw [htlb, Function.update_of_ne hne]

/-- **The entry that is filled is the first** that matches its page. -/
theorem tlbMatch_filled {asn : U64} (htlb : b.cur.tlb = Function.update ast.cur.tlb f e)
    (hpage : e.vpage = pageAddrPage va) (hasn : e.asn = asn)
    (hf : ast.tlbMatch va asn = some f ∨ ast.tlbMatch va asn = none) :
    b.tlbMatch va asn = some f := by
  have hmatch : b.isMatch va asn f = true := by
    unfold isMatch
    rw [htlb, Function.update_self, hpage, hasn]
    simp
  rw [tlbMatch_eq_find] at hf ⊢
  rcases hf with hf | hnone
  · refine find?_of_imp hf (fun ent hent => ?_) hmatch
    by_cases hne : ent = f
    · rw [hne]
      exact List.find?_some hf
    · rwa [isMatch_of_ne htlb va asn hne] at hent
  · refine find?_of_unique (List.mem_finRange f) hmatch fun ent hent => ?_
    by_contra hne
    rw [isMatch_of_ne htlb va asn hne] at hent
    exact List.find?_eq_none.mp hnone ent (List.mem_finRange ent) hent

/-- **Another entry** stays the first that matches its page. -/
theorem tlbMatch_other {asn : U64} (htlb : b.cur.tlb = Function.update ast.cur.tlb f e)
    (hpage : e.vpage = pageAddrPage va) (hother : pageAddrPage va' ≠ pageAddrPage va)
    (hent : ast.tlbMatch va' asn = some ent) (hne : ent ≠ f) : b.tlbMatch va' asn = some ent := by
  rw [tlbMatch_eq_find] at hent ⊢
  refine find?_of_imp hent (fun i hi => ?_) ?_
  · by_cases hif : i = f
    · have hvpage := isMatch_page hi
      rw [hif, htlb, Function.update_self, hpage] at hvpage
      exact absurd hvpage.symm hother
    · rwa [isMatch_of_ne htlb va' asn hif] at hi
  · rw [isMatch_of_ne htlb va' asn hne]
    exact List.find?_some hent

theorem tlbValid_some (h : ast.tlbValid va = some ent) :
    ast.tlbMatch va (ast.cur.localVar .avlASN) = some ent ∧ (ast.cur.tlb ent).pte &&& 1 ≠ 0 := by
  unfold tlbValid at h
  rw [Option.filter_eq_some_iff] at h
  exact ⟨h.1, by simpa using h.2⟩

theorem tlbValid_of_match (hmatch : ast.tlbMatch va (ast.cur.localVar .avlASN) = some ent)
    (hvalid : (ast.cur.tlb ent).pte &&& 1 ≠ 0) : ast.tlbValid va = some ent := by
  unfold tlbValid
  rw [hmatch, Option.filter_some, if_pos (decide_eq_true hvalid)]

end AtfStream

/-! ### What a translation reads -/

namespace Ctx

variable {c d e : Ctx} {va vpc vea : Address} {opcode : Opcode} {pte : U64}

/-- Everything that a translation reads is the same. -/
structure SameMap (c d : Ctx) : Prop where
  globalVar : c.ast.globalVar = d.ast.globalVar
  localVar : c.ast.cur.localVar = d.ast.cur.localVar
  tlb : c.ast.cur.tlb = d.ast.cur.tlb
  last : c.sh.last = d.sh.last
  last2 : c.sh.last2 = d.sh.last2

namespace SameMap

theorem refl (c : Ctx) : c.SameMap c := ⟨rfl, rfl, rfl, rfl, rfl⟩

theorem trans (h : c.SameMap d) (h' : d.SameMap e) : c.SameMap e :=
  ⟨h.globalVar.trans h'.globalVar, h.localVar.trans h'.localVar, h.tlb.trans h'.tlb,
    h.last.trans h'.last, h.last2.trans h'.last2⟩

theorem of_agrees (h : c.ast.Agrees d.ast) (hsh : c.sh = d.sh) : c.SameMap d where
  globalVar := h.globalVar
  localVar := by
    unfold AtfStream.cur
    rw [h.cpuPtr]
    exact (h.cpu d.ast.cpuPtr).localVar
  tlb := by
    unfold AtfStream.cur
    rw [h.cpuPtr]
    exact (h.cpu d.ast.cpuPtr).tlb
  last := congrArg (·.last) hsh
  last2 := congrArg (·.last2) hsh

theorem tlbValid (h : c.SameMap d) (va : Address) : c.ast.tlbValid va = d.ast.tlbValid va := by
  unfold AtfStream.tlbValid AtfStream.tlbMatch
  rw [h.localVar, h.tlb]

theorem isAddrSuppag (h : c.SameMap d) (va : Address) :
    c.ast.isAddrSuppag va = d.ast.isAddrSuppag va := by
  unfold AtfStream.isAddrSuppag AtfStream.isAddrDirect AtfStream.isAddrSpEv5 AtfStream.isAddrSpEv6
    AtfStream.isAddrKsegEv5 AtfStream.isAddrKsegEv6 AtfStream.isAddrAsm AtfStream.suppag
  rw [h.localVar]

theorem lacks (h : c.SameMap d) (va : Address) : c.ast.lacks va = d.ast.lacks va := by
  unfold AtfStream.lacks
  rw [h.isAddrSuppag, h.tlbValid]

theorem page (h : c.SameMap d) (va : Address) : c.ast.page va = d.ast.page va := by
  unfold AtfStream.page AtfStream.isAddrDirect AtfStream.isAddrSpEv5 AtfStream.isAddrSpEv6
    AtfStream.isAddrKsegEv5 AtfStream.isAddrKsegEv6 AtfStream.isAddrAsm AtfStream.suppag
  dsimp only
  rw [h.localVar, h.tlbValid, h.tlb]

/-- **The same translation** is made. -/
theorem translate (h : c.SameMap d) (va : Address) (isIstream : Bool) :
    (c.atfTlbTranslate va isIstream).1 = (d.atfTlbTranslate va isIstream).1 := by
  have hcpu : c.cpunum = d.cpunum := congrFun h.globalVar .avgCPU
  have hasn : c.asn = d.asn := congrFun h.localVar .avlASN
  have hwalk : (c.ast.tlbWalk va isIstream).1.1 ||| (c.ast.tlbWalk va isIstream).1.2.2 =
      (d.ast.tlbWalk va isIstream).1.1 ||| (d.ast.tlbWalk va isIstream).1.2.2 := by
    rw [AtfStream.tlbWalk_uncached, AtfStream.tlbWalk_uncached]
    unfold AtfStream.uncached
    rw [h.page va]
  unfold atfTlbTranslate
  dsimp only
  rw [h.last, h.last2, hcpu, hasn]
  split_ifs
  · rfl
  · rfl
  · exact hwalk

end SameMap

/-! ### Looking for the pages -/

theorem SameMap.of_touched (h : c.ast.Touched d.ast) (hsh : d.sh = c.sh) : d.SameMap c :=
  .of_agrees (.of_touched h) hsh

theorem vpcMisses_fst (c : Ctx) (vpc : Address) :
    (c.vpcMisses vpc).1 = (!isPal vpc && c.ast.lacks vpc) := by
  unfold vpcMisses AtfStream.lacks
  rw [← (c.ast.atfTlbFindValid_eq vpc c.asn rfl).1]
  cases isPal vpc
  · cases c.ast.isAddrSuppag vpc
    · rfl
    · rfl
  · rfl

theorem vpcMisses_touched (c : Ctx) (vpc : Address) :
    c.ast.Touched (c.vpcMisses vpc).2.ast ∧ (c.vpcMisses vpc).2.sh = c.sh := by
  unfold vpcMisses
  split
  · exact ⟨.inl rfl, rfl⟩
  · exact ⟨c.ast.atfTlbFindValid_touched vpc c.asn, rfl⟩

theorem veaMisses_fst (c : Ctx) (opcode : Opcode) (vea : Address) :
    (c.veaMisses opcode vea).1 = (isLoadStore opcode && c.ast.lacks vea) := by
  unfold veaMisses AtfStream.lacks
  rw [← (c.ast.atfTlbFindValid_eq vea c.asn rfl).1]
  cases isLoadStore opcode
  · rfl
  · cases c.ast.isAddrSuppag vea
    · rfl
    · rfl

theorem veaMisses_touched (c : Ctx) (opcode : Opcode) (vea : Address) :
    c.ast.Touched (c.veaMisses opcode vea).2.ast ∧ (c.veaMisses opcode vea).2.sh = c.sh := by
  unfold veaMisses
  split
  · exact ⟨.inl rfl, rfl⟩
  · exact ⟨c.ast.atfTlbFindValid_touched vea c.asn, rfl⟩

theorem setCur_cur (ast : AtfStream) (f : AtfCpu → AtfCpu) : (ast.setCur f).cur = f ast.cur :=
  Function.update_self _ _ _

/-- The entry that was found last. -/
def lastRecent (ast : AtfStream) : Fin tlbAssoc :=
  ast.cur.tlbRecent (Fin.ofNat tlbRecents ast.cur.tlbRecentLru)

theorem lastRecent_touch (ast : AtfStream) (ent : Fin tlbAssoc) :
    lastRecent (ast.touch ent) = ent := by
  unfold lastRecent
  rw [AtfStream.touch, setCur_cur]
  exact Function.update_self _ _ _

/-- It is one of the recent ones, also when one more is found. -/
theorem recent_of_touched {a b : AtfStream} (h : a.Touched b) :
    ∃ i, b.cur.tlbRecent i = lastRecent a := by
  refine ⟨Fin.ofNat tlbRecents a.cur.tlbRecentLru, ?_⟩
  rcases h with rfl | ⟨ent, rfl⟩
  · rfl
  · have hne : Fin.ofNat tlbRecents a.cur.tlbRecentLru ≠
        Fin.ofNat tlbRecents (a.cur.tlbRecentLru + 1) := by
      intro heq
      have hval := congrArg Fin.val heq
      rw [Fin.val_ofNat, Fin.val_ofNat] at hval
      unfold tlbRecents at hval
      omega
    rw [AtfStream.touch, setCur_cur]
    exact Function.update_of_ne hne _ _

theorem vpcMisses_lastRecent {ent : Fin tlbAssoc} (hpal : isPal vpc = false)
    (hsuppag : c.ast.isAddrSuppag vpc = false) (hent : c.ast.tlbValid vpc = some ent) :
    lastRecent (c.vpcMisses vpc).2.ast = ent := by
  have hmatch : c.ast.tlbMatch vpc c.asn = some ent := (AtfStream.tlbValid_some hent).1
  unfold vpcMisses AtfStream.atfTlbFindValid AtfStream.atfTlbFind
  rw [hpal, hsuppag, hmatch]
  exact lastRecent_touch c.ast ent

/-! ### Writing a page table entry -/

theorem SameMap.emit (c : Ctx) (bytes : List Byte) : (c.emit bytes).SameMap c :=
  ⟨rfl, rfl, rfl, rfl, rfl⟩

theorem SameMap.emitSkip (c : Ctx) : c.emitSkip.SameMap c := by
  unfold Ctx.emitSkip
  split
  · exact ⟨rfl, rfl, rfl, rfl, rfl⟩
  · exact .refl c

theorem SameMap.emitToken (c : Ctx) (token : Byte) : (c.emitToken token).SameMap c :=
  (SameMap.emit c.emitSkip [token]).trans (.emitSkip c)

/-- **A valid entry that is written for a missing page** is put where the page was found, or
where nothing was read lately. -/
theorem atfWritePte_spec (hlacks : c.ast.lacks va = true) (hpte : pte &&& 1 ≠ 0) :
    ∃ f, (c.ast.tlbMatch va c.asn = some f ∨
        c.ast.tlbMatch va c.asn = none ∧ ∀ i, c.ast.cur.tlbRecent i ≠ f) ∧
      (c.atfWritePte va pte).ast.cur.tlb =
        Function.update c.ast.cur.tlb f ⟨pageAddrPage va, c.asn, pte, ptePpage pte⟩ ∧
      (c.atfWritePte va pte).ast.cur.localVar = c.ast.cur.localVar := by
  unfold AtfStream.lacks at hlacks
  rw [Bool.and_eq_true, Bool.not_eq_true'] at hlacks
  obtain ⟨hsuppag, hinvalid⟩ := hlacks
  have hpage : c.ast.tlbMatch (pageAddrPage va) c.asn = c.ast.tlbMatch va c.asn := by
    unfold AtfStream.tlbMatch
    rw [pageAddrPage_idem]
  -- what is emitted does not matter
  have hwritten (f : Fin tlbAssoc) (d : Ctx) (hd : d.ast.cur.tlb = c.ast.cur.tlb ∧
      d.ast.cur.localVar = c.ast.cur.localVar)
      (hfill : c.atfTlbFill (pageAddrPage va) pte =
        (some f, d.atfTlbFillEntry (pageAddrPage va) pte f)) :
      (c.atfWritePte va pte).ast.cur.tlb =
          Function.update c.ast.cur.tlb f ⟨pageAddrPage va, c.asn, pte, ptePpage pte⟩ ∧
        (c.atfWritePte va pte).ast.cur.localVar = c.ast.cur.localVar := by
    have hsame : (c.atfWritePte va pte).SameMap (d.atfTlbFillEntry (pageAddrPage va) pte f) := by
      unfold atfWritePte
      dsimp only
      rw [hfill]
      exact ((SameMap.emit _ _).trans (.emit _ _)).trans (.emitToken _ 0xeb)
    have hasn : d.asn = c.asn := congrFun hd.2 .avlASN
    rw [hsame.tlb, hsame.localVar, atfTlbFillEntry, setCur_cur, pageAddrPage_idem, hasn, hd.1, hd.2]
    exact ⟨rfl, rfl⟩
  cases hmatch : c.ast.tlbMatch va c.asn with
  | some f =>
      have hfind : c.ast.atfTlbFind (pageAddrPage va) c.asn = (some f, c.ast.touch f) := by
        simp only [AtfStream.atfTlbFind, hpage, hmatch]
      have htouch : (c.ast.touch f).cur.tlb = c.ast.cur.tlb ∧
          (c.ast.touch f).cur.localVar = c.ast.cur.localVar := by
        rw [AtfStream.touch, setCur_cur]
        exact ⟨rfl, rfl⟩
      -- the entry that is there is not valid
      have hne : ((c.ast.touch f).cur.tlb f).pte ≠ pte := by
        intro heq
        rw [htouch.1] at heq
        have hvalid := AtfStream.tlbValid_of_match hmatch (by rwa [heq])
        rw [hvalid] at hinvalid
        cases hinvalid
      refine ⟨f, .inl rfl, hwritten f ⟨c.ast.touch f, c.sh⟩ htouch ?_⟩
      simp only [atfTlbFill, pageAddrPage_idem, AtfStream.isAddrSuppag_page, hsuppag, hfind, hne,
        Bool.false_eq_true, if_false]
  | none =>
      have hfind : c.ast.atfTlbFind (pageAddrPage va) c.asn = (none, c.ast) := by
        simp only [AtfStream.atfTlbFind, hpage, hmatch]
      have hnew : c.ast.atfTlbNew.2.cur.tlb = c.ast.cur.tlb ∧
          c.ast.atfTlbNew.2.cur.localVar = c.ast.cur.localVar := by
        unfold AtfStream.atfTlbNew
        dsimp only
        rw [setCur_cur]
        exact ⟨rfl, rfl⟩
      refine ⟨c.ast.atfTlbNew.1, .inr ⟨rfl, fun i => skipRecents_not_recent _ _ i⟩,
        hwritten _ ⟨c.ast.atfTlbNew.2, c.sh⟩ hnew ?_⟩
      simp only [atfTlbFill, pageAddrPage_idem, AtfStream.isAddrSuppag_page, hsuppag, hfind,
        Bool.false_eq_true, if_false]

theorem not_lacks_of_match {f : Fin tlbAssoc}
    (hmatch : d.ast.tlbMatch va d.asn = some f) (hvalid : (d.ast.cur.tlb f).pte &&& 1 ≠ 0) :
    d.ast.lacks va = false := by
  unfold AtfStream.lacks
  rw [AtfStream.tlbValid_of_match hmatch hvalid]
  simp

/-- **The page that was missing is there** when its entry is written. -/
theorem atfWritePte_not_lacks (hlacks : c.ast.lacks va = true) (hpte : pte &&& 1 ≠ 0) :
    (c.atfWritePte va pte).ast.lacks va = false := by
  obtain ⟨f, hf, htlb, hlocal⟩ := atfWritePte_spec hlacks hpte
  have hasn : (c.atfWritePte va pte).asn = c.asn := congrFun hlocal .avlASN
  refine not_lacks_of_match (f := f) ?_ ?_
  · rw [hasn]
    exact AtfStream.tlbMatch_filled htlb rfl rfl (hf.imp_right And.left)
  · rw [htlb, Function.update_self]
    exact hpte

/-- **The entry that was found for another page**, and read lately, stays. -/
theorem atfWritePte_keeps {ent : Fin tlbAssoc} (hlacks : c.ast.lacks va = true)
    (hpte : pte &&& 1 ≠ 0) (hent : c.ast.tlbValid vpc = some ent)
    (hrecent : ∃ i, c.ast.cur.tlbRecent i = ent) :
    (c.atfWritePte va pte).ast.tlbValid vpc = some ent ∧
      (c.atfWritePte va pte).ast.cur.tlb ent = c.ast.cur.tlb ent := by
  obtain ⟨f, hf, htlb, hlocal⟩ := atfWritePte_spec hlacks hpte
  have hasn : (c.atfWritePte va pte).asn = c.asn := congrFun hlocal .avlASN
  obtain ⟨hmatch, hvalid⟩ := AtfStream.tlbValid_some hent
  have hother : pageAddrPage vpc ≠ pageAddrPage va := by
    intro heq
    have hva : c.ast.tlbValid va = some ent := by
      rw [← hent]
      unfold AtfStream.tlbValid AtfStream.tlbMatch
      rw [heq]
    unfold AtfStream.lacks at hlacks
    rw [hva] at hlacks
    simp at hlacks
  have hne : ent ≠ f := by
    intro heq
    rcases hf with hf | ⟨-, hnot⟩
    · have hvpc := AtfStream.tlbMatch_page hmatch
      rw [heq, AtfStream.tlbMatch_page hf] at hvpc
      exact hother hvpc.symm
    · obtain ⟨i, hi⟩ := hrecent
      exact hnot i (hi.trans heq)
  have hsame : (c.atfWritePte va pte).ast.cur.tlb ent = c.ast.cur.tlb ent := by
    rw [htlb, Function.update_of_ne hne]
  refine ⟨AtfStream.tlbValid_of_match ?_ ?_, hsame⟩
  · rw [hlocal]
    exact AtfStream.tlbMatch_other htlb rfl hother hmatch hne
  · rwa [hsame]

/-- **The page of the pc is still there** when the entry for the effective address is
written. -/
theorem atfWritePte_vpc (hvpc : (c.vpcMisses vpc).1 = false)
    (hvea : ((c.vpcMisses vpc).2.veaMisses opcode vea).1 = true) (hpte : pte &&& 1 ≠ 0) :
    ((((c.vpcMisses vpc).2.veaMisses opcode vea).2.atfWritePte vea pte).vpcMisses vpc).1 =
      false := by
  obtain ⟨htouched, hsh⟩ := c.vpcMisses_touched vpc
  obtain ⟨htouched', hsh'⟩ := (c.vpcMisses vpc).2.veaMisses_touched opcode vea
  have hsame := SameMap.of_touched htouched hsh
  have hsame' := SameMap.of_touched htouched' hsh'
  rw [veaMisses_fst, Bool.and_eq_true, ← hsame'.lacks] at hvea
  rw [vpcMisses_fst] at hvpc ⊢
  cases hpal : isPal vpc with
  | true => rfl
  | false =>
      rw [hpal, Bool.not_false, Bool.true_and] at hvpc
      rw [Bool.not_false, Bool.true_and]
      generalize hd : ((c.vpcMisses vpc).2.veaMisses opcode vea).2 = d at *
      obtain ⟨f, -, -, hlocal⟩ := atfWritePte_spec hvea.2 hpte
      have hsuppag : (d.atfWritePte vea pte).ast.isAddrSuppag vpc = c.ast.isAddrSuppag vpc := by
        rw [← (hsame'.trans hsame).isAddrSuppag]
        unfold AtfStream.isAddrSuppag AtfStream.isAddrDirect AtfStream.isAddrSpEv5
          AtfStream.isAddrSpEv6 AtfStream.isAddrKsegEv5 AtfStream.isAddrKsegEv6
          AtfStream.isAddrAsm AtfStream.suppag
        rw [hlocal]
      unfold AtfStream.lacks at hvpc ⊢
      rw [hsuppag]
      cases hc : c.ast.isAddrSuppag vpc with
      | true => rfl
      | false =>
          rw [hc, Bool.not_false, Bool.true_and, Option.isNone_eq_false_iff,
            Option.isSome_iff_exists] at hvpc
          obtain ⟨ent, hent⟩ := hvpc
          have hrecent := recent_of_touched htouched'
          rw [vpcMisses_lastRecent hpal hc hent] at hrecent
          rw [← (hsame'.trans hsame).tlbValid] at hent
          rw [(atfWritePte_keeps hvea.2 hpte hent hrecent).1]
          rfl

/-! ### Writing an instruction -/

/-- Where the pc is translated to is in the table of the opcode cache. -/
def inTable (c : Ctx) (vpc : Address) : Bool :=
  ((c.atfTlbTranslate vpc true).1 >>> 52).toNat < 13

/-- The state when every missing page was written. -/
def refilled (vpc : Address) (opcode : Opcode) (vea : Address) : List U64 → Ctx → Ctx
  | [], c => c
  | pte :: ptes, c =>
      let (vpcMissed, d) := c.vpcMisses vpc
      if vpcMissed then refilled vpc opcode vea ptes (d.atfWritePte vpc pte)
      else
        let (veaMissed, d) := d.veaMisses opcode vea
        if veaMissed then refilled vpc opcode vea ptes (d.atfWritePte vea pte)
        else c

theorem atfWriteInstruction_vpc (hvpc : (c.vpcMisses vpc).1 = true) :
    c.atfWriteInstruction vpc opcode vea = .ok (-1, (c.vpcMisses vpc).2) := by
  unfold atfWriteInstruction
  dsimp only
  rw [hvpc]
  rfl

theorem atfWriteInstruction_vea (hvpc : (c.vpcMisses vpc).1 = false)
    (hvea : ((c.vpcMisses vpc).2.veaMisses opcode vea).1 = true) :
    c.atfWriteInstruction vpc opcode vea =
      .ok (-2, ((c.vpcMisses vpc).2.veaMisses opcode vea).2) := by
  unfold atfWriteInstruction
  dsimp only
  rw [hvpc, hvea]
  rfl

theorem SameMap.onAst_atfSetPc (c : Ctx) (pc : Address) (isRelative : Bool) :
    (c.onAst fun ast => ast.atfSetPc pc isRelative).SameMap c := by
  have hcur : (c.ast.atfSetPc pc isRelative).cur.localVar = c.ast.cur.localVar ∧
      (c.ast.atfSetPc pc isRelative).cur.tlb = c.ast.cur.tlb ∧
      (c.ast.atfSetPc pc isRelative).globalVar = c.ast.globalVar := by
    unfold AtfStream.atfSetPc
    split
    · rw [setCur_cur]
      exact ⟨rfl, rfl, rfl⟩
    · rw [setCur_cur]
      exact ⟨rfl, rfl, rfl⟩
  exact ⟨hcur.2.2, hcur.1, hcur.2.1, rfl, rfl⟩

theorem SameMap.writeJump (c : Ctx) (vpc : Address) (delta : U64) :
    (c.writeJump vpc delta).SameMap c ∧ (c.writeJump vpc delta).vpc = c.vpc := by
  have htoken (token : Byte) (bytes : List Byte) :
      ((c.emitToken token).emit bytes).SameMap c ∧
        ((c.emitToken token).emit bytes).vpc = c.vpc := by
    refine ⟨(SameMap.emit _ _).trans (.emitToken c token), ?_⟩
    unfold Ctx.emitToken Ctx.emitSkip
    split
    · rfl
    · rfl
  unfold Ctx.writeJump
  split_ifs
  · exact ⟨.refl c, rfl⟩
  · have h := htoken (0x00 ||| deltatCodea (delta.sshiftRight 2)) []
    exact ⟨.emitToken c _, h.2⟩
  · exact htoken 0xe0 _
  · exact htoken 0xe1 _

/-- Nothing is missing. -/
def Present (c : Ctx) (vpc : Address) (opcode : Opcode) (vea : Address) : Prop :=
  (c.vpcMisses vpc).1 = false ∧ ((c.vpcMisses vpc).2.veaMisses opcode vea).1 = false

/-- **A call that misses nothing** returns 1, or the table has no entry for the pc. -/
theorem Present.call (h : c.Present vpc opcode vea) :
    (c.inTable vpc = true ∧ ∃ d, c.atfWriteInstruction vpc opcode vea = .ok (1, d)) ∨
      (c.inTable vpc = false ∧ c.atfWriteInstruction vpc opcode vea = .error .outOfBounds) := by
  obtain ⟨hvpc, hvea⟩ := h
  obtain ⟨htouched, hsh⟩ := c.vpcMisses_touched vpc
  obtain ⟨htouched', hsh'⟩ := (c.vpcMisses vpc).2.veaMisses_touched opcode vea
  have hsame := (SameMap.of_touched htouched' hsh').trans (.of_touched htouched hsh)
  unfold atfWriteInstruction
  dsimp only
  rw [hvpc, hvea, if_neg Bool.false_ne_true, if_neg Bool.false_ne_true]
  generalize hd : ((c.vpcMisses vpc).2.veaMisses opcode vea).2 = d at *
  obtain ⟨hjump, hpc⟩ := SameMap.writeJump (d.onAst fun ast => ast.atfSetPc vpc false) vpc
    (vpc - d.vpc)
  have hvpcSet : (d.onAst fun ast => ast.atfSetPc vpc false).vpc = vpc := by
    show (d.ast.atfSetPc vpc false).cur.vpc = vpc
    rw [AtfStream.atfSetPc, if_neg Bool.false_ne_true, setCur_cur]
  have hplace := ((hjump.trans (.onAst_atfSetPc d vpc false)).trans hsame).translate vpc true
  generalize ((d.onAst fun ast => ast.atfSetPc vpc false).writeJump vpc (vpc - d.vpc)) = e at *
  have hshift : e.place >>> 50 = (e.atfTlbTranslate vpc true).1 >>> 52 := by
    unfold place
    rw [hpc.trans hvpcSet, ← BitVec.shiftRight_add]
  have hcache := e.cachePlace_eq
  rw [hshift] at hcache
  unfold atfCacheOpcodeLast inTable
  rw [← hplace, hcache]
  by_cases htable : ((e.atfTlbTranslate vpc true).1 >>> 52).toNat < 13
  · rw [if_pos htable]
    exact .inl ⟨decide_eq_true htable, _, rfl⟩
  · rw [if_neg htable]
    exact .inr ⟨decide_eq_false htable, rfl⟩

/-- What a call can do. -/
theorem atfWriteInstruction_cases (c : Ctx) (vpc : Address) (opcode : Opcode) (vea : Address) :
    ((c.vpcMisses vpc).1 = true ∧
        c.atfWriteInstruction vpc opcode vea = .ok (-1, (c.vpcMisses vpc).2)) ∨
      ((c.vpcMisses vpc).1 = false ∧ ((c.vpcMisses vpc).2.veaMisses opcode vea).1 = true ∧
        c.atfWriteInstruction vpc opcode vea =
          .ok (-2, ((c.vpcMisses vpc).2.veaMisses opcode vea).2)) ∨
      (c.Present vpc opcode vea ∧
        ((c.inTable vpc = true ∧ ∃ d, c.atfWriteInstruction vpc opcode vea = .ok (1, d)) ∨
          (c.inTable vpc = false ∧
            c.atfWriteInstruction vpc opcode vea = .error .outOfBounds))) := by
  cases hvpc : (c.vpcMisses vpc).1 with
  | true => exact .inl ⟨rfl, atfWriteInstruction_vpc hvpc⟩
  | false =>
      cases hvea : ((c.vpcMisses vpc).2.veaMisses opcode vea).1 with
      | true => exact .inr (.inl ⟨rfl, rfl, atfWriteInstruction_vea hvpc hvea⟩)
      | false => exact .inr (.inr ⟨⟨hvpc, hvea⟩, Present.call ⟨hvpc, hvea⟩⟩)

theorem refilled_of_present (h : c.Present vpc opcode vea) (ptes : List U64) :
    refilled vpc opcode vea ptes c = c := by
  cases ptes with
  | nil => rfl
  | cons pte ptes =>
      unfold refilled
      dsimp only
      rw [h.1, h.2]
      rfl

theorem refilled_vpc (hvpc : (c.vpcMisses vpc).1 = true) (ptes : List U64) :
    refilled vpc opcode vea (pte :: ptes) c =
      refilled vpc opcode vea ptes ((c.vpcMisses vpc).2.atfWritePte vpc pte) := by
  rw [refilled]
  dsimp only
  rw [hvpc]
  rfl

theorem refilled_vea (hvpc : (c.vpcMisses vpc).1 = false)
    (hvea : ((c.vpcMisses vpc).2.veaMisses opcode vea).1 = true) (ptes : List U64) :
    refilled vpc opcode vea (pte :: ptes) c = refilled vpc opcode vea ptes
      (((c.vpcMisses vpc).2.veaMisses opcode vea).2.atfWritePte vea pte) := by
  rw [refilled]
  dsimp only
  rw [hvpc, hvea]
  rfl

/-- When only the page of the effective address can be missing, one entry is enough. -/
theorem refilled_present_of_vpc (hvpc : (c.vpcMisses vpc).1 = false) (hpte : pte &&& 1 ≠ 0)
    (ptes : List U64) : (refilled vpc opcode vea (pte :: ptes) c).Present vpc opcode vea := by
  cases hvea : ((c.vpcMisses vpc).2.veaMisses opcode vea).1 with
  | false =>
      rw [refilled_of_present ⟨hvpc, hvea⟩]
      exact ⟨hvpc, hvea⟩
  | true =>
      have hthere := atfWritePte_vpc hvpc hvea hpte
      obtain ⟨htouched', hsh'⟩ := (c.vpcMisses vpc).2.veaMisses_touched opcode vea
      have hpresent : (((c.vpcMisses vpc).2.veaMisses opcode vea).2.atfWritePte vea pte).Present
          vpc opcode vea := by
        refine ⟨hthere, ?_⟩
        rw [veaMisses_fst, Bool.and_eq_true, ← (SameMap.of_touched htouched' hsh').lacks] at hvea
        have hfound := atfWritePte_not_lacks hvea.2 hpte
        generalize ((c.vpcMisses vpc).2.veaMisses opcode vea).2.atfWritePte vea pte = d at hfound
        obtain ⟨htouchedAgain, hshAgain⟩ := d.vpcMisses_touched vpc
        rw [veaMisses_fst, (SameMap.of_touched htouchedAgain hshAgain).lacks, hfound,
          Bool.and_false]
      rw [refilled_vea hvpc hvea, refilled_of_present hpresent]
      exact hpresent

variable (vpc opcode vea) in
/-- **Two entries are enough**, whatever was there before. -/
theorem refilled_present {pte' : U64} (c : Ctx) (hpte : pte &&& 1 ≠ 0) (hpte' : pte' &&& 1 ≠ 0) :
    (refilled vpc opcode vea [pte, pte'] c).Present vpc opcode vea := by
  cases hvpc : (c.vpcMisses vpc).1 with
  | false => exact refilled_present_of_vpc hvpc hpte [pte']
  | true =>
      obtain ⟨htouched, hsh⟩ := c.vpcMisses_touched vpc
      rw [refilled_vpc hvpc]
      refine refilled_present_of_vpc ?_ hpte' []
      rw [vpcMisses_fst, Bool.and_eq_true, ← (SameMap.of_touched htouched hsh).lacks] at hvpc
      rw [vpcMisses_fst, atfWritePte_not_lacks hvpc.2 hpte, Bool.and_false]

theorem writeRetrying_eq (ptes : List U64) (c : Ctx) : c.writeRetrying vpc opcode vea ptes =
    (refilled vpc opcode vea ptes c).atfWriteInstruction vpc opcode vea := by
  induction ptes generalizing c with
  | nil => rfl
  | cons pte ptes ih =>
      rw [writeRetrying]
      rcases c.atfWriteInstruction_cases vpc opcode vea with
        ⟨hvpc, hcall⟩ | ⟨hvpc, hvea, hcall⟩ | ⟨hpresent, hcall⟩
      · rw [hcall, refilled_vpc hvpc]
        exact ih _
      · rw [hcall, refilled_vea hvpc hvea]
        exact ih _
      · rw [refilled_of_present hpresent]
        rcases hcall with ⟨-, d, hcall⟩ | ⟨-, hcall⟩
        · rw [hcall]
          rfl
        · rw [hcall]
          rfl

/-! ### Retrying -/

/-- **A call that misses** writes nothing and leaves everything but the recent entries as it
is; and when two valid entries are written for it, it returns 1. -/
structure RetriesCleanly (c : Ctx) (vpc : Address) (opcode : Opcode) (vea : Address) : Prop where
  quiet : ∀ r d, c.atfWriteInstruction vpc opcode vea = .ok (r, d) → r ≠ 1 →
    (r = -1 ∨ r = -2) ∧ d.InStep c ∧ d.sh = c.sh
  ends : ∀ i, c.ast.cur.tlbRecent i ≠ c.ast.atfTlbNew.1
  keeps : ∀ ent d pte, isPal vpc = false → c.ast.isAddrSuppag vpc = false →
    c.ast.tlbValid vpc = some ent → c.atfWriteInstruction vpc opcode vea = .ok (-2, d) →
    pte &&& 1 ≠ 0 → (d.atfWritePte vea pte).ast.tlbValid vpc = some ent
  returns : ∀ pte pte', pte &&& 1 ≠ 0 → pte' &&& 1 ≠ 0 →
    ∃ d, c.writeRetrying vpc opcode vea [pte, pte'] = .ok (1, d)

/-- **Retrying succeeds and is clean** just when the pc is translated to a place in the table,
once the missing pages are written. -/
theorem retriesCleanly_iff (c : Ctx) (vpc : Address) (opcode : Opcode) (vea : Address) :
    c.RetriesCleanly vpc opcode vea ↔ ∀ pte pte', pte &&& 1 ≠ 0 → pte' &&& 1 ≠ 0 →
      (refilled vpc opcode vea [pte, pte'] c).inTable vpc = true := by
  obtain ⟨htouched, hsh⟩ := c.vpcMisses_touched vpc
  obtain ⟨htouched', hsh'⟩ := (c.vpcMisses vpc).2.veaMisses_touched opcode vea
  constructor
  · intro h pte pte' hpte hpte'
    obtain ⟨d, hd⟩ := h.returns pte pte' hpte hpte'
    rw [writeRetrying_eq] at hd
    have hpresent := refilled_present vpc vea opcode c hpte hpte'
    rcases hpresent.call with ⟨htable, -⟩ | ⟨-, herror⟩
    · exact htable
    · rw [herror] at hd
      cases hd
  · intro htable
    refine ⟨?_, fun i => skipRecents_not_recent _ _ i, ?_, ?_⟩
    · intro r d hd hr
      rcases c.atfWriteInstruction_cases vpc opcode vea with
        ⟨-, hcall⟩ | ⟨-, -, hcall⟩ | ⟨-, ⟨-, e, hcall⟩ | ⟨-, hcall⟩⟩
      · rw [hcall] at hd
        cases hd
        exact ⟨.inl rfl, .of_touched htouched, hsh⟩
      · rw [hcall] at hd
        cases hd
        exact ⟨.inr rfl, (AtfStream.InStep.of_touched htouched').trans (.of_touched htouched),
          hsh'.trans hsh⟩
      · rw [hcall] at hd
        cases hd
        exact absurd rfl hr
      · rw [hcall] at hd
        cases hd
    · intro ent d pte hpal hsuppag hent hd hpte
      rcases c.atfWriteInstruction_cases vpc opcode vea with
        ⟨-, hcall⟩ | ⟨-, hvea, hcall⟩ | ⟨-, ⟨-, e, hcall⟩ | ⟨-, hcall⟩⟩
      · rw [hcall] at hd
        cases hd
      · rw [hcall] at hd
        cases hd
        have hsame' := SameMap.of_touched htouched' hsh'
        have hrecent := recent_of_touched htouched'
        rw [vpcMisses_lastRecent hpal hsuppag hent] at hrecent
        rw [veaMisses_fst, Bool.and_eq_true, ← hsame'.lacks] at hvea
        rw [← (hsame'.trans (.of_touched htouched hsh)).tlbValid] at hent
        exact (atfWritePte_keeps hvea.2 hpte hent hrecent).1
      · rw [hcall] at hd
        cases hd
      · rw [hcall] at hd
        cases hd
    · intro pte pte' hpte hpte'
      have hpresent := refilled_present vpc vea opcode c hpte hpte'
      rw [writeRetrying_eq]
      rcases hpresent.call with ⟨-, hcall⟩ | ⟨hnot, -⟩
      · exact hcall
      · rw [htable pte pte' hpte hpte'] at hnot
        cases hnot

/-- PAL code above the table is written as the first instruction. -/
theorem not_retriesCleanly_above_table :
    ¬ ∀ vpc opcode vea, (⟨{ AtfStream.zero with opened := true }, .fresh⟩ : Ctx).RetriesCleanly
      vpc opcode vea := by
  intro hall
  have herror : (⟨{ AtfStream.zero with opened := true }, .fresh⟩ : Ctx).writeRetrying
      0xd000000000000001 0x47ff041f 0 [1, 1] = .error .outOfBounds := by
    rfl
  obtain ⟨d, hd⟩ := (hall 0xd000000000000001 0x47ff041f 0).returns 1 1 (by decide) (by decide)
  rw [herror] at hd
  cases hd

end Ctx

end AsimFeeder.Atf
