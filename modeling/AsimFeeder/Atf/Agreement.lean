/-
Two streams with the same CPUs.

Which entries were read last only decides which one the writer replaces next.  Streams that
agree but for that translate alike, and whatever is done to both leaves them in agreement.
-/
import AsimFeeder.Atf.Reader

namespace AsimFeeder.Atf

structure AtfCpu.Agrees (a b : AtfCpu) : Prop where
  vpc : a.vpc = b.vpc
  localVar : a.localVar = b.localVar
  tlb : a.tlb = b.tlb

namespace AtfStream

/-- The variables and the CPUs are the same, but for the recent entries. -/
structure Agrees (a b : AtfStream) : Prop where
  cpuPtr : a.cpuPtr = b.cpuPtr
  globalVar : a.globalVar = b.globalVar
  cpu : ∀ i, (a.cpu i).Agrees (b.cpu i)

variable {a b d : AtfStream}

namespace Agrees

theorem refl (a : AtfStream) : a.Agrees a :=
  ⟨rfl, rfl, fun _ => ⟨rfl, rfl, rfl⟩⟩

theorem symm (h : a.Agrees b) : b.Agrees a :=
  ⟨h.cpuPtr.symm, h.globalVar.symm, fun i =>
    ⟨(h.cpu i).vpc.symm, (h.cpu i).localVar.symm, (h.cpu i).tlb.symm⟩⟩

theorem trans (h : a.Agrees b) (h' : b.Agrees d) : a.Agrees d :=
  ⟨h.cpuPtr.trans h'.cpuPtr, h.globalVar.trans h'.globalVar, fun i =>
    ⟨(h.cpu i).vpc.trans (h'.cpu i).vpc, (h.cpu i).localVar.trans (h'.cpu i).localVar,
      (h.cpu i).tlb.trans (h'.cpu i).tlb⟩⟩

theorem cur (h : a.Agrees b) : a.cur.Agrees b.cur := by
  unfold AtfStream.cur
  rw [h.cpuPtr]
  exact h.cpu _

theorem setCur {f g : AtfCpu → AtfCpu} (h : a.Agrees b)
    (hfg : ∀ x y : AtfCpu, x.Agrees y → (f x).Agrees (g y)) : (a.setCur f).Agrees (b.setCur g) where
  cpuPtr := h.cpuPtr
  globalVar := h.globalVar
  cpu := by
    intro i
    change (Function.update a.cpu a.cpuPtr (f a.cur) i).Agrees
      (Function.update b.cpu b.cpuPtr (g b.cur) i)
    rw [h.cpuPtr]
    by_cases hi : i = b.cpuPtr
    · subst hi
      rw [Function.update_self, Function.update_self]
      exact hfg _ _ h.cur
    · rw [Function.update_of_ne hi, Function.update_of_ne hi]
      exact h.cpu i

theorem of_touched (h : a.Touched b) : b.Agrees a := by
  rcases h with rfl | ⟨ent, rfl⟩
  · exact refl _
  · refine ⟨rfl, rfl, fun i => ?_⟩
    change (Function.update a.cpu a.cpuPtr _ i).Agrees (a.cpu i)
    by_cases hi : i = a.cpuPtr
    · subst hi
      rw [Function.update_self]
      exact ⟨rfl, rfl, rfl⟩
    · rw [Function.update_of_ne hi]
      exact ⟨rfl, rfl, rfl⟩

/-! ### What agrees is done to both alike -/

theorem atfSetPc (h : a.Agrees b) (pc : Address) (isRelative : Bool) :
    (a.atfSetPc pc isRelative).Agrees (b.atfSetPc pc isRelative) := by
  cases isRelative
  · change (a.setCur fun c => { c with vpc := pc }).Agrees (b.setCur fun c => { c with vpc := pc })
    refine h.setCur fun x y hxy => ?_
    exact ⟨rfl, hxy.localVar, hxy.tlb⟩
  · change (a.setCur fun c => { c with vpc := c.vpc + pc }).Agrees
      (b.setCur fun c => { c with vpc := c.vpc + pc })
    refine h.setCur fun x y hxy => ?_
    exact ⟨congrArg (· + pc) hxy.vpc, hxy.localVar, hxy.tlb⟩

theorem atfGetVariable (h : a.Agrees b) (varnum : AtfVariable) :
    a.atfGetVariable varnum = b.atfGetVariable varnum := by
  unfold AtfStream.atfGetVariable
  rw [h.cur.localVar, h.globalVar]

theorem atfSetVariable (h : a.Agrees b) (varnum : AtfVariable) (value : U64) :
    match a.atfSetVariable varnum value, b.atfSetVariable varnum value with
    | .ok a', .ok b' => a'.Agrees b'
    | .error e, .error e' => e = e'
    | _, _ => False := by
  unfold AtfStream.atfSetVariable
  split_ifs
  · refine h.setCur fun x y hxy => ?_
    exact ⟨hxy.vpc, congrArg (Function.update · _ _) hxy.localVar, hxy.tlb⟩
  · exact ⟨rfl, congrArg (Function.update · _ _) h.globalVar, h.cpu⟩
  · rfl
  · exact ⟨h.cpuPtr, congrArg (Function.update · _ _) h.globalVar, h.cpu⟩

/-! ### What agrees is translated alike -/

variable (va : Address)

theorem suppag (h : a.Agrees b) : a.suppag = b.suppag :=
  congrFun h.cur.localVar _

theorem tlbMatch (h : a.Agrees b) (asn : U64) : a.tlbMatch va asn = b.tlbMatch va asn := by
  unfold AtfStream.tlbMatch
  rw [h.cur.tlb]

theorem atfTlbFind_fst (h : a.Agrees b) (asn : U64) :
    (a.atfTlbFind va asn).1 = (b.atfTlbFind va asn).1 := by
  unfold AtfStream.atfTlbFind
  rw [h.tlbMatch]
  split <;> rfl

theorem atfTlbFindValid_fst (h : a.Agrees b) (asn : U64) :
    (a.atfTlbFindValid va asn).1 = (b.atfTlbFindValid va asn).1 := by
  have hfst := h.atfTlbFind_fst va asn
  have hagree := ((of_touched (a.atfTlbFind_touched va asn)).trans h).trans
    (of_touched (b.atfTlbFind_touched va asn)).symm
  unfold AtfStream.atfTlbFindValid
  generalize a.atfTlbFind va asn = x at hfst hagree
  generalize b.atfTlbFind va asn = y at hfst hagree
  obtain ⟨ent, a'⟩ := x
  obtain ⟨_, b'⟩ := y
  cases hfst
  cases ent with
  | none => rfl
  | some ent =>
      dsimp only at hagree ⊢
      rw [hagree.cur.tlb]

theorem tlbWalk_fst (h : a.Agrees b) (isIstream : Bool) :
    (a.tlbWalk va isIstream).1 = (b.tlbWalk va isIstream).1 := by
  have hfst := h.atfTlbFindValid_fst (pageAddrPage va) (b.cur.localVar .avlASN)
  have hagree := ((of_touched (a.atfTlbFindValid_touched (pageAddrPage va)
    (b.cur.localVar .avlASN))).trans h).trans
    (of_touched (b.atfTlbFindValid_touched (pageAddrPage va) (b.cur.localVar .avlASN))).symm
  unfold AtfStream.tlbWalk AtfStream.isAddrDirect isAddrSpEv5 isAddrSpEv6 isAddrKsegEv5
    isAddrKsegEv6 isAddrAsm
  rw [h.suppag, h.cur.localVar]
  dsimp only
  generalize a.atfTlbFindValid (pageAddrPage va) (b.cur.localVar .avlASN) = x at hfst hagree
  generalize b.atfTlbFindValid (pageAddrPage va) (b.cur.localVar .avlASN) = y at hfst hagree
  obtain ⟨ent, a'⟩ := x
  obtain ⟨_, b'⟩ := y
  cases hfst
  dsimp only at hagree
  split_ifs
  all_goals try rfl
  all_goals
    cases ent with
    | none => rfl
    | some ent =>
        dsimp only
        rw [hagree.cur.tlb]

end Agrees

end AtfStream

/-! ### Agreement of what a call sees -/

namespace Ctx

variable {c d : Ctx}

theorem agrees_atfTlbTranslate (c : Ctx) (va : Address) (isIstream : Bool) :
    (c.atfTlbTranslate va isIstream).2.ast.Agrees c.ast :=
  .of_touched (c.atfTlbTranslate_touched va isIstream)

theorem cpunum_eq (h : c.ast.Agrees d.ast) : c.cpunum = d.cpunum :=
  congrFun h.globalVar _

theorem asn_eq (h : c.ast.Agrees d.ast) : c.asn = d.asn :=
  congrFun h.cur.localVar _

theorem vpc_eq (h : c.ast.Agrees d.ast) : c.vpc = d.vpc :=
  h.cur.vpc

theorem atfTlbFillEntry_agrees (h : c.ast.Agrees d.ast) (va : Address) (pte : U64)
    (ent : Fin tlbAssoc) :
    (c.atfTlbFillEntry va pte ent).ast.Agrees (d.atfTlbFillEntry va pte ent).ast := by
  change (c.ast.setCur fun cpu => { cpu with
      tlb := Function.update cpu.tlb ent ⟨pageAddrPage va, c.asn, pte, ptePpage pte⟩ }).Agrees
    (d.ast.setCur fun cpu => { cpu with
      tlb := Function.update cpu.tlb ent ⟨pageAddrPage va, d.asn, pte, ptePpage pte⟩ })
  rw [asn_eq h]
  refine h.setCur fun x y hxy => ?_
  exact ⟨hxy.vpc, hxy.localVar, congrArg (Function.update · _ _) hxy.tlb⟩

end Ctx

end AsimFeeder.Atf
