/-
The last two translations, and whether they are still right.

A translation is kept with the CPU number, the page and the address space number that it
was made for, and with nothing else.  What it stands for also depends on the stream, on
whether it was made for PAL code, on the superpage variables and on the entries of the
CPU.  It stays right as long as none of these is changed under it.

`Maker` is for the statement only: it says for which stream, and whether for PAL code, a
translation was made.
-/
import AsimFeeder.Lib.Runs
import AsimFeeder.Atf.Agreement

namespace AsimFeeder.Atf

open Lib

local instance neZeroCpuMax : NeZero cpuMax := ⟨by decide⟩
local instance neZeroStreamsMax : NeZero streamsMax := ⟨by decide⟩

theorem pageAddrPage_idem (va : Address) : pageAddrPage (pageAddrPage va) = pageAddrPage va := by
  unfold pageAddrPage
  rw [BitVec.and_assoc, BitVec.and_self]

/-- No page is the one that the kept translations start with. -/
theorem pageAddrPage_ne (va : Address) : pageAddrPage va ≠ ~~~0 := by
  intro h
  have hbit := congrArg (BitVec.getLsbD · 0) h
  unfold pageAddrPage mask pageSizeLog2 at hbit
  simp at hbit

/-! ### The translation that is not kept -/

namespace AtfStream

variable (ast : AtfStream) (va : Address)

/-- The first matching entry, if it is valid. -/
def tlbValid : Option (Fin tlbAssoc) :=
  (ast.tlbMatch va (ast.cur.localVar .avlASN)).filter fun ent => (ast.cur.tlb ent).pte &&& 1 ≠ 0

/-- The physical page of `va` and its granularity hint, but for PAL code. -/
def page : Address × Nat :=
  let vpage := pageAddrPage va
  if ast.isAddrDirect then (vpage, 0)
  else if ast.isAddrSpEv5 vpage then (vpage &&& mask 30, 0)
  else if ast.isAddrSpEv6 vpage then (vpage &&& mask 30, 0)
  else if ast.isAddrKsegEv5 vpage then (vpage &&& mask 40, 0)
  else if ast.isAddrKsegEv6 vpage then
    (if vpage &&& (1 <<< 40) ≠ 0 then (vpage &&& mask 46) ||| ~~~(mask 40)
      else vpage &&& mask 46, 0)
  else if ast.isAddrAsm then (vpage, 0)
  else
    match ast.tlbValid vpage with
    | some ent => ((ast.cur.tlb ent).ppage, ptePageHint (ast.cur.tlb ent).pte)
    | none => (vpage, 0)

/-- **What a translation is**, whatever was translated before. -/
def uncached (isIstream : Bool) : Address :=
  if isIstream && isPal va then pageAddrPage va ||| pageAddrOffset (va &&& ~~~3)
  else pageAddress (ast.page va).1 (ast.page va).2 va

theorem atfTlbFindValid_eq (asn : U64) (hasn : ast.cur.localVar .avlASN = asn) :
    (ast.atfTlbFindValid va asn).1 = ast.tlbValid va ∧
      (ast.atfTlbFindValid va asn).2.cur.tlb = ast.cur.tlb := by
  have htouch (ent : Fin tlbAssoc) : (ast.touch ent).cur.tlb = ast.cur.tlb := by
    unfold touch setCur cur
    dsimp only
    rw [Function.update_self]
  unfold atfTlbFindValid atfTlbFind tlbValid
  rw [hasn]
  cases ast.tlbMatch va asn with
  | none => exact ⟨rfl, rfl⟩
  | some ent =>
      dsimp only
      rw [htouch, Option.filter_some]
      refine ⟨?_, rfl⟩
      by_cases hvalid : (ast.cur.tlb ent).pte &&& 1 ≠ 0
      · rw [if_pos hvalid, if_pos (decide_eq_true hvalid)]
      · rw [if_neg hvalid, if_neg (by rwa [decide_eq_true_eq])]

/-- **A new translation** is the one of the page. -/
theorem tlbWalk_page (isIstream : Bool) (hpal : (isIstream && isPal va) = false) :
    ((ast.tlbWalk va isIstream).1.1, (ast.tlbWalk va isIstream).1.2.1) = ast.page va ∧
      (ast.tlbWalk va isIstream).1.1 ||| (ast.tlbWalk va isIstream).1.2.2 =
        ast.uncached va isIstream := by
  obtain ⟨hfind, htlb⟩ := ast.atfTlbFindValid_eq (pageAddrPage va) _ rfl
  unfold uncached tlbWalk page
  rw [hpal, if_neg Bool.false_ne_true, if_neg Bool.false_ne_true]
  dsimp only
  generalize ast.atfTlbFindValid (pageAddrPage va) (ast.cur.localVar .avlASN) = x at hfind htlb
  obtain ⟨ent, ast'⟩ := x
  dsimp only at hfind htlb
  subst hfind
  split_ifs
  all_goals try exact ⟨rfl, rfl⟩
  cases ast.tlbValid (pageAddrPage va) with
  | none => exact ⟨rfl, rfl⟩
  | some ent =>
      dsimp only
      rw [htlb]
      exact ⟨rfl, (pageAddress_hint _ _ _).symm⟩

theorem tlbWalk_pal (isIstream : Bool) (hpal : (isIstream && isPal va) = true) :
    ast.tlbWalk va isIstream = ((pageAddrPage va, 0, pageAddrOffset (va &&& ~~~3)), ast) := by
  unfold tlbWalk
  rw [hpal]
  rfl

theorem tlbWalk_uncached (isIstream : Bool) :
    (ast.tlbWalk va isIstream).1.1 ||| (ast.tlbWalk va isIstream).1.2.2 =
      ast.uncached va isIstream := by
  rcases Bool.eq_false_or_eq_true (isIstream && isPal va) with hpal | hpal
  · rw [ast.tlbWalk_pal va isIstream hpal]
    unfold uncached
    rw [if_pos hpal]
  · exact (ast.tlbWalk_page va isIstream hpal).2

theorem page_pageAddrPage : ast.page (pageAddrPage va) = ast.page va := by
  unfold page
  rw [pageAddrPage_idem]

theorem Agrees.page {a b : AtfStream} (h : a.Agrees b) : a.page va = b.page va := by
  rw [← (a.tlbWalk_page va false rfl).1, ← (b.tlbWalk_page va false rfl).1, h.tlbWalk_fst]

/-- The stream as CPU `cpu` has it in address space `asn`. -/
def view (cpu asn : U64) : AtfStream :=
  { ast with cpuPtr := Fin.ofNat cpuMax cpu.toNat }.setCur fun c =>
    { c with localVar := Function.update c.localVar .avlASN asn }

theorem view_self (hcpu : ast.globalVar .avgCPU = BitVec.ofNat 64 ast.cpuPtr.val) :
    ast.view (ast.globalVar .avgCPU) (ast.cur.localVar .avlASN) = ast := by
  have hptr : Fin.ofNat cpuMax (ast.globalVar .avgCPU).toNat = ast.cpuPtr := by
    apply Fin.ext
    have hlt := ast.cpuPtr.isLt
    rw [hcpu, Fin.val_ofNat, BitVec.toNat_ofNat]
    unfold cpuMax at *
    omega
  unfold view
  rw [hptr]
  unfold setCur cur
  dsimp only
  rw [Function.update_eq_self, Function.update_eq_self]

theorem Agrees.view {a b : AtfStream} (h : a.Agrees b) (cpu asn : U64) :
    (a.view cpu asn).Agrees (b.view cpu asn) := by
  unfold AtfStream.view
  have hat : AtfStream.Agrees { a with cpuPtr := Fin.ofNat cpuMax cpu.toNat }
      { b with cpuPtr := Fin.ofNat cpuMax cpu.toNat } := ⟨rfl, h.globalVar, h.cpu⟩
  refine hat.setCur fun x y hxy => ?_
  exact ⟨hxy.vpc, congrArg (Function.update · _ _) hxy.localVar, hxy.tlb⟩

end AtfStream

/-! ### Streams with their last translations -/

/-- For which stream, and whether for PAL code. -/
structure Maker where
  streamId : Fin streamsMax
  pal : Bool
  deriving DecidableEq

structure LastPages where
  ast : Fin streamsMax → AtfStream
  sh : Statics
  maker : Maker
  maker2 : Maker

inductive TlbEvent
  | setVariable (streamId : Fin streamsMax) (varnum : AtfVariable) (value : U64)
  | writePte (streamId : Fin streamsMax) (va : Address) (pte : U64)
  | readPte (streamId : Fin streamsMax) (va : Address) (pte : U64) (ent : Fin tlbAssoc)
  | translate (streamId : Fin streamsMax) (va : Address) (isIstream : Bool)

namespace LastPages

/-- `ATF_init`. -/
def init : LastPages := ⟨fun _ => .zero, .fresh, ⟨⟨0, by decide⟩, false⟩, ⟨⟨0, by decide⟩, false⟩⟩

variable (s : LastPages) (streamId : Fin streamsMax) (va : Address)

def ctx : Ctx := ⟨s.ast streamId, s.sh⟩

def put (c : Ctx) : LastPages :=
  { s with ast := Function.update s.ast streamId c.ast, sh := c.sh }

/-- This translation is used for `va`. -/
def uses (l : LastPage) : Bool :=
  l.isFor (s.ctx streamId).cpunum (pageAddrPage va) (s.ctx streamId).asn

/-- The first of the last two translations that is used, if there is one. -/
def used : Option (LastPage × Maker) :=
  if s.uses streamId va s.sh.last then some (s.sh.last, s.maker)
  else if s.uses streamId va s.sh.last2 then some (s.sh.last2, s.maker2)
  else none

def translate (isIstream : Bool) : Address × LastPages :=
  let (pa, c) := (s.ctx streamId).atfTlbTranslate va isIstream
  if (s.used streamId va).isSome then (pa, s.put streamId c)
  else
    (pa, { s.put streamId c with maker := ⟨streamId, isIstream && isPal va⟩, maker2 := s.maker })

/-- An entry was filled, and a translation that was kept for its page with it. -/
def filled (c : Ctx) : LastPages :=
  if s.uses streamId va s.sh.last2 then { s.put streamId c with maker2 := ⟨streamId, false⟩ }
  else if s.uses streamId va s.sh.last then { s.put streamId c with maker := ⟨streamId, false⟩ }
  else s.put streamId c

def exec : TlbEvent → Option LastPages
  | .setVariable streamId varnum value =>
      match (s.ast streamId).atfSetVariable varnum value with
      | .error _ => none
      | .ok ast => some (s.put streamId ⟨ast, s.sh⟩)
  | .writePte streamId va pte =>
      let (ent, c) := (s.ctx streamId).atfTlbFill va pte
      some (if ent.isSome then s.filled streamId va c else s.put streamId c)
  | .readPte streamId va pte ent =>
      some (s.filled streamId va ((s.ctx streamId).atfTlbFillEntry va pte ent))
  | .translate streamId va isIstream => some (s.translate streamId va isIstream).2

/-! ### When a translation stays right -/

/-- Where a kept translation would be if it were made now. -/
def pageNow (ast : AtfStream) (l : LastPage) : Address × Nat := (ast.view l.cpu l.asn).page l.vpage

/-- A change of this stream leaves a kept translation as it is. -/
def keeps (ast : AtfStream) (l : LastPage) (m : Maker) : Bool :=
  m.streamId != streamId || m.pal || l.vpage == ~~~0 ||
    pageNow ast l == pageNow (s.ast streamId) l

/-- The entry that is filled is the one for the translations kept for its page. -/
def fills (pte : U64) (c : Ctx) : Bool :=
  (if s.uses streamId va s.sh.last2 then
    pageNow c.ast s.sh.last2 == (ptePpage pte, ptePageHint pte)
  else s.keeps streamId c.ast s.sh.last2 s.maker2) &&
  (if s.uses streamId va s.sh.last && !s.uses streamId va s.sh.last2 then
    pageNow c.ast s.sh.last == (ptePpage pte, ptePageHint pte)
  else s.keeps streamId c.ast s.sh.last s.maker)

/-- A kept translation is used for what it was made for, or would be the same. -/
def agrees (l : LastPage) (m : Maker) : Bool :=
  if m.pal then (s.ast streamId).page va == (pageAddrPage va, 0)
  else m.streamId == streamId || (s.ast streamId).page va == pageNow (s.ast m.streamId) l

/-- Nothing is changed under a translation that is kept, and none is used for PAL code. -/
def careful : TlbEvent → Bool
  | .setVariable streamId varnum value =>
      match (s.ast streamId).atfSetVariable varnum value with
      | .error _ => true
      | .ok ast =>
          s.keeps streamId ast s.sh.last s.maker && s.keeps streamId ast s.sh.last2 s.maker2
  | .writePte streamId va pte =>
      let (ent, c) := (s.ctx streamId).atfTlbFill va pte
      ent.isNone || s.fills streamId va pte c
  | .readPte streamId va pte ent =>
      s.fills streamId va pte ((s.ctx streamId).atfTlbFillEntry va pte ent)
  | .translate streamId va isIstream =>
      (s.used streamId va).all fun (l, m) => !(isIstream && isPal va) && s.agrees streamId va l m

def Start (s : LastPages) : Prop := s = init

def Step (ok : LastPages → TlbEvent → Bool) (s t : LastPages) : Prop :=
  ∃ e, ok s e = true ∧ s.exec e = some t

/-- The translations that may be made are those that would be made without the last two. -/
def Transparent (ok : LastPages → TlbEvent → Bool) (s : LastPages) : Prop :=
  ∀ streamId va isIstream, ok s (.translate streamId va isIstream) = true →
    ((s.ctx streamId).atfTlbTranslate va isIstream).1 = (s.ast streamId).uncached va isIstream

/-! ### What careful steps preserve -/

/-- A kept translation is right for what it was made for. -/
def Right (l : LastPage) (m : Maker) : Prop :=
  l.vpage = ~~~0 ∨
    (l.ppage, l.gh) = if m.pal then (l.vpage, 0) else pageNow (s.ast m.streamId) l

structure Sound : Prop where
  cpunum : ∀ i, (s.ast i).globalVar .avgCPU = BitVec.ofNat 64 (s.ast i).cpuPtr.val
  last : s.Right s.sh.last s.maker
  last2 : s.Right s.sh.last2 s.maker2

variable {s : LastPages} {streamId : Fin streamsMax} {va : Address} {l : LastPage} {m : Maker}
  {c : Ctx}

theorem sound_init : init.Sound where
  cpunum := fun _ => rfl
  last := .inl rfl
  last2 := .inl rfl

theorem pageNow_congr {a b : AtfStream} (h : a.Agrees b) (l : LastPage) :
    pageNow a l = pageNow b l := (h.view l.cpu l.asn).page l.vpage

/-- A change that leaves a kept translation as it is. -/
theorem Right.put (h : s.Right l m) (hkeeps : s.keeps streamId c.ast l m = true) :
    (s.put streamId c).Right l m := by
  rcases h with hunused | hpage
  · exact .inl hunused
  · unfold keeps at hkeeps
    simp only [Bool.or_eq_true, bne_iff_ne, beq_iff_eq] at hkeeps
    rcases hkeeps with ((hother | hpal) | hunused) | hsame
    · refine .inr ?_
      show _ = if m.pal then _ else pageNow (Function.update s.ast streamId c.ast m.streamId) l
      rw [Function.update_of_ne hother]
      exact hpage
    · refine .inr ?_
      rw [if_pos hpal] at hpage ⊢
      exact hpage
    · exact .inl hunused
    · refine .inr ?_
      show _ = if m.pal then _ else pageNow (Function.update s.ast streamId c.ast m.streamId) l
      by_cases hother : m.streamId = streamId
      · rw [hother] at hpage ⊢
        rw [Function.update_self, hsame]
        exact hpage
      · rw [Function.update_of_ne hother]
        exact hpage

/-- Which entries were read last does not matter. -/
theorem keeps_of_agrees (h : c.ast.Agrees (s.ast streamId)) (l : LastPage) (m : Maker) :
    s.keeps streamId c.ast l m = true := by
  unfold keeps
  rw [pageNow_congr h, beq_self_eq_true, Bool.or_true]

theorem cpunum_put (h : s.Sound)
    (hcpu : c.ast.globalVar .avgCPU = BitVec.ofNat 64 c.ast.cpuPtr.val) :
    ∀ i, ((s.put streamId c).ast i).globalVar .avgCPU =
      BitVec.ofNat 64 ((s.put streamId c).ast i).cpuPtr.val := by
  intro i
  show (Function.update s.ast streamId c.ast i).globalVar .avgCPU = _
  unfold put
  dsimp only
  by_cases hi : i = streamId
  · rw [hi, Function.update_self]
    exact hcpu
  · rw [Function.update_of_ne hi]
    exact h.cpunum i

/-- A kept translation that is used is for this page, CPU and address space. -/
theorem uses_eq (h : s.uses streamId va l = true) :
    l.cpu = (s.ast streamId).globalVar .avgCPU ∧ l.vpage = pageAddrPage va ∧
      l.asn = (s.ast streamId).cur.localVar .avlASN := by
  unfold uses LastPage.isFor at h
  simp only [Bool.and_eq_true, decide_eq_true_eq] at h
  exact ⟨h.1.1, h.1.2, h.2⟩

theorem pageNow_of_uses (h : s.Sound) (huses : s.uses streamId va l = true) :
    pageNow (s.ast streamId) l = (s.ast streamId).page va := by
  obtain ⟨hcpu, hpage, hasn⟩ := uses_eq huses
  unfold pageNow
  rw [hcpu, hpage, hasn, AtfStream.view_self _ (h.cpunum streamId), AtfStream.page_pageAddrPage]

/-- **A kept translation that is used carefully** gives the address. -/
theorem Right.address (h : s.Sound) (hl : s.Right l m) (huses : s.uses streamId va l = true)
    {isIstream : Bool} (hpal : (isIstream && isPal va) = false)
    (hagrees : s.agrees streamId va l m = true) :
    l.address va = (s.ast streamId).uncached va isIstream := by
  obtain ⟨-, hpage, -⟩ := uses_eq huses
  have hnow : (l.ppage, l.gh) = (s.ast streamId).page va := by
    rcases hl with hunused | hright
    · exact absurd (hpage.symm.trans hunused) (pageAddrPage_ne va)
    · rw [hright]
      unfold agrees at hagrees
      cases hm : m.pal with
      | true =>
          rw [hm, if_pos rfl, beq_iff_eq] at hagrees
          rw [if_pos rfl, hagrees, hpage]
      | false =>
          rw [hm, if_neg Bool.false_ne_true, Bool.or_eq_true, beq_iff_eq, beq_iff_eq] at hagrees
          rw [if_neg Bool.false_ne_true]
          rcases hagrees with hsame | hequal
          · rw [hsame]
            exact pageNow_of_uses h huses
          · exact hequal.symm
  unfold LastPage.address AtfStream.uncached
  rw [hpal, if_neg Bool.false_ne_true, ← hnow]

/-! ### Translating -/

theorem used_some (h : s.used streamId va = some (l, m)) :
    (s.uses streamId va s.sh.last = true ∧ l = s.sh.last ∧ m = s.maker) ∨
      (s.uses streamId va s.sh.last = false ∧ s.uses streamId va s.sh.last2 = true ∧
        l = s.sh.last2 ∧ m = s.maker2) := by
  unfold used at h
  split at h
  · rename_i huses
    cases h
    exact .inl ⟨huses, rfl, rfl⟩
  · rename_i hnot
    split at h
    · rename_i huses
      cases h
      exact .inr ⟨by simpa using hnot, huses, rfl, rfl⟩
    · cases h

theorem used_none (h : s.used streamId va = none) :
    s.uses streamId va s.sh.last = false ∧ s.uses streamId va s.sh.last2 = false := by
  unfold used at h
  split at h
  · cases h
  · rename_i hnot
    split at h
    · cases h
    · rename_i hnot2
      exact ⟨by simpa using hnot, by simpa using hnot2⟩

/-- A translation that is kept is used as it is. -/
theorem atfTlbTranslate_used (isIstream : Bool) (h : s.used streamId va = some (l, m)) :
    (s.ctx streamId).atfTlbTranslate va isIstream = (l.address va, s.ctx streamId) := by
  unfold Ctx.atfTlbTranslate
  dsimp only
  rcases used_some h with ⟨huses, rfl, -⟩ | ⟨hnot, huses, rfl, -⟩
  · exact if_pos huses
  · exact (if_neg (Bool.eq_false_iff.mp hnot)).trans (if_pos huses)

theorem atfTlbTranslate_unused (isIstream : Bool) (h : s.used streamId va = none) :
    (s.ctx streamId).atfTlbTranslate va isIstream =
      (((s.ast streamId).tlbWalk va isIstream).1.1 |||
          ((s.ast streamId).tlbWalk va isIstream).1.2.2,
        ⟨((s.ast streamId).tlbWalk va isIstream).2, { s.sh with
          last2 := s.sh.last
          last := ⟨(s.ctx streamId).cpunum, pageAddrPage va, (s.ctx streamId).asn,
            ((s.ast streamId).tlbWalk va isIstream).1.1,
            ((s.ast streamId).tlbWalk va isIstream).1.2.1⟩ }⟩) := by
  obtain ⟨hnot, hnot2⟩ := used_none h
  unfold Ctx.atfTlbTranslate
  dsimp only
  exact (if_neg (Bool.eq_false_iff.mp hnot)).trans (if_neg (Bool.eq_false_iff.mp hnot2))

/-- **A careful translation** is the one that would be made without the last two. -/
theorem Sound.transparent (h : s.Sound) : s.Transparent careful := by
  intro streamId va isIstream hok
  cases hused : s.used streamId va with
  | none =>
      rw [atfTlbTranslate_unused isIstream hused]
      exact (s.ast streamId).tlbWalk_uncached va isIstream
  | some p =>
      obtain ⟨l, m⟩ := p
      rw [atfTlbTranslate_used isIstream hused]
      have hcareful : (s.used streamId va).all (fun (l, m) =>
          !(isIstream && isPal va) && s.agrees streamId va l m) = true := hok
      rw [hused, Option.all_some, Bool.and_eq_true, Bool.not_eq_true'] at hcareful
      obtain ⟨hpal, hagrees⟩ := hcareful
      rcases used_some hused with ⟨huses, rfl, rfl⟩ | ⟨-, huses, rfl, rfl⟩
      · exact h.last.address h huses hpal hagrees
      · exact h.last2.address h huses hpal hagrees

theorem put_self (s : LastPages) (streamId : Fin streamsMax) :
    s.put streamId (s.ctx streamId) = s := by
  unfold put ctx
  dsimp only
  rw [Function.update_eq_self]

theorem touched_globalVar {a b : AtfStream} (h : a.Touched b)
    (hcpu : a.globalVar .avgCPU = BitVec.ofNat 64 a.cpuPtr.val) :
    b.globalVar .avgCPU = BitVec.ofNat 64 b.cpuPtr.val := by
  have hagrees := AtfStream.Agrees.of_touched h
  rw [hagrees.globalVar, hagrees.cpuPtr]
  exact hcpu

theorem Sound.translate (h : s.Sound) (streamId : Fin streamsMax) (va : Address)
    (isIstream : Bool) : (s.translate streamId va isIstream).2.Sound := by
  unfold LastPages.translate
  cases hused : s.used streamId va with
  | some p =>
      obtain ⟨l, m⟩ := p
      rw [atfTlbTranslate_used isIstream hused]
      dsimp only
      rw [Option.isSome_some, if_pos rfl, put_self]
      exact h
  | none =>
      have htouched := (s.ast streamId).tlbWalk_touched va isIstream
      have hagrees := AtfStream.Agrees.of_touched htouched
      rw [atfTlbTranslate_unused isIstream hused]
      generalize hc : (⟨((s.ast streamId).tlbWalk va isIstream).2, _⟩ : Ctx) = c
      have hast : c.ast = ((s.ast streamId).tlbWalk va isIstream).2 := by rw [← hc]
      dsimp only
      rw [Option.isSome_none, if_neg Bool.false_ne_true]
      rw [← hast] at hagrees htouched
      exact {
        cpunum := cpunum_put h (touched_globalVar htouched (h.cpunum streamId))
        last := by
          refine .inr ?_
          show (c.sh.last.ppage, c.sh.last.gh) = if isIstream && isPal va then (c.sh.last.vpage, 0)
            else pageNow (Function.update s.ast streamId c.ast streamId) c.sh.last
          rw [Function.update_self, pageNow_congr hagrees]
          rcases Bool.eq_false_or_eq_true (isIstream && isPal va) with hpal | hpal
          · rw [if_pos hpal, ← hc, (s.ast streamId).tlbWalk_pal va isIstream hpal]
          · have huses : s.uses streamId va c.sh.last = true := by
              rw [← hc]
              simp [uses, LastPage.isFor]
            rw [if_neg (Bool.eq_false_iff.mp hpal), pageNow_of_uses h huses,
              ← ((s.ast streamId).tlbWalk_page va isIstream hpal).1, ← hc]
        last2 := by
          have hlast : c.sh.last2 = s.sh.last := by rw [← hc]
          have hright := Right.put h.last (keeps_of_agrees hagrees s.sh.last s.maker)
          show (s.put streamId c).Right c.sh.last2 s.maker
          rw [hlast]
          exact hright }

/-! ### Filling entries -/

/-- What an entry that is filled makes of a translation that was kept for its page. -/
def refill (pte : U64) (l : LastPage) : LastPage :=
  { l with gh := ptePageHint pte, ppage := ptePpage pte }

/-- What filling an entry does to the translations that are kept. -/
def FillsLast (s : LastPages) (streamId : Fin streamsMax) (va : Address) (pte : U64) (c : Ctx) :
    Prop :=
  (c.sh.last, c.sh.last2) =
    if s.uses streamId va s.sh.last2 then (s.sh.last, refill pte s.sh.last2)
    else if s.uses streamId va s.sh.last then (refill pte s.sh.last, s.sh.last2)
    else (s.sh.last, s.sh.last2)

theorem fillsLast_atfTlbFillEntry {d : Ctx} (hsh : d.sh = s.sh)
    (hagrees : d.ast.Agrees (s.ast streamId)) (va : Address) (pte : U64) (ent : Fin tlbAssoc) :
    s.FillsLast streamId va pte (d.atfTlbFillEntry va pte ent) := by
  have hcpu : d.cpunum = (s.ctx streamId).cpunum := Ctx.cpunum_eq hagrees
  have hasn : d.asn = (s.ctx streamId).asn := Ctx.asn_eq hagrees
  unfold FillsLast Ctx.atfTlbFillEntry uses
  dsimp only
  rw [hsh, hcpu, hasn]
  split
  · rfl
  · split
    · rfl
    · rfl

theorem Right.refill {pte : U64} (h : pageNow c.ast l = (ptePpage pte, ptePageHint pte)) :
    (s.put streamId c).Right (LastPages.refill pte l) ⟨streamId, false⟩ := by
  refine .inr ?_
  show (ptePpage pte, ptePageHint pte) =
    pageNow (Function.update s.ast streamId c.ast streamId) (LastPages.refill pte l)
  rw [Function.update_self, ← h]
  rfl

/-- **An entry that is filled carefully** leaves the kept translations right. -/
theorem Sound.filled (h : s.Sound) {pte : U64} (hlast : s.FillsLast streamId va pte c)
    (hcpu : c.ast.globalVar .avgCPU = BitVec.ofNat 64 c.ast.cpuPtr.val)
    (hfills : s.fills streamId va pte c = true) : (s.filled streamId va c).Sound := by
  have hcpunum : ∀ i, ((s.put streamId c).ast i).globalVar .avgCPU =
      BitVec.ofNat 64 ((s.put streamId c).ast i).cpuPtr.val := cpunum_put h hcpu
  unfold FillsLast at hlast
  unfold fills at hfills
  unfold LastPages.filled
  rw [Bool.and_eq_true] at hfills
  obtain ⟨hfills2, hfills1⟩ := hfills
  rcases Bool.eq_false_or_eq_true (s.uses streamId va s.sh.last2) with huses2 | hnot2
  · rw [if_pos huses2, Prod.mk.injEq] at hlast
    rw [if_pos huses2, beq_iff_eq] at hfills2
    rw [huses2, Bool.not_true, Bool.and_false, if_neg Bool.false_ne_true] at hfills1
    rw [if_pos huses2]
    exact {
      cpunum := hcpunum
      last := by
        show (s.put streamId c).Right c.sh.last s.maker
        rw [hlast.1]
        exact h.last.put hfills1
      last2 := by
        show (s.put streamId c).Right c.sh.last2 ⟨streamId, false⟩
        rw [hlast.2]
        exact .refill hfills2 }
  · have hneg2 := Bool.eq_false_iff.mp hnot2
    rw [if_neg hneg2] at hlast hfills2
    rw [hnot2, Bool.not_false, Bool.and_true] at hfills1
    rw [if_neg hneg2]
    have hright2 := h.last2.put hfills2
    rcases Bool.eq_false_or_eq_true (s.uses streamId va s.sh.last) with huses | hnot
    · rw [if_pos huses, Prod.mk.injEq] at hlast
      rw [if_pos huses, beq_iff_eq] at hfills1
      rw [if_pos huses]
      exact {
        cpunum := hcpunum
        last := by
          show (s.put streamId c).Right c.sh.last ⟨streamId, false⟩
          rw [hlast.1]
          exact .refill hfills1
        last2 := by
          show (s.put streamId c).Right c.sh.last2 s.maker2
          rw [hlast.2]
          exact hright2 }
    · have hneg := Bool.eq_false_iff.mp hnot
      rw [if_neg hneg, Prod.mk.injEq] at hlast
      rw [if_neg hneg] at hfills1
      rw [if_neg hneg]
      exact {
        cpunum := hcpunum
        last := by
          show (s.put streamId c).Right c.sh.last s.maker
          rw [hlast.1]
          exact h.last.put hfills1
        last2 := by
          show (s.put streamId c).Right c.sh.last2 s.maker2
          rw [hlast.2]
          exact hright2 }

/-- A stream that only read entries. -/
theorem Sound.touched (h : s.Sound) (hsh : c.sh = s.sh) (hc : (s.ast streamId).Touched c.ast) :
    (s.put streamId c).Sound where
  cpunum := cpunum_put h (touched_globalVar hc (h.cpunum streamId))
  last := by
    show (s.put streamId c).Right c.sh.last s.maker
    rw [hsh]
    exact h.last.put (keeps_of_agrees (.of_touched hc) _ _)
  last2 := by
    show (s.put streamId c).Right c.sh.last2 s.maker2
    rw [hsh]
    exact h.last2.put (keeps_of_agrees (.of_touched hc) _ _)

/-- What `atf_tlb_fill` does is to fill an entry, or to read one. -/
theorem atfTlbFill_cases (s : LastPages) (streamId : Fin streamsMax) (va : Address) (pte : U64) :
    (((s.ctx streamId).atfTlbFill va pte).1 = none ∧
      ((s.ctx streamId).atfTlbFill va pte).2.sh = s.sh ∧
      (s.ast streamId).Touched ((s.ctx streamId).atfTlbFill va pte).2.ast) ∨
    ∃ (ent : Fin tlbAssoc) (d : Ctx), (s.ctx streamId).atfTlbFill va pte =
      (some ent, d.atfTlbFillEntry va pte ent) ∧
      d.sh = s.sh ∧ d.ast.Agrees (s.ast streamId) := by
  have hfind := (s.ast streamId).atfTlbFind_touched (pageAddrPage va) (s.ctx streamId).asn
  unfold Ctx.atfTlbFill
  dsimp only
  split
  · exact .inl ⟨rfl, rfl, .inl rfl⟩
  · show _ ∨ _
    unfold ctx at hfind ⊢
    dsimp only at hfind ⊢
    generalize (s.ast streamId).atfTlbFind (pageAddrPage va) _ = x at hfind
    obtain ⟨ent, ast⟩ := x
    cases ent with
    | some ent =>
        dsimp only
        split
        · exact .inl ⟨rfl, rfl, hfind⟩
        · exact .inr ⟨ent, ⟨ast, s.sh⟩, rfl, rfl, .of_touched hfind⟩
    | none =>
        refine .inr ⟨_, _, rfl, rfl, ?_⟩
        have hnew : ast.atfTlbNew.2.Agrees ast := by
          refine ⟨rfl, rfl, fun i => ?_⟩
          show (Function.update ast.cpu ast.cpuPtr _ i).Agrees (ast.cpu i)
          by_cases hi : i = ast.cpuPtr
          · rw [hi, Function.update_self]
            exact ⟨rfl, rfl, rfl⟩
          · rw [Function.update_of_ne hi]
            exact ⟨rfl, rfl, rfl⟩
        exact hnew.trans (.of_touched hfind)

/-! ### Runs -/

theorem Sound.step (h : s.Sound) {t : LastPages} (hstep : Step careful s t) : t.Sound := by
  obtain ⟨e, hok, hexec⟩ := hstep
  have hagreesCpu {d : AtfStream} {i : Fin streamsMax} (hd : d.Agrees (s.ast i)) :
      d.globalVar .avgCPU = BitVec.ofNat 64 d.cpuPtr.val := by
    rw [hd.globalVar, hd.cpuPtr]
    exact h.cpunum i
  cases e with
  | setVariable streamId varnum value =>
      unfold exec at hexec
      unfold careful at hok
      dsimp only at hexec hok
      cases hset : (s.ast streamId).atfSetVariable varnum value with
      | error f => rw [hset] at hexec; cases hexec
      | ok ast =>
          rw [hset] at hexec hok
          cases hexec
          obtain ⟨hlast, hlast2⟩ := Bool.and_eq_true_iff.mp hok
          refine ⟨cpunum_put h ?_, h.last.put hlast, h.last2.put hlast2⟩
          -- the number and the pointer of the CPU change together
          have hcpu := h.cpunum streamId
          unfold AtfStream.atfSetVariable at hset
          dsimp only at hset
          split at hset
          · cases hset
            exact hcpu
          · split at hset
            · rename_i hvar
              split at hset
              · rename_i hlt
                cases hset
                dsimp only
                rw [hvar, Function.update_self, BitVec.ofNat_toNat, BitVec.setWidth_eq]
              · cases hset
            · rename_i hvar
              cases hset
              dsimp only
              rw [Function.update_of_ne (Ne.symm hvar)]
              exact hcpu
  | writePte streamId va pte =>
      unfold exec at hexec
      unfold careful at hok
      dsimp only at hexec hok
      rw [← Option.some.inj hexec]
      rcases s.atfTlbFill_cases streamId va pte with ⟨hnone, hsh, htouched⟩ | ⟨ent, d, heq, hsh, hd⟩
      · rw [hnone, Option.isSome_none, if_neg Bool.false_ne_true]
        exact h.touched hsh htouched
      · rw [heq] at hok ⊢
        rw [Option.isSome_some, if_pos rfl]
        have hcpu : d.ast.globalVar .avgCPU = BitVec.ofNat 64 d.ast.cpuPtr.val := hagreesCpu hd
        refine h.filled (fillsLast_atfTlbFillEntry hsh hd va pte ent) hcpu ?_
        simpa using hok
  | readPte streamId va pte ent =>
      cases hexec
      exact h.filled (fillsLast_atfTlbFillEntry rfl (.refl _) va pte ent) (h.cpunum streamId) hok
  | translate streamId va isIstream =>
      cases hexec
      exact h.translate streamId va isIstream

/-- **As long as nothing is changed under a translation that is kept, and none is used for
PAL code, the last two translations make no difference.** -/
theorem transparent_of_careful (h : Reaches Start (Step careful) s) : s.Transparent careful := by
  have hsound : s.Sound := by
    refine h.invariant (fun t ht => ?_) fun t u ht hstep => ht.step hstep
    rw [ht]
    exact sound_init
  exact hsound.transparent

/-- A page is mapped and translated, on two CPUs. -/
def mappedRun : List TlbEvent :=
  [.writePte 0 0x4000 0x0000000700000001, .translate 0 0x4008 false, .setVariable 0 .avgCPU 1,
    .translate 0 0x4008 true, .setVariable 0 .avgCPU 0, .translate 0 0x4010 false]

theorem transparent_of_careful_mapped : ∃ s : LastPages,
    Lib.after exec careful mappedRun init = some s ∧ s.Transparent careful := by
  have hrun : (Lib.after exec careful mappedRun init).isSome := by decide +kernel
  obtain ⟨s, hs⟩ := Option.isSome_iff_exists.mp hrun
  have hreaches : Reaches Start (Step careful) s :=
    .after (fun t e u hok hexec => ⟨e, hok, hexec⟩) (.start rfl) hs
  exact ⟨s, hs, transparent_of_careful hreaches⟩

/-- The page is mapped; after the switch to direct addresses it is still translated. -/
def directRun : List TlbEvent :=
  [.writePte 0 0x4000 0x0000000700000001, .translate 0 0x4008 false,
    .setVariable 0 .avlSUPPAG 0x100]

theorem not_transparent_after_switch :
    ¬ ∀ s : LastPages, Reaches Start (Step fun _ _ => true) s → s.Transparent fun _ _ => true := by
  intro hall
  have hrun : (Lib.after exec (fun _ _ => true) directRun init).map (fun s =>
      (((s.ctx 0).atfTlbTranslate 0x4008 false).1, (s.ast 0).uncached 0x4008 false)) =
        some (0xe008, 0x4008) := by
    decide +kernel
  obtain ⟨s, hs, hvalues⟩ := Option.map_eq_some_iff.mp hrun
  obtain ⟨hcached, huncached⟩ := Prod.mk.inj hvalues
  have hreaches : Reaches Start (Step fun _ _ => true) s :=
    .after (fun t e u hok hexec => ⟨e, hok, hexec⟩) (.start rfl) hs
  have hsame := hall s hreaches 0 0x4008 false rfl
  rw [hcached, huncached] at hsame
  exact absurd hsame (by decide)

end LastPages

end AsimFeeder.Atf
