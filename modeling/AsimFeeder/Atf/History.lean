/-
Who wrote what the streams share.

A stream has its file, its variables and its CPUs to itself.  The opcode cache, the last
translations and the last difference of effective addresses are shared by all streams.  The
history says which stream wrote each entry of the cache and the difference last, and it has
the last two translations that each stream made itself.

A pass is fine for its stream if what it reads of these was not written by another one, and
if no translation that was kept is used in place of another.  In a process of its own, a
stream that only makes such passes does the same.
-/
import AsimFeeder.Lib.Interleaving
import AsimFeeder.Atf.InStep

namespace AsimFeeder.Atf

open Lib

/-! ### The last two translations -/

/-- The last two translations. -/
structure Kept where
  last : LastPage
  last2 : LastPage
  deriving DecidableEq, Repr

namespace Ctx

def kept (c : Ctx) : Kept :=
  ⟨c.sh.last, c.sh.last2⟩

/-- The physical page and its granularity hint, by the superpages and the page table. -/
def walkPage (c : Ctx) (va : Address) (isIstream : Bool) : Address × Nat :=
  ((c.ast.tlbWalk va isIstream).1.1, (c.ast.tlbWalk va isIstream).1.2.1)

end Ctx

namespace Kept

variable (k : Kept) (c : Ctx) (va : Address)

/-- The page that was kept for `va`. -/
def find : Option (Address × Nat) :=
  if k.last.isFor c.cpunum (pageAddrPage va) c.asn then some (k.last.ppage, k.last.gh)
  else if k.last2.isFor c.cpunum (pageAddrPage va) c.asn then some (k.last2.ppage, k.last2.gh)
  else none

/-- After a translation of `va`. -/
def translated (isIstream : Bool) : Kept :=
  if (k.find c va).isSome then
    k
  else
    let (ppage, gh) := c.walkPage va isIstream
    ⟨⟨c.cpunum, pageAddrPage va, c.asn, ppage, gh⟩, k.last⟩

/-- After the page table entry of the page of `va` was read. -/
def filled (pte : U64) : Kept :=
  let fill (l : LastPage) : LastPage := { l with gh := ptePageHint pte, ppage := ptePpage pte }
  if k.last2.isFor c.cpunum (pageAddrPage va) c.asn then { k with last2 := fill k.last2 }
  else if k.last.isFor c.cpunum (pageAddrPage va) c.asn then { k with last := fill k.last }
  else k

/--
A stream whose own last two translations are `k` may translate `va`: what was kept for it is
what the stream kept itself, or both are what the page table gives.
-/
def current (isIstream : Bool) : Bool :=
  k.find c va = c.kept.find c va ||
    ((k.find c va).all (· = c.walkPage va isIstream) &&
      (c.kept.find c va).all (· = c.walkPage va isIstream))

end Kept

namespace Ctx

variable {c d : Ctx} {k : Kept} {va : Address} {isIstream : Bool}

theorem tlbPage_eq (c : Ctx) (va : Address) (isIstream : Bool) :
    c.tlbPage va isIstream = (c.kept.find c va).getD (c.walkPage va isIstream) := by
  unfold tlbPage Kept.find kept
  dsimp only
  split_ifs <;> rfl

theorem kept_atfTlbTranslate (c : Ctx) (va : Address) (isIstream : Bool) :
    (c.atfTlbTranslate va isIstream).2.kept = c.kept.translated c va isIstream := by
  unfold Ctx.atfTlbTranslate Kept.translated Kept.find kept
  dsimp only
  split_ifs <;> first | rfl | contradiction

theorem kept_atfTlbFillEntry (c : Ctx) (va : Address) (pte : U64) (ent : Fin tlbAssoc) :
    (c.atfTlbFillEntry va pte ent).kept = c.kept.filled c va pte := by
  unfold atfTlbFillEntry Kept.filled kept
  dsimp only
  split_ifs <;> rfl

theorem walkPage_eq (h : c.ast.Agrees d.ast) (va : Address) (isIstream : Bool) :
    c.walkPage va isIstream = d.walkPage va isIstream :=
  congrArg (fun w => (w.1, w.2.1)) (h.tlbWalk_fst va isIstream)

theorem find_eq (h : c.ast.Agrees d.ast) (k : Kept) (va : Address) : k.find c va = k.find d va := by
  unfold Kept.find
  rw [cpunum_eq h, asn_eq h]

theorem translated_eq (h : c.ast.Agrees d.ast) (k : Kept) (va : Address) (isIstream : Bool) :
    k.translated c va isIstream = k.translated d va isIstream := by
  unfold Kept.translated
  rw [find_eq h, walkPage_eq h, cpunum_eq h, asn_eq h]

theorem filled_eq (h : c.ast.Agrees d.ast) (k : Kept) (va : Address) (pte : U64) :
    k.filled c va pte = k.filled d va pte := by
  unfold Kept.filled
  rw [cpunum_eq h, asn_eq h]

/-- A stream that may translate an address finds the same page in its own process. -/
theorem tlbPage_eq_of_current (h : c.ast.Agrees d.ast) (hkept : d.kept = k)
    (hcurrent : k.current c va isIstream = true) :
    c.tlbPage va isIstream = d.tlbPage va isIstream := by
  have hwalk := walkPage_eq h va isIstream
  rw [tlbPage_eq, tlbPage_eq, hkept, ← find_eq h, ← hwalk]
  unfold Kept.current at hcurrent
  simp only [Bool.or_eq_true, Bool.and_eq_true, decide_eq_true_eq] at hcurrent
  rcases hcurrent with hsame | ⟨hown, hshared⟩
  · rw [hsame]
  · have hgetD {o : Option (Address × Nat)} {p : Address × Nat}
        (ho : o.all (· = p) = true) : o.getD p = p := by
      cases o with
      | none => rfl
      | some q => exact of_decide_eq_true ho
    rw [hgetD hown, hgetD hshared]

end Ctx

/-! ### The history -/

structure History where
  /-- The stream that wrote each entry of the opcode cache last. -/
  entry : Address → Option (Fin streamsMax)
  /-- The stream that read the last difference of effective addresses. -/
  eaDelta : Option (Fin streamsMax)
  /-- The last two translations that each stream made itself. -/
  kept : Fin streamsMax → Kept
  /-- The threads that are idle, by the records of each stream. -/
  idle : Fin streamsMax → Int

/-- What an instruction is executed by. -/
inductive Fetch
  | seq
  | eaRel
  | eaLast
  | eaExact
  | new
  deriving DecidableEq, Repr

/-- A token that executes an instruction. -/
def tokenFetch (token : Byte) : Option Fetch :=
  if token &&& 0xe0 = 0x80 then none
  else if token &&& 0xc0 = 0x00 then none
  else if token &&& 0xc0 = 0x40 then some .eaRel
  else
    match token with
    | 0xe7 => some .eaLast
    | 0xe2 => some .eaRel
    | 0xe3 => some .eaExact
    | 0xe4 | 0xe5 | 0xe6 => some .new
    | _ => none

namespace History

/-- Nothing was read yet. -/
def start : History where
  entry _ := none
  eaDelta := none
  kept _ := ⟨Statics.fresh.last, Statics.fresh.last2⟩
  idle _ := 0

variable (h : History) (streamId : Fin streamsMax) (c : Ctx)

/-- The stream itself wrote it last, or nobody did. -/
def isOwn : Option (Fin streamsMax) → Bool
  | none => true
  | some writer => writer = streamId

def translated (va : Address) (isIstream : Bool) : History :=
  { h with
    kept := Function.update h.kept streamId ((h.kept streamId).translated c va isIstream) }

def filled (va : Address) (pte : U64) : History :=
  { h with kept := Function.update h.kept streamId ((h.kept streamId).filled c va pte) }

/-- The instruction at the pc may be executed. -/
def fetchFine (f : Fetch) : Bool :=
  (h.kept streamId).current c c.vpc true &&
    (f = .new || isOwn streamId (h.entry c.place)) &&
    (f ≠ .eaLast || isOwn streamId h.eaDelta)

/-- The instruction at the pc was executed; in a sequence its entry is only read. -/
def fetched (f : Fetch) : History :=
  { h.translated streamId c c.vpc true with
    entry :=
      match f with
      | .seq => h.entry
      | _ => Function.update h.entry c.place (some streamId)
    eaDelta :=
      match f with
      | .eaRel => some streamId
      | _ => h.eaDelta }

def tokenNote (token : Byte) : History :=
  match tokenFetch token with
  | some f => h.fetched streamId c f
  | none =>
      match token with
      | 0xeb =>
          let (delta, c) := c.get getQw
          let (pte, c) := c.get getQw
          h.filled streamId c (pageAddrPage delta) pte
      | _ => h

/-- The next pass of `ATF_read_action` may be made. -/
def readFine : Bool :=
  if c.ast.instrLeft ≠ 0 then
    h.fetchFine streamId c .seq
  else if c.ast.isDumping then
    true
  else
    (c.ast.fp.head?.bind tokenFetch).all (h.fetchFine streamId c)

/-- The next pass of `ATF_read_action` was made. -/
def readNote : History :=
  if c.ast.instrLeft ≠ 0 then
    h.fetched streamId c .seq
  else if c.ast.isDumping then
    h
  else
    match c.ast.fp with
    | [] => h
    | token :: fp => h.tokenNote streamId (c.setFp fp) token

end History

/-! ### The file does not matter -/

/-- Two states in which the same instruction is found. -/
structure Ctx.Beside (c d : Ctx) : Prop where
  agrees : c.ast.Agrees d.ast
  kept : c.kept = d.kept

namespace Ctx.Beside

variable {c d : Ctx} (hb : c.Beside d)
include hb

theorem setFp (fp : List Byte) : c.Beside (d.setFp fp) :=
  ⟨⟨hb.agrees.cpuPtr, hb.agrees.globalVar, hb.agrees.cpu⟩, hb.kept⟩

theorem setEaDelta (delta : U64) : c.Beside (d.setEaDelta delta) :=
  ⟨⟨hb.agrees.cpuPtr, hb.agrees.globalVar, hb.agrees.cpu⟩, hb.kept⟩

theorem instrLeft (f : Nat → Nat) :
    c.Beside (d.onAst fun ast => { ast with instrLeft := f ast.instrLeft }) :=
  ⟨⟨hb.agrees.cpuPtr, hb.agrees.globalVar, hb.agrees.cpu⟩, hb.kept⟩

theorem place : c.place = d.place := by
  have hlast := congrArg Kept.last hb.kept
  have hlast2 := congrArg Kept.last2 hb.kept
  unfold Ctx.place
  rw [vpc_eq hb.agrees, atfTlbTranslate_fst_eq hb.agrees hlast hlast2]

theorem fetchFine (h : History) (streamId : Fin streamsMax) (f : Fetch) :
    h.fetchFine streamId c f = h.fetchFine streamId d f := by
  unfold History.fetchFine Kept.current
  rw [hb.place, vpc_eq hb.agrees, walkPage_eq hb.agrees, find_eq hb.agrees, find_eq hb.agrees,
    hb.kept]

theorem fetched (h : History) (streamId : Fin streamsMax) (f : Fetch) :
    h.fetched streamId c f = h.fetched streamId d f := by
  unfold History.fetched History.translated
  rw [hb.place, vpc_eq hb.agrees, translated_eq hb.agrees]

theorem filled (h : History) (streamId : Fin streamsMax) (va : Address) (pte : U64) :
    h.filled streamId c va pte = h.filled streamId d va pte := by
  unfold History.filled
  rw [filled_eq hb.agrees]

end Ctx.Beside

theorem Ctx.Beside.refl (c : Ctx) : c.Beside c :=
  ⟨.refl _, rfl⟩

end AsimFeeder.Atf
