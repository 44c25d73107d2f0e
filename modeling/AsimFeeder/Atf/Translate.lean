/-
Address translation, and where the opcode of an instruction is cached.

A translation is kept with the CPU, the page and the address space number it was made for,
and is not made again while it is one of the last two.  It is made by the superpage
variables of the CPU, or else by its page table entries; and an instruction address with
its low bit set is PAL code, which is not mapped.
-/
import AsimFeeder.Atf.Stream

namespace AsimFeeder.Atf

def pageSizeLog2 : Nat := 13

/-- `MASK`: a mask with all bits less than the given one set. -/
def mask (bit : Nat) : U64 :=
  (1 <<< bit) - 1

def pageAddrOffset (adr : Address) : Address :=
  adr &&& mask pageSizeLog2

def pageAddrPage (adr : Address) : Address :=
  adr &&& ~~~(mask pageSizeLog2)

def isPal (va : Address) : Bool :=
  va &&& 1 ≠ 0

/-- The granularity hint of a page table entry. -/
def ptePageHint (pte : U64) : Nat :=
  ((pte >>> 5) &&& 3).toNat

/-- The physical page of a page table entry. -/
def ptePpage (pte : U64) : Address :=
  if ptePageHint pte = 0 then
    pageAddrPage (pte >>> (32 - pageSizeLog2))
  else
    ((pte >>> 32) &&& ~~~(mask (ptePageHint pte * 3))) <<< pageSizeLog2

/-- The address of `va` in the physical page `ppage`. -/
def pageAddress (ppage : Address) (gh : Nat) (va : Address) : Address :=
  ppage ||| if gh ≠ 0 then va &&& mask (pageSizeLog2 + gh * 3) else pageAddrOffset va

theorem pageAddress_hint (ppage : Address) (gh : Nat) (va : Address) :
    pageAddress ppage gh va = ppage ||| (va &&& mask (pageSizeLog2 + gh * 3)) := by
  unfold pageAddress
  by_cases hgh : gh = 0
  · rw [hgh]
    rfl
  · rw [if_pos hgh]

/-- The low bits of the address do not matter above them. -/
theorem pageAddress_clear (ppage : Address) (gh : Nat) (va : Address) :
    pageAddress ppage gh (va &&& ~~~3) &&& ~~~3 = pageAddress ppage gh va &&& ~~~3 := by
  have hclear (m : U64) : ((va &&& ~~~3) &&& m) &&& ~~~3 = (va &&& m) &&& ~~~3 := by grind
  rw [pageAddress_hint, pageAddress_hint, BitVec.and_or_distrib_right,
    BitVec.and_or_distrib_right, hclear]

namespace AtfStream

variable (ast : AtfStream) (va : Address)

/-! ### Superpages -/

def suppag : U64 :=
  ast.cur.localVar .avlSUPPAG

def isAddrDirect : Bool :=
  ast.suppag &&& 0x100 ≠ 0

def isAddrSpEv5 : Bool :=
  ast.suppag &&& 1 ≠ 0 && (va >>> 30) &&& 0x1fff = 0x1ffe

def isAddrSpEv6 : Bool :=
  ast.suppag &&& 2 ≠ 0 && (va >>> 30) &&& 0x3ffff = 0x3fffe

def isAddrKsegEv5 : Bool :=
  ast.suppag &&& 4 ≠ 0 && (va >>> 41) &&& 3 = 2

def isAddrKsegEv6 : Bool :=
  ast.suppag &&& 8 ≠ 0 && (va >>> 46) &&& 3 = 2

def isAddrAsm : Bool :=
  ast.cur.localVar .avlASM ≠ 0

def isAddrSuppag : Bool :=
  ast.isAddrDirect || ast.isAddrSpEv5 va || ast.isAddrSpEv6 va || ast.isAddrKsegEv5 va ||
    ast.isAddrKsegEv6 va || ast.isAddrAsm

/-! ### The page table entries -/

/-- The first entry that matches the page of `va`. -/
def tlbMatch (asn : U64) : Option (Fin tlbAssoc) :=
  (List.finRange tlbAssoc).find? fun ent =>
    let e := ast.cur.tlb ent
    e.vpage = pageAddrPage va && (e.asn = asn || e.pte &&& 0x10 ≠ 0)

/-- The entry `ent` was read. -/
def touch (ent : Fin tlbAssoc) : AtfStream :=
  ast.setCur fun c => { c with
    tlbRecentLru := c.tlbRecentLru + 1
    tlbRecent := Function.update c.tlbRecent (Fin.ofNat tlbRecents (c.tlbRecentLru + 1)) ent }

def atfTlbFind (asn : U64) : Option (Fin tlbAssoc) × AtfStream :=
  match ast.tlbMatch va asn with
  | some ent => (some ent, ast.touch ent)
  | none => (none, ast)

def atfTlbFindValid (asn : U64) : Option (Fin tlbAssoc) × AtfStream :=
  match ast.atfTlbFind va asn with
  | (some ent, ast) => (if (ast.cur.tlb ent).pte &&& 1 ≠ 0 then some ent else none, ast)
  | (none, ast) => (none, ast)

/-- The loop of `atf_tlb_new`, which ends since fewer entries are recent than there are. -/
def skipRecents (recent : Fin tlbRecents → Fin tlbAssoc) : Nat → Fin tlbAssoc → Fin tlbAssoc
  | 0, lru => lru
  | fuel + 1, lru => if ∃ i, recent i = lru then skipRecents recent fuel (lru + 1) else lru

def atfTlbNew : Fin tlbAssoc × AtfStream :=
  let lru := skipRecents ast.cur.tlbRecent tlbAssoc (ast.cur.tlbLru + 1)
  (lru, ast.setCur fun c => { c with tlbLru := lru })

/-- At most one entry was read. -/
def Touched (ast' : AtfStream) : Prop :=
  ast' = ast ∨ ∃ ent, ast' = ast.touch ent

theorem atfTlbFind_touched (asn : U64) : ast.Touched (ast.atfTlbFind va asn).2 := by
  unfold atfTlbFind
  split
  · exact .inr ⟨_, rfl⟩
  · exact .inl rfl

theorem atfTlbFindValid_touched (asn : U64) : ast.Touched (ast.atfTlbFindValid va asn).2 := by
  have h := ast.atfTlbFind_touched va asn
  unfold atfTlbFindValid
  split <;> rename_i hfind <;> rwa [hfind] at h

/-! ### Translating -/

/--
The translation as it is made when it is not one of the last two: the physical page, the
granularity hint, and the offset in the page.
-/
def tlbWalk (isIstream : Bool) : (Address × Nat × Address) × AtfStream :=
  let vpage := pageAddrPage va
  if isIstream && isPal va then
    ((vpage, 0, pageAddrOffset (va &&& ~~~3)), ast)
  else if ast.isAddrDirect then
    ((vpage, 0, pageAddrOffset va), ast)
  else if ast.isAddrSpEv5 vpage then
    ((vpage &&& mask 30, 0, pageAddrOffset va), ast)
  else if ast.isAddrSpEv6 vpage then
    ((vpage &&& mask 30, 0, pageAddrOffset va), ast)
  else if ast.isAddrKsegEv5 vpage then
    ((vpage &&& mask 40, 0, pageAddrOffset va), ast)
  else if ast.isAddrKsegEv6 vpage then
    let ppage := vpage &&& mask 46
    let ppage := if vpage &&& (1 <<< 40) ≠ 0 then ppage ||| ~~~(mask 40) else ppage
    ((ppage, 0, pageAddrOffset va), ast)
  else if ast.isAddrAsm then
    ((vpage, 0, pageAddrOffset va), ast)
  else
    match ast.atfTlbFindValid vpage (ast.cur.localVar .avlASN) with
    | (some ent, ast) =>
        let e := ast.cur.tlb ent
        let gh := ptePageHint e.pte
        ((e.ppage, gh, va &&& mask (pageSizeLog2 + gh * 3)), ast)
    | (none, ast) => ((vpage, 0, pageAddrOffset va), ast)

/-- Only the low bits of a PAL address are not in the offset. -/
theorem tlbWalk_address (isIstream : Bool) :
    (ast.tlbWalk va isIstream).1.1 ||| (ast.tlbWalk va isIstream).1.2.2 =
        pageAddress (ast.tlbWalk va isIstream).1.1 (ast.tlbWalk va isIstream).1.2.1 va ∨
      isIstream = true ∧ ((ast.tlbWalk va isIstream).1.1 ||| (ast.tlbWalk va isIstream).1.2.2) =
        pageAddress (ast.tlbWalk va isIstream).1.1 (ast.tlbWalk va isIstream).1.2.1
          (va &&& ~~~3) := by
  unfold tlbWalk
  dsimp only
  split_ifs with hpal
  · exact .inr ⟨(Bool.and_eq_true_iff.mp hpal).1, rfl⟩
  all_goals try exact .inl rfl
  split
  · exact .inl (pageAddress_hint _ _ _).symm
  · exact .inl rfl

theorem tlbWalk_touched (isIstream : Bool) : ast.Touched (ast.tlbWalk va isIstream).2 := by
  have h := ast.atfTlbFindValid_touched (pageAddrPage va) (ast.cur.localVar .avlASN)
  unfold tlbWalk
  dsimp only
  split_ifs
  all_goals first
    | exact .inl rfl
    | split <;> rename_i hfind <;> rwa [hfind] at h

end AtfStream

/-- This translation was made for the page `vpage` of CPU `cpu` in address space `asn`. -/
def LastPage.isFor (l : LastPage) (cpu : U64) (vpage : Address) (asn : U64) : Bool :=
  l.cpu = cpu && l.vpage = vpage && l.asn = asn

/-- The address of `va` by a translation that was kept. -/
def LastPage.address (l : LastPage) (va : Address) : Address :=
  pageAddress l.ppage l.gh va

namespace Ctx

variable (c : Ctx) (va : Address)

def cpunum : U64 :=
  c.ast.globalVar .avgCPU

def asn : U64 :=
  c.ast.cur.localVar .avlASN

def atfTlbTranslate (isIstream : Bool) : Address × Ctx :=
  let vpage := pageAddrPage va
  if c.sh.last.isFor c.cpunum vpage c.asn then
    (c.sh.last.address va, c)
  else if c.sh.last2.isFor c.cpunum vpage c.asn then
    (c.sh.last2.address va, c)
  else
    let ((ppage, gh, offset), ast) := c.ast.tlbWalk va isIstream
    (ppage ||| offset,
      { c with
        ast
        sh := { c.sh with last2 := c.sh.last, last := ⟨c.cpunum, vpage, c.asn, ppage, gh⟩ } })

/-- The physical page of `va` and its granularity hint. -/
def tlbPage (isIstream : Bool) : Address × Nat :=
  if c.sh.last.isFor c.cpunum (pageAddrPage va) c.asn then
    (c.sh.last.ppage, c.sh.last.gh)
  else if c.sh.last2.isFor c.cpunum (pageAddrPage va) c.asn then
    (c.sh.last2.ppage, c.sh.last2.gh)
  else
    ((c.ast.tlbWalk va isIstream).1.1, (c.ast.tlbWalk va isIstream).1.2.1)

/-- A translation is made of the page, but for the low bits of a PAL address. -/
theorem atfTlbTranslate_fst (isIstream : Bool) :
    (c.atfTlbTranslate va isIstream).1 =
        pageAddress (c.tlbPage va isIstream).1 (c.tlbPage va isIstream).2 va ∨
      isIstream = true ∧ (c.atfTlbTranslate va isIstream).1 =
        pageAddress (c.tlbPage va isIstream).1 (c.tlbPage va isIstream).2 (va &&& ~~~3) := by
  unfold atfTlbTranslate tlbPage
  dsimp only
  split_ifs
  · exact .inl rfl
  · exact .inl rfl
  · exact c.ast.tlbWalk_address va isIstream

theorem atfTlbTranslate_touched (isIstream : Bool) :
    c.ast.Touched (c.atfTlbTranslate va isIstream).2.ast := by
  unfold atfTlbTranslate
  dsimp only
  split_ifs
  · exact .inl rfl
  · exact .inl rfl
  · exact c.ast.tlbWalk_touched va isIstream

/-- `ATF_tlb_translate`, the user interface. -/
def tlbTranslate (isIstream : Bool) : Address × Ctx :=
  let (pa, c) := c.atfTlbTranslate va isIstream
  (pa &&& if isIstream then ~~~3 else ~~~0, c)

/-- What is on the same page is at the same address. -/
theorem tlbTranslate_fst_eq {c d : Ctx} {va : Address} {isIstream : Bool}
    (h : c.tlbPage va isIstream = d.tlbPage va isIstream) :
    (c.tlbTranslate va isIstream).1 = (d.tlbTranslate va isIstream).1 := by
  have hc := c.atfTlbTranslate_fst va isIstream
  have hd := d.atfTlbTranslate_fst va isIstream
  rw [h] at hc
  change (c.atfTlbTranslate va isIstream).1 &&& _ = (d.atfTlbTranslate va isIstream).1 &&& _
  rcases hc with hc | ⟨rfl, hc⟩ <;> rcases hd with hd | ⟨hi, hd⟩
  · rw [hc, hd]
  · rw [hc, hd, hi]
    exact (pageAddress_clear _ _ _).symm
  · rw [hc, hd]
    exact pageAddress_clear _ _ _
  · rw [hc, hd]

/-- The place of an instruction does not see the low bits. -/
theorem tlbTranslate_istream_shift (va : Address) :
    (c.tlbTranslate va true).1 >>> 2 = (c.atfTlbTranslate va true).1 >>> 2 := by
  change ((c.atfTlbTranslate va true).1 &&& ~~~3#64) >>> 2 = _
  generalize (c.atfTlbTranslate va true).1 = x
  have hones : (~~~3#64) >>> 2 = 0x3fffffffffffffff#64 := by decide
  have hlt : (x >>> 2).toNat < 2 ^ 62 := by
    rw [BitVec.toNat_ushiftRight, Nat.shiftRight_eq_div_pow]
    omega
  rw [BitVec.ushiftRight_and_distrib, hones]
  apply BitVec.eq_of_toNat_eq
  rw [BitVec.toNat_and]
  exact Nat.and_two_pow_sub_one_of_lt_two_pow hlt

def atfTlbFillEntry (pte : U64) (ent : Fin tlbAssoc) : Ctx :=
  let vpage := pageAddrPage va
  let fill (l : LastPage) : LastPage := { l with gh := ptePageHint pte, ppage := ptePpage pte }
  { c with
    ast := c.ast.setCur fun cpu => { cpu with
      tlb := Function.update cpu.tlb ent ⟨vpage, c.asn, pte, ptePpage pte⟩ }
    sh :=
      if c.sh.last2.isFor c.cpunum vpage c.asn then
        { c.sh with last2 := fill c.sh.last2 }
      else if c.sh.last.isFor c.cpunum vpage c.asn then
        { c.sh with last := fill c.sh.last }
      else
        c.sh }

/-- The number of the entry that was filled, or `none` for `-1`. -/
def atfTlbFill (pte : U64) : Option (Fin tlbAssoc) × Ctx :=
  let vpage := pageAddrPage va
  if c.ast.isAddrSuppag vpage then
    (none, c)
  else
    match c.ast.atfTlbFind vpage c.asn with
    | (some ent, ast) =>
        if (ast.cur.tlb ent).pte = pte then
          (none, { c with ast })
        else
          (some ent, { c with ast }.atfTlbFillEntry va pte ent)
    | (none, ast) =>
        let (ent, ast) := ast.atfTlbNew
        (some ent, { c with ast }.atfTlbFillEntry va pte ent)

/-! ### The opcode cache -/

end Ctx

/-- The place of an instruction in the opcode cache. -/
def atfCacheLocation (ppc : Address) : Except Fault Address :=
  if (ppc >>> 52).toNat < 13 then .ok (ppc >>> 2) else .error .outOfBounds

namespace Ctx

variable (c : Ctx)

def vpc : Address :=
  c.ast.cur.vpc

/-- The place in the opcode cache of the instruction at the pc. -/
def cachePlace : Except Fault (Address × Ctx) := do
  let (ppc, c) := c.atfTlbTranslate c.vpc true
  let place ← atfCacheLocation ppc
  .ok (place, c)

def setInstr (place : Address) (entry : AtfInstrEntry) : Ctx :=
  { c with sh := { c.sh with
    atfInstructions := Function.update c.sh.atfInstructions place entry } }

def atfCacheOpcode (opcode : Opcode) (vea : Address) : Except Fault Ctx := do
  let (place, c) ← c.cachePlace
  .ok (c.setInstr place ⟨vea, opcode⟩)

/-- The entry is replaced, and what it was is returned. -/
def atfCacheOpcodeLast (opcode : Opcode) (vea : Address) : Except Fault (AtfInstrEntry × Ctx) := do
  let (place, c) ← c.cachePlace
  .ok (c.sh.atfInstructions place, c.setInstr place ⟨vea, opcode⟩)

/-- What a lookup does to the effective address of the entry. -/
inductive SetVea
  | keep
  | relative (vea : Address)
  | absolute (vea : Address)
  deriving DecidableEq, Repr

def SetVea.apply : SetVea → Address → Address
  | keep, ea => ea
  | relative vea, ea => vea + ea
  | absolute vea, _ => vea

def atfCacheLookup (set : SetVea) : Except Fault (AtfInstrEntry × Ctx) := do
  let (place, c) ← c.cachePlace
  let entry := c.sh.atfInstructions place
  let entry := { entry with ea := set.apply entry.ea }
  .ok (entry, c.setInstr place entry)

end Ctx

end AsimFeeder.Atf
