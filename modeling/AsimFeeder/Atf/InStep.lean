/-
Two streams that are in step.

Their variables, their CPUs and their files are the same, so a call does to both alike what
it does to the stream.  Where an instruction is in the opcode cache is told by the
translation of its address.
-/
import AsimFeeder.Atf.Agreement

namespace AsimFeeder.Atf

namespace AtfStream

/-- The file as well is the same, and so is where the reader is. -/
structure InStep (a b : AtfStream) : Prop extends a.Agrees b where
  fp : a.fp = b.fp
  limitCpuPtr : a.limitCpuPtr = b.limitCpuPtr
  isDumping : a.isDumping = b.isDumping
  instrLeft : a.instrLeft = b.instrLeft

namespace InStep

variable {a b a' b' : AtfStream}

theorem refl (a : AtfStream) : a.InStep a :=
  ⟨.refl a, rfl, rfl, rfl, rfl⟩

theorem symm (h : a.InStep b) : b.InStep a :=
  ⟨h.toAgrees.symm, h.fp.symm, h.limitCpuPtr.symm, h.isDumping.symm, h.instrLeft.symm⟩

theorem trans {d : AtfStream} (h : a.InStep b) (h' : b.InStep d) : a.InStep d :=
  ⟨h.toAgrees.trans h'.toAgrees, h.fp.trans h'.fp, h.limitCpuPtr.trans h'.limitCpuPtr,
    h.isDumping.trans h'.isDumping, h.instrLeft.trans h'.instrLeft⟩

theorem of_touched (h : a.Touched b) : b.InStep a := by
  refine ⟨.of_touched h, ?_, ?_, ?_, ?_⟩ <;> rcases h with rfl | ⟨ent, rfl⟩ <;> rfl

theorem touched (h : a.InStep b) (ha : a.Touched a') (hb : b.Touched b') : a'.InStep b' :=
  ((of_touched ha).trans h).trans (of_touched hb).symm

theorem atfSetPc (h : a.InStep b) (pc : Address) (isRelative : Bool) :
    (a.atfSetPc pc isRelative).InStep (b.atfSetPc pc isRelative) := by
  refine ⟨h.toAgrees.atfSetPc pc isRelative, ?_, ?_, ?_, ?_⟩ <;> cases isRelative
  exacts [h.fp, h.fp, h.limitCpuPtr, h.limitCpuPtr, h.isDumping, h.isDumping, h.instrLeft,
    h.instrLeft]

theorem setFp (h : a.InStep b) (fp : List Byte) : { a with fp }.InStep { b with fp } :=
  ⟨⟨h.cpuPtr, h.globalVar, h.cpu⟩, rfl, h.limitCpuPtr, h.isDumping, h.instrLeft⟩

end InStep

end AtfStream

namespace Ctx

variable {c d : Ctx}

/-- Two states that a pass on the same stream finds. -/
abbrev InStep (c d : Ctx) : Prop :=
  c.ast.InStep d.ast

/-- Where the instruction at the pc is in the opcode cache. -/
def place (c : Ctx) : Address :=
  (c.atfTlbTranslate c.vpc true).1 >>> 2

/-! ### Translations -/

theorem InStep.atfTlbTranslate (h : c.InStep d) (va va' : Address) (i i' : Bool) :
    (c.atfTlbTranslate va i).2.InStep (d.atfTlbTranslate va' i').2 :=
  h.touched (c.atfTlbTranslate_touched va i) (d.atfTlbTranslate_touched va' i')

/-- The file does not matter for a translation. -/
theorem atfTlbTranslate_fst_eq (h : c.ast.Agrees d.ast) (hlast : c.sh.last = d.sh.last)
    (hlast2 : c.sh.last2 = d.sh.last2) (va : Address) (isIstream : Bool) :
    (c.atfTlbTranslate va isIstream).1 = (d.atfTlbTranslate va isIstream).1 := by
  have hwalk := h.tlbWalk_fst va isIstream
  unfold Ctx.atfTlbTranslate
  dsimp only
  rw [cpunum_eq h, asn_eq h, hlast, hlast2]
  split_ifs
  · rfl
  · rfl
  · exact congrArg (fun w => w.1 ||| w.2.2) hwalk

theorem atfTlbTranslate_atfInstructions (c : Ctx) (va : Address) (i : Bool) :
    (c.atfTlbTranslate va i).2.sh.atfInstructions = c.sh.atfInstructions := by
  unfold Ctx.atfTlbTranslate
  dsimp only
  split_ifs <;> rfl

theorem atfTlbTranslate_readEaDelta (c : Ctx) (va : Address) (i : Bool) :
    (c.atfTlbTranslate va i).2.sh.readEaDelta = c.sh.readEaDelta := by
  unfold Ctx.atfTlbTranslate
  dsimp only
  split_ifs <;> rfl

theorem atfTlbFillEntry_atfInstructions (c : Ctx) (va : Address) (pte : U64)
    (ent : Fin tlbAssoc) :
    (c.atfTlbFillEntry va pte ent).sh.atfInstructions = c.sh.atfInstructions := by
  unfold atfTlbFillEntry
  dsimp only
  split_ifs <;> rfl

theorem atfTlbFillEntry_readEaDelta (c : Ctx) (va : Address) (pte : U64) (ent : Fin tlbAssoc) :
    (c.atfTlbFillEntry va pte ent).sh.readEaDelta = c.sh.readEaDelta := by
  unfold atfTlbFillEntry
  dsimp only
  split_ifs <;> rfl

theorem cachePlace_eq (c : Ctx) : c.cachePlace =
    if (c.place >>> 50).toNat < 13 then .ok (c.place, (c.atfTlbTranslate c.vpc true).2)
    else .error .outOfBounds := by
  have hfirst : c.place >>> 50 = (c.atfTlbTranslate c.vpc true).1 >>> 52 :=
    (BitVec.shiftRight_add _ 2 50).symm
  unfold cachePlace atfCacheLocation
  rw [hfirst]
  dsimp only
  split_ifs <;> rfl

theorem InStep.atfSetPc (h : c.InStep d) (pc : Address) (isRelative : Bool) :
    (c.onAst (·.atfSetPc pc isRelative)).InStep (d.onAst (·.atfSetPc pc isRelative)) :=
  AtfStream.InStep.atfSetPc h pc isRelative

theorem setFp_fp (c : Ctx) (fp : List Byte) : (c.setFp fp).ast.fp = fp :=
  rfl

theorem InStep.setFp (h : c.InStep d) (fp : List Byte) : (c.setFp fp).InStep (d.setFp fp) :=
  AtfStream.InStep.setFp h fp

end Ctx

end AsimFeeder.Atf
