/-
What a reader makes of a file that is still being written.

While a writer runs, what it has written so far reads as the records of its calls, but for
the instructions it has only counted: these are `pend`.  A reader that has read everything
is in a state that follows the writer's once it has also returned those, and it returns
them when the number of them is written.

Closing the file does not write that number, so a reader never gets the instructions that
are counted then.
-/
import AsimFeeder.Atf.ReadBack

namespace AsimFeeder.Atf

namespace Ctx

variable {c d e w w' r start : Ctx} {rs rs' done pend : List Record} {bytes : List Byte}
  {moved moved' : Bool} {token : Byte} {n k : Nat}

/-! ### What is on the file -/

/-- `EMIT_SKIP` of so many instructions. -/
def skipBytes (n : Nat) : List Byte :=
  if n ≠ 0 then [0x80 ||| (BitVec.ofNat 8 (n - 1) &&& 0x1f)] else []

theorem emitSkip_eq (c : Ctx) : c.emitSkip = c.fed (c.ast.fp ++ skipBytes c.ast.instrLeft) 0 := by
  unfold emitSkip skipBytes
  by_cases hleft : c.ast.instrLeft = 0
  · rw [if_neg (not_not_intro hleft), if_neg (not_not_intro hleft), List.append_nil]
    conv_rhs => rw [← hleft]
    rfl
  · rw [if_pos hleft, if_pos hleft]
    rfl

theorem emit_nil (c : Ctx) : c.emit [] = c := by
  show { c with ast := { c.ast with fp := c.ast.fp ++ [] } } = c
  rw [List.append_nil]

theorem emit_emit (c : Ctx) (xs ys : List Byte) : (c.emit xs).emit ys = c.emit (xs ++ ys) := by
  show { c with ast := { c.ast with fp := c.ast.fp ++ xs ++ ys } } = c.emit (xs ++ ys)
  rw [List.append_assoc]
  rfl

theorem emitToken_emit (c : Ctx) (token : Byte) (bytes : List Byte) :
    (c.emitToken token).emit bytes =
      c.fed (c.ast.fp ++ skipBytes c.ast.instrLeft ++ token :: bytes) 0 := by
  have happend : c.ast.fp ++ skipBytes c.ast.instrLeft ++ token :: bytes =
      c.ast.fp ++ skipBytes c.ast.instrLeft ++ [token] ++ bytes := by simp
  unfold emitToken
  rw [emitSkip_eq, happend]
  rfl

theorem Alike.fed (c : Ctx) (fp : List Byte) (n : Nat) : (c.fed fp n).Alike c :=
  ⟨⟨rfl, rfl, fun _ => ⟨rfl, rfl, rfl⟩⟩, rfl, rfl⟩

/-- The number of instructions is read back. -/
theorem reads_skip (hd : d.ast.isDumping = false) (hn : n ≤ 32) :
    d.Reads 0 (skipBytes n) [] d n := by
  have hcount : ∀ i : Fin 32, (0x80 ||| (BitVec.ofNat 8 i.val &&& 0x1f)) &&& 0xe0 = (0x80 : Byte) ∧
      ((0x80 ||| (BitVec.ofNat 8 i.val &&& 0x1f)) &&& (0x1f : Byte)).toNat = i.val := by decide
  cases n with
  | zero => exact .refl d 0
  | succ n =>
      obtain ⟨hclass, hvalue⟩ := hcount ⟨n, hn⟩
      refine .skip fun fp => ?_
      show (d.fed ((0x80 ||| (BitVec.ofNat 8 n &&& 0x1f)) :: fp) 0).readStep = _
      rw [readStep_token hd, readToken, if_pos hclass, hvalue]
      show Except.ok (none, d.fed fp (0 + (n + 1))) = _
      rw [Nat.zero_add]

/-! ### Keeping track -/

/-- From `w` to `w'` the counted instructions and these bytes are written, and a reader of
the bytes returns these records. -/
structure Emits (moved moved' : Bool) (w w' : Ctx) (bytes : List Byte) (rs : List Record) :
    Prop where
  fp : w'.ast.fp = w.ast.fp ++ skipBytes w.ast.instrLeft ++ bytes
  left : w'.ast.instrLeft = 0
  reads : ∀ r, Follows moved w r → ∃ e, r.Reads 0 bytes rs e 0 ∧ Follows moved' w' e

/-- From `w` to `w'` an instruction is counted. -/
structure Counts (moved : Bool) (w w' : Ctx) (x : Record) : Prop where
  fp : w'.ast.fp = w.ast.fp
  left : w'.ast.instrLeft = w.ast.instrLeft + 1
  isInstr : x.isInstr = true
  reads : ∀ r, Follows moved w r → ∃ e, (∀ k, r.Reads (k + 1) [] [x] e k) ∧ Follows moved w' e

/-- A reader of what was written from `start` to `w` returns `done`, and `pend` are the
instructions that are counted. -/
structure Tracks (start w : Ctx) (moved : Bool) (done pend : List Record) : Prop where
  length : pend.length = w.ast.instrLeft
  bound : w.ast.instrLeft ≤ 32
  isInstr : ∀ x ∈ pend, x.isInstr = true
  reads : ∃ bytes d e, w.ast.fp = start.ast.fp ++ bytes ∧ start.Reads 0 bytes done d 0 ∧
    (pend ≠ [] → d.ast.isDumping = false) ∧ (∀ k, d.Reads (pend.length + k) [] pend e k) ∧
    Follows moved w e

namespace Tracks

/-- When the counted instructions are written, the reader returns them too. -/
theorem reads_skip (h : Tracks start w moved done pend) :
    ∃ bytes e, w.ast.fp = start.ast.fp ++ bytes ∧
      start.Reads 0 (bytes ++ skipBytes w.ast.instrLeft) (done ++ pend) e 0 ∧
      Follows moved w e := by
  obtain ⟨bytes, d, e, hfp, hdone, hdumping, hpend, hfollows⟩ := h.reads
  refine ⟨bytes, e, hfp, ?_, hfollows⟩
  have hrest := hpend 0
  rw [Nat.add_zero, h.length] at hrest
  by_cases hempty : pend = []
  · have hleft : w.ast.instrLeft = 0 := by
      rw [← h.length, hempty]
      rfl
    rw [hleft] at hrest ⊢
    exact hdone.trans hrest
  · have hskip := (Ctx.reads_skip (hdumping hempty) h.bound).trans hrest
    rw [List.append_nil, List.nil_append] at hskip
    exact hdone.trans hskip

theorem emits (h : Tracks start w moved done pend) (he : Emits moved moved' w w' bytes rs) :
    Tracks start w' moved' (done ++ pend ++ rs) [] := by
  obtain ⟨before, d, hfp, hdone, hfollows⟩ := h.reads_skip
  obtain ⟨e, hreads, hfollows'⟩ := he.reads d hfollows
  refine ⟨he.left.symm, by rw [he.left]; exact Nat.zero_le _, by simp, _, e, e, ?_,
    hdone.trans hreads, by simp, ?_, hfollows'⟩
  · rw [he.fp, hfp]
    simp only [List.append_assoc]
  · intro k
    rw [List.length_nil, Nat.zero_add]
    exact .refl e k

theorem counts (h : Tracks start w moved done pend) {x : Record} (hc : Counts moved w w' x)
    (hdumping : w.ast.isDumping = false) (hbound : w.ast.instrLeft < 32) :
    Tracks start w' moved done (pend ++ [x]) := by
  obtain ⟨bytes, d, e, hfp, hdone, hd, hpend, hfollows⟩ := h.reads
  obtain ⟨e', hreads, hfollows'⟩ := hc.reads e hfollows
  refine ⟨?_, ?_, ?_, ?_⟩
  · rw [List.length_append, List.length_singleton, h.length, hc.left]
  · rw [hc.left]
    exact hbound
  · intro y hy
    rcases List.mem_append.mp hy with hy | hy
    · exact h.isInstr y hy
    · rw [List.mem_singleton.mp hy]
      exact hc.isInstr
  · rw [hc.fp]
    by_cases hempty : pend = []
    · -- the first one that is counted: nothing is left to return before
      subst hempty
      have hnone := hdone.trans (hpend 0)
      rw [List.append_nil, List.append_nil] at hnone
      refine ⟨bytes, e, e', hfp, hnone, fun _ => ?_, fun k => ?_, hfollows'⟩
      · rw [← hfollows.dumping]
        exact hdumping
      · rw [List.nil_append, List.length_singleton, Nat.add_comm]
        exact hreads k
    · refine ⟨bytes, d, e', hfp, hdone, fun _ => hd hempty, fun k => ?_, hfollows'⟩
      rw [List.length_append, List.length_singleton, Nat.add_assoc, Nat.add_comm 1 k]
      exact (hpend (k + 1)).trans (hreads k)

/-- The counted instructions are written at any time. -/
theorem emitSkip (h : Tracks start w moved done pend) :
    Tracks start w.emitSkip moved (done ++ pend) [] := by
  have hskip : Emits moved moved w w.emitSkip [] [] := by
    rw [emitSkip_eq]
    refine ⟨(List.append_nil _).symm, rfl, fun r hr => ⟨r, .refl r 0, hr.alike (.fed w _ 0)⟩⟩
  have hemits := h.emits hskip
  rwa [List.append_nil] at hemits

/-- What writes nothing keeps track. -/
theorem same (h : Tracks start w moved done pend) (hfp : w'.ast.fp = w.ast.fp)
    (hleft : w'.ast.instrLeft = w.ast.instrLeft)
    (hfollows : ∀ r, Follows moved w r → Follows moved w' r) :
    Tracks start w' moved done pend := by
  obtain ⟨bytes, d, e, hbytes, hdone, hd, hpend, he⟩ := h.reads
  exact ⟨h.length.trans hleft.symm, hleft ▸ h.bound, h.isInstr, bytes, d, e, hfp.trans hbytes,
    hdone, hd, hpend, hfollows e he⟩

end Tracks

end Ctx

end AsimFeeder.Atf
