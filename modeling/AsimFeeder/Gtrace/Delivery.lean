/-
The GTrace reader delivers what ran.

`Rel` relates the reader to the run: the bundles in the window and those delivered before
match, newest first, the bundles of which something ran, and the trace position is where the
program is.  Every event but a new bundle keeps it (`Rel.step`); a new bundle either goes into
the window or hands the oldest one out first (`Rel.bb`, `Rel.slide`).
-/
import AsimFeeder.Gtrace.ControlFlow

namespace AsimFeeder.Gtrace

/-! ### One bundle -/

/-- The bundle as the reader has it, and as it ran. -/
structure Matches (b : ControlBundle) (x : Ran) : Prop where
  bits : b.bits = x.bits
  vpc : b.vpc = x.addr
  range : x.entry < x.stop ∧ x.stop ≤ numSyllables
  path : ∀ s < numSyllables, (b.syllable s).wrongpath = false ↔ x.entry ≤ s ∧ s < x.stop
  plain : ∀ s, x.entry ≤ s → s < x.stop → (s + 1 = x.stop → x.out = none) →
    (b.syllable s).taken = false ∧ (b.syllable s).rfi = false ∧ (b.syllable s).trap = false
  last : ∀ s t, s + 1 = x.stop → x.out = some t → (b.syllable s).taken = t.taken ∧
    (b.syllable s).rfi = t.rfi ∧ (b.syllable s).trap = t.trap ∧ (b.syllable s).target = t.target
  whole : x.out = none → x.stop = numSyllables
  left : ∀ t, x.out = some t → t.taken = true ∨ t.rfi = true ∨ t.trap = true

namespace ControlBundle

variable (b : ControlBundle)

theorem setSyllable_self (s : Nat) (syl : ControlSyllable) :
    (b.setSyllable s syl).syllable s = syl := Function.update_self ..

theorem setSyllable_of_ne {s s' : Nat} (h : s' ≠ s) (syl : ControlSyllable) :
    (b.setSyllable s syl).syllable s' = b.syllable s' := Function.update_of_ne h ..

theorem markWrongpath_below {s s' : Nat} (h : s' < s) :
    (b.markWrongpath s).syllable s' = b.syllable s' := if_neg (Nat.not_le_of_lt h)

theorem markWrongpath_above {s s' : Nat} (h : s ≤ s') :
    (b.markWrongpath s).syllable s' = { b.syllable s' with wrongpath := true } := if_pos h

/-- Marking the syllables from `s` on leaves one below as it is set. -/
theorem markWrongpath_setSyllable {s s' : Nat} (h : s' < s) (syl : ControlSyllable) :
    (b.setSyllable s' syl).markWrongpath s = (b.markWrongpath s).setSyllable s' syl := by
  unfold markWrongpath setSyllable
  congr 1
  funext i
  by_cases hi : i = s'
  · subst hi
    simp [Nat.not_le_of_lt h]
  · simp [hi]

end ControlBundle

namespace Matches

variable {b : ControlBundle} {x : Ran} {s n : Nat}

/-- Searching backward from behind what ran finds its last syllable. -/
theorem lastOnPath (h : Matches b x) (hn : x.stop ≤ n) (hle : n ≤ numSyllables) :
    b.lastOnPath n = some (x.stop - 1) := by
  have hrange := h.range
  induction n with
  | zero => omega
  | succ n ih =>
      rw [ControlBundle.lastOnPath]
      have hpath := h.path n hle
      by_cases hlast : x.stop = n + 1
      · rw [if_pos (hpath.mpr (by omega)), hlast]
        rfl
      · rw [if_neg (mt hpath.mp (by omega))]
        exact ih (by omega) (by omega)

/-- A bundle that is left by the syllable `s`, whatever record says so. -/
theorem leave (h : Matches b x) (syl : ControlSyllable) (out : Transfer) (hopen : x.out = none)
    (hentry : x.entry ≤ s) (hs : s < numSyllables)
    (hpath : syl.wrongpath = (b.syllable s).wrongpath)
    (hout : syl.taken = out.taken ∧ syl.rfi = out.rfi ∧ syl.trap = out.trap ∧
      syl.target = out.target)
    (hleft : out.taken = true ∨ out.rfi = true ∨ out.trap = true) :
    Matches ((b.setSyllable s syl).markWrongpath (s + 1)) (x.leave s out) := by
  have hwhole := h.whole hopen
  have hrange := h.range
  constructor
  · exact h.bits
  · exact h.vpc
  · exact ⟨Nat.lt_succ_of_le hentry, hs⟩
  · intro s' hs'
    show _ ↔ x.entry ≤ s' ∧ s' < s + 1
    by_cases hbelow : s' < s + 1
    · rw [ControlBundle.markWrongpath_below _ hbelow]
      have hold := h.path s' hs'
      by_cases heq : s' = s
      · subst heq
        rw [ControlBundle.setSyllable_self, hpath, hold]
        omega
      · rw [ControlBundle.setSyllable_of_ne _ heq, hold]
        omega
    · rw [ControlBundle.markWrongpath_above _ (by omega)]
      simp only [Bool.true_eq_false, false_iff]
      omega
  · intro s' hentry' hstop' hnone
    have hne : s' ≠ s := by
      rintro rfl
      cases hnone rfl
    have hbelow : s' < s + 1 := hstop'
    rw [ControlBundle.markWrongpath_below _ hbelow, ControlBundle.setSyllable_of_ne _ hne]
    exact h.plain s' hentry' (by omega) fun _ => hopen
  · intro s' t hlast ht
    obtain rfl : s' = s := Nat.succ.inj hlast
    obtain rfl := Option.some.inj ht
    rw [ControlBundle.markWrongpath_below _ (Nat.lt_succ_self s'),
      ControlBundle.setSyllable_self]
    exact hout
  · intro hnone
    cases hnone
  · intro t ht
    obtain rfl := Option.some.inj ht
    exact hleft

/-- Marking what did not run changes nothing. -/
theorem mark (h : Matches b x) (hs : x.stop ≤ s) : Matches (b.markWrongpath s) x := by
  constructor
  · exact h.bits
  · exact h.vpc
  · exact h.range
  · intro s' hs'
    by_cases hbelow : s' < s
    · rw [ControlBundle.markWrongpath_below _ hbelow]
      exact h.path s' hs'
    · rw [ControlBundle.markWrongpath_above _ (by omega)]
      simp only [Bool.true_eq_false, false_iff]
      omega
  · intro s' hentry hstop
    rw [ControlBundle.markWrongpath_below _ (by omega)]
    exact h.plain s' hentry hstop
  · intro s' t hlast
    rw [ControlBundle.markWrongpath_below _ (by omega)]
    exact h.last s' t hlast
  · exact h.whole
  · exact h.left

/-- The last syllable that ran is tagged. -/
theorem trap (h : Matches b x) (target : IAddr) :
    Matches (b.setSyllable (x.stop - 1)
      { b.syllable (x.stop - 1) with trap := true, target := target }) (x.trap target) := by
  have hrange := h.range
  constructor
  · exact h.bits
  · exact h.vpc
  · exact h.range
  · intro s' hs'
    show _ ↔ x.entry ≤ s' ∧ s' < x.stop
    rw [← h.path s' hs']
    by_cases heq : s' = x.stop - 1
    · subst heq
      rw [ControlBundle.setSyllable_self]
    · rw [ControlBundle.setSyllable_of_ne _ heq]
  · intro s' hentry hstop hnone
    have hne : s' ≠ x.stop - 1 := by
      rintro rfl
      cases hnone (by show x.stop - 1 + 1 = x.stop; omega)
    rw [ControlBundle.setSyllable_of_ne _ hne]
    exact h.plain s' hentry hstop fun hlast => absurd hlast (by omega)
  · intro s' t hlast ht
    have hlast' : s' + 1 = x.stop := hlast
    obtain rfl : s' = x.stop - 1 := by omega
    rw [ControlBundle.setSyllable_self]
    obtain rfl := Option.some.inj ht
    cases hout : x.out with
    | none =>
        obtain ⟨htaken, hrfi, -⟩ := h.plain (x.stop - 1) (by omega) (by omega) fun _ => hout
        exact ⟨htaken, hrfi, rfl, rfl⟩
    | some o =>
        obtain ⟨htaken, hrfi, -⟩ := h.last (x.stop - 1) o hlast' hout
        exact ⟨htaken, hrfi, rfl, rfl⟩
  · intro hnone
    cases hnone
  · intro t ht
    obtain rfl := Option.some.inj ht
    exact .inr (.inr rfl)

/-- A branch that is not taken is not the syllable that left the bundle. -/
theorem notTaken (h : Matches b x) (target : IAddr)
    (hs : x.out ≠ none → s + 1 ≠ x.stop) :
    Matches (b.setSyllable s { b.syllable s with taken := false, target := target }) x := by
  constructor
  · exact h.bits
  · exact h.vpc
  · exact h.range
  · intro s' hs'
    rw [← h.path s' hs']
    by_cases heq : s' = s
    · subst heq
      rw [ControlBundle.setSyllable_self]
    · rw [ControlBundle.setSyllable_of_ne _ heq]
  · intro s' hentry hstop hnone
    have hplain := h.plain s' hentry hstop hnone
    by_cases heq : s' = s
    · subst heq
      rw [ControlBundle.setSyllable_self]
      exact ⟨rfl, hplain.2⟩
    · rw [ControlBundle.setSyllable_of_ne _ heq]
      exact hplain
  · intro s' t hlast ht
    have hne : s' ≠ s := by
      rintro rfl
      exact hs (by rw [ht]; exact Option.some_ne_none t) hlast
    rw [ControlBundle.setSyllable_of_ne _ hne]
    exact h.last s' t hlast ht
  · exact h.whole
  · exact h.left

end Matches

/-! ### The reader -/

/-- Each bundle begins where the one before it goes on, and the last goes on at `pos`. -/
def Linked : IAddr → List Ran → Prop
  | _, [] => True
  | pos, x :: older => pos = x.after ∧ Linked x.start older

/-- `delivered` is what was handed out, oldest first.  Where the window has only the last of
several bundles, the one behind it was rolled back. -/
structure Rel (delivered : List ControlBundle) (r : Reader) (t : Exec) : Prop where
  bundles : List.Forall₂ Matches (r.window ++ delivered.reverse) t.ran
  pos : r.traceIP = t.pos
  small : r.window.length ≤ wSize
  line : r.bundleLineInBuffer = none
  first : r.window = [] → delivered = []
  alone : r.window.length = 1 → delivered ≠ [] → ∀ x older, t.ran = x :: older → x.out ≠ none
  linked : Linked t.pos t.ran
  inBundle : t.pos.syllable < numSyllables

variable {delivered : List ControlBundle} {r : Reader} {t : Exec} {x x' : Ran} {older : List Ran}
  {b b' : ControlBundle} {rest : List ControlBundle} {pos : IAddr}

theorem syllableId_le (addr : BitVec 64) : syllableId addr ≤ numSyllables := by
  have hand := BitVec.toNat_and addr 3
  have hle : addr.toNat &&& (3 : BitVec 64).toNat ≤ (3 : BitVec 64).toNat := Nat.and_le_right
  rw [syllableId, hand]
  exact hle

namespace Rel

theorem head (h : Rel delivered r t) (ht : t.ran = x :: older) :
    ∃ b rest, r.window = b :: rest ∧ Matches b x ∧
      List.Forall₂ Matches (rest ++ delivered.reverse) older := by
  have hbundles := h.bundles
  rw [ht] at hbundles
  cases hw : r.window with
  | nil =>
      rw [hw, h.first hw] at hbundles
      cases hbundles
  | cons b rest =>
      rw [hw, List.cons_append, List.forall₂_cons] at hbundles
      exact ⟨b, rest, rfl, hbundles⟩

/-- The last bundle changes, and the position with it. -/
theorem replace (h : Rel delivered r t) (ht : t.ran = x :: older) (hw : r.window = b :: rest)
    (hmatch : Matches b' x') (hstart : x'.start = x.start) (hpos : pos = x'.after)
    (hin : pos.syllable < numSyllables) (hout : x.out ≠ none → x'.out ≠ none) :
    Rel delivered { r with window := b' :: rest, traceIP := pos } ⟨x' :: older, pos⟩ := by
  have hbundles := h.bundles
  have hsmall := h.small
  have hlinked := h.linked
  rw [ht, hw, List.cons_append, List.forall₂_cons] at hbundles
  rw [hw] at hsmall
  rw [ht] at hlinked
  constructor
  · exact .cons hmatch hbundles.2
  · rfl
  · exact hsmall
  · exact h.line
  · intro hnil
    cases hnil
  · intro hlen hdel y ys hy
    obtain ⟨rfl, -⟩ := List.cons.inj hy
    refine hout (h.alone ?_ hdel x older ht)
    rw [hw]
    exact hlen
  · exact ⟨hpos, by rw [hstart]; exact hlinked.2⟩
  · exact hin

/-- A bundle of which nothing ran is dropped, and the one before it is tagged. -/
theorem rollBack (h : Rel delivered r t) {y y' : Ran} (ht : t.ran = x :: y :: older)
    {c : ControlBundle} (hw : r.window = b :: c :: rest) (hmatch : Matches b' y')
    (hstart : y'.start = y.start) (hpos : pos = y'.after) (hin : pos.syllable < numSyllables)
    (hout : y'.out ≠ none) :
    Rel delivered { r with window := b' :: rest, traceIP := pos } ⟨y' :: older, pos⟩ := by
  have hbundles := h.bundles
  have hsmall := h.small
  have hlinked := h.linked
  rw [ht, hw, List.cons_append, List.forall₂_cons, List.cons_append, List.forall₂_cons]
    at hbundles
  rw [hw] at hsmall
  rw [ht] at hlinked
  constructor
  · exact .cons hmatch hbundles.2.2
  · rfl
  · exact Nat.le_of_succ_le hsmall
  · exact h.line
  · intro hnil
    cases hnil
  · intro _ _ z zs hz
    obtain ⟨rfl, -⟩ := List.cons.inj hz
    exact hout
  · exact ⟨hpos, by rw [hstart]; exact hlinked.2.2⟩
  · exact hin

/-! ### Branches and returns -/

theorem brAction_taken {ip dest : BitVec 64} (hw : r.window = b :: rest)
    (hs : syllableId ip < numSyllables) :
    r.brAction true ip dest = .ok { r with
      window := (b.setSyllable (syllableId ip) { b.syllable (syllableId ip) with
        taken := true
        target := .ofAddr dest }).markWrongpath (syllableId ip + 1) :: rest
      traceIP := .ofAddr dest } := by
  unfold Reader.brAction
  rw [hw]
  dsimp only
  rw [if_pos hs, if_pos rfl]

theorem brAction_notTaken {ip dest : BitVec 64} (hw : r.window = b :: rest)
    (hs : syllableId ip < numSyllables) :
    r.brAction false ip dest = .ok { r with
      window := b.setSyllable (syllableId ip) { b.syllable (syllableId ip) with
        taken := false
        target := IAddr.next ⟨bundleAddr b.vpc, syllableId ip⟩ } :: rest } := by
  unfold Reader.brAction
  rw [hw]
  dsimp only
  rw [if_pos hs, if_neg Bool.false_ne_true]

theorem rfAction_eq {destip ip : BitVec 64} (hw : r.window = b :: rest)
    (hs : syllableId ip < numSyllables) :
    r.rfAction destip ip = .ok { r with
      window := (b.setSyllable (syllableId ip) { b.syllable (syllableId ip) with
        rfi := true
        target := .ofAddr destip }).markWrongpath (syllableId ip + 1) :: rest
      traceIP := .ofAddr destip } := by
  unfold Reader.rfAction
  rw [hw]
  dsimp only
  rw [if_pos hs]

/-- A record of a syllable that leaves its bundle, which says so in the way of its kind. -/
theorem leave (h : Rel delivered r t) {ip dest : BitVec 64} (hc : t.CanLeave ip dest)
    (mark : ControlSyllable → ControlSyllable) (out : Transfer)
    (htarget : out.target = .ofAddr dest)
    (hleft : out.taken = true ∨ out.rfi = true ∨ out.trap = true)
    (hmark : ∀ syl, syl.taken = false → syl.rfi = false → syl.trap = false →
      (mark syl).wrongpath = syl.wrongpath ∧ (mark syl).taken = out.taken ∧
        (mark syl).rfi = out.rfi ∧ (mark syl).trap = out.trap ∧ (mark syl).target = out.target) :
    ∃ b rest, r.window = b :: rest ∧ syllableId ip < numSyllables ∧
      Rel delivered { r with
        window := (b.setSyllable (syllableId ip) (mark (b.syllable (syllableId ip)))).markWrongpath
          (syllableId ip + 1) :: rest
        traceIP := .ofAddr dest } (t.leave ip out) := by
  obtain ⟨hdest, x, older, ht, hopen, hentry, hs⟩ := hc
  obtain ⟨b, rest, hw, hmatch, -⟩ := h.head ht
  obtain ⟨htaken, hrfi, htrap⟩ := hmatch.plain (syllableId ip) hentry
    (by rw [hmatch.whole hopen]; exact hs) fun _ => hopen
  obtain ⟨hpath, hout⟩ := hmark (b.syllable (syllableId ip)) htaken hrfi htrap
  have hleave := hmatch.leave _ out hopen hentry hs hpath hout hleft
  refine ⟨b, rest, hw, hs, ?_⟩
  rw [Exec.leave, ht, htarget]
  exact h.replace ht hw hleave rfl htarget.symm hdest fun _ => Option.some_ne_none _

theorem br_taken (h : Rel delivered r t) {ip dest : BitVec 64} (hc : t.CanLeave ip dest) :
    ∃ r', r.brAction true ip dest = .ok r' ∧
      Rel delivered r' (t.leave ip ⟨true, false, false, .ofAddr dest⟩) := by
  obtain ⟨b, rest, hw, hs, hrel⟩ := h.leave hc
    (fun syl => { syl with taken := true, target := .ofAddr dest })
    ⟨true, false, false, .ofAddr dest⟩ rfl (.inl rfl)
    fun _ _ hrfi htrap => ⟨rfl, rfl, hrfi, htrap, rfl⟩
  exact ⟨_, brAction_taken hw hs, hrel⟩

theorem rf (h : Rel delivered r t) {destip ip : BitVec 64} (hc : t.CanLeave ip destip) :
    ∃ r', r.rfAction destip ip = .ok r' ∧
      Rel delivered r' (t.leave ip ⟨false, true, false, .ofAddr destip⟩) := by
  obtain ⟨b, rest, hw, hs, hrel⟩ := h.leave hc
    (fun syl => { syl with rfi := true, target := .ofAddr destip })
    ⟨false, true, false, .ofAddr destip⟩ rfl (.inr (.inl rfl))
    fun _ htaken _ htrap => ⟨rfl, htaken, rfl, htrap, rfl⟩
  exact ⟨_, rfAction_eq hw hs, hrel⟩

theorem br_notTaken (h : Rel delivered r t) {ip dest : BitVec 64}
    (hs : syllableId ip < numSyllables)
    (hc : ∀ x older, t.ran = x :: older → x.out ≠ none → syllableId ip + 1 ≠ x.stop) :
    ∃ r', r.brAction false ip dest = .ok r' ∧ Rel delivered r' t := by
  cases hw : r.window with
  | nil =>
      refine ⟨r, ?_, h⟩
      unfold Reader.brAction
      rw [hw]
  | cons b rest =>
      cases ht : t.ran with
      | nil =>
          have hbundles := h.bundles
          rw [hw, ht] at hbundles
          cases hbundles
      | cons x older =>
          obtain ⟨b', rest', hw', hmatch, -⟩ := h.head ht
          obtain ⟨rfl, rfl⟩ := List.cons.inj (hw'.symm.trans hw)
          have hlinked := h.linked
          rw [ht] at hlinked
          have hkeep := h.replace ht hw (hmatch.notTaken
            (IAddr.next ⟨bundleAddr b'.vpc, syllableId ip⟩) (hc x older ht)) rfl hlinked.1
            h.inBundle id
          refine ⟨_, brAction_notTaken hw hs, ?_⟩
          rw [← h.pos, ← ht] at hkeep
          have heta : (⟨t.ran, r.traceIP⟩ : Exec) = t := by rw [h.pos]
          rw [heta] at hkeep
          exact hkeep

/-! ### Interrupts -/

theorem tagInterrupt_some {target : IAddr} {n s : Nat} (h : b.lastOnPath n = some s) :
    Reader.tagInterrupt target n (b :: rest) = .ok (b.setSyllable s { b.syllable s with
      trap := true
      target := target } :: rest) := by
  rw [Reader.tagInterrupt, h]

theorem tagInterrupt_none (target : IAddr) {n : Nat} (h : b.lastOnPath n = none)
    (hne : rest ≠ []) :
    Reader.tagInterrupt target n (b :: rest)
      = Reader.tagInterrupt target numSyllables rest := by
  rw [Reader.tagInterrupt, h]
  exact if_neg hne

/-- The record of the interrupted bundle is taken not to be printed. -/
theorem inAction_of_ne {destip ip : BitVec 64} {window : List ControlBundle}
    (hw : r.window = b :: rest) (hvpc : b.vpc ≠ bundleAddr ip)
    (htag : Reader.tagInterrupt (.ofAddr destip) numSyllables (b :: rest) = .ok window) :
    r.inAction destip ip = .ok { r with window := window, traceIP := .ofAddr destip } := by
  unfold Reader.inAction
  rw [hw]
  dsimp only
  rw [if_pos hvpc, htag]
  rfl

theorem inAction_of_eq {destip ip : BitVec 64} {window : List ControlBundle}
    (hw : r.window = b :: rest) (hvpc : b.vpc = bundleAddr ip)
    (htag : Reader.tagInterrupt (.ofAddr destip) (syllableId ip)
      (b.markWrongpath (syllableId ip) :: rest) = .ok window) :
    r.inAction destip ip = .ok { r with window := window, traceIP := .ofAddr destip } := by
  unfold Reader.inAction
  rw [hw]
  dsimp only
  rw [if_neg (not_not.mpr hvpc), htag]
  rfl

/-- An interrupt that stops nothing of the last bundle tags its last syllable. -/
theorem intr_behind (h : Rel delivered r t) {destip ip : BitVec 64} (ht : t.ran = x :: older)
    (hdest : syllableId destip < numSyllables)
    (hbehind : x.addr = bundleAddr ip → x.stop ≤ syllableId ip) :
    ∃ r', r.inAction destip ip = .ok r' ∧
      Rel delivered r' ⟨x.trap (.ofAddr destip) :: older, .ofAddr destip⟩ := by
  obtain ⟨b, rest, hw, hmatch, -⟩ := h.head ht
  have hrange := hmatch.range
  by_cases hvpc : b.vpc = bundleAddr ip
  · have hstop := hbehind (hmatch.vpc.symm.trans hvpc)
    have hmark := hmatch.mark hstop
    refine ⟨_, inAction_of_eq hw hvpc (tagInterrupt_some (hmark.lastOnPath hstop
      (syllableId_le ip))), ?_⟩
    exact h.replace ht hw (hmark.trap _) rfl rfl hdest fun _ => Option.some_ne_none _
  · refine ⟨_, inAction_of_ne hw hvpc (tagInterrupt_some (hmatch.lastOnPath hrange.2
      (le_refl _))), ?_⟩
    exact h.replace ht hw (hmatch.trap _) rfl rfl hdest fun _ => Option.some_ne_none _

/-- An interrupt stops the bundle that runs behind its first syllables. -/
theorem intr_inside (h : Rel delivered r t) {destip ip : BitVec 64} (ht : t.ran = x :: older)
    (hdest : syllableId destip < numSyllables) (hopen : x.out = none)
    (haddr : x.addr = bundleAddr ip) {k : Nat} (hk : syllableId ip = k + 1)
    (hs : syllableId ip < numSyllables) (hentry : x.entry ≤ k) :
    ∃ r', r.inAction destip ip = .ok r' ∧
      Rel delivered r' ⟨x.leave k ⟨false, false, true, .ofAddr destip⟩ :: older,
        .ofAddr destip⟩ := by
  obtain ⟨b, rest, hw, hmatch, -⟩ := h.head ht
  have hstop := hmatch.whole hopen
  have hin : k < numSyllables := by omega
  have hbelow := b.markWrongpath_below (Nat.lt_succ_self k)
  have hpath := (hmatch.path k hin).mpr ⟨hentry, by omega⟩
  have hfound : (b.markWrongpath (syllableId ip)).lastOnPath (syllableId ip) = some k := by
    rw [hk, ControlBundle.lastOnPath, hbelow, if_pos hpath]
  have hplain := hmatch.plain k hentry (by omega) fun _ => hopen
  have hleave := hmatch.leave { b.syllable k with trap := true, target := .ofAddr destip }
    ⟨false, false, true, .ofAddr destip⟩ hopen hentry hin rfl
    ⟨hplain.1, hplain.2.1, rfl, rfl⟩ (.inr (.inr rfl))
  rw [b.markWrongpath_setSyllable (Nat.lt_succ_self k)] at hleave
  refine ⟨_, inAction_of_eq hw (hmatch.vpc.trans haddr) (tagInterrupt_some hfound), ?_⟩
  rw [hk, hbelow]
  exact h.replace ht hw hleave rfl rfl hdest fun _ => Option.some_ne_none _

/-- An interrupt stops the bundle before anything of it ran. -/
theorem intr_first (h : Rel delivered r t) {y : Ran} {destip ip : BitVec 64}
    (ht : t.ran = x :: y :: older) (hdest : syllableId destip < numSyllables)
    (hopen : x.out = none) (haddr : x.addr = bundleAddr ip) (hentry : x.entry = syllableId ip) :
    ∃ r', r.inAction destip ip = .ok r' ∧
      Rel delivered r' ⟨y.trap (.ofAddr destip) :: older, .ofAddr destip⟩ := by
  obtain ⟨b, rest, hw, hmatch, hrest⟩ := h.head ht
  have hnone : ∀ n ≤ x.entry, (b.markWrongpath (syllableId ip)).lastOnPath n = none := by
    intro n hn
    induction n with
    | zero => rfl
    | succ n ih =>
        have hrange := hmatch.range
        have hpath := hmatch.path n (by omega)
        rw [ControlBundle.lastOnPath, b.markWrongpath_below (by omega),
          if_neg (mt hpath.mp (by omega))]
        exact ih (by omega)
  cases hr : rest with
  | nil =>
      -- the bundle before it was delivered, so this one is not the one that runs
      rw [hr] at hw hrest
      have hdel : delivered ≠ [] := by
        rintro rfl
        cases hrest
      exact absurd hopen (h.alone (by rw [hw]; rfl) hdel x (y :: older) ht)
  | cons c rest =>
      rw [hr] at hw hrest
      rw [List.cons_append, List.forall₂_cons] at hrest
      have hmatch' := hrest.1
      have hfound := hmatch'.lastOnPath hmatch'.range.2 (le_refl _)
      have htag := (tagInterrupt_none (.ofAddr destip) (hnone (syllableId ip) (by omega))
        (List.cons_ne_nil c rest)).trans (tagInterrupt_some hfound)
      refine ⟨_, inAction_of_eq hw (hmatch.vpc.trans haddr) htag, ?_⟩
      exact h.rollBack ht hw (hmatch'.trap _) rfl rfl hdest (Option.some_ne_none _)

theorem intr (h : Rel delivered r t) {printed : Bool} {destip ip : BitVec 64}
    (hc : t.CarefulStep (.intr printed destip ip)) :
    ∃ r', r.inAction destip ip = .ok r' ∧ Rel delivered r' (t.step (.intr printed destip ip)) := by
  obtain ⟨hdest, x, older, ht, hc⟩ := hc
  by_cases hopen : printed = true ∧ x.out = none
  · rw [if_pos hopen] at hc
    obtain ⟨hprinted, hopen⟩ := hopen
    obtain ⟨haddr, hentry, hs, hfirst⟩ := hc
    subst hprinted
    unfold Exec.step
    dsimp only
    rw [if_pos rfl, ht, Exec.stopAt, if_pos hopen]
    by_cases hlt : x.entry < syllableId ip
    · obtain ⟨k, hk⟩ : ∃ k, syllableId ip = k + 1 := ⟨syllableId ip - 1, by omega⟩
      have hinside := h.intr_inside ht hdest hopen haddr hk hs (by omega)
      rw [if_pos hlt, Exec.trapLast, Ran.trap, hopen, hk]
      exact hinside
    · rw [if_neg hlt]
      cases older with
      | nil => exact absurd rfl (hfirst (by omega))
      | cons y older => exact h.intr_first ht hdest hopen haddr (by omega)
  · rw [if_neg hopen] at hc
    have hsame : (if printed = true then Exec.stopAt (syllableId ip) t.ran else t.ran)
        = x :: older := by
      rw [ht]
      by_cases hprinted : printed = true
      · rw [if_pos hprinted, Exec.stopAt, if_neg fun hout => hopen ⟨hprinted, hout⟩]
      · rw [if_neg hprinted]
    unfold Exec.step
    dsimp only
    rw [hsame]
    exact h.intr_behind ht hdest hc

/-! ### New bundles -/

/-- A bundle at the trace position, of which everything runs as far as is known. -/
theorem matches_newBundle (h : Rel delivered r t) (bits : BitVec 128) :
    Matches (r.newBundle bits) ⟨bits, t.pos.addr, t.pos.syllable, numSyllables, none⟩ := by
  have hin := h.inBundle
  constructor
  · rfl
  · exact congrArg IAddr.addr h.pos
  · exact ⟨hin, le_refl _⟩
  · intro s hs
    show decide (s < r.traceIP.syllable) = false ↔ t.pos.syllable ≤ s ∧ s < numSyllables
    rw [decide_eq_false_iff_not, h.pos]
    omega
  · exact fun _ _ _ _ => ⟨rfl, rfl, rfl⟩
  · intro _ _ _ hout
    cases hout
  · exact fun _ => rfl
  · intro _ hout
    cases hout

theorem bbAction_room {bits : BitVec 128} (hroom : r.window.length < wSize) :
    r.bbAction bits = ⟨r.newBundle bits :: r.window, r.traceIP.incBundle, none⟩ :=
  if_neg (Nat.ne_of_lt hroom)

theorem linked_step (h : Rel delivered r t) (bits : BitVec 128) :
    Linked (t.step (.bb bits)).pos (t.step (.bb bits)).ran := ⟨rfl, h.linked⟩

theorem bb (h : Rel delivered r t) (hroom : r.window.length < wSize) (bits : BitVec 128) :
    Rel delivered (r.bbAction bits) (t.step (.bb bits)) := by
  rw [bbAction_room hroom]
  constructor
  · exact .cons (h.matches_newBundle bits) h.bundles
  · exact congrArg IAddr.incBundle h.pos
  · exact hroom
  · rfl
  · intro hnil
    cases hnil
  · intro hlen hdel
    exact absurd (h.first (List.eq_nil_of_length_eq_zero (Nat.succ.inj hlen))) hdel
  · exact h.linked_step bits
  · exact Nat.zero_lt_succ 2

/-- The line of the third bundle: the oldest bundle is handed out. -/
theorem bb_slide (h : Rel delivered r t) (hfull : r.window.length = wSize) (bits : BitVec 128) :
    ∃ b, r.window.getLast? = some b ∧ Rel (delivered ++ [b])
      (Reader.takeLine (Reader.slide { r with bundleLineInBuffer := some bits }))
      (t.step (.bb bits)) := by
  obtain ⟨c, b, hw⟩ := List.length_eq_two.mp hfull
  have hslide : Reader.takeLine (Reader.slide { r with bundleLineInBuffer := some bits })
      = ⟨r.newBundle bits :: [c], r.traceIP.incBundle, none⟩ := by
    unfold Reader.slide
    dsimp only
    rw [hw]
    rfl
  have hbundles := h.bundles
  rw [hw] at hbundles
  refine ⟨b, by rw [hw]; rfl, ?_⟩
  rw [hslide]
  constructor
  · rw [List.reverse_append]
    exact .cons (h.matches_newBundle bits) hbundles
  · exact congrArg IAddr.incBundle h.pos
  · exact le_refl _
  · rfl
  · intro hnil
    cases hnil
  · intro hlen
    cases hlen
  · exact h.linked_step bits
  · exact Nat.zero_lt_succ 2

/-- **Every event but a new bundle keeps the relation.** -/
theorem step (h : Rel delivered r t) {e : Event} (hc : t.CarefulStep e)
    (hbb : ∀ bits, e ≠ .bb bits) :
    ∃ r', r.action e.record = .ok r' ∧ Rel delivered r' (t.step e) := by
  cases e with
  | bb bits => exact absurd rfl (hbb bits)
  | br taken ip dest =>
      cases taken with
      | true => exact h.br_taken hc
      | false => exact h.br_notTaken hc.1 hc.2
  | rf destip ip => exact h.rf hc
  | intr printed destip ip => exact h.intr hc
  | other => exact ⟨r, rfl, h⟩

end Rel

/-! ### Whole files -/

namespace Reader

/-- The rest of a call of `GetNextBundle`, and the calls after it. -/
def resume (fuel : Nat) (r : Reader) (records : List Record) :
    Except String (List ControlBundle) := do
  let (r, records) ← readRecords r records
  match r.window.getLast? with
  | none => .ok []
  | some b =>
      let bundles ← deliver fuel r records
      .ok (b :: bundles)

theorem deliver_succ (fuel : Nat) (r : Reader) (records : List Record) :
    deliver (fuel + 1) r records = resume fuel r.slide.takeLine records := by
  rw [deliver, getNextBundle, resume]
  cases readRecords r.slide.takeLine records with
  | error msg => rfl
  | ok result =>
      obtain ⟨r', records'⟩ := result
      dsimp only [bind, Except.bind]
      cases r'.window.getLast? <;> rfl

theorem resume_none {r' : Reader} {record : Record} (hact : r.action record = .ok r')
    (hline : r'.bundleLineInBuffer = none) (fuel : Nat) (records : List Record) :
    resume fuel r (record :: records) = resume fuel r' records := by
  have hread : readRecords r (record :: records) = readRecords r' records := by
    rw [readRecords, hact]
    dsimp only [bind, Except.bind]
    rw [hline]
    rfl
  rw [resume, hread, resume]

theorem resume_some {r' : Reader} {record : Record} (hact : r.action record = .ok r')
    (hline : r'.bundleLineInBuffer.isSome = true) (hlast : r'.window.getLast? = some b)
    {fuel : Nat} {records : List Record} {bundles : List ControlBundle}
    (hrest : resume fuel r'.slide.takeLine records = .ok bundles) :
    resume (fuel + 1) r (record :: records) = .ok (b :: bundles) := by
  have hread : readRecords r (record :: records) = .ok (r', records) := by
    rw [readRecords, hact]
    dsimp only [bind, Except.bind]
    rw [if_pos hline]
  rw [resume, hread]
  dsimp only [bind, Except.bind]
  rw [hlast]
  dsimp only
  rw [deliver_succ, hrest]

end Reader

/-- The window is handed out at the end of the file. -/
theorem Rel.finish (h : Rel delivered r t) :
    Reader.resume 2 r [] = .ok r.window.reverse := by
  have hsmall := h.small
  have hline := h.line
  obtain ⟨window, traceIP, line⟩ := r
  subst hline
  rcases window with _ | ⟨b, _ | ⟨c, _ | ⟨d, window⟩⟩⟩
  · rfl
  · rfl
  · rfl
  · simp only [List.length_cons, wSize] at hsmall
    omega

/-- **A careful run is delivered to its end.** -/
theorem Rel.run (h : Rel delivered r t) (events : List Event) (hc : t.Careful events) :
    ∃ fuel bundles, Reader.resume fuel r (events.map Event.record) = .ok bundles ∧
      List.Forall₂ Matches (delivered ++ bundles).reverse (t.run events).ran ∧
        Linked (t.run events).pos (t.run events).ran := by
  induction events generalizing delivered r t with
  | nil =>
      refine ⟨2, r.window.reverse, h.finish, ?_, h.linked⟩
      rw [List.reverse_append, List.reverse_reverse]
      exact h.bundles
  | cons e events ih =>
      obtain ⟨hstep, hrest⟩ := hc
      by_cases hbb : ∃ bits, e = .bb bits
      · obtain ⟨bits, rfl⟩ := hbb
        by_cases hfull : r.window.length = wSize
        · obtain ⟨b, hlast, hrel⟩ := h.bb_slide hfull bits
          obtain ⟨fuel, bundles, hrun, hmatch, hlinked⟩ := ih hrel hrest
          have hact : r.action (.bb bits) = .ok { r with bundleLineInBuffer := some bits } :=
            congrArg Except.ok (if_pos hfull)
          refine ⟨fuel + 1, b :: bundles, Reader.resume_some hact rfl hlast hrun, ?_, hlinked⟩
          rwa [List.append_assoc, List.singleton_append] at hmatch
        · have hrel := h.bb (Nat.lt_of_le_of_ne h.small hfull) bits
          obtain ⟨fuel, bundles, hrun, hmatch⟩ := ih hrel hrest
          refine ⟨fuel, bundles, ?_, hmatch⟩
          have hact : r.action (Event.bb bits).record = .ok (r.bbAction bits) := rfl
          rw [List.map_cons, Reader.resume_none hact hrel.line]
          exact hrun
      · obtain ⟨r', hact, hrel⟩ := h.step hstep fun bits heq => hbb ⟨bits, heq⟩
        obtain ⟨fuel, bundles, hrun, hmatch⟩ := ih hrel hrest
        refine ⟨fuel, bundles, ?_, hmatch⟩
        rw [List.map_cons, Reader.resume_none hact hrel.line]
        exact hrun

/-! ### The instructions -/

theorem filter_range {e n : Nat} (hlt : e < n) (hle : n ≤ numSyllables) :
    (List.range numSyllables).filter (fun s => decide (e ≤ s ∧ s < n)) = List.range' e (n - e) := by
  unfold numSyllables at *
  interval_cases n <;> interval_cases e <;> rfl

namespace Matches

variable {s : Nat}

/-- What is on the path of a bundle is what ran. -/
theorem onPath (h : Matches b x) : (b.insts.filter fun i => !i.wrongpath)
    = (List.range' x.entry (x.stop - x.entry)).map b.inst := by
  rw [ControlBundle.insts, List.filter_map, ← filter_range h.range.1 h.range.2]
  congr 1
  refine List.filter_congr fun s hs => ?_
  have hpath := h.path s (List.mem_range.mp hs)
  show (!(b.syllable s).wrongpath) = _
  rw [Bool.eq_iff_iff, decide_eq_true_iff, ← hpath, Bool.not_eq_true']

/-- A syllable with others behind it goes on to the next. -/
theorem successor_plain (h : Matches b x) (hentry : x.entry ≤ s) (hs : s + 1 < x.stop) :
    (b.inst s).successor = ⟨b.vpc, s + 1⟩ := by
  have hrange := h.range
  obtain ⟨htaken, hrfi, htrap⟩ := h.plain s hentry (by omega) fun hlast => absurd hlast (by omega)
  have hnone : ¬ ((b.inst s).taken = true ∨ (b.inst s).rfi = true ∨ (b.inst s).trap = true) := by
    simp [ControlBundle.inst, htaken, hrfi, htrap]
  have hnext : s + 1 < numSyllables := by omega
  rw [TraceInst.successor, if_neg hnone]
  exact if_pos hnext

/-- The last one goes on where the program does. -/
theorem successor_last (h : Matches b x) (hs : s + 1 = x.stop) :
    (b.inst s).successor = x.after := by
  have hrange := h.range
  rw [TraceInst.successor, Ran.after]
  cases hout : x.out with
  | none =>
      obtain ⟨htaken, hrfi, htrap⟩ := h.plain s (by omega) (by omega) fun _ => hout
      have hnone : ¬ ((b.inst s).taken = true ∨ (b.inst s).rfi = true ∨
          (b.inst s).trap = true) := by
        simp [ControlBundle.inst, htaken, hrfi, htrap]
      have hend : ¬ s + 1 < numSyllables := by
        rw [hs, h.whole hout]
        exact Nat.lt_irrefl _
      rw [if_neg hnone, ← h.vpc]
      exact if_neg hend
  | some t =>
      obtain ⟨htaken, hrfi, htrap, htarget⟩ := h.last s t hs hout
      have hsome : (b.inst s).taken = true ∨ (b.inst s).rfi = true ∨ (b.inst s).trap = true := by
        have hleft := h.left t hout
        rw [← htaken, ← hrfi, ← htrap] at hleft
        exact hleft
      rw [if_pos hsome]
      exact htarget

end Matches

/-- A list of syllables, each of which says where the next one is. -/
theorem isChain_range' {f : Nat → TraceInst} {n e : Nat}
    (h : ∀ s, e ≤ s → s + 1 < e + n → (f (s + 1)).pc = (f s).successor) :
    ((List.range' e n).map f).IsChain fun i j => j.pc = i.successor := by
  induction n generalizing e with
  | zero => exact .nil
  | succ n ih =>
      rw [List.range'_succ, List.map_cons, List.isChain_cons]
      refine ⟨?_, ih fun s hs hn => h s (by omega) (by omega)⟩
      cases n with
      | zero =>
          intro j hj
          cases hj
      | succ n =>
          intro j hj
          obtain rfl := Option.some.inj hj
          exact h e (le_refl e) (by omega)

theorem onPath_append (bundles bundles' : List ControlBundle) :
    onPath (bundles ++ bundles') = onPath bundles ++ onPath bundles' := by
  rw [onPath, List.flatMap_append, List.filter_append, onPath, onPath]

theorem onPath_singleton (b : ControlBundle) :
    onPath [b] = b.insts.filter fun i => !i.wrongpath := by
  rw [onPath, List.flatMap_singleton]

/-- **The instructions on the path are those that ran, each where the one before says.** -/
theorem onPath_spec {bundles : List ControlBundle} {ran : List Ran}
    (h : List.Forall₂ Matches bundles ran) (hlinked : Linked pos ran) :
    (onPath bundles.reverse).map (fun i => (i.bits, i.pc)) = ran.reverse.flatMap Ran.syllables ∧
      (onPath bundles.reverse).IsChain (fun i j => j.pc = i.successor) ∧
        ∀ i ∈ (onPath bundles.reverse).getLast?, i.successor = pos := by
  induction h generalizing pos with
  | nil =>
      refine ⟨rfl, .nil, ?_⟩
      intro i hi
      cases hi
  | @cons b x bundles ran hmatch _ ih =>
      obtain ⟨hpos, hlinked⟩ := hlinked
      obtain ⟨hmap, hchain, hlast⟩ := ih hlinked
      have hrange := hmatch.range
      have hone := (onPath_singleton b).trans hmatch.onPath
      have hcount : x.stop - x.entry ≠ 0 := by omega
      rw [List.reverse_cons, List.reverse_cons, onPath_append, List.flatMap_append,
        List.flatMap_singleton, List.map_append, hmap, hone]
      refine ⟨?_, ?_, ?_⟩
      · rw [List.map_map, Ran.syllables, ← hmatch.bits, ← hmatch.vpc]
        rfl
      · rw [List.isChain_append]
        refine ⟨hchain, isChain_range' fun s hs hn => ?_, fun i hi j hj => ?_⟩
        · exact (hmatch.successor_plain hs (by omega)).symm
        · rw [List.head?_map, List.head?_range', if_neg hcount] at hj
          obtain rfl := Option.some.inj hj
          rw [hlast i hi, Ran.start, ← hmatch.vpc]
          rfl
      · intro i hi
        rw [List.getLast?_append, List.getLast?_map, List.getLast?_range', if_neg hcount] at hi
        obtain rfl := Option.some.inj hi
        rw [hpos]
        exact hmatch.successor_last (by omega)

theorem Rel.start {dest : BitVec 64} (hdest : syllableId dest < numSyllables) :
    Rel [] (Reader.takeLine (Reader.slide (Reader.new dest))) (Exec.new dest) := by
  constructor
  · exact .nil
  · rfl
  · exact Nat.zero_le wSize
  · rfl
  · exact fun _ => rfl
  · intro hlen
    cases hlen
  · trivial
  · exact hdest

/-- **The reader delivers every careful run.** -/
theorem delivers_of_careful (dest : BitVec 64) (hdest : syllableId dest < numSyllables)
    (events : List Event) (hcareful : (Exec.new dest).Careful events) :
    ∃ fuel bundles,
      Reader.deliver fuel (Reader.new dest) (events.map Event.record) = .ok bundles ∧
        Delivers bundles ((Exec.new dest).run events) := by
  obtain ⟨fuel, bundles, hrun, hmatch, hlinked⟩ := (Rel.start hdest).run events hcareful
  rw [List.nil_append] at hmatch
  have hspec := onPath_spec hmatch hlinked
  rw [List.reverse_reverse] at hspec
  refine ⟨fuel + 1, bundles, (Reader.deliver_succ ..).trans hrun, ?_, hspec.1, hspec.2.1⟩
  have hforward := List.rel_reverse hmatch
  rw [List.reverse_reverse] at hforward
  exact hforward.imp fun b x h => ⟨h.bits, h.vpc, h.path⟩

/-- A bundle that loops, is interrupted in its second round, and is returned to. -/
def loopEvents : List Event :=
  [.bb 1, .br true 0x1002 0x1000, .bb 1, .intr true 0x5000 0x1001, .bb 2, .rf 0x1001 0x5002, .bb 1]

theorem delivers_of_careful_loop :
    ∃ fuel bundles,
      Reader.deliver fuel (Reader.new 0x1000) (loopEvents.map Event.record) = .ok bundles ∧
        Delivers bundles ((Exec.new 0x1000).run loopEvents) := by
  refine delivers_of_careful 0x1000 (by decide) loopEvents ?_
  refine ⟨trivial, ⟨by decide, _, _, rfl, rfl, by decide, by decide⟩, trivial,
    ⟨by decide, _, _, rfl, ?_⟩, trivial, ⟨by decide, _, _, rfl, rfl, by decide, by decide⟩,
    trivial, trivial⟩
  exact ⟨rfl, by decide, by decide, fun h => absurd h (by decide)⟩

/-- The same bundle, interrupted before its second round was printed. -/
def unprintedEvents : List Event :=
  [.bb 1, .br true 0x1002 0x1000, .intr false 0x5000 0x1000]

/-- **An interrupt before the second round is taken for one in the first.** -/
theorem not_always_delivers :
    ¬ ∀ (dest : BitVec 64) (events : List Event), syllableId dest < numSyllables →
      (Exec.new dest).WellFormed events → ∃ fuel bundles,
        Reader.deliver fuel (Reader.new dest) (events.map Event.record) = .ok bundles ∧
          Delivers bundles ((Exec.new dest).run events) := by
  intro hall
  have hwf : (Exec.new 0x1000).WellFormed unprintedEvents :=
    ⟨trivial, ⟨⟨_, _, rfl, rfl, rfl, by decide, by decide⟩, by decide⟩,
      ⟨by decide, rfl⟩, trivial⟩
  obtain ⟨fuel, bundles, hrun, -⟩ := hall 0x1000 unprintedEvents (by decide) hwf
  cases fuel with
  | zero => cases hrun
  | succ fuel =>
      have hfail : Reader.resume fuel (Reader.takeLine (Reader.slide (Reader.new 0x1000)))
          (unprintedEvents.map Event.record) = .error "wPtr > 0" := rfl
      rw [Reader.deliver_succ, hfail] at hrun
      cases hrun

end AsimFeeder.Gtrace
