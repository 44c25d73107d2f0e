/-
Markers below 32 are independent flags.

An operation reaches the instruction at its address and no other one, and the walk over the
translation buffer reaches each instruction of each text page.  The masks of the markers
below 32 have no bit in common, so one marker does not change another.
-/
import AsimFeeder.Lib.Loops
import AsimFeeder.Aint.SharedSegments
import AsimFeeder.Aint.Markers

namespace AsimFeeder.Aint.Markers

open Lib

/-! ### Masks -/

theorem mask_and {i j : Nat} (hi : i < 32) (hj : j < 32) (hne : i ≠ j) : mask i &&& mask j = 0 := by
  have hall : ∀ i : Fin 32, ∀ j : Fin 32, i ≠ j → mask i.val &&& mask j.val = 0 := by
    decide +kernel
  exact hall ⟨i, hi⟩ ⟨j, hj⟩ fun heq => hne (Fin.mk.inj heq)

theorem mask_ne_zero {i : Nat} (hi : i < 32) : mask i ≠ 0 := by
  have hall : ∀ i : Fin 32, mask i.val ≠ 0 := by decide +kernel
  exact hall ⟨i, hi⟩

theorem clearMask_eq {i : Nat} (hi : i < 32) : clearMask i = ~~~ mask i := by
  have hall : ∀ i : Fin 32, clearMask i.val = ~~~ mask i.val := by decide +kernel
  exact hall ⟨i, hi⟩

namespace TextIcode

variable (ic : TextIcode) {i j : Nat}

theorem isSet_set (hi : i < 32) : (ic.set i).isSet i = true := by
  have hsub : (ic.markers ||| mask i) &&& mask i = mask i := by
    ext k hk
    simp
    grind
  unfold isSet set
  dsimp only
  rw [hsub]
  exact decide_eq_true (mask_ne_zero hi)

theorem isSet_set_of_ne (hi : i < 32) (hj : j < 32) (hne : i ≠ j) :
    (ic.set i).isSet j = ic.isSet j := by
  unfold isSet set
  dsimp only
  have hor : (ic.markers ||| mask i) &&& mask j = ic.markers &&& mask j ||| mask i &&& mask j := by
    ext k hk
    simp
    grind
  rw [hor, mask_and hi hj hne]
  simp

theorem set_set (i : Nat) : (ic.set i).set i = ic.set i := by
  unfold set
  dsimp only
  rw [BitVec.or_assoc, BitVec.or_self]

theorem clear_clear (i : Nat) : (ic.clear i).clear i = ic.clear i := by
  unfold clear
  dsimp only
  rw [BitVec.and_assoc, BitVec.and_self]

theorem isSet_clear (hi : i < 32) : (ic.clear i).isSet i = false := by
  unfold isSet clear
  rw [clearMask_eq hi, decide_eq_false_iff_not, not_not, BitVec.and_assoc,
    BitVec.and_comm (~~~ mask i)]
  simp

theorem isSet_clear_of_ne (hi : i < 32) (hj : j < 32) (hne : i ≠ j) :
    (ic.clear i).isSet j = ic.isSet j := by
  have hsame : ic.markers &&& clearMask i &&& mask j = ic.markers &&& mask j := by
    have hdisjoint := mask_and hi hj hne
    rw [clearMask_eq hi]
    ext k hk
    have hbit : (mask i &&& mask j).getLsbD k = false := by
      rw [hdisjoint]
      simp
    simp [BitVec.getLsbD_eq_getElem hk] at hbit ⊢
    grind
  unfold isSet clear
  dsimp only
  rw [hsame]

end TextIcode

/-! ### Addresses -/

/-- The tag of a page and its bucket give its address back. -/
theorem toNat_textaddr (a : UInt64) {i : Nat} (hi : i < 65536) :
    (textaddr (TB_TAG (TB_VPAGE a)) (TB_KEY (TB_VPAGE a)) i).toNat
      = a.toNat - a.toNat % 65536 + i := by
  have ha := a.toNat_lt
  have hkey : TB_KEY (TB_VPAGE a) = a.toNat / 65536 % 256 := by
    unfold TB_KEY TB_VPAGE TB_SIZE
    rw [toInt64_eq]
    split <;> omega
  have htagInt : (UInt64.ofInt (TB_TAG (TB_VPAGE a))).toNat % 2 ^ 40 = a.toNat / 2 ^ 24 := by
    unfold UInt64.ofInt TB_TAG TB_VPAGE TB_SIZE
    rw [UInt64.toNat_ofNat', toInt64_eq]
    split <;> omega
  have htag : ((UInt64.ofInt (TB_TAG (TB_VPAGE a))) <<< 24).toNat =
    2 ^ 24 * (a.toNat / 2 ^ 24) := by
    have hcount : (24 : UInt64).toNat % 64 = 24 := rfl
    rw [UInt64.toNat_shiftLeft, hcount, Nat.shiftLeft_eq]
    omega
  have hbucket : (UInt64.ofNat (TB_KEY (TB_VPAGE a)) <<< 16).toNat
      = a.toNat / 65536 % 256 * 65536 := by
    have hcount : (16 : UInt64).toNat % 64 = 16 := rfl
    rw [UInt64.toNat_shiftLeft, hcount, Nat.shiftLeft_eq, hkey, UInt64.toNat_ofNat']
    omega
  have hbyte : (UInt64.ofNat i).toNat = i := by
    rw [UInt64.toNat_ofNat']
    omega
  unfold textaddr
  rw [UInt64.toNat_add, UInt64.toNat_or, htag, hbucket, ← Nat.two_pow_add_eq_or_of_lt (by omega),
    hbyte]
  omega

theorem sameInst_iff {a b : UInt64} :
    sameInst a b = true ↔ TB_VPAGE a = TB_VPAGE b ∧ ITB_OFFSET a = ITB_OFFSET b := by
  unfold sameInst ITB_OFFSET
  rw [decide_eq_true_eq, vpage_eq_iff]
  omega

namespace TextProcess

/-! ### The translation buffer -/

structure Sound (p : TextProcess) : Prop where
  aimed : ∀ tbn, (p.TB tbn).Aimed
  known : ∀ tbn tag pg, (p.TB tbn).Maps tag pg → pg < p.entries ∧
    ∃ addr, tbn = TB_KEY (TB_VPAGE addr) ∧ tag = TB_TAG (TB_VPAGE addr)
  unique : ∀ tbn tag tbn' tag' pg, (p.TB tbn).Maps tag pg → (p.TB tbn').Maps tag' pg →
    tbn = tbn' ∧ tag = tag'

/-- The same entries, and the same segments. -/
structure SameEntries (q p : TextProcess) : Prop where
  maps : ∀ tbn tag pg, (q.TB tbn).Maps tag pg ↔ (p.TB tbn).Maps tag pg
  entries : q.entries = p.entries
  mapped : q.mapped = p.mapped

variable {p q : TextProcess} {addr : UInt64} {pg : Nat}

theorem SameEntries.refl (p : TextProcess) : SameEntries p p := ⟨fun _ _ _ => Iff.rfl, rfl, rfl⟩

theorem SameEntries.trans {r : TextProcess} (h : SameEntries r q) (h' : SameEntries q p) :
    SameEntries r p :=
  ⟨fun tbn tag pg => (h.maps tbn tag pg).trans (h'.maps tbn tag pg),
    h.entries.trans h'.entries, h.mapped.trans h'.mapped⟩

theorem SameEntries.sound (h : SameEntries q p) (hp : p.Sound) (haimed : ∀ tbn, (q.TB tbn).Aimed) :
    q.Sound := by
  refine ⟨haimed, ?_, ?_⟩
  · intro tbn tag pg hpg
    rw [h.entries]
    exact hp.known tbn tag pg ((h.maps tbn tag pg).mp hpg)
  · intro tbn tag tbn' tag' pg hpg hpg'
    exact hp.unique tbn tag tbn' tag' pg ((h.maps tbn tag pg).mp hpg)
      ((h.maps tbn' tag' pg).mp hpg')

theorem Sound.entryAt_iff (h : p.Sound) :
    p.entryAt addr = some pg ↔ (p.TB (TB_KEY (TB_VPAGE addr))).Maps
      (TB_TAG (TB_VPAGE addr)) pg := by
  have haimed := h.aimed (TB_KEY (TB_VPAGE addr))
  unfold entryAt
  constructor
  · intro hentry
    obtain ⟨tbe, hfind, rfl⟩ := Option.map_eq_some_iff.mp hentry
    have hkey := List.find?_some hfind
    rw [decide_eq_true_eq] at hkey
    exact ⟨tbe, List.mem_of_find?_eq_some hfind, hkey, rfl⟩
  · intro hmaps
    have hcell := hmaps
    obtain ⟨tbe, hmem, hkey, -⟩ := hcell
    have hsome : ((p.TB (TB_KEY (TB_VPAGE addr))).find? fun tbe =>
        tbe.key = TB_TAG (TB_VPAGE addr)).isSome :=
      List.find?_isSome.mpr ⟨tbe, hmem, by simpa using hkey⟩
    obtain ⟨found, hfound⟩ := Option.isSome_iff_exists.mp hsome
    have hfoundKey := List.find?_some hfound
    rw [decide_eq_true_eq] at hfoundKey
    rw [hfound, Option.map_some, Option.some_inj]
    exact haimed.maps_inj ⟨found, List.mem_of_find?_eq_some hfound, hfoundKey, rfl⟩ hmaps

theorem SameEntries.entryAt (h : SameEntries q p) (hp : p.Sound) (hq : q.Sound) (a : UInt64) :
    q.entryAt a = p.entryAt a := by
  apply Option.ext
  intro pg
  rw [hq.entryAt_iff, hp.entryAt_iff, h.maps]

theorem SameEntries.textAt (h : SameEntries q p) (hp : p.Sound) (hq : q.Sound)
    (htext : q.textpage = p.textpage) (a : UInt64) : q.textAt a = p.textAt a := by
  unfold TextProcess.textAt
  rw [h.entryAt hp hq, htext]

/-- An entry is that of one page. -/
theorem Sound.entryAt_inj (h : p.Sound) {a b : UInt64} (ha : p.entryAt a = some pg)
    (hb : p.entryAt b = some pg) : TB_VPAGE a = TB_VPAGE b := by
  obtain ⟨hkey, htag⟩ := h.unique _ _ _ _ pg (h.entryAt_iff.mp ha) (h.entryAt_iff.mp hb)
  exact vpage_inj hkey htag

theorem entryAt_congr {a b : UInt64} (h : TB_VPAGE a = TB_VPAGE b) : p.entryAt a = p.entryAt b := by
  unfold entryAt
  rw [h]

/-- A text page is changed, and with it the instructions of one page. -/
theorem Sound.textAt_update (h : p.Sound) (hentry : p.entryAt addr = some pg)
    (text : Nat → TextIcode) (a : UInt64) :
    ({ p with textpage := Function.update p.textpage pg (some text) } : TextProcess).textAt a
      = if TB_VPAGE a = TB_VPAGE addr then some (text (ITB_OFFSET a)) else p.textAt a := by
  have hsame : ({ p with textpage := Function.update p.textpage pg (some text) } :
      TextProcess).entryAt a = p.entryAt a := rfl
  unfold textAt
  rw [hsame]
  by_cases hpage : TB_VPAGE a = TB_VPAGE addr
  · rw [if_pos hpage, entryAt_congr hpage, hentry]
    simp
  · rw [if_neg hpage]
    cases hother : p.entryAt a with
    | none => rfl
    | some pg' =>
        have hne : pg' ≠ pg := by
          rintro rfl
          exact hpage (h.entryAt_inj hother hentry)
        simp [Function.update_of_ne hne]

/-! ### Looking up an instruction -/

/-- What a lookup leaves: the entry of the address is there. -/
structure Looked (p : TextProcess) (addr : UInt64) (pg : Nat) (q : TextProcess) : Prop where
  sound : q.Sound
  entry : q.entryAt addr = some pg
  mapped : q.mapped = p.mapped
  text : ∀ a, q.textAt a = p.textAt a
  same : (p.entryAt addr).isSome → SameEntries q p ∧ q.textpage = p.textpage
  fresh : p.entryAt addr = none → q.textpage pg = none

/-- The process after a new entry was made for a page. -/
def withEntry (p : TextProcess) (addr : UInt64) : TextProcess :=
  { p with
    TB := Function.update p.TB (TB_KEY (TB_VPAGE addr))
      ((p.TB (TB_KEY (TB_VPAGE addr))).push (TB_TAG (TB_VPAGE addr)) p.entries)
    textpage := Function.update p.textpage p.entries none
    entries := p.entries + 1 }

theorem maps_withEntry {tbn : Nat} {tag : Int} :
    ((p.withEntry addr).TB tbn).Maps tag pg ↔
      tbn = TB_KEY (TB_VPAGE addr) ∧ tag = TB_TAG (TB_VPAGE addr) ∧ pg = p.entries ∨
        (p.TB tbn).Maps tag pg := by
  unfold withEntry
  by_cases htbn : tbn = TB_KEY (TB_VPAGE addr)
  · subst htbn
    simp only [Function.update_self, Chain.maps_push, true_and]
  · simp only [Function.update_of_ne htbn, htbn, false_and, false_or]

theorem Sound.withEntry (h : p.Sound) (hnone : p.entryAt addr = none) :
    (p.withEntry addr).Sound := by
  have hnew : ∀ pg, ¬ (p.TB (TB_KEY (TB_VPAGE addr))).Maps (TB_TAG (TB_VPAGE addr)) pg := by
    intro pg hpg
    rw [h.entryAt_iff.mpr hpg] at hnone
    cases hnone
  refine ⟨?_, ?_, ?_⟩
  · intro tbn
    unfold TextProcess.withEntry
    by_cases htbn : tbn = TB_KEY (TB_VPAGE addr)
    · subst htbn
      simp only [Function.update_self]
      exact (h.aimed _).push hnew _
    · simp only [Function.update_of_ne htbn]
      exact h.aimed tbn
  · intro tbn tag pg hpg
    show pg < p.entries + 1 ∧ _
    rcases maps_withEntry.mp hpg with ⟨htbn, htag, rfl⟩ | hpg
    · exact ⟨Nat.lt_succ_self _, addr, htbn, htag⟩
    · obtain ⟨hlt, hknown⟩ := h.known tbn tag pg hpg
      exact ⟨Nat.lt_succ_of_lt hlt, hknown⟩
  · intro tbn tag tbn' tag' pg hpg hpg'
    rcases maps_withEntry.mp hpg with ⟨htbn, htag, hnew⟩ | hpg
    · rcases maps_withEntry.mp hpg' with ⟨htbn', htag', -⟩ | hpg'
      · exact ⟨htbn.trans htbn'.symm, htag.trans htag'.symm⟩
      · exact absurd (hnew ▸ (h.known _ _ _ hpg').1) (Nat.lt_irrefl _)
    · rcases maps_withEntry.mp hpg' with ⟨-, -, hnew⟩ | hpg'
      · exact absurd (hnew ▸ (h.known _ _ _ hpg).1) (Nat.lt_irrefl _)
      · exact h.unique _ _ _ _ _ hpg hpg'

theorem Sound.textAt_withEntry (h : p.Sound) (hnone : p.entryAt addr = none) (a : UInt64) :
    (p.withEntry addr).textAt a = p.textAt a := by
  have hq := h.withEntry hnone
  unfold textAt
  by_cases hpage : TB_VPAGE a = TB_VPAGE addr
  · have hentry : (p.withEntry addr).entryAt a = some p.entries := by
      rw [entryAt_congr hpage, hq.entryAt_iff, maps_withEntry]
      exact Or.inl ⟨rfl, rfl, rfl⟩
    rw [hentry, entryAt_congr hpage, hnone]
    unfold TextProcess.withEntry
    simp
  · have hentry : (p.withEntry addr).entryAt a = p.entryAt a := by
      apply Option.ext
      intro pg
      rw [hq.entryAt_iff, h.entryAt_iff, maps_withEntry]
      refine or_iff_right ?_
      rintro ⟨hkey, htag, -⟩
      exact hpage (vpage_inj hkey htag)
    rw [hentry]
    cases hother : p.entryAt a with
    | none => rfl
    | some pg =>
        have hne : pg ≠ p.entries := Nat.ne_of_lt (h.known _ _ _ (h.entryAt_iff.mp hother)).1
        unfold TextProcess.withEntry
        simp [Function.update_of_ne hne]

theorem tlb_lookup_looked (h : p.Sound) (hthere : p.mapped addr = true ∨ (p.entryAt addr).isSome) :
    ∃ pg q, p.tlb_lookup addr = some (some pg, q) ∧ Looked p addr pg q := by
  have hfound := (h.aimed (TB_KEY (TB_VPAGE addr))).look (TB_TAG (TB_VPAGE addr))
  unfold tlb_lookup
  dsimp only
  generalize (p.TB (TB_KEY (TB_VPAGE addr))).look (TB_TAG (TB_VPAGE addr)) = looked at hfound
  cases hfound with
  | @hit cell chain hcell hchain hmaps =>
      have hsame : SameEntries
          { p with TB := Function.update p.TB (TB_KEY (TB_VPAGE addr)) chain } p := by
        refine ⟨?_, rfl, rfl⟩
        intro tbn tag pg
        by_cases htbn : tbn = TB_KEY (TB_VPAGE addr)
        · subst htbn
          simp only [Function.update_self]
          exact hmaps tag pg
        · simp only [Function.update_of_ne htbn]
      have hsound : TextProcess.Sound
          { p with TB := Function.update p.TB (TB_KEY (TB_VPAGE addr)) chain } := by
        refine hsame.sound h ?_
        intro tbn
        by_cases htbn : tbn = TB_KEY (TB_VPAGE addr)
        · subst htbn
          simp only [Function.update_self]
          exact hchain
        · simp only [Function.update_of_ne htbn]
          exact h.aimed tbn
      have hentry : p.entryAt addr = some cell.value := h.entryAt_iff.mpr hcell
      refine ⟨cell.value, _, rfl, hsound, ?_, rfl, ?_, fun _ => ⟨hsame, rfl⟩, ?_⟩
      · rw [hsame.entryAt h hsound, hentry]
      · exact hsame.textAt h hsound rfl
      · intro hnone
        rw [hentry] at hnone
        cases hnone
  | miss hnew =>
      have hnone : p.entryAt addr = none := by
        cases hentry : p.entryAt addr with
        | none => rfl
        | some pg => exact absurd (h.entryAt_iff.mp hentry) (hnew pg)
      have hmapped : p.mapped addr = true := by
        refine hthere.resolve_right ?_
        rw [hnone]
        exact Bool.false_ne_true
      have hsound := h.withEntry hnone
      refine ⟨p.entries, p.withEntry addr, ?_, hsound, ?_, rfl, ?_, ?_, ?_⟩
      · dsimp only
        rw [if_pos hmapped]
        rfl
      · rw [hsound.entryAt_iff, maps_withEntry]
        exact Or.inl ⟨rfl, rfl, rfl⟩
      · exact h.textAt_withEntry hnone
      · intro hsome
        rw [hnone] at hsome
        cases hsome
      · intro _
        exact Function.update_self p.entries none p.textpage

/-! ### Changing an instruction -/

/-- The operation has changed the instruction at its address. -/
structure Changed (p : TextProcess) (f : TextIcode → TextIcode) (addr : UInt64) (q : TextProcess) :
    Prop where
  sound : q.Sound
  mapped : q.mapped = p.mapped
  text : ∀ a, q.textAt a = if TB_VPAGE a = TB_VPAGE addr then
      some (if sameInst a addr then f ((p.textAt a).getD ⟨0, 0⟩) else (p.textAt a).getD ⟨0, 0⟩)
    else p.textAt a
  same : (p.textAt addr).isSome → SameEntries q p ∧
    ∀ pg, (q.textpage pg).isSome = (p.textpage pg).isSome

theorem textAt_eq {text : Nat → TextIcode} (hentry : p.entryAt addr = some pg)
    (htext : p.textpage pg = some text) {a : UInt64} (hpage : TB_VPAGE a = TB_VPAGE addr) :
    p.textAt a = some (text (ITB_OFFSET a)) := by
  unfold textAt
  rw [entryAt_congr hpage, hentry, Option.bind_some, htext, Option.map_some]

theorem textAt_eq_none (hentry : p.entryAt addr = some pg) (htext : p.textpage pg = none)
    {a : UInt64} (hpage : TB_VPAGE a = TB_VPAGE addr) : p.textAt a = none := by
  unfold textAt
  rw [entryAt_congr hpage, hentry, Option.bind_some, htext, Option.map_none]

/-- What a lookup of an instruction leaves: its text page is there. -/
theorem addr2iphys_looked (h : p.Sound) (hthere : p.mapped addr = true ∨ (p.entryAt addr).isSome) :
    ∃ pg text q, p.addr2iphys addr = some (some (pg, ITB_OFFSET addr), q) ∧ q.Sound ∧
      q.mapped = p.mapped ∧ q.entryAt addr = some pg ∧ q.textpage pg = some text ∧
      (∀ a, TB_VPAGE a = TB_VPAGE addr → text (ITB_OFFSET a) = (p.textAt a).getD ⟨0, 0⟩) ∧
      (∀ a, TB_VPAGE a ≠ TB_VPAGE addr → q.textAt a = p.textAt a) ∧
      ((p.textAt addr).isSome → SameEntries q p ∧ q.textpage = p.textpage) := by
  obtain ⟨pg, q, hlookup, hq⟩ := tlb_lookup_looked h hthere
  unfold addr2iphys
  rw [hlookup, Option.map_some]
  dsimp only
  cases htext : q.textpage pg with
  | some text =>
      refine ⟨pg, text, q, by simp, hq.sound, hq.mapped, hq.entry, htext, ?_, ?_, ?_⟩
      · intro a hpage
        rw [← hq.text, textAt_eq hq.entry htext hpage]
        rfl
      · exact fun a _ => hq.text a
      · intro hsome
        apply hq.same
        unfold textAt at hsome
        cases hentry : p.entryAt addr with
        | none =>
            rw [hentry] at hsome
            cases hsome
        | some _ => rfl
  | none =>
      have hupdate := hq.sound.textAt_update hq.entry newTextpage
      have hsame : SameEntries
          { q with textpage := Function.update q.textpage pg (some newTextpage) } q :=
        ⟨fun _ _ _ => Iff.rfl, rfl, rfl⟩
      refine ⟨pg, newTextpage, _, by simp, hsame.sound hq.sound hq.sound.aimed, hq.mapped,
        hq.entry, Function.update_self pg _ _, ?_, ?_, ?_⟩
      · intro a hpage
        rw [← hq.text, textAt_eq_none hq.entry htext hpage]
        rfl
      · intro a hpage
        rw [hupdate, if_neg hpage, hq.text]
      · intro hsome
        rw [← hq.text, textAt_eq_none hq.entry htext rfl] at hsome
        cases hsome

theorem onPicode_changed (f : TextIcode → TextIcode) (h : p.Sound)
    (hthere : p.mapped addr = true ∨ (p.textAt addr).isSome) :
    ∃ q, p.onPicode f addr = some q ∧ Changed p f addr q := by
  have hthere' : p.mapped addr = true ∨ (p.entryAt addr).isSome := by
    refine hthere.imp_right ?_
    intro hsome
    cases hentry : p.entryAt addr with
    | none =>
        unfold textAt at hsome
        rw [hentry] at hsome
        cases hsome
    | some _ => rfl
  obtain ⟨pg, text, q, hfound, hq, hmapped, hentry, htext, hhere, hother, hsame⟩ :=
    addr2iphys_looked h hthere'
  unfold onPicode
  rw [hfound, Option.bind_some]
  dsimp only
  rw [Option.map_some]
  unfold setIcode icode
  dsimp only
  rw [htext, Option.getD_some]
  generalize hnew : Function.update text (ITB_OFFSET addr) (f (text (ITB_OFFSET addr))) = new
  have hset : SameEntries { q with textpage := Function.update q.textpage pg (some new) } q :=
    ⟨fun _ _ _ => Iff.rfl, rfl, rfl⟩
  refine ⟨_, rfl, hset.sound hq hq.aimed, hmapped, ?_, ?_⟩
  · intro a
    rw [hq.textAt_update hentry]
    by_cases hpage : TB_VPAGE a = TB_VPAGE addr
    · rw [if_pos hpage, if_pos hpage, ← hhere a hpage, ← hnew, Function.update_apply]
      by_cases hplace : ITB_OFFSET a = ITB_OFFSET addr
      · rw [if_pos hplace, if_pos (sameInst_iff.mpr ⟨hpage, hplace⟩), hplace]
      · rw [if_neg hplace, if_neg fun hinst => hplace (sameInst_iff.mp hinst).2]
    · rw [if_neg hpage, if_neg hpage]
      exact hother a hpage
  · intro hsome
    obtain ⟨hentries, hpages⟩ := hsame hsome
    refine ⟨hset.trans hentries, ?_⟩
    intro pg'
    show (Function.update q.textpage pg (some new) pg').isSome = _
    rw [← hpages, Function.update_apply]
    by_cases hpg : pg' = pg
    · rw [if_pos hpg, hpg, htext]
      rfl
    · rw [if_neg hpg]

/-- Where there is an instruction already, it is changed and nothing else is. -/
theorem Changed.text_of_some {f : TextIcode → TextIcode} (h : Changed p f addr q)
    (hsome : (p.textAt addr).isSome) (a : UInt64) :
    q.textAt a = if sameInst a addr then (p.textAt a).map f else p.textAt a := by
  rw [h.text]
  by_cases hpage : TB_VPAGE a = TB_VPAGE addr
  · have hhere : ∃ ic, p.textAt a = some ic := by
      unfold textAt at hsome ⊢
      rw [entryAt_congr hpage]
      obtain ⟨ic, hic⟩ := Option.isSome_iff_exists.mp hsome
      obtain ⟨pg, hentry, htext⟩ := Option.bind_eq_some_iff.mp hic
      obtain ⟨text, htext, -⟩ := Option.map_eq_some_iff.mp htext
      exact ⟨text (ITB_OFFSET a), by rw [hentry, Option.bind_some, htext, Option.map_some]⟩
    obtain ⟨ic, hic⟩ := hhere
    rw [if_pos hpage, hic, Option.getD_some, Option.map_some]
    by_cases hinst : sameInst a addr = true
    · rw [if_pos hinst, if_pos hinst]
    · rw [if_neg hinst, if_neg hinst]
  · rw [if_neg hpage, if_neg fun hinst => hpage (sameInst_iff.mp hinst).1]

/-! ### The walk over the text pages -/

/-- The walk, which started at `p`, has changed the instructions `D`. -/
structure Walked (p : TextProcess) (f : TextIcode → TextIcode) (D : Set Nat) (q : TextProcess) :
    Prop where
  sound : q.Sound
  same : SameEntries q p
  pages : ∀ pg, (q.textpage pg).isSome = (p.textpage pg).isSome
  text : ∀ a, (a.toNat / 4 ∈ D → q.textAt a = (p.textAt a).map f) ∧
    (a.toNat / 4 ∉ D → q.textAt a = p.textAt a)

variable {f : TextIcode → TextIcode} {D : Set Nat}

theorem Walked.refl (h : p.Sound) : Walked p f ∅ p :=
  ⟨h, .refl p, fun _ => rfl, fun _ => ⟨fun hmem => absurd hmem (Set.notMem_empty _), fun _ => rfl⟩⟩

theorem Walked.isSome_textAt (h : Walked p f D q) (a : UInt64) :
    (q.textAt a).isSome = (p.textAt a).isSome := by
  by_cases hmem : a.toNat / 4 ∈ D
  · rw [(h.text a).1 hmem, Option.isSome_map]
  · rw [(h.text a).2 hmem]

theorem Walked.onPicode (hf : ∀ ic, f (f ic) = f ic) (h : Walked p f D q)
    (hsome : (p.textAt addr).isSome) :
    ∃ r, q.onPicode f addr = some r ∧ Walked p f (D ∪ {addr.toNat / 4}) r := by
  rw [← h.isSome_textAt] at hsome
  obtain ⟨r, hr, hchanged⟩ := onPicode_changed f h.sound (Or.inr hsome)
  obtain ⟨hsame, hpages⟩ := hchanged.same hsome
  refine ⟨r, hr, hchanged.sound, hsame.trans h.same, fun pg => (hpages pg).trans (h.pages pg), ?_⟩
  intro a
  have htext := hchanged.text_of_some hsome a
  have hinst : sameInst a addr = true ↔ a.toNat / 4 ∈ ({addr.toNat / 4} : Set Nat) :=
    decide_eq_true_iff
  constructor
  · intro hmem
    by_cases hdone : a.toNat / 4 ∈ D
    · rw [(h.text a).1 hdone] at htext
      rw [htext]
      by_cases heq : sameInst a addr = true
      · rw [if_pos heq, Option.map_map]
        exact congrArg (fun g => (p.textAt a).map g) (funext hf)
      · rw [if_neg heq]
    · rw [htext, if_pos (hinst.mpr (hmem.resolve_left hdone)), (h.text a).2 hdone]
  · intro hmem
    rw [Set.mem_union, not_or] at hmem
    rw [htext, if_neg fun heq => hmem.2 (hinst.mp heq), (h.text a).2 hmem.1]

/-- The instructions of the page of an address. -/
def pagePlaces (a₀ : UInt64) : Set Nat :=
  {n | ∃ a : UInt64, TB_VPAGE a = TB_VPAGE a₀ ∧ a.toNat / 4 = n}

theorem vpage_textaddr (a : UInt64) {i : Nat} (hi : i < 65536) :
    TB_VPAGE (textaddr (TB_TAG (TB_VPAGE a)) (TB_KEY (TB_VPAGE a)) i) = TB_VPAGE a := by
  rw [vpage_eq_iff, toNat_textaddr a hi]
  omega

theorem textAt_isSome_congr {a b : UInt64} (h : TB_VPAGE a = TB_VPAGE b) :
    (p.textAt a).isSome = (p.textAt b).isSome := by
  unfold textAt
  rw [entryAt_congr h]
  cases p.entryAt b with
  | none => rfl
  | some pg => simp

theorem Walked.onTextpage (hf : ∀ ic, f (f ic) = f ic) (h : Walked p f D q) {a₀ : UInt64}
    (hsome : (p.textAt a₀).isSome) :
    ∃ r, q.onTextpage f (TB_TAG (TB_VPAGE a₀)) (TB_KEY (TB_VPAGE a₀)) = some r ∧
      Walked p f (D ∪ pagePlaces a₀) r := by
  have hplaces : allPlaces (fun i =>
      {(textaddr (TB_TAG (TB_VPAGE a₀)) (TB_KEY (TB_VPAGE a₀)) (4 * i)).toNat / 4})
      (List.range (65536 / 4)) = pagePlaces a₀ := by
    ext n
    constructor
    · rintro ⟨i, hi, rfl⟩
      rw [List.mem_range] at hi
      exact ⟨_, vpage_textaddr a₀ (by omega), rfl⟩
    · rintro ⟨a, hpage, rfl⟩
      rw [vpage_eq_iff] at hpage
      refine ⟨a.toNat % 65536 / 4, List.mem_range.mpr (by omega), ?_⟩
      rw [Set.mem_singleton_iff, toNat_textaddr a₀ (by omega)]
      omega
  rw [← hplaces]
  refine foldlM_done (Walked p f) _ ?_ h
  intro i hi D q hq
  rw [List.mem_range] at hi
  refine hq.onPicode hf ?_
  rw [textAt_isSome_congr (vpage_textaddr a₀ (by omega))]
  exact hsome

/-- The instructions of a bucket that are in text pages. -/
def bucketPlaces (p : TextProcess) (tbn : Nat) : Set Nat :=
  {n | ∃ a : UInt64, TB_KEY (TB_VPAGE a) = tbn ∧ (p.textAt a).isSome ∧ a.toNat / 4 = n}

/-- The instructions of an entry, if it has a text page. -/
def cellPlaces (p : TextProcess) (tbn : Nat) (tbe : Cell Int Nat) : Set Nat :=
  {n | ∃ a : UInt64, TB_KEY (TB_VPAGE a) = tbn ∧ TB_TAG (TB_VPAGE a) = tbe.key ∧
    (p.textAt a).isSome ∧ a.toNat / 4 = n}

theorem isSome_textAt_of_entry {a : UInt64} (hentry : p.entryAt a = some pg) :
    (p.textAt a).isSome = (p.textpage pg).isSome := by
  unfold textAt
  rw [hentry, Option.bind_some, Option.isSome_map]

theorem Walked.onBucket (hf : ∀ ic, f (f ic) = f ic) (hp : p.Sound) (h : Walked p f D q)
    (tbn : Nat) :
    ∃ r, q.onBucket f tbn = some r ∧ Walked p f (D ∪ bucketPlaces p tbn) r := by
  have hplaces : allPlaces (cellPlaces p tbn) (q.TB tbn) = bucketPlaces p tbn := by
    ext n
    constructor
    · rintro ⟨tbe, -, a, hkey, -, hsome, rfl⟩
      exact ⟨a, hkey, hsome, rfl⟩
    · rintro ⟨a, rfl, hsome, rfl⟩
      have hentry : (p.entryAt a).isSome := by
        unfold textAt at hsome
        cases hentry : p.entryAt a with
        | none =>
            rw [hentry] at hsome
            cases hsome
        | some pg => rfl
      obtain ⟨pg, hpg⟩ := Option.isSome_iff_exists.mp hentry
      rw [← h.same.entryAt hp h.sound, h.sound.entryAt_iff] at hpg
      obtain ⟨tbe, hmem, hkey, -⟩ := hpg
      exact ⟨tbe, hmem, a, rfl, hkey.symm, hsome, rfl⟩
  rw [← hplaces]
  refine foldlM_done (Walked p f) (cellPlaces p tbn) ?_ h
  intro tbe hmem D q' hq'
  have hmaps : (p.TB tbn).Maps tbe.key tbe.value :=
    (h.same.maps tbn tbe.key tbe.value).mp ⟨tbe, hmem, rfl, rfl⟩
  obtain ⟨-, a₀, rfl, hkey⟩ := hp.known _ _ _ hmaps
  have hentry : p.entryAt a₀ = some tbe.value := hp.entryAt_iff.mpr (hkey ▸ hmaps)
  have hpage : ∀ a, TB_KEY (TB_VPAGE a) = TB_KEY (TB_VPAGE a₀) → TB_TAG (TB_VPAGE a) = tbe.key →
      TB_VPAGE a = TB_VPAGE a₀ := fun a hk ht => vpage_inj hk (ht.trans hkey)
  by_cases htext : (q'.textpage tbe.value).isSome = true
  · have hsome : (p.textAt a₀).isSome := by
      rw [isSome_textAt_of_entry hentry, ← hq'.pages]
      exact htext
    obtain ⟨r, hr, hwalked⟩ := hq'.onTextpage hf hsome
    have hcell : cellPlaces p (TB_KEY (TB_VPAGE a₀)) tbe = pagePlaces a₀ := by
      ext n
      constructor
      · rintro ⟨a, hk, ht, -, rfl⟩
        exact ⟨a, hpage a hk ht, rfl⟩
      · rintro ⟨a, ha, rfl⟩
        refine ⟨a, by rw [ha], by rw [ha, hkey], ?_, rfl⟩
        rw [textAt_isSome_congr ha]
        exact hsome
    refine ⟨r, ?_, hcell ▸ hwalked⟩
    rw [if_pos htext, hkey]
    exact hr
  · have hcell : cellPlaces p (TB_KEY (TB_VPAGE a₀)) tbe = ∅ := by
      ext n
      refine iff_of_false ?_ (Set.notMem_empty n)
      rintro ⟨a, hk, ht, hsome, rfl⟩
      rw [textAt_isSome_congr (hpage a hk ht), isSome_textAt_of_entry hentry, ← hq'.pages] at hsome
      exact htext hsome
    refine ⟨q', if_neg htext, ?_⟩
    rw [hcell, Set.union_empty]
    exact hq'

/-- **The walk reaches every instruction of every text page, and no other one.** -/
theorem onTextpages_text (hf : ∀ ic, f (f ic) = f ic) (h : p.Sound) :
    ∃ q, p.onTextpages f = some q ∧ q.Sound ∧ q.mapped = p.mapped ∧
      ∀ a, q.textAt a = (p.textAt a).map f := by
  have hround : ∀ tbn ∈ List.range TB_SIZE, ∀ D q, Walked p f D q →
      ∃ r, q.onBucket f tbn = some r ∧ Walked p f (D ∪ bucketPlaces p tbn) r := by
    intro tbn _ D q hq
    exact hq.onBucket hf h tbn
  obtain ⟨q, hq, hwalked⟩ := foldlM_done (Walked p f) (bucketPlaces p) hround (.refl h)
  refine ⟨q, hq, hwalked.sound, hwalked.same.mapped, ?_⟩
  intro a
  cases htext : p.textAt a with
  | none =>
      have hnone := hwalked.isSome_textAt a
      rw [htext, Option.isSome_none, Option.isSome_eq_false_iff, Option.isNone_iff_eq_none] at hnone
      rw [hnone, Option.map_none]
  | some ic =>
      have hplace : a.toNat / 4 ∈ (∅ ∪ allPlaces (bucketPlaces p) (List.range TB_SIZE) :
        Set Nat) := by
        refine Or.inr ⟨TB_KEY (TB_VPAGE a), ?_, a, rfl, ?_, rfl⟩
        · rw [List.mem_range]
          unfold TB_KEY TB_SIZE
          omega
        · rw [htext]
          rfl
      rw [(hwalked.text a).1 hplace, htext]

end TextProcess

/-! ### Runs -/

namespace MarkerRun

/-- The flags of the markers below 32 are those of the instructions that are there. -/
structure Sound (s : MarkerRun) : Prop where
  code : s.code.Sound
  flags : ∀ i, i < 32 → ∀ a, s.flags i a = (s.code.textAt a).any (·.isSet i)

variable {s t : MarkerRun} {i : Nat}

theorem Start.sound (h : Start s) : s.Sound where
  code := ⟨h.aimed, h.known, h.unique⟩
  flags := by
    intro i _ a
    rw [h.flags]
    cases htext : s.code.textAt a with
    | none => rfl
    | some ic =>
        rw [Option.any_some]
        unfold TextIcode.isSet
        rw [h.markers a ic htext]
        simp

/-- What a change of one instruction does to a marker. -/
theorem changed_any {f : TextIcode → TextIcode} {p q : TextProcess} {addr : UInt64}
    (h : p.Changed f addr q) (j : Nat) (a : UInt64) :
    (q.textAt a).any (·.isSet j) = if sameInst a addr then
      (f ((p.textAt a).getD ⟨0, 0⟩)).isSet j else (p.textAt a).any (·.isSet j) := by
  have hzero : (⟨0, 0⟩ : TextIcode).isSet j = false := by simp [TextIcode.isSet]
  have hgetD : ((p.textAt a).getD ⟨0, 0⟩).isSet j = (p.textAt a).any (·.isSet j) := by
    cases p.textAt a with
    | none => exact hzero
    | some ic => rfl
  rw [h.text]
  by_cases hpage : TB_VPAGE a = TB_VPAGE addr
  · rw [if_pos hpage, Option.any_some]
    by_cases hinst : sameInst a addr = true
    · rw [if_pos hinst, if_pos hinst]
    · rw [if_neg hinst, if_neg hinst, hgetD]
  · rw [if_neg hpage, if_neg fun hinst => hpage (sameInst_iff.mp hinst).1]

/-- A marker is set or cleared at one instruction. -/
theorem Sound.onPicode (h : s.Sound) (f : TextIcode → TextIcode) {markerID : Nat} {addr : UInt64}
    (hmapped : s.code.mapped addr = true) {value : Bool}
    (hself : ∀ ic, (f ic).isSet markerID = value)
    (hother : ∀ ic j, j < 32 → j ≠ markerID → (f ic).isSet j = ic.isSet j)
    {flags : UInt64 → Bool}
    (hflags : ∀ a, flags a = if sameInst a addr then value else s.flags markerID a) :
    ∃ code, s.code.onPicode f addr = some code ∧
      Sound ⟨code, Function.update s.flags markerID flags⟩ := by
  obtain ⟨code, hcode, hchanged⟩ := TextProcess.onPicode_changed f h.code (Or.inl hmapped)
  refine ⟨code, hcode, hchanged.sound, ?_⟩
  intro j hj a
  show Function.update s.flags markerID flags j a = _
  rw [changed_any hchanged]
  by_cases hid : j = markerID
  · subst hid
    rw [Function.update_self, hflags, hself, h.flags j hj]
  · rw [Function.update_of_ne hid, h.flags j hj]
    by_cases hinst : sameInst a addr = true
    · rw [if_pos hinst, hother _ j hj hid]
      cases s.code.textAt a with
      | none => simp [TextIcode.isSet]
      | some ic => rfl
    · rw [if_neg hinst]

/-- A marker is set or cleared in all text pages. -/
theorem Sound.onTextpages (h : s.Sound) (f : TextIcode → TextIcode) {markerID : Nat}
    (hf : ∀ ic, f (f ic) = f ic)
    (hother : ∀ ic j, j < 32 → j ≠ markerID → (f ic).isSet j = ic.isSet j)
    {flags : UInt64 → Bool}
    (hflags : ∀ a, flags a = (s.code.textAt a).any fun ic => (f ic).isSet markerID) :
    ∃ code, s.code.onTextpages f = some code ∧
      Sound ⟨code, Function.update s.flags markerID flags⟩ := by
  obtain ⟨code, hcode, hsound, -, htext⟩ := TextProcess.onTextpages_text hf h.code
  refine ⟨code, hcode, hsound, ?_⟩
  intro j hj a
  show Function.update s.flags markerID flags j a = _
  rw [htext]
  by_cases hid : j = markerID
  · subst hid
    rw [Function.update_self, hflags]
    cases s.code.textAt a with
    | none => rfl
    | some ic => rfl
  · rw [Function.update_of_ne hid, h.flags j hj]
    cases s.code.textAt a with
    | none => rfl
    | some ic => exact (hother ic j hj hid).symm

/-- A question finds the flag and changes none. -/
theorem Sound.isSet (h : s.Sound) {markerID : Nat} (hid : markerID < 32) {markerPC : UInt64}
    (hmapped : s.code.mapped markerPC = true) :
    ∃ code, s.code.IsSet markerID markerPC = some (s.flags markerID markerPC, code) ∧
      Sound ⟨code, s.flags⟩ := by
  obtain ⟨pg, text, q, hfound, hq, -, hentry, htext, hhere, hother, -⟩ :=
    TextProcess.addr2iphys_looked h.code (Or.inl hmapped)
  have hgetD : ∀ j, ∀ ic : Option TextIcode,
      (ic.getD ⟨0, 0⟩).isSet j = ic.any (·.isSet j) := by
    intro j ic
    cases ic with
    | none => simp [TextIcode.isSet]
    | some ic => rfl
  refine ⟨q, ?_, hq, ?_⟩
  · unfold TextProcess.IsSet TextProcess.icode
    rw [hfound, Option.bind_some]
    dsimp only
    rw [Option.map_some, htext, Option.getD_some, hhere markerPC rfl, hgetD, h.flags _ hid]
  · intro j hj a
    show s.flags j a = (q.textAt a).any _
    rw [h.flags j hj]
    by_cases hpage : TB_VPAGE a = TB_VPAGE markerPC
    · rw [TextProcess.textAt_eq hentry htext hpage, hhere a hpage, Option.any_some, hgetD]
    · rw [hother a hpage]

/-- **Every operation on a marker below 32 succeeds, and does to the flags what it should.** -/
theorem Sound.issue (h : s.Sound) {e : Event} (hok : careful s e = true) :
    ∃ code, issue s.code e = some code ∧
      Sound ⟨code, Function.update s.flags e.markerID (s.assign e)⟩ := by
  obtain ⟨hid, hmapped⟩ := Bool.and_eq_true_iff.mp hok
  have hid : e.markerID < 32 := of_decide_eq_true hid
  cases e with
  | setPc markerID markerPC =>
      have hid : markerID < 32 := hid
      have hflags : ∀ a, s.assign (.setPc markerID markerPC) a =
          if sameInst a markerPC then true else s.flags markerID a := by
        intro a
        simp only [assign]
        by_cases hinst : sameInst a markerPC = true
        · simp [hinst]
        · simp [hinst]
      exact h.onPicode (·.set markerID) hmapped (fun ic => ic.isSet_set hid)
        (fun ic j hj hne => ic.isSet_set_of_ne hid hj (Ne.symm hne)) hflags
  | clearPc markerID markerPC =>
      have hid : markerID < 32 := hid
      have hflags : ∀ a, s.assign (.clearPc markerID markerPC) a =
          if sameInst a markerPC then false else s.flags markerID a := by
        intro a
        simp only [assign]
        by_cases hinst : sameInst a markerPC = true
        · simp [hinst]
        · simp [hinst]
      exact h.onPicode (·.clear markerID) hmapped (fun ic => ic.isSet_clear hid)
        (fun ic j hj hne => ic.isSet_clear_of_ne hid hj (Ne.symm hne)) hflags
  | setInst markerID instBits instMask =>
      have hid : markerID < 32 := hid
      have hfits : ∀ ic : TextIcode, (ic.set markerID).fits instBits instMask =
          ic.fits instBits instMask := fun _ => rfl
      refine h.onTextpages _ ?_ ?_ ?_
      · intro ic
        by_cases hfit : ic.fits instBits instMask = true
        · rw [if_pos hfit, hfits, if_pos hfit, ic.set_set]
        · rw [if_neg hfit, if_neg hfit]
      · intro ic j hj hne
        by_cases hfit : ic.fits instBits instMask = true
        · rw [if_pos hfit, ic.isSet_set_of_ne hid hj (Ne.symm hne)]
        · rw [if_neg hfit]
      · intro a
        have hflag := h.flags markerID hid a
        simp only [assign]
        rw [hflag]
        cases s.code.textAt a with
        | none => rfl
        | some ic =>
            simp only [Option.any_some, Event.markerID]
            by_cases hfit : ic.fits instBits instMask = true
            · rw [if_pos hfit, ic.isSet_set hid, hfit, Bool.true_or]
            · rw [if_neg hfit, Bool.eq_false_iff.mpr hfit, Bool.false_or]
  | clearAll markerID =>
      have hid : markerID < 32 := hid
      refine h.onTextpages _ ?_ ?_ ?_
      · exact fun ic => ic.clear_clear markerID
      · exact fun ic j hj hne => ic.isSet_clear_of_ne hid hj (Ne.symm hne)
      · intro a
        unfold assign
        cases s.code.textAt a with
        | none => rfl
        | some ic => exact (ic.isSet_clear hid).symm
  | isSet markerID markerPC =>
      have hid : markerID < 32 := hid
      obtain ⟨code, hcode, hsound⟩ := h.isSet hid hmapped
      refine ⟨code, ?_, ?_⟩
      · show (s.code.IsSet markerID markerPC).map Prod.snd = some code
        rw [hcode, Option.map_some]
      · show Sound ⟨code, Function.update s.flags markerID (s.flags markerID)⟩
        rw [Function.update_eq_self]
        exact hsound

theorem Step.sound (hst : Step careful s t) (h : s.Sound) : t.Sound := by
  obtain ⟨e, hok, hexec⟩ := hst
  obtain ⟨code, hcode, hsound⟩ := h.issue hok
  unfold exec at hexec
  rw [hcode, Option.map_some] at hexec
  cases hexec
  exact hsound

/-- **The markers below 32 are independent flags.** -/
theorem independent_of_careful (h : Reaches Start (Step careful) s) : s.Independent careful := by
  have hs : s.Sound := by
    refine h.invariant (P := Sound) ?_ ?_
    · intro s hs
      exact hs.sound
    · intro s t hs hst
      exact hst.sound hs
  refine ⟨?_, ?_⟩
  · intro markerID markerPC hok
    obtain ⟨hid, hmapped⟩ := Bool.and_eq_true_iff.mp hok
    have hid : markerID < 32 := of_decide_eq_true hid
    obtain ⟨code, hcode, -⟩ := hs.isSet hid hmapped
    rw [hcode, Option.map_some]
  · intro e hok
    obtain ⟨code, hcode, -⟩ := hs.issue hok
    unfold exec
    rw [hcode, Option.map_some]
    rfl

/-- A process with one segment and no page yet. -/
def fresh : MarkerRun :=
  ⟨⟨fun _ => [], fun _ => none, 0, fun addr => decide (addr < 0x20000)⟩, fun _ _ => false⟩

theorem fresh_start : Start fresh := by
  have hempty : ∀ tbn tag pg, ¬ (fresh.code.TB tbn).Maps tag pg := by
    rintro tbn tag pg ⟨tbe, hmem, -⟩
    cases hmem
  refine ⟨fun _ => Chain.aimed_nil, ?_, ?_, ?_, fun _ _ => rfl⟩
  · intro tbn tag pg hpg
    exact absurd hpg (hempty tbn tag pg)
  · intro tbn tag tbn' tag' pg hpg
    exact absurd hpg (hempty tbn tag pg)
  · intro addr ic hic
    cases hic

theorem reaches_after {ok : MarkerRun → Event → Bool} {es : List Event}
    (h : after exec ok es fresh = some s) : Reaches Start (Step ok) s :=
  Reaches.after (fun _ e _ hok hexec => ⟨e, hok, hexec⟩) (.start fresh_start) h

/-- Two markers are set at one instruction, and one of them is cleared. -/
theorem independent_of_careful_two :
    ∃ s, after exec careful [.setPc 31 0x10008, .setPc 0 0x10008, .clearPc 0 0x10008] fresh
      = some s ∧ s.Independent careful := by
  have hrun : (after exec careful [.setPc 31 0x10008, .setPc 0 0x10008, .clearPc 0 0x10008]
      fresh).isSome = true := by
    decide +kernel
  obtain ⟨s, hs⟩ := Option.isSome_iff_exists.mp hrun
  exact ⟨s, hs, independent_of_careful (reaches_after hs)⟩

/-- **Marker 32 is marker 0.** -/
theorem not_independent_above_int :
    ¬ ∀ s, Reaches Start (Step legal) s → s.Independent legal := by
  intro hall
  have hrun : (after exec legal [.setPc 32 0x10008] fresh).map (fun s =>
      (legal s (.isSet 0 0x10008), (s.code.IsSet 0 0x10008).map Prod.fst, s.flags 0 0x10008))
      = some (true, some true, false) := by
    decide +kernel
  obtain ⟨s, hs, hvalues⟩ := Option.map_eq_some_iff.mp hrun
  obtain ⟨hlegal, hvalues⟩ := Prod.mk.inj hvalues
  obtain ⟨hanswer, hflag⟩ := Prod.mk.inj hvalues
  have hright := (hall s (reaches_after hs)).answers 0 0x10008 hlegal
  rw [hanswer, hflag] at hright
  cases hright

end MarkerRun

end AsimFeeder.Aint.Markers
