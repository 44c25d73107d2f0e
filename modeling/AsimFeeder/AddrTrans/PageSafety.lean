/-
When the page colouring translator keeps pages apart.

An answer's physical page is `pageField` of its context and page number, moved up by the
base address, so a run is sound iff no two numbers the tables have handed out share that
field.  Which numbers those are follows from the sizes of the tables alone: context `c`
has handed out the numbers from `37 c` on, one for each of its pages.

  * With 4 kB pages the context field begins at bit 33 of the page number, above every
    number a table can hand out, and all is well.
  * With 16 kB pages it begins at bit 31.  From 2 ^ 31 on, the number of an even context
    reads as a number of the next odd context, and the number of an odd context as a
    smaller number of its own.
-/
import AsimFeeder.AddrTrans.PageRuns

namespace AsimFeeder.AddrTrans

open AsimFeeder.Lib

/-! ### Page numbers in their field -/

/-- Tables of the sizes `n` hand out no two numbers with one field. -/
def Separated (l : Nat) (n : Nat → Nat) : Prop :=
  ∀ c c' k k', c < 32 → c' < 32 → k < n c → k' < n c' →
    pageField l c (k + pteOffsetBetweenSwc * c) = pageField l c' (k' + pteOffsetBetweenSwc * c') →
    c = c' ∧ k = k'

theorem separated_12 {n : Nat → Nat} (hn : ∀ c < 32, n c < 2 ^ 32) : Separated 12 n := by
  have hfield : ∀ c p, p < 2 ^ 33 → pageField 12 c p = c * 2 ^ 33 + p := by
    intro c p hp
    rw [pageField, Nat.lor_comm, ← Nat.shiftLeft_add_eq_or_of_lt hp, Nat.shiftLeft_eq]
  intro c c' k k' hc hc' hk hk' h
  have := hn c hc
  have := hn c' hc'
  simp only [pteOffsetBetweenSwc] at h
  rw [hfield c _ (by omega), hfield c' _ (by omega)] at h
  omega

/-- Tables of the sizes `n` hand out numbers that stay apart with 16 kB pages. -/
structure Roomy (n : Nat → Nat) : Prop where
  /-- An odd context has its own field bit set, and numbers from 2 ^ 31 on lose theirs. -/
  odd : ∀ c < 32, c % 2 = 1 → n c ≤ 2 ^ 31
  /-- An even context reaches the numbers of the odd context after it. -/
  even : ∀ c < 32, c % 2 = 0 →
    (n c ≤ 2 ^ 31 + 37 ∨ n (c + 1) = 0) ∧
      (n c + 37 * c ≤ 2 ^ 31 ∨ n (c + 1) + 37 * (c + 1) ≤ 2 ^ 31)
  /-- Two even contexts meet in their last numbers, those past 2 ^ 32. -/
  far : ∀ c < 32, c % 4 = 0 →
    n c + 37 * c ≤ 2 ^ 32 ∨ n (c + 2) + 37 * (c + 2) ≤ 2 ^ 32

private theorem pageField_14 (c p : Nat) :
    pageField 14 c p = (p / 2 ^ 31 ||| c) * 2 ^ 31 + p % 2 ^ 31 := by
  have hlo : p % 2 ^ 31 < 2 ^ 31 := Nat.mod_lt _ (by omega)
  have hp : p = (p / 2 ^ 31) <<< 31 ||| p % 2 ^ 31 := by
    rw [← Nat.shiftLeft_add_eq_or_of_lt hlo, Nat.shiftLeft_eq]
    omega
  rw [pageField, ← Nat.shiftLeft_eq, Nat.shiftLeft_add_eq_or_of_lt hlo, Nat.shiftLeft_or_distrib,
    Nat.or_assoc, Nat.lor_comm (c <<< 31), ← Nat.or_assoc, ← hp]

private theorem one_or : ∀ c < 32, 1 ||| c = c + (1 - c % 2) := by decide

private theorem two_or : ∀ c < 32, 2 ||| c = c + 2 * (1 - c / 2 % 2) := by decide

/-- The field of a page number with 16 kB pages, by the bits it has in the context field. -/
theorem pageField_14_cases {c p : Nat} (hc : c < 32) (hp : p < 3 * 2 ^ 31) :
    (p < 2 ^ 31 ∧ pageField 14 c p = c * 2 ^ 31 + p) ∨
      (2 ^ 31 ≤ p ∧ p < 2 ^ 32 ∧ pageField 14 c p = (c + (1 - c % 2)) * 2 ^ 31 + (p - 2 ^ 31)) ∨
      (2 ^ 32 ≤ p ∧ pageField 14 c p = (c + 2 * (1 - c / 2 % 2)) * 2 ^ 31 + (p - 2 ^ 32)) := by
  rw [pageField_14]
  rcases Nat.lt_or_ge p (2 ^ 31) with h1 | h1
  · left
    rw [Nat.div_eq_of_lt h1, Nat.zero_or, Nat.mod_eq_of_lt h1]
    exact ⟨h1, rfl⟩
  · right
    rcases Nat.lt_or_ge p (2 ^ 32) with h2 | h2
    · left
      rw [show p / 2 ^ 31 = 1 by omega, one_or c hc, show p % 2 ^ 31 = p - 2 ^ 31 by omega]
      exact ⟨h1, h2, rfl⟩
    · right
      rw [show p / 2 ^ 31 = 2 by omega, two_or c hc, show p % 2 ^ 31 = p - 2 ^ 32 by omega]
      exact ⟨h2, rfl⟩

/-- A number below 2 ^ 31 meets none from 2 ^ 31 on. -/
private theorem Roomy.low_mid {n : Nat → Nat} (h : Roomy n) {c c' k k' : Nat} (hc' : c' < 32)
    (hk : k < n c) (hk' : k' < n c') (hlo : k + 37 * c < 2 ^ 31) (hmid : 2 ^ 31 ≤ k' + 37 * c')
    (hhi : k' + 37 * c' < 2 ^ 32)
    (heq : c * 2 ^ 31 + (k + 37 * c) =
      (c' + (1 - c' % 2)) * 2 ^ 31 + (k' + 37 * c' - 2 ^ 31)) : False := by
  have hctx : c = c' + (1 - c' % 2) := by omega
  rcases Nat.mod_two_eq_zero_or_one c' with heven | hodd
  · rw [heven, Nat.sub_zero] at hctx
    subst hctx
    rcases (h.even c' hc' heven).1 with h1 | h1 <;> omega
  · rw [hodd, Nat.sub_self, Nat.add_zero] at hctx
    subst hctx
    have := h.odd c hc' hodd
    omega

/-- Numbers of different contexts do not meet between 2 ^ 31 and 2 ^ 32. -/
private theorem Roomy.mid_mid {n : Nat → Nat} (h : Roomy n) {c c' k k' : Nat} (hc : c < 32)
    (hk : k < n c) (hk' : k' < n c') (hlt : c < c') (hmid : 2 ^ 31 ≤ k + 37 * c)
    (hmid' : 2 ^ 31 ≤ k' + 37 * c') (hctx : c + (1 - c % 2) = c' + (1 - c' % 2)) : False := by
  obtain rfl : c' = c + 1 := by omega
  rcases (h.even c hc (by omega)).2 with h1 | h1 <;> omega

/-- Numbers of different even contexts do not meet from 2 ^ 32 on. -/
private theorem Roomy.high_high {n : Nat → Nat} (h : Roomy n) {c c' k k' : Nat} (hc : c < 32)
    (hk : k < n c) (hk' : k' < n c') (heven : c % 2 = 0) (heven' : c' % 2 = 0) (hlt : c < c')
    (hhi : 2 ^ 32 ≤ k + 37 * c) (hhi' : 2 ^ 32 ≤ k' + 37 * c')
    (hctx : c + 2 * (1 - c / 2 % 2) = c' + 2 * (1 - c' / 2 % 2)) : False := by
  obtain rfl : c' = c + 2 := by omega
  rcases h.far c hc (by omega) with h1 | h1 <;> omega

theorem Roomy.separated {n : Nat → Nat} (hn : ∀ c < 32, n c < 2 ^ 32) (h : Roomy n) :
    Separated 14 n := by
  intro c c' k k' hc hc' hk hk' heq
  have hnc := hn c hc
  have hnc' := hn c' hc'
  have ho := h.odd c hc
  have ho' := h.odd c' hc'
  simp only [pteOffsetBetweenSwc] at heq
  rcases pageField_14_cases hc (p := k + 37 * c) (by omega) with
      ⟨hp, hf⟩ | ⟨hp, hq, hf⟩ | ⟨hp, hf⟩ <;>
    rcases pageField_14_cases hc' (p := k' + 37 * c') (by omega) with
      ⟨hp', hf'⟩ | ⟨hp', hq', hf'⟩ | ⟨hp', hf'⟩ <;>
    rw [hf, hf'] at heq
  · omega
  · exact (h.low_mid hc' hk hk' hp hp' hq' heq).elim
  · omega
  · exact (h.low_mid hc hk' hk hp' hp hq heq.symm).elim
  · have hctx : c + (1 - c % 2) = c' + (1 - c' % 2) := by omega
    rcases Nat.lt_trichotomy c c' with hlt | rfl | hlt
    · exact (h.mid_mid hc hk hk' hlt hp hp' hctx).elim
    · omega
    · exact (h.mid_mid hc' hk' hk hlt hp' hp hctx.symm).elim
  · omega
  · omega
  · omega
  · have hctx : c + 2 * (1 - c / 2 % 2) = c' + 2 * (1 - c' / 2 % 2) := by omega
    rcases Nat.lt_trichotomy c c' with hlt | rfl | hlt
    · exact (h.high_high hc hk hk' (by omega) (by omega) hlt hp hp' hctx).elim
    · omega
    · exact (h.high_high hc' hk' hk (by omega) (by omega) hlt hp' hp hctx.symm).elim

/-- `pageField` of the numbers from 2 ^ 31 on, where a table first goes wrong. -/
private theorem pageField_14_mid {c p : Nat} (hc : c < 32) (hlo : 2 ^ 31 ≤ p) (hhi : p < 2 ^ 32) :
    pageField 14 c p = (c + (1 - c % 2)) * 2 ^ 31 + (p - 2 ^ 31) := by
  rcases pageField_14_cases hc (p := p) (by omega) with h | h | h
  · omega
  · exact h.2.2
  · omega

private theorem pageField_14_low {c p : Nat} (hc : c < 32) (hlo : p < 2 ^ 31) :
    pageField 14 c p = c * 2 ^ 31 + p := by
  rcases pageField_14_cases hc (p := p) (by omega) with h | h | h
  · exact h.2
  · omega
  · omega

private theorem pageField_14_high {c : Nat} (hc : c < 32) :
    pageField 14 c (2 ^ 32) = (c + 2 * (1 - c / 2 % 2)) * 2 ^ 31 := by
  rcases pageField_14_cases hc (p := 2 ^ 32) (by omega) with h | h | h
  · omega
  · omega
  · rw [h.2, Nat.sub_self, Nat.add_zero]

theorem Separated.roomy {n : Nat → Nat} (h : Separated 14 n) : Roomy n where
  odd c hc hodd := by
    by_contra hbig
    have heq : pageField 14 c (0 + 37 * c) = pageField 14 c (2 ^ 31 + 37 * c) := by
      rw [pageField_14_low hc (by omega), pageField_14_mid hc (by omega) (by omega)]
      omega
    have := (h c c 0 (2 ^ 31) hc hc (by omega) (by omega) heq).2
    omega
  even c hc heven := by
    have hc1 : c + 1 < 32 := by omega
    constructor
    · by_contra hbig
      have heq : pageField 14 c (2 ^ 31 + 37 + 37 * c) =
          pageField 14 (c + 1) (0 + 37 * (c + 1)) := by
        rw [pageField_14_low hc1 (by omega), pageField_14_mid hc (by omega) (by omega)]
        omega
      have := (h c (c + 1) (2 ^ 31 + 37) 0 hc hc1 (by omega) (by omega) heq).1
      omega
    · by_contra hbig
      have heq : pageField 14 c (2 ^ 31 - 37 * c + 37 * c) =
          pageField 14 (c + 1) (2 ^ 31 - 37 * (c + 1) + 37 * (c + 1)) := by
        rw [pageField_14_mid hc1 (by omega) (by omega), pageField_14_mid hc (by omega) (by omega)]
        omega
      have := (h c (c + 1) _ _ hc hc1 (by omega) (by omega) heq).1
      omega
  far c hc h4 := by
    have hc2 : c + 2 < 32 := by omega
    by_contra hbig
    have heq : pageField 14 c (2 ^ 32 - 37 * c + 37 * c) =
        pageField 14 (c + 2) (2 ^ 32 - 37 * (c + 2) + 37 * (c + 2)) := by
      rw [Nat.sub_add_cancel (by omega), Nat.sub_add_cancel (by omega), pageField_14_high hc,
        pageField_14_high hc2]
      omega
    have := (h c (c + 2) _ _ hc hc2 (by omega) (by omega) heq).1
    omega

/-! ### Sound runs -/

/-- Every page has one physical page, of its own, and `true` is answered for known pages. -/
structure Sound (l : Nat) (calls : List Call) (log : List Served) : Prop where
  answered : log.map Served.call = calls
  stable : ∀ x ∈ log, ∀ y ∈ log, x.call.page l = y.call.page l → x.frame l = y.frame l
  offset : ∀ x ∈ log, x.pa.toNat % 2 ^ l = x.call.va.toNat % 2 ^ l
  apart : ∀ x ∈ log, ∀ y ∈ log, x.call.page l ≠ y.call.page l → x.frame l ≠ y.frame l
  hit : ∀ i x, log[i]? = some x →
    (x.hit = true ↔ ∃ y ∈ log.take i, y.call.page l = x.call.page l)

/-- How many pages of context `c` the calls touch. -/
def pageCount (l : Nat) (calls : List Call) (c : Nat) : Nat :=
  ((calls.filterMap (Call.page l)).filterMap
    fun q => if q.1 = c then some q.2 else none).dedup.length

section Sound

variable {l : Nat} {B : BitVec 64} {keys : Nat → List (BitVec 64)} {a : AddressTranslator}
  {calls : List Call} {log : List Served}

theorem RunSpec.length_keys (ha : Touched l B keys a)
    (h : RunSpec l B (fun _ => []) keys calls log) {c : Nat} (hc : c < 32) :
    (keys c).length = pageCount l calls c := by
  have hnodup : (keys c).Nodup :=
    (ha.table c _ (List.getElem?_eq_getElem (by rw [ha.length]; exact hc))).nodup
  have hmem : ∀ v, v ∈ keys c ↔ v ∈ ((calls.filterMap (Call.page l)).filterMap
      fun q => if q.1 = c then some q.2 else none).dedup := by
    intro v
    rw [h.pages c v, List.mem_dedup, List.mem_filterMap, List.mem_map]
    simp only [List.not_mem_nil, false_or, List.mem_filterMap]
    constructor
    · rintro ⟨call, hcall, hpage⟩
      exact ⟨(c, v), ⟨call, hcall, hpage⟩, if_pos rfl⟩
    · rintro ⟨⟨c', v'⟩, ⟨call, hcall, hpage⟩, hv⟩
      by_cases hcc : c' = c
      · rw [if_pos hcc, Option.some.injEq] at hv
        exact ⟨call, hcall, by rw [hpage, hcc, ← hv]⟩
      · rw [if_neg hcc] at hv
        cases hv
  exact ((List.perm_ext_iff_of_nodup hnodup (List.nodup_dedup _)).mpr hmem).length_eq

/-- Page and offset of an answer. -/
theorem AnsweredBy.frame (ha : Touched l B keys a) {x : Served} (hx : AnsweredBy l B keys x) :
    ∃ c v, x.call.page l = some (c, v) ∧ c < 32 ∧ v ∈ keys c ∧
      (x.frame l).toNat = pageField l c (pageNumber keys c v) + B.toNat / 2 ^ l ∧
      x.pa.toNat % 2 ^ l = x.call.va.toNat % 2 ^ l := by
  obtain ⟨c, v, hpage, hc, hv, hpa⟩ := hx
  have hpos : 0 < 2 ^ l := Nat.two_pow_pos l
  have hoff : x.call.va.toNat % 2 ^ l < 2 ^ l := Nat.mod_lt _ hpos
  have hbase : B.toNat = B.toNat / 2 ^ l * 2 ^ l := by
    have h0 := ha.aligned.base
    rw [ha.baseAddress] at h0
    exact (Nat.div_mul_cancel (Nat.dvd_of_mod_eq_zero h0)).symm
  have hsplit : x.pa.toNat = x.call.va.toNat % 2 ^ l +
      (pageField l c (pageNumber keys c v) + B.toNat / 2 ^ l) * 2 ^ l := by
    rw [Nat.add_mul, ← hbase, hpa]
    omega
  refine ⟨c, v, hpage, hc, hv, ?_, ?_⟩
  · rw [Served.frame, BitVec.toNat_ushiftRight, Nat.shiftRight_eq_div_pow, hsplit,
      Nat.add_mul_div_right _ _ hpos, Nat.div_eq_of_lt hoff, Nat.zero_add]
  · rw [hsplit, Nat.add_mul_mod_self_right, Nat.mod_mod]

/-- Every page a table has numbered was asked for by some call. -/
theorem RunSpec.exists_served (h : RunSpec l B (fun _ => []) keys calls log) {c : Nat}
    {v : BitVec 64} (hv : v ∈ keys c) : ∃ x ∈ log, x.call.page l = some (c, v) := by
  have hcall := (h.pages c v).mp hv
  simp only [List.not_mem_nil, false_or] at hcall
  rw [← h.answered, List.map_map, List.mem_map] at hcall
  exact hcall

/-- Each of the first `(keys c).length` numbers belongs to a page of context `c`. -/
theorem Touched.exists_page (ha : Touched l B keys a) {c k : Nat} (hc : c < 32)
    (hk : k < (keys c).length) :
    ∃ v ∈ keys c, (keys c).idxOf v = k := by
  have hnodup : (keys c).Nodup :=
    (ha.table c _ (List.getElem?_eq_getElem (by rw [ha.length]; exact hc))).nodup
  exact ⟨(keys c)[k], List.getElem_mem hk, hnodup.idxOf_getElem k hk⟩

theorem RunSpec.separated (ha : Touched l B keys a)
    (h : RunSpec l B (fun _ => []) keys calls log) (hs : Sound l calls log) :
    Separated l (pageCount l calls) := by
  intro c c' k k' hc hc' hk hk' heq
  rw [← h.length_keys ha hc] at hk
  rw [← h.length_keys ha hc'] at hk'
  obtain ⟨v, hv, hidx⟩ := ha.exists_page hc hk
  obtain ⟨v', hv', hidx'⟩ := ha.exists_page hc' hk'
  obtain ⟨x, hx, hpx⟩ := h.exists_served hv
  obtain ⟨y, hy, hpy⟩ := h.exists_served hv'
  obtain ⟨cx, vx, hpx', -, -, hfx, -⟩ := (h.address x hx).frame ha
  obtain ⟨cy, vy, hpy', -, -, hfy, -⟩ := (h.address y hy).frame ha
  rw [hpx, Option.some.injEq, Prod.mk.injEq] at hpx'
  rw [hpy, Option.some.injEq, Prod.mk.injEq] at hpy'
  obtain ⟨rfl, rfl⟩ := hpx'
  obtain ⟨rfl, rfl⟩ := hpy'
  have hframe : x.frame l = y.frame l := by
    apply BitVec.eq_of_toNat_eq
    rw [hfx, hfy, pageNumber, pageNumber, hidx, hidx', heq]
  by_cases hpage : x.call.page l = y.call.page l
  · rw [hpx, hpy, Option.some.injEq, Prod.mk.injEq] at hpage
    obtain ⟨rfl, rfl⟩ := hpage
    exact ⟨rfl, hidx.symm.trans hidx'⟩
  · exact absurd hframe (hs.apart x hx y hy hpage)

theorem RunSpec.sound (ha : Touched l B keys a)
    (h : RunSpec l B (fun _ => []) keys calls log) (hsep : Separated l (pageCount l calls)) :
    Sound l calls log where
  answered := h.answered
  stable := by
    intro x hx y hy hpage
    obtain ⟨c, v, hpx, -, -, hfx, -⟩ := (h.address x hx).frame ha
    obtain ⟨c', v', hpy, -, -, hfy, -⟩ := (h.address y hy).frame ha
    rw [hpx, hpy, Option.some.injEq, Prod.mk.injEq] at hpage
    obtain ⟨rfl, rfl⟩ := hpage
    exact BitVec.eq_of_toNat_eq (hfx.trans hfy.symm)
  offset := by
    intro x hx
    obtain ⟨_, _, -, -, -, -, hoff⟩ := (h.address x hx).frame ha
    exact hoff
  apart := by
    intro x hx y hy hpage hframe
    obtain ⟨c, v, hpx, hc, hv, hfx, -⟩ := (h.address x hx).frame ha
    obtain ⟨c', v', hpy, hc', hv', hfy, -⟩ := (h.address y hy).frame ha
    have hfield : pageField l c (pageNumber keys c v) = pageField l c' (pageNumber keys c' v') := by
      rw [hframe] at hfx
      omega
    have hlt : (keys c).idxOf v < pageCount l calls c := by
      rw [← h.length_keys ha hc]
      exact List.idxOf_lt_length_of_mem hv
    have hlt' : (keys c').idxOf v' < pageCount l calls c' := by
      rw [← h.length_keys ha hc']
      exact List.idxOf_lt_length_of_mem hv'
    obtain ⟨rfl, hidx⟩ := hsep c c' _ _ hc hc' hlt hlt' hfield
    rw [hpx, hpy, (List.idxOf_inj hv).mp hidx] at hpage
    exact hpage rfl
  hit := by
    intro i x hget
    obtain ⟨c, v, hpx, -, -, -, -⟩ :=
      (h.address x (List.mem_of_getElem? hget)).frame ha
    rw [h.hit i x c v hget hpx, hpx]
    simp

end Sound

/-! ### From a new translator -/

/-- The page sizes and base addresses the feeders construct the translator with. -/
inductive FeederConfig : Nat → BitVec 64 → Prop
  | trace : FeederConfig 12 0
  | softsdv : FeederConfig 14 0x1000000000

theorem new_eq {l : Nat} {B : BitVec 64} (hcfg : FeederConfig l B) :
    AddressTranslator.new l B = .ok {
      log2PageSize := l
      pageSizeMask := (1#32 <<< l - 1#32).signExtend 64
      baseAddress := B
      pageTableArray := (List.range 32).map fun i =>
        PageTable.new (1#64 <<< log2PtePerSwc) (BitVec.ofNat 32 (pteOffsetBetweenSwc * i)) } := by
  cases hcfg with
  | trace => rfl
  | softsdv => rfl

theorem touched_new {l : Nat} {B : BitVec 64} {a : AddressTranslator} (hcfg : FeederConfig l B)
    (h : AddressTranslator.new l B = .ok a) : Touched l B (fun _ => []) a := by
  rw [new_eq hcfg] at h
  injection h with h
  subst h
  refine ⟨?_, rfl, by rw [List.length_map, List.length_range], ?_⟩
  · cases hcfg with
    | trace => exact ⟨by decide, rfl, by decide, by decide, by decide⟩
    | softsdv => exact ⟨by decide, rfl, by decide, by decide, by decide⟩
  · intro c t ht
    rw [List.getElem?_map] at ht
    by_cases hc : c < 32
    · rw [List.getElem?_range hc, Option.map_some, Option.some.injEq] at ht
      rw [← ht]
      exact numbered_new
    · rw [List.getElem?_eq_none (by rw [List.length_range]; omega)] at ht
      cases ht

/-- **Pages stay apart exactly as long as the tables have room.** -/
theorem pageColoring_sound_iff {l : Nat} {B : BitVec 64} (hcfg : FeederConfig l B)
    {a a' : AddressTranslator} {calls : List Call} {log : List Served}
    (hnew : AddressTranslator.new l B = .ok a) (hrun : a.run calls = .ok (a', log)) :
    Sound l calls log ↔ (l = 12 ∨ Roomy (pageCount l calls)) := by
  obtain ⟨keys, ha', h⟩ := run_spec (touched_new hcfg hnew) hrun
  constructor
  · intro hs
    cases hcfg with
    | trace => exact Or.inl rfl
    | softsdv => exact Or.inr (h.separated ha' hs).roomy
  · intro hroom
    have hbound : ∀ c < 32, pageCount l calls c < 2 ^ 32 := by
      intro c hc
      rw [← h.length_keys ha' hc]
      exact (ha'.table c _ (List.getElem?_eq_getElem (by rw [ha'.length]; exact hc))).bound
    refine h.sound ha' ?_
    cases hcfg with
    | trace => exact separated_12 hbound
    | softsdv =>
        rcases hroom with h12 | hroom
        · omega
        · exact hroom.separated hbound

/-- Two contexts with one page each, and a second access to one of them. -/
theorem pageColoring_sound_iff_three : ∃ a a' log,
    AddressTranslator.new 14 0x1000000000 = .ok a ∧
      a.run [.iTranslate 0 0x4000, .iTranslate 1 0x4000, .iTranslate 0 0x4008] = .ok (a', log) ∧
      (Sound 14 [.iTranslate 0 0x4000, .iTranslate 1 0x4000, .iTranslate 0 0x4008] log ↔
        (14 = 12 ∨ Roomy (pageCount 14
          [.iTranslate 0 0x4000, .iTranslate 1 0x4000, .iTranslate 0 0x4008]))) :=
  ⟨_, _, _, rfl, rfl, pageColoring_sound_iff .softsdv rfl rfl⟩

/-! ### A table that outgrows its field -/

private theorem addrTranslate_total {l : Nat} {B : BitVec 64} {keys : Nat → List (BitVec 64)}
    {a : AddressTranslator} (ha : Touched l B keys a) {swc va : BitVec 64} (hc : swc.toNat < 32)
    (hroom : (keys swc.toNat).length + 1 < 2 ^ 32) : ∃ r, a.addrTranslate swc va = .ok r := by
  obtain ⟨t, ht⟩ : ∃ t, a.pageTableArray[swc.toNat]? = some t :=
    ⟨_, List.getElem?_eq_getElem (by rw [ha.length]; exact hc)⟩
  obtain ⟨⟨t', pte, hit⟩, hget⟩ := PageTable.getPTE_total (ha.table _ t ht)
    (Nat.lt_of_le_of_lt (@length_touch_le _ _ _ (va >>> a.log2PageSize)) hroom)
  refine ⟨({ a with pageTableArray := a.pageTableArray.set swc.toNat t' },
    a.physical swc va pte, hit), ?_⟩
  simp only [AddressTranslator.addrTranslate, ht, hget]

/-- Instruction accesses of existing contexts fire no assertion while they are few. -/
theorem run_total {l : Nat} {B : BitVec 64} {keys : Nat → List (BitVec 64)}
    {a : AddressTranslator} (ha : Touched l B keys a) {reqs : List (BitVec 32 × BitVec 64)}
    (hctx : ∀ q ∈ reqs, q.1.toNat < 32)
    (hroom : ∀ c, (keys c).length + reqs.length < 2 ^ 32) :
    ∃ r, a.run (reqs.map fun q => .iTranslate q.1 q.2) = .ok r := by
  induction reqs generalizing a keys with
  | nil => exact ⟨_, rfl⟩
  | cons q reqs ih =>
      have hq : (q.1.setWidth 64).toNat = q.1.toNat := by
        have := q.1.isLt
        rw [BitVec.toNat_setWidth, Nat.mod_eq_of_lt (by omega)]
      have hc : (q.1.setWidth 64).toNat < 32 := by
        rw [hq]
        exact hctx q List.mem_cons_self
      have hlen : ∀ c, (keys c).length + (reqs.length + 1) < 2 ^ 32 := hroom
      obtain ⟨⟨a1, pa, hit⟩, htr⟩ := @addrTranslate_total _ _ _ _ ha (q.1.setWidth 64) q.2 hc
        (by have := hlen (q.1.setWidth 64).toNat; omega)
      have hexec : a.exec (.iTranslate q.1 q.2) = .ok (a1, pa, hit) := htr
      have ha1 := (addrTranslate_spec ha htr).2.1
      have hroom1 : ∀ c, (touchAt keys (q.1.setWidth 64).toNat (q.2 >>> l) c).length +
          reqs.length < 2 ^ 32 := by
        intro c
        have := hlen c
        rw [touchAt]
        by_cases hcc : c = (q.1.setWidth 64).toNat
        · rw [hcc] at this ⊢
          rw [Function.update_self]
          have := @length_touch_le _ _ (keys (q.1.setWidth 64).toNat) (q.2 >>> l)
          omega
        · rw [Function.update_of_ne hcc]
          omega
      obtain ⟨⟨a2, log⟩, hrun⟩ := ih ha1 (fun q' hq' => hctx q' (List.mem_cons_of_mem q hq')) hroom1
      refine ⟨(a2, ⟨.iTranslate q.1 q.2, pa, hit⟩ :: log), ?_⟩
      simp only [List.map_cons, AddressTranslator.run, hexec, hrun]

/-- The 16 kB pages `0` to `n - 1` of context 1, in order. -/
def firstPages (n : Nat) : List (BitVec 32 × BitVec 64) :=
  (List.range n).map fun i => (1#32, BitVec.ofNat 64 (i * 2 ^ 14))

theorem pageCount_firstPages {n : Nat} (hn : n ≤ 2 ^ 50) :
    pageCount 14 ((firstPages n).map fun q => .iTranslate q.1 q.2) 1 = n := by
  have hpages : (((firstPages n).map fun q => Call.iTranslate q.1 q.2).filterMap
      (Call.page 14)).filterMap (fun q => if q.1 = 1 then some q.2 else none) =
        (List.range n).map (fun i => BitVec.ofNat 64 (i * 2 ^ 14) >>> 14) := by
    rw [firstPages, List.map_map, List.filterMap_map, List.filterMap_filterMap,
      ← List.filterMap_eq_map]
    rfl
  have hnodup : ((List.range n).map fun i => BitVec.ofNat 64 (i * 2 ^ 14) >>> 14).Nodup := by
    refine List.Nodup.map_on ?_ List.nodup_range
    intro i hi j hj h
    rw [List.mem_range] at hi hj
    have h' := congrArg BitVec.toNat h
    simp only [BitVec.toNat_ushiftRight, BitVec.toNat_ofNat, Nat.shiftRight_eq_div_pow] at h'
    omega
  rw [pageCount, hpages, hnodup.dedup, List.length_map, List.length_range]

private theorem firstPages_aliases {n : Nat} (hlo : 2 ^ 31 < n) (hhi : n < 2 ^ 32) :
    ∃ a a' log, AddressTranslator.new 14 0x1000000000 = .ok a ∧
      a.run ((firstPages n).map fun q => .iTranslate q.1 q.2) = .ok (a', log) ∧
      ¬ Sound 14 ((firstPages n).map fun q => .iTranslate q.1 q.2) log := by
  have hlen : (firstPages n).length = n := by
    rw [firstPages, List.length_map, List.length_range]
  have hctx : ∀ q ∈ firstPages n, q.1.toNat < 32 := by
    intro q hq
    rw [firstPages, List.mem_map] at hq
    obtain ⟨i, -, rfl⟩ := hq
    exact (by decide : (1#32).toNat < 32)
  have hnew := new_eq .softsdv
  have ha := touched_new .softsdv hnew
  obtain ⟨⟨a', log⟩, hrun⟩ := run_total ha hctx (by
    intro c
    rw [hlen, List.length_nil]
    omega)
  refine ⟨_, a', log, hnew, hrun, ?_⟩
  intro hs
  obtain ⟨keys, ha', h⟩ := run_spec ha hrun
  have hodd := ((h.separated ha' hs).roomy).odd 1 (by decide) rfl
  rw [pageCount_firstPages (by omega)] at hodd
  omega

/-- Context 1 gives its pages 0 and 2 ^ 31 one physical page. -/
theorem pageColoring_aliases : ∃ a a' log,
    AddressTranslator.new 14 0x1000000000 = .ok a ∧
      a.run ((firstPages (2 ^ 31 + 1)).map fun q => .iTranslate q.1 q.2) = .ok (a', log) ∧
      ¬ Sound 14 ((firstPages (2 ^ 31 + 1)).map fun q => .iTranslate q.1 q.2) log :=
  firstPages_aliases (by decide) (by decide)

end AsimFeeder.AddrTrans
