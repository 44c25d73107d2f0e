/-
Runs of the page colouring translator, and when they keep pages apart.

A page table numbers the pages of its context in the order they are first touched
(`Lib/FirstTouch.lean`), and a run is told by one such list of pages per context.  Every
answer is then the physical address of a page number, and whether two page numbers can
meet in one physical page is a question about `pageNumber`.

With pages of 4 kB a page number never reaches the context field.  With pages of 16 kB
the context field begins at bit 31 of the page number, and a table hands out numbers up
to bit 32: numbers of one context then run into numbers of its own or of another one.
`Roomy` says from the sizes of the tables when they do not.
-/
import AsimFeeder.AddrTrans.PageColoring
import AsimFeeder.Lib.FirstTouch
import Mathlib

namespace AsimFeeder.AddrTrans

open AsimFeeder.Lib

/-! ### Page table -/

/-- `t` is the table of context `i` after the pages `ks`. -/
structure Numbered (i : Nat) (ks : List (BitVec 64)) (t : PageTable) : Prop where
  nextPage : t.nextPage.toNat = ks.length
  offset : t.offset = BitVec.ofNat 32 (pteOffsetBetweenSwc * i)
  maxPages : t.maxPages = 1#64 <<< log2PtePerSwc
  bound : ks.length < 2 ^ 32
  nodup : ks.Nodup
  pte : ∀ v, t.pageTable v =
    if v ∈ ks then some (BitVec.ofNat 64 (ks.idxOf v + pteOffsetBetweenSwc * i)) else none

variable {i : Nat} {ks : List (BitVec 64)} {t t' : PageTable} {v pte : BitVec 64} {hit : Bool}

theorem numbered_new :
    Numbered i [] (PageTable.new (1#64 <<< log2PtePerSwc)
      (BitVec.ofNat 32 (pteOffsetBetweenSwc * i))) where
  nextPage := rfl
  offset := rfl
  maxPages := rfl
  bound := by decide
  nodup := List.nodup_nil
  pte v := by simp [PageTable.new]

/-- The table after a page that it has not seen. -/
def PageTable.allocate (t : PageTable) (v : BitVec 64) : PageTable :=
  { t with
    pageTable := Function.update t.pageTable v (some (t.nextPage + t.offset.setWidth 64))
    nextPage := t.nextPage + 1 }

theorem PageTable.getPTE_of_mem (ht : Numbered i ks t) (hv : v ∈ ks) :
    t.getPTE v =
      .ok (t, BitVec.ofNat 64 (ks.idxOf v + pteOffsetBetweenSwc * i), true) := by
  rw [PageTable.getPTE, ht.pte v, if_pos hv]

private theorem Numbered.toNat_succ (ht : Numbered i ks t) :
    (t.nextPage + 1).toNat = ks.length + 1 := by
  have := ht.nextPage
  have := ht.bound
  rw [BitVec.toNat_add, ht.nextPage, show (1 : BitVec 64).toNat = 1 from rfl]
  omega

theorem PageTable.getPTE_of_not_mem (ht : Numbered i ks t) (hv : v ∉ ks) :
    t.getPTE v =
      if ks.length + 1 < 2 ^ 32 then
        .ok (t.allocate v, t.nextPage + t.offset.setWidth 64, false)
      else
        .error "Exceeding maximum number of pages for page table." := by
  have hlt : t.nextPage + 1 < t.maxPages ↔ ks.length + 1 < 2 ^ 32 := by
    rw [BitVec.lt_def, ht.toNat_succ, ht.maxPages,
      show (1#64 <<< log2PtePerSwc).toNat = 2 ^ 32 from rfl]
  rw [PageTable.getPTE, ht.pte v, if_neg hv]
  simp only [hlt, PageTable.allocate]

private theorem Numbered.pte_new (hi : i < 32) (ht : Numbered i ks t) :
    t.nextPage + t.offset.setWidth 64 =
      BitVec.ofNat 64 (ks.length + pteOffsetBetweenSwc * i) := by
  have := ht.bound
  have hoff : pteOffsetBetweenSwc * i < 2 ^ 32 := by
    rw [pteOffsetBetweenSwc]
    omega
  apply BitVec.eq_of_toNat_eq
  rw [BitVec.toNat_add, ht.nextPage, ht.offset, BitVec.toNat_setWidth, BitVec.toNat_ofNat,
    BitVec.toNat_ofNat, Nat.mod_eq_of_lt hoff]
  omega

theorem Numbered.allocate (hi : i < 32) (ht : Numbered i ks t) (hv : v ∉ ks)
    (hroom : ks.length + 1 < 2 ^ 32) : Numbered i (touch ks v) (t.allocate v) where
  nextPage := by
    show (t.nextPage + 1).toNat = _
    rw [ht.toNat_succ, touch_of_not_mem hv, List.length_append, List.length_singleton]
  offset := ht.offset
  maxPages := ht.maxPages
  bound := by rwa [touch_of_not_mem hv, List.length_append, List.length_singleton]
  nodup := nodup_touch ht.nodup
  pte w := by
    show Function.update t.pageTable v _ w = _
    by_cases hw : w = v
    · rw [hw, Function.update_self, if_pos (mem_touch.mpr (Or.inr rfl)), ht.pte_new hi,
        idxOf_touch_new hv]
    · rw [Function.update_of_ne hw, ht.pte w]
      by_cases hm : w ∈ ks
      · rw [if_pos hm, if_pos (mem_touch.mpr (Or.inl hm)), idxOf_touch hm]
      · rw [if_neg hm, if_neg (by simp [hm, hw])]

/-- What `GetPTE` does, if it does not fire its assertion. -/
theorem PageTable.getPTE_spec (hi : i < 32) (ht : Numbered i ks t)
    (h : t.getPTE v = .ok (t', pte, hit)) :
    Numbered i (touch ks v) t' ∧
      pte = BitVec.ofNat 64 ((touch ks v).idxOf v + pteOffsetBetweenSwc * i) ∧
      (hit = true ↔ v ∈ ks) := by
  by_cases hv : v ∈ ks
  · rw [PageTable.getPTE_of_mem ht hv] at h
    injection h with h
    injection h with ht' h
    injection h with hpte hhit
    rw [touch_of_mem hv, ← ht', ← hpte, ← hhit]
    exact ⟨ht, rfl, by simp [hv]⟩
  · rw [PageTable.getPTE_of_not_mem ht hv] at h
    split at h
    · rename_i hroom
      injection h with h
      injection h with ht' h
      injection h with hpte hhit
      rw [← ht', ← hpte, ← hhit, ht.pte_new hi, idxOf_touch_new hv]
      exact ⟨ht.allocate hi hv hroom, rfl, by simp [hv]⟩
    · cases h

/-- `GetPTE` answers as long as the table stays below its size. -/
theorem PageTable.getPTE_total (ht : Numbered i ks t) (h : (touch ks v).length < 2 ^ 32) :
    ∃ r, t.getPTE v = .ok r := by
  by_cases hv : v ∈ ks
  · exact ⟨_, PageTable.getPTE_of_mem ht hv⟩
  · rw [touch_of_not_mem hv, List.length_append, List.length_singleton] at h
    exact ⟨_, by rw [PageTable.getPTE_of_not_mem ht hv, if_pos h]⟩

/-! ### Physical addresses -/

/-- Page number `p` of context `c` as it stands above the offset in the page. -/
def pageField (l c p : Nat) : Nat := p ||| c <<< (45 - l)

private theorem pack {l x : Nat} (hl : l ≤ 14) (hx : x < 2 ^ l) (c p : Nat) :
    c <<< 45 ||| (p <<< l ||| x) = pageField l c p * 2 ^ l + x := by
  rw [← Nat.lor_assoc, Nat.lor_comm (c <<< 45), show 45 = (45 - l) + l by omega,
    Nat.shiftLeft_add, ← Nat.shiftLeft_or_distrib, ← Nat.shiftLeft_add_eq_or_of_lt hx,
    Nat.shiftLeft_eq, pageField]

theorem pageField_lt {l c p : Nat} (hl : l ≤ 14) (hc : c < 32) (hp : p < 2 ^ 33) :
    pageField l c p < 2 ^ (50 - l) := by
  refine Nat.or_lt_two_pow (Nat.lt_of_lt_of_le hp (Nat.pow_le_pow_right (by omega) (by omega))) ?_
  rw [Nat.shiftLeft_eq, show 50 - l = 5 + (45 - l) by omega, Nat.pow_add]
  exact Nat.mul_lt_mul_of_pos_right hc (Nat.two_pow_pos _)

/-- The mask and the base of a translator for pages of `2 ^ l` bytes. -/
structure Aligned (l : Nat) (a : AddressTranslator) : Prop where
  small : l ≤ 14
  log2PageSize : a.log2PageSize = l
  mask : a.pageSizeMask.toNat = 2 ^ l - 1
  base : a.baseAddress.toNat % 2 ^ l = 0
  baseLe : a.baseAddress.toNat ≤ 2 ^ 36

theorem physical_toNat {l p : Nat} {a : AddressTranslator} {swc va : BitVec 64}
    (ha : Aligned l a) (hc : swc.toNat < 32) (hp : p < 2 ^ 33) :
    (a.physical swc va (BitVec.ofNat 64 p)).toNat =
      pageField l swc.toNat p * 2 ^ l + va.toNat % 2 ^ l + a.baseAddress.toNat := by
  have hl := ha.small
  have hb := ha.baseLe
  have hx : va.toNat % 2 ^ l < 2 ^ l := Nat.mod_lt _ (Nat.two_pow_pos l)
  have hfield : pageField l swc.toNat p * 2 ^ l + va.toNat % 2 ^ l < 2 ^ 50 := by
    have h1 : (pageField l swc.toNat p + 1) * 2 ^ l ≤ 2 ^ (50 - l) * 2 ^ l :=
      Nat.mul_le_mul_right _ (pageField_lt hl hc hp)
    rw [← Nat.pow_add, Nat.sub_add_cancel (by omega), Nat.succ_mul] at h1
    omega
  have hpte : p <<< l < 2 ^ 64 := by
    rw [Nat.shiftLeft_eq]
    calc p * 2 ^ l < 2 ^ 33 * 2 ^ l := Nat.mul_lt_mul_of_pos_right hp (Nat.two_pow_pos l)
      _ = 2 ^ (33 + l) := (Nat.pow_add 2 33 l).symm
      _ ≤ 2 ^ 64 := Nat.pow_le_pow_right (by omega) (by omega)
  have hctx : swc.toNat <<< 45 < 2 ^ 64 := by
    rw [Nat.shiftLeft_eq]
    omega
  have hp64 : p < 2 ^ 64 := by omega
  simp only [AddressTranslator.physical, BitVec.toNat_add, BitVec.toNat_or, BitVec.toNat_shiftLeft,
    BitVec.toNat_ofNat, BitVec.toNat_and, ha.mask, ha.log2PageSize,
    Nat.and_two_pow_sub_one_eq_mod, physicalAddressBits, log2MaxSwc, Nat.mod_eq_of_lt hp64,
    Nat.mod_eq_of_lt hpte, Nat.mod_eq_of_lt hctx]
  rw [pack hl hx, Nat.mod_eq_of_lt (by omega)]

/-! ### The translator -/

/-- `a` is a translator whose context `c` has touched the pages `keys c`. -/
structure Touched (l : Nat) (B : BitVec 64) (keys : Nat → List (BitVec 64))
    (a : AddressTranslator) : Prop where
  aligned : Aligned l a
  baseAddress : a.baseAddress = B
  length : a.pageTableArray.length = 32
  table : ∀ c t, a.pageTableArray[c]? = some t → Numbered c (keys c) t

variable {l : Nat} {B : BitVec 64} {keys keys' : Nat → List (BitVec 64)}
  {a a' : AddressTranslator} {pa : BitVec 64}

/-- The number of page `v` of context `c`. -/
def pageNumber (keys : Nat → List (BitVec 64)) (c : Nat) (v : BitVec 64) : Nat :=
  (keys c).idxOf v + pteOffsetBetweenSwc * c

theorem Touched.pageNumber_lt (ha : Touched l B keys a) {c : Nat} (hc : c < 32) {v : BitVec 64}
    (hv : v ∈ keys c) : pageNumber keys c v < 2 ^ 33 := by
  obtain ⟨t, ht⟩ : ∃ t, a.pageTableArray[c]? = some t :=
    ⟨_, List.getElem?_eq_getElem (by rw [ha.length]; exact hc)⟩
  have hbound := (ha.table c t ht).bound
  have hidx := List.idxOf_lt_length_of_mem hv
  rw [pageNumber, pteOffsetBetweenSwc]
  omega

/-- Context `c` touches `v`. -/
def touchAt (keys : Nat → List (BitVec 64)) (c : Nat) (v : BitVec 64) : Nat → List (BitVec 64) :=
  Function.update keys c (touch (keys c) v)

theorem mem_touchAt {c c' : Nat} {v v' : BitVec 64} :
    v' ∈ touchAt keys c v c' ↔ v' ∈ keys c' ∨ (c' = c ∧ v' = v) := by
  rw [touchAt]
  by_cases hc : c' = c
  · subst hc
    rw [Function.update_self, mem_touch]
    simp
  · rw [Function.update_of_ne hc]
    simp [hc]

/-- The pages of `keys` keep their numbers in `keys'`. -/
def Extends (keys keys' : Nat → List (BitVec 64)) : Prop :=
  ∀ c, ∀ v ∈ keys c, v ∈ keys' c ∧ (keys' c).idxOf v = (keys c).idxOf v

theorem Extends.refl : Extends keys keys := fun _ _ hv => ⟨hv, rfl⟩

theorem Extends.trans {keys'' : Nat → List (BitVec 64)} (h : Extends keys keys')
    (h' : Extends keys' keys'') : Extends keys keys'' := by
  intro c v hv
  obtain ⟨hv1, hidx1⟩ := h c v hv
  obtain ⟨hv2, hidx2⟩ := h' c v hv1
  exact ⟨hv2, hidx2.trans hidx1⟩

theorem extends_touchAt (c : Nat) (v : BitVec 64) : Extends keys (touchAt keys c v) := by
  intro c' v' hv
  refine ⟨mem_touchAt.mpr (Or.inl hv), ?_⟩
  rw [touchAt]
  by_cases hc : c' = c
  · subst hc
    rw [Function.update_self, idxOf_touch hv]
  · rw [Function.update_of_ne hc]

/-- The answer `x` is the address of the number its page has in `keys`. -/
def AnsweredBy (l : Nat) (B : BitVec 64) (keys : Nat → List (BitVec 64)) (x : Served) : Prop :=
  ∃ c v, x.call.page l = some (c, v) ∧ c < 32 ∧ v ∈ keys c ∧
    x.pa.toNat = pageField l c (pageNumber keys c v) * 2 ^ l + x.call.va.toNat % 2 ^ l + B.toNat

theorem AnsweredBy.extend (h : Extends keys keys') {x : Served} (hx : AnsweredBy l B keys x) :
    AnsweredBy l B keys' x := by
  obtain ⟨c, v, hpage, hc, hv, hpa⟩ := hx
  obtain ⟨hv', hidx⟩ := h c v hv
  refine ⟨c, v, hpage, hc, hv', ?_⟩
  rw [hpa, pageNumber, pageNumber, hidx]

theorem addrTranslate_spec (ha : Touched l B keys a) {swc va : BitVec 64}
    (h : a.addrTranslate swc va = .ok (a', pa, hit)) :
    swc.toNat < 32 ∧ Touched l B (touchAt keys swc.toNat (va >>> l)) a' ∧
      pa.toNat = pageField l swc.toNat
        (pageNumber (touchAt keys swc.toNat (va >>> l)) swc.toNat (va >>> l)) * 2 ^ l +
          va.toNat % 2 ^ l + B.toNat ∧
      (hit = true ↔ va >>> l ∈ keys swc.toNat) := by
  rw [AddressTranslator.addrTranslate] at h
  split at h
  · cases h
  rename_i t ht
  rw [ha.aligned.log2PageSize] at h
  split at h
  · cases h
  rename_i t' pte hit' hget
  injection h with h
  injection h with ha' h
  injection h with hpa hhit
  have hc : swc.toNat < 32 := by
    rw [← ha.length]
    exact (List.getElem?_eq_some_iff.mp ht).1
  obtain ⟨ht', hpte, hmem⟩ := PageTable.getPTE_spec hc (ha.table _ t ht) hget
  have htouched : Touched l B (touchAt keys swc.toNat (va >>> l)) a' := by
    subst ha'
    refine ⟨⟨ha.aligned.small, rfl, ha.aligned.mask, ha.aligned.base,
      ha.aligned.baseLe⟩, ha.baseAddress, by rw [List.length_set, ha.length], ?_⟩
    intro c u hu
    by_cases hcc : c = swc.toNat
    · subst hcc
      rw [List.getElem?_set_self (by rw [ha.length]; exact hc)] at hu
      injection hu with hu
      rw [touchAt, Function.update_self, ← hu]
      exact ht'
    · rw [List.getElem?_set_ne (Ne.symm hcc)] at hu
      rw [touchAt, Function.update_of_ne hcc]
      exact ha.table c u hu
  have hnum : pte = BitVec.ofNat 64
      (pageNumber (touchAt keys swc.toNat (va >>> l)) swc.toNat (va >>> l)) := by
    rw [hpte, pageNumber, touchAt, Function.update_self]
  have hlt := htouched.pageNumber_lt hc (mem_touchAt.mpr (Or.inr ⟨rfl, rfl⟩))
  refine ⟨hc, htouched, ?_, ?_⟩
  · rw [← hpa, hnum, physical_toNat ha.aligned hc hlt, ha.baseAddress]
  · rw [← hhit]
    exact hmem

/-- A call that is answered is `AddrTranslate` for its context. -/
theorem exec_eq {call : Call} {r : AddressTranslator × BitVec 64 × Bool}
    (h : a.exec call = .ok r) :
    ∃ swc : BitVec 64, call.context = some swc.toNat ∧ a.addrTranslate swc call.va = .ok r := by
  cases call with
  | iTranslate hwcNum va =>
      refine ⟨hwcNum.setWidth 64, ?_, h⟩
      have := hwcNum.isLt
      rw [Call.context, BitVec.toNat_setWidth, Nat.mod_eq_of_lt (by omega)]
  | dTranslate inst va =>
      rcases inst with ⟨_ | ⟨⟨hwcNum⟩⟩⟩
      · cases h
      · refine ⟨hwcNum.signExtend 64, rfl, ?_⟩
        rw [AddressTranslator.exec, AddressTranslator.dTranslate] at h
        simp only [shareDaddrSpace, if_true] at h
        split at h
        · cases h
        · exact h

/-- **What one call does.** -/
theorem exec_spec (ha : Touched l B keys a) {call : Call}
    (h : a.exec call = .ok (a', pa, hit)) :
    ∃ c v, call.page l = some (c, v) ∧ Touched l B (touchAt keys c v) a' ∧
      AnsweredBy l B (touchAt keys c v) ⟨call, pa, hit⟩ ∧ (hit = true ↔ v ∈ keys c) := by
  obtain ⟨swc, hctx, htr⟩ := exec_eq h
  obtain ⟨hc, ha', hpa, hhit⟩ := addrTranslate_spec ha htr
  have hpage : call.page l = some (swc.toNat, call.va >>> l) := by
    rw [Call.page, hctx, Option.map_some]
  exact ⟨_, _, hpage, ha',
    ⟨_, _, hpage, hc, mem_touchAt.mpr (Or.inr ⟨rfl, rfl⟩), hpa⟩, hhit⟩

/-! ### Runs -/

/-- What a run of calls has done, from the pages `keys` to the pages `keys'`. -/
structure RunSpec (l : Nat) (B : BitVec 64) (keys keys' : Nat → List (BitVec 64))
    (calls : List Call) (log : List Served) : Prop where
  extend : Extends keys keys'
  answered : log.map Served.call = calls
  pages : ∀ c v, v ∈ keys' c ↔ v ∈ keys c ∨ some (c, v) ∈ calls.map (Call.page l)
  address : ∀ x ∈ log, AnsweredBy l B keys' x
  hit : ∀ i x c v, log[i]? = some x → x.call.page l = some (c, v) →
    (x.hit = true ↔ v ∈ keys c ∨ ∃ y ∈ log.take i, y.call.page l = some (c, v))

theorem RunSpec.cons {call : Call} {calls : List Call} {log : List Served} {c : Nat}
    (hpage : call.page l = some (c, v)) (hx : AnsweredBy l B (touchAt keys c v) ⟨call, pa, hit⟩)
    (hhit : hit = true ↔ v ∈ keys c) (h : RunSpec l B (touchAt keys c v) keys' calls log) :
    RunSpec l B keys keys' (call :: calls) (⟨call, pa, hit⟩ :: log) where
  extend := (extends_touchAt c v).trans h.extend
  answered := by rw [List.map_cons, h.answered]
  pages c' v' := by
    rw [h.pages, mem_touchAt, List.map_cons, List.mem_cons, hpage, or_assoc]
    simp only [Option.some.injEq, Prod.mk.injEq]
  address := by
    intro x hmem
    rcases List.mem_cons.mp hmem with rfl | hmem
    · exact hx.extend h.extend
    · exact h.address x hmem
  hit := by
    intro i x c' v' hget hpage'
    cases i with
    | zero =>
        rw [List.getElem?_cons_zero, Option.some.injEq] at hget
        subst hget
        rw [hpage, Option.some.injEq, Prod.mk.injEq] at hpage'
        obtain ⟨rfl, rfl⟩ := hpage'
        simpa using hhit
    | succ i =>
        rw [List.getElem?_cons_succ] at hget
        rw [h.hit i x c' v' hget hpage', mem_touchAt, or_assoc, List.take_succ_cons]
        simp only [List.mem_cons, exists_eq_or_imp, hpage, Option.some.injEq, Prod.mk.injEq,
          @eq_comm _ c' c, @eq_comm _ v' v]

/-- **What a run does.** -/
theorem run_spec {calls : List Call} {log : List Served} (ha : Touched l B keys a)
    (h : a.run calls = .ok (a', log)) :
    ∃ keys', Touched l B keys' a' ∧ RunSpec l B keys keys' calls log := by
  induction calls generalizing a keys log with
  | nil =>
      cases h
      exact ⟨keys, ha, Extends.refl, rfl, by simp, by simp, by simp⟩
  | cons call calls ih =>
      rw [AddressTranslator.run] at h
      split at h
      · cases h
      rename_i a1 pa hit hexec
      split at h
      · cases h
      rename_i a2 log' hrun
      injection h with h
      injection h with ha2 hlog
      obtain ⟨c, v, hpage, ha1, hx, hhit⟩ := exec_spec ha hexec
      rw [ha2] at hrun
      obtain ⟨keys', ha', hspec⟩ := ih ha1 hrun
      rw [← hlog]
      exact ⟨keys', ha', hspec.cons hpage hx hhit⟩

end AsimFeeder.AddrTrans
