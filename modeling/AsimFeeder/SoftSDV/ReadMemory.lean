/-
Reading back the memory that an instruction read (`ReadMemory`, `softsdv_feeder.cpp`).

The whole range is copied out of the first load with a value in which `VTranslate` finds it;
if there is none, each byte is looked for by itself.  `VTranslate` looks at the page of the
first byte only, so a range that runs over the end of its page is copied from the virtual page
behind it, whatever physical page that is; and it can miss a byte that a load read.  A read is
careful if the load that is taken has the range on one page or on two that follow one another
in memory too, and if no byte that some load read is missed.

Values are the bytes of the load's storage.  `ReadMemory` answers `none` where it returns
false; what it leaves in the buffer then is not modelled.
-/
import AsimFeeder.SoftSDV.MergeREP
import AsimFeeder.SoftSDV.LoadPages

namespace AsimFeeder.SoftSDV

/-- What the trace id says of an instruction. -/
inductive TraceId
  | fromSoftSDV
  | wrongPath
  | artificialInst
  deriving DecidableEq, Repr

/-- `NLoads` and `GetLoad`. -/
def LiveInstr.getLoads (instrHandle : LiveInstr InstInfo RepMemRegions) : List MemAccess :=
  match instrHandle.repMemRegions with
  | some regions => regions.loads
  | none => instrHandle.softsdvInstr.data.loads

namespace MemAccess

/-- A load that has a value, and has the range. -/
def hasRange (pAddr : BitVec 64) (size : BitVec 32) (ld : MemAccess) : Bool :=
  ld.valueSet && (ld.vTranslate pAddr size).nBytes ≠ 0

/-- The bytes that `GetValue` points to. -/
def value (ld : MemAccess) (offset : Nat) : UInt8 :=
  match ld.valueStorage with
  | some storage => storage.byte offset
  | none => 0

/-- `address` may be in the middle of the region. -/
def copyFrom (ld : MemAccess) (address : BitVec 64) (n : Nat) : UInt8 :=
  ld.value ((address - ld.baseVA).toNat + n)

end MemAccess

section Loads

variable (loads : List MemAccess)

/-- The load that the range is copied from. -/
def firstLoad (pAddr : BitVec 64) (size : BitVec 32) : Option MemAccess :=
  loads.find? (MemAccess.hasRange pAddr size)

def readOnce (pAddr : BitVec 64) (size : BitVec 32) : Option (Nat → UInt8) :=
  (firstLoad loads pAddr size).map fun ld => ld.copyFrom (ld.vTranslate pAddr size).va

/-- The first `n` bytes, one at a time. -/
def readBytes (pAddr : BitVec 64) : Nat → Option (Nat → UInt8)
  | 0 => some fun _ => 0
  | n + 1 => do
      let buffer ← readBytes pAddr n
      let b ← readOnce loads (pAddr + BitVec.ofNat 64 n) 1
      some (Function.update buffer n (b 0))

def readLoads (size : BitVec 32) (pAddr : BitVec 64) : Option (Nat → UInt8) :=
  match readOnce loads pAddr size with
  | some buffer => some buffer
  | none => if 1 < size.toNat then readBytes loads pAddr size.toNat else none

end Loads

def readMemory (traceId : TraceId) (instrHandle : LiveInstr InstInfo RepMemRegions)
    (size : BitVec 32) (pAddr : BitVec 64) : Option (Nat → UInt8) :=
  if traceId = .wrongPath ∨ traceId = .artificialInst then none
  else readLoads instrHandle.getLoads size pAddr

/-! ### What was read -/

namespace MemAccess

/-- The same reference, with other bytes as its value. -/
def withValue (ld : MemAccess) (bytes : Nat → UInt8) : MemAccess :=
  { ld with
    valueStorage := ld.valueStorage.map fun storage => { storage with byte := bytes }
    stored := fun h => by rw [Option.isSome_map]; exact ld.stored h }

end MemAccess

/-- The byte is the value of what some load read at the physical address. -/
def Recorded (loads : List MemAccess) (pa : BitVec 64) (b : UInt8) : Prop :=
  ∃ ld ∈ loads, ∃ va, ld.ReadsAt va pa ∧ ld.valueAt va = some b

/-- A load that has a value read the physical address. -/
def IsCovered (loads : List MemAccess) (pa : BitVec 64) : Prop :=
  ∃ ld ∈ loads, ld.valueSet = true ∧ ∃ va, ld.ReadsAt va pa

/-- What `ReadMemory` should answer. -/
structure ReadsRight (loads : List MemAccess) (size : BitVec 32) (pAddr : BitVec 64)
    (result : Option (Nat → UInt8)) : Prop where
  exact : ∀ buffer, result = some buffer → ∀ i < size.toNat,
    Recorded loads (pAddr + BitVec.ofNat 64 i) (buffer i)
  complete : (∀ i < size.toNat, IsCovered loads (pAddr + BitVec.ofNat 64 i)) →
    result.isSome = true

/-- The same loads, with any values. -/
def SameLoads (loads loads' : List MemAccess) : Prop :=
  List.Forall₂ (fun ld ld' => ∃ bytes, ld' = MemAccess.withValue ld bytes) loads loads'

/-- The first load that offers the range gives it straight. -/
def FirstGives (pa : BitVec 64) (size : BitVec 32) : List MemAccess → Prop
  | [] => False
  | ld :: loads => ld.Gives pa size ∨ ¬ ld.Offers pa size ∧ FirstGives pa size loads

/-- No load that has a value has the physical address on any of its pages. -/
def Missing (loads : List MemAccess) (pa : BitVec 64) : Prop :=
  ∀ ld ∈ loads, ld.valueSet = true → ¬ ld.Has pa

/-- The range is given straight.  Or no load offers the whole of it, and either each byte is
given straight by itself or, as one byte is not offered, it is well that one is missing. -/
def CarefulCopy (loads : List MemAccess) (size : BitVec 32) (pAddr : BitVec 64) : Prop :=
  0 < size.toNat ∧
    (FirstGives pAddr size loads ∨
      (∀ ld ∈ loads, ¬ ld.Offers pAddr size) ∧
        ((∀ i < size.toNat, FirstGives (pAddr + BitVec.ofNat 64 i) 1 loads) ∨
          (∃ i < size.toNat, ∀ ld ∈ loads, ¬ ld.Offers (pAddr + BitVec.ofNat 64 i) 1) ∧
            ∃ i < size.toNat, Missing loads (pAddr + BitVec.ofNat 64 i)))

/-- What the bad path reads is nothing, which is well if something is missing. -/
def CarefulRead (traceId : TraceId) (loads : List MemAccess) (size : BitVec 32)
    (pAddr : BitVec 64) : Prop :=
  if traceId = .wrongPath ∨ traceId = .artificialInst then
    ∃ i < size.toNat, Missing loads (pAddr + BitVec.ofNat 64 i)
  else CarefulCopy loads size pAddr

/-! ### The load that is taken -/

/-- The load that is taken reads each byte of the range at its physical address. -/
def TakenReads (loads : List MemAccess) (pAddr : BitVec 64) (size : BitVec 32) : Prop :=
  ∃ ld, firstLoad loads pAddr size = some ld ∧ ∀ i < size.toNat,
    ld.ReadsAt ((ld.vTranslate pAddr size).va + BitVec.ofNat 64 i) (pAddr + BitVec.ofNat 64 i)

/-- The load that is taken reads the range.  Or none is taken for the whole of it, and either
the one that is taken for each byte reads it or, as none is taken for one, one is not covered. -/
def CopiesRight (loads : List MemAccess) (size : BitVec 32) (pAddr : BitVec 64) : Prop :=
  0 < size.toNat ∧
    (TakenReads loads pAddr size ∨
      firstLoad loads pAddr size = none ∧
        ((∀ i < size.toNat, TakenReads loads (pAddr + BitVec.ofNat 64 i) 1) ∨
          (∃ i < size.toNat, firstLoad loads (pAddr + BitVec.ofNat 64 i) 1 = none) ∧
            ∃ i < size.toNat, ¬ IsCovered loads (pAddr + BitVec.ofNat 64 i)))

/-! ### Values do not matter for where a byte is looked for -/

variable {loads loads' : List MemAccess} {pAddr pa va : BitVec 64} {size : BitVec 32}
  {ld : MemAccess} {bytes : Nat → UInt8}

namespace MemAccess

theorem hasRange_withValue (ld : MemAccess) (bytes : Nat → UInt8) :
    hasRange pAddr size (ld.withValue bytes) = hasRange pAddr size ld := rfl

theorem vTranslate_withValue (ld : MemAccess) (bytes : Nat → UInt8) :
    (ld.withValue bytes).vTranslate pAddr size = ld.vTranslate pAddr size := rfl

theorem baseVA_withValue (ld : MemAccess) (bytes : Nat → UInt8) :
    (ld.withValue bytes).baseVA = ld.baseVA := rfl

theorem withValue_value (ld : MemAccess) : ld.withValue ld.value = ld := by
  obtain ⟨baseVA, pages, valueStorage, nPages, nBytes, refSource, valueSet, _, _, _⟩ := ld
  cases valueStorage <;> rfl

end MemAccess

theorem SameLoads.refl (loads : List MemAccess) : SameLoads loads loads :=
  List.forall₂_same.mpr fun ld _ => ⟨ld.value, ld.withValue_value.symm⟩

theorem SameLoads.firstLoad_none (h : SameLoads loads loads') :
    firstLoad loads' pAddr size = none ↔ firstLoad loads pAddr size = none := by
  induction h with
  | nil => exact Iff.rfl
  | cons hld _ ih =>
      obtain ⟨bytes, rfl⟩ := hld
      unfold firstLoad at ih ⊢
      rw [List.find?_cons, List.find?_cons, MemAccess.hasRange_withValue]
      split
      · simp
      · exact ih

theorem SameLoads.firstLoad_some (h : SameLoads loads loads')
    (hfirst : firstLoad loads pAddr size = some ld) :
    ∃ bytes, firstLoad loads' pAddr size = some (ld.withValue bytes) := by
  induction h with
  | nil => cases hfirst
  | cons hld _ ih =>
      obtain ⟨bytes, rfl⟩ := hld
      unfold firstLoad at hfirst ih ⊢
      rw [List.find?_cons] at hfirst ⊢
      rw [MemAccess.hasRange_withValue]
      split at hfirst
      · obtain rfl := Option.some.inj hfirst
        exact ⟨bytes, rfl⟩
      · exact ih hfirst

theorem SameLoads.isCovered (h : SameLoads loads loads') :
    IsCovered loads' pa ↔ IsCovered loads pa := by
  induction h with
  | nil => exact Iff.rfl
  | cons hld _ ih =>
      obtain ⟨bytes, rfl⟩ := hld
      unfold IsCovered at ih ⊢
      simp only [List.mem_cons, or_and_right, exists_or, exists_eq_left, ih]
      exact Iff.rfl

theorem SameLoads.takenReads (h : SameLoads loads loads') (htaken : TakenReads loads pAddr size) :
    TakenReads loads' pAddr size := by
  obtain ⟨ld, hfirst, hreads⟩ := htaken
  obtain ⟨bytes, hfirst'⟩ := h.firstLoad_some hfirst
  exact ⟨_, hfirst', hreads⟩

theorem SameLoads.nBytes (h : SameLoads loads loads') (hsize : ∀ ld ∈ loads, ld.nBytes < 2 ^ 32) :
    ∀ ld ∈ loads', ld.nBytes < 2 ^ 32 := by
  induction h with
  | nil => exact hsize
  | cons hld _ ih =>
      obtain ⟨bytes, rfl⟩ := hld
      obtain ⟨hhead, htail⟩ := List.forall_mem_cons.mp hsize
      exact List.forall_mem_cons.mpr ⟨hhead, ih htail⟩

theorem SameLoads.copiesRight (h : SameLoads loads loads')
    (hright : CopiesRight loads size pAddr) : CopiesRight loads' size pAddr := by
  obtain ⟨hpos, hwhole | ⟨hnone, hbytes | ⟨⟨i, hi, hmiss⟩, j, hj, huncovered⟩⟩⟩ := hright
  · exact ⟨hpos, .inl (h.takenReads hwhole)⟩
  · exact ⟨hpos, .inr ⟨h.firstLoad_none.mpr hnone, .inl fun i hi => h.takenReads (hbytes i hi)⟩⟩
  · exact ⟨hpos, .inr ⟨h.firstLoad_none.mpr hnone, .inr ⟨⟨i, hi, h.firstLoad_none.mpr hmiss⟩,
      j, hj, mt h.isCovered.mp huncovered⟩⟩⟩

/-! ### What is copied -/

namespace MemAccess

theorem hasRange_iff : hasRange pAddr size ld = true ↔
    ld.valueSet = true ∧ (ld.vTranslate pAddr size).nBytes ≠ 0 := by
  simp [hasRange]

/-- What is found is not empty, and does not begin before the reference. -/
theorem hasRange_spec (h : hasRange pAddr size ld = true) :
    0 < size.toNat ∧ ld.baseVA.toNat ≤ (ld.vTranslate pAddr size).va.toNat := by
  have hne := (hasRange_iff.mp h).2
  obtain hnone | ⟨i, hfound, hcontains⟩ := ld.vTranslate_cases pAddr size
  · rw [hnone] at hne
    exact absurd rfl hne
  · rw [hfound] at hne ⊢
    refine ⟨Nat.pos_of_ne_zero fun hzero => hne ?_, ((containsVA_eq ld _ size).mp hcontains).1⟩
    apply BitVec.eq_of_toNat_eq
    rw [toNat_setWidth, hzero]
    rfl

theorem valueAt_eq (h : ld.valueSet = true) (va : BitVec 64) :
    ld.valueAt va = some (ld.value (va.toNat - ld.baseVA.toNat)) := by
  obtain ⟨storage, hstorage⟩ := Option.isSome_iff_exists.mp (ld.stored h)
  unfold valueAt value
  rw [if_pos h, hstorage]
  rfl

theorem toNat_sub_baseVA (hlo : ld.baseVA.toNat ≤ va.toNat) :
    (va - ld.baseVA).toNat = va.toNat - ld.baseVA.toNat :=
  BitVec.toNat_sub_of_le hlo

/-- A byte that is read behind one that is read is copied from its own place. -/
theorem copyFrom_eq (hsize : ld.nBytes < 2 ^ 32) (hvalue : ld.valueSet = true) {n : Nat}
    (hn : n < 2 ^ 32) {pa' : BitVec 64} (hfirst : ld.ReadsAt va pa')
    (hread : ld.ReadsAt (va + BitVec.ofNat 64 n) pa) :
    ld.valueAt (va + BitVec.ofNat 64 n) = some (ld.copyFrom va n) := by
  obtain ⟨⟨hlo, hhi⟩, -⟩ := hfirst
  obtain ⟨⟨hlo', hhi'⟩, -⟩ := hread
  have hlt := va.isLt
  have hva : (va + BitVec.ofNat 64 n).toNat = va.toNat + n := by
    rw [BitVec.toNat_add, BitVec.toNat_ofNat] at hlo' hhi' ⊢
    omega
  rw [valueAt_eq hvalue, copyFrom, toNat_sub_baseVA hlo, hva]
  congr 2
  omega

end MemAccess

theorem firstLoad_spec (h : firstLoad loads pAddr size = some ld) :
    ld ∈ loads ∧ MemAccess.hasRange pAddr size ld = true :=
  ⟨List.mem_of_find?_eq_some h, List.find?_some h⟩

theorem readOnce_of_none (h : firstLoad loads pAddr size = none) :
    readOnce loads pAddr size = none := by
  rw [readOnce, h]
  rfl

theorem readOnce_of_some (h : firstLoad loads pAddr size = some ld) :
    readOnce loads pAddr size = some (ld.copyFrom (ld.vTranslate pAddr size).va) := by
  rw [readOnce, h]
  rfl

section Bytes

theorem readBytes_eq_some {n : Nat} {buffer : Nat → UInt8}
    (h : readBytes loads pAddr n = some buffer) {i : Nat} (hi : i < n) :
    ∃ b, readOnce loads (pAddr + BitVec.ofNat 64 i) 1 = some b ∧ buffer i = b 0 := by
  induction n generalizing buffer with
  | zero => cases hi
  | succ n ih =>
      rw [readBytes, Option.bind_eq_bind, Option.bind_eq_some_iff] at h
      obtain ⟨before, hbefore, h⟩ := h
      rw [Option.bind_eq_some_iff] at h
      obtain ⟨b, hb, h⟩ := h
      obtain rfl := Option.some.inj h
      by_cases hin : i = n
      · subst hin
        exact ⟨b, hb, Function.update_self ..⟩
      · rw [Function.update_of_ne hin]
        exact ih hbefore (by omega)

theorem readBytes_isSome {n : Nat}
    (h : ∀ i < n, firstLoad loads (pAddr + BitVec.ofNat 64 i) 1 ≠ none) :
    (readBytes loads pAddr n).isSome = true := by
  induction n with
  | zero => rfl
  | succ n ih =>
      obtain ⟨before, hbefore⟩ := Option.isSome_iff_exists.mp (ih fun i hi => h i (by omega))
      obtain ⟨ld, hld⟩ := Option.ne_none_iff_exists'.mp (h n (by omega))
      rw [readBytes, hbefore, readOnce_of_some hld]
      rfl

end Bytes

/-- What the load that is taken reads is what was recorded. -/
theorem TakenReads.recorded (htaken : TakenReads loads pAddr size)
    (hsize : ∀ ld ∈ loads, ld.nBytes < 2 ^ 32) :
    ∃ buffer, readOnce loads pAddr size = some buffer ∧
      ∀ i < size.toNat, Recorded loads (pAddr + BitVec.ofNat 64 i) (buffer i) := by
  obtain ⟨ld, hfirst, hreads⟩ := htaken
  obtain ⟨hmem, hrange⟩ := firstLoad_spec hfirst
  have hlt := size.isLt
  refine ⟨_, readOnce_of_some hfirst, fun i hi => ⟨ld, hmem, _, hreads i hi, ?_⟩⟩
  have hzero := hreads 0 (by omega)
  rw [BitVec.add_zero, BitVec.add_zero] at hzero
  exact MemAccess.copyFrom_eq (hsize ld hmem) (MemAccess.hasRange_iff.mp hrange).1 (by omega)
    hzero (hreads i hi)

/-- One byte is looked for by itself only if there are more. -/
theorem one_lt_of_firstLoad (hpos : 0 < size.toNat) (hnone : firstLoad loads pAddr size = none)
    (hsome : ∀ i < size.toNat, firstLoad loads (pAddr + BitVec.ofNat 64 i) 1 ≠ none) :
    1 < size.toNat := by
  by_contra hle
  have hone : size = 1 := by
    apply BitVec.eq_of_toNat_eq
    rw [show (1 : BitVec 32).toNat = 1 from rfl]
    omega
  have hzero := hsome 0 hpos
  rw [BitVec.add_zero] at hzero
  exact hzero (hone ▸ hnone)

theorem CopiesRight.readsRight (h : CopiesRight loads size pAddr)
    (hsize : ∀ ld ∈ loads, ld.nBytes < 2 ^ 32) :
    ReadsRight loads size pAddr (readLoads loads size pAddr) := by
  obtain ⟨hpos, hright⟩ := h
  unfold readLoads
  rcases hright with htaken | ⟨hnone, hbytes | ⟨⟨i, hi, hmiss⟩, j, hj, huncovered⟩⟩
  · obtain ⟨buffer, hread, hrecorded⟩ := htaken.recorded hsize
    rw [hread]
    refine ⟨fun buffer' hbuffer i hi => ?_, fun _ => rfl⟩
    obtain rfl := Option.some.inj hbuffer
    exact hrecorded i hi
  · have hsome : ∀ i < size.toNat, firstLoad loads (pAddr + BitVec.ofNat 64 i) 1 ≠ none := by
      intro i hi hmiss
      obtain ⟨ld, hfirst, -⟩ := hbytes i hi
      rw [hmiss] at hfirst
      cases hfirst
    rw [readOnce_of_none hnone]
    dsimp only
    rw [if_pos (one_lt_of_firstLoad hpos hnone hsome)]
    refine ⟨fun buffer hbuffer i hi => ?_, fun _ => readBytes_isSome hsome⟩
    obtain ⟨b, hb, hi'⟩ := readBytes_eq_some hbuffer hi
    obtain ⟨b', hb', hrecorded⟩ := (hbytes i hi).recorded hsize
    obtain rfl := Option.some.inj (hb.symm.trans hb')
    have hzero := hrecorded 0 (by decide)
    rw [BitVec.add_zero] at hzero
    rwa [hi']
  · have hresult : readOnce loads pAddr size = none := readOnce_of_none hnone
    have hfalse : ∀ buffer, (if 1 < size.toNat then readBytes loads pAddr size.toNat else none)
        ≠ some buffer := by
      intro buffer hbuffer
      split at hbuffer
      · obtain ⟨b, hb, -⟩ := readBytes_eq_some hbuffer hi
        rw [readOnce_of_none hmiss] at hb
        cases hb
      · cases hbuffer
    rw [hresult]
    exact ⟨fun buffer hbuffer => absurd hbuffer (hfalse buffer),
      fun hcovered => absurd (hcovered j hj) huncovered⟩

/-! ### What goes wrong otherwise -/

theorem MemAccess.value_withValue (h : ld.valueSet = true) (n : Nat) :
    (ld.withValue bytes).value n = bytes n := by
  obtain ⟨storage, hstorage⟩ := Option.isSome_iff_exists.mp (ld.stored h)
  unfold value withValue
  dsimp only
  rw [hstorage]
  rfl

theorem MemAccess.valueAt_withValue {b : UInt8} (h : (ld.withValue bytes).valueAt va = some b) :
    bytes (va.toNat - ld.baseVA.toNat) = b := by
  have hvalue : (ld.withValue bytes).valueSet = true := by
    by_contra hnot
    rw [valueAt, if_neg hnot] at h
    cases h
  have hvalue' : ld.valueSet = true := hvalue
  rw [valueAt_eq hvalue, value_withValue hvalue'] at h
  exact Option.some.inj h

/-- The loads with 0 for every byte but one. -/
theorem firstLoad_marked (hfirst : firstLoad loads pAddr size = some ld) (n : Nat) :
    ∃ loads', SameLoads loads loads' ∧
      firstLoad loads' pAddr size
        = some (ld.withValue fun offset => if offset = n then 1 else 0) ∧
      ∀ pa, Recorded loads' pa 1 →
        ∃ va, ld.ReadsAt va pa ∧ va.toNat - ld.baseVA.toNat = n := by
  obtain ⟨hrange, as, bs, rfl, hbefore⟩ := List.find?_eq_some_iff_append.mp hfirst
  have hzeros : ∀ l : List MemAccess, SameLoads l (l.map fun ld => ld.withValue fun _ => 0) := by
    intro l
    induction l with
    | nil => exact .nil
    | cons ld l ih => exact .cons ⟨_, rfl⟩ ih
  refine ⟨as.map (fun ld => ld.withValue fun _ => 0) ++
    (ld.withValue fun offset => if offset = n then 1 else 0) ::
      bs.map fun ld => ld.withValue fun _ => 0, ?_, ?_, ?_⟩
  · exact List.rel_append (hzeros as) (.cons ⟨_, rfl⟩ (hzeros bs))
  · refine List.find?_eq_some_iff_append.mpr ⟨hrange, _, _, rfl, fun a ha => ?_⟩
    obtain ⟨ld', hld', rfl⟩ := List.mem_map.mp ha
    exact hbefore ld' hld'
  · rintro pa ⟨ld', hld', va, hread, hone⟩
    have hzero : ∀ l : List MemAccess, ld' ∈ l.map (fun ld => ld.withValue fun _ => 0) → False := by
      intro l hmem
      obtain ⟨ld'', -, rfl⟩ := List.mem_map.mp hmem
      exact absurd (MemAccess.valueAt_withValue hone) (by decide)
    rcases List.mem_append.mp hld' with hmem | hmem
    · exact (hzero as hmem).elim
    · rcases List.mem_cons.mp hmem with rfl | hmem
      · refine ⟨va, hread, ?_⟩
        have hn := MemAccess.valueAt_withValue hone
        by_contra hne
        rw [if_neg hne] at hn
        exact absurd hn (by decide)
      · exact (hzero bs hmem).elim

/-- If the copied byte was recorded whatever the values are, the load read it there. -/
theorem readsAt_of_recorded (hfirst : firstLoad loads pAddr size = some ld) {i : Nat}
    (h : ∀ loads' ld', SameLoads loads loads' → firstLoad loads' pAddr size = some ld' →
      Recorded loads' pa (ld'.copyFrom (ld'.vTranslate pAddr size).va i)) :
    ld.ReadsAt ((ld.vTranslate pAddr size).va + BitVec.ofNat 64 i) pa := by
  have hrange := (firstLoad_spec hfirst).2
  have hlo := (MemAccess.hasRange_spec hrange).2
  obtain ⟨loads', hsame, hfirst', hmarked⟩ := firstLoad_marked hfirst
    (((ld.vTranslate pAddr size).va - ld.baseVA).toNat + i)
  have hrecorded := h loads' _ hsame hfirst'
  rw [MemAccess.copyFrom, MemAccess.value_withValue (MemAccess.hasRange_iff.mp hrange).1,
    MemAccess.vTranslate_withValue, MemAccess.baseVA_withValue, if_pos rfl] at hrecorded
  obtain ⟨va, hread, hn⟩ := hmarked pa hrecorded
  have hva : va = (ld.vTranslate pAddr size).va + BitVec.ofNat 64 i := by
    have hle := hread.1.1
    have hlt := va.isLt
    rw [MemAccess.toNat_sub_baseVA hlo] at hn
    apply BitVec.eq_of_toNat_eq
    rw [BitVec.toNat_add, BitVec.toNat_ofNat]
    omega
  rwa [← hva]

/-- What is read is right whatever the values are if and only if the loads that are taken read
it. -/
theorem readLoads_iff (hsize : ∀ ld ∈ loads, ld.nBytes < 2 ^ 32) :
    (∀ loads', SameLoads loads loads' →
      ReadsRight loads' size pAddr (readLoads loads' size pAddr)) ↔
        CopiesRight loads size pAddr := by
  constructor
  · intro hall
    have hself := hall loads (.refl loads)
    have hpos : 0 < size.toNat := by
      by_contra hzero
      have hnone : firstLoad loads pAddr size = none :=
        List.find?_eq_none.mpr fun ld _ hrange =>
          hzero (MemAccess.hasRange_spec hrange).1
      have hsome := hself.complete fun i hi => absurd hi (by omega)
      rw [readLoads, readOnce_of_none hnone] at hsome
      dsimp only at hsome
      rw [if_neg (by omega)] at hsome
      cases hsome
    refine ⟨hpos, ?_⟩
    cases hfirst : firstLoad loads pAddr size with
    | some ld =>
        refine .inl ⟨ld, hfirst, fun i hi => readsAt_of_recorded hfirst ?_⟩
        intro loads' ld' hsame hfirst'
        refine (hall loads' hsame).exact _ ?_ i hi
        rw [readLoads, readOnce_of_some hfirst']
    | none =>
        refine .inr ⟨rfl, ?_⟩
        by_cases hsome : ∀ i < size.toNat, firstLoad loads (pAddr + BitVec.ofNat 64 i) 1 ≠ none
        · have hmany := one_lt_of_firstLoad hpos hfirst hsome
          refine .inl fun i hi => ?_
          obtain ⟨ld, hld⟩ := Option.ne_none_iff_exists'.mp (hsome i hi)
          refine ⟨ld, hld, fun j hj => ?_⟩
          obtain rfl : j = 0 := by
            rw [show (1 : BitVec 32).toNat = 1 from rfl] at hj
            omega
          refine readsAt_of_recorded hld fun loads' ld' hsame hld' => ?_
          rw [BitVec.add_zero]
          obtain ⟨buffer, hbuffer⟩ := Option.isSome_iff_exists.mp
            (readBytes_isSome fun i hi => mt hsame.firstLoad_none.mp (hsome i hi))
          have hread : readLoads loads' size pAddr = some buffer := by
            rw [readLoads, readOnce_of_none (hsame.firstLoad_none.mpr hfirst)]
            dsimp only
            rw [if_pos hmany, hbuffer]
          obtain ⟨b, hb, hi'⟩ := readBytes_eq_some hbuffer hi
          rw [readOnce_of_some hld'] at hb
          have hrecorded := (hall loads' hsame).exact buffer hread i hi
          rwa [hi', ← Option.some.inj hb] at hrecorded
        · push Not at hsome
          obtain ⟨i, hi, hmiss⟩ := hsome
          refine .inr ⟨⟨i, hi, hmiss⟩, ?_⟩
          by_contra hcovered
          push Not at hcovered
          obtain ⟨buffer, hbuffer⟩ := Option.isSome_iff_exists.mp (hself.complete hcovered)
          rw [readLoads, readOnce_of_none hfirst] at hbuffer
          dsimp only at hbuffer
          split at hbuffer
          · obtain ⟨b, hb, -⟩ := readBytes_eq_some hbuffer hi
            rw [readOnce_of_none hmiss] at hb
            cases hb
          · cases hbuffer
  · intro hright loads' hsame
    exact (hsame.copiesRight hright).readsRight (hsame.nBytes hsize)

/-! ### Careful reads -/

namespace MemAccess

theorem hasRange_iff_offers (hpos : 0 < size.toNat) :
    hasRange pAddr size ld = true ↔ ld.Offers pAddr size := by
  rw [hasRange_iff, vTranslate_nBytes, and_iff_right hpos, Offers]

/-- What is offered is read byte by byte at its physical address if it is given straight. -/
theorem gives_iff (hsize : ld.nBytes < 2 ^ 32) (hpos : 0 < size.toNat)
    (hoffers : ld.Offers pAddr size) :
    ld.Gives pAddr size ↔ ∀ i < size.toNat,
      ld.ReadsAt ((ld.vTranslate pAddr size).va + BitVec.ofNat 64 i)
        (pAddr + BitVec.ofNat 64 i) := by
  obtain ⟨hvalue, i, hpage, hin⟩ := hoffers
  rw [vTranslate_of_inReference hpage hin]
  dsimp only
  rw [straight_iff hsize hpos hpage hin]
  constructor
  · rintro ⟨-, j, hpage', -, hstraight⟩
    rwa [hpage.unique hpage']
  · intro hstraight
    exact ⟨hvalue, i, hpage, hin, hstraight⟩

theorem Gives.offers (h : ld.Gives pAddr size) : ld.Offers pAddr size := by
  obtain ⟨hvalue, i, hpage, hin, -⟩ := h
  exact ⟨hvalue, i, hpage, hin⟩

end MemAccess

theorem firstLoad_eq_none_iff (hpos : 0 < size.toNat) :
    firstLoad loads pAddr size = none ↔ ∀ ld ∈ loads, ¬ ld.Offers pAddr size := by
  rw [firstLoad, List.find?_eq_none]
  refine forall₂_congr fun ld _ => ?_
  rw [MemAccess.hasRange_iff_offers hpos]

/-- **The load that is taken reads the range if the first one that offers it gives it
straight.** -/
theorem firstGives_iff (hpos : 0 < size.toNat) (hsize : ∀ ld ∈ loads, ld.nBytes < 2 ^ 32) :
    FirstGives pAddr size loads ↔ TakenReads loads pAddr size := by
  induction loads with
  | nil => simp [FirstGives, TakenReads, firstLoad]
  | cons ld loads ih =>
      obtain ⟨hld, hloads⟩ := List.forall_mem_cons.mp hsize
      by_cases hoffers : ld.Offers pAddr size
      · have hfirst : firstLoad (ld :: loads) pAddr size = some ld := by
          rw [firstLoad, List.find?_cons_of_pos ((MemAccess.hasRange_iff_offers hpos).mpr hoffers)]
        unfold TakenReads
        rw [FirstGives, hfirst, MemAccess.gives_iff hld hpos hoffers]
        simp [hoffers]
      · have hrest : firstLoad (ld :: loads) pAddr size = firstLoad loads pAddr size := by
          rw [firstLoad, firstLoad,
            List.find?_cons_of_neg (mt (MemAccess.hasRange_iff_offers hpos).mp hoffers)]
        have hgives : ¬ ld.Gives pAddr size := fun h => hoffers h.offers
        unfold TakenReads at ih ⊢
        rw [FirstGives, hrest, ← ih hloads]
        simp [hoffers, hgives]

theorem missing_iff : Missing loads pa ↔ ¬ IsCovered loads pa := by
  unfold Missing IsCovered
  simp only [MemAccess.has_iff, not_exists, not_and]

/-- **A read is careful if the loads that are taken read what they should.** -/
theorem carefulCopy_iff (hsize : ∀ ld ∈ loads, ld.nBytes < 2 ^ 32) :
    CarefulCopy loads size pAddr ↔ CopiesRight loads size pAddr := by
  unfold CarefulCopy CopiesRight
  refine and_congr_right fun hpos => ?_
  have hone : 0 < (1 : BitVec 32).toNat := by decide
  simp only [firstGives_iff hpos hsize, firstGives_iff hone hsize, firstLoad_eq_none_iff hpos,
    firstLoad_eq_none_iff hone, missing_iff]

theorem readsRight_none : ReadsRight loads size pAddr none ↔
    ∃ i < size.toNat, Missing loads (pAddr + BitVec.ofNat 64 i) := by
  simp only [missing_iff]
  constructor
  · intro h
    by_contra hall
    push Not at hall
    exact absurd (h.complete hall) (by decide)
  · rintro ⟨i, hi, huncovered⟩
    constructor
    · intro buffer hbuffer
      cases hbuffer
    · intro hcovered
      exact absurd (hcovered i hi) huncovered

/-- An instruction with the given loads in place of its own. -/
def LiveInstr.withLoads (instrHandle : LiveInstr InstInfo RepMemRegions)
    (loads : List MemAccess) : LiveInstr InstInfo RepMemRegions :=
  { instrHandle with repMemRegions := some ⟨loads.length, 0, loads, []⟩ }

/-- **What an instruction reads is right whatever the values of its loads are if and only if
the read is careful.** -/
theorem readMemory_iff (traceId : TraceId) (instrHandle : LiveInstr InstInfo RepMemRegions)
    (size : BitVec 32) (pAddr : BitVec 64)
    (hsize : ∀ ld ∈ instrHandle.getLoads, ld.nBytes < 2 ^ 32) :
    (∀ instrHandle' : LiveInstr InstInfo RepMemRegions,
      SameLoads instrHandle.getLoads instrHandle'.getLoads →
        ReadsRight instrHandle'.getLoads size pAddr
          (readMemory traceId instrHandle' size pAddr)) ↔
      CarefulRead traceId instrHandle.getLoads size pAddr := by
  unfold readMemory CarefulRead
  by_cases hpath : traceId = .wrongPath ∨ traceId = .artificialInst
  · simp only [if_pos hpath]
    constructor
    · intro hall
      exact readsRight_none.mp (hall instrHandle (.refl _))
    · rintro ⟨i, hi, hmissing⟩ instrHandle' hsame
      refine readsRight_none.mpr ⟨i, hi, missing_iff.mpr ?_⟩
      exact mt hsame.isCovered.mp (missing_iff.mp hmissing)
  · simp only [if_neg hpath]
    rw [carefulCopy_iff hsize, ← readLoads_iff hsize]
    constructor
    · intro hall loads' hsame
      exact hall (instrHandle.withLoads loads') hsame
    · intro hall instrHandle' hsame
      exact hall instrHandle'.getLoads hsame

/-! ### A load that straddles two pages -/

/-- A reference of 32 bytes on two pages, and its value. -/
def straddlingLoad (secondPage : BitVec 64) (h : secondPage &&& pageMask = secondPage) :
    MemAccess :=
  { MemAccess.straddling secondPage h with
    valueStorage := some ⟨32, UInt8.ofNat⟩
    valueSet := true
    stored := fun _ => rfl }

def straddlingInstr (loads : List MemAccess) : LiveInstr InstInfo RepMemRegions where
  softsdvInstr :=
    { regsUid := 0
      instrTag := none
      data := { addrVirtual := 0, warmUp := false, loads, stores := [] } }
  uid := 0
  implicitCommit := false
  artificialInstr := false
  inputRegValues := none
  repMemRegions := none
  prev := none
  next := none

/-- The second page is the one behind the first, and a load before has no value. -/
theorem readMemory_iff_neighbours :
    let instrHandle := straddlingInstr [MemAccess.straddling 0x7000 rfl, straddlingLoad 0x6000 rfl]
    ReadsRight instrHandle.getLoads 32 0x5ff0
      (readMemory .fromSoftSDV instrHandle 32 0x5ff0) := by
  have hgives : (straddlingLoad 0x6000 rfl).Gives 0x5ff0 32 :=
    ⟨rfl, 0, ⟨by decide, rfl, fun j hj => absurd hj (by omega)⟩, ⟨by decide, by decide, by decide⟩,
      by decide, by decide, .inr ⟨rfl, rfl, rfl, by decide⟩⟩
  have hnone : ¬ (MemAccess.straddling 0x7000 rfl).Offers 0x5ff0 32 :=
    fun hoffers => Bool.noConfusion hoffers.1
  refine (readMemory_iff .fromSoftSDV (straddlingInstr [MemAccess.straddling 0x7000 rfl,
    straddlingLoad 0x6000 rfl]) 32 0x5ff0 ?_).mpr
    ⟨by decide, .inl (.inr ⟨hnone, .inl hgives⟩)⟩ _ (.refl _)
  intro ld hld
  obtain rfl | rfl : ld = _ ∨ ld = _ := by simpa using List.mem_pair.mp hld
  · show 32 < 2 ^ 32
    decide
  · show 32 < 2 ^ 32
    decide

/-- **The bytes behind the end of the page are those of the next virtual page.** -/
theorem not_always_readsRight :
    ¬ ∀ (traceId : TraceId) (instrHandle : LiveInstr InstInfo RepMemRegions) (size : BitVec 32)
      (pAddr : BitVec 64), (∀ ld ∈ instrHandle.getLoads, ld.nBytes < 2 ^ 32) →
        ReadsRight instrHandle.getLoads size pAddr
          (readMemory traceId instrHandle size pAddr) := by
  intro hall
  have hright := hall .fromSoftSDV (straddlingInstr [straddlingLoad 0x7000 rfl]) 17 0x5ff0 ?_
  · obtain ⟨ld, hld, va, hread, -⟩ := hright.exact _ rfl 16 (by decide)
    obtain rfl := List.mem_singleton.mp hld
    -- no page of the load is the one at 0x6000
    have hpage := page_add_offset ((straddlingLoad 0x7000 rfl).pageOf_and_pageMask va) va
    rw [hread.2.2, MemAccess.pageOf] at hpage
    split at hpage
    · exact absurd hpage (by decide)
    · exact absurd hpage (by decide)
  · intro ld hld
    obtain rfl := List.mem_singleton.mp hld
    show 32 < 2 ^ 32
    decide

end AsimFeeder.SoftSDV
