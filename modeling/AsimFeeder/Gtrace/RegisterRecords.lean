/-
The register records of a GTrace (`Read_Single_Register`, `ir_action` and `or_action`,
`ia64ciardi.cpp`).

An `ir` line lists the registers that a syllable reads and an `or` line those it writes; two
counters say which syllable the next line of either kind belongs to.  `ir_action` puts what it
read into the output registers, and a register number is accumulated with an or where an
addition is meant.  So a bundle is right only where its `ir` lines say what the cleared
registers say, and where no digit of a number has a bit in common with what stands before it.

The cursor is what is left of the line, which ends where the list does.  `fgets` brings a line
that is shorter than the buffer, so the tests against its end are left out.  The registers
themselves and how many an instruction has are outside the repository.
-/
import Mathlib

namespace AsimFeeder.Gtrace

/-- `REG_TYPE_*`, as far as the records have them. -/
inductive RegisterType
  | int
  | fp82
  | predicate
  | br
  | invalid
deriving DecidableEq

structure ArchRegister where
  type : RegisterType
  number : Nat
  value0 : BitVec 64
  value1 : BitVec 64
deriving DecidableEq

/-- How many registers a syllable has (sources with predicates, and destinations), what
`ARCH_REGISTER_CLASS()` is, and what is left of a register when its bytes are set to 0. -/
structure RegisterParams where
  nSrc : Nat
  nDst : Nat
  invalid : ArchRegister
  cleared : ArchRegister

def numSyllables : Nat := 3

structure Syllable where
  inputRegisters : List ArchRegister
  outputRegisters : List ArchRegister

/-- The bundle at the end of the window, with the counters for its `ir` and `or` records. -/
structure RegisterBundle where
  syllable : Nat → Syllable
  inputRegisterSyllable : Nat
  outputRegisterSyllable : Nat

/-! ### The scanner -/

/-- The character is between the two. -/
def isBetween (lo hi c : Char) : Bool := lo.toNat ≤ c.toNat ∧ c.toNat ≤ hi.toNat

def decDigit (c : Char) : Option Nat :=
  if isBetween '0' '9' c then some (c.toNat - '0'.toNat) else none

def hexDigit (c : Char) : Option Nat :=
  if isBetween '0' '9' c then some (c.toNat - '0'.toNat)
  else if isBetween 'A' 'F' c then some (c.toNat - 'A'.toNat + 10)
  else if isBetween 'a' 'f' c then some (c.toNat - 'a'.toNat + 10)
  else none

/-- An unknown type is reported and the register is read all the same. -/
def registerType (c : Char) : RegisterType :=
  if c = 'f' then .fp82
  else if c = 'p' then .predicate
  else if c = 'b' then .br
  else if c = 'r' then .int
  else .invalid

/-- The register number, which should be in decimal. -/
def readNumber : List Char → Nat → Except String (Nat × List Char)
  | [], _ => .error "buffer[buf_pos] >= '0' && buffer[buf_pos] <= '9'"
  | c :: rest, regNumber =>
      if c = ' ' then .ok (regNumber, c :: rest)
      else
        match decDigit c with
        | some d => readNumber rest (regNumber * 10 ||| d)
        | none => .error "buffer[buf_pos] >= '0' && buffer[buf_pos] <= '9'"

/-- The register value, and how many bits of it were read. -/
structure ScannedValue where
  value0 : BitVec 64
  value1 : BitVec 64
  regBits : Nat

def ScannedValue.push (v : ScannedValue) (d : Nat) : ScannedValue where
  value0 := v.value0 <<< 4 ||| BitVec.ofNat 64 d
  value1 := if 63 < v.regBits then v.value1 <<< 4 ||| v.value0 >>> 60 else v.value1
  regBits := v.regBits + 4

def readValue : List Char → ScannedValue → Except String (ScannedValue × List Char)
  | [], v => .ok (v, [])
  | c :: rest, v =>
      if c = ' ' ∨ c = '\n' then .ok (v, c :: rest)
      else
        match hexDigit c with
        | some d => readValue rest (v.push d)
        | none => .error "not a hex digit"

/-- `<regtype><regnum> <regvalue>`. -/
def readSingleRegister : List Char → Except String (ArchRegister × List Char)
  | [] => .error "read behind the end of the line"
  | c :: buffer => do
      let (regNumber, buffer) ← readNumber buffer 0
      if regNumber < 128 then
        match buffer.drop 1 with
        | [] => .error "at least one digit"
        | first :: buffer =>
            -- make sure there is at least one digit
            if (hexDigit first).isSome then do
              let (value, buffer) ← readValue (first :: buffer) ⟨0, 0, 0⟩
              .ok (⟨registerType c, regNumber, value.value0, value.value1⟩, buffer)
            else .error "at least one digit"
      else .error "reg_number < 128"

/-- As many registers as there is room for, until the end of the line. -/
def readRegisters : Nat → List Char → Except String (List ArchRegister)
  | 0, _ => .ok []
  | _ + 1, [] => .ok []
  | n + 1, c :: buffer =>
      if c = '\n' then .ok []
      else do
        let (reg, buffer) ← readSingleRegister buffer
        let regs ← readRegisters n buffer
        .ok (reg :: regs)

/-- The array `regs`: those that were read, and invalid ones. -/
def fill (n : Nat) (invalid : ArchRegister) (regs : List ArchRegister) : List ArchRegister :=
  regs ++ List.replicate (n - regs.length) invalid

/-! ### The records -/

section Actions

variable (p : RegisterParams)

/-- `Clear` sets every byte to 0. -/
def clearedSyllable : Syllable :=
  ⟨List.replicate p.nSrc p.cleared, List.replicate p.nDst p.cleared⟩

def bbAction (sNum : Nat) : RegisterBundle where
  syllable := fun _ => clearedSyllable p
  inputRegisterSyllable := sNum
  outputRegisterSyllable := sNum

/-- Both actions write output registers. -/
def writeOutput (b : RegisterBundle) (sNum : Nat) (regs : List ArchRegister) :
    Except String (Nat → Syllable) :=
  if sNum < numSyllables then
    let syl := b.syllable sNum
    if regs.length ≤ syl.outputRegisters.length then
      .ok (Function.update b.syllable sNum
        { syl with outputRegisters := regs ++ syl.outputRegisters.drop regs.length })
    else .error "write outside output_registers"
  else .error "write outside the bundle"

def irAction (b : RegisterBundle) (buffer : List Char) : Except String RegisterBundle := do
  let regs ← readRegisters p.nSrc (buffer.drop 2)
  let syllable ← writeOutput b b.inputRegisterSyllable (fill p.nSrc p.invalid regs)
  .ok { b with
    syllable := syllable
    inputRegisterSyllable := b.inputRegisterSyllable + 1 }

def orAction (b : RegisterBundle) (buffer : List Char) : Except String RegisterBundle := do
  let regs ← readRegisters p.nDst (buffer.drop 2)
  let syllable ← writeOutput b b.outputRegisterSyllable (fill p.nDst p.invalid regs)
  .ok { b with
    syllable := syllable
    outputRegisterSyllable := b.outputRegisterSyllable + 1 }

/-- The first two characters choose the action. -/
def action (b : RegisterBundle) (buffer : List Char) : Except String RegisterBundle :=
  if buffer.take 2 = ['i', 'r'] then irAction p b buffer
  else if buffer.take 2 = ['o', 'r'] then orAction p b buffer
  else .ok b

/-- A bundle whose first executed syllable is `sNum`, and the lines behind it. -/
def processLines (sNum : Nat) (buffers : List (List Char)) : Except String RegisterBundle :=
  buffers.foldlM (action p) (bbAction p sNum)

end Actions

/-! ### What the lines say -/

def decimal (n : Nat) (number : List Char) : Nat :=
  number.foldl (fun n c => n * 10 + (decDigit c).getD 0) n

def hexadecimal (n : Nat) (value : List Char) : Nat :=
  value.foldl (fun n c => n * 16 + (hexDigit c).getD 0) n

/-- `<type><decimal number> <hex value>`. -/
structure Entry where
  type : Char
  number : List Char
  value : List Char
  known : registerType type ≠ .invalid
  digits : (number.all fun c => (decDigit c).isSome) = true
  small : decimal 0 number < 128
  hexDigits : (value.all fun c => (hexDigit c).isSome) = true
  nonempty : value ≠ []
  fits : hexadecimal 0 value < 2 ^ 128

def Entry.text (e : Entry) : List Char := e.type :: (e.number ++ ' ' :: e.value)

def Entry.register (e : Entry) : ArchRegister where
  type := registerType e.type
  number := decimal 0 e.number
  value0 := BitVec.ofNat 64 (hexadecimal 0 e.value)
  value1 := BitVec.ofNat 64 (hexadecimal 0 e.value / 2 ^ 64)

inductive RegisterLine
  | ir (entries : List Entry)
  | or (entries : List Entry)

namespace RegisterLine

def entriesText (entries : List Entry) : List Char :=
  entries.flatMap fun e => ' ' :: e.text

def text : RegisterLine → List Char
  | ir entries => 'i' :: 'r' :: entriesText entries
  | or entries => 'o' :: 'r' :: entriesText entries

/-- The last line of a file may have no newline. -/
def InBuffer (l : RegisterLine) (buffer : List Char) : Prop :=
  buffer = l.text ++ ['\n'] ∨ buffer = l.text

end RegisterLine

def irLines (lines : List RegisterLine) : List (List Entry) :=
  lines.filterMap fun l => match l with
    | .ir entries => some entries
    | .or _ => none

def orLines (lines : List RegisterLine) : List (List Entry) :=
  lines.filterMap fun l => match l with
    | .ir _ => none
    | .or entries => some entries

/-- From the two counters on there are no more lines than syllables, nor more entries in a line
than registers. -/
structure WellFormed (p : RegisterParams) (inputSyllable outputSyllable : Nat)
    (lines : List RegisterLine) : Prop where
  irFits : inputSyllable + (irLines lines).length ≤ numSyllables
  orFits : outputSyllable + (orLines lines).length ≤ numSyllables
  irRegs : ∀ entries ∈ irLines lines, entries.length ≤ p.nSrc
  orRegs : ∀ entries ∈ orLines lines, entries.length ≤ p.nDst

/-- The registers of each executed syllable are those of its lines. -/
structure Faithful (p : RegisterParams) (sNum : Nat) (lines : List RegisterLine)
    (b : RegisterBundle) : Prop where
  inputs : ∀ k entries, (irLines lines)[k]? = some entries →
    (b.syllable (sNum + k)).inputRegisters = fill p.nSrc p.invalid (entries.map Entry.register)
  outputs : ∀ k entries, (orLines lines)[k]? = some entries →
    (b.syllable (sNum + k)).outputRegisters = fill p.nDst p.invalid (entries.map Entry.register)

/-! ### Where they are kept -/

/-- No digit has a bit in common with ten times the number before it. -/
def CarryFree : Nat → List Char → Prop
  | _, [] => True
  | n, c :: number =>
      (n * 10) &&& (decDigit c).getD 0 = 0 ∧ CarryFree (n * 10 + (decDigit c).getD 0) number

def accumulate (n : Nat) (number : List Char) : Nat :=
  number.foldl (fun n c => n * 10 ||| (decDigit c).getD 0) n

/-- The register as it is scanned. -/
def Entry.scanned (e : Entry) : ArchRegister :=
  { e.register with number := accumulate 0 e.number }

/-- The lines of the syllable `k`, where `a` and `c` lines of the two kinds came before. -/
def syllableLines (k : Nat) : Nat → Nat → List RegisterLine → List RegisterLine
  | _, _, [] => []
  | a, c, .ir entries :: rest =>
      if a = k then .ir entries :: syllableLines k (a + 1) c rest
      else syllableLines k (a + 1) c rest
  | a, c, .or entries :: rest =>
      if c = k then .or entries :: syllableLines k a (c + 1) rest
      else syllableLines k a (c + 1) rest

/-- The numbers of an `or` line are read right, or an `ir` line that comes later writes what
the `or` line says. -/
def KeepsOutputs (p : RegisterParams) : List RegisterLine → Prop
  | [.or outs] | [.ir _, .or outs] => ∀ e ∈ outs, CarryFree 0 e.number
  | [.or outs, .ir ins] =>
      fill p.nSrc p.invalid (ins.map Entry.scanned) ++
        (fill p.nDst p.invalid (outs.map Entry.scanned)).drop p.nSrc
          = fill p.nDst p.invalid (outs.map Entry.register)
  | _ => True

structure KeepsRegisters (p : RegisterParams) (lines : List RegisterLine) : Prop where
  cleared : ∀ entries ∈ irLines lines,
    fill p.nSrc p.invalid (entries.map Entry.register) = List.replicate p.nSrc p.cleared
  room : irLines lines ≠ [] → p.nSrc ≤ p.nDst
  outputs : ∀ k, KeepsOutputs p (syllableLines k 0 0 lines)

/-! ### Numbers -/

theorem or_add_and (a b : Nat) : (a ||| b) + (a &&& b) = a + b := by
  induction a using Nat.strong_induction_on generalizing b with
  | _ a ih =>
      by_cases ha : a = 0
      · subst ha
        simp
      · have hhalf := ih (a / 2) (by omega) (b / 2)
        rw [← Nat.or_div_two, ← Nat.and_div_two] at hhalf
        have hor := Nat.or_mod_two_eq_one (a := a) (b := b)
        have hand := Nat.and_mod_two_eq_one (a := a) (b := b)
        omega

theorem accumulate_cons (n : Nat) (c : Char) (number : List Char) :
    accumulate n (c :: number) = accumulate (n * 10 ||| (decDigit c).getD 0) number := rfl

theorem decimal_cons (n : Nat) (c : Char) (number : List Char) :
    decimal n (c :: number) = decimal (n * 10 + (decDigit c).getD 0) number := rfl

/-- A number that has lost a carry stays below. -/
theorem accumulate_lt {n m : Nat} (h : n < m) (number : List Char) :
    accumulate n number < decimal m number := by
  induction number generalizing n m with
  | nil => exact h
  | cons c number ih =>
      have hor := or_add_and (n * 10) ((decDigit c).getD 0)
      rw [accumulate_cons, decimal_cons]
      exact ih (by omega)

theorem accumulate_le (n : Nat) (number : List Char) :
    accumulate n number ≤ decimal n number := by
  induction number generalizing n with
  | nil => exact le_refl n
  | cons c number ih =>
      have hor := or_add_and (n * 10) ((decDigit c).getD 0)
      by_cases hcarry : (n * 10) &&& (decDigit c).getD 0 = 0
      · have heq : n * 10 ||| (decDigit c).getD 0 = n * 10 + (decDigit c).getD 0 := by omega
        rw [accumulate_cons, decimal_cons, heq]
        exact ih _
      · rw [accumulate_cons, decimal_cons]
        exact Nat.le_of_lt (accumulate_lt (by omega) number)

/-- **A number is read right if and only if no carry is lost.** -/
theorem accumulate_eq_iff (n : Nat) (number : List Char) :
    accumulate n number = decimal n number ↔ CarryFree n number := by
  induction number generalizing n with
  | nil => exact ⟨fun _ => trivial, fun _ => rfl⟩
  | cons c number ih =>
      have hor := or_add_and (n * 10) ((decDigit c).getD 0)
      by_cases hcarry : (n * 10) &&& (decDigit c).getD 0 = 0
      · have heq : n * 10 ||| (decDigit c).getD 0 = n * 10 + (decDigit c).getD 0 := by omega
        rw [accumulate_cons, decimal_cons, heq]
        exact (ih _).trans ⟨fun h => ⟨hcarry, h⟩, And.right⟩
      · have hlt : accumulate n (c :: number) < decimal n (c :: number) := by
          rw [accumulate_cons, decimal_cons]
          exact accumulate_lt (by omega) number
        exact ⟨fun h => absurd h (Nat.ne_of_lt hlt), fun h => absurd h.1 hcarry⟩

theorem readNumber_eq {number : List Char} (h : ∀ c ∈ number, (decDigit c).isSome) (n : Nat)
    (rest : List Char) :
    readNumber (number ++ ' ' :: rest) n = .ok (accumulate n number, ' ' :: rest) := by
  induction number generalizing n with
  | nil => rfl
  | cons c number ih =>
      obtain ⟨hc, htail⟩ := List.forall_mem_cons.mp h
      obtain ⟨d, hd⟩ := Option.isSome_iff_exists.mp hc
      have hblank : c ≠ ' ' := by
        rintro rfl
        cases hd
      rw [List.cons_append, readNumber, if_neg hblank, hd]
      show readNumber (number ++ ' ' :: rest) (n * 10 ||| d) = _
      rw [ih htail, accumulate_cons, hd]
      rfl

/-! ### Values -/

theorem isBetween_iff {lo hi c : Char} :
    isBetween lo hi c = true ↔ lo.toNat ≤ c.toNat ∧ c.toNat ≤ hi.toNat := decide_eq_true_iff

theorem hexDigit_lt {c : Char} {d : Nat} (h : hexDigit c = some d) : d < 16 := by
  unfold hexDigit at h
  simp only [isBetween_iff] at h
  have hnine : '9'.toNat = '0'.toNat + 9 := rfl
  have hF : 'F'.toNat = 'A'.toNat + 5 := rfl
  have hf : 'f'.toNat = 'a'.toNat + 5 := rfl
  split at h
  · obtain rfl := Option.some.inj h
    omega
  · split at h
    · obtain rfl := Option.some.inj h
      omega
    · split at h
      · obtain rfl := Option.some.inj h
        omega
      · cases h

/-- What was scanned so far, in two words; the second stays 0 while one is enough. -/
structure ScannedValue.Holds (v : ScannedValue) (n : Nat) : Prop where
  value : v.value1.toNat * 2 ^ 64 + v.value0.toNat = n % 2 ^ 128
  bits : v.regBits % 4 = 0
  short : v.regBits ≤ 63 → n < 2 ^ v.regBits

theorem toNat_shift_or (v : BitVec 64) {d : Nat} (hd : d < 16) :
    (v <<< 4 ||| BitVec.ofNat 64 d).toNat = v.toNat * 16 % 2 ^ 64 + d := by
  have hshift : v.toNat <<< 4 % 2 ^ 64 = 2 ^ 4 * (v.toNat % 2 ^ 60) := by
    rw [Nat.shiftLeft_eq]
    omega
  have hdigit : d % 2 ^ 64 = d := by omega
  rw [BitVec.toNat_or, BitVec.toNat_shiftLeft, BitVec.toNat_ofNat, hdigit, hshift,
    ← Nat.two_pow_add_eq_or_of_lt hd]
  omega

theorem two_words_lt {x y W : Nat} (hx : x < W) (hy : y < W) : x * W + y < W * W :=
  calc x * W + y < x * W + W := Nat.add_lt_add_left hy _
    _ = (x + 1) * W := (Nat.succ_mul x W).symm
    _ ≤ W * W := Nat.mul_le_mul_right W hx

/-- The high word takes in the digit that falls out of the low one. -/
theorem push_words {a b n d : Nat} (h : a * 2 ^ 64 + b = n % 2 ^ 128) (hb : b < 2 ^ 64)
    (hd : d < 16) :
    (a * 16 % 2 ^ 64 + b / 2 ^ 60) * 2 ^ 64 + (b * 16 % 2 ^ 64 + d) = (n * 16 + d) % 2 ^ 128 := by
  have hmod : (n * 16 + d) % 2 ^ 128 = (n % 2 ^ 128 * 16 + d) % 2 ^ 128 := by
    simp only [Nat.add_mod, Nat.mul_mod, Nat.mod_mod]
  have hhigh : a * 16 = 2 ^ 64 * (a / 2 ^ 60) + a * 16 % 2 ^ 64 := by omega
  have hlow : b * 16 = 2 ^ 64 * (b / 2 ^ 60) + b * 16 % 2 ^ 64 := by omega
  have hx : a * 16 % 2 ^ 64 + b / 2 ^ 60 < 2 ^ 64 := by omega
  have hy : b * 16 % 2 ^ 64 + d < 2 ^ 64 := by omega
  have hsum : (a * 2 ^ 64 + b) * 16 + d = 2 ^ 128 * (a / 2 ^ 60) +
      ((a * 16 % 2 ^ 64 + b / 2 ^ 60) * 2 ^ 64 + (b * 16 % 2 ^ 64 + d)) :=
    calc (a * 2 ^ 64 + b) * 16 + d = a * 16 * 2 ^ 64 + b * 16 + d := by ring
      _ = (2 ^ 64 * (a / 2 ^ 60) + a * 16 % 2 ^ 64) * 2 ^ 64 +
          (2 ^ 64 * (b / 2 ^ 60) + b * 16 % 2 ^ 64) + d := by rw [← hhigh, ← hlow]
      _ = _ := by ring
  have hlt : (a * 16 % 2 ^ 64 + b / 2 ^ 60) * 2 ^ 64 + (b * 16 % 2 ^ 64 + d) < 2 ^ 128 :=
    two_words_lt hx hy
  rw [hmod, ← h, hsum, Nat.mul_add_mod, Nat.mod_eq_of_lt hlt]

theorem ScannedValue.Holds.push {v : ScannedValue} {n d : Nat} (h : v.Holds n) (hd : d < 16) :
    (v.push d).Holds (n * 16 + d) := by
  have hvalue := h.value
  have hbits := h.bits
  have h0 := v.value0.isLt
  have h1 := v.value1.isLt
  have hlow := toNat_shift_or v.value0 hd
  by_cases hwide : 63 < v.regBits
  · -- the digit that the first word has no room for goes to the second
    have htop : v.value0 >>> 60 = BitVec.ofNat 64 (v.value0.toNat / 2 ^ 60) := by
      apply BitVec.eq_of_toNat_eq
      rw [BitVec.toNat_ushiftRight, Nat.shiftRight_eq_div_pow, BitVec.toNat_ofNat]
      omega
    have hhigh : (v.value1 <<< 4 ||| v.value0 >>> 60).toNat
        = v.value1.toNat * 16 % 2 ^ 64 + v.value0.toNat / 2 ^ 60 := by
      rw [htop]
      exact toNat_shift_or v.value1 (by omega)
    constructor
    · show (if 63 < v.regBits then _ else v.value1).toNat * 2 ^ 64
        + (v.value0 <<< 4 ||| BitVec.ofNat 64 d).toNat = _
      rw [if_pos hwide, hlow, hhigh]
      exact push_words hvalue h0 hd
    · show (v.regBits + 4) % 4 = 0
      omega
    · intro hle
      have hlong : (v.push d).regBits = v.regBits + 4 := rfl
      omega
  · have hshort := h.short (by omega)
    have hroom : n * 16 + d < 2 ^ (v.regBits + 4) := by
      rw [Nat.pow_add]
      omega
    have hpow : 2 ^ v.regBits ≤ 2 ^ 60 := Nat.pow_le_pow_right (by decide) (by omega)
    constructor
    · show (if 63 < v.regBits then _ else v.value1).toNat * 2 ^ 64
        + (v.value0 <<< 4 ||| BitVec.ofNat 64 d).toNat = _
      rw [if_neg hwide, hlow]
      omega
    · show (v.regBits + 4) % 4 = 0
      omega
    · exact fun _ => hroom

theorem hexadecimal_cons (n : Nat) (c : Char) (value : List Char) :
    hexadecimal n (c :: value) = hexadecimal (n * 16 + (hexDigit c).getD 0) value := rfl

/-- The rest of a line behind an entry: another entry, or the end. -/
def Ends (rest : List Char) : Prop :=
  rest = [] ∨ (∃ tail, rest = ' ' :: tail) ∨ ∃ tail, rest = '\n' :: tail

theorem readValue_ends {rest : List Char} (h : Ends rest) (v : ScannedValue) :
    readValue rest v = .ok (v, rest) := by
  obtain rfl | ⟨tail, rfl⟩ | ⟨tail, rfl⟩ := h
  · rfl
  · rfl
  · rfl

theorem readValue_eq {value : List Char} (h : ∀ c ∈ value, (hexDigit c).isSome)
    {v : ScannedValue} {n : Nat} (hv : v.Holds n) {rest : List Char} (hrest : Ends rest) :
    ∃ v' : ScannedValue, readValue (value ++ rest) v = .ok (v', rest) ∧
      v'.Holds (hexadecimal n value) := by
  induction value generalizing n v with
  | nil => exact ⟨v, readValue_ends hrest v, hv⟩
  | cons c value ih =>
      obtain ⟨hc, htail⟩ := List.forall_mem_cons.mp h
      obtain ⟨d, hd⟩ := Option.isSome_iff_exists.mp hc
      have hend : ¬ (c = ' ' ∨ c = '\n') := by
        rintro (rfl | rfl) <;> cases hd
      obtain ⟨v', hread, hholds⟩ := ih htail (hv.push (hexDigit_lt hd))
      refine ⟨v', ?_, ?_⟩
      · rw [List.cons_append, readValue, if_neg hend, hd]
        exact hread
      · rw [hexadecimal_cons, hd]
        exact hholds

/-- Two words that hold a number of 128 bits are its halves. -/
theorem ScannedValue.Holds.words {v : ScannedValue} {n : Nat} (h : v.Holds n) (hn : n < 2 ^ 128) :
    v.value0 = BitVec.ofNat 64 n ∧ v.value1 = BitVec.ofNat 64 (n / 2 ^ 64) := by
  have hvalue := h.value
  have h0 := v.value0.isLt
  have h1 := v.value1.isLt
  constructor
  · apply BitVec.eq_of_toNat_eq
    rw [BitVec.toNat_ofNat]
    omega
  · apply BitVec.eq_of_toNat_eq
    rw [BitVec.toNat_ofNat]
    omega

/-! ### Entries and lines -/

theorem readSingleRegister_eq (e : Entry) {rest : List Char} (hrest : Ends rest) :
    readSingleRegister (e.text ++ rest) = .ok (e.scanned, rest) := by
  have hsmall : accumulate 0 e.number < 128 :=
    Nat.lt_of_le_of_lt (accumulate_le 0 e.number) e.small
  obtain ⟨first, value, hvalue⟩ := List.exists_cons_of_ne_nil e.nonempty
  have hhex : ∀ c ∈ e.value, (hexDigit c).isSome := List.all_eq_true.mp e.hexDigits
  have hfirst : (hexDigit first).isSome := hhex first (by rw [hvalue]; simp)
  have hzero : ScannedValue.Holds ⟨0, 0, 0⟩ 0 := ⟨rfl, rfl, fun _ => Nat.one_pos⟩
  obtain ⟨v, hread, hholds⟩ := readValue_eq hhex hzero hrest
  obtain ⟨hlow, hhigh⟩ := hholds.words e.fits
  have htext : e.text ++ rest = e.type :: (e.number ++ ' ' :: (e.value ++ rest)) := by
    simp [Entry.text]
  rw [hvalue, List.cons_append] at hread
  rw [htext, readSingleRegister, readNumber_eq (List.all_eq_true.mp e.digits)]
  dsimp only [bind, Except.bind]
  rw [if_pos hsmall, List.drop_succ_cons, List.drop_zero, hvalue, List.cons_append]
  dsimp only
  rw [if_pos hfirst, hread]
  dsimp only
  rw [hlow, hhigh]
  rfl

theorem entriesText_cons (e : Entry) (entries : List Entry) :
    RegisterLine.entriesText (e :: entries) = ' ' :: (e.text ++ RegisterLine.entriesText entries) :=
  rfl

theorem ends_entriesText (entries : List Entry) {rest : List Char}
    (hrest : rest = ['\n'] ∨ rest = []) : Ends (RegisterLine.entriesText entries ++ rest) := by
  cases entries with
  | nil =>
      rcases hrest with rfl | rfl
      · exact .inr (.inr ⟨[], rfl⟩)
      · exact .inl rfl
  | cons e entries => exact .inr (.inl ⟨_, rfl⟩)

/-- **A line is read entry by entry.** -/
theorem readRegisters_eq {n : Nat} {entries : List Entry} (hlen : entries.length ≤ n)
    {rest : List Char} (hrest : rest = ['\n'] ∨ rest = []) :
    readRegisters n (RegisterLine.entriesText entries ++ rest)
      = .ok (entries.map Entry.scanned) := by
  induction entries generalizing n with
  | nil =>
      cases n with
      | zero => rfl
      | succ n => rcases hrest with rfl | rfl <;> rfl
  | cons e entries ih =>
      cases n with
      | zero => exact absurd hlen (Nat.not_succ_le_zero _)
      | succ n =>
          have hblank : ¬ (' ' = '\n') := by decide
          have hends := ends_entriesText entries hrest
          rw [entriesText_cons, List.cons_append, readRegisters, if_neg hblank, List.append_assoc,
            readSingleRegister_eq e hends]
          dsimp only [bind, Except.bind]
          rw [ih (Nat.le_of_succ_le_succ hlen)]
          rfl

/-! ### What the lines do to a syllable -/

def Syllable.applyLine (p : RegisterParams) (syl : Syllable) : RegisterLine → Syllable
  | .ir entries =>
      { syl with
        outputRegisters := fill p.nSrc p.invalid (entries.map Entry.scanned) ++
          syl.outputRegisters.drop p.nSrc }
  | .or entries =>
      { syl with
        outputRegisters := fill p.nDst p.invalid (entries.map Entry.scanned) ++
          syl.outputRegisters.drop p.nDst }

variable {p : RegisterParams} {b : RegisterBundle} {entries ins outs : List Entry}
  {buffer : List Char} {lines : List RegisterLine} {buffers : List (List Char)} {sNum : Nat}

theorem length_fill {n : Nat} {invalid : ArchRegister} {regs : List ArchRegister}
    (h : regs.length ≤ n) : (fill n invalid regs).length = n := by
  rw [fill, List.length_append, List.length_replicate]
  omega

theorem length_fill_scanned {n : Nat} {invalid : ArchRegister} (h : entries.length ≤ n) :
    (fill n invalid (entries.map Entry.scanned)).length = n :=
  length_fill (by rwa [List.length_map])

theorem RegisterLine.InBuffer.ending {l : RegisterLine} (h : l.InBuffer buffer) :
    ∃ rest, buffer = l.text ++ rest ∧ (rest = ['\n'] ∨ rest = []) := by
  rcases h with rfl | rfl
  · exact ⟨['\n'], rfl, .inl rfl⟩
  · exact ⟨[], (List.append_nil _).symm, .inr rfl⟩

theorem writeOutput_fill {n : Nat} (hlen : entries.length ≤ n) (hsyl : sNum < numSyllables)
    (hroom : n ≤ (b.syllable sNum).outputRegisters.length) :
    writeOutput b sNum (fill n p.invalid (entries.map Entry.scanned))
      = .ok (Function.update b.syllable sNum { b.syllable sNum with
          outputRegisters := fill n p.invalid (entries.map Entry.scanned) ++
            (b.syllable sNum).outputRegisters.drop n }) := by
  unfold writeOutput
  dsimp only
  rw [if_pos hsyl, length_fill_scanned hlen, if_pos hroom]

/-- What `ir_action` does where there is room. -/
theorem action_ir (hbuffer : (RegisterLine.ir entries).InBuffer buffer)
    (hlen : entries.length ≤ p.nSrc) (hsyl : b.inputRegisterSyllable < numSyllables)
    (hroom : p.nSrc ≤ (b.syllable b.inputRegisterSyllable).outputRegisters.length) :
    action p b buffer = .ok { b with
      syllable := Function.update b.syllable b.inputRegisterSyllable
        ((b.syllable b.inputRegisterSyllable).applyLine p (.ir entries))
      inputRegisterSyllable := b.inputRegisterSyllable + 1 } := by
  obtain ⟨rest, rfl, hrest⟩ := hbuffer.ending
  show irAction p b ('i' :: 'r' :: (RegisterLine.entriesText entries ++ rest)) = _
  rw [irAction, List.drop_succ_cons, List.drop_succ_cons, List.drop_zero,
    readRegisters_eq hlen hrest]
  dsimp only [bind, Except.bind]
  rw [writeOutput_fill hlen hsyl hroom]
  rfl

theorem action_or (hbuffer : (RegisterLine.or entries).InBuffer buffer)
    (hlen : entries.length ≤ p.nDst) (hsyl : b.outputRegisterSyllable < numSyllables)
    (hroom : p.nDst ≤ (b.syllable b.outputRegisterSyllable).outputRegisters.length) :
    action p b buffer = .ok { b with
      syllable := Function.update b.syllable b.outputRegisterSyllable
        ((b.syllable b.outputRegisterSyllable).applyLine p (.or entries))
      outputRegisterSyllable := b.outputRegisterSyllable + 1 } := by
  obtain ⟨rest, rfl, hrest⟩ := hbuffer.ending
  show orAction p b ('o' :: 'r' :: (RegisterLine.entriesText entries ++ rest)) = _
  rw [orAction, List.drop_succ_cons, List.drop_succ_cons, List.drop_zero,
    readRegisters_eq hlen hrest]
  dsimp only [bind, Except.bind]
  rw [writeOutput_fill hlen hsyl hroom]
  rfl

/-- Where there are more source than destination registers, `ir_action` writes outside. -/
theorem action_ir_outside (hbuffer : (RegisterLine.ir entries).InBuffer buffer)
    (hlen : entries.length ≤ p.nSrc)
    (hroom : (b.syllable b.inputRegisterSyllable).outputRegisters.length < p.nSrc) :
    ∃ msg, action p b buffer = .error msg := by
  obtain ⟨rest, rfl, hrest⟩ := hbuffer.ending
  show ∃ msg, irAction p b ('i' :: 'r' :: (RegisterLine.entriesText entries ++ rest)) = _
  rw [irAction, List.drop_succ_cons, List.drop_succ_cons, List.drop_zero,
    readRegisters_eq hlen hrest]
  dsimp only [bind, Except.bind, writeOutput]
  rw [length_fill_scanned hlen, if_neg (Nat.not_le_of_lt hroom)]
  by_cases hsyl : b.inputRegisterSyllable < numSyllables
  · rw [if_pos hsyl]
    exact ⟨_, rfl⟩
  · rw [if_neg hsyl]
    exact ⟨_, rfl⟩

/-- Every line leaves the number of output registers as it is. -/
theorem length_applyLine_ir (hlen : ins.length ≤ p.nSrc) (hroom : p.nSrc ≤ p.nDst)
    {syl : Syllable} (h : syl.outputRegisters.length = p.nDst) :
    (syl.applyLine p (.ir ins)).outputRegisters.length = p.nDst := by
  rw [Syllable.applyLine, List.length_append, length_fill_scanned hlen, List.length_drop, h]
  omega

theorem length_applyLine_or (hlen : outs.length ≤ p.nDst) {syl : Syllable}
    (h : syl.outputRegisters.length = p.nDst) :
    (syl.applyLine p (.or outs)).outputRegisters.length = p.nDst := by
  rw [Syllable.applyLine, List.length_append, length_fill_scanned hlen, List.length_drop, h]
  omega

theorem irLines_ir (ins : List Entry) (lines : List RegisterLine) :
    irLines (.ir ins :: lines) = ins :: irLines lines := rfl

theorem irLines_or (outs : List Entry) (lines : List RegisterLine) :
    irLines (.or outs :: lines) = irLines lines := rfl

theorem orLines_ir (ins : List Entry) (lines : List RegisterLine) :
    orLines (.ir ins :: lines) = orLines lines := rfl

theorem orLines_or (outs : List Entry) (lines : List RegisterLine) :
    orLines (.or outs :: lines) = outs :: orLines lines := rfl

theorem WellFormed.tail_ir {i o : Nat} (h : WellFormed p i o (.ir ins :: lines)) :
    i < numSyllables ∧ ins.length ≤ p.nSrc ∧ WellFormed p (i + 1) o lines := by
  obtain ⟨hir, hor, hins, houts⟩ := h
  rw [irLines_ir] at hir hins
  rw [List.length_cons] at hir
  refine ⟨by omega, hins _ List.mem_cons_self, by omega, hor, ?_, houts⟩
  exact (List.forall_mem_cons.mp hins).2

theorem WellFormed.tail_or {i o : Nat} (h : WellFormed p i o (.or outs :: lines)) :
    o < numSyllables ∧ outs.length ≤ p.nDst ∧ WellFormed p i (o + 1) lines := by
  obtain ⟨hir, hor, hins, houts⟩ := h
  rw [orLines_or] at hor houts
  rw [List.length_cons] at hor
  refine ⟨by omega, houts _ List.mem_cons_self, hir, by omega, hins, ?_⟩
  exact (List.forall_mem_cons.mp houts).2

theorem length_update {i : Nat} {syl : Syllable} (hsyl : syl.outputRegisters.length = p.nDst)
    (hlength : ∀ j, (b.syllable j).outputRegisters.length = p.nDst) (j : Nat) :
    (Function.update b.syllable i syl j).outputRegisters.length = p.nDst := by
  by_cases hj : j = i
  · subst hj
    rw [Function.update_self]
    exact hsyl
  · rw [Function.update_of_ne hj]
    exact hlength j

/-- A line is applied to its syllable, and to no other. -/
theorem foldl_applyLine_update (i j : Nat) (l : RegisterLine) (lines : List RegisterLine)
    (f : Nat → Syllable) :
    lines.foldl (Syllable.applyLine p) (Function.update f i ((f i).applyLine p l) j) =
      (if i = j then l :: lines else lines).foldl (Syllable.applyLine p) (f j) := by
  by_cases hj : i = j
  · subst hj
    rw [if_pos rfl, Function.update_self, List.foldl_cons]
  · rw [if_neg hj, Function.update_of_ne (Ne.symm hj)]

/-- **Where there is room, each syllable is left as its own lines leave it.** -/
theorem run_syllables (hbuffers : List.Forall₂ RegisterLine.InBuffer lines buffers)
    (hwf : WellFormed p b.inputRegisterSyllable b.outputRegisterSyllable lines)
    (hroom : irLines lines ≠ [] → p.nSrc ≤ p.nDst)
    (hlength : ∀ j, (b.syllable j).outputRegisters.length = p.nDst) :
    ∃ b' : RegisterBundle, buffers.foldlM (action p) b = .ok b' ∧ ∀ j, b'.syllable j
      = (syllableLines j b.inputRegisterSyllable b.outputRegisterSyllable lines).foldl
          (Syllable.applyLine p) (b.syllable j) := by
  induction hbuffers generalizing b with
  | nil => exact ⟨b, rfl, fun j => rfl⟩
  | @cons l buffer lines buffers hbuffer _ ih =>
      cases l with
      | ir ins =>
          obtain ⟨hsyl, hlen, hwf'⟩ := hwf.tail_ir
          have hroom' := hroom (by simp [irLines_ir])
          have hlength' := length_update (i := b.inputRegisterSyllable)
            (length_applyLine_ir hlen hroom' (hlength b.inputRegisterSyllable)) hlength
          obtain ⟨b', hrun, hb'⟩ := ih (b := { b with
            syllable := Function.update b.syllable b.inputRegisterSyllable
              ((b.syllable b.inputRegisterSyllable).applyLine p (.ir ins))
            inputRegisterSyllable := b.inputRegisterSyllable + 1 }) hwf' (fun _ => hroom') hlength'
          refine ⟨b', ?_, fun j => ?_⟩
          · rw [List.foldlM_cons, action_ir hbuffer hlen hsyl (by rw [hlength]; exact hroom')]
            exact hrun
          · rw [hb' j, syllableLines]
            exact foldl_applyLine_update _ _ _ _ _
      | or outs =>
          obtain ⟨hsyl, hlen, hwf'⟩ := hwf.tail_or
          have hlength' := length_update (i := b.outputRegisterSyllable)
            (length_applyLine_or hlen (hlength b.outputRegisterSyllable)) hlength
          obtain ⟨b', hrun, hb'⟩ := ih (b := { b with
            syllable := Function.update b.syllable b.outputRegisterSyllable
              ((b.syllable b.outputRegisterSyllable).applyLine p (.or outs))
            outputRegisterSyllable := b.outputRegisterSyllable + 1 }) hwf' hroom hlength'
          refine ⟨b', ?_, fun j => ?_⟩
          · rw [List.foldlM_cons, action_or hbuffer hlen hsyl (by rw [hlength])]
            exact hrun
          · rw [hb' j, syllableLines]
            exact foldl_applyLine_update _ _ _ _ _

/-- Where there is none, the first `ir` line writes outside. -/
theorem run_outside (hbuffers : List.Forall₂ RegisterLine.InBuffer lines buffers)
    (hwf : WellFormed p b.inputRegisterSyllable b.outputRegisterSyllable lines)
    (hroom : p.nDst < p.nSrc) (hir : irLines lines ≠ [])
    (hlength : ∀ j, (b.syllable j).outputRegisters.length = p.nDst) :
    ∃ msg, buffers.foldlM (action p) b = .error msg := by
  induction hbuffers generalizing b with
  | nil => exact absurd rfl hir
  | @cons l buffer lines buffers hbuffer _ ih =>
      cases l with
      | ir ins =>
          obtain ⟨-, hlen, -⟩ := hwf.tail_ir
          obtain ⟨msg, hmsg⟩ := action_ir_outside (b := b) hbuffer hlen
            (by rw [hlength]; exact hroom)
          refine ⟨msg, ?_⟩
          rw [List.foldlM_cons, hmsg]
          rfl
      | or outs =>
          obtain ⟨hsyl, hlen, hwf'⟩ := hwf.tail_or
          have hlength' := length_update (i := b.outputRegisterSyllable)
            (length_applyLine_or hlen (hlength b.outputRegisterSyllable)) hlength
          obtain ⟨msg, hmsg⟩ := ih (b := { b with
            syllable := Function.update b.syllable b.outputRegisterSyllable
              ((b.syllable b.outputRegisterSyllable).applyLine p (.or outs))
            outputRegisterSyllable := b.outputRegisterSyllable + 1 }) hwf' hir hlength'
          refine ⟨msg, ?_⟩
          rw [List.foldlM_cons, action_or hbuffer hlen hsyl (by rw [hlength])]
          exact hmsg

/-! ### The lines of one syllable -/

theorem syllableLines_add (s k a c : Nat) (lines : List RegisterLine) :
    syllableLines (s + k) (s + a) (s + c) lines = syllableLines k a c lines := by
  induction lines generalizing a c with
  | nil => rfl
  | cons l lines ih =>
      cases l with
      | ir ins =>
          rw [syllableLines, syllableLines, Nat.add_assoc s a 1, ih]
          simp only [Nat.add_left_cancel_iff]
      | or outs =>
          rw [syllableLines, syllableLines, Nat.add_assoc s c 1, ih]
          simp only [Nat.add_left_cancel_iff]

/-- The first of the entries that are counted from `a`, if that is `a` itself. -/
theorem nth_from_self {α : Type} (a : Nat) (x : α) (xs : List α) :
    x :: (if a + 1 ≤ a then (xs[a - (a + 1)]?).toList else []) =
      if a ≤ a then ((x :: xs)[a - a]?).toList else [] := by
  rw [if_neg (Nat.not_succ_le_self a), if_pos (le_refl a), Nat.sub_self]
  rfl

/-- Otherwise it is one of the rest. -/
theorem nth_from_of_ne {α : Type} {k a : Nat} (hk : a ≠ k) (x : α) (xs : List α) :
    (if a + 1 ≤ k then (xs[k - (a + 1)]?).toList else []) =
      if a ≤ k then ((x :: xs)[k - a]?).toList else [] := by
  by_cases hle : a ≤ k
  · obtain ⟨d, rfl⟩ : ∃ d, k = a + 1 + d := ⟨k - (a + 1), by omega⟩
    rw [if_pos (by omega), if_pos hle, Nat.add_sub_cancel_left,
      show a + 1 + d - a = d + 1 by omega, List.getElem?_cons_succ]
  · rw [if_neg (by omega), if_neg hle]

theorem irLines_syllableLines (k a c : Nat) (lines : List RegisterLine) :
    irLines (syllableLines k a c lines)
      = if a ≤ k then ((irLines lines)[k - a]?).toList else [] := by
  induction lines generalizing a c with
  | nil => simp [syllableLines, irLines]
  | cons l lines ih =>
      cases l with
      | ir ins =>
          rw [syllableLines]
          by_cases hk : a = k
          · subst hk
            rw [if_pos rfl, irLines_ir, irLines_ir, ih]
            exact nth_from_self a ins (irLines lines)
          · rw [if_neg hk, ih, irLines_ir]
            exact nth_from_of_ne hk ins (irLines lines)
      | or outs =>
          rw [syllableLines, irLines_or]
          by_cases hk : c = k
          · rw [if_pos hk, irLines_or, ih]
          · rw [if_neg hk, ih]

theorem orLines_syllableLines (k a c : Nat) (lines : List RegisterLine) :
    orLines (syllableLines k a c lines)
      = if c ≤ k then ((orLines lines)[k - c]?).toList else [] := by
  induction lines generalizing a c with
  | nil => simp [syllableLines, orLines]
  | cons l lines ih =>
      cases l with
      | ir ins =>
          rw [syllableLines, orLines_ir]
          by_cases hk : a = k
          · rw [if_pos hk, orLines_ir, ih]
          · rw [if_neg hk, ih]
      | or outs =>
          rw [syllableLines]
          by_cases hk : c = k
          · subst hk
            rw [if_pos rfl, orLines_or, orLines_or, ih]
            exact nth_from_self c outs (orLines lines)
          · rw [if_neg hk, ih, orLines_or]
            exact nth_from_of_ne hk outs (orLines lines)

theorem length_irLines_orLines (lines : List RegisterLine) :
    (irLines lines).length + (orLines lines).length = lines.length := by
  induction lines with
  | nil => rfl
  | cons l lines ih =>
      cases l with
      | ir ins =>
          rw [irLines_ir, orLines_ir, List.length_cons, List.length_cons]
          omega
      | or outs =>
          rw [irLines_or, orLines_or, List.length_cons, List.length_cons]
          omega

theorem length_toList_le {α : Type} (o : Option α) : o.toList.length ≤ 1 := by
  cases o <;> simp

/-- A syllable has at most one line of either kind. -/
theorem syllableLines_cases (k : Nat) (lines : List RegisterLine) :
    ((orLines lines)[k]? = none ∧
      (syllableLines k 0 0 lines = [] ∨ ∃ ins, syllableLines k 0 0 lines = [.ir ins])) ∨
    ∃ outs, (orLines lines)[k]? = some outs ∧
      (syllableLines k 0 0 lines = [.or outs] ∨
        ∃ ins ∈ irLines lines, syllableLines k 0 0 lines = [.ir ins, .or outs] ∨
          syllableLines k 0 0 lines = [.or outs, .ir ins]) := by
  have hir := irLines_syllableLines k 0 0 lines
  have hor := orLines_syllableLines k 0 0 lines
  rw [if_pos (Nat.zero_le k), Nat.sub_zero] at hir hor
  have hlength := length_irLines_orLines (syllableLines k 0 0 lines)
  have hirLength := length_toList_le (irLines lines)[k]?
  have horLength := length_toList_le (orLines lines)[k]?
  rw [← hir] at hirLength
  rw [← hor] at horLength
  generalize syllableLines k 0 0 lines = own at *
  have hins : ∀ ins, irLines own = [ins] → ins ∈ irLines lines := fun ins h =>
    List.mem_of_getElem? (Option.toList_eq_singleton_iff.mp (hir.symm.trans h))
  have houts : ∀ outs, orLines own = [outs] → (orLines lines)[k]? = some outs := fun outs h =>
    Option.toList_eq_singleton_iff.mp (hor.symm.trans h)
  have hnone : orLines own = [] → (orLines lines)[k]? = none := fun h =>
    Option.toList_eq_nil_iff.mp (hor.symm.trans h)
  rcases own with _ | ⟨l, _ | ⟨l', _ | ⟨l'', own⟩⟩⟩
  · exact .inl ⟨hnone rfl, .inl rfl⟩
  · cases l with
    | ir ins => exact .inl ⟨hnone rfl, .inr ⟨ins, rfl⟩⟩
    | or outs => exact .inr ⟨outs, houts outs rfl, .inl rfl⟩
  · cases l with
    | ir ins =>
        cases l' with
        | ir ins' => exact absurd hirLength (by simp [irLines_ir])
        | or outs => exact .inr ⟨outs, houts outs rfl, .inr ⟨ins, hins ins rfl, .inl rfl⟩⟩
    | or outs =>
        cases l' with
        | ir ins => exact .inr ⟨outs, houts outs rfl, .inr ⟨ins, hins ins rfl, .inr rfl⟩⟩
        | or outs' => exact absurd horLength (by simp [orLines_or])
  · simp only [List.length_cons] at hlength
    omega

/-! ### When the registers are kept -/

theorem Entry.scanned_eq_iff (e : Entry) : e.scanned = e.register ↔ CarryFree 0 e.number := by
  rw [← accumulate_eq_iff]
  constructor
  · exact congrArg ArchRegister.number
  · intro h
    rw [Entry.scanned, h]
    rfl

theorem fill_scanned_eq_iff {n : Nat} {invalid : ArchRegister} :
    fill n invalid (outs.map Entry.scanned) = fill n invalid (outs.map Entry.register) ↔
      ∀ e ∈ outs, CarryFree 0 e.number := by
  unfold fill
  rw [List.length_map, List.length_map, List.append_cancel_right_eq, List.map_inj_left]
  exact forall₂_congr fun e _ => e.scanned_eq_iff

theorem drop_all {syl : Syllable} (h : syl.outputRegisters.length = p.nDst) :
    syl.outputRegisters.drop p.nDst = [] :=
  List.drop_eq_nil_of_le (le_of_eq h)

/-- What the lines of a syllable leave in its output registers. -/
theorem outputs_eq_iff {own : List RegisterLine} {syl : Syllable}
    (hlength : syl.outputRegisters.length = p.nDst)
    (hroom : irLines own ≠ [] → p.nSrc ≤ p.nDst)
    (hown : own = [.or outs] ∨ ∃ ins, ins.length ≤ p.nSrc ∧
      (own = [.ir ins, .or outs] ∨ own = [.or outs, .ir ins])) :
    (own.foldl (Syllable.applyLine p) syl).outputRegisters
        = fill p.nDst p.invalid (outs.map Entry.register) ↔ KeepsOutputs p own := by
  rcases hown with rfl | ⟨ins, hins, rfl | rfl⟩
  · show fill p.nDst p.invalid (outs.map Entry.scanned) ++ syl.outputRegisters.drop p.nDst = _ ↔ _
    rw [drop_all hlength, List.append_nil]
    exact fill_scanned_eq_iff
  · have hlength' := length_applyLine_ir hins (hroom (by simp [irLines_ir])) hlength
    show fill p.nDst p.invalid (outs.map Entry.scanned) ++
      (syl.applyLine p (.ir ins)).outputRegisters.drop p.nDst = _ ↔ _
    rw [drop_all hlength', List.append_nil]
    exact fill_scanned_eq_iff
  · show fill p.nSrc p.invalid (ins.map Entry.scanned) ++
      (fill p.nDst p.invalid (outs.map Entry.scanned) ++
        syl.outputRegisters.drop p.nDst).drop p.nSrc = _ ↔ _
    rw [drop_all hlength, List.append_nil]
    exact Iff.rfl

theorem inputs_foldl (own : List RegisterLine) (syl : Syllable) :
    (own.foldl (Syllable.applyLine p) syl).inputRegisters = syl.inputRegisters := by
  induction own generalizing syl with
  | nil => rfl
  | cons l own ih =>
      rw [List.foldl_cons, ih]
      cases l <;> rfl

theorem faithful_iff_of_syllables (hwf : WellFormed p sNum sNum lines)
    (hroom : irLines lines ≠ [] → p.nSrc ≤ p.nDst)
    (hb : ∀ j, b.syllable j = (syllableLines j sNum sNum lines).foldl (Syllable.applyLine p)
      (clearedSyllable p)) : Faithful p sNum lines b ↔ KeepsRegisters p lines := by
  have hown : ∀ k, b.syllable (sNum + k)
      = (syllableLines k 0 0 lines).foldl (Syllable.applyLine p) (clearedSyllable p) := by
    intro k
    rw [hb, ← syllableLines_add sNum k 0 0 lines]
    rfl
  have hinputs : ∀ k, (b.syllable (sNum + k)).inputRegisters
      = List.replicate p.nSrc p.cleared := by
    intro k
    rw [hown, inputs_foldl]
    rfl
  have houtputs : ∀ k outs, (orLines lines)[k]? = some outs →
      ((b.syllable (sNum + k)).outputRegisters
        = fill p.nDst p.invalid (outs.map Entry.register) ↔
          KeepsOutputs p (syllableLines k 0 0 lines)) := by
    intro k outs hk
    rw [hown]
    rcases syllableLines_cases k lines with ⟨hnone, -⟩ | ⟨outs', hk', hcases⟩
    · rw [hnone] at hk
      cases hk
    · obtain rfl : outs' = outs := Option.some.inj (hk'.symm.trans hk)
      refine outputs_eq_iff List.length_replicate (fun hne => ?_) ?_
      · rw [irLines_syllableLines, if_pos (Nat.zero_le k), Nat.sub_zero] at hne
        refine hroom fun hnil => hne ?_
        rw [hnil]
        rfl
      · rcases hcases with hor | ⟨ins, hins, hboth⟩
        · exact .inl hor
        · exact .inr ⟨ins, hwf.irRegs ins hins, hboth⟩
  constructor
  · intro h
    refine ⟨fun entries hentries => ?_, hroom, fun k => ?_⟩
    · obtain ⟨k, hk⟩ := List.getElem?_of_mem hentries
      rw [← h.inputs k entries hk, hinputs]
    · rcases syllableLines_cases k lines with ⟨-, hnil | ⟨ins, hir⟩⟩ | ⟨outs, hk, -⟩
      · rw [hnil]
        trivial
      · rw [hir]
        trivial
      · exact (houtputs k outs hk).mp (h.outputs k outs hk)
  · intro h
    refine ⟨fun k entries hk => ?_, fun k outs hk => ?_⟩
    · rw [hinputs, h.cleared entries (List.mem_of_getElem? hk)]
    · exact (houtputs k outs hk).mpr (h.outputs k)

/-- **The registers of a bundle are those of its lines if and only if no `ir` line says
anything else than a cleared syllable has, and no `or` line is misread or overwritten.** -/
theorem faithful_iff (p : RegisterParams) (sNum : Nat) (lines : List RegisterLine)
    (buffers : List (List Char)) (hwf : WellFormed p sNum sNum lines)
    (hbuffers : List.Forall₂ RegisterLine.InBuffer lines buffers) :
    (∃ b, processLines p sNum buffers = .ok b ∧ Faithful p sNum lines b) ↔
      KeepsRegisters p lines := by
  have hlength : ∀ j, ((bbAction p sNum).syllable j).outputRegisters.length = p.nDst :=
    fun j => List.length_replicate
  by_cases hroom : irLines lines ≠ [] → p.nSrc ≤ p.nDst
  · obtain ⟨b, hrun, hb⟩ := run_syllables (b := bbAction p sNum) hbuffers hwf hroom hlength
    rw [← faithful_iff_of_syllables hwf hroom hb]
    constructor
    · rintro ⟨b', hrun', hfaithful⟩
      obtain rfl := Except.ok.inj (hrun.symm.trans hrun')
      exact hfaithful
    · exact fun hfaithful => ⟨b, hrun, hfaithful⟩
  · obtain ⟨hir, hnoRoom⟩ := Classical.not_imp.mp hroom
    obtain ⟨msg, hrun⟩ := run_outside (b := bbAction p sNum) hbuffers hwf
      (Nat.lt_of_not_le hnoRoom) hir hlength
    constructor
    · rintro ⟨b', hrun', -⟩
      cases hrun.symm.trans hrun'
    · exact fun h => absurd h.room hroom

/-! ### One line -/

/-- Two registers of each kind; a cleared register is not an invalid one. -/
def twoRegisters : RegisterParams where
  nSrc := 2
  nDst := 2
  invalid := ⟨.invalid, 0, 0, 0⟩
  cleared := ⟨.int, 0, 0, 0⟩

/-- `r<number> 1f`. -/
def intEntry (number : List Char) (digits : (number.all fun c => (decDigit c).isSome) = true)
    (small : decimal 0 number < 128) : Entry where
  type := 'r'
  number := number
  value := ['1', 'f']
  known := by decide
  digits := digits
  small := small
  hexDigits := by decide
  nonempty := by decide
  fits := by decide

/-- `or r11 1f` is read right. -/
theorem faithful_iff_r11 :
    ∃ b, processLines twoRegisters 0 [['o', 'r', ' ', 'r', '1', '1', ' ', '1', 'f', '\n']] = .ok b ∧
      Faithful twoRegisters 0 [.or [intEntry ['1', '1'] (by decide) (by decide)]] b := by
  refine (faithful_iff twoRegisters 0 [.or [intEntry ['1', '1'] (by decide) (by decide)]]
    [['o', 'r', ' ', 'r', '1', '1', ' ', '1', 'f', '\n']] ?_ ?_).mpr ?_
  · constructor <;> decide
  · exact .cons (.inl rfl) .nil
  · refine ⟨fun entries hentries => absurd hentries List.not_mem_nil,
      fun hne => absurd rfl hne, fun k => ?_⟩
    rw [syllableLines]
    split
    · intro e he
      obtain rfl := List.mem_singleton.mp he
      exact ⟨rfl, rfl, trivial⟩
    · trivial

/-- **An `ir` line goes to the output registers.** -/
theorem not_always_faithful :
    ¬ ∀ (p : RegisterParams) (sNum : Nat) (lines : List RegisterLine)
      (buffers : List (List Char)), WellFormed p sNum sNum lines →
        List.Forall₂ RegisterLine.InBuffer lines buffers →
          ∃ b, processLines p sNum buffers = .ok b ∧ Faithful p sNum lines b := by
  intro hall
  obtain ⟨b, hrun, hfaithful⟩ := hall twoRegisters 0 [.ir [intEntry ['1'] (by decide) (by decide)]]
    [['i', 'r', ' ', 'r', '1', ' ', '1', 'f', '\n']] (by constructor <;> decide)
    (.cons (.inl rfl) .nil)
  have hinputs := hfaithful.inputs 0 _ rfl
  obtain rfl := Except.ok.inj hrun
  exact absurd hinputs (by decide)

end AsimFeeder.Gtrace
