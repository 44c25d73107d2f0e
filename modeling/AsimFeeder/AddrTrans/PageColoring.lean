/-
The page colouring address translator (`pagecoloring.h`, `pagecoloring.cpp`).

Each hardware context has its own page table, which hands out page numbers in the order
pages are first touched.  The page numbers of a context start at a prime offset of
their own, so that equal pages of different contexts fall into different cache sets.
`AddrTranslate` packs page number, offset in the page and context into one physical
address.

`ASSERT` ends the run, so the operations that make one return an `Except`.  The
parameters are those of `pagecoloring.awb`, at their defaults.
-/
import Mathlib

namespace AsimFeeder.AddrTrans

/-- Number of bits used for the physical address. -/
def physicalAddressBits : Nat := 50

def log2MaxSwc : Nat := 5

/-- Offsets ptes assigned to different contexts. -/
def pteOffsetBetweenSwc : Nat := 37

def log2PtePerSwc : Nat := 32

def shareIaddrSpace : Nat := 0

def shareDaddrSpace : Nat := 0

/-! ### Page tables -/

structure PageTable where
  pageTable : BitVec 64 → Option (BitVec 64)
  nextPage : BitVec 64
  offset : BitVec 32
  maxPages : BitVec 64

/-- A new table assigns from page 0. -/
def PageTable.new (maxPage : BitVec 64) (pageOffset : BitVec 32) : PageTable where
  pageTable _ := none
  nextPage := 0
  offset := pageOffset
  maxPages := maxPage

/-- The page of `va`, a new one if it has none yet, and whether it had one. -/
def PageTable.getPTE (t : PageTable) (va : BitVec 64) :
    Except String (PageTable × BitVec 64 × Bool) :=
  match t.pageTable va with
  | none =>
      let pa := t.nextPage + t.offset.setWidth 64
      let t := { t with
        pageTable := Function.update t.pageTable va (some pa)
        nextPage := t.nextPage + 1 }
      if t.nextPage < t.maxPages then
        .ok (t, pa, false)
      else
        .error "Exceeding maximum number of pages for page table."
  | some pa => .ok (t, pa, true)

/-! ### The translator -/

structure AddressTranslator where
  log2PageSize : Nat
  pageSizeMask : BitVec 64
  baseAddress : BitVec 64
  pageTableArray : List PageTable

namespace AddressTranslator

def new (log2PageSize : Nat) (physicalBaseAddress : BitVec 64) :
    Except String AddressTranslator :=
  -- `1 << log2PageSize` is an `int`.
  let pageSizeMask := (1#32 <<< log2PageSize - 1#32).signExtend 64
  if physicalBaseAddress ≠ physicalBaseAddress &&& ~~~pageSizeMask then
    .error "Address translator base address isn't page aligned"
  else if ¬ physicalAddressBits ≤ 64 then
    .error "Physical address cannot be greather than 64 bits"
  else if ¬ log2PtePerSwc < physicalAddressBits - log2MaxSwc then
    .error "LOG_2_PTE_PER_SWC must be less than (PHYSICAL_ADDRESS_BITS - LOG_2_MAX_SWC) bits."
  else
    let ptePerSwc := 1#64 <<< log2PtePerSwc
    .ok {
      log2PageSize
      pageSizeMask
      baseAddress := physicalBaseAddress
      pageTableArray := (List.range (1 <<< log2MaxSwc)).map fun i =>
        PageTable.new ptePerSwc (BitVec.ofNat 32 (pteOffsetBetweenSwc * i)) }

/-- Page number, then offset in the page, then context, then the base address. -/
def physical (a : AddressTranslator) (swc va pte : BitVec 64) : BitVec 64 :=
  let addrInPage := va &&& a.pageSizeMask
  let pa := pte <<< a.log2PageSize ||| addrInPage
  let pa := swc <<< (physicalAddressBits - log2MaxSwc) ||| pa
  pa + a.baseAddress

def addrTranslate (a : AddressTranslator) (swc va : BitVec 64) :
    Except String (AddressTranslator × BitVec 64 × Bool) :=
  match a.pageTableArray[swc.toNat]? with
  | none => .error "no such page table"  -- unchecked in the source
  | some t =>
      match t.getPTE (va >>> a.log2PageSize) with
      | .error e => .error e
      | .ok (t, pte, hit) =>
          .ok ({ a with pageTableArray := a.pageTableArray.set swc.toNat t },
            a.physical swc va pte, hit)

def iTranslate (a : AddressTranslator) (hwcNum : BitVec 32) (va : BitVec 64) :
    Except String (AddressTranslator × BitVec 64 × Bool) :=
  if shareIaddrSpace = 0 then
    a.addrTranslate (hwcNum.setWidth 64) va
  else
    a.addrTranslate 0 va

end AddressTranslator

/-- What the translator reads of a software context. -/
structure SwContext where
  hwcNum : BitVec 32

/-- What the translator reads of an instruction. -/
structure Inst where
  swc : Option SwContext

def AddressTranslator.dTranslate (a : AddressTranslator) (inst : Inst) (va : BitVec 64) :
    Except String (AddressTranslator × BitVec 64 × Bool) :=
  if shareDaddrSpace = 0 then
    match inst.swc with
    | none => .error "swc != NULL"
    | some swc =>
        if swc.hwcNum = -1 then
          .error "Software context not active."
        else
          a.addrTranslate (swc.hwcNum.signExtend 64) va
  else
    a.addrTranslate 0 va

/-! ### Runs -/

inductive Call where
  | iTranslate (hwcNum : BitVec 32) (va : BitVec 64)
  | dTranslate (inst : Inst) (va : BitVec 64)

def Call.va : Call → BitVec 64
  | .iTranslate _ va => va
  | .dTranslate _ va => va

/-- The hardware context a call is for. -/
def Call.context : Call → Option Nat
  | .iTranslate hwcNum _ => some hwcNum.toNat
  | .dTranslate inst _ => inst.swc.map fun swc => (swc.hwcNum.signExtend 64).toNat

/-- The context and virtual page of a call, with pages of `2 ^ l` bytes. -/
def Call.page (l : Nat) (c : Call) : Option (Nat × BitVec 64) :=
  c.context.map fun swc => (swc, c.va >>> l)

/-- A call with its answer. -/
structure Served where
  call : Call
  pa : BitVec 64
  hit : Bool

/-- The physical page of an answer. -/
def Served.frame (l : Nat) (x : Served) : BitVec 64 := x.pa >>> l

namespace AddressTranslator

def exec (a : AddressTranslator) : Call → Except String (AddressTranslator × BitVec 64 × Bool)
  | .iTranslate hwcNum va => a.iTranslate hwcNum va
  | .dTranslate inst va => a.dTranslate inst va

def run (a : AddressTranslator) : List Call → Except String (AddressTranslator × List Served)
  | [] => .ok (a, [])
  | c :: cs =>
      match a.exec c with
      | .error e => .error e
      | .ok (a, pa, hit) =>
          match a.run cs with
          | .error e => .error e
          | .ok (a, log) => .ok (a, ⟨c, pa, hit⟩ :: log)

end AddressTranslator

end AsimFeeder.AddrTrans
