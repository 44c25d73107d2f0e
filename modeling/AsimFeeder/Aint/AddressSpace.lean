/-
AINT's address spaces: segments, shared segments, and the translation buffer.

A process has a list of segments, a list of the shared regions that it attached, and a
table of chains of pages that fills as addresses are looked up.  A page that misses gets
the memory of the shared segment that is attached there, or else new memory.

The pages that `allocate_pages` returns are arguments of what asks for them, with 0 for
`NULL`.  Virtual addresses are words, and physical ones are numbers.  Decoded text, the
counts of pages that only `fork` looks at and the sizes of segments, which nobody reads,
are left out.
-/
import AsimFeeder.Lib.Lookaside
import AsimFeeder.Lib.Runs

namespace AsimFeeder.Aint

open Lib

/-! ### Pages and keys -/

def TB_PAGESIZE : UInt64 := 65536

def TB_SIZE : Nat := 256

/-- The shift of a signed word. -/
def TB_VPAGE (addr : UInt64) : Int := addr.toInt64.toInt / 65536

def TB_OFFSET (addr : UInt64) : Nat := addr.toNat % 65536

def TB_KEY (vpage : Int) : Nat := (vpage % TB_SIZE).toNat

def TB_TAG (vpage : Int) : Int := vpage / TB_SIZE

/-- Align the simulated address space on an 8k boundary. -/
def M_ALIGN : UInt64 := 8 * 1024

/-- `addr & PAGE_NUMBER_MASK`. -/
def pageaddr (addr : UInt64) : UInt64 := addr - addr % M_ALIGN

/-- `BASE2ROUNDDOWN(v, TB_PAGESIZE)`. -/
def BASE2ROUNDDOWN (v : UInt64) : UInt64 := v - v % TB_PAGESIZE

/-- `BASE2ROUNDUP(v, TB_PAGESIZE)`. -/
def BASE2ROUNDUP (v : UInt64) : UInt64 := BASE2ROUNDDOWN (v + (TB_PAGESIZE - 1))

/-! ### Protections, flags, errors -/

def PROT_READ : UInt32 := 1

def PROT_WRITE : UInt32 := 2

def MAP_SHARED : UInt32 := 1

def MAP_PRIVATE : UInt32 := 2

def IPC_CREAT : UInt64 := 512

def IPC_EXCL : UInt64 := 1024

inductive Errno
  | ok
  | EEXIST
  | ENOENT
  | ENOSPC
  | EINVAL
  | ENOMEM
  deriving DecidableEq, Repr

/-- What ends the simulator: `fatal`, `abort` and `assert`. -/
inductive Fault
  | noLookaside
  | assertFailed
  | noSharedMemory
  | noPhysicalPages
  deriving DecidableEq, Repr

/-! ### Processes -/

/-- What a translation buffer entry holds for its tag. -/
structure Mapping where
  page : Nat
  flags : UInt32
  prot : UInt32
  deriving DecidableEq, Repr

/-- A segment; `last` is inclusive. -/
structure Segment where
  start : UInt64
  last : UInt64
  prot : UInt32
  flags : UInt32
  deriving DecidableEq, Repr

def MAX_SHMSEG : Nat := 256

instance : NeZero MAX_SHMSEG := ⟨by decide⟩

/-- A region of a shared segment that a process has attached. -/
structure Shm_ds where
  shmid : Fin MAX_SHMSEG
  size : UInt64
  addr : UInt64
  deriving DecidableEq, Repr

structure Process where
  TB : Nat → Chain Int Mapping
  Shmem_regions : List Shm_ds
  Unsp_Shmat_Current : UInt64
  segments : List Segment

/-- A shared segment of the system. -/
structure Sysv_shm where
  inuse : Bool
  key : UInt64
  paddr : Nat
  size : UInt64
  deriving DecidableEq, Repr

def segment_contains (segment : Segment) (addr : UInt64) : Bool :=
  segment.start ≤ addr && addr ≤ segment.last

def Shm_ds.contains (shmds : Shm_ds) (addr : UInt64) : Bool :=
  shmds.addr ≤ addr && addr < shmds.addr + shmds.size

namespace Process

variable (process : Process)

def process_find_segment (addr : UInt64) : Option Segment :=
  process.segments.find? (segment_contains · addr)

/-- A segment that holds one end of the new one is extended and keeps its flags. -/
def process_add_segment (start size : UInt64) (prot flags : UInt32) : Process :=
  let rounded_start := BASE2ROUNDDOWN start
  let rounded_end := BASE2ROUNDUP (start + size) - 1
  match process.segments.findIdx? fun segment =>
      segment_contains segment rounded_start || segment_contains segment rounded_end with
  | none =>
      { process with
        segments := process.segments ++ [⟨rounded_start, rounded_end, prot ||| prot, flags⟩] }
  | some i =>
      { process with
        segments := process.segments.modify i fun segment =>
          { segment with
            start := if rounded_start < segment.start then rounded_start else segment.start
            last := if segment.last < rounded_end then rounded_end else segment.last
            prot := segment.prot ||| prot } }

/-- The memory of the region that is attached at the address, `NULL` if there is none. -/
def sharedPage (Shmseg : Fin MAX_SHMSEG → Sysv_shm) (addr : UInt64) : Nat :=
  match process.Shmem_regions.find? (·.contains addr) with
  | some shmds => (Shmseg shmds.shmid).paddr + (pageaddr addr - shmds.addr).toNat
  | none => 0

/-- What a new entry holds; not shared or not attached memory is new. -/
def newMapping (Shmseg : Fin MAX_SHMSEG → Sysv_shm) (addr : UInt64) (segment : Segment)
    (fresh : Nat) : Mapping :=
  let shared := if segment.flags &&& MAP_SHARED ≠ 0 then process.sharedPage Shmseg addr else 0
  ⟨if shared = 0 then fresh else shared, segment.flags, segment.prot⟩

/-- The translation, 0 if the address is in no segment; `fresh` is from `allocate_pages`. -/
def tlb_miss (Shmseg : Fin MAX_SHMSEG → Sysv_shm) (addr : UInt64) (tbkey : Nat) (tbtag : Int)
    (fresh : Nat) : Nat × Process :=
  match process.process_find_segment addr with
  | some segment =>
      let pg := process.newMapping Shmseg addr segment fresh
      (pg.page + TB_OFFSET addr,
        { process with
          TB := Function.update process.TB tbkey ((process.TB tbkey).push tbtag pg) })
  | none => (0, process)

def tlb_lookup (Shmseg : Fin MAX_SHMSEG → Sysv_shm) (addr : UInt64) (fresh : Nat) :
    Except Fault (Option Mapping × Process) :=
  let tbkey := TB_KEY (TB_VPAGE addr)
  let tbtag := TB_TAG (TB_VPAGE addr)
  match (process.TB tbkey).look tbtag with
  | .broken => .error .noLookaside
  | .hit pg chain =>
      .ok (some pg.value, { process with TB := Function.update process.TB tbkey chain })
  | .miss =>
      match process.tlb_miss Shmseg addr tbkey tbtag fresh with
      | (0, process) => .ok (none, process)
      | (_ + 1, process) =>
          match (process.TB tbkey).remembered with
          | none => .error .assertFailed
          | some pg =>
              if pg.key = tbtag then .ok (some pg.value, process) else .error .assertFailed

/-- The translation and the protection, both 0 on a miss. -/
def addr2phys (Shmseg : Fin MAX_SHMSEG → Sysv_shm) (addr : UInt64) (fresh : Nat) :
    Except Fault ((Nat × UInt32) × Process) :=
  match process.tlb_lookup Shmseg addr fresh with
  | .error fault => .error fault
  | .ok (some pg, process) => .ok ((pg.page + TB_OFFSET addr, pg.prot), process)
  | .ok (none, process) => .ok ((0, 0), process)

end Process

/-! ### Shared segments -/

/-- The shared segments, and the processes by their numbers; `log` is what was translated. -/
structure AddrSpaces where
  Shmseg : Fin MAX_SHMSEG → Sysv_shm
  Shmem_start : UInt64
  Shmem_end : UInt64
  Shmem_size : UInt64
  UNSP_SHMAT_END : UInt64
  process : Nat → Process
  log : List (Nat × UInt64 × Nat)

/-- `int size = Shmseg[shmid].size`, as the long it is afterwards. -/
def Sysv_shm.attachSize (shm : Sysv_shm) : UInt64 := shm.size.toUInt32.toInt32.toInt64.toUInt64

/-- Where a region is attached: at the next free address, or where the caller wants it. -/
def attachAddr (process : Process) (addr : UInt64) : UInt64 :=
  if addr = 0 then BASE2ROUNDUP process.Unsp_Shmat_Current else BASE2ROUNDDOWN addr

inductive MemEvent
  | shmget (key size flags : UInt64)
  | shmat (pid : Nat) (shmid : Int) (addr : UInt64) (fresh : Nat)
  | addr2phys (pid : Nat) (addr : UInt64) (fresh : Nat)
  deriving DecidableEq, Repr

namespace AddrSpaces

variable (s : AddrSpaces)

def setProcess (pid : Nat) (process : Process) : AddrSpaces :=
  { s with process := Function.update s.process pid process }

/-- A `key_t`, as the long that keys are compared as. -/
def keyOf (key : UInt64) : UInt64 := key.toUInt32.toInt32.toInt64.toUInt64

/-- The segment's number, -1 with an error. -/
def shmseg_allocate (key size flags : UInt64) : Except Fault (Int × Errno × AddrSpaces) :=
  let size := BASE2ROUNDUP size
  let matching :=
    if key ≠ 0 then (List.finRange MAX_SHMSEG).find? fun shmid => (s.Shmseg shmid).key = key
    else none
  match matching with
  | some shmid =>
      if flags &&& (IPC_EXCL ||| IPC_CREAT) = IPC_EXCL ||| IPC_CREAT then .ok (-1, .EEXIST, s)
      else .ok (shmid.val, .ok, s)
  | none =>
      if key ≠ 0 ∧ flags &&& IPC_CREAT = 0 then .ok (-1, .ENOENT, s)
      else
        match (List.finRange MAX_SHMSEG).find? fun shmid => !(s.Shmseg shmid).inuse with
        | none => .ok (-1, .ENOSPC, s)
        | some shmid =>
            if s.Shmem_start + s.Shmem_size < s.Shmem_end + size then .error .noSharedMemory
            else
              .ok (shmid.val, .ok,
                { s with
                  Shmseg := Function.update s.Shmseg shmid ⟨true, keyOf key, 0, size⟩
                  Shmem_end := s.Shmem_end + size })

/--
The address where it is attached, -1 with an error.  The number `MAX_SHMSEG` passes the
check of the source and reads past the table; there is no step for it.
-/
def shmseg_attach (pid : Nat) (shmid : Int) (addr : UInt64) (fresh : Nat) :
    Option (Except Fault (UInt64 × Errno × AddrSpaces)) :=
  if shmid < 0 ∨ MAX_SHMSEG < shmid then some (.ok (-1, .EINVAL, s))
  else if h : shmid.toNat < MAX_SHMSEG then
    let shmid : Fin MAX_SHMSEG := ⟨shmid.toNat, h⟩
    let shm := s.Shmseg shmid
    if !shm.inuse then some (.ok (-1, .EINVAL, s))
    else
      let size := shm.attachSize
      if size ≠ BASE2ROUNDDOWN size then some (.error .assertFailed)
      else if shm.paddr = 0 ∧ size.toInt64 < 0 then some (.error .noPhysicalPages)
      else
        let paddr := if shm.paddr = 0 then fresh else shm.paddr
        let s := { s with Shmseg := Function.update s.Shmseg shmid { shm with paddr := paddr } }
        let process := s.process pid
        let attached := attachAddr process addr
        let process :=
          if addr = 0 then { process with Unsp_Shmat_Current := attached + size } else process
        if addr = 0 ∧ s.UNSP_SHMAT_END ≤ process.Unsp_Shmat_Current then
          some (.ok (-1, .ENOMEM, s.setProcess pid process))
        else
          let process :=
            { process with Shmem_regions := ⟨shmid, size, attached⟩ :: process.Shmem_regions }
          some (.ok (attached, .ok, s.setProcess pid
            (process.process_add_segment attached size (PROT_READ ||| PROT_WRITE) MAP_SHARED)))
  else none

/-- The next state, if there is one. -/
def exec : MemEvent → Option AddrSpaces
  | .shmget key size flags =>
      match s.shmseg_allocate key size flags with
      | .ok (_, _, t) => some t
      | .error _ => none
  | .shmat pid shmid addr fresh =>
      match s.shmseg_attach pid shmid addr fresh with
      | some (.ok (_, _, t)) => some t
      | _ => none
  | .addr2phys pid addr fresh =>
      match (s.process pid).addr2phys s.Shmseg addr fresh with
      | .ok ((phys, _), process) =>
          let s := s.setProcess pid process
          some (if phys = 0 then s else { s with log := (pid, addr, phys) :: s.log })
      | .error _ => none

end AddrSpaces

end AsimFeeder.Aint
