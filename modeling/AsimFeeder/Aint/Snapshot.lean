/-
Snapshots of an AINT process.

`snapshot_process` writes the fields of a process, its segments, its pages and its threads
to a file.  `restore_process` reads them into a process that `init_main_thread` has just
set up, and whose program was not loaded: its translation buffer is empty, and it fills as
pages are looked up so that they can be read in.

The file is what was written to it, not its bytes.  A thread's next instruction is known by
its address.  What `decode_instr` looks up, and whether it puts another word in the place of
an instruction, is an argument.  Symbols, semaphores, open files and joins are left out, and
so is attached memory: nothing detaches it, so a process that has none never had any.

New pages are 64 KB of the 4 GB behind `START_DATA_ADDRESS`, so no `int` that counts pages
overflows.
-/
import AsimFeeder.Aint.AddressSpace
import AsimFeeder.Aint.Renaming

namespace AsimFeeder.Aint.Snapshot

open Lib

def PROT_EXEC : UInt32 := 4

def START_DATA_ADDRESS : Nat := 0x200000000

def START_CODE_ADDRESS : Nat := 0x300000000

/-- The stack pointer. -/
def SP : LogicalRegNum := 30

/-! ### Processes and threads -/

/-- What is copied to the file and back, and not looked at on the way. -/
structure ThreadFields where
  fpcr : Int
  runstate : Int
  time : Int
  cpu_time : Int
  exitcode : Int
  semval : Int
  terrno : Int
  signal : Int
  sigblocked : Int
  sigpending : Int
  unique : Int
  prio : Int
  deriving DecidableEq, Repr

structure ProcessFields where
  process_time : Int
  process_cpu : Int
  child_cpu : Int
  runstate : Int
  is_zombie : Int
  entry_point : UInt64
  initial_gp : UInt64
  stack_end : UInt64
  brk : UInt64
  deriving DecidableEq, Repr

structure Thread where
  rename : RenameThread
  RegValid : Nat → Bool
  next_fetch_picode : Option UInt64
  fields : ThreadFields

/-- `memory` is by physical address, and `textpage` says which pages have decoded text. -/
structure ProcessState where
  process : Process
  aint_brk_address : Nat
  memory : Nat → UInt8
  textpage : Nat → Bool
  num_pages : Nat
  num_private : Nat
  n_instructions : Nat
  fields : ProcessFields
  threads : List Thread

namespace Thread

/-- `init_all_queues`: a register that is mapped is valid. -/
def initialValid (pr : Nat) : Bool :=
  (List.finRange 100).any fun lreg => lreg.val ≠ FP_ZERO_REGISTER && initialMap lreg == pr

/-- `init_all_queues` and `init_thread`. -/
def init : Thread where
  rename := RenameThread.init
  RegValid := initialValid
  next_fetch_picode := none
  fields := ⟨0, 0, 0, 0, 0, 0, 0, 0, 0, 0, 0, 0⟩

variable (thread : Thread)

/-- What a logical register holds. -/
def values (reg : LogicalRegNum) : List Int :=
  (List.range (if FIRST_VEC_LOGICAL ≤ reg.val then MAX_VECTOR_LENGTH else 1)).map fun i =>
    thread.rename.regs.Reg (thread.rename.regs.RegMap reg + i)

/-- What a step can see: an issue checks that its registers are valid. -/
def view : (LogicalRegNum → List Int × Bool) × Option UInt64 :=
  (fun reg => (thread.values reg, thread.RegValid (thread.rename.regs.RegMap reg)),
    thread.next_fetch_picode)

/-- `MapReg_thr`. -/
def setMapReg (reg : LogicalRegNum) (value : Int) : Thread :=
  { thread with
    rename := { thread.rename with
      regs := thread.rename.regs.write (thread.rename.regs.RegMap reg) value } }

/-- A register that an instruction got is not valid any more when it is released. -/
def killedValid (RegValid : Nat → Bool) (x : InflightInst) : Nat → Bool :=
  match x.picode.bind Icode.dest with
  | none => RegValid
  | some dest =>
      if x.args dest = ZERO_REGISTER then RegValid
      else Function.update RegValid (x.args dest) false

/-- The validity bits after what has happened to the registers. -/
def validAfter (after : RenameThread) : RenameEvent → Nat → Bool
  | .fetch picode =>
      match picode.bind Icode.dest with
      | none => thread.RegValid
      | some dest =>
          let pr := (after.cbif after.instid).args dest
          if pr = ZERO_REGISTER then thread.RegValid
          else Function.update thread.RegValid pr false
  | .issue instid _ =>
      let x := thread.rename.cbif instid
      match x.picode.bind Icode.dest with
      | none => thread.RegValid
      | some dest => Function.update thread.RegValid (x.args dest) true
  | .commit instid =>
      let x := thread.rename.cbif instid
      if (x.picode.bind Icode.dest).isSome ∧ x.OldDest_Phys ≠ ZERO_REGISTER then
        Function.update thread.RegValid x.OldDest_Phys false
      else thread.RegValid
  | .kill _ =>
      -- those that left the flight, the youngest first
      ((thread.rename.flight.drop after.flight.length).reverse.map thread.rename.cbif).foldl
        killedValid thread.RegValid

/-- A step of the thread, after which `next` is to be fetched. -/
def exec (e : RenameEvent) (next : Option UInt64) : Option Thread :=
  (thread.rename.exec e).map fun after =>
    { thread with
      rename := after
      RegValid := thread.validAfter after e
      next_fetch_picode := next }

end Thread

/-- Nothing is attached. -/
def noShmseg : Fin MAX_SHMSEG → Sysv_shm := fun _ => ⟨false, 0, 0, 0⟩

namespace ProcessState

/-- `init_all_queues` and `init_process`. -/
def init : ProcessState where
  process := ⟨fun _ => [], [], 0x10000, []⟩
  aint_brk_address := START_DATA_ADDRESS
  memory := fun _ => 0
  textpage := fun _ => false
  num_pages := 0
  num_private := 0
  n_instructions := 0
  fields := ⟨0, 0, 0, 0, 0, 0, 0, 0, 0⟩
  threads := []

variable (p : ProcessState)

/-! ### Looking up addresses -/

/-- The lookup makes a new entry. -/
def misses (addr : UInt64) : Bool :=
  match (p.process.TB (TB_KEY (TB_VPAGE addr))).look (TB_TAG (TB_VPAGE addr)) with
  | .miss => (p.process.process_find_segment addr).isSome
  | _ => false

/-- Nothing, if the simulator stops. -/
def tlb_lookup (addr : UInt64) : Option (Option Mapping × ProcessState) :=
  match p.process.tlb_lookup noShmseg addr p.aint_brk_address with
  | .error _ => none
  | .ok (pg, process) =>
      if p.misses addr then
        let aint_brk_address := p.aint_brk_address + TB_PAGESIZE.toNat
        -- the memory for data is used up
        if START_CODE_ADDRESS ≤ aint_brk_address then none
        else
          some (pg, { p with
            process := process
            aint_brk_address := aint_brk_address
            num_pages := p.num_pages + 1
            num_private := p.num_private + 1 })
      else some (pg, { p with process := process })

/-- The physical address, if there is one. -/
def addr2phys (addr : UInt64) : Option (Option Nat × ProcessState) :=
  (p.tlb_lookup addr).map fun (pg, p) => (pg.map fun pg => pg.page + TB_OFFSET addr, p)

/-- Whether there is an instruction; its text page is made if need be. -/
def addr2iphys (addr : UInt64) : Option (Bool × ProcessState) :=
  (p.tlb_lookup addr).map fun (pg, p) =>
    match pg with
    | none => (false, p)
    | some pg => (true, { p with textpage := Function.update p.textpage pg.page true })

/-- Byte for byte; a write to `NULL` is an error. -/
def memcpy_to_object_space (addr : UInt64) : List UInt8 → ProcessState → Option ProcessState
  | [], p => some p
  | byte :: bytes, p =>
      (p.addr2phys addr).bind fun (phys, p) =>
        phys.bind fun phys =>
          memcpy_to_object_space (addr + 1) bytes
            { p with memory := Function.update p.memory phys byte }

/-- What decoding an instruction looks up, and what it puts in its place, if anything. -/
structure Decoded where
  targets : List UInt64
  word : Option (List UInt8)

section Decode

variable (decoded : ProcessState → UInt64 → Decoded)

def decode_instr (textaddr : UInt64) : Option ProcessState :=
  let d := decoded p textaddr
  (d.targets.foldlM (fun (p : ProcessState) addr => (p.addr2iphys addr).map Prod.snd)
    p).bind fun p =>
    match d.word with
    | none => some p
    | some word => memcpy_to_object_space textaddr word p

/-- The loop of `decode_text_region`. -/
def decodeLoop : Nat → UInt64 → ProcessState → Option ProcessState
  | 0, _, p => some p
  | n + 1, textaddr, p =>
      (p.addr2phys textaddr).bind fun (phys, p) =>
        phys.bind fun _ =>
          (p.addr2iphys (textaddr + 4)).bind fun (_, p) =>
            (p.decode_instr decoded textaddr).bind (decodeLoop n (textaddr + 4))

/-- From an address on, that many instructions. -/
def decode_text_region (start : UInt64) (n : Nat) : Option ProcessState :=
  (p.addr2iphys start).bind fun (_, p) =>
    decodeLoop decoded n start { p with n_instructions := p.n_instructions + n }

end Decode

/-! ### Writing -/

/-- `snapshot_page_descriptor_t`, and the page. -/
structure PageRecord where
  vpage : UInt64
  flags : UInt32
  prot : UInt32
  hastextpage : Bool
  page : Nat → UInt8

/-- `snapshot_thread_t`. -/
structure ThreadRecord where
  Reg : Nat → Int
  FirstFreePhysicalRegister : Int
  FirstFreeVectorPhysicalRegister : Int
  RegMap : LogicalRegNum → Nat
  pc : UInt64
  fields : ThreadFields

/-- `snapshot_process_t`, and what follows it in the file. -/
structure SnapshotFile where
  num_pages : Nat
  num_private : Nat
  Unsp_Shmat_Current : UInt64
  n_instructions : Nat
  fields : ProcessFields
  segments : List Segment
  pages : List PageRecord
  threads : List ThreadRecord

/-- The address of a page, from its tag and its bucket. -/
def vpageOf (tag : Int) (tbn : Nat) : UInt64 :=
  (UInt64.ofInt tag <<< 24) ||| (UInt64.ofNat tbn <<< 16)

def pageRecord (tbn : Nat) (tbe : Cell Int Mapping) : PageRecord where
  vpage := vpageOf tbe.key tbn
  flags := tbe.value.flags
  prot := tbe.value.prot
  hastextpage := p.textpage tbe.value.page
  page := fun i => p.memory (tbe.value.page + i)

/-- The entries of the translation buffer, bucket after bucket. -/
def entries : List PageRecord :=
  (List.range TB_SIZE).flatMap fun tbn => (p.process.TB tbn).map (p.pageRecord tbn)

/--
`num_pages` descriptors are sorted and written.  Nothing, if there are not that many
entries: then some are never filled in, or some are written behind the end.
-/
def snapshot_pages : Option (List PageRecord) :=
  if p.num_pages = p.entries.length then
    some (p.entries.insertionSort fun a b => a.vpage ≤ b.vpage)
  else none

def snapshot_thread (pthread : Thread) : ThreadRecord where
  Reg := pthread.rename.regs.Reg
  FirstFreePhysicalRegister := pthread.rename.regs.FirstFreePhysicalRegister
  FirstFreeVectorPhysicalRegister := pthread.rename.regs.FirstFreeVectorPhysicalRegister
  RegMap := pthread.rename.regs.RegMap
  pc := pthread.next_fetch_picode.getD 0
  fields := pthread.fields

def snapshot_process : Option SnapshotFile :=
  p.snapshot_pages.map fun pages =>
    { num_pages := p.num_pages
      num_private := p.num_private
      Unsp_Shmat_Current := p.process.Unsp_Shmat_Current
      n_instructions := p.n_instructions
      fields := p.fields
      segments := p.process.segments
      pages := pages
      threads := p.threads.map snapshot_thread }

/-! ### Reading -/

/-- The protection of the segment of an address. -/
def setProt (addr : UInt64) (f : UInt32 → UInt32) : ProcessState :=
  { p with process := { p.process with
      segments := p.process.segments.modify
        (p.process.segments.findIdx (segment_contains · addr)) fun segment =>
          { segment with prot := f segment.prot } } }

/-- A page is read in where a lookup puts it. -/
def readPage (phys : Nat) (page : Nat → UInt8) : ProcessState :=
  { p with memory := fun z =>
      if phys ≤ z ∧ z < phys + TB_PAGESIZE.toNat then page (z - phys) else p.memory z }

section Decode

variable (decoded : ProcessState → UInt64 → Decoded)

def restore_page (spd : PageRecord) : Option ProcessState :=
  (p.addr2phys spd.vpage).bind fun (phys, p) =>
    phys.bind fun phys =>
      let p := p.readPage phys spd.page
      if spd.hastextpage then
        (p.setProt spd.vpage (· ||| PROT_EXEC)).decode_text_region decoded spd.vpage
          (TB_PAGESIZE.toNat / 4)
      else some (p.setProt spd.vpage (· &&& ~~~PROT_EXEC))

def restore_pages (pages : List PageRecord) : Option ProcessState :=
  pages.foldlM (fun (p : ProcessState) spd => p.restore_page decoded spd) p

/-- The free vector registers and the validity bits are those of a new thread. -/
def restored (st : ThreadRecord) (next : Option UInt64) : Thread where
  rename := { RenameThread.init with
    regs :=
      { RegFile.init with
        Reg := st.Reg
        FirstFreePhysicalRegister := st.FirstFreePhysicalRegister
        RegMap := st.RegMap } }
  RegValid := Thread.init.RegValid
  next_fetch_picode := next
  fields := st.fields

def restore_thread (st : ThreadRecord) : Option ProcessState :=
  if st.pc ≠ 0 then
    (p.addr2iphys st.pc).map fun (found, p) =>
      { p with
        threads := p.threads ++ [restored st (if found then some st.pc else none)] }
  else some { p with threads := p.threads ++ [restored st none] }

def restore_threads (threads : List ThreadRecord) : Option ProcessState :=
  threads.foldlM restore_thread p

/--
The process after `init_main_thread`, with the fields of the file.  There was no segment that
had its entry point.
-/
def restore_fields (file : SnapshotFile) : ProcessState :=
  { init with
    num_pages := file.num_pages
    num_private := file.num_private
    n_instructions := file.n_instructions
    fields := file.fields
    process :=
      { init.process with
        Unsp_Shmat_Current := file.Unsp_Shmat_Current
        segments := file.segments.map fun segment =>
          { segment with prot := segment.prot &&& ~~~PROT_EXEC } } }

def restore_process (file : SnapshotFile) : Option ProcessState :=
  ((restore_fields file).restore_pages decoded file.pages).bind (·.restore_threads file.threads)

end Decode

/-! ### All that can happen to a process -/

inductive Event
  | process_add_segment (start size : UInt64) (prot flags : UInt32)
  | memcpy_to_object_space (addr : UInt64) (bytes : List UInt8)
  | addr2phys (addr : UInt64)
  | addr2iphys (addr : UInt64)
  | decode_text_region (start : UInt64) (n : Nat)
  | init_main_thread (entry_point : UInt64)
  | init_thread_addr_space (parent : Nat) (stack_end Stack_size : UInt64)
  | setMapReg (thread : Nat) (reg : LogicalRegNum) (value : Int)
  | setThread (thread : Nat) (fields : ThreadFields)
  | setProcess (fields : ProcessFields)
  | thread (thread : Nat) (e : RenameEvent) (next : Option UInt64)
  | restore

/-- A new thread has the registers of the one that makes it, and a stack of its own. -/
def init_thread_addr_space (parent : Nat) (stack_end Stack_size : UInt64) :
    Option ProcessState :=
  p.threads[parent]?.map fun pthread =>
    let child : Thread :=
      { Thread.init with
        rename := { RenameThread.init with regs := pthread.rename.regs }
        RegValid := pthread.RegValid
        fields := { Thread.init.fields with fpcr := pthread.fields.fpcr } }
    { p with
      process := p.process.process_add_segment (stack_end - Stack_size) Stack_size
        (PROT_READ ||| PROT_WRITE) MAP_PRIVATE
      threads := p.threads ++ [child.setMapReg SP stack_end.toInt64.toInt] }

def onThread (i : Nat) (f : Thread → Option Thread) : Option ProcessState :=
  (p.threads[i]?.bind f).map fun thread => { p with threads := p.threads.set i thread }

def init_main_thread (entry_point : UInt64) : Option ProcessState :=
  (p.addr2iphys entry_point).map fun (found, p) =>
    { p with
      fields := { p.fields with entry_point := entry_point }
      threads := [{ Thread.init with
        next_fetch_picode := if found then some entry_point else none }] }

variable (decoded : ProcessState → UInt64 → Decoded)

/-- A snapshot, and the process that a new run of the simulator makes of it. -/
def restart : Option ProcessState :=
  p.snapshot_process.bind (restore_process decoded)

def exec : Event → Option ProcessState
  | .process_add_segment start size prot flags =>
      some { p with process := p.process.process_add_segment start size prot flags }
  | .memcpy_to_object_space addr bytes => memcpy_to_object_space addr bytes p
  | .addr2phys addr => (p.addr2phys addr).map Prod.snd
  | .addr2iphys addr => (p.addr2iphys addr).map Prod.snd
  | .decode_text_region start n => p.decode_text_region decoded start n
  | .init_main_thread entry_point => p.init_main_thread entry_point
  | .init_thread_addr_space parent stack_end Stack_size =>
      p.init_thread_addr_space parent stack_end Stack_size
  | .setMapReg thread reg value => p.onThread thread fun t => some (t.setMapReg reg value)
  | .setThread thread fields => p.onThread thread fun t => some { t with fields := fields }
  | .setProcess fields => some { p with fields := fields }
  | .thread thread e next => p.onThread thread fun t => t.exec e next
  | .restore => p.restart decoded

/-! ### Runs -/

/-- The program is loaded, and no thread has an instruction in flight. -/
def quiet : Bool := !p.threads.isEmpty && p.threads.all fun t => t.rename.flight.isEmpty

/-- The entry point is in a segment, and a snapshot is made when nothing is in flight. -/
def legal : Event → Bool
  | .init_main_thread entry_point =>
      p.threads.isEmpty && (p.process.process_find_segment entry_point).isSome
  | .thread thread e _ => p.threads[thread]?.any fun t => t.rename.legal e
  | .restore => p.quiet
  | _ => true

def Start (p : ProcessState) : Prop := p = init

def Step (p q : ProcessState) : Prop := ∃ e, p.legal e = true ∧ p.exec decoded e = some q

/-! ### What a snapshot should restore, for the statement only -/

def byteAt (addr : UInt64) : Option UInt8 :=
  ((p.process.TB (TB_KEY (TB_VPAGE addr))).find? fun tbe => tbe.key = TB_TAG (TB_VPAGE addr)).map
    fun tbe => p.memory (tbe.value.page + TB_OFFSET addr)

def pageBytes (spd : PageRecord) : UInt64 × List UInt8 :=
  (spd.vpage, (List.range TB_PAGESIZE.toNat).map spd.page)

/-- A step of a thread, or one that looks up or changes memory. -/
def isStep : Event → Bool
  | .thread _ _ _ => true
  | .memcpy_to_object_space _ _ => true
  | .addr2phys _ => true
  | .addr2iphys _ => true
  | _ => false

/-- `q` is as good as `p`. -/
structure Restored (p q : ProcessState) : Prop where
  values : q.threads.map Thread.values = p.threads.map Thread.values
  next : q.threads.map Thread.next_fetch_picode = p.threads.map Thread.next_fetch_picode
  bytes : ∀ addr byte, p.byteAt addr = some byte → q.byteAt addr = some byte
  partition : ∀ thread ∈ q.threads, ∀ vec, ∃ free, thread.rename.Partition vec free
  valid : ∀ thread ∈ q.threads, ∀ reg, thread.RegValid (thread.rename.regs.RegMap reg) = true
  counted : q.num_pages = q.entries.length
  results : ∀ es : List Event, (∀ e ∈ es, isStep e = true) →
    (after (fun s => s.exec decoded) legal es q).map (fun s =>
      (s.threads.map Thread.view, s.byteAt)) =
      (after (fun s => s.exec decoded) legal es p).map fun s =>
        (s.threads.map Thread.view, s.byteAt)
  again : q.snapshot_pages.map (List.map pageBytes) = p.snapshot_pages.map (List.map pageBytes)

/-- A snapshot of the process can be made, and it restores the process. -/
def Restores : Prop := ∃ q, p.restart decoded = some q ∧ Restored decoded p q

end ProcessState

end AsimFeeder.Aint.Snapshot
