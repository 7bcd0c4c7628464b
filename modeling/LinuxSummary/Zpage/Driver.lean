/-
  The character device `zpage.c`.

  `my_ioctl` looks a task up and prints about its memory into the page `mmap_data`, which the
  user has mapped, or copies some of that memory into it. The target's memory is reached
  through one `kmap` of the page `walk_task_page` finds, so what the driver reads are the
  bytes that lie physically behind that page's first ones.

  The page tables are functions from an index to an entry. `ram` is physical memory as the
  kernel's linear mapping shows it, `buf` the memory from `mmap_data` on. They are apart: no
  target has the page of the buffer mapped, and a copy whose source runs on into the frame of the
  buffer, or whose destination runs on into that of a target, is not covered. A use of a missing
  task, `mm` or page, or of an address without memory is an `oops`. The offsets that were written
  in the buffer are recorded in `touched`.
-/
import LinuxSummary.Library.ForLoop
import LinuxSummary.Library.Printf
import LinuxSummary.Library.Strtol

namespace LinuxSummary.Zpage

open CInt ForLoop

def PAGE_SIZE : Nat := 4096
def MMAP_LEN : Nat := 4096
def INT_MAX : Nat := 2 ^ 31 - 1
def EFAULT : Int := 14

/-! ## Page tables -/

/-- A PTE: its present bit, and the frame its number field says, whatever it says. -/
structure Pte where
  present : Bool
  frame : Nat

/-- An entry of the three upper levels. `odd` is an entry that is neither all zero, nor a normal
    table, nor a large page; the processor may still follow it to a table. -/
inductive Entry (α : Type)
  | none
  | table (next : α)
  | large (frame : Nat)
  | odd (next : Option α)

abbrev PteTable := Nat → Pte
abbrev PmdTable := Nat → Entry PteTable
abbrev PudTable := Nat → Entry PmdTable
abbrev PgdTable := Nat → Entry PudTable

/-- `pgd_none`, `pud_none`, `pmd_none` -/
def Entry.isNone {α : Type} : Entry α → Bool
  | .none => true
  | _ => false

/-- `pgd_bad`, `pud_bad`, `pmd_bad` -/
def Entry.isBad {α : Type} : Entry α → Bool
  | .table _ => false
  | _ => true

/-- `pud_offset`, `pmd_offset`, `pte_offset_map`: the table behind a checked entry. -/
def Entry.offset {α : Type} (e : Entry α) : Option α :=
  if e.isNone || e.isBad then Option.none
  else match e with
    | .table next => some next
    | _ => Option.none

/-- The table that the processor goes on with. -/
def Entry.follow {α : Type} : Entry α → Option α
  | .table next => some next
  | .odd next => next
  | _ => Option.none

def pgdIndex (addr : UInt64) : Nat := addr.toNat / 2 ^ 39 % 512
def pudIndex (addr : UInt64) : Nat := addr.toNat / 2 ^ 30 % 512
def pmdIndex (addr : UInt64) : Nat := addr.toNat / 2 ^ 21 % 512
def pteIndex (addr : UInt64) : Nat := addr.toNat / 2 ^ 12 % 512

/-- `addr & (PAGE_SIZE - 1)` -/
def offsetInPage (addr : UInt64) : Nat := addr.toNat % PAGE_SIZE

theorem toNat_add_ofNat {addr : UInt64} {i : Nat} (h : addr.toNat + i < 2 ^ 64) :
    (addr + UInt64.ofNat i).toNat = addr.toNat + i := by
  rw [UInt64.toNat_add, UInt64.toNat_ofNat_of_lt' (show i < 2 ^ 64 by omega), Nat.mod_eq_of_lt h]

structure Vma where
  vmStart : UInt64
  vmEnd : UInt64

/-- The fields of `struct mm_struct` that are read. -/
structure Mm where
  pgd : PgdTable
  startStack : UInt64
  startCode : UInt64
  endCode : UInt64
  startData : UInt64
  endData : UInt64
  totalVm : UInt64
  argStart : UInt64
  argEnd : UInt64
  mapCount : Int
  mmap : List Vma

/-- A kernel thread has no `mm`. -/
structure Task where
  mm : Option Mm

/-- The frame of the page, if the walk finds one. -/
def walkTaskPage (mm : Mm) (addr : UInt64) : Option Nat :=
  (mm.pgd (pgdIndex addr)).offset.bind fun pud =>
  (pud (pudIndex addr)).offset.bind fun pmd =>
  (pmd (pmdIndex addr)).offset.bind fun ptes =>
  some (ptes (pteIndex addr)).frame

/-- Bits 47 to 63 of the address are all equal. -/
def Canonical (addr : UInt64) : Prop := addr.toNat < 2 ^ 47 ∨ 2 ^ 64 - 2 ^ 47 ≤ addr.toNat

instance (addr : UInt64) : Decidable (Canonical addr) :=
  inferInstanceAs (Decidable (_ ∨ _))

/-- The frame in which the processor finds the address, if that is a page of 4 KiB. -/
def hardwareFrame (mm : Mm) (addr : UInt64) : Option Nat :=
  if Canonical addr then
    (mm.pgd (pgdIndex addr)).follow.bind fun pud =>
    (pud (pudIndex addr)).follow.bind fun pmd =>
    (pmd (pmdIndex addr)).follow.bind fun ptes =>
    if (ptes (pteIndex addr)).present then some (ptes (pteIndex addr)).frame else none
  else none

/-! ## The buffer -/

/-- What a request changes. -/
structure Kern where
  ram : Int → Option UInt8
  buf : Int → UInt8
  touched : List Int

/-- A byte of the buffer is written. -/
def Kern.store (k : Kern) (offset : Int) (b : UInt8) : Kern :=
  { k with buf := Function.update k.buf offset b, touched := k.touched ++ [offset] }

/-- Bytes of the buffer are written one after another. -/
def Kern.storeAll (k : Kern) (offset : Int) : List UInt8 → Kern
  | [] => k
  | b :: bs => (k.store offset b).storeAll (offset + 1) bs

def ascii (text : Text) : List UInt8 := text.map fun c => UInt8.ofNat c.toNat

/-- `snprintf(mmap_data + offset, size, ..)` of the text, and what it returns. -/
def snprintf (k : Kern) (offset : Int) (size : Nat) (text : Text) : Kern × Int :=
  if INT_MAX < size then (k, 0)
  else if size = 0 then (k, text.length)
  else (k.storeAll offset (ascii (text.take (size - 1)) ++ [0]), text.length)

/-- `r += snprintf(buf + r, MMAP_LEN - r, ..)` -/
def printOn (st : Kern × Int) (text : Text) : Kern × Int :=
  let done := snprintf st.1 st.2 (u64 (int32 (MMAP_LEN - st.2))) text
  (done.1, int32 (st.2 + done.2))

/-- `*(char *)(buf + r) = 0` -/
def terminate (st : Kern × Int) : Kern := st.1.store st.2 0

/-! ## The requests -/

/-- How a request ends. -/
inductive Outcome
  | ret (r : Int)
  | oops
  | running
deriving DecidableEq

/-- The address of `p + offset`, where `p` is the mapped page. -/
def physical (frame : Nat) (addr : UInt64) : Int := frame * PAGE_SIZE + offsetInPage addr

/-- `"0x%0x "` -/
def argText (b : UInt8) : Text := "0x".toList ++ Printf.hex b.toNat ++ " ".toList

/-- `"vma start:0x%lx end:0x%lx\n"` -/
def vmaText (vma : Vma) : Text :=
  "vma start:0x".toList ++ Printf.hex vma.vmStart.toNat ++ " end:0x".toList ++
    Printf.hex vma.vmEnd.toNat ++ "\n".toList

/-- `"map_count:%d\n"` -/
def mapCountText (mm : Mm) : Text :=
  "map_count:".toList ++ Printf.dec (int32 mm.mapCount) ++ "\n".toList

/-- The four texts of `ZPAGE_GET_MM_INFO`. -/
def mmTexts (mm : Mm) : List Text :=
  ["start_stack:0x".toList ++ Printf.hex mm.startStack.toNat ++ "\n".toList,
    "start_code:0x".toList ++ Printf.hex mm.startCode.toNat ++ " end_code:0x".toList ++
      Printf.hex mm.endCode.toNat ++ "\n".toList,
    "start_data:0x".toList ++ Printf.hex mm.startData.toNat ++ " end_data:0x".toList ++
      Printf.hex mm.endData.toNat ++ "\n".toList,
    "total_vm:".toList ++ Printf.udec mm.totalVm.toNat ++ " arg_start:0x".toList ++
      Printf.hex mm.argStart.toNat ++ " arg_end:0x".toList ++ Printf.hex mm.argEnd.toNat ++
      "\n".toList]

/-- `i <= task->mm->arg_end - task->mm->arg_start`, compared as `unsigned long`. -/
def argsCond (mm : Mm) (i : Int) : Bool := u64 i ≤ (mm.argEnd - mm.argStart).toNat

def argsBody (ram : Int → Option UInt8) (p : Int) (i : Int) (st : Kern × Int) :
    Option (Kern × Int) :=
  (ram (p + i)).map fun b => printOn st (argText b)

def taskGetArgs (fuel : Nat) (mm : Mm) (k : Kern) : Outcome × Kern :=
  match walkTaskPage mm mm.argStart with
  | none => (.oops, k)
  | some page =>
    match forLoop (argsCond mm) (argsBody k.ram (physical page mm.argStart)) fuel (k, 0) with
    | .ended st => (.ret st.2, terminate st)
    | .fault st => (.oops, st.1)
    | .running st => (.running, st.1)

/-- `*(char *)(buf + i) = *(char *)(p + offset + i)` -/
def copyBody (ram : Int → Option UInt8) (p : Int) (i : Int) (k : Kern) : Option Kern :=
  (ram (p + i)).map fun b => k.store i b

/-- The copy loops of `task_get_data` and `task_get_addr_region`. -/
def copyLoop (cond : Int → Bool) (p : Int) (r : Int) (fuel : Nat) (k : Kern) : Outcome × Kern :=
  match forLoop cond (copyBody k.ram p) fuel k with
  | .ended k' => (.ret r, k')
  | .fault k' => (.oops, k')
  | .running k' => (.running, k')

def taskGetData (fuel : Nat) (mm : Mm) (k : Kern) : Outcome × Kern :=
  let r := int32 (mm.endData - mm.startData).toNat
  match walkTaskPage mm mm.startData with
  | none => (.oops, k)
  | some page => copyLoop (fun i => i < r) (physical page mm.startData) r fuel k

def taskGetAddrRegion (fuel : Nat) (mm : Mm) (start end_ : UInt64) (k : Kern) :
    Outcome × Kern :=
  let r := int32 (end_ - start).toNat
  match walkTaskPage mm start with
  | none => (.oops, k)
  | some page => copyLoop (fun i => i ≤ r) (physical page start) r fuel k

/-- `struct zpage_region` -/
structure Region where
  pid : UInt32
  addr : UInt64

/-- `struct zpage_addr_region` -/
structure AddrRegion where
  pid : UInt32
  startAddr : UInt64
  endAddr : UInt64

/-- A command with its argument. Where the argument is a pointer, this is what
    `copy_from_user` gets there, if it succeeds. -/
inductive Request
  | ZPAGE_GET_MM_INFO (arg : UInt64)
  | ZPAGE_GET_VMA_INFO (arg : UInt64)
  | ZPAGE_GET_PID_ARGS (arg : UInt64)
  | ZPAGE_GET_PID_DATA (arg : UInt64)
  | ZPAGE_GET_ADDR_REGION (argp : Option AddrRegion)
  | ZPAGE_GET_PID_ADDR (argp : Option Region)
  | unknown (cmd : UInt32)

/-- The four bytes of an `int` at an address, little-endian. -/
def readWord (ram : Int → Option UInt8) (p : Int) : Option Nat :=
  match ram p, ram (p + 1), ram (p + 2), ram (p + 3) with
  | some b0, some b1, some b2, some b3 =>
    some (b0.toNat + 2 ^ 8 * b1.toNat + 2 ^ 16 * b2.toNat + 2 ^ 24 * b3.toNat)
  | _, _, _, _ => none

/-- `*(int *)(p + offset) = 0x12345678` -/
def writeWord (ram : Int → Option UInt8) (p : Int) : Int → Option UInt8 :=
  Function.update (Function.update (Function.update (Function.update ram p (some 0x78))
    (p + 1) (some 0x56)) (p + 2) (some 0x34)) (p + 3) (some 0x12)

/-- `pid_task(find_vpid(nr), PIDTYPE_PID)`, where `nr` is an `int`. -/
abbrev Tasks := Int → Option Task

def pidTask (tasks : Tasks) (nr : Nat) : Option Task := tasks (int32 nr)

/-- The task and its `mm` are used without a check. -/
def withMm (task : Option Task) (k : Kern) (f : Mm → Outcome × Kern) : Outcome × Kern :=
  match task with
  | none => (.oops, k)
  | some task =>
    match task.mm with
    | none => (.oops, k)
    | some mm => f mm

/-- `if (!task) goto out` -/
def orFault (task : Option Task) (k : Kern) (f : Task → Outcome × Kern) : Outcome × Kern :=
  match task with
  | none => (.ret (-EFAULT), k)
  | some task => f task

/-- The `mm` of the task with the number, if both are there. -/
def mmOf (tasks : Tasks) (nr : Nat) : Option Mm := (pidTask tasks nr).bind Task.mm

theorem mmOf_ne_some {tasks : Tasks} {nr : Nat} (h : pidTask tasks nr = none) (mm : Mm) :
    mmOf tasks nr ≠ some mm := by
  unfold mmOf
  rw [h]
  simp

theorem withMm_pidTask (tasks : Tasks) (nr : Nat) (k : Kern) (f : Mm → Outcome × Kern) :
    withMm (pidTask tasks nr) k f = match mmOf tasks nr with
      | none => (.oops, k)
      | some mm => f mm := by
  unfold withMm mmOf
  cases pidTask tasks nr with
  | none => rfl
  | some task => cases task.mm <;> rfl

theorem orFault_pidTask (tasks : Tasks) (nr : Nat) (k : Kern) (f : Mm → Outcome × Kern) :
    (orFault (pidTask tasks nr) k fun task => withMm (some task) k f) =
      if pidTask tasks nr = none then (.ret (-EFAULT), k)
      else withMm (pidTask tasks nr) k f := by
  unfold orFault
  cases pidTask tasks nr <;> rfl

/-- The texts are printed one after another, then a NUL. -/
def printAll (texts : List Text) (k : Kern) : Outcome × Kern :=
  let st := texts.foldl printOn (k, 0)
  (.ret st.2, terminate st)

/-- `ZPAGE_GET_PID_ADDR` from the walk on. -/
def pidAddr (mm : Mm) (addr : UInt64) (k : Kern) : Outcome × Kern :=
  match walkTaskPage mm addr with
  | none => (.oops, k)
  | some page =>
    match readWord k.ram (physical page addr) with
    | none => (.oops, k)
    | some word => (.ret (int32 word), { k with ram := writeWord k.ram (physical page addr) })

/-- `my_ioctl` from the state in which nothing of the buffer was written. -/
def ioctl (fuel : Nat) (tasks : Tasks) (k : Kern) : Request → Outcome × Kern
  | .ZPAGE_GET_MM_INFO arg =>
    orFault (pidTask tasks arg.toNat) k fun task =>
      withMm (some task) k fun mm => printAll (mmTexts mm) k
  | .ZPAGE_GET_VMA_INFO arg =>
    orFault (pidTask tasks arg.toNat) k fun task =>
      withMm (some task) k fun mm => printAll (mapCountText mm :: mm.mmap.map vmaText) k
  | .ZPAGE_GET_PID_ARGS arg =>
    orFault (pidTask tasks arg.toNat) k fun task =>
      withMm (some task) k fun mm => taskGetArgs fuel mm k
  | .ZPAGE_GET_PID_DATA arg =>
    withMm (pidTask tasks arg.toNat) k fun mm => taskGetData fuel mm k
  | .ZPAGE_GET_ADDR_REGION none => (.ret (-EFAULT), k)
  | .ZPAGE_GET_ADDR_REGION (some addrRegion) =>
    withMm (pidTask tasks addrRegion.pid.toNat) k fun mm =>
      taskGetAddrRegion fuel mm addrRegion.startAddr addrRegion.endAddr k
  | .ZPAGE_GET_PID_ADDR none => (.ret (-EFAULT), k)
  | .ZPAGE_GET_PID_ADDR (some zpage) =>
    withMm (pidTask tasks zpage.pid.toNat) k fun mm => pidAddr mm zpage.addr k
  | .unknown _ => (.ret (-EFAULT), k)

/-- The state before a request. -/
def idle (ram : Int → Option UInt8) (buf : Int → UInt8) : Kern := ⟨ram, buf, []⟩

/-- A request to the driver. -/
def myIoctl (fuel : Nat) (tasks : Tasks) (ram : Int → Option UInt8) (buf : Int → UInt8)
    (request : Request) : Outcome × Kern :=
  ioctl fuel tasks (idle ram buf) request

/-! ## A machine with one task -/

/-- Page tables that map every page, to the frame of its number in the last table. -/
def flatPgd : PgdTable := fun _ => .table fun _ => .table fun _ => .table fun i => ⟨true, i⟩

/-- A task with a data segment and arguments. -/
def flatMm (startData endData argStart argEnd : UInt64) : Mm :=
  ⟨flatPgd, 0, 0, 0, startData, endData, 0, argStart, argEnd, 0, []⟩

/-- Memory where each byte is the lowest byte of its address. -/
def numbered (p : Int) : Option UInt8 := some (UInt8.ofInt p)

end LinuxSummary.Zpage
