/-
  The files of `zproc.c` and the script `get_pid_va.py`.

  The module is a server with two variables: a write to `mminfo` or `physvalue` sets one, a
  read prints what is found under it. The script is a program in dialogue with it: it writes
  the pid, takes the address of the top table from the answer, and five times writes a
  physical address and reads the word there.

  `physvalue` shows the word at an address (`Cell.word`), an error if there is no page to it
  (`noPage`), and kills its reader where the kernel has no memory mapped (`noMemory`). The
  script is taken as a program of Python 3, where `hex` is the prefix and the digits whatever
  the size of the number.
-/
import LinuxSummary.Zproc.ProcWrite
import LinuxSummary.Library.Pattern
import LinuxSummary.Library.Dialogue

namespace LinuxSummary.Zproc

open Strtol CInt Prog

/-! ## The module -/

/-- The fields of `struct mm_struct` that are printed, and what `virt_to_phys` says of `pgd`. -/
structure Mm where
  mapCount : Int
  pgd : UInt64
  pgdPa : UInt64
  pgdValue : UInt64
  startBrk : UInt64
  brk : UInt64
  startStack : UInt64
  totalVm : UInt64
  dataVm : UInt64

structure Task where
  comm : Text
  activeMm : Option Mm
  /-- as `\w` is taken here -/
  comm_ascii : ∀ c ∈ comm, c.toNat < 128

/-- What the kernel finds at a physical address. -/
inductive Cell
  | noPage
  | noMemory
  | word (w : UInt64)

structure Kernel where
  tasks : Int → Option Task
  cell : Nat → Cell
  /-- the stack behind the buffer of the write functions -/
  beyond : Text

/-- The static variables. -/
structure Vars where
  pid : Int
  phys : Int

/-- The lines about a task. -/
def mmLines (mm : Mm) : Text :=
  "map_count:".toList ++ Printf.dec (int32 mm.mapCount) ++ " pgd:".toList ++
    Numeral.padLeft 16 (Printf.hex mm.pgd.toNat) ++ " pgd pa:0x".toList ++
    Printf.hex mm.pgdPa.toNat ++ " pgd value:0x".toList ++ Printf.hex mm.pgdValue.toNat ++
    "\nstart_brk:0x".toList ++ Printf.hex mm.startBrk.toNat ++ " brk:0x".toList ++
    Printf.hex mm.brk.toNat ++ " start_stack:0x".toList ++ Printf.hex mm.startStack.toNat ++
    "\ntotal_vm:0x".toList ++ Printf.hex mm.totalVm.toNat ++ " data_vm:0x".toList ++
    Printf.hex mm.dataVm.toNat ++ "\n".toList

/-- The text of a read; none where the reader is killed. -/
def mminfoShow (k : Kernel) (pid : Int) : Option Text :=
  if pid = 0 then some ("pid:".toList ++ Printf.dec pid ++ "\n".toList)
  else match k.tasks (int32 pid) with
    | none => some ("pid:".toList ++ Printf.dec pid ++ " find task error\n".toList)
    | some task =>
      match task.activeMm with
      | none => none
      | some mm =>
        some ("pid:".toList ++ Printf.dec pid ++ " comm:".toList ++ task.comm ++ "\n".toList ++
          mmLines mm)

def physValueShow (k : Kernel) (phys : Int) : Option Text :=
  match k.cell (u64 phys) with
  | .noPage => some ("0x".toList ++ Printf.hex (u64 phys) ++ " pfn_to_page error\n".toList)
  | .noMemory => none
  | .word w =>
    some ("0x".toList ++ Printf.hex (u64 phys) ++ ":0x".toList ++ Printf.hex w.toNat ++
      "\n".toList)

/-- One access to a file of `/proc/zproc`. -/
inductive Ask
  | writeMminfo (buf : Text)
  | readMminfo
  | writePhysvalue (buf : Text)
  | readPhysvalue

abbrev Ask.Reply : Ask → Type
  | .writeMminfo _ => Unit
  | .readMminfo => Option Text
  | .writePhysvalue _ => Unit
  | .readPhysvalue => Option Text

def serve (k : Kernel) : (q : Ask) → Vars → q.Reply × Vars
  | .writeMminfo buf, s => ((), { s with pid := (mminfoWrite s.pid k.beyond true buf).stored })
  | .readMminfo, s => (mminfoShow k s.pid, s)
  | .writePhysvalue buf, s =>
    ((), { s with phys := (physValueWrite s.phys k.beyond true buf).stored })
  | .readPhysvalue, s => (physValueShow k s.phys, s)

/-! ## The script -/

inductive Exn
  | killed
  | indexError
  | valueError
deriving DecidableEq

abbrev Py (α : Type) := Prog Ask Ask.Reply Exn α

def isSpace (c : Char) : Bool := c = ' ' || c = '\n' || c = '\t' || c = '\r'

/-- `int(s, 16)` of a text without a sign. A `_` may stand between two digits, and between the
    prefix and the first. -/
def pyInt16 (s : Text) : Option Nat :=
  let s := (s.dropWhile isSpace).rdropWhile isSpace
  let digits := fixupRadix s 16
  let groups := digits.splitOn '_'
  if (groups.head? = some [] ∧ digits = s) ∨ [] ∈ groups.tail then none
  else Numeral.readDigits 16 groups.flatten

/-- `int(out.split(':')[1], 16)` -/
def secondField (out : Text) : Except Exn Nat :=
  match (out.splitOn ':')[1]? with
  | none => .error .indexError
  | some field =>
    match pyInt16 field with
    | none => .error .valueError
    | some value => .ok value

/-- `\w` -/
def isWordChar (c : Char) : Bool := c.isAlphanum || c = '_'

/-- `pgd pa:0x(\w+)` -/
def pgdPaPattern : List Pattern.Atom := Pattern.lit "pgd pa:0x".toList ++ [.plus isWordChar]

/-- `cr3`, from the answer of `mminfo`. -/
def cr3Of (out : Text) : Except Exn Nat :=
  match Pattern.search pgdPaPattern out with
  | none => .ok 0
  | some found => secondField found.whole

/-- The indices and the offset of a virtual address. -/
structure Pte where
  pml4 : Nat
  dirPtr : Nat
  dir : Nat
  table : Nat
  offset : Nat

def getX86Pte (va : Int) : Pte :=
  let va := (va % 2 ^ 48).toNat
  ⟨va >>> 39 &&& 511, va >>> 30 &&& 511, va >>> 21 &&& 511, va >>> 12 &&& 511, va &&& 4095⟩

/-- `value & clear_mask` -/
def clear (value : Nat) : Nat := (value >>> 12) <<< 12

/-- `hex(n)`, `"0x{0:x}".format(n)` -/
def hexText (n : Nat) : Text := "0x".toList ++ Printf.hex n

/-- What a step makes of the answer to its read. -/
def answered (pa : Nat) : Option Text → Py (Nat × Nat)
  | none => .throw .killed
  | some out =>
    match secondField out with
    | .error e => .throw e
    | .ok value => .ret (pa, value)

/-- Write an address, read the word there. -/
def physValue (pa : Nat) : Py (Nat × Nat) :=
  .ask (.writePhysvalue (hexText pa)) fun _ => .ask .readPhysvalue (answered pa)

/-- Steps 1 to 4. -/
def tableStep (value index : Nat) : Py (Nat × Nat) := physValue (clear value ||| index <<< 3)

/-- Step 5. -/
def lastStep (value offset : Nat) : Py (Nat × Nat) :=
  physValue ((clear value ||| offset) &&& 0xffffffff)

/-- What the script prints: `cr3`, and the address and the word of each step. -/
structure Report where
  cr3 : Nat
  steps : List (Nat × Nat)
deriving DecidableEq

def walk (cr3 : Nat) (pte : Pte) : Py Report :=
  tableStep cr3 pte.pml4 >>= fun r1 =>
  tableStep r1.2 pte.dirPtr >>= fun r2 =>
  tableStep r2.2 pte.dir >>= fun r3 =>
  tableStep r3.2 pte.table >>= fun r4 =>
  lastStep r4.2 pte.offset >>= fun r5 =>
  .ret ⟨cr3, [r1, r2, r3, r4, r5]⟩

/-- What the script does with the answer of `mminfo`. -/
def fromMminfo (va : Int) : Option Text → Py Report
  | none => .throw .killed
  | some out =>
    match cr3Of out with
    | .error e => .throw e
    | .ok cr3 => walk cr3 (getX86Pte va)

def main (pid va : Int) : Py Report :=
  .ask (.writeMminfo (Printf.dec pid)) fun _ => .ask .readMminfo (fromMminfo va)

end LinuxSummary.Zproc
