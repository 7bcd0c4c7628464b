/-
  The tool `proc_mem.c`: show bytes of a process, by ptrace and `/proc/<pid>/mem`.

  `main` is what the tool does, one effect for each call, for every outcome of its calls. The file,
  the process and the block are three things it holds (`Held`), and `releases_all` says that it
  gives all of them back, whichever call fails, and uses none that it does not hold.

  Nothing looks at what `read` returns: where it brings less than was asked for, the bytes are those
  of the new block. `memory_shown_iff`: what is shown is the memory exactly where all of it can be
  read, by one call.
-/
import LinuxSummary.Library.Strtol

namespace LinuxSummary.Zpage.ProcMem

open Strtol CInt

/-! ## The tool -/

def EXIT_SUCCESS : Nat := 0
def EXIT_FAILURE : Nat := 1

/-- The most that one `read` brings. -/
def MAX_RW_COUNT : Nat := 0x7ffff000

/-- What the calls come back with, and what was there before. -/
structure Outcomes where
  opens : Bool
  attaches : Bool
  waits : Bool
  seeks : Bool
  allocates : Bool
  /-- what the new block held -/
  block : Nat → UInt8
  /-- the memory of the process, where it can be read -/
  mem : Nat → Option UInt8
  /-- `addr` and `len` before `sscanf` -/
  addr : Int
  len : Int

inductive Effect
  | stdout (text : Text)
  | stderr (text : Text)
  | perror (call : Text)
  | opened
  | attached
  | allocated
  | read
  /-- the loop that prints `buf` -/
  | data (bytes : List UInt8)
  | freed
  | detached
  | closed
deriving DecidableEq

/-- `sscanf(s, "%lx", ..)` and, with its conversion, `%x`: none where there is no number. -/
def sscanfX (s : Text) : Option Nat :=
  if (takePrefix (takeSign (s.dropWhile isspace)).2 16).takeWhile (Numeral.isDigitOf 16) = [] then
    none
  else some (strtoull s 16)

/-- `read` of `/proc/<pid>/mem`, up to the first byte that cannot be read. -/
def memRead (mem : Nat → Option UInt8) (addr count : Nat) : List UInt8 :=
  (((List.range (min count MAX_RW_COUNT)).map fun i => mem (addr + i)).takeWhile
    Option.isSome).filterMap id

/-- `buf` behind `read`. -/
def buf (o : Outcomes) (addr len : Int) (i : Nat) : UInt8 :=
  (memRead o.mem (u64 addr) len.toNat).getD i (o.block i)

/-- `"Try to get [%d] 0x%lx (0x%x) bytes\n"` -/
def tryText (pid addr len : Int) : Text :=
  "Try to get [".toList ++ Printf.dec pid ++ "] 0x".toList ++ Printf.hex (u64 addr) ++
    " (0x".toList ++ Printf.hex (u32 len) ++ ") bytes\n".toList

/-- `"/proc/%u/mem"`: it fits into `fname` for each number. -/
def fname (pid : Int) : Text := "/proc/".toList ++ Printf.udec (u32 pid) ++ "/mem".toList

/-- `"[%d] 0x%lx data:\n"` -/
def dataText (pid addr : Int) : Text :=
  "[".toList ++ Printf.dec pid ++ "] 0x".toList ++ Printf.hex (u64 addr) ++ " data:\n".toList

/-- A negative `len` is more than any block has, as a `size_t`. -/
def showBytes (o : Outcomes) (pid addr len : Int) : List Effect :=
  if o.allocates = false ∨ len < 0 then [.perror "malloc".toList]
  else [.allocated, .read, .stdout (dataText pid addr),
    .data ((List.range len.toNat).map (buf o addr len)), .stdout "\n".toList, .freed]

/-- Behind `PTRACE_ATTACH`, to `out2`. -/
def peek (o : Outcomes) (pid addr len : Int) : List Effect :=
  (if o.waits = false then [.perror "waitpid".toList]
  else if o.seeks = false then [.perror "lseek".toList]
  else showBytes o pid addr len) ++ [.detached]

/-- Behind `open`, to `out`. -/
def trace (o : Outcomes) (pid addr len : Int) : List Effect :=
  (if o.attaches = false then [.perror "ptrace".toList] else .attached :: peek o pid addr len) ++
    [.closed]

/-- From `open` on: the status, and what was done. -/
def run (o : Outcomes) (pid addr len : Int) : Nat × List Effect :=
  if o.opens = false then
    (EXIT_FAILURE, [.stdout (tryText pid addr len), .perror "open".toList])
  else
    (EXIT_SUCCESS, .stdout (tryText pid addr len) :: .opened ::
      .stdout ("open ".toList ++ fname pid ++ " success\n".toList) :: trace o pid addr len)

def main (o : Outcomes) : List Text → Nat × List Effect
  | _ :: pid :: addr :: len :: _ =>
    run o (atoi pid) (((sscanfX addr).map fun n : Nat => int64 n).getD o.addr)
      (((sscanfX len).map fun n : Nat => int32 n).getD o.len)
  | argv =>
    (EXIT_FAILURE,
      [.stderr ("Usage: ".toList ++ argv.headD [] ++ " <pid> <addr> <len>\n".toList)])

/-! ## What the tool holds -/

structure Held where
  file : Bool
  process : Bool
  block : Bool
deriving DecidableEq

def nothing : Held := ⟨false, false, false⟩

/-- None: something is used or given back that is not held, or taken twice. -/
def Held.step (h : Held) : Effect → Option Held
  | .opened => if h.file then none else some { h with file := true }
  | .attached => if h.process then none else some { h with process := true }
  | .allocated => if h.block then none else some { h with block := true }
  | .read => if h.file && h.process && h.block then some h else none
  | .data _ => if h.block then some h else none
  | .freed => if h.block then some { h with block := false } else none
  | .detached => if h.process then some { h with process := false } else none
  | .closed => if h.file then some { h with file := false } else none
  | .stdout _ | .stderr _ | .perror _ => some h

/-- From one to the other. -/
def Leads (h : Held) (es : List Effect) (h' : Held) : Prop := es.foldlM Held.step h = some h'

theorem Leads.append {h h' : Held} (mid : Held) {es es' : List Effect} (hes : Leads h es mid)
    (hes' : Leads mid es' h') : Leads h (es ++ es') h' := by
  unfold Leads at *
  rw [List.foldlM_append, hes]
  exact hes'

section
variable (o : Outcomes) (pid addr len : Int)

theorem leads_showBytes :
    Leads ⟨true, true, false⟩ (showBytes o pid addr len) ⟨true, true, false⟩ := by
  unfold showBytes
  split <;> rfl

theorem leads_peek : Leads ⟨true, true, false⟩ (peek o pid addr len) ⟨true, false, false⟩ := by
  refine Leads.append ⟨true, true, false⟩ ?_ rfl
  split
  · rfl
  · split
    · rfl
    · exact leads_showBytes o pid addr len

theorem leads_trace : Leads ⟨true, false, false⟩ (trace o pid addr len) nothing := by
  refine Leads.append ⟨true, false, false⟩ ?_ rfl
  split
  · rfl
  · exact leads_peek o pid addr len

theorem leads_run : Leads nothing (run o pid addr len).2 nothing := by
  unfold run
  split
  · rfl
  · exact leads_trace o pid addr len

end

/-- **Whichever call fails, the tool ends with nothing in its hands**: it has closed the file,
    left the process and freed the block, each after its last use. -/
theorem releases_all (o : Outcomes) (argv : List Text) :
    Leads nothing (main o argv).2 nothing := by
  unfold main
  split
  · exact leads_run o _ _ _
  · rfl

/-! ## What is shown -/

/-- `"0x%x "` -/
def byteText (b : UInt8) : Text := "0x".toList ++ Printf.hex b.toNat ++ " ".toList

def Effect.text : Effect → Text
  | .stdout text => text
  | .data bytes => bytes.flatMap byteText
  | _ => []

/-- What is printed. -/
def output (es : List Effect) : Text := es.flatMap Effect.text

theorem byteText_append_inj {b b' : UInt8} {rest rest' : Text}
    (h : byteText b ++ rest = byteText b' ++ rest') : b = b' ∧ rest = rest' := by
  have hsplit (b : UInt8) (rest : Text) : byteText b ++ rest =
      "0x".toList ++ (Printf.hex b.toNat ++ ' ' :: rest) := by
    simp [byteText]
  have hblank (b : UInt8) : ' ' ∉ Printf.hex b.toNat := fun hmem => by
    obtain ⟨d, hd⟩ := Printf.digit_of_mem_hex hmem
    have hnone : Numeral.digitVal ' ' = none := rfl
    exact absurd (hnone.symm.trans hd) (by simp)
  rw [hsplit, hsplit] at h
  obtain ⟨hhex, hrest⟩ := Text.append_cons_inj (hblank b) (hblank b') (List.append_cancel_left h)
  exact ⟨UInt8.toNat_inj.mp (Numeral.toDigits_injective (by decide) (by decide) hhex), hrest⟩

/-- Bytes that are shown alike are the same. -/
theorem bytes_of_text {bytes bytes' : List UInt8} (hlen : bytes.length = bytes'.length)
    {rest rest' : Text}
    (h : bytes.flatMap byteText ++ rest = bytes'.flatMap byteText ++ rest') : bytes = bytes' := by
  induction bytes generalizing bytes' with
  | nil => exact (List.length_eq_zero_iff.mp hlen.symm).symm
  | cons b bytes ih =>
    cases bytes' with
    | nil => cases hlen
    | cons b' bytes' =>
      rw [List.flatMap_cons, List.flatMap_cons, List.append_assoc, List.append_assoc] at h
      obtain ⟨rfl, hrest⟩ := byteText_append_inj h
      rw [ih (Nat.succ.inj hlen) hrest]

theorem length_memRead_le (mem : Nat → Option UInt8) (addr count : Nat) :
    (memRead mem addr count).length ≤ MAX_RW_COUNT := by
  have htake := (List.takeWhile_sublist (p := Option.isSome)
    (l := (List.range (min count MAX_RW_COUNT)).map fun i => mem (addr + i))).length_le
  rw [List.length_map, List.length_range] at htake
  exact (List.length_filterMap_le ..).trans (htake.trans (min_le_right ..))

/-- Behind the most that is read, the block is as it was. -/
theorem buf_beyond (o : Outcomes) (addr len : Int) {i : Nat} (hi : MAX_RW_COUNT ≤ i) :
    buf o addr len i = o.block i := by
  have hlength := length_memRead_le o.mem (u64 addr) len.toNat
  rw [buf, List.getD_eq_getElem?_getD, List.getElem?_eq_none (hlength.trans hi), Option.getD_none]

theorem memRead_all {mem : Nat → Option UInt8} {addr count : Nat} {byte : Nat → UInt8}
    (hmem : ∀ i < count, mem (addr + i) = some (byte i)) (hcount : count ≤ MAX_RW_COUNT) :
    memRead mem addr count = (List.range count).map byte := by
  have hmap : ((List.range count).map fun i => mem (addr + i)) =
      (List.range count).map (some ∘ byte) :=
    List.map_congr_left fun i hi => hmem i (List.mem_range.mp hi)
  have hall : ∀ x ∈ (List.range count).map (some ∘ byte), x.isSome = true := by
    intro x hx
    obtain ⟨i, -, rfl⟩ := List.mem_map.mp hx
    rfl
  rw [memRead, min_eq_left hcount, hmap, List.takeWhile_eq_self_iff.mpr hall,
    List.filterMap_map]
  exact congrFun List.filterMap_eq_map _

/-- Where all can be read, the block has it. -/
theorem buf_all {o : Outcomes} {addr len : Nat} (haddr : addr < 2 ^ 63)
    (hsome : ∀ i < len, (o.mem (addr + i)).isSome = true) (hlen : len ≤ MAX_RW_COUNT) {i : Nat}
    (hi : i < len) : o.mem (addr + i) = some (buf o addr len i) := by
  have hmem : ∀ i < len, o.mem (addr + i) = some ((o.mem (addr + i)).getD 0) := fun i hi => by
    obtain ⟨b, hb⟩ := Option.isSome_iff_exists.mp (hsome i hi)
    rw [hb, Option.getD_some]
  have haddr' : u64 addr = addr := u64_of_nat (by omega)
  have hbuf : buf o addr len i = (o.mem (addr + i)).getD 0 := by
    have hread := memRead_all hmem hlen
    simp [buf, haddr', hread, hi]
  rw [hbuf]
  exact hmem i hi

theorem sscanfX_hex {n : Nat} (h : n < 2 ^ 64) : sscanfX (Printf.hex n) = some n := by
  have hall : (Printf.hex n).all (Numeral.isDigitOf 16) = true :=
    Numeral.toDigits_all (by decide) (by decide) n
  have hvalue : Numeral.value 16 (Printf.hex n) = n :=
    Numeral.value_toDigits (by decide) (by decide) n
  have hsign : IsSign [] false := .inr ⟨by simp, rfl⟩
  have hspace := dropWhile_sign hsign (Printf.hex_ne_nil n) hall
  have hsplit := takeSign_append hsign (Printf.hex_ne_nil n) hall
  have htake : (Printf.hex n).takeWhile (Numeral.isDigitOf 16) = Printf.hex n :=
    List.takeWhile_eq_self_iff.mpr (List.all_eq_true.mp hall)
  rw [List.nil_append] at hspace hsplit
  rw [sscanfX, hspace, hsplit, takePrefix_digits hall, htake, if_neg (Printf.hex_ne_nil n),
    strtoull_digits (Printf.hex_ne_nil n) hall (hvalue.trans_lt h)]
  exact congrArg some hvalue

/-- No call fails. -/
structure Outcomes.Succeed (o : Outcomes) : Prop where
  opens : o.opens = true
  attaches : o.attaches = true
  waits : o.waits = true
  seeks : o.seeks = true
  allocates : o.allocates = true

/-- The lines in front of the bytes. -/
def header (pid addr len : Int) : Text :=
  tryText pid addr len ++ ("open ".toList ++ fname pid ++ " success\n".toList) ++ dataText pid addr

/-- What is typed is what is meant. -/
theorem main_typed (o : Outcomes) (name : Text) {pid addr len : Nat} (hpid : pid < 2 ^ 31)
    (haddr : addr < 2 ^ 63) (hlen : len < 2 ^ 31) :
    main o [name, Printf.udec pid, Printf.hex addr, Printf.hex len] = run o pid addr len := by
  have haddr' : int64 addr = addr := int64_of_range (by omega) (by omega)
  rw [main, atoi_udec hpid, sscanfX_hex (by omega), sscanfX_hex (by omega), Option.map_some,
    Option.map_some, Option.getD_some, Option.getD_some, haddr', int32_of_nat hlen]

theorem output_run {o : Outcomes} (ho : o.Succeed) (pid addr : Int) (len : Nat) :
    output (run o pid addr len).2 = header pid addr len ++
      (((List.range len).map (buf o addr len)).flatMap byteText ++ "\n".toList) := by
  have hnot : ¬ (o.allocates = false ∨ (len : Int) < 0) := by
    simp [ho.allocates]
  simp only [run, ho.opens, trace, ho.attaches, peek, ho.waits, ho.seeks, showBytes, hnot,
    Bool.true_eq_false, if_false, Int.toNat_natCast, output, List.flatMap_cons, List.cons_append,
    List.nil_append, List.flatMap_nil, Effect.text, header, List.append_assoc, List.append_nil]

/-- What is shown is what the process has at the address. -/
def Shows (o : Outcomes) (name : Text) (pid addr len : Nat) : Prop :=
  ∃ bytes : List UInt8, bytes.length = len ∧ (∀ i < len, o.mem (addr + i) = bytes[i]?) ∧
    output (main o [name, Printf.udec pid, Printf.hex addr, Printf.hex len]).2 =
      header pid addr len ++ (bytes.flatMap byteText ++ "\n".toList)

/-- The buffer is what is shown, so it is what the process has. -/
theorem shows_iff_buf {o : Outcomes} (ho : o.Succeed) (name : Text) {pid addr len : Nat}
    (hpid : pid < 2 ^ 31) (haddr : addr < 2 ^ 63) (hlen : len < 2 ^ 31) :
    Shows o name pid addr len ↔ ∀ i < len, o.mem (addr + i) = some (buf o addr len i) := by
  unfold Shows
  rw [main_typed o name hpid haddr hlen, output_run ho]
  constructor
  · rintro ⟨bytes, hbytes, hmem, hshown⟩ i hi
    have heq := bytes_of_text (by simp [hbytes]) (List.append_cancel_left hshown)
    rw [hmem i hi, ← heq, List.getElem?_map, List.getElem?_range hi, Option.map_some]
  · intro hmem
    refine ⟨(List.range len).map (buf o addr len), by simp, fun i hi => ?_, rfl⟩
    rw [hmem i hi, List.getElem?_map, List.getElem?_range hi, Option.map_some]

/-- **The memory is shown, whatever the new block held, exactly when all of it can be read and one
    `read` brings so much.** -/
theorem memory_shown_iff (o : Outcomes) (ho : o.Succeed) (name : Text) (pid addr len : Nat)
    (hpid : pid < 2 ^ 31) (haddr : addr < 2 ^ 63) (hlen : len < 2 ^ 31) :
    (∀ block, Shows { o with block := block } name pid addr len) ↔
      len ≤ MAX_RW_COUNT ∧ ∀ i < len, (o.mem (addr + i)).isSome = true := by
  have hbuf (block : Nat → UInt8) := @shows_iff_buf { o with block := block }
    ⟨ho.opens, ho.attaches, ho.waits, ho.seeks, ho.allocates⟩ name pid addr len hpid haddr hlen
  constructor
  · intro h
    have hsome : ∀ i < len, (o.mem (addr + i)).isSome = true := fun i hi =>
      Option.isSome_iff_exists.mpr ⟨_, (hbuf fun _ => 0).mp (h _) i hi⟩
    refine ⟨?_, hsome⟩
    by_contra hmany
    have hmany : MAX_RW_COUNT < len := by omega
    obtain ⟨b, hb⟩ := Option.isSome_iff_exists.mp (hsome MAX_RW_COUNT hmany)
    -- the block held something else behind the last byte that is read
    have hlast := (hbuf fun _ => b + 1).mp (h _) MAX_RW_COUNT hmany
    rw [hb, buf_beyond _ _ _ le_rfl] at hlast
    simp at hlast
  · rintro ⟨hmax, hsome⟩ block
    exact (hbuf block).mpr fun i hi => @buf_all { o with block := block } _ _ haddr hsome hmax _ hi

/-- A process whose memory ends at 0x3000. -/
def atEnd : Outcomes where
  opens := true
  attaches := true
  waits := true
  seeks := true
  allocates := true
  block := fun _ => 0
  mem := fun a => if a < 0x3000 then some (UInt8.ofNat a) else none
  addr := 0
  len := 0

/-- The third of four bytes lies behind the end. -/
theorem memory_shown_iff_atEnd :
    ¬ ∀ block, Shows { atEnd with block := block } "proc_mem".toList 7 0x2ffe 4 := by
  rw [memory_shown_iff atEnd ⟨rfl, rfl, rfl, rfl, rfl⟩ _ 7 0x2ffe 4 (by decide) (by decide)
    (by decide)]
  intro h
  exact absurd (h.2 2 (by decide)) (by decide)

end LinuxSummary.Zpage.ProcMem
