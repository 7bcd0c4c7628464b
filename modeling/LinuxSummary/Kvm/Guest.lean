/-
  The guests of `kvm_run_test1.c` and `kvm_run_test2.c`.

  A guest is machine code in one page of memory, run by the processor of `Library/RealMode`; what
  its `KVM_RUN` calls come back with feeds the loop of `Kvm/RunLoop`. `prints_of_halts` connects the
  two: a run that halts puts its bytes on stdout, in order, and the monitor returns 0.
-/
import LinuxSummary.Kvm.RunLoop
import LinuxSummary.Library.RealMode

namespace LinuxSummary.Kvm

open RealMode

/-! ## The virtual machine -/

/-- `region.memory_size` -/
def memorySize : Nat := 0x1000

/-- `region.guest_phys_addr`, which is `regs.rip` as well. -/
def Monitor.guestPhysAddr : Monitor → Nat
  | .kvmRunTest1 => 0x1000
  | .kvmRunTest2 => 0

/-- `mem`, which `mmap` filled with zeros, after `memcpy(mem, code, …)`. -/
def memory (guestPhysAddr : Nat) (code : List Byte) (addr : Nat) : Option Byte :=
  if guestPhysAddr ≤ addr ∧ addr < guestPhysAddr + memorySize then
    some (code.getD (addr - guestPhysAddr) 0)
  else none

/-- `KVM_SET_REGS`, which sets what `regs` does not name to 0. -/
def regs (rax rbx : Word) : Reg16 → Word
  | .ax => rax
  | .bx => rbx
  | _ => 0

/-- The vCPU at its first `KVM_RUN`. -/
def boot (m : Monitor) (code : List Byte) (rax rbx : Word) : State where
  reg := regs rax rbx
  ip := BitVec.ofNat 16 m.guestPhysAddr
  mem := memory m.guestPhysAddr code

/-- The exit for an `out` of one byte. -/
def outReply (port : Word) (b : Byte) : Reply :=
  .exit ⟨ KVM_EXIT_IO, ⟨KVM_EXIT_IO_OUT, 1, port.toNat, 1, .ofBitVec b⟩, 0, 0⟩

def hltReply : Reply := .exit ⟨KVM_EXIT_HLT, ⟨0, 0, 0, 0, 0⟩, 0, 0⟩

/-- What the `KVM_RUN` calls come back with in so many instructions. -/
def replies : Nat → State → List Reply
  | 0, _ => []
  | fuel + 1, s =>
    match RealMode.step s with
    | .goes s' => replies fuel s'
    | .out port b s' => outReply port b :: replies fuel s'
    | .halts => [hltReply]
    | .stuck => []

/-- The monitor prints the bytes and the line of the halt, and returns 0. -/
def Prints (m : Monitor) (s : State) (bytes : List Byte) : Prop :=
  ∃ enough, ∀ fuel ≥ enough, loop m (replies fuel s) =
    ⟨bytes.map (fun b => .putchar (.ofBitVec b)) ++ [.stdout "KVM_EXIT_HLT\n".toList], some 0, []⟩

theorem replies_of_halts {s : State} {out : List (Word × Byte)} (h : Halts s out) :
    ∃ enough, ∀ fuel ≥ enough,
      replies fuel s = out.map (fun p => outReply p.1 p.2) ++ [hltReply] := by
  obtain ⟨s', hrun, hhalts⟩ := h
  induction hrun with
  | refl s =>
    refine ⟨1, fun fuel hfuel => ?_⟩
    obtain ⟨fuel, rfl⟩ := Nat.exists_eq_add_of_le' hfuel
    simp [replies, hhalts]
  | goes hstep _ ih =>
    obtain ⟨enough, hih⟩ := ih hhalts
    refine ⟨enough + 1, fun fuel hfuel => ?_⟩
    obtain ⟨fuel, rfl⟩ := Nat.exists_eq_add_of_le' (Nat.le_trans (Nat.le_add_left 1 enough) hfuel)
    rw [replies, hstep]
    exact hih fuel (by omega)
  | out hstep _ ih =>
    obtain ⟨enough, hih⟩ := ih hhalts
    refine ⟨enough + 1, fun fuel hfuel => ?_⟩
    obtain ⟨fuel, rfl⟩ := Nat.exists_eq_add_of_le' (Nat.le_trans (Nat.le_add_left 1 enough) hfuel)
    rw [replies, hstep]
    exact congrArg (_ :: ·) (hih fuel (by omega))

/-- The monitor passes the bytes for port 0x3f8 on. -/
theorem loop_outReplies (m : Monitor) (bytes : List Byte) :
    loop m ((bytes.map fun b => outReply 0x3f8 b) ++ [hltReply]) =
      ⟨bytes.map (fun b => .putchar (.ofBitVec b)) ++ [.stdout "KVM_EXIT_HLT\n".toList], some 0,
        []⟩ := by
  induction bytes with
  | nil => rfl
  | cons b bytes ih =>
    have hturn : handle m (outReply 0x3f8 b) = ([.putchar (.ofBitVec b)], none) := rfl
    simp only [List.map_cons, List.cons_append, loop, hturn, ih]
    rfl

theorem prints_of_halts {m : Monitor} {s : State} {bytes : List Byte}
    (h : Halts s (bytes.map fun b => (0x3f8, b))) : Prints m s bytes := by
  obtain ⟨enough, hreplies⟩ := replies_of_halts h
  refine ⟨enough, fun fuel hfuel => ?_⟩
  rw [hreplies fuel hfuel, List.map_map]
  exact loop_outReplies m bytes

theorem Prints.unique {m : Monitor} {s : State} {bytes bytes' : List Byte}
    (h : Prints m s bytes) (h' : Prints m s bytes') : bytes = bytes' := by
  obtain ⟨enough, hbytes⟩ := h
  obtain ⟨enough', hbytes'⟩ := h'
  have heq := (hbytes (max enough enough') (le_max_left _ _)).symm.trans
    (hbytes' (max enough enough') (le_max_right _ _))
  rw [Ended.mk.injEq] at heq
  refine List.map_injective_iff.mpr (fun b c hbc => ?_) (List.append_cancel_right heq.1)
  exact congrArg UInt8.toBitVec (Printed.putchar.inj hbc)

/-- The code stands where `rip` points. -/
theorem boot_holds (m : Monitor) {code : List Byte} (hcode : code.length ≤ memorySize)
    (rax rbx : Word) : Holds (boot m code rax rbx).mem (boot m code rax rbx).ip code := by
  refine holds_iff.mpr fun i hi => ?_
  have hbase : m.guestPhysAddr + memorySize ≤ 0x2000 := by cases m <;> decide
  have haddr : (BitVec.ofNat 16 m.guestPhysAddr + BitVec.ofNat 16 i).toNat =
      m.guestPhysAddr + i := by
    rw [← BitVec.ofNat_add, BitVec.toNat_ofNat, Nat.mod_eq_of_lt (by omega)]
  show memory m.guestPhysAddr code (BitVec.ofNat 16 m.guestPhysAddr + BitVec.ofNat 16 i).toNat
    = some code[i]
  rw [haddr, memory, if_pos ⟨Nat.le_add_right _ _, by omega⟩, Nat.add_sub_cancel_left,
    List.getD_eq_getElem _ _ hi]

/-! ## add.asm -/

/-- The listing of `add.asm`. -/
def add : List Instr :=
  [.movWord .dx 0x3f8, .add .al .bl, .addAl 0x30, .out, .movByte .al 0x0a, .out, .hlt]

/-- `code` of `kvm_run_test1.c`. -/
def code : List Byte :=
  [0xba, 0xf8, 0x03,
    0x00, 0xd8,
    0x04, 0x30,
    0xee,
    0xb0, 0x0a,
    0xee,
    0xf4]

theorem assemble_add : assemble add = code := by decide

theorem code_halts (rax rbx : Word) :
    Halts (boot .kvmRunTest1 code rax rbx)
      ([low rax + low rbx + 0x30, 0x0a].map fun b => (0x3f8, b)) := by
  have hcode : Holds (boot .kvmRunTest1 code rax rbx).mem (boot .kvmRunTest1 code rax rbx).ip
      (assemble add) := by
    rw [assemble_add]
    exact boot_holds .kvmRunTest1 (by decide) rax rbx
  refine halts_cons hcode rfl rfl fun hcode => ?_
  refine halts_cons hcode rfl rfl fun hcode => ?_
  refine halts_cons hcode rfl rfl fun hcode => ?_
  refine halts_out hcode ?_ ?_ fun hcode => ?_
  · simp [Reg8.whole]
  · simp [State.get8, Reg8.whole, Reg8.isHigh, boot, regs]
  refine halts_cons hcode rfl rfl fun hcode => ?_
  refine halts_out hcode ?_ ?_ fun hcode => ?_
  · simp [Reg8.whole]
  · simp
  exact halts_hlt hcode

/-- The characters as bytes. -/
def bytesOf (text : Text) : List Byte := text.map fun c => BitVec.ofNat 8 c.toNat

theorem toNat_digitChar {n : Nat} (h : n ≤ 9) : (Nat.digitChar n).toNat = n + 0x30 := by
  interval_cases n <;> rfl

/-- **`al` + `bl` is printed as a number exactly when it has one digit.** -/
theorem code_prints_sum_iff (rax rbx : Word) :
    Prints .kvmRunTest1 (boot .kvmRunTest1 code rax rbx)
        (bytesOf (Printf.udec ((low rax).toNat + (low rbx).toNat) ++ ['\n'])) ↔
      (low rax).toNat + (low rbx).toNat ≤ 9 := by
  have hprints := prints_of_halts (m := .kvmRunTest1) (code_halts rax rbx)
  constructor
  · intro h
    have hlen := congrArg List.length (h.unique hprints)
    simp only [bytesOf, List.length_map, List.length_append, List.length_cons, List.length_nil]
      at hlen
    have hone : (Nat.toDigits 10 ((low rax).toNat + (low rbx).toNat)).length ≤ 1 := by
      rw [Printf.udec] at hlen
      omega
    exact Nat.le_of_lt_succ ((Nat.length_toDigits_le_iff (by omega) (by omega)).mp hone)
  · intro hsum
    have hdigit : Printf.udec ((low rax).toNat + (low rbx).toNat) =
        [Nat.digitChar ((low rax).toNat + (low rbx).toNat)] :=
      Nat.toDigits_of_lt_base (by omega)
    have hbyte : low rax + low rbx + 0x30 =
        BitVec.ofNat 8 (Nat.digitChar ((low rax).toNat + (low rbx).toNat)).toNat := by
      rw [toNat_digitChar hsum]
      apply BitVec.eq_of_toNat_eq
      simp
    rw [hdigit, bytesOf]
    rw [hbyte] at hprints
    exact hprints

/-! ## hello.asm -/

/-- The listing of `hello.asm` up to its data; the bytes of the `loop` go back to `PrintLoop`. -/
def helloCode (stringlen : Nat) : List Instr :=
  [.movWord .dx 0x3f8, .movWord .si 16, .movWord .cx (BitVec.ofNat 16 stringlen),
    .loadSi .al, .out, .incWord .si, .loop 0xfa, .hlt]

def hello (hellostring : List Byte) : List Byte :=
  assemble (helloCode hellostring.length) ++ hellostring

theorem length_helloCode (stringlen : Nat) : (assemble (helloCode stringlen)).length = 16 := rfl

/-- At `ip`, with so many bytes printed and so many more times round to go. -/
structure HelloAt (hellostring : List Byte) (ip : Word) (printed left : Nat) (s : State) :
    Prop where
  mem : s.mem = memory 0 (hello hellostring)
  ip : s.ip = ip
  dx : s.reg .dx = 0x3f8
  si : s.reg .si = BitVec.ofNat 16 (16 + printed)
  cx : s.reg .cx = BitVec.ofNat 16 left

theorem printLoop_holds {hellostring : List Byte} (hfits : 16 + hellostring.length ≤ memorySize) :
    Holds (memory 0 (hello hellostring)) 9
      (assemble [.loadSi .al, .out, .incWord .si, .loop 0xfa, .hlt]) := by
  have hlen : (hello hellostring).length ≤ memorySize := by
    rw [hello, List.length_append, length_helloCode]
    exact hfits
  have hcode := (holds_append.mp (boot_holds .kvmRunTest2 hlen 0 0)).1
  exact (@holds_append _ (assemble ((helloCode hellostring.length).take 3)) _ _).mp hcode |>.2

theorem hello_byte {pre rest : List Byte} {b : Byte}
    (hfits : 16 + (pre ++ b :: rest).length ≤ memorySize) :
    memory 0 (hello (pre ++ b :: rest)) (BitVec.ofNat 16 (16 + pre.length)).toNat = some b := by
  have hlt : 16 + pre.length < memorySize := by
    rw [List.length_append, List.length_cons] at hfits
    omega
  have hword : memorySize < 2 ^ 16 := by decide
  rw [BitVec.toNat_ofNat, Nat.mod_eq_of_lt (by omega), memory,
    if_pos ⟨Nat.zero_le _, by omega⟩, hello, Nat.sub_zero,
    ← length_helloCode (pre ++ b :: rest).length,
    List.getD_append_right _ _ _ _ (Nat.le_add_right _ _), Nat.add_sub_cancel_left]
  simp

/-- From `PrintLoop` (offset 9) to the `loop` (offset 13). -/
theorem printLoop_once {pre rest : List Byte} {b : Byte} {s : State} {out : List (Word × Byte)}
    (hfits : 16 + (pre ++ b :: rest).length ≤ memorySize)
    (hs : HelloAt (pre ++ b :: rest) 9 pre.length (b :: rest).length s)
    (hloop : ∀ s', HelloAt (pre ++ b :: rest) 13 (pre.length + 1) (rest.length + 1) s' →
      Holds s'.mem s'.ip (assemble [.loop 0xfa, .hlt]) → Halts s' out) :
    Halts s ((0x3f8, b) :: out) := by
  have hcode := printLoop_holds hfits
  rw [← hs.mem, ← hs.ip] at hcode
  have hload : exec (.loadSi .al) (s.next (.loadSi .al)) =
      .goes ((s.next (.loadSi .al)).set8 .al b) := by
    simp only [exec, State.next_mem, State.next_reg, hs.mem, hs.si, hello_byte hfits]
  refine halts_cons hcode hload rfl fun hcode => ?_
  refine halts_out hcode ?_ ?_ fun hcode => ?_
  · simp [Reg8.whole, hs.dx]
  · simp
  refine halts_cons hcode rfl rfl fun hcode => hloop _ ⟨?_, ?_, ?_, ?_, ?_⟩ hcode
  · simp [hs.mem]
  · simp [State.next, hs.ip, encode]
  · simp [Reg8.whole, hs.dx]
  · simp [Reg8.whole, hs.si, ← BitVec.ofNat_add, Nat.add_assoc]
  · simp [Reg8.whole, hs.cx]

/-- Once round for each byte that is left. -/
theorem printLoop_halts {rest : List Byte} :
    ∀ {pre : List Byte} {b : Byte} {s : State}, 16 + (pre ++ b :: rest).length ≤ memorySize →
      HelloAt (pre ++ b :: rest) 9 pre.length (b :: rest).length s →
      Halts s ((b :: rest).map fun b => (0x3f8, b)) := by
  induction rest with
  | nil =>
    intro pre b s hfits hs
    refine printLoop_once hfits hs fun s' hs' hcode => ?_
    refine halts_loop_last hcode ?_ fun hcode => halts_hlt hcode
    rw [hs'.cx]
    rfl
  | cons c rest ih =>
    intro pre b s hfits hs
    refine printLoop_once hfits hs fun s' hs' hcode => ?_
    have htext : pre ++ b :: c :: rest = (pre ++ [b]) ++ c :: rest := by simp
    rw [htext] at hfits hs'
    have hleft : (c :: rest).length + 1 < 2 ^ 16 := by
      have hpage : memorySize < 2 ^ 16 := by decide
      rw [List.length_append, List.length_append, List.length_singleton] at hfits
      omega
    refine halts_loop hcode hs'.cx (Nat.succ_pos _) hleft (ih hfits ⟨?_, ?_, ?_, ?_, ?_⟩)
    · simp [hs'.mem]
    · simp [State.next, hs'.ip, encode]
    · simp [hs'.dx]
    · simp [hs'.si]
    · simp

theorem hello_halts {hellostring : List Byte} (hne : hellostring ≠ [])
    (hfits : 16 + hellostring.length ≤ memorySize) (rax rbx : Word) :
    Halts (boot .kvmRunTest2 (hello hellostring) rax rbx)
      (hellostring.map fun b => (0x3f8, b)) := by
  obtain ⟨b, rest, rfl⟩ := List.exists_cons_of_ne_nil hne
  have hlen : (hello (b :: rest)).length ≤ memorySize := by
    rw [hello, List.length_append, length_helloCode]
    exact hfits
  have hcode := (holds_append.mp (boot_holds .kvmRunTest2 hlen rax rbx)).1
  refine halts_cons hcode rfl rfl fun hcode => ?_
  refine halts_cons hcode rfl rfl fun hcode => ?_
  refine halts_cons hcode rfl rfl fun hcode => ?_
  refine @printLoop_halts rest [] b _ hfits ⟨rfl, rfl, ?_, ?_, ?_⟩
  · simp
  · simp
  · simp

/-- **The string is printed as it is, whatever it is.** -/
theorem hello_prints (hellostring : List Byte) (hne : hellostring ≠ [])
    (hfits : 16 + hellostring.length ≤ memorySize) (rax rbx : Word) :
    Prints .kvmRunTest2 (boot .kvmRunTest2 (hello hellostring) rax rbx) hellostring :=
  prints_of_halts (hello_halts hne hfits rax rbx)

/-- The string of `hello.asm`. -/
theorem hello_prints_helloWorld :
    Prints .kvmRunTest2
      (boot .kvmRunTest2
        (hello [72, 101, 108, 108, 111, 32, 87, 111, 114, 108, 100, 33, 0x0a]) 2 2)
      [72, 101, 108, 108, 111, 32, 87, 111, 114, 108, 100, 33, 0x0a] :=
  hello_prints _ (by decide) (by decide) 2 2

/-! ## loop.asm -/

/-- The listing of `loop.asm`; the bytes of the `loop` go back to `OutLoop`. -/
def loopCode (count : Nat) (first : Byte) : List Instr :=
  [.movWord .dx 0x3f8, .movWord .cx (BitVec.ofNat 16 count), .movByte .al first,
    .out, .incByte .al, .loop 0xfb, .movByte .al 0x0a, .out, .hlt]

/-- `count` bytes from `first` on, and a newline. -/
def outLoopBytes : Nat → Byte → List Byte
  | 0, _ => [0x0a]
  | count + 1, first => first :: outLoopBytes count (first + 1)

/-- At `ip`, with so many more times round to go. -/
structure LoopAt (image : List Byte) (ip : Word) (al : Byte) (left : Nat) (s : State) :
    Prop where
  mem : s.mem = memory 0 image
  ip : s.ip = ip
  dx : s.reg .dx = 0x3f8
  al : s.get8 .al = al
  cx : s.reg .cx = BitVec.ofNat 16 left

theorem outLoop_holds (count : Nat) (first : Byte) :
    Holds (memory 0 (assemble (loopCode count first))) 8
      (assemble [.out, .incByte .al, .loop 0xfb, .movByte .al 0x0a, .out, .hlt]) := by
  have hlen : (assemble (loopCode count first)).length ≤ memorySize := by
    show 17 ≤ memorySize
    decide
  exact (@holds_append _ (assemble ((loopCode count first).take 3)) _ _).mp
    (boot_holds .kvmRunTest2 hlen 0 0) |>.2

/-- From `OutLoop` (offset 8), once round for each byte that is left. -/
theorem outLoop_halts {count left : Nat} {first : Byte} (hleft : left + 1 < 2 ^ 16) :
    ∀ {al : Byte} {s : State}, LoopAt (assemble (loopCode count first)) 8 al (left + 1) s →
      Halts s ((outLoopBytes (left + 1) al).map fun b => (0x3f8, b)) := by
  induction left with
  | zero =>
    intro al s hs
    have hcode := outLoop_holds count first
    rw [← hs.mem, ← hs.ip] at hcode
    refine halts_out hcode hs.dx hs.al fun hcode => ?_
    refine halts_cons hcode rfl rfl fun hcode => ?_
    refine halts_loop_last hcode ?_ fun hcode => ?_
    · simp [Reg8.whole, hs.cx]
    refine halts_cons hcode rfl rfl fun hcode => ?_
    refine halts_out hcode ?_ ?_ fun hcode => halts_hlt hcode
    · simp [Reg8.whole, hs.dx]
    · simp
  | succ left ih =>
    intro al s hs
    have hcode := outLoop_holds count first
    rw [← hs.mem, ← hs.ip] at hcode
    refine halts_out hcode hs.dx hs.al fun hcode => ?_
    refine halts_cons hcode rfl rfl fun hcode => ?_
    refine @halts_loop _ _ _ (left + 1) _ hcode ?_ (Nat.succ_pos _) hleft
      (ih (by omega) ⟨?_, ?_, ?_, ?_, ?_⟩)
    · simp [Reg8.whole, hs.cx]
    · simp [hs.mem]
    · simp [State.next, hs.ip, encode]
    · simp [Reg8.whole, hs.dx]
    · simp [Reg8.whole, hs.al]
    · simp

/-- **The bytes count up from the first, as often as `cx` says.** -/
theorem loop_prints (count : Nat) (hpos : 0 < count) (hcount : count < 2 ^ 16) (first : Byte)
    (rax rbx : Word) :
    Prints .kvmRunTest2 (boot .kvmRunTest2 (assemble (loopCode count first)) rax rbx)
      (outLoopBytes count first) := by
  obtain ⟨left, rfl⟩ := Nat.exists_eq_add_of_le' hpos
  apply prints_of_halts
  have hcode : Holds _ _ (assemble (loopCode (left + 1) first)) :=
    boot_holds .kvmRunTest2 (by show 17 ≤ memorySize; decide) rax rbx
  refine halts_cons hcode rfl rfl fun hcode => ?_
  refine halts_cons hcode rfl rfl fun hcode => ?_
  refine halts_cons hcode rfl rfl fun hcode => ?_
  refine outLoop_halts hcount ⟨rfl, rfl, ?_, ?_, ?_⟩
  · simp [Reg8.whole]
  · simp
  · simp [Reg8.whole]

/-- `mov cx, 10` and `mov al, 'A'`, as in the listing. -/
theorem loop_prints_ten :
    Prints .kvmRunTest2 (boot .kvmRunTest2 (assemble (loopCode 10 65)) 2 2)
      [65, 66, 67, 68, 69, 70, 71, 72, 73, 74, 0x0a] :=
  loop_prints 10 (by decide) (by decide) 65 2 2

end LinuxSummary.Kvm
