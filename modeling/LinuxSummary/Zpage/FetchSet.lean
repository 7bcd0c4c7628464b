/-
  `ZPAGE_GET_PID_ADDR` as `user_cmd.c` sees it: read a word of a task and write another.

  The driver reads and writes four bytes behind one `kmap`, so beyond the end of the page they
  are those of the next frame. The word comes back as the value of the system call, where the
  C library takes -4095 to -1 for an error.

  `StoredAt` is what the task has at the address, by the translation of the processor.
  `fetch_set_iff`: the tool reads that word and sets its four bytes, and nothing else, exactly
  when the walk finds the page, the four bytes are behind each other (or what lies there holds
  the new word already), and the word is below the errors.
-/
import LinuxSummary.Zpage.Errors
import LinuxSummary.Zpage.Translation

namespace LinuxSummary.Zpage

open CInt Strtol

/-! ## The tool -/

def EXIT_SUCCESS : Nat := 0
def EXIT_FAILURE : Nat := 1

/-- How a program ended: its status, what it printed, and the text and number of `perror`. -/
structure Finished where
  status : Nat
  stdout : Text
  perror : Option (Text × Int)

/-- What `ioctl` of the C library returns for a value of the system call. -/
def syscallRet (r : Int) : Int := if -4095 ≤ r ∧ r < 0 then -1 else int32 r

/-- `"ioctl ZPAGE_GET_PID_ADDR ret:0x%x\n"` -/
def retText (ret : Int) : Text :=
  "ioctl ZPAGE_GET_PID_ADDR ret:0x".toList ++ Printf.hex (u32 ret) ++ "\n".toList

/-- `main` of `user_cmd.c` behind the system call. -/
def report (r : Int) : Finished :=
  if syscallRet r = -1 then
    ⟨EXIT_FAILURE, [], some ("ioctl ZPAGE_GET_PID_ADDR".toList, -r)⟩
  else
    ⟨EXIT_SUCCESS, retText (syscallRet r), none⟩

/-- None: the call did not return. -/
def finish : Outcome → Option Finished
  | .ret r => some (report r)
  | _ => none

/-- `main` from the system call on. -/
def fetch (fuel : Nat) (tasks : Tasks) (ram : Int → Option UInt8) (buf : Int → UInt8)
    (zpage : Region) : Option Finished × Kern :=
  let done := myIoctl fuel tasks ram buf (.ZPAGE_GET_PID_ADDR (some zpage))
  (finish done.1, done.2)

/-- `"Usage %s <pid> <addr>\n"` -/
def usageText (name : Text) : Text := "Usage ".toList ++ name ++ " <pid> <addr>\n".toList

/-- `main` of `user_cmd.c`; `failed` is the number of the error with which `open` fails. -/
def main (fuel : Nat) (tasks : Tasks) (ram : Int → Option UInt8) (buf : Int → UInt8)
    (failed : Option Int) : List Text → Option Finished × Kern
  | _ :: pid :: addr :: _ =>
    match failed with
    | some errno => (some ⟨EXIT_FAILURE, [], some ("open".toList, errno)⟩, idle ram buf)
    | none =>
      fetch fuel tasks ram buf ⟨UInt32.ofInt (atoi pid), UInt64.ofInt (strtol addr 16).1⟩
  | argv => (some ⟨EXIT_FAILURE, usageText (argv.headD []), none⟩, idle ram buf)

/-- `ioctl_ret` of `user.c`: what is printed, and whether the tool ends. -/
def ioctlRet (str : Text) (r : Int) : Text × Bool :=
  ("ioctl ".toList ++ str ++ " ret:".toList ++ Printf.dec (syscallRet r) ++ "\n".toList,
    syscallRet r = -1)

/-- Every pid and every address of a user can be typed in. -/
theorem main_typed (fuel : Nat) (tasks : Tasks) (ram : Int → Option UInt8) (buf : Int → UInt8)
    (name : Text) {pid addr : Nat} (hpid : pid < 2 ^ 31) (haddr : addr < 2 ^ 63) :
    main fuel tasks ram buf none [name, Printf.udec pid, Printf.hex addr] =
      fetch fuel tasks ram buf ⟨UInt32.ofNat pid, UInt64.ofNat addr⟩ := by
  have hread := atoi_udec hpid
  have haddr' : (strtol (Printf.hex addr) 16).1 = addr := by
    unfold Printf.hex
    rw [strtol_toDigits (by decide) (by decide), clamp_of_range (by omega) (by omega)]
  have hregion : (⟨UInt32.ofInt (atoi (Printf.udec pid)),
      UInt64.ofInt (strtol (Printf.hex addr) 16).1⟩ : Region) =
        ⟨UInt32.ofNat pid, UInt64.ofNat addr⟩ := by
    have h32 : ((pid : Int) % 2 ^ 32).toNat = pid := by omega
    have h64 : ((addr : Int) % 2 ^ 64).toNat = addr := by omega
    rw [hread, haddr', UInt32.ofInt, UInt64.ofInt, h32, h64]
  exact congrArg (fetch fuel tasks ram buf) hregion

/-! ## The memory of the task -/

/-- The bytes of `0x12345678`, the lowest first. -/
def setByte : Nat → UInt8
  | 0 => 0x78
  | 1 => 0x56
  | 2 => 0x34
  | _ => 0x12

/-- The word of four bytes. -/
def wordOf (v : Nat → UInt8) : Nat :=
  (v 0).toNat + 2 ^ 8 * (v 1).toNat + 2 ^ 16 * (v 2).toNat + 2 ^ 24 * (v 3).toNat

/-- The task has the bytes `v` at the address, where the processor finds them at `phys`. -/
structure StoredAt (mm : Mm) (ram : Int → Option UInt8) (addr : UInt64) (phys : Nat → Int)
    (v : Nat → UInt8) : Prop where
  mapped : ∀ i, i < 4 → ∃ frame, translate mm (addr + UInt64.ofNat i) = some frame ∧
    phys i = physical frame (addr + UInt64.ofNat i)
  byte : ∀ i, i < 4 → ram (phys i) = some (v i)

/-- The four bytes hold the new word, all others what they held, and the tool prints the old
    word. -/
structure FetchesAndSets (fuel : Nat) (tasks : Tasks) (ram : Int → Option UInt8)
    (buf : Int → UInt8) (zpage : Region) (phys : Nat → Int) (v : Nat → UInt8) : Prop where
  set : ∀ i, i < 4 → (fetch fuel tasks ram buf zpage).2.ram (phys i) = some (setByte i)
  frame : ∀ p, (∀ i, i < 4 → p ≠ phys i) → (fetch fuel tasks ram buf zpage).2.ram p = ram p
  page : (fetch fuel tasks ram buf zpage).2.buf = buf
  reported : (fetch fuel tasks ram buf zpage).1 =
    some ⟨EXIT_SUCCESS, retText (wordOf v), none⟩

/-- The walk finds the page, each byte is where the driver looks for it, or nothing changes in
    both places, and the word is no error. -/
structure InReach (mm : Mm) (ram : Int → Option UInt8) (addr : UInt64) (phys : Nat → Int)
    (v : Nat → UInt8) : Prop where
  walk : ∃ pte, Leads mm addr pte
  near : ∀ i : Nat, i < 4 → phys i = phys 0 + i ∨
    (v i = setByte i ∧ ram (phys 0 + i) = some (setByte i))
  small : wordOf v < 2 ^ 32 - 4095

/-! ## Words -/

theorem wordOf_lt (v : Nat → UInt8) : wordOf v < 2 ^ 32 := by
  unfold wordOf
  have h0 := (v 0).toNat_lt
  have h1 := (v 1).toNat_lt
  have h2 := (v 2).toNat_lt
  have h3 := (v 3).toNat_lt
  omega

theorem wordOf_inj {v c : Nat → UInt8} (h : wordOf v = wordOf c) {i : Nat} (hi : i < 4) :
    v i = c i := by
  unfold wordOf at h
  have h0 := (v 0).toNat_lt
  have h1 := (v 1).toNat_lt
  have h2 := (v 2).toNat_lt
  have h3 := (v 3).toNat_lt
  have c0 := (c 0).toNat_lt
  have c1 := (c 1).toNat_lt
  have c2 := (c 2).toNat_lt
  have c3 := (c 3).toNat_lt
  apply UInt8.toNat_inj.mp
  interval_cases i <;> omega

theorem readWord_of_bytes {ram : Int → Option UInt8} {p : Int} {c : Nat → UInt8}
    (h : ∀ i : Nat, i < 4 → ram (p + i) = some (c i)) : readWord ram p = some (wordOf c) := by
  have h0 : ram p = some (c 0) := by simpa using h 0 (by decide)
  have h1 : ram (p + 1) = some (c 1) := h 1 (by decide)
  have h2 : ram (p + 2) = some (c 2) := h 2 (by decide)
  have h3 : ram (p + 3) = some (c 3) := h 3 (by decide)
  unfold readWord
  rw [h0, h1, h2, h3]
  rfl

theorem bytes_of_readWord {ram : Int → Option UInt8} {p : Int} {w : Nat}
    (h : readWord ram p = some w) :
    ∃ c : Nat → UInt8, (∀ i : Nat, i < 4 → ram (p + i) = some (c i)) ∧ w = wordOf c := by
  unfold readWord at h
  split at h
  · next b0 b1 b2 b3 h0 h1 h2 h3 =>
    refine ⟨fun i => [b0, b1, b2, b3].getD i 0, fun i hi => ?_, (Option.some.inj h).symm⟩
    interval_cases i
    · simpa using h0
    · exact h1
    · exact h2
    · exact h3
  · exact absurd h (by simp)

theorem writeWord_self (ram : Int → Option UInt8) (p : Int) {i : Nat} (hi : i < 4) :
    writeWord ram p (p + i) = some (setByte i) := by
  obtain ⟨h0, h1, h2, h3⟩ := writeWord_eq ram p
  interval_cases i
  · rw [Nat.cast_zero, add_zero]
    exact h0
  · exact h1
  · exact h2
  · exact h3

theorem writeWord_other (ram : Int → Option UInt8) {p q : Int}
    (h : ∀ i : Nat, i < 4 → q ≠ p + i) : writeWord ram p q = ram q := by
  have h0 : q ≠ p := by simpa using h 0 (by decide)
  have h1 : q ≠ p + 1 := h 1 (by decide)
  have h2 : q ≠ p + 2 := h 2 (by decide)
  have h3 : q ≠ p + 3 := h 3 (by decide)
  unfold writeWord
  rw [Function.update_of_ne h3, Function.update_of_ne h2, Function.update_of_ne h1,
    Function.update_of_ne h0]

/-! ## The report -/

theorem int32_word {w : Nat} (hw : w < 2 ^ 32) :
    int32 w = if w < 2 ^ 31 then (w : Int) else w - 2 ^ 32 := by
  unfold int32
  rw [Int.bmod_def]
  omega

theorem syscallRet_small {w : Nat} (h : w < 2 ^ 32 - 4095) :
    syscallRet (int32 w) = int32 w ∧ int32 w ≠ -1 := by
  have hint := int32_word (w := w) (by omega)
  have hidem : int32 (int32 w) = int32 w :=
    int32_of_range (int32_range w).1 (int32_range w).2
  unfold syscallRet
  rw [hidem]
  split at hint <;> constructor <;> first | exact if_neg (by omega) | omega

theorem report_small {w : Nat} (h : w < 2 ^ 32 - 4095) :
    report (int32 w) = ⟨EXIT_SUCCESS, retText w, none⟩ := by
  obtain ⟨hret, hne⟩ := syscallRet_small h
  unfold report retText
  rw [hret, if_neg hne, u32_int32]

theorem report_large {w : Nat} (h : 2 ^ 32 - 4095 ≤ w) (hw : w < 2 ^ 32) :
    (report (int32 w)).status = EXIT_FAILURE := by
  have hint := int32_word hw
  rw [if_neg (by omega)] at hint
  have hret : syscallRet (int32 w) = -1 := if_pos (by omega)
  unfold report
  rw [if_pos hret]

/-- The tool `user.c` ends where `user_cmd.c` does. -/
theorem ioctlRet_ends_iff (str : Text) (r : Int) :
    (ioctlRet str r).2 = true ↔ (report r).status = EXIT_FAILURE := by
  have hends : (ioctlRet str r).2 = true ↔ syscallRet r = -1 := decide_eq_true_iff
  rw [hends]
  unfold report
  split
  · next h => exact iff_of_true h rfl
  · next h => exact iff_of_false h (show EXIT_SUCCESS ≠ EXIT_FAILURE by decide)

/-- Different words are printed differently. -/
theorem retText_inj {w w' : Nat} (hw : w < 2 ^ 32) (hw' : w' < 2 ^ 32)
    (h : retText w = retText w') : w = w' := by
  unfold retText at h
  rw [u32_of_nat hw, u32_of_nat hw'] at h
  have hhex := List.append_cancel_left (List.append_cancel_right h)
  exact Numeral.toDigits_injective (by decide) (by decide) hhex

/-! ## Where the bytes are -/

section
variable {mm : Mm} {ram : Int → Option UInt8} {addr : UInt64} {phys : Nat → Int}
  {v : Nat → UInt8} (h : StoredAt mm ram addr phys v)
include h

/-- A byte has the offset of its address. -/
theorem StoredAt.phys_mod {i : Nat} (hi : i < 4) : phys i % 4096 = (addr.toNat + i) % 4096 := by
  obtain ⟨frame, -, hphys⟩ := h.mapped i hi
  have hadd : (addr + UInt64.ofNat i).toNat = (addr.toNat + i) % 2 ^ 64 := by
    rw [UInt64.toNat_add, UInt64.toNat_ofNat_of_lt' (hi.trans (by decide))]
  unfold physical offsetInPage PAGE_SIZE at hphys
  rw [hphys, hadd]
  omega

/-- Bytes of different numbers are never in one place. -/
theorem StoredAt.phys_ne {i j : Nat} (hi : i < 4) (hj : j < 4) (hne : i ≠ j) :
    phys i ≠ phys 0 + j := by
  have h1 := h.phys_mod hi
  have h2 := h.phys_mod (i := 0) (by decide)
  omega

/-- A byte that is not behind the first one is not written. -/
theorem StoredAt.writeWord_far {i : Nat} (hi : i < 4) (hfar : phys i ≠ phys 0 + i)
    (r : Int → Option UInt8) : writeWord r (phys 0) (phys i) = r (phys i) := by
  apply writeWord_other
  intro j hj
  by_cases hij : i = j
  · rw [← hij]
    exact hfar
  · exact h.phys_ne hi hj hij

/-- The walk, where it finds a page, finds that of the first byte. -/
theorem StoredAt.physical_walk {pte : Pte} (hlead : Leads mm addr pte) :
    physical pte.frame addr = phys 0 := by
  obtain ⟨frame, hframe, hphys⟩ := h.mapped 0 (by decide)
  have haddr : addr + UInt64.ofNat 0 = addr := by simp
  rw [haddr] at hframe hphys
  obtain ⟨pud, pmd, ptes, h1, h2, h3, h4⟩ := hlead
  unfold translate at hframe
  split at hframe
  · have hpte : pteTranslate addr ptes = some frame := by
      have hpmd : pmdTranslate addr pmd = pteTranslate addr ptes := by
        unfold pmdTranslate
        rw [h3]
        rfl
      have hpud : pudTranslate addr pud = pmdTranslate addr pmd := by
        unfold pudTranslate
        rw [h2]
        rfl
      rw [h1] at hframe
      rw [← hpmd, ← hpud]
      exact hframe
    unfold pteTranslate at hpte
    rw [h4] at hpte
    split at hpte
    · rw [Option.some.inj hpte, hphys]
    · exact absurd hpte (by simp)
  · exact absurd hframe (by simp)

end

/-! ## The request -/

section
variable {fuel : Nat} {tasks : Tasks} {ram : Int → Option UInt8} {buf : Int → UInt8}
  {zpage : Region} {mm : Mm} (hmm : mmOf tasks zpage.pid.toNat = some mm)
include hmm

theorem fetch_eq : fetch fuel tasks ram buf zpage =
    (finish (pidAddr mm zpage.addr (idle ram buf)).1,
      (pidAddr mm zpage.addr (idle ram buf)).2) := by
  have hioctl : myIoctl fuel tasks ram buf (.ZPAGE_GET_PID_ADDR (some zpage)) =
      pidAddr mm zpage.addr (idle ram buf) := by
    show withMm (pidTask tasks zpage.pid.toNat) _ _ = _
    rw [withMm_pidTask, hmm]
  unfold fetch
  rw [hioctl]

/-- The request comes back where the walk finds a page and four bytes lie there. -/
theorem fetch_ret {frame : Nat} (hwalk : walkTaskPage mm zpage.addr = some frame)
    {c : Nat → UInt8} (hc : ∀ i : Nat, i < 4 → ram (physical frame zpage.addr + i) = some (c i)) :
    fetch fuel tasks ram buf zpage = (some (report (int32 (wordOf c))),
      { idle ram buf with ram := writeWord ram (physical frame zpage.addr) }) := by
  have hword : readWord (idle ram buf).ram (physical frame zpage.addr) = some (wordOf c) :=
    readWord_of_bytes hc
  rw [fetch_eq hmm, pidAddr, hwalk]
  dsimp only
  rw [hword]
  rfl

theorem fetch_some {f : Finished} (hf : (fetch fuel tasks ram buf zpage).1 = some f) :
    ∃ frame, walkTaskPage mm zpage.addr = some frame ∧
      ∃ c : Nat → UInt8, ∀ i : Nat, i < 4 → ram (physical frame zpage.addr + i) = some (c i) := by
  rw [fetch_eq hmm, pidAddr] at hf
  cases hwalk : walkTaskPage mm zpage.addr with
  | none =>
    rw [hwalk] at hf
    exact absurd hf (by simp [finish])
  | some frame =>
    rw [hwalk] at hf
    dsimp only at hf
    cases hword : readWord (idle ram buf).ram (physical frame zpage.addr) with
    | none =>
      rw [hword] at hf
      exact absurd hf (by simp [finish])
    | some w =>
      obtain ⟨c, hc, -⟩ := bytes_of_readWord hword
      exact ⟨frame, rfl, c, hc⟩

variable {phys : Nat → Int} {v : Nat → UInt8} (hat : StoredAt mm ram zpage.addr phys v)
include hat

theorem inReach_of_fetches (h : FetchesAndSets fuel tasks ram buf zpage phys v) :
    InReach mm ram zpage.addr phys v := by
  obtain ⟨frame, hwalk, c, hc⟩ := fetch_some hmm h.reported
  obtain ⟨pte, hlead, rfl⟩ := walk_eq_some_iff.mp hwalk
  have hphys := hat.physical_walk hlead
  have hfetch : fetch fuel tasks ram buf zpage = _ := fetch_ret hmm hwalk hc
  rw [hphys] at hc hfetch
  -- the word that is printed is the one at the physical address
  have hrep : report (int32 (wordOf c)) = ⟨EXIT_SUCCESS, retText (wordOf v), none⟩ := by
    have := h.reported
    rw [hfetch] at this
    exact Option.some.inj this
  have hsmall : wordOf c < 2 ^ 32 - 4095 := by
    by_contra hlarge
    have := report_large (not_lt.mp hlarge) (wordOf_lt c)
    rw [hrep] at this
    exact absurd this (show EXIT_SUCCESS ≠ EXIT_FAILURE by decide)
  have hword : wordOf c = wordOf v := by
    rw [report_small hsmall] at hrep
    exact retText_inj (wordOf_lt c) (wordOf_lt v) (Finished.mk.inj hrep).2.1
  refine ⟨⟨pte, hlead⟩, fun i hi => ?_, hword ▸ hsmall⟩
  by_cases hnear : phys i = phys 0 + i
  · exact .inl hnear
  · -- a byte elsewhere was not written, and had to have its new value
    have hset := h.set i hi
    rw [hfetch] at hset
    have hkept := hat.writeWord_far hi hnear ram
    have hold : some (v i) = some (setByte i) :=
      (hat.byte i hi).symm.trans (hkept.symm.trans hset)
    have hci : c i = v i := wordOf_inj hword hi
    refine .inr ⟨Option.some.inj hold, ?_⟩
    rw [hc i hi, hci]
    exact hold

theorem fetches_of_inReach (h : InReach mm ram zpage.addr phys v) :
    FetchesAndSets fuel tasks ram buf zpage phys v := by
  obtain ⟨pte, hlead⟩ := h.walk
  have hwalk : walkTaskPage mm zpage.addr = some pte.frame :=
    walk_eq_some_iff.mpr ⟨pte, hlead, rfl⟩
  have hphys := hat.physical_walk hlead
  have hbytes : ∀ i : Nat, i < 4 → ram (phys 0 + i) = some (v i) := by
    intro i hi
    rcases h.near i hi with hnear | ⟨hv, hram⟩
    · rw [← hnear]
      exact hat.byte i hi
    · rw [hram, hv]
  rw [← hphys] at hbytes
  have hfetch : fetch fuel tasks ram buf zpage = _ := fetch_ret hmm hwalk hbytes
  rw [hphys] at hfetch hbytes
  refine ⟨fun i hi => ?_, fun p hp => ?_, ?_, ?_⟩
  · rw [hfetch]
    show writeWord ram (phys 0) (phys i) = some (setByte i)
    rcases h.near i hi with hnear | ⟨hv, -⟩
    · rw [hnear]
      exact writeWord_self ram (phys 0) hi
    · by_cases hnear : phys i = phys 0 + i
      · rw [hnear]
        exact writeWord_self ram (phys 0) hi
      · rw [hat.writeWord_far hi hnear, hat.byte i hi, hv]
  · rw [hfetch]
    show writeWord ram (phys 0) p = ram p
    by_cases hany : ∃ i : Nat, i < 4 ∧ p = phys 0 + i
    · obtain ⟨i, hi, rfl⟩ := hany
      rcases h.near i hi with hnear | ⟨-, hram⟩
      · exact absurd hnear.symm (hp i hi)
      · rw [writeWord_self ram (phys 0) hi, hram]
    · exact writeWord_other ram fun j hj hj' => hany ⟨j, hj, hj'⟩
  · rw [hfetch]
    rfl
  · rw [hfetch, report_small h.small]

/-- **The request is an exact fetch-and-set exactly where the bytes are in reach and the word is no
    error.** -/
theorem fetch_set_iff :
    FetchesAndSets fuel tasks ram buf zpage phys v ↔ InReach mm ram zpage.addr phys v :=
  ⟨inReach_of_fetches hmm hat, fetches_of_inReach hmm hat⟩

end

/-! ## A task whose pages lie where they are mapped -/

def flatTask : Mm := flatMm 0 0 0 0

def flatTasks : Tasks := fun _ => some ⟨some flatTask⟩

theorem translate_flat {addr : UInt64} (h : Canonical addr) :
    translate flatTask addr = some (pteIndex addr) := by
  unfold translate
  rw [if_pos h]
  rfl

theorem storedAt_flat (addr : UInt64) {ram : Int → Option UInt8} {v : Nat → UInt8}
    (haddr : addr.toNat + 4 ≤ 2 ^ 21)
    (hram : ∀ i : Nat, i < 4 → ram (addr.toNat + i) = some (v i)) :
    StoredAt flatTask ram addr (fun i => addr.toNat + i) v := by
  refine ⟨fun i hi => ⟨pteIndex (addr + UInt64.ofNat i), ?_, ?_⟩, hram⟩
  · refine translate_flat ?_
    unfold Canonical
    rw [toNat_add_ofNat (by omega)]
    omega
  · unfold physical pteIndex offsetInPage PAGE_SIZE
    rw [toNat_add_ofNat (by omega)]
    omega

/-- A word that begins two bytes before the end of a page is fetched, and set. -/
theorem fetch_set_flat :
    FetchesAndSets 0 flatTasks numbered (fun _ => 0) ⟨1, 4094⟩ (fun i => 4094 + i)
      fun i => UInt8.ofNat (4094 + i) := by
  have hmm : mmOf flatTasks (⟨1, 4094⟩ : Region).pid.toNat = some flatTask := rfl
  have hstored : StoredAt flatTask numbered 4094 (fun i => 4094 + i)
      fun i => UInt8.ofNat (4094 + i) := storedAt_flat 4094 (by decide) (by decide)
  refine (fetch_set_iff hmm hstored).mpr ⟨?_, fun i _ => .inl ?_, ?_⟩
  · exact ⟨⟨true, 0⟩, _, _, _, rfl, rfl, rfl, rfl⟩
  · simp
  · decide

/-- The word `0xffffffff` comes back as an error. -/
theorem not_fetches_minus_one :
    mmOf flatTasks 1 = some flatTask ∧
      StoredAt flatTask (fun _ => some 0xff) 0 (fun i => i) (fun _ => 0xff) ∧
      ¬ FetchesAndSets 0 flatTasks (fun _ => some 0xff) (fun _ => 0) ⟨1, 0⟩ (fun i => i)
        fun _ => 0xff := by
  have hstored : StoredAt flatTask (fun _ => some 0xff) 0 (fun i => i) fun _ => 0xff := by
    simpa using storedAt_flat 0 (v := fun _ => 0xff) (by decide) fun _ _ => rfl
  refine ⟨rfl, hstored, fun h => ?_⟩
  have hmm : mmOf flatTasks (⟨1, 0⟩ : Region).pid.toNat = some flatTask := rfl
  have hsmall := (inReach_of_fetches hmm hstored h).small
  exact absurd hsmall (by decide)

end LinuxSummary.Zpage
