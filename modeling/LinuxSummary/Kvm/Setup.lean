/-
  The `main` of `kvm_run_test1.c` and `kvm_run_test2.c`: the calls that set the virtual machine up,
  and behind them the loop of `Kvm/RunLoop`.

  The second monitor reads its code from a file, and looks at none of these calls but `fopen`;
  `mmap` is not checked for what it fails with; and the code is copied into one page, however long
  it is. `main_reports_iff`: the monitor names the first call that fails, or runs the guest,
  exactly where that call is none of these, and code that is copied fits.
-/
import LinuxSummary.Kvm.Guest
import LinuxSummary.Library.CInt

namespace LinuxSummary.Kvm

/-- The calls in front of the loop. -/
inductive Setup
  | fopen
  /-- to the end -/
  | fseekEnd
  | ftell
  /-- back -/
  | fseekSet
  | malloc
  | fread
  | fclose
  | openKvm
  | KVM_GET_API_VERSION
  | KVM_CHECK_EXTENSION
  | KVM_CREATE_VM
  /-- of the guest's memory -/
  | mmapMem
  | KVM_SET_USER_MEMORY_REGION
  | KVM_CREATE_VCPU
  | KVM_GET_VCPU_MMAP_SIZE
  /-- of `run` -/
  | mmapVcpu
  | KVM_GET_SREGS
  | KVM_SET_SREGS
  | KVM_SET_REGS
deriving DecidableEq

def machineCalls : List Setup :=
  [.openKvm, .KVM_GET_API_VERSION, .KVM_CHECK_EXTENSION, .KVM_CREATE_VM, .mmapMem,
    .KVM_SET_USER_MEMORY_REGION, .KVM_CREATE_VCPU, .KVM_GET_VCPU_MMAP_SIZE, .mmapVcpu,
    .KVM_GET_SREGS, .KVM_SET_SREGS, .KVM_SET_REGS]

/-- The second monitor reads its code from a file. -/
def fileCalls : List Setup :=
  [.fopen, .fseekEnd, .ftell, .fseekSet, .malloc, .fread, .fclose]

def Monitor.calls : Monitor → List Setup
  | .kvmRunTest1 => machineCalls
  | .kvmRunTest2 => fileCalls ++ machineCalls

/-- `code_len` between `ftell` and `fread`, as `malloc` and `fread` are given it. -/
def asked (ret : Setup → Int) : Nat := CInt.u64 (CInt.int32 (ret .ftell))

/-- What the calls come back with. -/
structure Outcomes where
  ret : Setup → Int
  strerror : Setup → Text
  /-- `sizeof(*run)` -/
  runSize : Nat
  fread_nonneg : 0 ≤ ret .fread
  fread_le : ret .fread ≤ asked ret

/-- How much is copied: `sizeof(code)`, or `code_len` behind `fread`. -/
def Outcomes.codeLen (o : Outcomes) : Monitor → Nat
  | .kvmRunTest1 => code.length
  | .kvmRunTest2 => CInt.u64 (CInt.int32 (o.ret .fread))

/-- The text of `err_exit` for a call that came back with `ret`. -/
def Setup.refused (runSize : Nat) (ret : Int) : Setup → Option String
  | .fopen => if ret = 0 then some "fopen" else none
  | .fseekEnd | .ftell | .fseekSet | .malloc | .fread | .fclose => none
  | .openKvm => if ret = -1 then some "Open /dev/kvm failed!\n" else none
  | .KVM_GET_API_VERSION =>
    if ret = -1 then some "KVM_GET_API_VERSION"
    else if ret ≠ 12 then some "KVM_GET_API_VERSION not 12"
    else none
  | .KVM_CHECK_EXTENSION =>
    if ret = -1 then some "KVM_CHECK_EXTENSION"
    else if ret = 0 then some "Required extension KVM_CAP_USER_MEM not available"
    else none
  | .KVM_CREATE_VM => if ret = -1 then some "KVM_CREATE_VM" else none
  | .mmapMem => if ret = 0 then some "allocation guest memory" else none
  | .KVM_SET_USER_MEMORY_REGION => if ret = -1 then some "KVM_SET_USER_MEMORY_REGION" else none
  | .KVM_CREATE_VCPU => if ret = -1 then some "KVM_CREATE_VCPU" else none
  | .KVM_GET_VCPU_MMAP_SIZE =>
    if ret = -1 then some "KVM_GET_VCPU_MMAP_SIZE"
    else if CInt.u64 ret < runSize then some "KVM_GET_VCPU_MMAP_SIZE unexpectedly small"
    else none
  | .mmapVcpu => if ret = 0 then some "mmap vcpu" else none
  | .KVM_GET_SREGS => if ret = -1 then some "KVM_GET_SREGS" else none
  | .KVM_SET_SREGS => if ret = -1 then some "KVM_SET_SREGS" else none
  | .KVM_SET_REGS => if ret = -1 then some "KVM_SET_REGS" else none

/-- What is done with the result goes outside: `fread` behind `malloc`, where it has bytes to
    store, and `memcpy` behind `mmap`. -/
def Outcomes.faults (o : Outcomes) (m : Monitor) : Setup → Bool
  | .malloc => o.ret .malloc = 0 ∧ 0 < o.ret .fread
  | .mmapMem => o.ret .mmapMem = -1 ∧ 0 < o.codeLen m ∨ memorySize < o.codeLen m
  | _ => false

inductive Reached
  | refused (line : Text)
  | fault
  | ready

/-- `perror` -/
def errLine (o : Outcomes) (c : Setup) (text : String) : Text :=
  text.toList ++ ": ".toList ++ o.strerror c ++ "\n".toList

def setup (m : Monitor) (o : Outcomes) : List Setup → Reached
  | [] => .ready
  | c :: cs =>
    match c.refused o.runSize (o.ret c) with
    | some text => .refused (errLine o c text)
    | none => if o.faults m c then .fault else setup m o cs

def Reply.isExit : Reply → Bool
  | .failed _ => false
  | .exit _ => true

/-- The second monitor wants the name of the file. -/
def Monitor.misused (argc : Nat) : Monitor → Bool
  | .kvmRunTest1 => false
  | .kvmRunTest2 => argc ≠ 2

def usage : Text := "Parameter error, need machine code input!\n".toList

/-- `replies` is what `KVM_RUN` comes back with. None: the monitor has gone outside of its memory,
    in the end by `run->exit_reason`. -/
def main (m : Monitor) (argc : Nat) (o : Outcomes) (replies : List Reply) : Option Ended :=
  if m.misused argc then some ⟨[.stderr usage], some 1, replies⟩
  else
    match setup m o m.calls with
    | .refused line => some ⟨[.stderr line], some 1, replies⟩
    | .fault => none
    | .ready =>
      if o.ret .mmapVcpu = -1 ∧ replies.head?.any Reply.isExit = true then none
      else some (loop m replies)

/-! ## Failures -/

/-- What the calls fail with, and what the monitor cannot run with. For no bytes `malloc` may come
    back with NULL; `fread` fails where it comes back with less than it was asked for. -/
def Setup.failed (runSize asked : Nat) (ret : Int) : Setup → Bool
  | .fopen => ret = 0
  | .fseekEnd | .fseekSet | .fclose => ret ≠ 0
  | .malloc => ret = 0 ∧ 0 < asked
  | .fread => ret < asked
  | .mmapMem | .mmapVcpu => ret = -1 ∨ ret = 0
  | .KVM_GET_API_VERSION => ret ≠ 12
  | .KVM_CHECK_EXTENSION => ret = -1 ∨ ret = 0
  | .KVM_GET_VCPU_MMAP_SIZE => ret = -1 ∨ CInt.u64 ret < runSize
  | _ => ret = -1

def Outcomes.passes (o : Outcomes) (c : Setup) : Bool :=
  !c.failed o.runSize (asked o.ret) (o.ret c)

/-- The result is looked at. -/
def Setup.isChecked (c : Setup) : Bool :=
  !([.fseekEnd, .ftell, .fseekSet, .malloc, .fread, .fclose].contains c)

/-- The calls before the first that fails, and this one. -/
def passed (m : Monitor) (o : Outcomes) : List Setup := m.calls.takeWhile o.passes
def firstFailed (m : Monitor) (o : Outcomes) : Option Setup := (m.calls.dropWhile o.passes).head?

/-- The first call that fails is named, and where none fails the guest is run. -/
def Reports (m : Monitor) (argc : Nat) (o : Outcomes) (replies : List Reply) : Prop :=
  if m.misused argc then main m argc o replies = some ⟨[.stderr usage], some 1, replies⟩
  else
    match firstFailed m o with
    | some c => ∃ text, c.refused o.runSize (o.ret c) = some text ∧
        main m argc o replies = some ⟨[.stderr (errLine o c text)], some 1, replies⟩
    | none => main m argc o replies = some (loop m replies)

/-- The check of a call sees its failure, where there is one, `MAP_FAILED` apart. -/
theorem refused_isSome_iff {o : Outcomes} {c : Setup} (hc : o.passes c = false) :
    (c.refused o.runSize (o.ret c)).isSome = true ↔
      c.isChecked = true ∧ (c = .mmapMem ∨ c = .mmapVcpu → o.ret c ≠ -1) := by
  have hfailed : c.failed o.runSize (asked o.ret) (o.ret c) = true := by
    simpa [Outcomes.passes] using hc
  cases c with
  | fseekEnd | ftell | fseekSet | malloc | fread | fclose =>
    exact iff_of_false (fun h => nomatch h) fun h => nomatch h.1
  | mmapMem | mmapVcpu | KVM_CHECK_EXTENSION =>
    simp only [Setup.failed, decide_eq_true_eq] at hfailed
    rcases hfailed with h | h <;> simp [Setup.refused, Setup.isChecked, h]
  | KVM_GET_API_VERSION =>
    simp only [Setup.failed, decide_eq_true_eq] at hfailed
    by_cases h : o.ret .KVM_GET_API_VERSION = -1 <;>
      simp [Setup.refused, Setup.isChecked, h, hfailed]
  | KVM_GET_VCPU_MMAP_SIZE =>
    simp only [Setup.failed, decide_eq_true_eq] at hfailed
    by_cases h : o.ret .KVM_GET_VCPU_MMAP_SIZE = -1
    · simp [Setup.refused, Setup.isChecked, h]
    · simp [Setup.refused, Setup.isChecked, h, hfailed.resolve_left h]
  | _ =>
    simp only [Setup.failed, decide_eq_true_eq] at hfailed
    simp [Setup.refused, Setup.isChecked, hfailed]

/-- A call that has not failed is not refused. -/
theorem refused_of_passes {o : Outcomes} {c : Setup} (hc : o.passes c = true) :
    c.refused o.runSize (o.ret c) = none := by
  have hfailed : c.failed o.runSize (asked o.ret) (o.ret c) = false := by
    simpa [Outcomes.passes] using hc
  cases c with
  | fseekEnd | ftell | fseekSet | malloc | fread | fclose => rfl
  | KVM_GET_API_VERSION =>
    simp only [Setup.failed, decide_eq_false_iff_not, not_not] at hfailed
    simp [Setup.refused, hfailed]
  | _ =>
    simp only [Setup.failed, decide_eq_false_iff_not, not_or] at hfailed
    simp [Setup.refused, hfailed]

/-- With what has not failed, only code that is too long goes outside. -/
theorem faults_of_passes {o : Outcomes} {m : Monitor} {c : Setup} (hc : o.passes c = true) :
    o.faults m c = true ↔ c = .mmapMem ∧ memorySize < o.codeLen m := by
  have hfailed : c.failed o.runSize (asked o.ret) (o.ret c) = false := by
    simpa [Outcomes.passes] using hc
  cases c with
  | malloc =>
    -- without a buffer no bytes were asked for, and `fread` has none
    simp only [Setup.failed, decide_eq_false_iff_not, not_and, not_lt] at hfailed
    have hle := o.fread_le
    refine iff_of_false (fun h => ?_) fun h => nomatch h.1
    obtain ⟨hnull, hbytes⟩ := of_decide_eq_true h
    have := hfailed hnull
    omega
  | mmapMem =>
    simp only [Setup.failed, decide_eq_false_iff_not, not_or] at hfailed
    simp [Outcomes.faults, hfailed.1]
  | _ => simp [Outcomes.faults]

/-- The calls that have not failed are gone through. -/
theorem setup_append (m : Monitor) {o : Outcomes} {pre : List Setup}
    (hpre : ∀ c ∈ pre, o.passes c = true) (rest : List Setup) :
    setup m o (pre ++ rest) =
      if .mmapMem ∈ pre ∧ memorySize < o.codeLen m then .fault else setup m o rest := by
  induction pre with
  | nil => rw [List.nil_append, if_neg (by simp)]
  | cons c pre ih =>
    have hc := hpre c List.mem_cons_self
    rw [List.cons_append, setup, refused_of_passes hc]
    dsimp only
    rw [ih fun d hd => hpre d (List.mem_cons_of_mem _ hd)]
    by_cases hfault : o.faults m c = true
    · obtain ⟨rfl, hlen⟩ := (faults_of_passes hc).mp hfault
      rw [if_pos hfault, if_pos ⟨List.mem_cons_self, hlen⟩]
    · rw [if_neg hfault]
      have hnot := mt (faults_of_passes hc).mpr hfault
      refine if_congr (and_congr_left fun hlen => ?_) rfl rfl
      have hne : Setup.mmapMem ≠ c := fun h => hnot ⟨h.symm, hlen⟩
      simp [hne]

theorem mmapVcpu_mem_calls (m : Monitor) : Setup.mmapVcpu ∈ m.calls := by
  cases m <;> decide

/-- **The monitor names the first call that fails, or runs the guest, exactly where this call is
    looked at, and no `mmap` that came back with `MAP_FAILED`, and the code fits into the memory if
    it was copied.** -/
theorem main_reports_iff (m : Monitor) (argc : Nat) (o : Outcomes) (replies : List Reply) :
    Reports m argc o replies ↔ m.misused argc = true ∨
      (∀ c, firstFailed m o = some c →
        c.isChecked = true ∧ (c = .mmapMem ∨ c = .mmapVcpu → o.ret c ≠ -1)) ∧
      (.mmapMem ∈ passed m o → o.codeLen m ≤ memorySize) := by
  by_cases hmisused : m.misused argc = true
  · simp [Reports, main, hmisused]
  have hpassed : ∀ c ∈ passed m o, o.passes c = true := fun c hc => List.mem_takeWhile_imp hc
  have hsplit : passed m o ++ m.calls.dropWhile o.passes = m.calls :=
    List.takeWhile_append_dropWhile
  have hsetup : setup m o m.calls =
      if .mmapMem ∈ passed m o ∧ memorySize < o.codeLen m then .fault
      else setup m o (m.calls.dropWhile o.passes) := by
    conv_lhs => rw [← hsplit]
    exact setup_append m hpassed _
  have hfirst := List.head?_dropWhile_not o.passes m.calls
  unfold Reports main firstFailed
  rw [hsetup, if_neg hmisused, if_neg hmisused, or_iff_right hmisused]
  by_cases hlong : .mmapMem ∈ passed m o ∧ memorySize < o.codeLen m
  · -- the copy goes outside
    rw [if_pos hlong]
    refine iff_of_false ?_ fun h => absurd (h.2 hlong.1) (by omega)
    split <;> simp
  · rw [if_neg hlong]
    have hfits : .mmapMem ∈ passed m o → o.codeLen m ≤ memorySize := fun hmem => by
      by_contra hlen
      exact hlong ⟨hmem, by omega⟩
    rw [and_iff_left hfits]
    cases hstopped : m.calls.dropWhile o.passes with
    | nil =>
      -- no call fails
      have hvcpu : o.ret .mmapVcpu ≠ -1 := by
        rw [hstopped, List.append_nil] at hsplit
        have hpass := hpassed _ (hsplit ▸ mmapVcpu_mem_calls m)
        intro hret
        simp [Outcomes.passes, Setup.failed, hret] at hpass
      simp [setup, hvcpu]
    | cons c cs =>
      rw [hstopped] at hfirst
      have hc : o.passes c = false := hfirst
      simp only [List.head?_cons, Option.some.injEq, forall_eq', ← refused_isSome_iff hc, setup]
      cases hrefused : c.refused o.runSize (o.ret c) with
      | none => simp
      | some text => simp

end LinuxSummary.Kvm
