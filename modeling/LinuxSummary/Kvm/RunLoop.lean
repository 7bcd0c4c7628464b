/-
  The KVM_RUN loops of `kvm_run_test1.c` and `kvm_run_test2.c`.

  The guest is the list of what its `KVM_RUN` calls come back with. The two loops differ in
  one line that the first prints for an I/O exit it does not handle (`Monitor.ioLine`).

  `handle_cases` says what one turn of the loop does. `faithful_iff`: the loop reports the
  outcome of the guest exactly when the exit it stops at is none of the reasons that fall
  into `default:`, for which it returns 0 as for a halt.
-/
import LinuxSummary.Library.CInt
import LinuxSummary.Library.Printf

namespace LinuxSummary.Kvm

/-! ## What the kernel hands back -/

/-- `run->io`, with the byte at `data_offset`. -/
structure Io where
  direction : Nat
  size : Nat
  port : Nat
  count : Nat
  data : UInt8
deriving DecidableEq

/-- The part of `struct kvm_run` that the loops read. -/
structure Run where
  exitReason : Nat
  io : Io
  hardwareEntryFailureReason : Nat
  suberror : Nat
deriving DecidableEq

/-- What a `KVM_RUN` comes back with: -1 and the text of `errno`, or an exit. -/
inductive Reply
  | failed (strerror : Text)
  | exit (run : Run)
deriving DecidableEq

def KVM_EXIT_IO : Nat := 2
def KVM_EXIT_HLT : Nat := 5
def KVM_EXIT_FAIL_ENTRY : Nat := 9
def KVM_EXIT_INTERNAL_ERROR : Nat := 17
def KVM_EXIT_IO_OUT : Nat := 1

/-! ## The loops -/

/-- One thing that is printed: by `putchar`, or a line of the monitor itself. -/
inductive Printed
  | putchar (c : UInt8)
  | stdout (line : Text)
  | stderr (line : Text)
deriving DecidableEq

inductive Monitor
  | kvmRunTest1
  | kvmRunTest2
deriving DecidableEq

/-- The line on stdout for an I/O exit that is not handled. -/
def Monitor.ioLine : Monitor → Io → List Printed
  | .kvmRunTest1, io =>
    [.stdout ("KVM_EXIT_IO size:".toList ++ Printf.udec io.size ++ " port:0x".toList ++
      Printf.hex io.port ++ " count:".toList ++ Printf.dec (CInt.int32 io.count) ++
      "\n".toList)]
  | .kvmRunTest2, _ => []

/-- One turn of the loop: what is printed, and the status where `main` returns. -/
def handle (m : Monitor) : Reply → List Printed × Option Nat
  | .failed strerror => ([.stderr ("KVM_RUN: ".toList ++ strerror ++ "\n".toList)], some 1)
  | .exit run =>
    if run.exitReason = KVM_EXIT_HLT then ([.stdout "KVM_EXIT_HLT\n".toList], some 0)
    else if run.exitReason = KVM_EXIT_IO then
      if run.io.direction = KVM_EXIT_IO_OUT ∧ run.io.size = 1 ∧ run.io.port = 0x3f8 ∧
          run.io.count = 1 then
        ([.putchar run.io.data], none)
      else (.stderr "unhandled KVM_EXIT_IO\n".toList :: m.ioLine run.io, some 1)
    else if run.exitReason = KVM_EXIT_FAIL_ENTRY then
      ([.stderr ("KVM_EXIT_FAIL_ENTRY: hardware_entry_failure_reason=0x".toList ++
        Printf.hex run.hardwareEntryFailureReason ++ "\n".toList)], some 1)
    else if run.exitReason = KVM_EXIT_INTERNAL_ERROR then
      ([.stderr ("KVM_EXIT_INTERNAL_ERROR: suberror=0x".toList ++ Printf.hex run.suberror ++
        "\n".toList)], some 1)
    else
      ([.stderr ("exit_reason=0x".toList ++ Printf.hex run.exitReason ++ "\n".toList)], some 0)

/-- How far a loop got: what it printed, the status it returned, and what it did not run. -/
structure Ended where
  printed : List Printed
  status : Option Nat
  rest : List Reply

/-- `while(1)`, on a guest whose next calls come back as listed. -/
def loop (m : Monitor) : List Reply → Ended
  | [] => ⟨[], none, []⟩
  | r :: rs =>
    match handle m r with
    | (out, some status) => ⟨out, some status, rs⟩
    | (out, none) => ⟨out ++ (loop m rs).printed, (loop m rs).status, (loop m rs).rest⟩

/-! ## What the guest did -/

/-- The byte of a single-byte `OUT` to port 0x3f8. -/
def Reply.out? : Reply → Option UInt8
  | .failed _ => none
  | .exit run =>
    if run.exitReason = KVM_EXIT_IO ∧ run.io.direction = KVM_EXIT_IO_OUT ∧ run.io.size = 1 ∧
        run.io.port = 0x3f8 ∧ run.io.count = 1 then some run.io.data else none

def Reply.isHlt : Reply → Bool
  | .failed _ => false
  | .exit run => run.exitReason = KVM_EXIT_HLT

/-- An exit for a reason that the loops have no case for. -/
def Reply.isOther : Reply → Bool
  | .failed _ => false
  | .exit run => !([KVM_EXIT_HLT, KVM_EXIT_IO, KVM_EXIT_FAIL_ENTRY,
      KVM_EXIT_INTERNAL_ERROR].contains run.exitReason)

/-- The bytes that the guest wrote before its run ended. -/
def guestBytes (rs : List Reply) : List UInt8 := (rs.takeWhile (·.out?.isSome)).filterMap (·.out?)

/-- The first reply that is no such `OUT`, and what comes behind it. -/
def outcome (rs : List Reply) : List Reply := rs.dropWhile (·.out?.isSome)

/-- What stdout has, the lines of the monitor left aside. -/
def shown (out : List Printed) : List UInt8 :=
  out.filterMap fun
    | .putchar c => some c
    | _ => none

/-- The loop put the bytes of the guest on stdout, stopped at the first reply that is no `OUT`,
    and returned 0 exactly for a halt. -/
def Faithful (m : Monitor) (rs : List Reply) : Prop :=
  shown (loop m rs).printed = guestBytes rs ∧
    (loop m rs).rest = (outcome rs).tail ∧
    match outcome rs with
    | [] => (loop m rs).status = none
    | last :: _ => ∃ status, (loop m rs).status = some status ∧ (status = 0 ↔ last.isHlt = true)

/-! ## One turn, and the whole run -/

/-- What one turn can do: pass a byte on, or return without a byte. -/
theorem handle_cases (m : Monitor) (r : Reply) :
    (∃ c, r.out? = some c ∧ handle m r = ([.putchar c], none)) ∨
    (r.out? = none ∧ ∃ out status, handle m r = (out, some status) ∧ shown out = [] ∧
      (status = 0 ↔ r.isHlt = true ∨ r.isOther = true)) := by
  cases r with
  | failed strerror =>
    refine .inr ⟨rfl, _, _, rfl, rfl, ?_⟩
    simp [Reply.isHlt, Reply.isOther]
  | exit run =>
    by_cases hhlt : run.exitReason = KVM_EXIT_HLT
    · refine .inr ⟨?_, _, _, by rw [handle, if_pos hhlt], rfl, ?_⟩
      · rw [Reply.out?, if_neg]
        intro h
        exact absurd (hhlt.symm.trans h.1) (by decide)
      · simp [Reply.isHlt, hhlt]
    have hno : (Reply.exit run).isHlt = false := decide_eq_false hhlt
    by_cases hio : run.exitReason = KVM_EXIT_IO
    · by_cases hout : run.io.direction = KVM_EXIT_IO_OUT ∧ run.io.size = 1 ∧
          run.io.port = 0x3f8 ∧ run.io.count = 1
      · refine .inl ⟨run.io.data, ?_, ?_⟩
        · rw [Reply.out?, if_pos ⟨hio, hout⟩]
        · rw [handle, if_neg hhlt, if_pos hio, if_pos hout]
      · refine .inr ⟨?_, _, _, by rw [handle, if_neg hhlt, if_pos hio, if_neg hout], ?_, ?_⟩
        · rw [Reply.out?, if_neg fun h => hout h.2]
        · cases m <;> rfl
        · rw [hno]
          simp [Reply.isOther, hio]
    have hnone : (Reply.exit run).out? = none := by
      rw [Reply.out?, if_neg fun h => hio h.1]
    by_cases hfail : run.exitReason = KVM_EXIT_FAIL_ENTRY
    · refine .inr ⟨hnone, _, _,
        by rw [handle, if_neg hhlt, if_neg hio, if_pos hfail], rfl, ?_⟩
      rw [hno]
      simp [Reply.isOther, hfail]
    by_cases hint : run.exitReason = KVM_EXIT_INTERNAL_ERROR
    · refine .inr ⟨hnone, _, _,
        by rw [handle, if_neg hhlt, if_neg hio, if_neg hfail, if_pos hint], rfl, ?_⟩
      rw [hno]
      simp [Reply.isOther, hint]
    · refine .inr ⟨hnone, _, _,
        by rw [handle, if_neg hhlt, if_neg hio, if_neg hfail, if_neg hint], rfl, ?_⟩
      simp [Reply.isOther, hhlt, hio, hfail, hint]

/-- The run of the loop: the bytes, then the turn that returns. -/
theorem loop_spec (m : Monitor) (rs : List Reply) :
    shown (loop m rs).printed = guestBytes rs ∧ (loop m rs).rest = (outcome rs).tail ∧
      match outcome rs with
      | [] => (loop m rs).status = none
      | last :: _ => ∃ status, (loop m rs).status = some status ∧
          (status = 0 ↔ last.isHlt = true ∨ last.isOther = true) := by
  induction rs with
  | nil => exact ⟨rfl, rfl, rfl⟩
  | cons r rs ih =>
    obtain ⟨hshown, hrest, hstatus⟩ := ih
    rcases handle_cases m r with ⟨c, hc, hturn⟩ | ⟨hc, out, status, hturn, hquiet, hzero⟩
    · have hbytes : guestBytes (r :: rs) = c :: guestBytes rs := by
        simp [guestBytes, hc]
      have hout : outcome (r :: rs) = outcome rs := by
        simp [outcome, hc]
      rw [hbytes, hout]
      simp only [loop, hturn]
      refine ⟨?_, hrest, hstatus⟩
      rw [← hshown]
      rfl
    · have hbytes : guestBytes (r :: rs) = [] := by
        simp [guestBytes, hc]
      have hout : outcome (r :: rs) = r :: rs := by
        simp [outcome, hc]
      rw [hbytes, hout]
      simp only [loop, hturn]
      exact ⟨hquiet, rfl, status, rfl, hzero⟩

/-- **The outcome is reported exactly when the last reply has a case of its own.** -/
theorem faithful_iff (m : Monitor) (rs : List Reply) :
    Faithful m rs ↔ ∀ last ∈ (outcome rs).head?, last.isOther = false := by
  obtain ⟨hshown, hrest, hstatus⟩ := loop_spec m rs
  unfold Faithful
  cases ho : outcome rs with
  | nil =>
    rw [ho] at hrest hstatus
    exact ⟨fun _ last h => absurd h (by simp), fun _ => ⟨hshown, hrest, hstatus⟩⟩
  | cons last tail =>
    rw [ho] at hrest hstatus
    obtain ⟨status, hst, hzero⟩ := hstatus
    have hexcl : last.isHlt = true → last.isOther = false := by
      cases last with
      | failed _ => exact fun _ => rfl
      | exit run =>
        intro h
        have : run.exitReason = KVM_EXIT_HLT := of_decide_eq_true h
        simp [Reply.isOther, this]
    constructor
    · rintro ⟨-, -, status', hst', hiff⟩ l hl
      obtain rfl := Option.some.inj (hst.symm.trans hst')
      obtain rfl : last = l := by simpa using hl
      by_contra hother
      have hhlt := hiff.mp (hzero.mpr (.inr (by simpa using hother)))
      exact hother (hexcl hhlt)
    · intro hall
      have hno : last.isOther = false := hall last (by simp)
      refine ⟨hshown, hrest, status, hst, ?_⟩
      rw [hzero, hno]
      simp

/-- A guest that prints a byte and shuts down at once (exit reason 8): the status is 0. -/
theorem not_faithful_shutdown :
    ¬ Faithful .kvmRunTest1 [.exit ⟨ KVM_EXIT_IO, ⟨KVM_EXIT_IO_OUT, 1, 0x3f8, 1, 52⟩, 0, 0⟩,
      .exit ⟨8, ⟨0, 0, 0, 0, 0⟩, 0, 0⟩] := by
  intro h
  obtain ⟨status, hst, hiff⟩ := h.2.2
  obtain rfl : (0 : Nat) = status := Option.some.inj hst
  exact absurd (hiff.mp rfl) (by decide)

end LinuxSummary.Kvm
