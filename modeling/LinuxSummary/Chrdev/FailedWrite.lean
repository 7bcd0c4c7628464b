/-
  The read and write functions of `ofcd.c` and `hello_chrdev.c` where the copy from or to user
  space meets a fault.

  `copy_from_user` writes the buffer of the driver in place. At a fault it has stored some
  bytes, may have cleared the others, and says how many it has not copied; the drivers turn
  that into `-EFAULT`. Both have the same two functions. With a copy that goes through they
  are the ones of the store (`userRead_whole`, `userWrite_whole`).

  `failed_write`: what a failed write leaves in each byte, and when that is what was there.
-/
import LinuxSummary.Chrdev.Store

namespace LinuxSummary.Chrdev.Store

def EFAULT : Int := 14

/-! ## Copies -/

/-- How a copy ends: it goes through, or meets a fault behind `k` bytes; `zeroes` says
    whether the rest of a destination in the kernel is cleared then. -/
inductive UserCopy
  | whole
  | fault (k : Nat) (zeroes : Bool)

/-- The number of bytes that are not copied. -/
def UserCopy.left (len : Nat) : UserCopy → Nat
  | .whole => 0
  | .fault k _ => len - k

/-- What a copy leaves in the kernel, from the destination on. -/
def UserCopy.dest (dst : Nat → UInt8) (bytes : List UInt8) : UserCopy → Nat → UInt8
  | .whole, i => bytes[i]?.getD (dst i)
  | .fault k zeroes, i =>
    if i < k then bytes[i]?.getD (dst i)
    else if zeroes = true ∧ i < bytes.length then 0
    else dst i

/-- The indices of the destination that are written. -/
def UserCopy.stored (len : Nat) : UserCopy → List Nat
  | .whole => List.range len
  | .fault k zeroes => List.range (if zeroes = true then len else min k len)

/-- `copy_from_user(dst, bytes, len)`: what it returns, and the destination behind it. -/
def copyFromUser (dst : Nat → UInt8) (bytes : List UInt8) (copy : UserCopy) :
    Nat × (Nat → UInt8) :=
  (copy.left bytes.length, copy.dest dst bytes)

/-- `copy_to_user(.., src, len)`: what it returns, and the bytes that user space has. -/
def copyToUser (src : Nat → UInt8) (len : Nat) (copy : UserCopy) : Nat × List UInt8 :=
  (copy.left len, (List.range (len - copy.left len)).map src)

/-! ## The calls -/

/-- A read function: user space has the bytes that were copied, also when it fails. -/
def userRead (d : Device) (len offset : Nat) (copy : UserCopy) : Done :=
  let copied := copyToUser d.messages len copy
  if copied.1 ≠ 0 then ⟨d, -EFAULT, copied.2, offset, List.range (len - copied.1)⟩
  else ⟨d, len, copied.2, offset, List.range len⟩

/-- A write function. -/
def userWrite (d : Device) (buffer : List UInt8) (offset : Nat) (copy : UserCopy) : Done :=
  let copied := copyFromUser d.messages buffer copy
  let d' := { d with messages := copied.2 }
  if copied.1 ≠ 0 then ⟨d', -EFAULT, [], offset, copy.stored buffer.length⟩
  else ⟨d', buffer.length, [], offset, copy.stored buffer.length⟩

/-- `ofcd.c` -/
def myRead := userRead
def myWrite := userWrite

/-- `hello_chrdev.c` -/
def devRead := userRead
def devWrite := userWrite

/-- The two drivers. -/
inductive Driver
  | ofcd
  | helloChrdev

def Driver.read : Driver → Device → Nat → Nat → UserCopy → Done
  | .ofcd => myRead
  | .helloChrdev => devRead

def Driver.write : Driver → Device → List UInt8 → Nat → UserCopy → Done
  | .ofcd => myWrite
  | .helloChrdev => devWrite

theorem Driver.read_eq (v : Driver) : v.read = userRead := by
  cases v <;> rfl

theorem Driver.write_eq (v : Driver) : v.write = userWrite := by
  cases v <;> rfl

theorem userRead_whole (d : Device) (len offset : Nat) :
    userRead d len offset .whole = driverRead d len offset := rfl

theorem userWrite_whole (d : Device) (buffer : List UInt8) (offset : Nat) :
    userWrite d buffer offset .whole = driverWrite d buffer offset := rfl

/-- No read changes the device. -/
theorem userRead_dev (d : Device) (len offset : Nat) (copy : UserCopy) :
    (userRead d len offset copy).dev = d := by
  unfold userRead
  dsimp only
  split <;> rfl

/-! ## A write that fails -/

/-- The buffer of the driver is what it was. -/
def Kept (d d' : Device) : Prop := ∀ i, i < BUFFER_LEN → d'.messages i = d.messages i

/-- Every read gives what it gave before, and so do the reads behind it. -/
def ReadsKept (v : Driver) (d d' : Device) : Prop :=
  ∀ len offset copy, len ≤ BUFFER_LEN →
    (v.read d' len offset copy).ret = (v.read d len offset copy).ret ∧
      (v.read d' len offset copy).bytes = (v.read d len offset copy).bytes ∧
      (v.read d' len offset copy).dev = d'

/-- The bytes that were stored were there before, and so were the zeroes. -/
def Harmless (d : Device) (buffer : List UInt8) (k : Nat) (zeroes : Bool) : Prop :=
  (∀ i, i < k → buffer[i]? = some (d.messages i)) ∧
    (zeroes = true → ∀ i, k ≤ i → i < buffer.length → d.messages i = 0)

theorem userRead_ret (d : Device) (len offset : Nat) (copy : UserCopy) :
    (userRead d len offset copy).ret = if copy.left len ≠ 0 then -EFAULT else (len : Int) := by
  unfold userRead copyToUser
  dsimp only
  split <;> rfl

theorem userRead_bytes (d : Device) (len offset : Nat) (copy : UserCopy) :
    (userRead d len offset copy).bytes = (List.range (len - copy.left len)).map d.messages := by
  unfold userRead copyToUser
  dsimp only
  split <;> rfl

theorem readsKept_iff (v : Driver) (d d' : Device) : ReadsKept v d d' ↔ Kept d d' := by
  unfold ReadsKept Kept
  rw [v.read_eq]
  constructor
  · intro h i hi
    have hbytes := (h BUFFER_LEN 0 .whole le_rfl).2.1
    rw [userRead_bytes, userRead_bytes] at hbytes
    exact List.map_inj_left.mp hbytes i (List.mem_range.mpr hi)
  · intro h len offset copy hlen
    refine ⟨by rw [userRead_ret, userRead_ret], ?_, userRead_dev d' len offset copy⟩
    rw [userRead_bytes, userRead_bytes]
    apply List.map_congr_left
    intro i hi
    have hi' := List.mem_range.mp hi
    exact h i (by omega)

theorem dest_rest {d : Device} {buffer : List UInt8} {k : Nat} (zeroes : Bool) {i : Nat}
    (hi : k ≤ i) : (UserCopy.fault k zeroes).dest d.messages buffer i =
      if zeroes = true ∧ i < buffer.length then 0 else d.messages i :=
  if_neg (Nat.not_lt.mpr hi)

section
variable {d : Device} {buffer : List UInt8} {k : Nat} (hk : k < buffer.length) (zeroes : Bool)
include hk

theorem userWrite_fault (offset : Nat) : userWrite d buffer offset (.fault k zeroes) =
    ⟨{ d with messages := (UserCopy.fault k zeroes).dest d.messages buffer }, -EFAULT, [], offset,
      (UserCopy.fault k zeroes).stored buffer.length⟩ := by
  have hleft : (UserCopy.fault k zeroes).left buffer.length ≠ 0 := by
    show buffer.length - k ≠ 0
    omega
  exact if_pos hleft

theorem dest_stored {i : Nat} (hi : i < k) :
    some ((UserCopy.fault k zeroes).dest d.messages buffer i) = buffer[i]? := by
  have hdest : (UserCopy.fault k zeroes).dest d.messages buffer i =
      buffer[i]?.getD (d.messages i) := if_pos hi
  rw [hdest, List.getElem?_eq_getElem (hi.trans hk), Option.getD_some]

/-- The copy leaves the buffer as it was exactly when it stores what was there. -/
theorem dest_kept_iff (hlen : buffer.length ≤ BUFFER_LEN) :
    Kept d { d with messages := (UserCopy.fault k zeroes).dest d.messages buffer } ↔
      Harmless d buffer k zeroes := by
  constructor
  · intro h
    refine ⟨fun i hi => ?_, fun hz i hi hil => ?_⟩
    · have hkept := h i (by omega)
      rw [← dest_stored hk zeroes hi]
      exact congrArg some hkept
    · have hkept := h i (by omega)
      have hrest : (UserCopy.fault k zeroes).dest d.messages buffer i = 0 :=
        (dest_rest zeroes hi).trans (if_pos ⟨hz, hil⟩)
      exact hkept.symm.trans hrest
  · intro h i _
    show (UserCopy.fault k zeroes).dest d.messages buffer i = d.messages i
    by_cases hi : i < k
    · apply Option.some.inj
      rw [dest_stored hk zeroes hi, h.1 i hi]
    · rw [dest_rest zeroes (by omega)]
      split
      · next hz => exact (h.2 hz.1 i (by omega) hz.2).symm
      · rfl

end

/-- **What a write leaves that fails behind `k` bytes**: these, in front of zeroes or of what was
    there, in front of what was there. The message and every later read are as before exactly
    when the same bytes were there. -/
theorem failed_write (v : Driver) (d : Device) {buffer : List UInt8}
    (hlen : buffer.length ≤ BUFFER_LEN) {k : Nat} (hk : k < buffer.length) (zeroes : Bool)
    (offset : Nat) :
    (v.write d buffer offset (.fault k zeroes)).ret = -EFAULT ∧
      (∀ i, i < k →
        some ((v.write d buffer offset (.fault k zeroes)).dev.messages i) = buffer[i]?) ∧
      (∀ i, k ≤ i → (v.write d buffer offset (.fault k zeroes)).dev.messages i =
        if zeroes = true ∧ i < buffer.length then 0 else d.messages i) ∧
      (Kept d (v.write d buffer offset (.fault k zeroes)).dev ↔ Harmless d buffer k zeroes) ∧
      (ReadsKept v d (v.write d buffer offset (.fault k zeroes)).dev ↔
        Harmless d buffer k zeroes) := by
  rw [readsKept_iff, v.write_eq, userWrite_fault hk]
  exact ⟨rfl, fun i hi => dest_stored hk zeroes hi, fun i hi => dest_rest zeroes hi,
    dest_kept_iff hk zeroes hlen, dest_kept_iff hk zeroes hlen⟩

/-- A buffer of zeroes. -/
def blank : Device := ⟨fun _ => 0, 0⟩

def hello : List UInt8 := [104, 101, 108, 108, 111]

theorem failed_write_hello :
    (Driver.write .ofcd blank hello 0 (.fault 2 false)).ret = -EFAULT ∧
      (Driver.write .ofcd blank hello 0 (.fault 2 false)).dev.messages 2 =
        0 := by
  have hlen : hello.length ≤ BUFFER_LEN := by decide
  have hk : 2 < hello.length := by decide
  have h := failed_write .ofcd blank hlen hk false 0
  exact ⟨h.1, h.2.2.1 2 le_rfl⟩

/-- Two bytes of `hello` are left behind the failure. -/
theorem not_kept_hello : ¬ ∀ (v : Driver) (d : Device) (buffer : List UInt8) (k offset : Nat)
    (zeroes : Bool), buffer.length ≤ BUFFER_LEN → k < buffer.length →
      (v.write d buffer offset (.fault k zeroes)).ret = -EFAULT →
      Kept d (v.write d buffer offset (.fault k zeroes)).dev ∧
        ReadsKept v d (v.write d buffer offset (.fault k zeroes)).dev := by
  intro h
  have hkept := (h .ofcd blank hello 2 0 false (by decide) (by decide) rfl).1
  exact absurd (hkept 0 (by decide)) (by decide)

end LinuxSummary.Chrdev.Store
