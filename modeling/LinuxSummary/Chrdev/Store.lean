/-
  The read and write functions of `ofcd.c` and `hello_chrdev.c`, as a 256-byte store.

  Both drivers copy `len` bytes from or to the start of their buffer and leave the file
  position alone. Kernel memory is a function of the distance from the buffer, so that a copy
  past its end is visible. Each call records the indices it touches.

  `store_calls`: a sequence of calls stays inside the buffer and behind the positions of
  its readers exactly when the lengths do. `not_catches`: no reader that goes on until it gets
  0 ever obtains the content, whatever was written and however much it asks for at a time.
-/
import LinuxSummary.Library.Machine
import LinuxSummary.Library.CInt

namespace LinuxSummary.Chrdev.Store

open Machine

/-- `sizeof(messages)` -/
def BUFFER_LEN : Nat := 256

/-- The static variables: the memory from `messages[0]` on, and the number of opens. -/
structure Device where
  messages : Nat → UInt8
  numberOpens : Int

/-- What a call does: the state it leaves, its value, the bytes for user space, the file
    position, and the indices of the buffer that it touches. -/
structure Done where
  dev : Device
  ret : Int
  bytes : List UInt8
  offset : Nat
  touched : List Nat

/-- `ofcd.c`: `my_open`; `hello_chrdev.c`: `dev_open`. -/
def driverOpen (d : Device) (offset : Nat) : Done :=
  ⟨{ d with numberOpens := CInt.int32 (d.numberOpens + 1) }, 0, [], offset, []⟩

/-- `my_read`, `dev_read` with a `copy_to_user` that succeeds. -/
def driverRead (d : Device) (len offset : Nat) : Done :=
  ⟨d, len, (List.range len).map d.messages, offset, List.range len⟩

/-- `my_write`, `dev_write` with a `copy_from_user` that succeeds. -/
def driverWrite (d : Device) (buffer : List UInt8) (offset : Nat) : Done :=
  ⟨{ d with messages := fun i => buffer[i]?.getD (d.messages i) }, buffer.length, [], offset,
    List.range buffer.length⟩

/-! ## Sequences of calls -/

inductive Call
  | open_ (offset : Nat)
  | read (len offset : Nat)
  | write (buffer : List UInt8) (offset : Nat)

def call (d : Device) : Call → Done
  | .open_ offset => driverOpen d offset
  | .read len offset => driverRead d len offset
  | .write buffer offset => driverWrite d buffer offset

def step (d : Device) (c : Call) : Device := (call d c).dev

/-- The call touches the buffer only, and a read returns at most what is left behind its
    position, from the buffer. -/
def Bounded (d : Device) (c : Call) : Prop :=
  (∀ i ∈ (call d c).touched, i < BUFFER_LEN) ∧
    match c with
    | .read _ offset =>
      (call d c).ret ≤ (BUFFER_LEN - offset : Nat) ∧
        ∀ b ∈ (call d c).bytes, ∃ i, i < BUFFER_LEN ∧ b = d.messages i
    | _ => True

/-- The length keeps inside the buffer; of a read also behind its position. -/
def Fits : Call → Prop
  | .open_ _ => True
  | .read len offset => len ≤ BUFFER_LEN - offset
  | .write buffer _ => buffer.length ≤ BUFFER_LEN

theorem range_below {n k : Nat} : (∀ i ∈ List.range n, i < k) ↔ n ≤ k := by
  constructor
  · intro h
    by_contra hn
    have := h k (List.mem_range.mpr (by omega))
    omega
  · intro h i hi
    have := List.mem_range.mp hi
    omega

theorem bounded_iff (d : Device) (c : Call) : Bounded d c ↔ Fits c := by
  cases c with
  | open_ offset =>
    refine iff_of_true ⟨fun i hi => ?_, trivial⟩ trivial
    exact absurd hi (by simp [call, driverOpen])
  | read len offset =>
    unfold Bounded Fits
    constructor
    · intro h
      have hret : (len : Int) ≤ (BUFFER_LEN - offset : Nat) := h.2.1
      omega
    · intro h
      have hlen : len ≤ BUFFER_LEN := h.trans (Nat.sub_le _ _)
      refine ⟨range_below.mpr hlen, Int.ofNat_le.mpr h, fun b hb => ?_⟩
      obtain ⟨i, hi, rfl⟩ := List.mem_map.mp hb
      exact ⟨i, range_below.mpr hlen i hi, rfl⟩
  | write buffer offset => exact (and_iff_left trivial).trans range_below

/-! ## A reader that goes on until it gets 0 -/

/-- `cat`, from a position on, asking for `n` bytes at a time: what it has obtained once a read
    returns 0, none while it still reads. -/
def cat (d : Device) (n : Nat) : Nat → Nat → Option (List UInt8)
  | 0, _ => none
  | fuel + 1, offset =>
    let done := driverRead d n offset
    if done.ret = 0 then some [] else (cat done.dev n fuel done.offset).map (done.bytes ++ ·)

/-- The reader comes to an end and has the content of the buffer, once. -/
def Catches (d : Device) (n : Nat) : Prop :=
  ∃ fuel, cat d n fuel 0 = some ((List.range BUFFER_LEN).map d.messages)

/-- A reader that asks for something reads on for ever. -/
theorem cat_none (d : Device) {n : Nat} (hn : 0 < n) (fuel offset : Nat) :
    cat d n fuel offset = none := by
  induction fuel generalizing offset with
  | zero => rfl
  | succ fuel ih =>
    have hret : (driverRead d n offset).ret ≠ 0 := by
      show (n : Int) ≠ 0
      omega
    unfold cat
    rw [if_neg hret]
    show (cat d n fuel offset).map _ = none
    rw [ih, Option.map_none]

theorem not_catches (d : Device) (n : Nat) : ¬ Catches d n := by
  intro h
  obtain ⟨fuel, h⟩ := h
  rcases Nat.eq_zero_or_pos n with rfl | hn
  · cases fuel with
    | zero => exact absurd h (by simp [cat])
    | succ fuel =>
      have hnil : cat d 0 (fuel + 1) 0 = some [] := rfl
      rw [hnil] at h
      have := congrArg List.length (Option.some.inj h)
      simp [BUFFER_LEN] at this
  · rw [cat_none d hn] at h
    exact absurd h (by simp)

/-- The device is a bounded file: each call is bounded, and behind the calls a reader obtains
    the content, however many bytes it asks for at a time. -/
def FileLike (d : Device) (calls : List Call) : Prop :=
  Along Bounded step d calls ∧ ∀ n, 0 < n → Catches (calls.foldl step d) n

/-- **The bounds hold exactly when the lengths fit, and the end of the file is never reached**:
    on no sequence of calls is the device a bounded file. -/
theorem store_calls (d : Device) (calls : List Call) :
    (Along Bounded step d calls ↔ ∀ c ∈ calls, Fits c) ∧
      (∀ n, ¬ Catches (calls.foldl step d) n) ∧ ¬ FileLike d calls := by
  refine ⟨?_, fun n => not_catches _ n, fun h => not_catches _ 1 (h.2 1 one_pos)⟩
  exact (along_congr (I := fun _ => True) (fun d c _ => bounded_iff d c) (fun _ _ _ _ => trivial)
    trivial calls).trans (along_forall d calls)

/-- Five bytes are written, and `cat` asks for 256. -/
theorem not_fileLike_hello :
    ¬ FileLike ⟨fun _ => 0, 0⟩ [.open_ 0, .write [104, 101, 108, 108, 111] 0] :=
  fun h => not_catches _ 256 (h.2 256 (by decide))

end LinuxSummary.Chrdev.Store
