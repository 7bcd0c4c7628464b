/-
  Integer conversions of C on a 64-bit machine. Proof-only, nothing about one program.

  `int32` and `int64` are the conversions to `int` and `long` (two's complement), `u32` and `u64`
  those to `unsigned int` and `unsigned long`. Each is the identity on the numbers of its own type.
-/
import Mathlib

namespace CInt

/-- `(int)x` -/
def int32 (x : Int) : Int := Int.bmod x (2 ^ 32)

/-- `(long)x` -/
def int64 (x : Int) : Int := Int.bmod x (2 ^ 64)

/-- `(unsigned int)x` -/
def u32 (x : Int) : Nat := (x % 2 ^ 32).toNat

/-- `(unsigned long)x` -/
def u64 (x : Int) : Nat := (x % 2 ^ 64).toNat

theorem int32_range (x : Int) : -2 ^ 31 ≤ int32 x ∧ int32 x < 2 ^ 31 := by
  unfold int32
  constructor
  · exact Int.le_bmod (by decide)
  · exact Int.bmod_lt (by decide)

theorem int32_of_range {x : Int} (h1 : -2 ^ 31 ≤ x) (h2 : x < 2 ^ 31) : int32 x = x := by
  unfold int32
  rw [Int.bmod_def]
  omega

theorem int32_of_nat {n : Nat} (h : n < 2 ^ 31) : int32 n = n :=
  int32_of_range (by omega) (by omega)

theorem int64_of_range {x : Int} (h1 : -2 ^ 63 ≤ x) (h2 : x < 2 ^ 63) : int64 x = x := by
  unfold int64
  rw [Int.bmod_def]
  omega

theorem u32_of_nat {n : Nat} (h : n < 2 ^ 32) : u32 n = n := by
  unfold u32
  omega

/-- An `int` holds all bits of an `unsigned int`. -/
theorem u32_int32 (x : Int) : u32 (int32 x) = u32 x := by
  unfold u32 int32
  rw [Int.bmod_def]
  omega

/-- The sign of an `int` is its highest bit. -/
theorem int32_neg_iff (x : Int) : int32 x < 0 ↔ 2 ^ 31 ≤ u32 x := by
  unfold u32 int32
  rw [Int.bmod_def]
  omega

theorem u64_of_nat {n : Nat} (h : n < 2 ^ 64) : u64 n = n := by
  unfold u64
  omega

end CInt
