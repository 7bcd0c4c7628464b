/-
  The script `cpuid_eax04h_cache.py`: the size of a cache from `ebx` and `ecx` of CPUID leaf 4.

  `get_bits` cuts the piece `[start:end]` out of the digits in base 2, the lowest first, and
  reads it as a number. Where the number has that many digits it is the bit field without its
  upper bound (`getBits_ok`), and where it has not there is nothing to read (`getBits_short`).
  `main` gives the upper bounds of the manual, so that a field loses its top bit.
-/
import LinuxSummary.Library.Python

namespace LinuxSummary.Perf

open Python Python.Script

/-- `int(bin(d)[2:][::-1][start:end][::-1], 2)` -/
def getBits (d : Int) (start stop : Nat) : Except Exn Int :=
  let s := ((bin d).drop 2).reverse
  int 2 (slice s start stop).reverse

def usage (prog : Text) : Text := "Usage ".toList ++ prog ++ " <ebx> <ecx>".toList

/-- The line of the registers. -/
def fieldsLine (ebx ecx ways partition lineSize : Int) : Text :=
  "ebx:0x".toList ++ Python.hex ebx ++ " ecx:0x".toList ++ Python.hex ecx ++ " ways:0x".toList ++
    Python.hex ways ++ " partition:0x".toList ++ Python.hex partition ++ " line_size:0x".toList ++
    Python.hex lineSize

def cacheLine (cache : Int) : Text := "cache:".toList ++ Printf.dec cache

/-- What is printed, with the name and the arguments of the call. -/
def main (prog : Text) (args : List Text) : Script Text Unit :=
  match args with
  | arg1 :: arg2 :: _ => do
    let ebx ← eval (int 16 arg1)
    let ecx ← eval (int 16 arg2)
    let ways ← eval (getBits ebx 22 31)
    let partition ← eval (getBits ebx 12 21)
    let lineSize ← eval (getBits ebx 0 11)
    let sets := ecx
    emit (fieldsLine ebx ecx ways partition lineSize)
    emit (cacheLine ((ways + 1) * (partition + 1) * (lineSize + 1) * (sets + 1)))
  | _ => do
    emit (usage prog)
    raise (.systemExit 1)

/-! ## `get_bits` -/

/-- The digits of a number that has more than `start` of them. -/
theorem lt_length_iff (d start : Nat) :
    start < (Nat.toDigits 2 d).length ↔ start = 0 ∨ 2 ^ start ≤ d := by
  have hlt : d < 2 ^ (Nat.toDigits 2 d).length := by
    have := Numeral.value_lt (Numeral.toDigits_all (by decide) (by decide) d)
      (Nat.toDigits_ne_nil (b := 2))
    rwa [Numeral.value_toDigits (by decide) (by decide)] at this
  have hpos : 0 < (Nat.toDigits 2 d).length := List.length_pos_iff.mpr Nat.toDigits_ne_nil
  constructor
  · intro h
    by_contra hno
    have := Nat.toDigits_length 2 d start (by omega) (by omega)
    omega
  · intro h
    rcases h with rfl | h
    · exact hpos
    · exact (Nat.pow_lt_pow_iff_right (by decide : 1 < 2)).mp (h.trans_lt hlt)

/-- The piece that `get_bits` reads, the highest digit first. -/
theorem getBits_eq (d start stop : Nat) : getBits d start stop =
    int 2 (slice (Nat.toDigits 2 d) ((Nat.toDigits 2 d).length - stop)
      ((Nat.toDigits 2 d).length - start)) := by
  rw [← reverse_slice_reverse]
  rfl

/-- A number with enough digits: its bits from `start` on, `stop` not among them. -/
theorem getBits_ok {d start stop : Nat} (hlt : start < stop) (hd : start = 0 ∨ 2 ^ start ≤ d) :
    getBits d start stop = .ok ((d >>> start % 2 ^ (stop - start) : Nat) : Int) := by
  have hlen := (lt_length_iff d start).mpr hd
  have hall := Numeral.toDigits_all (b := 2) (by decide) (by decide) d
  have hval := Numeral.value_toDigits (b := 2) (by decide) (by decide) d
  rw [getBits_eq]
  generalize Nat.toDigits 2 d = t at *
  rw [int_slice hall (by omega) (by omega), value_slice (by decide) hall (Nat.sub_le _ _), hval,
    show t.length - (t.length - start) = start by omega, ← Nat.shiftRight_eq_div_pow]
  rcases Nat.le_total stop t.length with h | h
  · rw [show t.length - start - (t.length - stop) = stop - start by omega]
  · -- the digits end before `stop`
    have hshift : d >>> start < 2 ^ (t.length - start) := by
      have hd : d < 2 ^ t.length := by
        rw [← hval]
        exact Numeral.value_lt hall (List.length_pos_iff.mp (by omega))
      rw [Nat.shiftRight_eq_div_pow]
      apply Nat.div_lt_of_lt_mul
      rwa [← pow_add, Nat.add_sub_cancel' hlen.le]
    rw [show t.length - start - (t.length - stop) = t.length - start by omega,
      Nat.mod_eq_of_lt hshift, Nat.mod_eq_of_lt]
    exact hshift.trans_le (Nat.pow_le_pow_right (by decide) (by omega))

/-- A number with too few digits: nothing is left to read. -/
theorem getBits_short {d start : Nat} (stop : Nat) (h0 : start ≠ 0) (hd : d < 2 ^ start) :
    getBits d start stop = .error .valueError := by
  have hlen : ¬ start < (Nat.toDigits 2 d).length := by
    rw [lt_length_iff]
    omega
  rw [getBits_eq, show (Nat.toDigits 2 d).length - start = 0 by omega, slice, List.take_zero,
    List.drop_nil]
  exact int_nil 2

/-- `get_bits` extracts a field exactly from the numbers that reach it. -/
theorem get_bits_field_iff (d : Nat) {start stop : Nat} (hlt : start < stop) :
    getBits d start stop = .ok ((d >>> start % 2 ^ (stop - start) : Nat) : Int) ↔
      start = 0 ∨ 2 ^ start ≤ d := by
  constructor
  · intro h
    by_contra hno
    rw [getBits_short stop (by omega) (by omega)] at h
    exact absurd h (by simp)
  · intro hd
    exact getBits_ok hlt hd

theorem get_bits_field_eight :
    getBits 0x1c0003f 22 31 = .ok ((0x1c0003f >>> 22 % 2 ^ (31 - 22) : Nat) : Int) :=
  (get_bits_field_iff 0x1c0003f (by decide)).mpr (.inr (by decide))

/-- 63 has no bit 12. -/
theorem get_bits_beyond : ¬ ∀ d start stop : Nat, start < stop →
    getBits d start stop = .ok ((d >>> start % 2 ^ (stop - start) : Nat) : Int) := by
  intro h
  have hraise := getBits_short 21 (show (12 : Nat) ≠ 0 by decide) (show 63 < 2 ^ 12 by decide)
  rw [h 63 12 21 (by decide)] at hraise
  exact absurd hraise (by simp)

/-! ## The size of the cache -/

/-- The bits `hi` to `lo` of a register, both included. -/
def field (r : UInt32) (hi lo : Nat) : Nat := r.toNat >>> lo % 2 ^ (hi + 1 - lo)

/-- What CPUID leaf 4 defines. -/
def cacheSize (ebx ecx : UInt32) : Nat :=
  (field ebx 31 22 + 1) * (field ebx 21 12 + 1) * (field ebx 11 0 + 1) * (ecx.toNat + 1)

/-- No exception, and the size stands on the last line. -/
def PrintsSize (p : Script Text Unit) (size : Nat) : Prop :=
  p.result = .ok () ∧ p.trace.getLast? = some (cacheLine size)

/-- A field with its top bit left out. -/
theorem field_eq (r : UInt32) {hi lo : Nat} (h : lo ≤ hi) : field r hi lo =
    r.toNat >>> lo % 2 ^ (hi - lo) + 2 ^ (hi - lo) * (r.toNat.testBit hi).toNat := by
  have hbit : r.toNat >>> lo / 2 ^ (hi - lo) % 2 = (r.toNat.testBit hi).toNat := by
    rw [← Nat.toNat_testBit, Nat.testBit_shiftRight, Nat.add_sub_cancel' h]
  rw [field, show hi + 1 - lo = hi - lo + 1 by omega, Nat.mod_pow_succ, hbit]

/-- A field is the value without its top bit only where this bit is 0. -/
theorem eq_field_iff (r : UInt32) {hi lo : Nat} (h : lo ≤ hi) :
    r.toNat >>> lo % 2 ^ (hi - lo) + 1 = field r hi lo + 1 ↔ r.toNat.testBit hi = false := by
  have hpos : 0 < 2 ^ (hi - lo) := Nat.two_pow_pos _
  rw [field_eq r h]
  cases r.toNat.testBit hi with
  | false => simp
  | true => simp only [Bool.toNat_true, Bool.true_eq_false, iff_false]; omega

theorem le_field (r : UInt32) {hi lo : Nat} (h : lo ≤ hi) :
    r.toNat >>> lo % 2 ^ (hi - lo) + 1 ≤ field r hi lo + 1 := by
  rw [field_eq r h]
  omega

theorem cacheLine_injective : Function.Injective fun n : Nat => cacheLine n := by
  intro m n h
  exact Numeral.toDigits_injective (by decide) (by decide) (List.append_cancel_left h)

section
variable {ebx ecx : Nat} {arg1 arg2 : Text} (h1 : int 16 arg1 = .ok ebx)
  (h2 : int 16 arg2 = .ok ecx) (prog : Text) (args : List Text)
include h1 h2

theorem main_short (hebx : ebx < 2 ^ 22) :
    main prog (arg1 :: arg2 :: args) = raise .valueError := by
  simp only [main, h1, h2, eval_ok_bind, getBits_short 31 (by decide) hebx, eval_error_bind]

theorem main_ok (hebx : 2 ^ 22 ≤ ebx) : main prog (arg1 :: arg2 :: args) =
    ⟨[fieldsLine ebx ecx (ebx >>> 22 % 2 ^ 9 : Nat) (ebx >>> 12 % 2 ^ 9 : Nat) (ebx % 2 ^ 11 : Nat),
      cacheLine ((ebx >>> 22 % 2 ^ 9 + 1) * (ebx >>> 12 % 2 ^ 9 + 1) * (ebx % 2 ^ 11 + 1) *
        (ecx + 1) : Nat)], .ok ()⟩ := by
  have hways := getBits_ok (d := ebx) (show 22 < 31 by decide) (.inr hebx)
  have hpartition := getBits_ok (d := ebx) (show 12 < 21 by decide) (.inr (by omega))
  have hline := getBits_ok (d := ebx) (show 0 < 11 by decide) (.inl rfl)
  rw [Nat.shiftRight_zero] at hline
  simp only [main, h1, h2, eval_ok_bind, hways, hpartition, hline, emit_bind]
  push_cast
  rfl

end

/-- The script prints the size that is defined exactly where `ebx` reaches bit 22 and no field has
    its top bit set. -/
theorem prints_cacheSize_iff (prog : Text) (args : List Text) {arg1 arg2 : Text} {ebx ecx : UInt32}
    (h1 : int 16 arg1 = .ok ebx.toNat) (h2 : int 16 arg2 = .ok ecx.toNat) :
    PrintsSize (main prog (arg1 :: arg2 :: args)) (cacheSize ebx ecx) ↔
      2 ^ 22 ≤ ebx.toNat ∧ ebx.toNat.testBit 31 = false ∧ ebx.toNat.testBit 21 = false ∧
        ebx.toNat.testBit 11 = false := by
  by_cases hebx : 2 ^ 22 ≤ ebx.toNat
  · have hprints : PrintsSize (main prog (arg1 :: arg2 :: args)) (cacheSize ebx ecx) ↔
        (ebx.toNat >>> 22 % 2 ^ (31 - 22) + 1) * (ebx.toNat >>> 12 % 2 ^ (21 - 12) + 1) *
          (ebx.toNat >>> 0 % 2 ^ (11 - 0) + 1) * (ecx.toNat + 1) = cacheSize ebx ecx := by
      rw [main_ok h1 h2 prog args hebx]
      constructor
      · intro h
        exact cacheLine_injective (Option.some.inj h.2)
      · intro h
        exact ⟨rfl, congrArg (fun n : Nat => some (cacheLine n)) h⟩
    have hways := le_field ebx (show 22 ≤ 31 by decide)
    have hpartition := le_field ebx (show 12 ≤ 21 by decide)
    have hline := le_field ebx (show 0 ≤ 11 by decide)
    rw [hprints, cacheSize, Nat.mul_left_inj (Nat.succ_ne_zero _),
      mul_eq_mul_iff_eq_and_eq_of_pos (Nat.mul_le_mul hways hpartition) hline
        (Nat.mul_pos (Nat.succ_pos _) (Nat.succ_pos _)) (Nat.succ_pos _),
      mul_eq_mul_iff_eq_and_eq_of_pos hways hpartition (Nat.succ_pos _) (Nat.succ_pos _),
      eq_field_iff _ (by decide), eq_field_iff _ (by decide), eq_field_iff _ (by decide), and_assoc]
    exact (and_iff_right hebx).symm
  · have hraise := main_short h1 h2 prog args (Nat.lt_of_not_ge hebx)
    constructor
    · intro h
      rw [hraise] at h
      exact absurd h.1 (by simp [raise])
    · intro h
      exact absurd h.1 hebx

/-- Eight ways, one partition, lines of 64 bytes and 64 sets: 32 kB. -/
theorem prints_cacheSize_l1 : PrintsSize
    (main "cpuid_eax04h_cache.py".toList [Nat.toDigits 16 0x1c0003f, Nat.toDigits 16 0x3f])
    (cacheSize 0x1c0003f 0x3f) := by
  have h1 : int 16 (Nat.toDigits 16 0x1c0003f) = .ok (0x1c0003f : UInt32).toNat :=
    int_toDigits (by decide) (by decide) _
  have h2 : int 16 (Nat.toDigits 16 0x3f) = .ok (0x3f : UInt32).toNat :=
    int_toDigits (by decide) (by decide) _
  have hiff := prints_cacheSize_iff "cpuid_eax04h_cache.py".toList [] h1 h2
  rw [hiff]
  exact ⟨by decide, by decide, by decide, by decide⟩

/-- A cache of one way: the script dies of its field that is 0. -/
theorem prints_cacheSize_direct_mapped : ¬ ∀ (prog : Text) (args : List Text) (arg1 arg2 : Text)
    (ebx ecx : UInt32), int 16 arg1 = .ok ebx.toNat → int 16 arg2 = .ok ecx.toNat →
    PrintsSize (main prog (arg1 :: arg2 :: args)) (cacheSize ebx ecx) := by
  intro h
  have h1 : int 16 (Nat.toDigits 16 0x3f) = .ok (0x3f : UInt32).toNat :=
    int_toDigits (by decide) (by decide) _
  have hprints := h [] [] _ _ 0x3f 0x3f h1 h1
  rw [main_short h1 h1 [] [] (by decide)] at hprints
  exact absurd hprints.1 (by simp [raise])

end LinuxSummary.Perf
