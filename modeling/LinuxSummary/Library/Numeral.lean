/-
  Numerals: printing a natural number in a base up to 16 and reading it back.
  Proof-only, nothing about one program.

  Printing is the core library's `Nat.toDigits` (lower-case digits, no leading zero),
  reading is `value`. `value_toDigits` is the round trip, `value_append` says what
  gluing two numerals does to the value, `value_take` and `value_drop` what cutting one
  does, and `toDigits_injective` that a number is known by its numeral. `readDigits` is
  the checked reader of `int(text, base)`.
-/
import LinuxSummary.Library.Text

namespace Numeral

/-! ## Digits -/

/-- The value of a digit: `0-9`, `a-f` or `A-F`. -/
def digitVal (c : Char) : Option Nat :=
  if '0' ≤ c ∧ c ≤ '9' then some (c.toNat - 48)
  else if 'a' ≤ c ∧ c ≤ 'f' then some (c.toNat - 87)
  else if 'A' ≤ c ∧ c ≤ 'F' then some (c.toNat - 55)
  else none

/-- `c` is a digit in base `b`. -/
def isDigitOf (b : Nat) (c : Char) : Bool :=
  match digitVal c with
  | some d => decide (d < b)
  | none => false

theorem digitVal_digitChar {d : Nat} (h : d < 16) : digitVal (Nat.digitChar d) = some d := by
  interval_cases d <;> rfl

/-- A digit is a character between `0` and `f`. -/
theorem digitVal_range {c : Char} {d : Nat} (h : digitVal c = some d) :
    48 ≤ c.toNat ∧ c.toNat ≤ 102 := by
  unfold digitVal at h
  simp only [Char.le_def, UInt32.le_iff_toNat_le] at h
  split at h
  · next hc =>
    have h1 : 48 ≤ c.toNat := hc.1
    have h2 : c.toNat ≤ 57 := hc.2
    omega
  · split at h
    · next hc =>
      have h1 : 97 ≤ c.toNat := hc.1
      have h2 : c.toNat ≤ 102 := hc.2
      omega
    · split at h
      · next hc =>
        have h1 : 65 ≤ c.toNat := hc.1
        have h2 : c.toNat ≤ 70 := hc.2
        omega
      · exact absurd h (by simp)

theorem isDigitOf_digitChar {b d : Nat} (hb : b ≤ 16) (h : d < b) :
    isDigitOf b (Nat.digitChar d) = true := by
  simp [isDigitOf, digitVal_digitChar (by omega : d < 16), h]

/-- A digit is none of the characters that separate fields or end a line. -/
theorem isDigitOf_ne {b : Nat} {c d : Char} (hc : isDigitOf b c = true) (hd : digitVal d = none) :
    c ≠ d := by
  intro heq
  obtain rfl := heq
  simp [isDigitOf, hd] at hc

/-! ## Reading -/

/-- The number that the digits `s` stand for in base `b`. -/
def value (b : Nat) (s : Text) : Nat :=
  s.foldl (fun acc c => b * acc + (digitVal c).getD 0) 0

/-- `int(s, b)` of a text without sign or prefix: digits only, at least one. -/
def readDigits (b : Nat) (s : Text) : Option Nat :=
  if s ≠ [] ∧ s.all (isDigitOf b) then some (value b s) else none

theorem value_nil (b : Nat) : value b [] = 0 := rfl

private theorem foldl_digits (b : Nat) (s : Text) (n : Nat) :
    s.foldl (fun acc c => b * acc + (digitVal c).getD 0) n = n * b ^ s.length + value b s := by
  induction s generalizing n with
  | nil => simp [value]
  | cons c s ih =>
    simp only [value, List.foldl_cons, List.length_cons]
    rw [ih, ih (b * 0 + _)]
    ring

theorem value_cons (b : Nat) (c : Char) (s : Text) :
    value b (c :: s) = (digitVal c).getD 0 * b ^ s.length + value b s := by
  simp only [value, List.foldl_cons, Nat.mul_zero, Nat.zero_add]
  exact foldl_digits b s _

/-- Two numerals side by side. -/
theorem value_append (b : Nat) (s t : Text) :
    value b (s ++ t) = value b s * b ^ t.length + value b t := by
  simp only [value, List.foldl_append]
  exact foldl_digits b t _

theorem value_singleton (b : Nat) (c : Char) : value b [c] = (digitVal c).getD 0 := by
  simp [value_cons, value_nil]

theorem value_replicate_zero (b n : Nat) : value b (List.replicate n '0') = 0 := by
  induction n with
  | zero => rfl
  | succ n ih =>
    rw [List.replicate_succ, value_cons, ih]
    simp [show digitVal '0' = some 0 from rfl]

/-- A numeral of `k` digits is below `b ^ k`. -/
theorem value_lt {b : Nat} {s : Text} (h : s.all (isDigitOf b) = true) (hs : s ≠ []) :
    value b s < b ^ s.length := by
  induction s with
  | nil => exact absurd rfl hs
  | cons c s ih =>
    simp only [List.all_cons, Bool.and_eq_true] at h
    have hc : (digitVal c).getD 0 < b := by
      have := h.1
      unfold isDigitOf at this
      split at this
      · next hd => simpa [hd] using of_decide_eq_true this
      · exact absurd this (by decide)
    have htail : value b s < b ^ s.length := by
      cases s with
      | nil => simp [value_nil]
      | cons d s => exact ih h.2 (by simp)
    rw [value_cons, List.length_cons, Nat.pow_succ]
    calc (digitVal c).getD 0 * b ^ s.length + value b s
        < (digitVal c).getD 0 * b ^ s.length + b ^ s.length := Nat.add_lt_add_left htail _
      _ = ((digitVal c).getD 0 + 1) * b ^ s.length := by ring
      _ ≤ b * b ^ s.length := Nat.mul_le_mul_right _ hc
      _ = b ^ s.length * b := Nat.mul_comm _ _

/-- The digits from the `k`th on are the remainder. -/
theorem value_drop {b : Nat} {s : Text} (h : s.all (isDigitOf b) = true) (k : Nat) :
    value b (s.drop k) = value b s % b ^ (s.length - k) := by
  by_cases hd : s.drop k = []
  · have hlen : s.length - k = 0 := by rw [← List.length_drop, hd, List.length_nil]
    rw [hd, hlen, Nat.pow_zero, Nat.mod_one, value_nil]
  · have hlt : value b (s.drop k) < b ^ (s.length - k) := by
      rw [← List.length_drop]
      apply value_lt _ hd
      exact List.all_eq_true.mpr fun c hc => List.all_eq_true.mp h c (List.mem_of_mem_drop hc)
    have hsplit := value_append b (s.take k) (s.drop k)
    rw [List.take_append_drop, List.length_drop] at hsplit
    rw [hsplit, Nat.mul_add_mod_self_right, Nat.mod_eq_of_lt hlt]

/-- The first `k` digits are the quotient. -/
theorem value_take {b : Nat} (hb : 0 < b) {s : Text} (h : s.all (isDigitOf b) = true) (k : Nat) :
    value b (s.take k) = value b s / b ^ (s.length - k) := by
  have hsplit := value_append b (s.take k) (s.drop k)
  rw [List.take_append_drop, List.length_drop, value_drop h] at hsplit
  have hpos : 0 < b ^ (s.length - k) := Nat.pow_pos hb
  calc value b (s.take k)
      = value b (s.take k) * b ^ (s.length - k) / b ^ (s.length - k) :=
        (Nat.mul_div_cancel _ hpos).symm
    _ = value b s / b ^ (s.length - k) * b ^ (s.length - k) / b ^ (s.length - k) := by
        congr 1
        have := Nat.div_add_mod' (value b s) (b ^ (s.length - k))
        omega
    _ = value b s / b ^ (s.length - k) := Nat.mul_div_cancel _ hpos

/-! ## Printing and the round trip -/

section
variable {b : Nat} (h2 : 2 ≤ b) (h16 : b ≤ 16)
include h2 h16

omit h16 in
theorem mem_toDigits {c : Char} {n : Nat} (hc : c ∈ Nat.toDigits b n) :
    ∃ d < b, c = Nat.digitChar d := by
  induction n using Nat.strong_induction_on with
  | _ n ih =>
    rw [Nat.toDigits_eq_if (by omega)] at hc
    split at hc
    · next h => exact ⟨n, h, List.mem_singleton.mp hc⟩
    · next h =>
      rcases List.mem_append.mp hc with hc | hc
      · exact ih _ (Nat.div_lt_self (by omega) (by omega)) hc
      · exact ⟨n % b, Nat.mod_lt _ (by omega), List.mem_singleton.mp hc⟩

theorem toDigits_all (n : Nat) : (Nat.toDigits b n).all (isDigitOf b) = true := by
  rw [List.all_eq_true]
  intro c hc
  obtain ⟨d, hd, rfl⟩ := mem_toDigits h2 hc
  exact isDigitOf_digitChar h16 hd

theorem value_toDigits (n : Nat) : value b (Nat.toDigits b n) = n := by
  induction n using Nat.strong_induction_on with
  | _ n ih =>
    rw [Nat.toDigits_eq_if (by omega)]
    split
    · next h => rw [value_singleton, digitVal_digitChar (by omega)]; rfl
    · next h =>
      have hlt : n / b < n := Nat.div_lt_self (by omega) (by omega)
      have hmod : n % b < b := Nat.mod_lt _ (by omega)
      rw [value_append, ih _ hlt, value_singleton, digitVal_digitChar (by omega)]
      simp only [List.length_singleton, Nat.pow_one, Option.getD_some]
      rw [Nat.mul_comm]
      exact Nat.div_add_mod n b

/-- The first digits of a number make at least the power that their count says, or the number. -/
theorem le_value_take (n m : Nat) :
    min n (b ^ m) ≤ value b ((Nat.toDigits b n).take (m + 1)) := by
  have hall := toDigits_all h2 h16 n
  have hval := value_toDigits h2 h16 n
  by_cases hlen : (Nat.toDigits b n).length ≤ m + 1
  · rw [List.take_of_length_le hlen, hval]
    exact min_le_left _ _
  · obtain ⟨r, hr⟩ := Nat.exists_eq_add_of_le (Nat.le_of_lt (Nat.lt_of_not_ge hlen))
    have hn : b ^ (m + r) ≤ n := by
      by_contra hlt
      have := Nat.toDigits_length b n (m + r) (by omega) (by omega)
      omega
    have hsplit := value_append b ((Nat.toDigits b n).take (m + 1))
      ((Nat.toDigits b n).drop (m + 1))
    have hdrop : ((Nat.toDigits b n).drop (m + 1)).length = r := by
      rw [List.length_drop]
      omega
    rw [List.take_append_drop, hval, hdrop] at hsplit
    have hrest : value b ((Nat.toDigits b n).drop (m + 1)) < b ^ r := by
      rw [← hdrop]
      apply value_lt
      · exact List.all_eq_true.mpr fun c hc => List.all_eq_true.mp hall c (List.mem_of_mem_drop hc)
      · rw [← List.length_pos_iff, hdrop]
        omega
    rw [hsplit, pow_add] at hn
    have hless : b ^ m * b ^ r < (value b ((Nat.toDigits b n).take (m + 1)) + 1) * b ^ r := by
      rw [Nat.add_mul, Nat.one_mul]
      omega
    have := Nat.lt_of_mul_lt_mul_right hless
    omega

theorem readDigits_toDigits (n : Nat) : readDigits b (Nat.toDigits b n) = some n := by
  simp only [readDigits, ne_eq, Nat.toDigits_ne_nil, not_false_eq_true, true_and,
    toDigits_all h2 h16, if_true, value_toDigits h2 h16]

theorem toDigits_injective : Function.Injective (Nat.toDigits b) := by
  intro m n h
  rw [← value_toDigits h2 h16 m, h, value_toDigits h2 h16]

/-- A character that is no digit does not occur in a numeral. -/
theorem not_mem_toDigits {c : Char} (hc : digitVal c = none) (n : Nat) :
    c ∉ Nat.toDigits b n := by
  intro hm
  exact isDigitOf_ne (List.all_eq_true.mp (toDigits_all h2 h16 n) c hm) hc rfl

end

/-! ## Padding -/

/-- `'%0<w>x'`-style padding with zeros on the left. -/
def padLeft (w : Nat) (s : Text) : Text := List.replicate (w - s.length) '0' ++ s

theorem value_padLeft (b w : Nat) (s : Text) : value b (padLeft w s) = value b s := by
  rw [padLeft, value_append, value_replicate_zero, Nat.zero_mul, Nat.zero_add]

theorem length_padLeft (w : Nat) (s : Text) : (padLeft w s).length = max w s.length := by
  simp only [padLeft, List.length_append, List.length_replicate]
  omega

theorem padLeft_all {b : Nat} (hb : 0 < b) (w : Nat) {s : Text}
    (h : s.all (isDigitOf b) = true) : (padLeft w s).all (isDigitOf b) = true := by
  have h0 : isDigitOf b '0' = true := by simp [isDigitOf, show digitVal '0' = some 0 from rfl, hb]
  simp only [padLeft, List.all_append, h, Bool.and_true, List.all_replicate, h0]
  split <;> rfl

end Numeral
