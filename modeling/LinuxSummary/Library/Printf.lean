/-
  The conversions of C's `printf` that print numbers. Proof-only, nothing about one program.

  `dec` is `%d`, `%ld`; `udec` is `%u`, `%lu`; `hex` is `%x`, `%lx` of a number that is not
  negative, `HEX w` is `%0<w>X`. The width of an argument is the business of the caller.
-/
import LinuxSummary.Library.Numeral

namespace Printf

/-- `%u` -/
def udec (n : Nat) : Text := Nat.toDigits 10 n

/-- `%d` -/
def dec : Int → Text
  | .ofNat n => udec n
  | .negSucc n => '-' :: udec (n + 1)

theorem not_mem_dec {c : Char} (hc : Numeral.digitVal c = none) (hminus : c ≠ '-') (v : Int) :
    c ∉ dec v := by
  have hudec : ∀ n, c ∉ udec n := Numeral.not_mem_toDigits (by decide) (by decide) hc
  cases v with
  | ofNat n => exact hudec n
  | negSucc n =>
    rw [dec, List.mem_cons]
    exact fun h => h.elim hminus (hudec (n + 1))

/-- `%x` -/
def hex (n : Nat) : Text := Nat.toDigits 16 n

theorem hex_ne_nil (n : Nat) : hex n ≠ [] := Nat.toDigits_ne_nil

/-- What `%x` prints are digits. -/
theorem digit_of_mem_hex {n : Nat} {c : Char} (hc : c ∈ hex n) :
    ∃ d, Numeral.digitVal c = some d := by
  have hdigit := List.all_eq_true.mp (Numeral.toDigits_all (by decide) (by decide) n) c hc
  unfold Numeral.isDigitOf at hdigit
  split at hdigit
  · next d hd => exact ⟨d, hd⟩
  · exact absurd hdigit (by simp)

/-- `%0<w>X` -/
def HEX (w n : Nat) : Text := Numeral.padLeft w ((Nat.toDigits 16 n).map Char.toUpper)

theorem digitVal_toUpper {d : Nat} (h : d < 16) :
    Numeral.digitVal (Nat.digitChar d).toUpper = some d := by
  interval_cases d <;> rfl

/-- Capital digits are worth what the small ones are. -/
private theorem value_toUpper {s : Text} (h : ∀ c ∈ s, ∃ d < 16, c = Nat.digitChar d) :
    Numeral.value 16 (s.map Char.toUpper) = Numeral.value 16 s := by
  induction s with
  | nil => rfl
  | cons c s ih =>
    obtain ⟨d, hd, rfl⟩ := h c List.mem_cons_self
    rw [List.map_cons, Numeral.value_cons, Numeral.value_cons, List.length_map,
      ih fun c hc => h c (List.mem_cons_of_mem _ hc), digitVal_toUpper hd,
      Numeral.digitVal_digitChar hd]

theorem value_HEX (w n : Nat) : Numeral.value 16 (HEX w n) = n := by
  rw [HEX, Numeral.value_padLeft, value_toUpper fun c hc => Numeral.mem_toDigits (by decide) hc,
    Numeral.value_toDigits (by decide) (by decide)]

theorem HEX_injective (w : Nat) : Function.Injective (HEX w) := by
  intro m n h
  rw [← value_HEX w m, h, value_HEX]

/-- The width is kept exactly by the numbers that have room in it. -/
theorem length_HEX_le_iff {w k : Nat} (hw : w ≤ k) (hk : 0 < k) (n : Nat) :
    (HEX w n).length ≤ k ↔ n < 16 ^ k := by
  rw [HEX, Numeral.length_padLeft, List.length_map, max_le_iff,
    Nat.length_toDigits_le_iff (by decide) hk]
  exact and_iff_right hw

theorem length_HEX {w n : Nat} (hw : 0 < w) (h : n < 16 ^ w) : (HEX w n).length = w := by
  have hle := (length_HEX_le_iff le_rfl hw n).mpr h
  have hge : w ≤ (HEX w n).length := by
    rw [HEX, Numeral.length_padLeft]
    exact le_max_left _ _
  omega

end Printf
