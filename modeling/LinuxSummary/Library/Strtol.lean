/-
  A C string to a 64-bit `long`: the kernel's `kstrtol` and the C library's `strtol`.
  Proof-only, nothing about one program.

  For `kstrtol` a string may have a sign, with base 16 a prefix `0x`, then digits, of which
  there has to be at least one, and last a single newline. `cstring` is what a function that
  takes a C string sees of the memory it is given. `kstrtol_hex` and `kstrtol_dec` read back
  what `0x%x` and `%ld` print.

  `strtol` passes white space and reads as far as it can; its value is clamped to a `long`, and
  it returns what is left of the string. `strtoull` reads alike into an `unsigned long long`.
  `IsDecimal` is the grammar that `strtol` reads in base 10; `strtol_decimal` and
  `isDecimal_of_strtol` tie it to the strings that are read to their end.
-/
import LinuxSummary.Library.CInt
import LinuxSummary.Library.Printf

namespace Strtol

/-- The character that ends a C string. -/
def NUL : Char := Char.ofNat 0

/-- The characters up to the first NUL. -/
def cstring (mem : Text) : Text := mem.takeWhile (· ≠ NUL)

inductive Errno
  | EINVAL
  | ERANGE
deriving DecidableEq

/-- The prefix of a hexadecimal number is left out. -/
def fixupRadix (s : Text) (base : Nat) : Text :=
  if base = 16 ∧ ("0x".toList <+: s ∨ "0X".toList <+: s) then s.drop 2 else s

/-- Digits to the end of the string, or to a newline that ends it. -/
def parseDigits (s : Text) (base : Nat) : Except Errno Nat :=
  let digits := s.takeWhile (Numeral.isDigitOf base)
  let rest := s.dropWhile (Numeral.isDigitOf base)
  if 2 ^ 64 ≤ Numeral.value base digits then .error .ERANGE
  else if digits = [] then .error .EINVAL
  else if rest ≠ [] ∧ rest ≠ ['\n'] then .error .EINVAL
  else .ok (Numeral.value base digits)

/-- `kstrtoull` behind the sign. -/
def kstrtoull (s : Text) (base : Nat) : Except Errno Nat := parseDigits (fixupRadix s base) base

def kstrtol (s : Text) (base : Nat) : Except Errno Int :=
  if s.head? = some '-' then
    match kstrtoull s.tail base with
    | .error e => .error e
    | .ok n => if 2 ^ 63 < n then .error .ERANGE else .ok (-n)
  else
    match kstrtoull (if s.head? = some '+' then s.tail else s) base with
    | .error e => .error e
    | .ok n => if 2 ^ 63 ≤ n then .error .ERANGE else .ok n

/-! ## C strings -/

theorem cstring_of_not_mem {s : Text} (h : NUL ∉ s) (rest : Text) :
    cstring (s ++ NUL :: rest) = s := by
  unfold cstring
  rw [List.takeWhile_append_of_pos, List.takeWhile_cons_of_neg (by simp), List.append_nil]
  intro c hc
  exact decide_eq_true fun heq => h (heq ▸ hc)

/-! ## Numbers that are printed are read back -/

theorem parseDigits_digits {base : Nat} {digits : Text} (hne : digits ≠ [])
    (hall : digits.all (Numeral.isDigitOf base) = true)
    (hlt : Numeral.value base digits < 2 ^ 64) :
    parseDigits digits base = .ok (Numeral.value base digits) := by
  have htake : digits.takeWhile (Numeral.isDigitOf base) = digits :=
    List.takeWhile_eq_self_iff.mpr (List.all_eq_true.mp hall)
  have hdrop : digits.dropWhile (Numeral.isDigitOf base) = [] :=
    List.dropWhile_eq_nil_iff.mpr (List.all_eq_true.mp hall)
  unfold parseDigits
  dsimp only
  rw [htake, hdrop, if_neg (by omega), if_neg hne, if_neg (by simp)]

theorem kstrtoull_hex {n : Nat} (h : n < 2 ^ 64) :
    kstrtoull ("0x".toList ++ Printf.hex n) 16 = .ok n := by
  have hpre : "0x".toList <+: "0x".toList ++ Printf.hex n := List.prefix_append _ _
  have hval : Numeral.value 16 (Printf.hex n) = n :=
    Numeral.value_toDigits (by decide) (by decide) n
  have hdigits := parseDigits_digits (Printf.hex_ne_nil n)
    (Numeral.toDigits_all (by decide) (by decide) n) (by rw [hval]; exact h)
  rw [hval] at hdigits
  rw [kstrtoull, fixupRadix, if_pos ⟨rfl, .inl hpre⟩]
  exact hdigits

/-- `0x%x`: the number, where it fits into a `long`. -/
theorem kstrtol_hex {n : Nat} (h : n < 2 ^ 64) :
    kstrtol ("0x".toList ++ Printf.hex n) 16 =
      if 2 ^ 63 ≤ n then .error .ERANGE else .ok n := by
  have hhead : ("0x".toList ++ Printf.hex n).head? = some '0' := rfl
  rw [kstrtol, hhead, if_neg (by decide), if_neg (by decide), kstrtoull_hex h]

/-- Too many digits are refused, whatever stands behind them. -/
theorem parseDigits_overflow {base : Nat} (hbase : 0 < base) {digits : Text}
    (hall : digits.all (Numeral.isDigitOf base) = true)
    (hbig : 2 ^ 64 ≤ Numeral.value base digits) (rest : Text) :
    parseDigits (digits ++ rest) base = .error .ERANGE := by
  have htake : (digits ++ rest).takeWhile (Numeral.isDigitOf base) =
      digits ++ rest.takeWhile (Numeral.isDigitOf base) :=
    List.takeWhile_append_of_pos (List.all_eq_true.mp hall)
  have hvalue : 2 ^ 64 ≤
      Numeral.value base ((digits ++ rest).takeWhile (Numeral.isDigitOf base)) := by
    rw [htake, Numeral.value_append]
    have := Nat.le_mul_of_pos_right (Numeral.value base digits)
      (Nat.pow_pos (n := (rest.takeWhile (Numeral.isDigitOf base)).length) hbase)
    omega
  rw [parseDigits, if_pos hvalue]

theorem kstrtol_overflow {digits : Text} (hall : digits.all (Numeral.isDigitOf 16) = true)
    (hbig : 2 ^ 64 ≤ Numeral.value 16 digits) (rest : Text) :
    kstrtol ("0x".toList ++ digits ++ rest) 16 = .error .ERANGE := by
  have hhead : ("0x".toList ++ digits ++ rest).head? = some '0' := rfl
  have hfix : fixupRadix ("0x".toList ++ digits ++ rest) 16 = digits ++ rest := by
    have hpre : "0x".toList <+: "0x".toList ++ digits ++ rest := by
      rw [List.append_assoc]
      exact List.prefix_append _ _
    rw [fixupRadix, if_pos ⟨rfl, .inl hpre⟩]
    rfl
  rw [kstrtol, hhead, if_neg (by decide), if_neg (by decide), kstrtoull, hfix,
    parseDigits_overflow (by decide) hall hbig]

/-! ### Decimal numbers -/

theorem kstrtoull_dec (s : Text) : kstrtoull s 10 = parseDigits s 10 := by
  rw [kstrtoull, fixupRadix, if_neg fun h => absurd h.1 (by decide)]

/-- Digits have no sign before them. -/
theorem kstrtol_unsigned {digits : Text} (hne : digits ≠ [])
    (hall : digits.all (Numeral.isDigitOf 10) = true) (rest : Text) :
    kstrtol (digits ++ rest) 10 = match parseDigits (digits ++ rest) 10 with
      | .error e => .error e
      | .ok n => if 2 ^ 63 ≤ n then .error .ERANGE else .ok n := by
  obtain ⟨c, cs, rfl⟩ := List.exists_cons_of_ne_nil hne
  have hc : Numeral.isDigitOf 10 c = true := List.all_eq_true.mp hall c List.mem_cons_self
  have hminus : (c :: cs ++ rest).head? ≠ some '-' := fun h =>
    Numeral.isDigitOf_ne hc (show Numeral.digitVal '-' = none from rfl) (Option.some.inj h)
  have hplus : (c :: cs ++ rest).head? ≠ some '+' := fun h =>
    Numeral.isDigitOf_ne hc (show Numeral.digitVal '+' = none from rfl) (Option.some.inj h)
  rw [kstrtol, if_neg hminus, if_neg hplus, kstrtoull_dec]

theorem kstrtol_minus (s : Text) : kstrtol ('-' :: s) 10 = match parseDigits s 10 with
      | .error e => .error e
      | .ok n => if 2 ^ 63 < n then .error .ERANGE else .ok (-n) := by
  have hhead : ('-' :: s).head? = some '-' := rfl
  rw [kstrtol, if_pos hhead, kstrtoull_dec]
  rfl

theorem parseDigits_udec (n : Nat) : parseDigits (Printf.udec n) 10 =
    if 2 ^ 64 ≤ n then .error .ERANGE else .ok n := by
  have hall : (Printf.udec n).all (Numeral.isDigitOf 10) = true :=
    Numeral.toDigits_all (by decide) (by decide) n
  have hval : Numeral.value 10 (Printf.udec n) = n :=
    Numeral.value_toDigits (by decide) (by decide) n
  split
  · next hbig =>
    have h := parseDigits_overflow (by decide) hall (by rw [hval]; exact hbig) []
    rwa [List.append_nil] at h
  · next hsmall =>
    have hne : Printf.udec n ≠ [] := Nat.toDigits_ne_nil
    rw [parseDigits_digits hne hall (by rw [hval]; omega), hval]

/-- `%ld`: the number, where it fits into a `long`. -/
theorem kstrtol_dec (v : Int) : kstrtol (Printf.dec v) 10 =
    if -2 ^ 63 ≤ v ∧ v < 2 ^ 63 then .ok v else .error .ERANGE := by
  cases v with
  | ofNat n =>
    have hne : Printf.udec n ≠ [] := Nat.toDigits_ne_nil
    have h := kstrtol_unsigned hne (Numeral.toDigits_all (by decide) (by decide) n) []
    rw [List.append_nil, parseDigits_udec] at h
    rw [Printf.dec, h, Int.ofNat_eq_natCast]
    by_cases hbig : 2 ^ 64 ≤ n
    · rw [if_pos hbig, if_neg (by omega)]
    · rw [if_neg hbig]
      dsimp only
      by_cases hlong : 2 ^ 63 ≤ n
      · rw [if_pos hlong, if_neg (by omega)]
      · rw [if_neg hlong, if_pos (by omega)]
  | negSucc n =>
    rw [Printf.dec, kstrtol_minus, parseDigits_udec, Int.negSucc_eq]
    by_cases hbig : 2 ^ 64 ≤ n + 1
    · rw [if_pos hbig, if_neg (by omega)]
    · rw [if_neg hbig]
      dsimp only
      by_cases hlong : 2 ^ 63 < n + 1
      · rw [if_pos hlong, if_neg (by omega)]
      · rw [if_neg hlong, if_pos (by omega)]
        push_cast
        rfl

/-- A number of which only the first digits are there is refused, if these are many. -/
theorem kstrtol_dec_cut {v : Int} {m : Nat} (hm : 22 ≤ m) (hlen : m ≤ (Printf.dec v).length)
    (rest : Text) : kstrtol ((Printf.dec v).take m ++ rest) 10 = .error .ERANGE := by
  have hbig : ∀ n j, 20 ≤ j → j < (Printf.udec n).length →
      parseDigits ((Printf.udec n).take (j + 1) ++ rest) 10 = .error .ERANGE := by
    intro n j hj hlt
    have hall : (Printf.udec n).all (Numeral.isDigitOf 10) = true :=
      Numeral.toDigits_all (by decide) (by decide) n
    have hn : 10 ^ 20 ≤ n := by
      by_contra hless
      have := Nat.toDigits_length 10 n 20 (by decide) (by omega)
      exact absurd hlt (by unfold Printf.udec; omega)
    have hpow : 10 ^ 20 ≤ 10 ^ j := Nat.pow_le_pow_right (by decide) hj
    have hle := Numeral.le_value_take (b := 10) (by decide) (by decide) n j
    refine parseDigits_overflow (by decide) ?_ ?_ rest
    · exact List.all_eq_true.mpr fun c hc =>
        List.all_eq_true.mp hall c (List.mem_of_mem_take hc)
    · have hmin : (10 : Nat) ^ 20 ≤ min n (10 ^ j) := le_min hn hpow
      have h64 : (2 : Nat) ^ 64 ≤ 10 ^ 20 := by decide
      exact (h64.trans hmin).trans hle
  obtain ⟨j, rfl⟩ : ∃ j, m = j + 2 := ⟨m - 2, by omega⟩
  cases v with
  | ofNat n =>
    rw [Printf.dec] at hlen
    have hall : (Printf.udec n).all (Numeral.isDigitOf 10) = true :=
      Numeral.toDigits_all (by decide) (by decide) n
    have hne : (Printf.udec n).take (j + 2) ≠ [] := by
      rw [← List.length_pos_iff, List.length_take_of_le hlen]
      omega
    rw [Printf.dec, kstrtol_unsigned hne (List.all_eq_true.mpr fun c hc =>
      List.all_eq_true.mp hall c (List.mem_of_mem_take hc)), hbig n (j + 1) (by omega) hlen]
  | negSucc n =>
    rw [Printf.dec, List.length_cons] at hlen
    rw [Printf.dec, List.take_succ_cons, List.cons_append, kstrtol_minus,
      hbig (n + 1) j (by omega) (by omega)]

/-! ## `strtol` -/

/-- `isspace` -/
def isspace (c : Char) : Bool := c = ' ' || ('\t' ≤ c && c ≤ '\r')

/-- The nearest `long`. -/
def clamp (v : Int) : Int := max (-2 ^ 63) (min v (2 ^ 63 - 1))

/-- The sign, if there is one, and what stands behind it. -/
def takeSign (s : Text) : Bool × Text :=
  if s.head? = some '-' then (true, s.tail)
  else if s.head? = some '+' then (false, s.tail)
  else (false, s)

/-- With base 16 a prefix counts where a digit follows it. -/
def takePrefix (s : Text) (base : Nat) : Text :=
  if base = 16 ∧ ("0x".toList <+: s ∨ "0X".toList <+: s) ∧
      (s.drop 2).head?.any (Numeral.isDigitOf 16) = true then s.drop 2
  else s

def applySign (neg : Bool) (n : Nat) : Int := if neg then -n else n

/-- `strtol(s, &end, base)`: the value, and the string from `end` on. -/
def strtol (s : Text) (base : Nat) : Int × Text :=
  let signed := takeSign (s.dropWhile isspace)
  let t := takePrefix signed.2 base
  let digits := t.takeWhile (Numeral.isDigitOf base)
  if digits = [] then (0, s)
  else (clamp (applySign signed.1 (Numeral.value base digits)),
    t.dropWhile (Numeral.isDigitOf base))

/-- `strtoull(s, NULL, base)`: a sign counts modulo `2 ^ 64`. -/
def strtoull (s : Text) (base : Nat) : Nat :=
  let signed := takeSign (s.dropWhile isspace)
  let t := takePrefix signed.2 base
  let n := Numeral.value base (t.takeWhile (Numeral.isDigitOf base))
  if 2 ^ 64 ≤ n then 2 ^ 64 - 1 else CInt.u64 (applySign signed.1 n)

/-- `atoi(s)` -/
def atoi (s : Text) : Int := CInt.int32 (strtol s 10).1

def IsSign (sign : Text) (neg : Bool) : Prop :=
  sign = ['-'] ∧ neg = true ∨ sign ∈ [[], ['+']] ∧ neg = false

/-- The whole string is a numeral of the number: white space, a sign, digits. -/
def IsDecimal (s : Text) (v : Int) : Prop :=
  ∃ (space sign digits : Text) (neg : Bool), s = space ++ (sign ++ digits) ∧
    (∀ c ∈ space, isspace c = true) ∧
    IsSign sign neg ∧ digits ≠ [] ∧ digits.all (Numeral.isDigitOf 10) = true ∧
    v = applySign neg (Numeral.value 10 digits)

theorem toNat_le_of_isspace {c : Char} (h : isspace c = true) : c.toNat ≤ 32 := by
  unfold isspace at h
  rw [Bool.or_eq_true, Bool.and_eq_true, decide_eq_true_eq, decide_eq_true_eq,
    decide_eq_true_eq] at h
  rcases h with rfl | ⟨-, h⟩
  · exact le_rfl
  · have hle : c.toNat ≤ '\r'.toNat := h
    have hr : '\r'.toNat = 13 := rfl
    omega

theorem le_toNat_of_isDigitOf {b : Nat} {c : Char} (h : Numeral.isDigitOf b c = true) :
    48 ≤ c.toNat := by
  unfold Numeral.isDigitOf at h
  split at h
  · next d hd => exact (Numeral.digitVal_range hd).1
  · exact absurd h (by decide)

/-- A sign or a digit is not white space. -/
theorem not_isspace {c : Char} (h : 33 ≤ c.toNat) : isspace c = false := by
  by_contra hspace
  have := toNat_le_of_isspace (Bool.not_eq_false _ ▸ hspace)
  omega

theorem takePrefix_dec (s : Text) : takePrefix s 10 = s := if_neg fun h => absurd h.1 (by decide)

theorem takePrefix_digits {b : Nat} {digits : Text}
    (hall : digits.all (Numeral.isDigitOf b) = true) : takePrefix digits b = digits := by
  refine if_neg fun h => ?_
  have hx : 'x' ∈ digits ∨ 'X' ∈ digits := by
    rcases h.2.1 with hpre | hpre
    · exact .inl (hpre.subset (by decide))
    · exact .inr (hpre.subset (by decide))
  rcases hx with hx | hx
  · exact absurd rfl (Numeral.isDigitOf_ne (List.all_eq_true.mp hall _ hx)
      (show Numeral.digitVal 'x' = none from rfl))
  · exact absurd rfl (Numeral.isDigitOf_ne (List.all_eq_true.mp hall _ hx)
      (show Numeral.digitVal 'X' = none from rfl))

/-- A sign that is followed by digits is taken off, and says what it says. -/
theorem takeSign_append {b : Nat} {sign digits : Text} {neg : Bool} (hsign : IsSign sign neg)
    (hne : digits ≠ []) (hall : digits.all (Numeral.isDigitOf b) = true) :
    takeSign (sign ++ digits) = (neg, digits) := by
  rcases hsign with ⟨rfl, rfl⟩ | ⟨hsign, rfl⟩
  · rfl
  · rw [List.mem_cons, List.mem_singleton] at hsign
    rcases hsign with rfl | rfl
    · obtain ⟨c, cs, rfl⟩ := List.exists_cons_of_ne_nil hne
      have hc := le_toNat_of_isDigitOf (List.all_eq_true.mp hall c (by simp))
      have hminus : c ≠ '-' := by
        intro heq
        obtain rfl := heq
        exact absurd hc (by decide)
      have hplus : c ≠ '+' := by
        intro heq
        obtain rfl := heq
        exact absurd hc (by decide)
      simp [takeSign, hminus, hplus]
    · rfl

/-- What `takeSign` takes off is a sign, or nothing. -/
theorem takeSign_split (s : Text) : ∃ sign : Text, s = sign ++ (takeSign s).2 ∧
    IsSign sign (takeSign s).1 := by
  unfold takeSign
  split
  · next h => exact ⟨['-'], (List.cons_head?_tail h).symm, .inl ⟨rfl, rfl⟩⟩
  · split
    · next h => exact ⟨['+'], (List.cons_head?_tail h).symm, .inr ⟨by simp, rfl⟩⟩
    · exact ⟨[], rfl, .inr ⟨by simp, rfl⟩⟩

theorem dropWhile_sign {b : Nat} {sign digits : Text} {neg : Bool} (hsign : IsSign sign neg)
    (hne : digits ≠ []) (hall : digits.all (Numeral.isDigitOf b) = true) :
    (sign ++ digits).dropWhile isspace = sign ++ digits := by
  obtain ⟨c, cs, rfl⟩ := List.exists_cons_of_ne_nil hne
  have hc := le_toNat_of_isDigitOf (List.all_eq_true.mp hall c (by simp))
  rcases hsign with ⟨rfl, -⟩ | ⟨hsign, -⟩
  · rfl
  · rw [List.mem_cons, List.mem_singleton] at hsign
    rcases hsign with rfl | rfl
    · rw [List.nil_append, List.dropWhile_cons_of_neg]
      simpa using not_isspace (by omega)
    · rfl

/-- How a numeral is taken apart. -/
theorem IsDecimal.parts {s : Text} {v : Int} (h : IsDecimal s v) : ∃ neg digits,
    takeSign (s.dropWhile isspace) = (neg, digits) ∧ digits ≠ [] ∧
      digits.all (Numeral.isDigitOf 10) = true ∧
      v = applySign neg (Numeral.value 10 digits) := by
  obtain ⟨space, sign, digits, neg, rfl, hspace, hsign, hne, hall, hv⟩ := h
  refine ⟨neg, digits, ?_, hne, hall, hv⟩
  rw [List.dropWhile_append_of_pos hspace, dropWhile_sign hsign hne hall,
    takeSign_append hsign hne hall]

theorem IsDecimal.unique {s : Text} {v v' : Int} (h : IsDecimal s v) (h' : IsDecimal s v') :
    v = v' := by
  obtain ⟨neg, digits, htake, -, -, rfl⟩ := h.parts
  obtain ⟨neg', digits', htake', -, -, rfl⟩ := h'.parts
  obtain ⟨rfl, rfl⟩ := Prod.mk.inj (htake.symm.trans htake')
  rfl

theorem IsDecimal.ne_nil {s : Text} {v : Int} (h : IsDecimal s v) : s ≠ [] := by
  obtain ⟨space, sign, digits, neg, rfl, -, -, hne, -⟩ := h
  exact List.append_ne_nil_of_right_ne_nil _ (List.append_ne_nil_of_right_ne_nil _ hne)

/-- A numeral is read to its end, and its number clamped. -/
theorem strtol_decimal {s : Text} {v : Int} (h : IsDecimal s v) : strtol s 10 = (clamp v, []) := by
  obtain ⟨neg, digits, hsplit, hne, hall, rfl⟩ := h.parts
  have htake : digits.takeWhile (Numeral.isDigitOf 10) = digits :=
    List.takeWhile_eq_self_iff.mpr (List.all_eq_true.mp hall)
  have hrest : digits.dropWhile (Numeral.isDigitOf 10) = [] :=
    List.dropWhile_eq_nil_iff.mpr (List.all_eq_true.mp hall)
  unfold strtol
  dsimp only
  rw [hsplit, takePrefix_dec, htake, hrest, if_neg hne]

/-- A string that is read to its end is a numeral. -/
theorem isDecimal_of_strtol {s : Text} {n : Int} (h : strtol s 10 = (n, [])) (hne : s ≠ []) :
    ∃ v, IsDecimal s v ∧ n = clamp v := by
  unfold strtol at h
  dsimp only at h
  rw [takePrefix_dec] at h
  split at h
  · exact absurd (Prod.mk.inj h).2 hne
  · next hdigits =>
    obtain ⟨hn, hrest⟩ := Prod.mk.inj h
    obtain ⟨sign, hsplit, hsign⟩ := takeSign_split (s.dropWhile isspace)
    have hall := List.dropWhile_eq_nil_iff.mp hrest
    rw [List.takeWhile_eq_self_iff.mpr hall] at hdigits hn
    refine ⟨_, ⟨s.takeWhile isspace, sign, _, _, ?_, fun c hc => List.mem_takeWhile_imp hc,
      hsign, hdigits, List.all_eq_true.mpr hall, rfl⟩, hn.symm⟩
    rw [← hsplit, List.takeWhile_append_dropWhile]

theorem clamp_of_range {v : Int} (h1 : -2 ^ 63 ≤ v) (h2 : v < 2 ^ 63) : clamp v = v := by
  unfold clamp
  omega

/-- A numeral that fits is worth what its digits say. -/
theorem strtoull_digits {b : Nat} {digits : Text} (hne : digits ≠ [])
    (hall : digits.all (Numeral.isDigitOf b) = true) (hlt : Numeral.value b digits < 2 ^ 64) :
    strtoull digits b = Numeral.value b digits := by
  have hsign : IsSign [] false := .inr ⟨by simp, rfl⟩
  have htake : digits.takeWhile (Numeral.isDigitOf b) = digits :=
    List.takeWhile_eq_self_iff.mpr (List.all_eq_true.mp hall)
  have hspace := dropWhile_sign hsign hne hall
  have hsplit := takeSign_append hsign hne hall
  rw [List.nil_append] at hspace hsplit
  unfold strtoull
  dsimp only
  rw [hspace, hsplit, takePrefix_digits hall, htake, if_neg (by omega)]
  exact CInt.u64_of_nat hlt

/-- A number that is printed is read back, as far as it is a `long`. -/
theorem strtol_toDigits {b : Nat} (h2 : 2 ≤ b) (h16 : b ≤ 16) (n : Nat) :
    strtol (Nat.toDigits b n) b = (clamp n, []) := by
  have hall := Numeral.toDigits_all h2 h16 n
  have hne : Nat.toDigits b n ≠ [] := Nat.toDigits_ne_nil
  have hsign : IsSign [] false := .inr ⟨by simp, rfl⟩
  have htake : (Nat.toDigits b n).takeWhile (Numeral.isDigitOf b) = Nat.toDigits b n :=
    List.takeWhile_eq_self_iff.mpr (List.all_eq_true.mp hall)
  have hrest : (Nat.toDigits b n).dropWhile (Numeral.isDigitOf b) = [] :=
    List.dropWhile_eq_nil_iff.mpr (List.all_eq_true.mp hall)
  have hspace := dropWhile_sign hsign hne hall
  have hsplit := takeSign_append hsign hne hall
  rw [List.nil_append] at hspace hsplit
  unfold strtol
  dsimp only
  rw [hspace, hsplit, takePrefix_digits hall, htake, hrest, if_neg hne,
    Numeral.value_toDigits h2 h16]
  rfl

theorem atoi_udec {n : Nat} (h : n < 2 ^ 31) : atoi (Printf.udec n) = n := by
  unfold atoi Printf.udec
  rw [strtol_toDigits (by decide) (by decide), clamp_of_range (by omega) (by omega)]
  exact CInt.int32_of_nat h

end Strtol
