/-
  The standard input of a C program, and loops that take turns on it. Proof-only, nothing about
  one program.

  Behind the last byte `getchar` returns `EOF`, again and again. `scanNumber` is one `%d` or
  `%lx` of `scanf`; what it takes are bytes of numbers (`scanNumber_split`).

  `before turn s n` is the state in which the turn `n` of a loop begins, if it does. A variant
  bounds the turns (`before_none`), and what every turn keeps and goes on from makes the loop
  endless (`before_some`).
-/
import LinuxSummary.Library.Strtol

namespace Stdin

/-! ## Characters -/

def EOF : Int := -1

/-- `getchar()`, and what is left of the input. -/
def getchar : List UInt8 → Int × List UInt8
  | [] => (EOF, [])
  | b :: rest => (b.toNat, rest)

/-- `(char)n`, where `char` has a sign. -/
def toChar (n : Int) : Int := Int.bmod n (2 ^ 8)

/-- `isspace` of a `char`. -/
def isspace (c : Int) : Bool := c = 32 || (9 ≤ c && c ≤ 13)

/-- What a character constant is worth. -/
def code (c : Char) : Int := c.toNat

/-- The character of a byte. -/
def charOf (b : UInt8) : Char := Char.ofUInt8 b

theorem charOf_injective : Function.Injective charOf := by
  intro b c h
  exact UInt8.toUInt32_inj.mp (congrArg Char.val h)

theorem getchar_snd (input : List UInt8) : (getchar input).2 = input.tail := by
  cases input with
  | nil => rfl
  | cons b rest => rfl

/-- An ASCII character that was read is what stands first in the input. -/
theorem toChar_getchar_eq_iff {b : UInt8} (hb : b.toNat < 128) (input : List UInt8) :
    toChar (getchar input).1 = b.toNat ↔ input.head? = some b := by
  cases input with
  | nil =>
    have hEOF : toChar (getchar []).1 = -1 := rfl
    rw [hEOF, List.head?_nil]
    constructor
    · intro h
      omega
    · intro h
      exact absurd h (by simp)
  | cons c rest =>
    have hlt := c.toNat_lt
    have hchar : toChar (getchar (c :: rest)).1 = b.toNat ↔ c.toNat = b.toNat := by
      unfold toChar getchar
      rw [Int.bmod_def]
      dsimp only
      omega
    rw [hchar, List.head?_cons, Option.some.injEq, UInt8.toNat_inj]

/-! ## Numbers -/

def takeSign (s : List UInt8) : Bool × List UInt8 :=
  if s.head? = some 45 then (true, s.tail)
  else if s.head? = some 43 then (false, s.tail)
  else (false, s)

/-- `0x` and `0X` are passed before a number in base 16, also where no digit follows. -/
def passPrefix (base : Nat) (s : List UInt8) : List UInt8 :=
  if base = 16 ∧ ([48, 120] <+: s ∨ [48, 88] <+: s) then s.drop 2 else s

def isDigit (base : Nat) (b : UInt8) : Bool := Numeral.isDigitOf base (charOf b)

/-- A conversion of `scanf`: the number, if there is one, and what is left of the input. -/
def scanNumber (base : Nat) (input : List UInt8) : Option Int × List UInt8 :=
  let signed := takeSign (input.dropWhile fun b => Strtol.isspace (charOf b))
  let t := passPrefix base signed.2
  let digits := t.takeWhile (isDigit base)
  (if digits = [] then none
    else some (Strtol.applySign signed.1 (Numeral.value base (digits.map charOf))),
    t.dropWhile (isDigit base))

/-- The bytes that a conversion can take. -/
def numberByte (base : Nat) (b : UInt8) : Bool :=
  Strtol.isspace (charOf b) || b = 45 || b = 43 || b = 48 || b = 120 || b = 88 || isDigit base b

theorem takeSign_split (s : List UInt8) :
    ∃ sign, s = sign ++ (takeSign s).2 ∧ ∀ b ∈ sign, b = 45 ∨ b = 43 := by
  unfold takeSign
  split
  · next h => exact ⟨[45], (List.cons_head?_tail h).symm, by simp⟩
  · split
    · next h => exact ⟨[43], (List.cons_head?_tail h).symm, by simp⟩
    · exact ⟨[], rfl, by simp⟩

theorem passPrefix_split (base : Nat) (s : List UInt8) :
    ∃ pre, s = pre ++ passPrefix base s ∧ ∀ b ∈ pre, b = 48 ∨ b = 120 ∨ b = 88 := by
  unfold passPrefix
  split
  · next h =>
    refine ⟨s.take 2, (List.take_append_drop 2 s).symm, ?_⟩
    rcases h.2 with hpre | hpre
    · obtain ⟨rest, rfl⟩ := hpre
      simp
    · obtain ⟨rest, rfl⟩ := hpre
      simp
  · exact ⟨[], rfl, by simp⟩

/-- What a conversion takes away. -/
theorem scanNumber_split (base : Nat) (input : List UInt8) :
    ∃ taken, input = taken ++ (scanNumber base input).2 ∧
      ∀ b ∈ taken, numberByte base b = true := by
  obtain ⟨sign, hsign, hsignBytes⟩ :=
    takeSign_split (input.dropWhile fun b => Strtol.isspace (charOf b))
  obtain ⟨pre, hpre, hpreBytes⟩ := passPrefix_split base
    (takeSign (input.dropWhile fun b => Strtol.isspace (charOf b))).2
  let spaces := input.takeWhile fun b => Strtol.isspace (charOf b)
  let t := passPrefix base (takeSign (input.dropWhile fun b => Strtol.isspace (charOf b))).2
  refine ⟨spaces ++ (sign ++ (pre ++ t.takeWhile (isDigit base))), ?_, ?_⟩
  · calc input = spaces ++ input.dropWhile fun b => Strtol.isspace (charOf b) :=
          (List.takeWhile_append_dropWhile).symm
      _ = spaces ++ (sign ++ (pre ++ t)) := by rw [← hpre, ← hsign]
      _ = spaces ++ (sign ++ (pre ++
            (t.takeWhile (isDigit base) ++ t.dropWhile (isDigit base)))) := by
          rw [List.takeWhile_append_dropWhile]
      _ = _ := by simp only [List.append_assoc]; rfl
  · intro b hb
    unfold numberByte
    simp only [List.mem_append] at hb
    rcases hb with hb | hb | hb | hb
    · simp [List.mem_takeWhile_imp hb]
    · rcases hsignBytes b hb with rfl | rfl <;> simp
    · rcases hpreBytes b hb with rfl | rfl | rfl <;> simp
    · simp [List.mem_takeWhile_imp hb]

theorem scanNumber_suffix (base : Nat) (input : List UInt8) :
    (scanNumber base input).2 <:+ input := by
  obtain ⟨taken, hsplit, -⟩ := scanNumber_split base input
  exact ⟨taken, hsplit.symm⟩

/-- A byte that belongs to no number stays in the input. -/
theorem mem_scanNumber {base : Nat} {b : UInt8} (hb : numberByte base b = false)
    {input : List UInt8} (hmem : b ∈ input) : b ∈ (scanNumber base input).2 := by
  obtain ⟨taken, hsplit, htaken⟩ := scanNumber_split base input
  rw [hsplit, List.mem_append] at hmem
  rcases hmem with h | h
  · rw [htaken b h] at hb
    exact absurd hb (by decide)
  · exact h

/-! ## Turns of a loop -/

section
variable {σ : Type} (turn : Nat → σ → Option σ) (s : σ)

/-- The state in which the turn `n` begins; none where the loop has ended. -/
def before : Nat → Option σ
  | 0 => some s
  | n + 1 => (before n).bind (turn n)

/-- The loop begins finitely many turns. -/
def Ends : Prop := ∃ n, before turn s n = none

variable {turn s} {I : σ → Prop}

/-- What every turn keeps. -/
theorem before_invariant (hstep : ∀ n s s', I s → turn n s = some s' → I s') (hs : I s) (n : Nat) :
    ∀ s', before turn s n = some s' → I s' := by
  induction n with
  | zero =>
    intro s' h
    obtain rfl := Option.some.inj h
    exact hs
  | succ n ih =>
    intro s' h
    obtain ⟨u, hu, hturn⟩ := Option.bind_eq_some_iff.mp h
    exact hstep n u s' (ih u hu) hturn

/-- A variant: under the invariant every turn makes it smaller. -/
theorem before_variant {m : σ → Nat}
    (hstep : ∀ n s s', I s → turn n s = some s' → I s' ∧ m s' < m s) (hs : I s) (n : Nat) :
    ∀ s', before turn s n = some s' → I s' ∧ m s' + n ≤ m s := by
  induction n with
  | zero =>
    intro s' h
    obtain rfl := Option.some.inj h
    exact ⟨hs, le_rfl⟩
  | succ n ih =>
    intro s' h
    obtain ⟨u, hu, hturn⟩ := Option.bind_eq_some_iff.mp h
    obtain ⟨hI, hle⟩ := ih u hu
    obtain ⟨hI', hlt⟩ := hstep n u s' hI hturn
    exact ⟨hI', by omega⟩

theorem before_none {m : σ → Nat}
    (hstep : ∀ n s s', I s → turn n s = some s' → I s' ∧ m s' < m s) (hs : I s) :
    before turn s (m s + 1) = none := by
  by_contra hne
  obtain ⟨s', h⟩ := Option.ne_none_iff_exists'.mp hne
  have := (before_variant hstep hs _ s' h).2
  omega

/-- Where every turn goes on, the loop has no end. -/
theorem before_some (hstep : ∀ n s, I s → ∃ s', turn n s = some s' ∧ I s') (hs : I s) (n : Nat) :
    ∃ s', before turn s n = some s' ∧ I s' := by
  induction n with
  | zero => exact ⟨s, rfl, hs⟩
  | succ n ih =>
    obtain ⟨u, hu, hI⟩ := ih
    obtain ⟨s', hturn, hI'⟩ := hstep n u hI
    exact ⟨s', Option.bind_eq_some_iff.mpr ⟨u, hu, hturn⟩, hI'⟩

theorem not_ends (hstep : ∀ n s, I s → ∃ s', turn n s = some s' ∧ I s') (hs : I s) :
    ¬ Ends turn s := by
  intro h
  obtain ⟨n, hn⟩ := h
  obtain ⟨s', hs', -⟩ := before_some hstep hs n
  rw [hn] at hs'
  exact absurd hs' (by simp)

end

end Stdin
