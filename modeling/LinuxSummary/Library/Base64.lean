/-
  Base64 with the standard alphabet and padding. Proof-only, nothing about one program.

  `encode` turns three bytes into four characters, with `=` for the bytes that the last group
  lacks. `decode` drops the characters outside the alphabet, as `base64.b64decode` does, and
  fails where the rest is not whole groups. `decode_encode` is the round trip.
-/
import LinuxSummary.Library.Text

namespace Base64

/-- The character of six bits. -/
def sym (n : Nat) : Char :=
  if n < 26 then Char.ofNat (65 + n)
  else if n < 52 then Char.ofNat (71 + n)
  else if n < 62 then Char.ofNat (n - 4)
  else if n = 62 then '+'
  else '/'

/-- The six bits of a character. -/
def val (c : Char) : Option Nat :=
  if 'A' ≤ c ∧ c ≤ 'Z' then some (c.toNat - 65)
  else if 'a' ≤ c ∧ c ≤ 'z' then some (c.toNat - 71)
  else if '0' ≤ c ∧ c ≤ '9' then some (c.toNat + 4)
  else if c = '+' then some 62
  else if c = '/' then some 63
  else none

def encode : List UInt8 → Text
  | [] => []
  | [a] => [sym (a.toNat / 4), sym (a.toNat % 4 * 16), '=', '=']
  | [a, b] =>
    [sym (a.toNat / 4), sym (a.toNat % 4 * 16 + b.toNat / 16), sym (b.toNat % 16 * 4), '=']
  | a :: b :: c :: rest =>
    sym (a.toNat / 4) :: sym (a.toNat % 4 * 16 + b.toNat / 16) ::
      sym (b.toNat % 16 * 4 + c.toNat / 64) :: sym (c.toNat % 64) :: encode rest

/-- The groups of four characters, of which the last may be padded. -/
def decodeGroups : Text → Option (List UInt8)
  | [] => some []
  | x :: y :: z :: w :: rest =>
    if rest = [] ∧ z = '=' ∧ w = '=' then do
      let i ← val x
      let j ← val y
      some [UInt8.ofNat (i * 4 + j / 16)]
    else if rest = [] ∧ w = '=' then do
      let i ← val x
      let j ← val y
      let k ← val z
      some [UInt8.ofNat (i * 4 + j / 16), UInt8.ofNat (j % 16 * 16 + k / 4)]
    else do
      let i ← val x
      let j ← val y
      let k ← val z
      let l ← val w
      let bs ← decodeGroups rest
      some (UInt8.ofNat (i * 4 + j / 16) :: UInt8.ofNat (j % 16 * 16 + k / 4) ::
        UInt8.ofNat (k % 4 * 64 + l) :: bs)
  | _ => none

def decode (s : Text) : Option (List UInt8) :=
  decodeGroups (s.filter fun c => (val c).isSome || c == '=')

theorem val_sym {n : Nat} (h : n < 64) : val (sym n) = some n := by
  interval_cases n <;> rfl

theorem sym_ne_pad {n : Nat} (h : n < 64) : sym n ≠ '=' := by
  intro hpad
  have hval := val_sym h
  rw [hpad] at hval
  exact absurd hval (by rw [show val '=' = none from rfl]; simp)

/-- The bytes of a group come back from its four parts. -/
theorem ofNat_parts (a : UInt8) {n : Nat} (h : n = a.toNat) : UInt8.ofNat n = a := by
  rw [h, UInt8.ofNat_toNat]

theorem decodeGroups_encode (bs : List UInt8) : decodeGroups (encode bs) = some bs := by
  induction bs using encode.induct with
  | case1 => rfl
  | case2 a =>
    have ha := a.toNat_lt
    have hi : val (sym (a.toNat / 4)) = some (a.toNat / 4) := val_sym (by omega)
    have hj : val (sym (a.toNat % 4 * 16)) = some (a.toNat % 4 * 16) := val_sym (by omega)
    simp only [encode, decodeGroups, and_self, if_true, hi, hj, Option.bind_eq_bind,
      Option.bind_some]
    rw [ofNat_parts a (by omega)]
  | case3 a b =>
    have ha := a.toNat_lt
    have hb := b.toNat_lt
    have hi : val (sym (a.toNat / 4)) = some (a.toNat / 4) := val_sym (by omega)
    have hj : val (sym (a.toNat % 4 * 16 + b.toNat / 16)) =
        some (a.toNat % 4 * 16 + b.toNat / 16) := val_sym (by omega)
    have hk : val (sym (b.toNat % 16 * 4)) = some (b.toNat % 16 * 4) := val_sym (by omega)
    have hz : sym (b.toNat % 16 * 4) ≠ '=' := sym_ne_pad (by omega)
    simp only [encode, decodeGroups, hz, and_false, false_and, and_self, if_false, if_true, hi, hj,
      hk, Option.bind_eq_bind, Option.bind_some]
    rw [ofNat_parts a (by omega), ofNat_parts b (by omega)]
  | case4 a b c rest ih =>
    have ha := a.toNat_lt
    have hb := b.toNat_lt
    have hc := c.toNat_lt
    have hi : val (sym (a.toNat / 4)) = some (a.toNat / 4) := val_sym (by omega)
    have hj : val (sym (a.toNat % 4 * 16 + b.toNat / 16)) =
        some (a.toNat % 4 * 16 + b.toNat / 16) := val_sym (by omega)
    have hk : val (sym (b.toNat % 16 * 4 + c.toNat / 64)) =
        some (b.toNat % 16 * 4 + c.toNat / 64) := val_sym (by omega)
    have hl : val (sym (c.toNat % 64)) = some (c.toNat % 64) := val_sym (by omega)
    have hw : sym (c.toNat % 64) ≠ '=' := sym_ne_pad (by omega)
    simp only [encode, decodeGroups, hw, and_false, if_false, hi, hj, hk, hl, ih,
      Option.bind_eq_bind, Option.bind_some]
    rw [ofNat_parts a (by omega), ofNat_parts b (by omega), ofNat_parts c (by omega)]

/-- Nothing of an encoded text is dropped. -/
theorem encode_filter (bs : List UInt8) :
    (encode bs).filter (fun c => (val c).isSome || c == '=') = encode bs := by
  have hsym : ∀ n : Nat, n < 64 → ((val (sym n)).isSome || sym n == '=') = true := by
    intro n h
    rw [val_sym h]
    rfl
  rw [List.filter_eq_self]
  induction bs using encode.induct with
  | case1 => exact fun c hc => absurd hc (by simp [encode])
  | case2 a =>
    have ha := a.toNat_lt
    intro c hc
    simp only [encode, List.mem_cons, List.not_mem_nil, or_false] at hc
    rcases hc with rfl | rfl | rfl | rfl
    · exact hsym _ (by omega)
    · exact hsym _ (by omega)
    · rfl
    · rfl
  | case3 a b =>
    have ha := a.toNat_lt
    have hb := b.toNat_lt
    intro c hc
    simp only [encode, List.mem_cons, List.not_mem_nil, or_false] at hc
    rcases hc with rfl | rfl | rfl | rfl
    · exact hsym _ (by omega)
    · exact hsym _ (by omega)
    · exact hsym _ (by omega)
    · rfl
  | case4 a b c rest ih =>
    have ha := a.toNat_lt
    have hb := b.toNat_lt
    have hc := c.toNat_lt
    intro d hd
    simp only [encode, List.mem_cons] at hd
    rcases hd with rfl | rfl | rfl | rfl | hd
    · exact hsym _ (by omega)
    · exact hsym _ (by omega)
    · exact hsym _ (by omega)
    · exact hsym _ (by omega)
    · exact ih d hd

/-- **The round trip.** -/
theorem decode_encode (bs : List UInt8) : decode (encode bs) = some bs := by
  rw [decode, encode_filter, decodeGroups_encode]

end Base64
