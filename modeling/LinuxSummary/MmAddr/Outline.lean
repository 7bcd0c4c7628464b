/-
  The lines that `fileview.c` draws.

  A line has the location, sixteen bytes in one of five formats and again as characters. All five
  formats take three columns a byte, so that a line is as long as its location and 65 more
  (`length_outline`); `outline_fits_iff` says for which locations it has room in `outline[80]`, and
  `outline_injective` that in every format a line shows its location and all of its bytes.
-/
import LinuxSummary.Library.CInt
import LinuxSummary.Library.Printf

namespace LinuxSummary.MmAddr

open CInt Printf

def BUFWIDE : Nat := 16

/-- The length of `outline[]`. -/
def OUTLINE : Nat := 80

inductive Format
  | byte
  | word
  | dword
  | qword
  | octaword
deriving DecidableEq

/-- The value of `format`. -/
def Format.size : Format → Nat
  | .byte => 1
  | .word => 2
  | .dword => 4
  | .qword => 8
  | .octaword => 16

/-- The number that the bytes of a unit stand for, the lowest first. -/
def little (bytes : List UInt8) : Nat := Nat.ofDigits 256 (bytes.map UInt8.toNat)

def blanks (n : Nat) : Text := List.replicate n ' '

/-- One unit of a line. -/
def Format.unit : Format → List UInt8 → Text
  | .byte, bp => HEX 2 (little bp) ++ blanks 1
  | .word, wp => blanks 1 ++ HEX 4 (little wp) ++ blanks 1
  | .dword, dp => blanks 2 ++ HEX 8 (little dp) ++ blanks 2
  | .qword, qp => blanks 4 ++ HEX 16 (little qp) ++ blanks 4
  | .octaword, qp =>
    blanks 5 ++
      (blanks 3 ++ (HEX 16 (little (qp.drop 8)) ++ HEX 16 (little (qp.take 8))) ++ blanks 3) ++
      blanks 5

/-- The units of a line, one after the other. -/
def Format.units (f : Format) : Nat → List UInt8 → Text
  | 0, _ => []
  | n + 1, bytes => f.unit (bytes.take f.size) ++ f.units n (bytes.drop f.size)

/-- The character of a byte; a `char` has a sign. -/
def ascii (b : UInt8) : Char :=
  let ch := Int.bmod b.toNat (2 ^ 8)
  if ch < 0x20 ∨ 0x7E < ch then '.' else Char.ofUInt8 b

def outline (f : Format) (location : Int) (row : List UInt8) : Text :=
  HEX 13 (u64 location) ++ blanks 1 ++ f.units (BUFWIDE / f.size) row ++ row.map ascii

/-! ## Units -/

theorem little_lt (bytes : List UInt8) : little bytes < 256 ^ bytes.length := by
  have h := Nat.ofDigits_lt_base_pow_length (b := 256) (l := bytes.map UInt8.toNat) (by decide)
    (by
      intro d hd
      obtain ⟨b, -, rfl⟩ := List.mem_map.mp hd
      exact b.toNat_lt)
  rwa [List.length_map] at h

theorem little_injective {bytes bytes' : List UInt8} (hlen : bytes.length = bytes'.length)
    (h : little bytes = little bytes') : bytes = bytes' := by
  have hdigit : ∀ (l : List UInt8) (d : Nat), d ∈ l.map UInt8.toNat → d < 256 := by
    intro l d hd
    obtain ⟨b, -, rfl⟩ := List.mem_map.mp hd
    exact b.toNat_lt
  have hmap := Nat.ofDigits_inj_of_len_eq (by decide) (by simpa using hlen) (hdigit bytes)
    (hdigit bytes') h
  exact List.map_injective_iff.mpr (fun _ _ h => UInt8.toNat_inj.mp h) hmap

theorem length_HEX_little {w : Nat} (hw : 0 < w) {bytes : List UInt8}
    (h : w = 2 * bytes.length) : (HEX w (little bytes)).length = w := by
  apply length_HEX hw
  have hlt := little_lt bytes
  rw [h, Nat.pow_mul]
  exact hlt

/-- Every format takes three columns for a byte. -/
theorem length_unit (f : Format) {bytes : List UInt8} (h : bytes.length = f.size) :
    (f.unit bytes).length = 3 * f.size := by
  cases f with
  | byte =>
    rw [Format.unit, List.length_append, length_HEX_little (by decide) (by rw [h]; rfl)]
    rfl
  | word | dword | qword =>
    rw [Format.unit, List.length_append, List.length_append,
      length_HEX_little (by decide) (by rw [h]; rfl)]
    rfl
  | octaword =>
    have hhigh : 16 = 2 * (bytes.drop 8).length := by rw [List.length_drop, h]; rfl
    have hlow : 16 = 2 * (bytes.take 8).length := by rw [List.length_take, h]; rfl
    simp only [Format.unit, List.length_append, length_HEX_little (by decide) hhigh,
      length_HEX_little (by decide) hlow]
    rfl

theorem unit_injective (f : Format) {bytes bytes' : List UInt8} (h : bytes.length = f.size)
    (h' : bytes'.length = f.size) (heq : f.unit bytes = f.unit bytes') : bytes = bytes' := by
  have hlen := h.trans h'.symm
  cases f with
  | byte =>
    exact little_injective hlen (HEX_injective _ (List.append_cancel_right heq))
  | word | dword | qword =>
    exact little_injective hlen
      (HEX_injective _ (List.append_cancel_left (List.append_cancel_right heq)))
  | octaword =>
    have hmid := List.append_cancel_left (List.append_cancel_right
      (List.append_cancel_left (List.append_cancel_right heq)))
    have hhigh : ∀ b : List UInt8, b.length = 16 → (HEX 16 (little (b.drop 8))).length = 16 := by
      intro b hb
      exact length_HEX_little (by decide) (by rw [List.length_drop, hb])
    obtain ⟨hdrop, htake⟩ := List.append_inj hmid ((hhigh bytes h).trans (hhigh bytes' h').symm)
    have hdrop' := little_injective (by rw [List.length_drop, List.length_drop, hlen])
      (HEX_injective _ hdrop)
    have htake' := little_injective (by rw [List.length_take, List.length_take, hlen])
      (HEX_injective _ htake)
    rw [← List.take_append_drop 8 bytes, hdrop', htake', List.take_append_drop]

theorem length_units (f : Format) {n : Nat} {bytes : List UInt8} (h : bytes.length = n * f.size) :
    (f.units n bytes).length = 3 * (n * f.size) := by
  induction n generalizing bytes with
  | zero => simp [Format.units]
  | succ n ih =>
    have htake : (bytes.take f.size).length = f.size := by
      rw [List.length_take, h, Nat.succ_mul]
      omega
    have hdrop : (bytes.drop f.size).length = n * f.size := by
      rw [List.length_drop, h, Nat.succ_mul, Nat.add_sub_cancel]
    rw [Format.units, List.length_append, length_unit f htake, ih hdrop]
    ring

theorem units_injective (f : Format) {n : Nat} {bytes bytes' : List UInt8}
    (h : bytes.length = n * f.size) (h' : bytes'.length = n * f.size)
    (heq : f.units n bytes = f.units n bytes') : bytes = bytes' := by
  induction n generalizing bytes bytes' with
  | zero =>
    rw [Nat.zero_mul] at h h'
    rw [List.length_eq_zero_iff.mp h, List.length_eq_zero_iff.mp h']
  | succ n ih =>
    have htake : ∀ b : List UInt8, b.length = (n + 1) * f.size →
        (b.take f.size).length = f.size := by
      intro b hb
      rw [List.length_take, hb, Nat.succ_mul]
      omega
    have hdrop : ∀ b : List UInt8, b.length = (n + 1) * f.size →
        (b.drop f.size).length = n * f.size := by
      intro b hb
      rw [List.length_drop, hb, Nat.succ_mul, Nat.add_sub_cancel]
    obtain ⟨hunit, hrest⟩ := List.append_inj heq
      ((length_unit f (htake _ h)).trans (length_unit f (htake _ h')).symm)
    rw [← List.take_append_drop f.size bytes, unit_injective f (htake _ h) (htake _ h') hunit,
      ih (hdrop _ h) (hdrop _ h') hrest, List.take_append_drop]

/-! ## Lines -/

theorem units_fill (f : Format) : BUFWIDE / f.size * f.size = BUFWIDE := by
  cases f <;> rfl

theorem length_outline (f : Format) (location : Int) {row : List UInt8} (h : row.length = BUFWIDE) :
    (outline f location row).length = (HEX 13 (u64 location)).length + 65 := by
  have hunits := length_units f (h.trans (units_fill f).symm)
  rw [units_fill f] at hunits
  rw [outline, List.length_append, List.length_append, List.length_append, hunits,
    List.length_map, h]
  rfl

/-- A line has room in `outline` with the NUL behind it exactly where its location has at most
    fourteen digits. -/
theorem outline_fits_iff (f : Format) (location : Int) {row : List UInt8}
    (h : row.length = BUFWIDE) :
    (outline f location row).length + 1 ≤ OUTLINE ↔ u64 location < 2 ^ 56 := by
  have hdigits := length_HEX_le_iff (w := 13) (k := 14) (by decide) (by decide) (u64 location)
  have hpow : (2 : Nat) ^ 56 = 16 ^ 14 := by norm_num
  rw [length_outline f location h, hpow, ← hdigits]
  unfold OUTLINE
  omega

/-- **A line shows where it is and what is there, in every format.** -/
theorem outline_injective (f : Format) {location location' : Int} {row row' : List UInt8}
    (h : row.length = BUFWIDE) (h' : row'.length = BUFWIDE)
    (heq : outline f location row = outline f location' row') :
    u64 location = u64 location' ∧ row = row' := by
  have hunits : ∀ r : List UInt8, r.length = BUFWIDE →
      (f.units (BUFWIDE / f.size) r).length = 48 := by
    intro r hr
    have := length_units f (hr.trans (units_fill f).symm)
    rwa [units_fill f] at this
  have hmap : (row.map ascii).length = (row'.map ascii).length := by
    rw [List.length_map, List.length_map, h, h']
  -- from the right: the characters and the units have one width, the location has not
  have hleft := (List.append_inj' heq hmap).1
  obtain ⟨hlocation, hrow⟩ := List.append_inj' hleft ((hunits row h).trans (hunits row' h').symm)
  exact ⟨HEX_injective _ (List.append_cancel_right hlocation),
    units_injective f (h.trans (units_fill f).symm) (h'.trans (units_fill f).symm) hrow⟩

/-- Sixteen bytes, drawn twice in octawords. -/
theorem outline_injective_octaword :
    u64 256 = u64 256 ∧ List.replicate 16 (7 : UInt8) = List.replicate 16 7 :=
  outline_injective .octaword (by decide) (by decide) rfl

end LinuxSummary.MmAddr
