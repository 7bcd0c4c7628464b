/-
  What `get_x86_pte` prints, and the script `va_get_pte.py`, which is the same code by itself.

  The parts of an address are computed twice: as numbers, with shifts and masks, and as pieces
  of its 48 digits in base 2. Both come down to quotients and remainders of `va % 2^48`
  (`getX86Pte_eq` and `value_binva_slice`).
-/
import LinuxSummary.Library.Python
import LinuxSummary.Zproc.Script

namespace LinuxSummary.Zproc

open Python Python.Script

/-- The address with 48 bits. -/
def masked (va : Int) : Nat := (va % 2 ^ 48).toNat

/-- `"{0:048b}".format(va)` -/
def binva (va : Int) : Text := Numeral.padLeft 48 (Nat.toDigits 2 (masked va))

/-- The pieces of the digits. -/
structure PteBits where
  pml4 : Text
  dirPtr : Text
  dir : Text
  table : Text
  offset : Text

def pteBits (binva : Text) : PteBits where
  pml4 := slice binva (48 - 48) (48 - 39)
  dirPtr := slice binva (48 - 39) (48 - 30)
  dir := slice binva (48 - 30) (48 - 21)
  table := slice binva (48 - 21) (48 - 12)
  offset := binva.drop (48 - 12)

def PteBits.all (bits : PteBits) : List Text :=
  [bits.pml4, bits.dirPtr, bits.dir, bits.table, bits.offset]

def Pte.all (pte : Pte) : List Nat := [pte.pml4, pte.dirPtr, pte.dir, pte.table, pte.offset]

/-- The line about an index. -/
def indexLine (name bits : Text) (n : Nat) : Text :=
  name ++ "\t:".toList ++ bits ++ " \t:0x".toList ++ Printf.hex n ++ " \t*8:0x".toList ++
    Printf.hex (n <<< 3)

def offsetLine (bits : Text) (n : Nat) : Text :=
  "offset\t:".toList ++ bits ++ " \t:0x".toList ++ Printf.hex n

/-- What `get_x86_pte` prints. -/
def pteLines (va : Int) : List Text :=
  let bits := pteBits (binva va)
  let pte := getX86Pte va
  ["va:0x".toList ++ Printf.hex (masked va),
    binva va,
    indexLine "pml4".toList bits.pml4 pte.pml4,
    indexLine "dir_ptr".toList bits.dirPtr pte.dirPtr,
    indexLine "dir".toList bits.dir pte.dir,
    indexLine "table".toList bits.table pte.table,
    offsetLine bits.offset pte.offset]

/-- The script `va_get_pte.py`. -/
def vaGetPte (prog : Text) : List Text → Script Text Unit
  | [] => do
    emit ("usage: ".toList ++ prog ++ " <hex>".toList)
    raise (.systemExit 1)
  | arg :: _ => do
    let va ← eval (int 16 arg)
    (pteLines va).forM emit

/-! ## The numbers -/

theorem masked_lt (va : Int) : masked va < 2 ^ 48 := by
  unfold masked
  omega

theorem masked_cast (va : Int) : (masked va : Int) = va % 2 ^ 48 := by
  unfold masked
  omega

theorem masked_eq_iff {va vb : Int} : masked va = masked vb ↔ va % 2 ^ 48 = vb % 2 ^ 48 := by
  rw [← masked_cast va, ← masked_cast vb, Nat.cast_inj]

theorem getX86Pte_eq (va : Int) : getX86Pte va =
    ⟨masked va / 2 ^ 39 % 2 ^ 9, masked va / 2 ^ 30 % 2 ^ 9, masked va / 2 ^ 21 % 2 ^ 9,
      masked va / 2 ^ 12 % 2 ^ 9, masked va % 2 ^ 12⟩ := by
  have h9 : ∀ x : Nat, x &&& 511 = x % 2 ^ 9 := fun x => Nat.and_two_pow_sub_one_eq_mod x 9
  have h12 : ∀ x : Nat, x &&& 4095 = x % 2 ^ 12 := fun x => Nat.and_two_pow_sub_one_eq_mod x 12
  simp only [getX86Pte, h9, h12, Nat.shiftRight_eq_div_pow]
  rfl

/-- The parts put together again. -/
def Pte.join (pte : Pte) : Nat :=
  pte.pml4 * 2 ^ 39 + pte.dirPtr * 2 ^ 30 + pte.dir * 2 ^ 21 + pte.table * 2 ^ 12 + pte.offset

theorem join_getX86Pte (va : Int) : (getX86Pte va).join = masked va := by
  have := masked_lt va
  rw [getX86Pte_eq]
  generalize masked va = n at *
  dsimp only [Pte.join]
  omega

theorem getX86Pte_inj_iff {va vb : Int} :
    getX86Pte va = getX86Pte vb ↔ va % 2 ^ 48 = vb % 2 ^ 48 := by
  rw [← masked_eq_iff]
  constructor
  · intro h
    rw [← join_getX86Pte va, h, join_getX86Pte]
  · intro h
    rw [getX86Pte_eq, getX86Pte_eq, h]

/-! ## The digits -/

theorem binva_all (va : Int) : (binva va).all (Numeral.isDigitOf 2) = true :=
  Numeral.padLeft_all (by decide) 48 (Numeral.toDigits_all (by decide) (by decide) _)

theorem value_binva (va : Int) : Numeral.value 2 (binva va) = masked va := by
  rw [binva, Numeral.value_padLeft, Numeral.value_toDigits (by decide) (by decide)]

theorem length_binva (va : Int) : (binva va).length = 48 := by
  have := Nat.toDigits_length 2 (masked va) 48 (by decide) (masked_lt va)
  rw [binva, Numeral.length_padLeft, max_eq_left this]

theorem value_binva_slice (va : Int) {i j : Nat} (hij : i < j) (hj : j ≤ 48) :
    int 2 (slice (binva va) i j) = .ok (masked va / 2 ^ (48 - j) % 2 ^ (j - i) : Nat) := by
  have hlen := length_binva va
  rw [int_slice (binva_all va) hij (by omega), value_slice (by decide) (binva_all va) (by omega),
    value_binva, hlen]

theorem pteBits_eq (va : Int) : pteBits (binva va) =
    ⟨slice (binva va) 0 9, slice (binva va) 9 18, slice (binva va) 18 27, slice (binva va) 27 36,
      slice (binva va) 36 48⟩ := by
  have hoffset : slice (binva va) 36 48 = (binva va).drop 36 := by
    rw [← slice_length, length_binva]
  rw [hoffset]
  rfl

theorem flatten_pteBits (va : Int) : (pteBits (binva va)).all.flatten = binva va := by
  rw [pteBits_eq]
  simp only [PteBits.all, List.flatten_cons, List.flatten_nil, List.append_nil]
  rw [slice_append_slice _ (by decide) (by decide), slice_append_slice _ (by decide) (by decide),
    slice_append_slice _ (by decide) (by decide), slice_append_slice _ (by decide) (by decide)]
  have := slice_length (binva va) 0
  rwa [length_binva] at this

theorem int_pteBits (va : Int) :
    (pteBits (binva va)).all.map (int 2) = (getX86Pte va).all.map fun n => .ok (n : Int) := by
  have hoffset : masked va / 2 ^ (48 - 48) % 2 ^ (48 - 36) = masked va % 2 ^ 12 := by
    rw [Nat.sub_self, Nat.pow_zero, Nat.div_one]
  rw [pteBits_eq, getX86Pte_eq]
  simp only [PteBits.all, Pte.all, List.map_cons, List.map_nil]
  rw [value_binva_slice va (by decide) (by decide), value_binva_slice va (by decide) (by decide),
    value_binva_slice va (by decide) (by decide), value_binva_slice va (by decide) (by decide),
    value_binva_slice va (by decide) (by decide), hoffset]

/-- The numbers and the digits split every address in the same way, and without loss. -/
theorem get_x86_pte_splits (va : Int) :
    ((getX86Pte va).pml4 < 512 ∧ (getX86Pte va).dirPtr < 512 ∧ (getX86Pte va).dir < 512 ∧
      (getX86Pte va).table < 512 ∧ (getX86Pte va).offset < 4096) ∧
    ((getX86Pte va).pml4 * 2 ^ 39 + (getX86Pte va).dirPtr * 2 ^ 30 +
      (getX86Pte va).dir * 2 ^ 21 + (getX86Pte va).table * 2 ^ 12 +
      (getX86Pte va).offset : Int) = va % 2 ^ 48 ∧
    (∀ vb, getX86Pte va = getX86Pte vb ↔ va % 2 ^ 48 = vb % 2 ^ 48) ∧
    (binva va).length = 48 ∧
    (pteBits (binva va)).all.flatten = binva va ∧
    (pteBits (binva va)).all.map (int 2) = (getX86Pte va).all.map fun n => .ok (n : Int) := by
  have hjoin : ((getX86Pte va).join : Int) = va % 2 ^ 48 := by
    rw [join_getX86Pte, masked_cast]
  refine ⟨?_, ?_, fun vb => getX86Pte_inj_iff, length_binva va, flatten_pteBits va,
    int_pteBits va⟩
  · rw [getX86Pte_eq]
    refine ⟨?_, ?_, ?_, ?_, ?_⟩ <;> exact Nat.mod_lt _ (by decide)
  · rw [← hjoin, Pte.join]
    push_cast
    rfl

/-! ## The script by itself -/

/-- `va_get_pte.py` prints the lines of the address that its argument spells. -/
theorem vaGetPte_eq (prog : Text) {arg : Text} {va : Int} (harg : int 16 arg = .ok va)
    (args : List Text) : vaGetPte prog (arg :: args) = ⟨pteLines va, .ok ()⟩ := by
  rw [vaGetPte, harg, eval_ok_bind, forM_emit]

end LinuxSummary.Zproc
