/-
  Small code for a processor in real mode. Proof-only, nothing about one program.

  The instructions are those that such code is made of: moves, additions, increments, `out`, `loop`
  and `hlt`; none of them reads the flags, which are left out, and none writes to memory. `encode`
  and `decode` are the machine code, and `decode_encode` is the round trip.

  `step` is one instruction: the processor goes on, writes a byte to a port, halts, or is stuck
  where this subset does not reach. `Halts s out` is a run to a `hlt` with the bytes it wrote. The
  rules take the code from memory (`Holds`): `halts_cons` and `halts_out` go past an instruction,
  `halts_loop` and `halts_loop_last` are the two ways past a `loop`, `halts_hlt` is the end.
-/
import Mathlib

namespace RealMode

abbrev Byte := BitVec 8
abbrev Word := BitVec 16

/-! ## Instructions -/

inductive Reg16
  | ax | cx | dx | bx | sp | bp | si | di
deriving DecidableEq

inductive Reg8
  | al | cl | dl | bl | ah | ch | dh | bh
deriving DecidableEq

inductive Instr
  | movWord (r : Reg16) (imm : Word)
  | movByte (r : Reg8) (imm : Byte)
  /-- `mov r, [si]` -/
  | loadSi (r : Reg8)
  | add (dst src : Reg8)
  | addAl (imm : Byte)
  | incWord (r : Reg16)
  | incByte (r : Reg8)
  /-- `out dx, al` -/
  | out
  | loop (rel : Byte)
  | hlt
deriving DecidableEq

/-! ## Machine code -/

def Reg16.code : Reg16 → Byte
  | .ax => 0 | .cx => 1 | .dx => 2 | .bx => 3 | .sp => 4 | .bp => 5 | .si => 6 | .di => 7

def Reg8.code : Reg8 → Byte
  | .al => 0 | .cl => 1 | .dl => 2 | .bl => 3 | .ah => 4 | .ch => 5 | .dh => 6 | .bh => 7

def Reg16.ofCode (n : Nat) : Reg16 :=
  match n % 8 with
  | 0 => .ax | 1 => .cx | 2 => .dx | 3 => .bx | 4 => .sp | 5 => .bp | 6 => .si | _ => .di

def Reg8.ofCode (n : Nat) : Reg8 :=
  match n % 8 with
  | 0 => .al | 1 => .cl | 2 => .dl | 3 => .bl | 4 => .ah | 5 => .ch | 6 => .dh | _ => .bh

def low (w : Word) : Byte := w.setWidth 8
def high (w : Word) : Byte := (w >>> 8).setWidth 8
def join (hi lo : Byte) : Word := hi ++ lo

/-- `mod = 11`: both operands are registers. -/
def modRM (reg rm : Byte) : Byte := 0xC0 + reg * 8 + rm

def encode : Instr → List Byte
  | .movWord r imm => [0xB8 + r.code, low imm, high imm]
  | .movByte r imm => [0xB0 + r.code, imm]
  | .loadSi r => [0x8A, r.code * 8 + 4]
  | .add dst src => [0x00, modRM src.code dst.code]
  | .addAl imm => [0x04, imm]
  | .incWord r => [0x40 + r.code]
  | .incByte r => [0xFE, modRM 0 r.code]
  | .out => [0xEE]
  | .loop rel => [0xE2, rel]
  | .hlt => [0xF4]

/-- The instruction at the front, and what is behind it. -/
def decode : List Byte → Option (Instr × List Byte)
  | [] => none
  | op :: rest =>
    if op = 0xEE then some (.out, rest)
    else if op = 0xF4 then some (.hlt, rest)
    else if op.toNat / 8 = 8 then some (.incWord (Reg16.ofCode op.toNat), rest)
    else
      match rest with
      | [] => none
      | b :: rest =>
        if op = 0xE2 then some (.loop b, rest)
        else if op = 0x04 then some (.addAl b, rest)
        else if op.toNat / 8 = 22 then some (.movByte (Reg8.ofCode op.toNat) b, rest)
        else if op = 0x00 ∧ b.toNat / 64 = 3 then
          some (.add (Reg8.ofCode b.toNat) (Reg8.ofCode (b.toNat / 8)), rest)
        else if op = 0x8A ∧ b.toNat / 64 = 0 ∧ b.toNat % 8 = 4 then
          some (.loadSi (Reg8.ofCode (b.toNat / 8)), rest)
        else if op = 0xFE ∧ b.toNat / 8 = 24 then some (.incByte (Reg8.ofCode b.toNat), rest)
        else
          match rest with
          | [] => none
          | c :: rest =>
            if op.toNat / 8 = 23 then some (.movWord (Reg16.ofCode op.toNat) (join c b), rest)
            else none

def assemble (prog : List Instr) : List Byte := prog.flatMap encode

theorem join_high_low (w : Word) : join (high w) (low w) = w := by
  apply BitVec.eq_of_toNat_eq
  have hlt := w.isLt
  simp only [join, high, low, BitVec.toNat_append, BitVec.toNat_setWidth, BitVec.toNat_ushiftRight,
    Nat.shiftRight_eq_div_pow, Nat.shiftLeft_eq]
  rw [Nat.mul_comm, ← Nat.two_pow_add_eq_or_of_lt (by omega)]
  omega

/-- **An instruction is read back from its code, whatever stands behind it.** -/
theorem decode_encode (i : Instr) (rest : List Byte) :
    decode (encode i ++ rest) = some (i, rest) := by
  cases i with
  | movWord r imm =>
    have hjoin := join_high_low imm
    cases r <;> simp [encode, decode, Reg16.code, Reg16.ofCode, hjoin]
  | movByte r imm => cases r <;> simp [encode, decode, Reg8.code, Reg8.ofCode]
  | loadSi r => cases r <;> simp [encode, decode, Reg8.code, Reg8.ofCode]
  | add dst src => cases dst <;> cases src <;> simp [encode, decode, modRM, Reg8.code, Reg8.ofCode]
  | addAl imm => simp [encode, decode]
  | incWord r => cases r <;> simp [encode, decode, Reg16.code, Reg16.ofCode]
  | incByte r => cases r <;> simp [encode, decode, modRM, Reg8.code, Reg8.ofCode]
  | out => simp [encode, decode]
  | loop rel => simp [encode, decode]
  | hlt => simp [encode, decode]

theorem length_encode_le (i : Instr) : (encode i).length ≤ 3 := by
  cases i <;> simp [encode]

/-! ## The processor -/

/-- Addresses are physical: the bases of the segments are 0. -/
structure State where
  reg : Reg16 → Word
  ip : Word
  mem : Nat → Option Byte

/-- The register that a byte register is part of. -/
def Reg8.whole : Reg8 → Reg16
  | .al | .ah => .ax
  | .cl | .ch => .cx
  | .dl | .dh => .dx
  | .bl | .bh => .bx

def Reg8.isHigh : Reg8 → Bool
  | .al | .cl | .dl | .bl => false
  | .ah | .ch | .dh | .bh => true

def State.get8 (s : State) (r : Reg8) : Byte :=
  if r.isHigh then high (s.reg r.whole) else low (s.reg r.whole)

def State.set (s : State) (r : Reg16) (w : Word) : State :=
  { s with reg := Function.update s.reg r w }

def State.set8 (s : State) (r : Reg8) (b : Byte) : State :=
  s.set r.whole
    (if r.isHigh then join b (low (s.reg r.whole)) else join (high (s.reg r.whole)) b)

def State.goto (s : State) (ip : Word) : State := { s with ip := ip }

@[simp] theorem State.set_ip (s : State) (r : Reg16) (w : Word) : (s.set r w).ip = s.ip := rfl
@[simp] theorem State.set_mem (s : State) (r : Reg16) (w : Word) : (s.set r w).mem = s.mem := rfl
@[simp] theorem State.set8_ip (s : State) (r : Reg8) (b : Byte) : (s.set8 r b).ip = s.ip := rfl
@[simp] theorem State.set8_mem (s : State) (r : Reg8) (b : Byte) : (s.set8 r b).mem = s.mem := rfl
@[simp] theorem State.goto_ip (s : State) (ip : Word) : (s.goto ip).ip = ip := rfl
@[simp] theorem State.goto_mem (s : State) (ip : Word) : (s.goto ip).mem = s.mem := rfl
@[simp] theorem State.goto_reg (s : State) (ip : Word) : (s.goto ip).reg = s.reg := rfl

@[simp] theorem State.reg_set (s : State) (r r' : Reg16) (w : Word) :
    (s.set r w).reg r' = if r' = r then w else s.reg r' := by
  simp [State.set, Function.update_apply]

@[simp] theorem State.reg_set8 (s : State) (r : Reg8) (r' : Reg16) (b : Byte) :
    (s.set8 r b).reg r' =
      if r' = r.whole then
        if r.isHigh then join b (low (s.reg r.whole)) else join (high (s.reg r.whole)) b
      else s.reg r' := by
  rw [State.set8, State.reg_set]

@[simp] theorem State.get8_set (s : State) (r : Reg16) (r' : Reg8) (w : Word) :
    (s.set r w).get8 r' =
      if r'.whole = r then if r'.isHigh then high w else low w else s.get8 r' := by
  by_cases h : r'.whole = r <;> simp [State.get8, h]

@[simp] theorem State.get8_goto (s : State) (ip : Word) (r : Reg8) :
    (s.goto ip).get8 r = s.get8 r := rfl

@[simp] theorem low_join (hi lo : Byte) : low (join hi lo) = lo := by
  exact BitVec.setWidth_append_eq_right

@[simp] theorem high_join (hi lo : Byte) : high (join hi lo) = hi := by
  apply BitVec.eq_of_toNat_eq
  have hlo := lo.isLt
  have hhi := hi.isLt
  simp only [join, high, BitVec.toNat_append, BitVec.toNat_setWidth, BitVec.toNat_ushiftRight,
    Nat.shiftRight_eq_div_pow, Nat.shiftLeft_eq]
  rw [Nat.mul_comm, ← Nat.two_pow_add_eq_or_of_lt hlo]
  omega

@[simp] theorem State.get8_set8 (s : State) (r : Reg8) (b : Byte) : (s.set8 r b).get8 r = b := by
  cases h : r.isHigh <;> simp [State.get8, State.set8, h]

inductive Outcome
  | goes (s : State)
  | out (port : Word) (b : Byte) (s : State)
  | halts
  /-- Outside this subset, or memory that is not there. -/
  | stuck

/-- What an instruction does; `ip` is already behind it. -/
def exec (i : Instr) (s : State) : Outcome :=
  match i with
  | .movWord r imm => .goes (s.set r imm)
  | .movByte r imm => .goes (s.set8 r imm)
  | .loadSi r =>
    match s.mem (s.reg .si).toNat with
    | none => .stuck
    | some b => .goes (s.set8 r b)
  | .add dst src => .goes (s.set8 dst (s.get8 dst + s.get8 src))
  | .addAl imm => .goes (s.set8 .al (s.get8 .al + imm))
  | .incWord r => .goes (s.set r (s.reg r + 1))
  | .incByte r => .goes (s.set8 r (s.get8 r + 1))
  | .out => .out (s.reg .dx) (s.get8 .al) s
  | .loop rel =>
    let cx := s.reg .cx - 1
    .goes ((s.set .cx cx).goto (if cx = 0 then s.ip else s.ip + rel.signExtend 16))
  | .hlt => .halts

def Instr.isLoop : Instr → Bool
  | .loop _ => true
  | _ => false

/-- Only a `loop` moves `ip`, and nothing writes to memory. -/
theorem exec_goes {i : Instr} {s s' : State} (h : exec i s = .goes s') :
    s'.mem = s.mem ∧ (i.isLoop = false → s'.ip = s.ip) := by
  cases i with
  | loadSi r =>
    simp only [exec] at h
    split at h
    · cases h
    · cases h
      exact ⟨rfl, fun _ => rfl⟩
  | out => cases h
  | hlt => cases h
  | loop rel =>
    cases h
    exact ⟨rfl, fun hloop => by cases hloop⟩
  | _ =>
    cases h
    exact ⟨rfl, fun _ => rfl⟩

/-- The bytes from `ip` on, as far as there is memory, and so many at most. -/
def bytesAt (mem : Nat → Option Byte) (ip : Word) : Nat → List Byte
  | 0 => []
  | n + 1 =>
    match mem ip.toNat with
    | none => []
    | some b => b :: bytesAt mem (ip + 1) n

/-- Behind an instruction. -/
def State.next (s : State) (i : Instr) : State :=
  s.goto (s.ip + BitVec.ofNat 16 (encode i).length)

@[simp] theorem State.next_reg (s : State) (i : Instr) : (s.next i).reg = s.reg := rfl
@[simp] theorem State.next_mem (s : State) (i : Instr) : (s.next i).mem = s.mem := rfl
@[simp] theorem State.next_get8 (s : State) (i : Instr) (r : Reg8) :
    (s.next i).get8 r = s.get8 r := rfl

def step (s : State) : Outcome :=
  match decode (bytesAt s.mem s.ip 3) with
  | none => .stuck
  | some (i, _) => exec i (s.next i)

/-! ## Code in memory -/

/-- The bytes stand in memory from `ip` on. -/
def Holds (mem : Nat → Option Byte) : Word → List Byte → Prop
  | _, [] => True
  | ip, b :: bytes => mem ip.toNat = some b ∧ Holds mem (ip + 1) bytes

theorem holds_append {mem : Nat → Option Byte} {front back : List Byte} :
    ∀ {ip : Word}, Holds mem ip (front ++ back) ↔
      Holds mem ip front ∧ Holds mem (ip + BitVec.ofNat 16 front.length) back := by
  induction front with
  | nil => simp [Holds]
  | cons b front ih =>
    intro ip
    have hip : ip + 1 + BitVec.ofNat 16 front.length =
        ip + BitVec.ofNat 16 (front.length + 1) := by
      rw [BitVec.ofNat_add, BitVec.add_assoc, BitVec.add_comm 1]
      rfl
    rw [List.cons_append, Holds, Holds, ih, hip, and_assoc, List.length_cons]

theorem holds_iff {mem : Nat → Option Byte} {bytes : List Byte} :
    ∀ {ip : Word}, Holds mem ip bytes ↔
      ∀ i (h : i < bytes.length), mem (ip + BitVec.ofNat 16 i).toNat = some bytes[i] := by
  induction bytes with
  | nil => simp [Holds]
  | cons b bytes ih =>
    intro ip
    have hip (i : Nat) : ip + 1 + BitVec.ofNat 16 i = ip + BitVec.ofNat 16 (i + 1) := by
      rw [BitVec.ofNat_add, BitVec.add_assoc, BitVec.add_comm 1]
      rfl
    rw [Holds, ih]
    constructor
    · rintro ⟨hb, hbytes⟩ (_ | i) hi
      · simpa using hb
      · rw [← hip]
        exact hbytes i (by simpa using hi)
    · intro h
      have h0 := h 0 (Nat.succ_pos _)
      rw [BitVec.add_zero] at h0
      refine ⟨h0, fun i hi => ?_⟩
      rw [hip]
      exact h (i + 1) (by simpa using hi)

theorem bytesAt_of_holds {mem : Nat → Option Byte} {bytes : List Byte} :
    ∀ {ip : Word} {n : Nat}, Holds mem ip bytes → bytes.length ≤ n →
      ∃ rest, bytesAt mem ip n = bytes ++ rest := by
  induction bytes with
  | nil => exact fun _ _ => ⟨_, rfl⟩
  | cons b bytes ih =>
    intro ip n hholds hn
    cases n with
    | zero => simp at hn
    | succ n =>
      obtain ⟨rest, hrest⟩ := ih hholds.2 (by simpa using hn)
      exact ⟨rest, by simp only [bytesAt, hholds.1, hrest, List.cons_append]⟩

/-- **The instruction that stands at `ip` is the one that is executed.** -/
theorem step_holds {s : State} {i : Instr} (h : Holds s.mem s.ip (encode i)) :
    step s = exec i (s.next i) := by
  obtain ⟨rest, hbytes⟩ := bytesAt_of_holds h (length_encode_le i)
  rw [step, hbytes, decode_encode]

/-! ## Runs -/

/-- The steps from one state to another, and the bytes they wrote with their ports. -/
inductive Runs : State → List (Word × Byte) → State → Prop
  | refl (s : State) : Runs s [] s
  | goes {s s' s'' : State} {out : List (Word × Byte)} (h : step s = .goes s')
      (hrun : Runs s' out s'') : Runs s out s''
  | out {s s' s'' : State} {port : Word} {b : Byte} {out : List (Word × Byte)}
      (h : step s = .out port b s') (hrun : Runs s' out s'') : Runs s ((port, b) :: out) s''

theorem Runs.trans {s s' s'' : State} {out out' : List (Word × Byte)} (h : Runs s out s')
    (h' : Runs s' out' s'') : Runs s (out ++ out') s'' := by
  induction h with
  | refl => exact h'
  | goes hstep _ ih => exact .goes hstep (ih h')
  | out hstep _ ih => exact .out hstep (ih h')

/-- The run ends at a `hlt`. -/
def Halts (s : State) (out : List (Word × Byte)) : Prop :=
  ∃ s', Runs s out s' ∧ step s' = .halts

theorem Runs.halts {s s' : State} {out out' : List (Word × Byte)} (h : Runs s out s')
    (h' : Halts s' out') : Halts s (out ++ out') := by
  obtain ⟨s'', hrun, hhlt⟩ := h'
  exact ⟨s'', h.trans hrun, hhlt⟩

/-- Past an instruction that goes on to the one behind it. -/
theorem halts_cons {s s' : State} {i : Instr} {prog : List Instr} {out : List (Word × Byte)}
    (hcode : Holds s.mem s.ip (assemble (i :: prog))) (hexec : exec i (s.next i) = .goes s')
    (hloop : i.isLoop = false)
    (hrest : Holds s'.mem s'.ip (assemble prog) → Halts s' out) : Halts s out := by
  obtain ⟨hi, hprog⟩ := holds_append.mp hcode
  have hstep : Runs s [] s' := .goes ((step_holds hi).trans hexec) (.refl s')
  obtain ⟨hmem, hip⟩ := exec_goes hexec
  refine hstep.halts (hrest ?_)
  rw [hmem, hip hloop]
  exact hprog

/-- Past an `out`. -/
theorem halts_out {s : State} {prog : List Instr} {port : Word} {b : Byte}
    {out : List (Word × Byte)} (hcode : Holds s.mem s.ip (assemble (.out :: prog)))
    (hport : s.reg .dx = port) (hb : s.get8 .al = b)
    (hrest : Holds s.mem (s.next .out).ip (assemble prog) → Halts (s.next .out) out) :
    Halts s ((port, b) :: out) := by
  obtain ⟨hi, hprog⟩ := holds_append.mp hcode
  subst hport hb
  exact (Runs.out (step_holds hi) (.refl _)).halts (hrest hprog)

theorem halts_hlt {s : State} {prog : List Instr}
    (hcode : Holds s.mem s.ip (assemble (.hlt :: prog))) : Halts s [] :=
  ⟨s, .refl s, step_holds (holds_append.mp hcode).1⟩

/-- A `loop` with more than one time round left. -/
theorem halts_loop {s : State} {rel : Byte} {prog : List Instr} {left : Nat}
    {out : List (Word × Byte)} (hcode : Holds s.mem s.ip (assemble (.loop rel :: prog)))
    (hcx : s.reg .cx = BitVec.ofNat 16 (left + 1)) (hpos : 0 < left) (hleft : left + 1 < 2 ^ 16)
    (hrest : Halts (((s.next (.loop rel)).set .cx (BitVec.ofNat 16 left)).goto
      ((s.next (.loop rel)).ip + rel.signExtend 16)) out) : Halts s out := by
  have hstep := step_holds (holds_append.mp hcode).1
  have hpred : (s.next (.loop rel)).reg .cx - 1 = BitVec.ofNat 16 left :=
    BitVec.sub_eq_iff_eq_add.mpr (hcx.trans (BitVec.ofNat_add left 1))
  have hne : BitVec.ofNat 16 left ≠ 0 := by
    intro h
    have := congrArg BitVec.toNat h
    rw [BitVec.toNat_ofNat, Nat.mod_eq_of_lt (by omega)] at this
    exact hpos.ne' this
  simp only [exec] at hstep
  rw [hpred, if_neg hne] at hstep
  exact (Runs.goes hstep (.refl _)).halts hrest

/-- The last time round. -/
theorem halts_loop_last {s : State} {rel : Byte} {prog : List Instr} {out : List (Word × Byte)}
    (hcode : Holds s.mem s.ip (assemble (.loop rel :: prog))) (hcx : s.reg .cx = 1)
    (hrest : Holds s.mem (s.next (.loop rel)).ip (assemble prog) →
      Halts (((s.next (.loop rel)).set .cx (s.reg .cx - 1)).goto (s.next (.loop rel)).ip) out) :
    Halts s out := by
  obtain ⟨hi, hprog⟩ := holds_append.mp hcode
  have hstep := step_holds hi
  have hzero : (s.next (.loop rel)).reg .cx - 1 = 0 := BitVec.sub_eq_iff_eq_add.mpr hcx
  simp only [exec] at hstep
  rw [if_pos hzero] at hstep
  exact (Runs.goes hstep (.refl _)).halts (hrest hprog)

end RealMode
