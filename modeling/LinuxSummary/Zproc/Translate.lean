/-
  The walk of `get_pid_va.py` and the translation of the processor.

  The processor takes bits 12 to 51 of an entry for the next address, the script all from 12
  on; the script tests neither the present bit nor the bit of a large page, cuts the last
  address to 32 bits, and goes on from `cr3` 0 where `mminfo` names no table.

  `walk_iff`: where the processor finds a 4 KiB page, the script reads where the processor
  does exactly when the bits it takes too many are clear and the frame is below 4 GiB.
  `no_translation_iff`: where there is none, the script keeps silent, or finds the large page,
  exactly when memory has no four words of which each names the frame of the next, or the
  fourth names the right one by chance.
-/
import LinuxSummary.Zproc.Mminfo

namespace LinuxSummary.Zproc

open CInt Prog

/-! ## Bits -/

/-- `e & 0x000ffffffffff000` -/
def frameBase (e : Nat) : Nat := e &&& 0x000ffffffffff000

theorem clear_or {v x : Nat} (hx : x < 2 ^ 12) : clear v ||| x = v / 2 ^ 12 * 2 ^ 12 + x := by
  rw [clear, ← Nat.shiftLeft_add_eq_or_of_lt hx, Nat.shiftLeft_eq, Nat.shiftRight_eq_div_pow]

theorem frameBase_eq (e : Nat) : frameBase e = (e / 2 ^ 12 % 2 ^ 40) <<< 12 := by
  have hmask : 0x000ffffffffff000 = (2 ^ 40 - 1) <<< 12 := by decide
  unfold frameBase
  rw [hmask]
  apply Nat.eq_of_testBit_eq
  intro i
  simp only [Nat.testBit_and, Nat.testBit_shiftLeft, Nat.testBit_two_pow_sub_one,
    Nat.testBit_mod_two_pow, Nat.testBit_div_two_pow]
  by_cases hi : 12 ≤ i
  · simp [hi, Bool.and_comm]
  · simp [hi]

theorem frameBase_or {e x : Nat} (hx : x < 2 ^ 12) :
    frameBase e ||| x = e / 2 ^ 12 % 2 ^ 40 * 2 ^ 12 + x := by
  rw [frameBase_eq, ← Nat.shiftLeft_add_eq_or_of_lt hx, Nat.shiftLeft_eq]

/-- The address of an entry, as the processor computes it from the entry before. -/
def entryAddress (entry index : Nat) : Nat := frameBase entry ||| index <<< 3

/-- The script goes on to the right entry: the entry before has nothing above bit 51; or it has
    bit 63, and the module still has the right address. -/
def Follows (entry index phys : Nat) : Prop :=
  entry < 2 ^ 52 ∨ (2 ^ 63 ≤ entry ∧ phys = entryAddress entry index)

theorem accept_eq_iff {entry index : Nat} (hindex : index < 512) (phys : Nat) :
    accept phys (clear entry ||| index <<< 3) = entryAddress entry index ↔
      Follows entry index phys := by
  have hshift : index <<< 3 = index * 8 := Nat.shiftLeft_eq index 3
  have hsmall : index <<< 3 < 2 ^ 12 := by omega
  unfold Follows entryAddress accept
  rw [clear_or hsmall, frameBase_or hsmall, hshift]
  split <;> omega

/-- The last address is right where the frame is below 4 GiB. -/
theorem target_eq_iff {w offset : Nat} (hoffset : offset < 2 ^ 12) :
    target w offset = frameBase w ||| offset ↔ w / 2 ^ 32 % 2 ^ 20 = 0 := by
  unfold target
  rw [clear_or hoffset, frameBase_or hoffset, Nat.and_two_pow_sub_one_eq_mod _ 32]
  omega

theorem pte_lt (va : Int) : (∀ index ∈ (getX86Pte va).indices, index < 512) ∧
    (getX86Pte va).offset < 2 ^ 12 := by
  have hle : ∀ x : Nat, x &&& 511 < 512 := fun x => Nat.lt_succ_of_le Nat.and_le_right
  constructor
  · intro index hindex
    simp only [Pte.indices, getX86Pte, List.mem_cons, List.not_mem_nil, or_false] at hindex
    rcases hindex with rfl | rfl | rfl | rfl
    · exact hle _
    · exact hle _
    · exact hle _
    · exact hle _
  · exact Nat.lt_succ_of_le Nat.and_le_right

/-! ## A page of 4 KiB -/

/-- The entries by which the processor finds the page of an address. -/
structure Maps (k : Kernel) (root : Nat) (pte : Pte) (e1 e2 e3 e4 : UInt64) : Prop where
  aligned : root % 2 ^ 12 = 0
  pml4e : k.cell (entryAddress root pte.pml4) = .word e1
  pdpte : k.cell (entryAddress e1.toNat pte.dirPtr) = .word e2
  pde : k.cell (entryAddress e2.toNat pte.dir) = .word e3
  ptee : k.cell (entryAddress e3.toNat pte.table) = .word e4
  present : ∀ e ∈ [e1, e2, e3, e4], e.toNat.testBit 0 = true
  small : ∀ e ∈ [e2, e3], e.toNat.testBit 7 = false

/-- The addresses of the four entries, and the one that is translated to. -/
def hardwareReads (root : Nat) (pte : Pte) (e1 e2 e3 e4 : UInt64) : List Nat :=
  [entryAddress root pte.pml4, entryAddress e1.toNat pte.dirPtr, entryAddress e2.toNat pte.dir,
    entryAddress e3.toNat pte.table, frameBase e4.toNat ||| pte.offset]

/-- One step against the processor: it reads at the right address, and from there on all is
    right. -/
theorem chase_step_iff {cell : Nat → Cell} {index phys value a : Nat} {e : UInt64}
    {rest tail : List Nat} {last : Nat → List Nat} (hcell : cell a = .word e) :
    chaseReads cell (index :: rest) phys value ++
        (chase cell (index :: rest) phys value).elim [] last = a :: tail ↔
      accept phys (clear value ||| index <<< 3) = a ∧
        chaseReads cell rest a e.toNat ++ (chase cell rest a e.toNat).elim [] last = tail := by
  by_cases ha : accept phys (clear value ||| index <<< 3) = a
  · rw [chaseReads, chase, ha, hcell, List.cons_append, List.cons_inj_right]
    exact (and_iff_right rfl).symm
  · refine iff_of_false (fun h => ha ?_) fun h => ha h.1
    rw [chaseReads] at h
    exact (List.cons_eq_cons.mp h).1

/-- **The walk is the processor's exactly when the script takes no bit too many** and the frame
    of the page is below 4 GiB. -/
theorem walk_iff {k : Kernel} {pid va : Int} {s : Vars} {root : Nat} {e1 e2 e3 e4 : UInt64}
    (hroot : cr3Read k pid s = some root) (h : Maps k root (getX86Pte va) e1 e2 e3 e4) :
    reads k (main pid va) s = hardwareReads root (getX86Pte va) e1 e2 e3 e4 ↔
      Follows root (getX86Pte va).pml4 (u64 s.phys) ∧
      Follows e1.toNat (getX86Pte va).dirPtr (entryAddress root (getX86Pte va).pml4) ∧
      Follows e2.toNat (getX86Pte va).dir (entryAddress e1.toNat (getX86Pte va).dirPtr) ∧
      Follows e3.toNat (getX86Pte va).table (entryAddress e2.toNat (getX86Pte va).dir) ∧
      e4.toNat / 2 ^ 32 % 2 ^ 20 = 0 := by
  rw [reads_main, hroot, Option.elim_some]
  obtain ⟨hindex, hoffset⟩ := pte_lt va
  generalize getX86Pte va = pte at *
  simp only [Pte.indices, List.mem_cons, List.not_mem_nil, or_false, forall_eq_or_imp,
    forall_eq] at hindex
  obtain ⟨h1, h2, h3, h4⟩ := hindex
  have hlast : chaseReads k.cell [] (entryAddress e3.toNat pte.table) e4.toNat ++
      (chase k.cell [] (entryAddress e3.toNat pte.table) e4.toNat).elim []
        (fun w => [target w pte.offset]) = [frameBase e4.toNat ||| pte.offset] ↔
      e4.toNat / 2 ^ 32 % 2 ^ 20 = 0 := by
    rw [← target_eq_iff hoffset]
    exact List.singleton_inj
  rw [Pte.indices, hardwareReads, chase_step_iff h.pml4e, chase_step_iff h.pdpte,
    chase_step_iff h.pde, chase_step_iff h.ptee, accept_eq_iff h1, accept_eq_iff h2,
    accept_eq_iff h3, accept_eq_iff h4, hlast]

/-- A machine with one task, whose tables lie in the first frames. -/
def bootMm : Mm := ⟨0, 0, 0x1000, 0, 0, 0, 0, 0, 0⟩

def bootKernel (e1 e2 e3 e4 : UInt64) : Kernel where
  tasks nr := if nr = 1 then some ⟨['s', 'h'], some bootMm, by simp⟩ else none
  cell a :=
    if a = 0x1000 then .word e1
    else if a = 0x2000 then .word e2
    else if a = 0x3000 then .word e3
    else if a = 0x4000 then .word e4
    else .word 0
  beyond := []

theorem maps_boot {e4 : UInt64} (h : e4.toNat.testBit 0 = true) :
    Maps (bootKernel 0x2001 0x3001 0x4001 e4) 0x1000 (getX86Pte 0) 0x2001 0x3001 0x4001 e4 := by
  have h1 : entryAddress 0x1000 (getX86Pte 0).pml4 = 0x1000 := by decide +kernel
  have h2 : entryAddress (0x2001 : UInt64).toNat (getX86Pte 0).dirPtr = 0x2000 := by
    decide +kernel
  have h3 : entryAddress (0x3001 : UInt64).toNat (getX86Pte 0).dir = 0x3000 := by decide +kernel
  have h4 : entryAddress (0x4001 : UInt64).toNat (getX86Pte 0).table = 0x4000 := by
    decide +kernel
  refine ⟨by norm_num, by rw [h1]; rfl, by rw [h2]; rfl, by rw [h3]; rfl, by rw [h4]; rfl, ?_, ?_⟩
  · intro e he
    simp only [List.mem_cons, List.not_mem_nil, or_false] at he
    rcases he with rfl | rfl | rfl | rfl
    · decide +kernel
    · decide +kernel
    · decide +kernel
    · exact h
  · intro e he
    simp only [List.mem_cons, List.not_mem_nil, or_false] at he
    rcases he with rfl | rfl
    · decide +kernel
    · decide +kernel

/-- A page in frame 5. -/
theorem walk_iff_boot : reads (bootKernel 0x2001 0x3001 0x4001 0x5001) (main 1 0) ⟨0, 0⟩ =
    hardwareReads 0x1000 (getX86Pte 0) 0x2001 0x3001 0x4001 0x5001 :=
  (walk_iff (by decide +kernel) (maps_boot (by decide +kernel))).mpr
    ⟨.inl (by norm_num), .inl (by decide +kernel), .inl (by decide +kernel),
      .inl (by decide +kernel), by decide +kernel⟩

/-- A page at 4 GiB: the script asks for the address 0. -/
theorem not_walk_high :
    Maps (bootKernel 0x2001 0x3001 0x4001 0x100000001) 0x1000 (getX86Pte 0) 0x2001 0x3001 0x4001
      0x100000001 ∧
    reads (bootKernel 0x2001 0x3001 0x4001 0x100000001) (main 1 0) ⟨0, 0⟩ ≠
      hardwareReads 0x1000 (getX86Pte 0) 0x2001 0x3001 0x4001 0x100000001 := by
  have hroot : cr3Read (bootKernel 0x2001 0x3001 0x4001 0x100000001) 1 ⟨0, 0⟩ = some 0x1000 := by
    decide +kernel
  refine ⟨maps_boot (by decide +kernel), ?_⟩
  rw [reads_main, hroot]
  decide +kernel

/-! ## No page of 4 KiB -/

/-- The table of the task that has the pid. -/
def taskRoot (k : Kernel) (pid : Int) : Option Nat :=
  if pid = 0 then none
  else (k.tasks pid).bind fun task => task.activeMm.map fun mm => mm.pgdPa.toNat

/-- An entry that is present. -/
def entry? (k : Kernel) (a : Nat) : Option Nat :=
  match k.cell a with
  | .word w => if w.toNat.testBit 0 then some w.toNat else none
  | _ => none

/-- What the processor makes of an address. -/
inductive Translation
  | none
  | large (pa : Nat)
  | small (pa : Nat)
deriving DecidableEq

/-- From the page directory on: a page of 2 MiB, or a table. -/
def translatePde (k : Kernel) (e2 : Nat) (va : Int) : Translation :=
  match entry? k (entryAddress e2 (getX86Pte va).dir) with
  | Option.none => .none
  | some e3 =>
    if e3.testBit 7 then .large (e3 / 2 ^ 21 % 2 ^ 31 * 2 ^ 21 + (va % 2 ^ 21).toNat)
    else match entry? k (entryAddress e3 (getX86Pte va).table) with
      | Option.none => .none
      | some e4 => .small (frameBase e4 ||| (getX86Pte va).offset)

def translate (k : Kernel) (root : Nat) (va : Int) : Translation :=
  match entry? k (entryAddress root (getX86Pte va).pml4) with
  | Option.none => .none
  | some e1 =>
    match entry? k (entryAddress e1 (getX86Pte va).dirPtr) with
    | Option.none => .none
    | some e2 =>
      if e2.testBit 7 then .large (e2 / 2 ^ 30 % 2 ^ 22 * 2 ^ 30 + (va % 2 ^ 30).toNat)
      else translatePde k e2 va

/-- The translation for a pid; there is none without a task. -/
def translateFor (k : Kernel) (pid va : Int) : Translation :=
  match taskRoot k pid with
  | Option.none => .none
  | some root => translate k root va

/-- The address of step 5, if the script gets there. -/
def step5 (k : Kernel) (pid va : Int) (s : Vars) : Option Nat := (reads k (main pid va) s)[4]?

/-- Where there is no page of 4 KiB the script reports nothing, or the address in the large
    page. -/
def NothingInvented (k : Kernel) (pid va : Int) (s : Vars) : Prop :=
  match translateFor k pid va with
  | .none => step5 k pid va s = Option.none
  | .large pa => step5 k pid va s = Option.none ∨ step5 k pid va s = some pa
  | .small _ => True

/-- `w` stands at `index` in the frame that an entry names with all its bits from 12 on, be it
    present or not. With bit 63 an entry names no frame, and stands for itself. -/
def Names (k : Kernel) (entry : UInt64) (index : Nat) (w : UInt64) : Prop :=
  if entry.toNat < 2 ^ 63 then k.cell (entry.toNat / 2 ^ 12 * 2 ^ 12 + index * 8) = .word w
  else w = entry

/-- Words of memory, of which each names the next. The first stands in the table; where that is
    not below 2^63, it is the word at the address `phys`. -/
structure Chained (k : Kernel) (table phys : Nat) (pte : Pte) (e1 e2 e3 e4 : UInt64) : Prop where
  pml4e : k.cell (if table < 2 ^ 63 then table / 2 ^ 12 * 2 ^ 12 + pte.pml4 * 8 else phys) =
    .word e1
  pdpte : Names k e1 pte.dirPtr e2
  pde : Names k e2 pte.dir e3
  ptee : Names k e3 pte.table e4

/-- The address that the fourth word gives is the one of the processor. -/
def Fits (va : Int) (e4 : UInt64) : Translation → Prop
  | .none => False
  | .large pa => e4.toNat / 2 ^ 12 % 2 ^ 20 * 2 ^ 12 + (getX86Pte va).offset = pa
  | .small _ => True

/-- No table is named, or no four words follow from it, or the fourth leads into the large
    page. -/
def Harmless (k : Kernel) (pid va : Int) (s : Vars) : Prop :=
  ∀ table e1 e2 e3 e4, namedTable k (heldPid s.pid pid) = some table →
    Chained k table (u64 s.phys) (getX86Pte va) e1 e2 e3 e4 → Fits va e4 (translateFor k pid va)

theorem accept_clear (phys value : Nat) {index : Nat} (hindex : index < 512) :
    accept phys (clear value ||| index <<< 3) =
      if value < 2 ^ 63 then value / 2 ^ 12 * 2 ^ 12 + index * 8 else phys := by
  have hshift : index <<< 3 = index * 8 := Nat.shiftLeft_eq index 3
  have hsmall : index <<< 3 < 2 ^ 12 := by omega
  unfold accept
  rw [clear_or hsmall, hshift]
  split
  · rw [if_pos (by omega)]
  · rw [if_neg (by omega)]

/-- The words that follow from an entry, by the indices. -/
def Trail (k : Kernel) : List Nat → UInt64 → UInt64 → Prop
  | [], entry, last => last = entry
  | index :: rest, entry, last => ∃ w, Names k entry index w ∧ Trail k rest w last

/-- The steps of the script go along the words, once it has one of them. -/
theorem chase_eq_some_iff {k : Kernel} {rest : List Nat} (hrest : ∀ index ∈ rest, index < 512)
    {a n : Nat} {entry : UInt64} (hcell : k.cell a = .word entry) :
    chase k.cell rest a entry.toNat = some n ↔
      ∃ last, Trail k rest entry last ∧ last.toNat = n := by
  induction rest generalizing a entry with
  | nil =>
    rw [chase, Option.some_inj]
    constructor
    · exact fun h => ⟨entry, rfl, h⟩
    · rintro ⟨last, rfl, h⟩
      exact h
  | cons index rest ih =>
    have hindex : index < 512 := hrest index List.mem_cons_self
    have hlater : ∀ i ∈ rest, i < 512 := fun i hi => hrest i (List.mem_cons_of_mem index hi)
    rw [chase, accept_clear a entry.toNat hindex]
    unfold Trail Names
    by_cases hlow : entry.toNat < 2 ^ 63
    · simp only [if_pos hlow]
      cases hword : k.cell (entry.toNat / 2 ^ 12 * 2 ^ 12 + index * 8) with
      | noPage => simp
      | noMemory => simp
      | word w =>
        rw [ih hlater hword]
        constructor
        · rintro ⟨last, hlast, hn⟩
          exact ⟨last, ⟨w, rfl, hlast⟩, hn⟩
        · rintro ⟨last, ⟨w', hw', hlast⟩, hn⟩
          obtain rfl := Cell.word.inj hw'
          exact ⟨last, hlast, hn⟩
    · simp only [if_neg hlow]
      rw [hcell]
      dsimp only
      rw [ih hlater hcell]
      constructor
      · rintro ⟨last, hlast, hn⟩
        exact ⟨last, ⟨entry, rfl, hlast⟩, hn⟩
      · rintro ⟨last, ⟨w', rfl, hlast⟩, hn⟩
        exact ⟨last, hlast, hn⟩

/-- The script gets to the last step exactly along words of which each names the next. -/
theorem chase_table_iff (k : Kernel) (table phys : Nat) (va : Int) (n : Nat) :
    chase k.cell (getX86Pte va).indices phys table = some n ↔
      ∃ e1 e2 e3 e4, Chained k table phys (getX86Pte va) e1 e2 e3 e4 ∧ e4.toNat = n := by
  obtain ⟨hindex, -⟩ := pte_lt va
  generalize getX86Pte va = pte at *
  have hfirst : pte.pml4 < 512 := hindex pte.pml4 (by simp [Pte.indices])
  have hlater : ∀ i ∈ [pte.dirPtr, pte.dir, pte.table], i < 512 := fun i hi =>
    hindex i (List.mem_cons_of_mem _ hi)
  rw [Pte.indices, chase, accept_clear phys table hfirst]
  constructor
  · intro h
    split at h
    · next w hword =>
      obtain ⟨last, ⟨e2, h2, e3, h3, e4, h4, rfl⟩, hn⟩ := (chase_eq_some_iff hlater hword).mp h
      exact ⟨w, e2, e3, last, ⟨hword, h2, h3, h4⟩, hn⟩
    · exact absurd h (by simp)
  · rintro ⟨e1, e2, e3, e4, ⟨h1, h2, h3, h4⟩, hn⟩
    rw [h1]
    exact (chase_eq_some_iff hlater h1).mpr ⟨e4, ⟨e2, h2, e3, h3, e4, h4, rfl⟩, hn⟩

theorem target_eq {w offset : Nat} (hoffset : offset < 2 ^ 12) :
    target w offset = w / 2 ^ 12 % 2 ^ 20 * 2 ^ 12 + offset := by
  unfold target
  rw [clear_or hoffset, Nat.and_two_pow_sub_one_eq_mod _ 32]
  omega

theorem length_chaseReads (cell : Nat → Cell) (rest : List Nat) (phys value : Nat) :
    (chaseReads cell rest phys value).length ≤ rest.length ∧
      ((chase cell rest phys value).isSome →
        (chaseReads cell rest phys value).length = rest.length) := by
  induction rest generalizing phys value with
  | nil => exact ⟨le_rfl, fun _ => rfl⟩
  | cons index rest ih =>
    rw [chaseReads, chase]
    cases cell (accept phys (clear value ||| index <<< 3)) with
    | noPage => exact ⟨Nat.succ_le_succ (Nat.zero_le _), fun h => absurd h (by simp)⟩
    | noMemory => exact ⟨Nat.succ_le_succ (Nat.zero_le _), fun h => absurd h (by simp)⟩
    | word w =>
      obtain ⟨hle, heq⟩ := ih (accept phys (clear value ||| index <<< 3)) w.toNat
      exact ⟨Nat.succ_le_succ hle, fun h => congrArg (· + 1) (heq h)⟩

theorem step5_eq (k : Kernel) (pid va : Int) (s : Vars) :
    step5 k pid va s = (cr3Read k pid s).bind fun cr3 =>
      (chase k.cell (getX86Pte va).indices (u64 s.phys) cr3).map fun w =>
        target w (getX86Pte va).offset := by
  unfold step5
  rw [reads_main]
  cases cr3Read k pid s with
  | none => rfl
  | some cr3 =>
    obtain ⟨hle, heq⟩ := length_chaseReads k.cell (getX86Pte va).indices (u64 s.phys) cr3
    have hfour : (getX86Pte va).indices.length = 4 := rfl
    rw [hfour] at hle heq
    dsimp only [Option.elim_some, Option.bind_some]
    cases hchase : chase k.cell (getX86Pte va).indices (u64 s.phys) cr3 with
    | none =>
      rw [Option.elim_none, List.append_nil, Option.map_none]
      exact List.getElem?_eq_none hle
    | some w =>
      rw [hchase] at heq
      rw [Option.elim_some, Option.map_some, List.getElem?_append_right (heq rfl).le, heq rfl]
      rfl

/-- The address of step 5 comes from the last of four words. -/
theorem step5_some_iff (k : Kernel) (pid va : Int) (s : Vars) (pa : Nat) :
    step5 k pid va s = some pa ↔ ∃ table e1 e2 e3 e4,
      namedTable k (heldPid s.pid pid) = some table ∧
      Chained k table (u64 s.phys) (getX86Pte va) e1 e2 e3 e4 ∧
      e4.toNat / 2 ^ 12 % 2 ^ 20 * 2 ^ 12 + (getX86Pte va).offset = pa := by
  have hoffset := (pte_lt va).2
  rw [step5_eq, cr3Read_eq, Option.bind_eq_some_iff]
  constructor
  · rintro ⟨table, htable, h⟩
    obtain ⟨w, hw, rfl⟩ := Option.map_eq_some_iff.mp h
    obtain ⟨e1, e2, e3, e4, hchain, rfl⟩ := (chase_table_iff k table (u64 s.phys) va w).mp hw
    exact ⟨table, e1, e2, e3, e4, htable, hchain, (target_eq hoffset).symm⟩
  · rintro ⟨table, e1, e2, e3, e4, htable, hchain, rfl⟩
    refine ⟨table, htable, Option.map_eq_some_iff.mpr ⟨e4.toNat, ?_, target_eq hoffset⟩⟩
    exact (chase_table_iff k table (u64 s.phys) va e4.toNat).mpr ⟨e1, e2, e3, e4, hchain, rfl⟩

/-- **Nothing is invented exactly where memory has no four words to follow**, or the last leads
    to the right page. -/
theorem no_translation_iff (k : Kernel) (pid va : Int) (s : Vars) :
    NothingInvented k pid va s ↔ Harmless k pid va s := by
  unfold NothingInvented Harmless
  cases translateFor k pid va with
  | none =>
    constructor
    · intro hnone table e1 e2 e3 e4 htable hchain
      have hsome := (step5_some_iff k pid va s _).mpr ⟨table, e1, e2, e3, e4, htable, hchain, rfl⟩
      exact absurd (hnone.symm.trans hsome) (by simp)
    · intro h
      refine Option.eq_none_iff_forall_not_mem.mpr fun pa hpa => ?_
      obtain ⟨table, e1, e2, e3, e4, htable, hchain, -⟩ := (step5_some_iff k pid va s pa).mp hpa
      exact h table e1 e2 e3 e4 htable hchain
  | large pa =>
    constructor
    · intro h table e1 e2 e3 e4 htable hchain
      have hsome := (step5_some_iff k pid va s _).mpr ⟨table, e1, e2, e3, e4, htable, hchain, rfl⟩
      rcases h with hnone | hpa
      · exact absurd (hnone.symm.trans hsome) (by simp)
      · exact Option.some.inj (hsome.symm.trans hpa)
    · intro h
      cases hstep : step5 k pid va s with
      | none => exact .inl rfl
      | some n =>
        obtain ⟨table, e1, e2, e3, e4, htable, hchain, hn⟩ := (step5_some_iff k pid va s n).mp hstep
        have hfits : _ = pa := h table e1 e2 e3 e4 htable hchain
        exact .inr (congrArg some (hn.symm.trans hfits))
  | small pa => exact iff_of_true trivial fun _ _ _ _ _ _ _ => trivial

/-- A pid that no task has: the script walks from the address 0 and reports the address 0. -/
theorem not_nothingInvented_no_task :
    ¬ NothingInvented (bootKernel 0x2001 0x3001 0x4001 0x5001) 2 0 ⟨0, 0⟩ := by
  have hcr3 : cr3Read (bootKernel 0x2001 0x3001 0x4001 0x5001) 2 ⟨0, 0⟩ = some 0 := by
    decide +kernel
  intro h
  have hnone : step5 (bootKernel 0x2001 0x3001 0x4001 0x5001) 2 0 ⟨0, 0⟩ = none := h
  rw [step5_eq, hcr3] at hnone
  exact absurd hnone (by decide +kernel)

end LinuxSummary.Zproc
