/-
  What a run of `get_pid_va.py` reads, in numbers.

  A step of the script asks for the word at an address. From 2^63 on the module refuses the
  address and shows the word at the one before (`accept`). `chase` follows the words of the
  first four steps; `reads_main` says that the script reads exactly there.
-/
import LinuxSummary.Zproc.Script

namespace LinuxSummary.Zproc

open Strtol CInt Prog

/-! ## Texts -/

/-- The characters of a hexadecimal number with its prefix. -/
theorem hexText_ne {n : Nat} {c : Char} (h0 : c ≠ '0') (hx : c ≠ 'x')
    (hc : Numeral.digitVal c = none) : c ∉ hexText n := by
  unfold hexText
  have hpre : "0x".toList = ['0', 'x'] := rfl
  rw [hpre, List.mem_append, List.mem_cons, List.mem_singleton]
  intro h
  rcases h with (h | h) | h
  · exact h0 h
  · exact hx h
  · obtain ⟨d, hd⟩ := Printf.digit_of_mem_hex h
    exact absurd (hd.symm.trans hc) (by simp)

theorem length_hexText {n : Nat} (h : n < 2 ^ 64) : (hexText n).length < MSG_LEN := by
  have hlen : (Printf.hex n).length ≤ 16 := Nat.toDigits_length 16 n 16 (by decide) h
  have hpre : "0x".toList.length = 2 := rfl
  unfold hexText MSG_LEN
  rw [List.length_append, hpre]
  omega

theorem hexText_not_space {n : Nat} {c : Char} (hc : c ∈ hexText n) : isSpace c = false := by
  unfold isSpace
  simp only [Bool.or_eq_false_iff, decide_eq_false_iff_not]
  refine ⟨⟨⟨?_, ?_⟩, ?_⟩, ?_⟩
  · exact fun h => hexText_ne (c := ' ') (by decide) (by decide) rfl (h ▸ hc)
  · exact fun h => hexText_ne (c := '\n') (by decide) (by decide) rfl (h ▸ hc)
  · exact fun h => hexText_ne (c := '\t') (by decide) (by decide) rfl (h ▸ hc)
  · exact fun h => hexText_ne (c := '\r') (by decide) (by decide) rfl (h ▸ hc)

/-- A number is read back, with or without the end of its line. -/
theorem pyInt16_hexText (n : Nat) {rest : Text} (h : rest = [] ∨ rest = ['\n']) :
    pyInt16 (hexText n ++ rest) = some n := by
  have hstrip : ((hexText n ++ rest).dropWhile isSpace).rdropWhile isSpace = hexText n := by
    have hfirst : (hexText n ++ rest).dropWhile isSpace = hexText n ++ rest := rfl
    have hlast : (hexText n).rdropWhile isSpace = hexText n := by
      rw [List.rdropWhile_eq_self_iff]
      intro hne
      rw [hexText_not_space (List.getLast_mem hne)]
      simp
    rw [hfirst]
    rcases h with rfl | rfl
    · rw [List.append_nil, hlast]
    · rw [List.rdropWhile_concat_pos _ _ _ (by decide), hlast]
  have hprefix : fixupRadix (hexText n) 16 = Printf.hex n := by
    unfold fixupRadix hexText
    rw [if_pos ⟨rfl, .inl (List.prefix_append _ _)⟩]
    rfl
  have hgroups : (Printf.hex n).splitOn '_' = [Printf.hex n] :=
    List.splitOn_eq_singleton (Numeral.not_mem_toDigits (by decide) (by decide) rfl n)
  have hnone : ¬ (([Printf.hex n].head? = some [] ∧ Printf.hex n = hexText n) ∨
      [] ∈ [Printf.hex n].tail) := by
    simp [Printf.hex_ne_nil n]
  unfold pyInt16
  dsimp only
  rw [hstrip, hprefix, hgroups, if_neg hnone, List.flatten_singleton]
  exact Numeral.readDigits_toDigits (by decide) (by decide) n

theorem colon_not_mem_hexText (n : Nat) : ':' ∉ hexText n :=
  hexText_ne (by decide) (by decide) rfl

/-- The word that the module shows. -/
theorem secondField_word (a w : Nat) :
    secondField (hexText a ++ ":0x".toList ++ Printf.hex w ++ "\n".toList) = .ok w := by
  have hsplit : hexText a ++ ":0x".toList ++ Printf.hex w ++ "\n".toList =
      hexText a ++ ':' :: (hexText w ++ ['\n']) := by
    unfold hexText
    simp only [List.append_assoc]
    rfl
  have hno : ':' ∉ hexText w ++ ['\n'] := by
    rw [List.mem_append, List.mem_singleton]
    exact fun h => h.elim (colon_not_mem_hexText w) (by decide)
  have hfield : [hexText a, hexText w ++ ['\n']][1]? = some (hexText w ++ ['\n']) := rfl
  unfold secondField
  rw [hsplit, List.splitOn_append_cons_self, List.splitOn_eq_singleton (colon_not_mem_hexText a),
    List.splitOn_eq_singleton hno, List.singleton_append, hfield]
  dsimp only
  rw [pyInt16_hexText w (.inr rfl)]

theorem secondField_noPage (a : Nat) :
    secondField (hexText a ++ " pfn_to_page error\n".toList) = .error .indexError := by
  have hno : ':' ∉ hexText a ++ " pfn_to_page error\n".toList := by
    rw [List.mem_append]
    exact fun h => h.elim (colon_not_mem_hexText a) (by decide)
  unfold secondField
  rw [List.splitOn_eq_singleton hno]
  rfl

/-! ## One step -/

/-- The address behind a write: the one that was written, if it is a `long`. -/
def accept (phys : Nat) (pa : Nat) : Nat := if pa < 2 ^ 63 then pa else phys

/-- An address that does not fit into the buffer is cut, and refused all the same. -/
theorem stored_cut (phys : Int) (beyond : Text) {pa : Nat} (h : 2 ^ 64 ≤ pa) :
    (physValueWrite phys beyond true (hexText pa)).stored = phys := by
  obtain ⟨mem, hmem⟩ : ∃ mem, msgOf (hexText pa) ++ beyond =
      (hexText pa).take MSG_LEN ++ mem := by
    unfold msgOf
    dsimp only
    split
    · next hlt =>
      rw [List.take_length, List.take_of_length_le (Nat.le_of_lt hlt), List.append_assoc]
      exact ⟨_, rfl⟩
    · rw [Nat.sub_self, List.replicate_zero, List.append_nil]
      exact ⟨_, rfl⟩
  have htake : (hexText pa).take MSG_LEN = "0x".toList ++ (Printf.hex pa).take 30 := rfl
  have hnul : ∀ c ∈ "0x".toList ++ (Printf.hex pa).take 30, decide (c ≠ NUL) = true := by
    intro c hc
    rw [← htake] at hc
    have hno : NUL ∉ hexText pa := hexText_ne (by decide) (by decide) rfl
    exact decide_eq_true fun heq => hno (heq ▸ List.mem_of_mem_take hc)
  have hall : ((Printf.hex pa).take 30).all (Numeral.isDigitOf 16) = true := by
    have hdigits := Numeral.toDigits_all (b := 16) (by decide) (by decide) pa
    exact List.all_eq_true.mpr fun c hc =>
      List.all_eq_true.mp hdigits c (List.mem_of_mem_take hc)
  have hbig : 2 ^ 64 ≤ Numeral.value 16 ((Printf.hex pa).take 30) := by
    have hle := Numeral.le_value_take (b := 16) (by decide) (by decide) pa 29
    have : (2 : Nat) ^ 64 ≤ min pa (16 ^ 29) := le_min h (by decide)
    exact this.trans hle
  unfold physValueWrite procWrite
  dsimp only
  rw [hmem, htake, cstring, List.takeWhile_append_of_pos hnul,
    kstrtol_overflow hall hbig, if_pos rfl]

/-- Behind a write the module has the address, if that is a `long`. -/
theorem stored_hexText (phys : Int) (beyond : Text) (pa : Nat) :
    (physValueWrite phys beyond true (hexText pa)).stored =
      if pa < 2 ^ 63 then (pa : Int) else phys := by
  by_cases h : pa < 2 ^ 64
  · have hnul : NUL ∉ hexText pa := hexText_ne (by decide) (by decide) rfl
    obtain ⟨msg, -, -, hw⟩ := procWrite_short 16 phys beyond (length_hexText h) hnul
    unfold physValueWrite
    rw [hw, hexText, kstrtol_hex h]
    by_cases hlt : pa < 2 ^ 63
    · rw [if_neg (by omega), if_pos hlt]
    · rw [if_pos (by omega), if_neg hlt]
  · rw [stored_cut phys beyond (by omega), if_neg (by omega)]

theorem u64_stored (phys : Int) (beyond : Text) (pa : Nat) :
    u64 (physValueWrite phys beyond true (hexText pa)).stored = accept (u64 phys) pa := by
  rw [stored_hexText phys beyond pa]
  unfold accept
  split
  · exact u64_of_nat (by omega)
  · rfl

/-- The addresses that are read, in order. -/
def reads {α : Type} (k : Kernel) (p : Py α) (s : Vars) : List Nat :=
  (trace (serve k) p s).filterMap fun x =>
    match x.1 with
    | .readPhysvalue => some (u64 x.2.phys)
    | _ => none

/-- What a step gets from the word at its address. -/
def stepResult (pa : Nat) : Cell → Except Exn (Nat × Nat)
  | .noPage => .error .indexError
  | .noMemory => .error .killed
  | .word w => .ok (pa, w.toNat)

theorem answered_show (k : Kernel) (pa : Nat) {s : Vars} {a : Nat} (hphys : u64 s.phys = a) :
    answered pa (physValueShow k s.phys) =
      match stepResult pa (k.cell a) with
      | .error e => .throw e
      | .ok r => .ret r := by
  unfold physValueShow answered
  rw [hphys]
  cases k.cell a with
  | noPage =>
    have hfield : secondField ("0x".toList ++ Printf.hex a ++ " pfn_to_page error\n".toList) =
        .error .indexError := secondField_noPage a
    dsimp only
    rw [hfield]
    rfl
  | noMemory => rfl
  | word w =>
    have hfield : secondField ("0x".toList ++ Printf.hex a ++ ":0x".toList ++
        Printf.hex w.toNat ++ "\n".toList) = .ok w.toNat := secondField_word a w.toNat
    dsimp only
    rw [hfield]
    rfl

/-- A step reads once, at the address that the module has by then. -/
theorem physValue_run (k : Kernel) (pa : Nat) (s : Vars) :
    ∃ s', u64 s'.phys = accept (u64 s.phys) pa ∧
      run (serve k) (physValue pa) s = (stepResult pa (k.cell (accept (u64 s.phys) pa)), s') ∧
      reads k (physValue pa) s = [accept (u64 s.phys) pa] := by
  obtain ⟨s', hs'⟩ : ∃ s', s' = (serve k (.writePhysvalue (hexText pa)) s).2 := ⟨_, rfl⟩
  have hphys : u64 s'.phys = accept (u64 s.phys) pa := by
    rw [hs']
    exact u64_stored s.phys k.beyond pa
  have hans := answered_show k pa hphys
  have hrun : run (serve k) (physValue pa) s = run (serve k)
      (answered pa (physValueShow k s'.phys)) s' := by
    rw [hs']
    rfl
  have htrace : trace (serve k) (physValue pa) s = (.writePhysvalue (hexText pa), s) ::
      (.readPhysvalue, s') :: trace (serve k) (answered pa (physValueShow k s'.phys)) s' := by
    rw [hs']
    rfl
  refine ⟨s', hphys, ?_, ?_⟩
  · rw [hrun, hans]
    cases stepResult pa (k.cell (accept (u64 s.phys) pa)) <;> rfl
  · unfold reads
    rw [htrace, hans, ← hphys]
    cases stepResult pa (k.cell (u64 s'.phys)) <;> rfl

/-! ## The walk -/

/-- The word that the last of the table steps gets, if each gets one. -/
def chase (cell : Nat → Cell) : List Nat → Nat → Nat → Option Nat
  | [], _, value => some value
  | index :: rest, phys, value =>
    let a := accept phys (clear value ||| index <<< 3)
    match cell a with
    | .word w => chase cell rest a w.toNat
    | _ => none

/-- The addresses that these steps read. -/
def chaseReads (cell : Nat → Cell) : List Nat → Nat → Nat → List Nat
  | [], _, _ => []
  | index :: rest, phys, value =>
    let a := accept phys (clear value ||| index <<< 3)
    a :: match cell a with
      | .word w => chaseReads cell rest a w.toNat
      | _ => []

def Pte.indices (pte : Pte) : List Nat := [pte.pml4, pte.dirPtr, pte.dir, pte.table]

/-- The address of step 5. -/
def target (value offset : Nat) : Nat := (clear value ||| offset) &&& 0xffffffff

theorem reads_bind {α β : Type} (k : Kernel) (p : Py α) (f : α → Py β) (s : Vars) :
    reads k (p >>= f) s = reads k p s ++
      match run (serve k) p s with
      | (.ok a, s') => reads k (f a) s'
      | (.error _, _) => [] := by
  unfold reads
  rw [trace_bind, List.filterMap_append]
  rcases run (serve k) p s with ⟨_ | a, s'⟩ <;> rfl

/-- What is read from a state with the address `phys` on, behind the steps that `rest` lists. -/
def ReadsOn {α : Type} (k : Kernel) (rest : List Nat) (last : Nat → List Nat)
    (f : Nat → Py α) : Prop :=
  ∀ value s, reads k (f value) s = chaseReads k.cell rest (u64 s.phys) value ++
    (chase k.cell rest (u64 s.phys) value).elim [] last

theorem readsOn_step {α : Type} {k : Kernel} {rest : List Nat} {last : Nat → List Nat}
    {f : Nat → Nat × Nat → Py α} (index : Nat)
    (h : ∀ value pa, ReadsOn k rest last fun w => f value (pa, w)) :
    ReadsOn k (index :: rest) last fun value => tableStep value index >>= f value := by
  intro value s
  obtain ⟨s', hphys, hrun, hreads⟩ := physValue_run k (clear value ||| index <<< 3) s
  rw [reads_bind, tableStep, hrun, hreads, chaseReads, chase]
  cases hcell : k.cell (accept (u64 s.phys) (clear value ||| index <<< 3)) with
  | noPage => rfl
  | noMemory => rfl
  | word w =>
    have hrest := h value (clear value ||| index <<< 3) w.toNat s'
    rw [hphys] at hrest
    exact congrArg (accept (u64 s.phys) (clear value ||| index <<< 3) :: ·) hrest

/-- Step 5 asks for an address below 2^32, which is never refused. -/
theorem accept_target (phys w offset : Nat) : accept phys (target w offset) = target w offset := by
  have hle : target w offset ≤ 0xffffffff := Nat.and_le_right
  rw [accept, if_pos (by omega)]

/-- The script reads along the chain, and then at the address of step 5. -/
theorem reads_walk (k : Kernel) (cr3 : Nat) (pte : Pte) (s : Vars) :
    reads k (walk cr3 pte) s = chaseReads k.cell pte.indices (u64 s.phys) cr3 ++
      (chase k.cell pte.indices (u64 s.phys) cr3).elim [] fun w => [target w pte.offset] := by
  have hwalk : ReadsOn k pte.indices (fun w => [target w pte.offset]) fun cr3 => walk cr3 pte := by
    unfold walk Pte.indices
    refine readsOn_step pte.pml4 fun cr3 pa1 => ?_
    refine readsOn_step pte.dirPtr fun w1 pa2 => ?_
    refine readsOn_step pte.dir fun w2 pa3 => ?_
    refine readsOn_step pte.table fun w3 pa4 => ?_
    intro w4 s'
    obtain ⟨s'', -, hrun, hreads⟩ := physValue_run k (target w4 pte.offset) s'
    rw [accept_target] at hrun hreads
    show reads k (physValue (target w4 pte.offset) >>= _) s' = [target w4 pte.offset]
    rw [reads_bind, hrun, hreads]
    cases stepResult (target w4 pte.offset) (k.cell (target w4 pte.offset)) <;> rfl
  exact hwalk cr3 s

/-- What the script takes for the address of the top table. -/
def cr3Read (k : Kernel) (pid : Int) (s : Vars) : Option Nat :=
  match mminfoShow k (mminfoWrite s.pid k.beyond true (Printf.dec pid)).stored with
  | none => none
  | some out => (cr3Of out).toOption

/-- **What the script reads**: nothing where it gets no `cr3`, else along the chain. -/
theorem reads_main (k : Kernel) (pid va : Int) (s : Vars) :
    reads k (main pid va) s = (cr3Read k pid s).elim [] fun cr3 =>
      chaseReads k.cell (getX86Pte va).indices (u64 s.phys) cr3 ++
        (chase k.cell (getX86Pte va).indices (u64 s.phys) cr3).elim [] fun w =>
          [target w (getX86Pte va).offset] := by
  obtain ⟨s', hs'⟩ : ∃ s' : Vars, s' =
      { s with pid := (mminfoWrite s.pid k.beyond true (Printf.dec pid)).stored } := ⟨_, rfl⟩
  have hphys : s'.phys = s.phys := by rw [hs']
  have hmain : reads k (main pid va) s = reads k (fromMminfo va (mminfoShow k s'.pid)) s' := by
    rw [hs']
    rfl
  have hcr3 : cr3Read k pid s = match mminfoShow k s'.pid with
      | none => none
      | some out => (cr3Of out).toOption := by
    rw [hs']
    rfl
  rw [hmain, hcr3]
  cases mminfoShow k s'.pid with
  | none => rfl
  | some out =>
    unfold fromMminfo
    dsimp only
    cases cr3Of out with
    | error e => rfl
    | ok cr3 =>
      dsimp only
      rw [reads_walk, hphys]
      rfl

end LinuxSummary.Zproc
