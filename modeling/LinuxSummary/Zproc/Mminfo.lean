/-
  What `mminfo` answers to the script, and the table that the script takes from it.

  The module holds the pid that was written, if it is a `long`, and answers for the task whose
  pid has the same 32 bits. Where there is none the script goes on with the frame 0. It looks
  for the table in the whole answer, the name of the task included.
-/
import LinuxSummary.Zproc.Walk

namespace LinuxSummary.Zproc

open Strtol CInt

/-! ## The pid -/

/-- The pid that the module holds behind the write of the script. -/
def heldPid (old pid : Int) : Int := if -2 ^ 63 ≤ pid ∧ pid < 2 ^ 63 then pid else old

theorem stored_dec (old : Int) (beyond : Text) (pid : Int) :
    (mminfoWrite old beyond true (Printf.dec pid)).stored = heldPid old pid := by
  have hnul : NUL ∉ Printf.dec pid := Printf.not_mem_dec rfl (by decide) pid
  unfold mminfoWrite heldPid
  by_cases hlen : (Printf.dec pid).length < MSG_LEN
  · obtain ⟨msg, -, -, hw⟩ := procWrite_short 10 old beyond hlen hnul
    rw [hw, kstrtol_dec]
    by_cases hlong : -2 ^ 63 ≤ pid ∧ pid < 2 ^ 63
    · rw [if_pos hlong, if_pos hlong]
    · rw [if_neg hlong, if_neg hlong]
  · -- the number is cut behind 32 characters, and refused all the same
    have hmsg : msgOf (Printf.dec pid) = (Printf.dec pid).take 32 := by
      unfold msgOf
      dsimp only
      rw [if_neg hlen]
      exact List.append_nil _
    have hhere : ∀ c ∈ (Printf.dec pid).take 32, decide (c ≠ NUL) = true := fun c hc =>
      decide_eq_true fun heq => hnul (heq ▸ List.mem_of_mem_take hc)
    have hno : ¬ (-2 ^ 63 ≤ pid ∧ pid < 2 ^ 63) := by
      intro hlong
      have hall := kstrtol_dec_cut (v := pid) (m := 32) (by decide) (not_lt.mp hlen)
        ((Printf.dec pid).drop 32)
      rw [List.take_append_drop, kstrtol_dec, if_pos hlong] at hall
      exact absurd hall (by simp)
    have hcut := kstrtol_dec_cut (v := pid) (m := 32) (by decide) (not_lt.mp hlen)
      (cstring beyond)
    rw [if_neg hno, procWrite_stored, written?, hmsg, cstring,
      List.takeWhile_append_of_pos hhere, ← cstring, hcut]
    rfl

/-! ## The table -/

/-- The table that the answer names: none where the reader is killed, the frame 0 where there
    is no task. The name of the task comes before its table. -/
def namedTable (k : Kernel) (held : Int) : Option Nat :=
  if held = 0 then some 0
  else match k.tasks (int32 held) with
    | none => some 0
    | some task =>
      match task.activeMm with
      | none => none
      | some mm =>
        match Pattern.search pgdPaPattern task.comm with
        | none => some mm.pgdPa.toNat
        | some found => (secondField found.whole).toOption

/-- Where none of the characters is a `g`, no table is found. -/
theorem cr3Of_none {out : Text} (h : 'g' ∉ out) : cr3Of out = .ok 0 := by
  have hno : ¬ "pgd pa:0x".toList <:+: out := fun hin => h (hin.subset (by decide))
  unfold cr3Of pgdPaPattern
  rw [Pattern.search_lit_none hno]

theorem pgdPa_chars : "pgd pa:0x".toList = ['p', 'g', 'd', ' ', 'p', 'a', ':', '0', 'x'] := rfl

/-- Where a match starts there stands a `p`, and not the `p` of `pid`. -/
theorem starts_of_match {t rest : Text} (hne : t ≠ [])
    (h : Pattern.matchHere pgdPaPattern (t ++ rest) ≠ none) :
    ∃ t', t = 'p' :: t' ∧ ['g', 'd', ' ', 'p', 'a', ':', '0', 'x'] <+: t' ++ rest := by
  obtain ⟨m, hm⟩ := Option.ne_none_iff_exists'.mp h
  have hpre := Pattern.prefix_of_matchHere_lit hm
  obtain ⟨c, t', rfl⟩ := List.exists_cons_of_ne_nil hne
  rw [pgdPa_chars, List.cons_append, List.cons_prefix_cons] at hpre
  obtain ⟨hc, htail⟩ := hpre
  obtain rfl := hc
  exact ⟨t', rfl, htail⟩

/-- A text that begins with `p` at an end of `a ++ 'p' :: b` begins there, or in `b`. -/
theorem suffix_p {t a b : Text} (ha : 'p' ∉ a) (h : 'p' :: t <:+ a ++ 'p' :: b) :
    t = b ∨ 'p' :: t <:+ b := by
  rcases Text.suffix_append_cons h with ⟨a', ha', heq⟩ | h
  · cases a' with
    | nil => exact .inl (List.cons.inj heq).2
    | cons c a' =>
      obtain ⟨hc, -⟩ := List.cons.inj heq
      exact absurd (ha'.subset (hc ▸ List.mem_cons_self)) ha
  · exact .inr h

theorem pgdPaPattern_avoids : Pattern.Avoids '\n' pgdPaPattern := by
  intro a ha
  rw [pgdPaPattern, List.mem_append, List.mem_singleton, Pattern.lit, List.mem_map] at ha
  rcases ha with ⟨c, hc, rfl⟩ | rfl
  · refine beq_eq_false_iff_ne.mpr fun heq => ?_
    have hno : '\n' ∉ "pgd pa:0x".toList := by decide
    exact hno (heq ▸ hc)
  · rfl

theorem matchHere_pgdPa_nil : Pattern.matchHere pgdPaPattern [] = none := rfl

/-- No table is found in front of the name. -/
theorem search_front (pid : Int) (rest : Text) :
    Pattern.search pgdPaPattern ("pid:".toList ++ Printf.dec pid ++ " comm:".toList ++ rest) =
      Pattern.search pgdPaPattern rest := by
  obtain ⟨b, hb⟩ : ∃ b, b = "id:".toList ++ Printf.dec pid ++ " comm:".toList := ⟨_, rfl⟩
  have hfront : "pid:".toList ++ Printf.dec pid ++ " comm:".toList = [] ++ 'p' :: b := by
    rw [hb]
    rfl
  have hp : 'p' ∉ b := by
    rw [hb, List.mem_append, List.mem_append]
    rintro ((h | h) | h)
    · exact absurd h (by decide)
    · exact Printf.not_mem_dec rfl (by decide) pid h
    · exact absurd h (by decide)
  rw [hfront]
  refine Pattern.search_append_of_none fun t hne ht => ?_
  by_contra hmatch
  obtain ⟨t', rfl, hg⟩ := starts_of_match hne hmatch
  rcases suffix_p List.not_mem_nil ht with rfl | h
  · rw [hb] at hg
    have hi : 'g' = 'i' := (List.cons_prefix_cons.mp hg).1
    exact absurd hi (by decide)
  · exact hp (h.subset List.mem_cons_self)

theorem isWordChar_hex {n : Nat} {c : Char} (hc : c ∈ Printf.hex n) : isWordChar c = true := by
  obtain ⟨d, hd, rfl⟩ := Numeral.mem_toDigits (by decide) hc
  interval_cases d <;> rfl

/-- The table in the lines about a task. -/
theorem search_mmLines (mm : Mm) : ∃ gs, Pattern.search pgdPaPattern (mmLines mm) =
    some ⟨"pgd pa:0x".toList ++ Printf.hex mm.pgdPa.toNat, gs⟩ := by
  obtain ⟨count, hcount⟩ : ∃ x, x = Printf.dec (int32 mm.mapCount) := ⟨_, rfl⟩
  obtain ⟨pgd, hpgd⟩ : ∃ x, x = Numeral.padLeft 16 (Printf.hex mm.pgd.toNat) := ⟨_, rfl⟩
  obtain ⟨behind, hbehind⟩ : ∃ behind, mmLines mm = ("ma".toList ++ 'p' :: ("_count:".toList ++
      count ++ " ".toList ++ 'p' :: ("gd:".toList ++ pgd ++ " ".toList))) ++
      ("pgd pa:0x".toList ++ (Printf.hex mm.pgdPa.toNat ++ ' ' :: behind)) := by
    refine ⟨"pgd value:0x".toList ++ Printf.hex mm.pgdValue.toNat ++
      "\nstart_brk:0x".toList ++ Printf.hex mm.startBrk.toNat ++ " brk:0x".toList ++
      Printf.hex mm.brk.toNat ++ " start_stack:0x".toList ++ Printf.hex mm.startStack.toNat ++
      "\ntotal_vm:0x".toList ++ Printf.hex mm.totalVm.toNat ++ " data_vm:0x".toList ++
      Printf.hex mm.dataVm.toNat ++ "\n".toList, ?_⟩
    rw [hcount, hpgd]
    unfold mmLines
    simp only [List.append_assoc, List.cons_append]
    rfl
  have hnotCount : 'p' ∉ "_count:".toList ++ count ++ " ".toList := by
    rw [List.mem_append, List.mem_append, hcount]
    rintro ((h | h) | h)
    · exact absurd h (by decide)
    · exact Printf.not_mem_dec rfl (by decide) _ h
    · exact absurd h (by decide)
  have hnotPgd : 'p' ∉ "gd:".toList ++ pgd ++ " ".toList := by
    rw [List.mem_append, List.mem_append, hpgd, Numeral.padLeft, List.mem_append]
    rintro ((h | h | h) | h)
    · exact absurd h (by decide)
    · exact absurd (List.eq_of_mem_replicate h) (by decide)
    · exact Numeral.not_mem_toDigits (by decide) (by decide) rfl _ h
    · exact absurd h (by decide)
  have hhex : Pattern.matchHere pgdPaPattern ("pgd pa:0x".toList ++
      (Printf.hex mm.pgdPa.toNat ++ ' ' :: behind)) =
      some ([Printf.hex mm.pgdPa.toNat], ' ' :: behind) := by
    rw [pgdPaPattern, Pattern.matchHere_lit]
    refine Pattern.matchHere_plus_last (fun c hc => isWordChar_hex hc) (fun c hc => ?_)
      (Printf.hex_ne_nil _)
    obtain rfl := Option.some.inj hc
    rfl
  refine ⟨[Printf.hex mm.pgdPa.toNat], ?_⟩
  rw [hbehind, Pattern.search_append_of_none, Pattern.search_of_matchHere hhex]
  · have hlen : ("pgd pa:0x".toList ++ (Printf.hex mm.pgdPa.toNat ++ ' ' :: behind)).length -
        (' ' :: behind).length = ("pgd pa:0x".toList ++ Printf.hex mm.pgdPa.toNat).length := by
      rw [← List.append_assoc, List.length_append, Nat.add_sub_cancel]
    dsimp only
    rw [hlen, ← List.append_assoc, List.take_left]
  · intro t hne ht
    by_contra hmatch
    obtain ⟨t', rfl, hg⟩ := starts_of_match hne hmatch
    rcases suffix_p (by decide) ht with rfl | h
    · have hi : 'g' = '_' := (List.cons_prefix_cons.mp hg).1
      exact absurd hi (by decide)
    · rcases suffix_p hnotCount h with rfl | h
      · have hcolon : ' ' = ':' := (List.cons_prefix_cons.mp
          (List.cons_prefix_cons.mp (List.cons_prefix_cons.mp hg).2).2).1
        exact absurd hcolon (by decide)
      · exact hnotPgd (h.subset List.mem_cons_self)

/-- `cr3` from the text that was found. -/
theorem secondField_found (n : Nat) :
    secondField ("pgd pa:0x".toList ++ Printf.hex n) = .ok n := by
  have hsplit : "pgd pa:0x".toList ++ Printf.hex n = "pgd pa".toList ++ ':' :: (hexText n) := rfl
  have hfirst : ':' ∉ "pgd pa".toList := by decide
  have hfield : ["pgd pa".toList, hexText n][1]? = some (hexText n) := rfl
  have hread := pyInt16_hexText n (.inl rfl)
  rw [List.append_nil] at hread
  unfold secondField
  rw [hsplit, List.splitOn_append_cons_self, List.splitOn_eq_singleton hfirst,
    List.splitOn_eq_singleton (colon_not_mem_hexText n), List.singleton_append, hfield]
  dsimp only
  rw [hread]

/-- Where there is no `g` behind the pid, there is none in the answer. -/
theorem g_not_mem {rest : Text} (h : 'g' ∉ rest) (held : Int) :
    'g' ∉ "pid:".toList ++ Printf.dec held ++ rest := by
  rw [List.mem_append, List.mem_append]
  rintro ((hg | hg) | hg)
  · exact absurd hg (by decide)
  · exact Printf.not_mem_dec rfl (by decide) held hg
  · exact h hg

/-- **What the script takes for the table** is what the answer names. -/
theorem cr3Read_eq (k : Kernel) (pid : Int) (s : Vars) :
    cr3Read k pid s = namedTable k (heldPid s.pid pid) := by
  unfold cr3Read namedTable mminfoShow
  rw [stored_dec]
  generalize heldPid s.pid pid = held
  by_cases hzero : held = 0
  · have hno : 'g' ∉ "\n".toList := by decide
    rw [if_pos hzero, if_pos hzero]
    dsimp only
    rw [cr3Of_none (g_not_mem hno held)]
    rfl
  · rw [if_neg hzero, if_neg hzero]
    cases k.tasks (int32 held) with
    | none =>
      have hno : 'g' ∉ " find task error\n".toList := by decide
      dsimp only
      rw [cr3Of_none (g_not_mem hno held)]
      rfl
    | some task =>
      dsimp only
      cases task.activeMm with
      | none => rfl
      | some mm =>
        have hline : Pattern.search pgdPaPattern ("pid:".toList ++ Printf.dec held ++
            " comm:".toList ++ task.comm ++ "\n".toList ++ mmLines mm) =
            Pattern.search pgdPaPattern ("pid:".toList ++ Printf.dec held ++ " comm:".toList ++
              task.comm ++ '\n' :: mmLines mm) := by
          have hnewline : "\n".toList = ['\n'] := rfl
          rw [hnewline, List.append_assoc _ ['\n'], List.singleton_append]
        obtain ⟨gs, hfound⟩ := search_mmLines mm
        dsimp only
        unfold cr3Of
        rw [hline, Pattern.search_append_cons pgdPaPattern_avoids matchHere_pgdPa_nil,
          search_front held task.comm]
        cases Pattern.search pgdPaPattern task.comm with
        | some found => rfl
        | none =>
          dsimp only
          rw [hfound]
          dsimp only
          rw [secondField_found]
          rfl

end LinuxSummary.Zproc
