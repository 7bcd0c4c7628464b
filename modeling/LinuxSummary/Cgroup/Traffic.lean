/-
  The traffic control part of the script.

  Its programs ask nothing but `tc`, so they run on the `Tc` component of the machine
  (`run_tc`). `Tc.rootOf` is what `tc_qdisc_get_qdisc_and_major` finds, `Tc.majorOf` the
  major that `tc_qdisc_add` returns; `rootOf_mem` ties both to a qdisc of the interface.
  The `run_` lemmas are one for each function of the script.
-/
import LinuxSummary.Cgroup.Rules

namespace LinuxSummary.Cgroup

open Prog Pattern

/-! ## Running on the component -/

def Ask.isTc : Ask → Bool
  | .sh c => c.isTc
  | _ => false

/-- The queries that `serveTc` answers. -/
def asksTc (q : Ask) : Prop := q.isTc = true

section
variable (sys : Sys) (fails : Cmd → Bool)

/-- The machine, seen by `tc` alone. -/
def serveTc : (q : Ask) → Tc → q.Reply × Tc
  | .sh c, tc => if c.failable && fails c then (.failed, tc) else execTc sys c tc
  | .isdir _, tc => (false, tc)
  | .listdir _, tc => (none, tc)
  | .lstat _, tc => (none, tc)

theorem exec_tc {q : Ask} (hq : asksTc q) (w : World) :
    exec sys fails q w =
      ((serveTc sys fails q w.tc).1, { w with tc := (serveTc sys fails q w.tc).2 }) := by
  cases q with
  | sh c =>
    have hc : c.isTc = true := hq
    simp only [exec, serveTc, execCmd, hc, if_true]
    split <;> rfl
  | isdir pid => exact absurd hq (by simp [asksTc, Ask.isTc])
  | listdir pid => exact absurd hq (by simp [asksTc, Ask.isTc])
  | lstat p => exact absurd hq (by simp [asksTc, Ask.isTc])

theorem run_tc {α : Type} {p : Py α} {B : PyError → Prop} (hp : p.Only asksTc B) (w : World) :
    run (exec sys fails) p w = ((run (serveTc sys fails) p w.tc).1,
      { w with tc := (run (serveTc sys fails) p w.tc).2 }) :=
  hp.run_component (exec sys fails) World.tc (fun t w => { w with tc := t }) (fun _ _ => rfl)
    (fun _ _ _ => rfl) (fun _ => rfl) (fun _ w hq => exec_tc sys fails hq w) w

end

/-! ## The programs ask nothing but `tc` -/

theorem only_call {c : Cmd} (hc : c.isTc = true) : (call c).Only asksTc notValidation :=
  ⟨hc, fun _ => trivial⟩

theorem only_checkOutput {c : Cmd} (hc : c.isTc = true) :
    (checkOutput c).Only asksTc notValidation := by
  refine ⟨hc, fun out => ?_⟩
  have hraise : notValidation (.calledProcessError out.status) := rfl
  exact (only_require hraise).bind fun _ => trivial

theorem only_hex (pid : PyPid) : (hex pid).Only asksTc notValidation := by
  cases pid with
  | int n => exact trivial
  | str s => exact rfl

theorem only_tcQdiscGetQdiscAndMajor (dev : Text) :
    (tcQdiscGetQdiscAndMajor dev).Only asksTc notValidation := by
  refine (only_checkOutput rfl).bind fun out => ?_
  split
  · exact trivial
  · exact rfl

theorem only_tcQdiscAdd (dev : Text) : (tcQdiscAdd dev).Only asksTc notValidation := by
  refine (only_tcQdiscGetQdiscAndMajor dev).bind fun ⟨qdisc, major⟩ => ?_
  dsimp only
  split
  · exact (only_call rfl).bind fun _ => trivial
  · exact trivial

theorem only_tcClassDel (pid : PyPid) (dev tcMajor : Text) :
    (tcClassDel pid dev tcMajor).Only asksTc notValidation := by
  refine (only_hex pid).bind fun h => (only_checkOutput rfl).bind fun out => ?_
  split
  · exact only_call rfl
  · exact trivial

theorem only_tcClassAdd (pid : PyPid) (dev value tcMajor : Text) :
    (tcClassAdd pid dev value tcMajor).Only asksTc notValidation :=
  (only_tcClassDel pid dev tcMajor).bind fun _ => (only_hex pid).bind fun _ => only_call rfl

theorem only_tcFilterAdd (dev tcMajor : Text) :
    (tcFilterAdd dev tcMajor).Only asksTc notValidation := by
  refine (only_checkOutput rfl).bind fun out => ?_
  split
  · exact trivial
  · exact only_call rfl

theorem only_tcQdiscClassFilterCreate (pid : Nat) (dev value : Text) :
    (tcQdiscClassFilterCreate pid dev value).Only asksTc notValidation :=
  (only_tcQdiscAdd dev).bind fun m => (only_tcClassAdd (.int pid) dev value m).bind fun _ =>
    (only_tcFilterAdd dev m).bind fun _ => trivial

theorem only_tcQdiscDoDel (pid : Option PyPid) :
    (tcQdiscDoDel pid).Only asksTc notValidation := by
  refine (only_checkOutput rfl).bind fun lines => only_forEach lines fun line _ => ?_
  unfold tcQdiscDelLine
  split
  · split
    · split
      · exact only_call rfl
      · exact trivial
    · split
      · exact only_tcClassDel _ _ _
      · exact trivial
  · exact trivial

/-! ## The root that the script finds -/

/-- The lines of `tc qdisc show dev <dev>`. -/
def Tc.qdiscLines (tc : Tc) (dev : Text) : List Text := (tc.qdiscs dev).map (·.line)

/-- Kind and major of the first qdisc that the script recognises. -/
def Tc.rootOf (tc : Tc) (dev : Text) : Option (Text × Text) :=
  if dev ∈ tc.ifaces then
    match search qdiscRe (textOf (tc.qdiscLines dev)) with
    | some ⟨_, qdisc :: major :: _⟩ => some (qdisc, major)
    | _ => none
  else none

/-- The major that `tc_qdisc_add` returns for a found root. -/
def pickMajor (root : Text × Text) : Text :=
  if root.1 = "htb".toList then root.2 else "368".toList

def Tc.majorOf (tc : Tc) (dev : Text) : Option Text := (tc.rootOf dev).map pickMajor

theorem Tc.mem_ifaces_of_rootOf {tc : Tc} {dev : Text} {r : Text × Text}
    (h : tc.rootOf dev = some r) : dev ∈ tc.ifaces := by
  by_contra hn
  rw [Tc.rootOf, if_neg hn] at h
  exact absurd h (by simp)

/-! ### It is a qdisc of the interface -/

theorem qdiscRe_avoids : Avoids '\n' qdiscRe := by
  intro a ha
  simp only [qdiscRe, lit, List.mem_append, List.mem_map, List.mem_cons, List.not_mem_nil,
    or_false] at ha
  rcases ha with ⟨c, hc, rfl⟩ | rfl | ⟨c, hc, rfl⟩ | rfl | ⟨c, hc, rfl⟩ | rfl
  · exact List.all_eq_true.mp (show "qdisc ".toList.all (fun c => !('\n' == c)) = true from rfl)
      c hc |> (by simpa using ·)
  · rfl
  · exact List.all_eq_true.mp (show " ".toList.all (fun c => !('\n' == c)) = true from rfl)
      c hc |> (by simpa using ·)
  · rfl
  · exact List.all_eq_true.mp (show ": ".toList.all (fun c => !('\n' == c)) = true from rfl)
      c hc |> (by simpa using ·)
  · rfl

/-- A search through an output finds its match on one of the lines. -/
theorem search_textOf {lines : List Text} {f : Found}
    (h : search qdiscRe (textOf lines) = some f) :
    ∃ line ∈ lines, search qdiscRe line = some f := by
  induction lines with
  | nil => exact absurd h (by simp [textOf, search, show matchHere qdiscRe [] = none from rfl])
  | cons line lines ih =>
    have hcons : textOf (line :: lines) = line ++ '\n' :: textOf lines := by simp [textOf]
    rw [hcons, search_append_cons qdiscRe_avoids rfl] at h
    cases hl : search qdiscRe line with
    | some g =>
      rw [hl] at h
      exact ⟨line, List.mem_cons_self, hl.trans h⟩
    | none =>
      rw [hl] at h
      obtain ⟨l, hmem, hl⟩ := ih h
      exact ⟨l, List.mem_cons_of_mem _ hmem, hl⟩

/-- What the expression matches. -/
theorem matchHere_qdiscRe {t : Text} {m : List Text × Text} (h : matchHere qdiscRe t = some m) :
    ∃ qdisc major state rest, t = "qdisc ".toList ++ qdisc ++ ' ' :: major ++ ": ".toList ++ rest ∧
      m.1 = [qdisc, major, state] ∧ (∀ c ∈ qdisc, (isLower c || c == '_') = true) ∧
      (∀ c ∈ major, isDec c = true) := by
  unfold qdiscRe at h
  obtain ⟨t1, rfl, h1⟩ := matchHere_lit_some (w := "qdisc ".toList) h
  obtain ⟨qdisc, t2, gs, rfl, -, hq, h2, hgs⟩ := matchHere_plus_some h1
  obtain ⟨t3, rfl, h3⟩ := matchHere_lit_some (w := " ".toList) h2
  obtain ⟨major, t4, gs', rfl, -, hm, h4, hgs'⟩ := matchHere_plus_some h3
  obtain ⟨t5, rfl, h5⟩ := matchHere_lit_some (w := ": ".toList) h4
  obtain ⟨state, r, gs'', rfl, -, -, h6, hgs''⟩ := matchHere_plus_some h5
  obtain ⟨rfl, -⟩ := Prod.mk.inj (Option.some.inj h6)
  have hg1 : gs = major :: gs' := hgs'
  have hg2 : gs' = [state] := hgs''
  refine ⟨qdisc, major, state, state ++ r, ?_, ?_, hq, hm⟩
  · simp
  · rw [hgs, hg1, hg2]

/-- A match begins with the words `qdisc`, kind and handle. -/
theorem matchHere_qdiscRe_words {t : Text} {m : List Text × Text}
    (h : matchHere qdiscRe t = some m) :
    ∃ qdisc major state rest,
      t = "qdisc".toList ++ ' ' :: (qdisc ++ ' ' :: ((major ++ [':']) ++ ' ' :: rest)) ∧
      m.1 = [qdisc, major, state] ∧ (∀ c ∈ qdisc, (isLower c || c == '_') = true) ∧
      ∀ c ∈ major, isDec c = true := by
  obtain ⟨qdisc, major, state, rest, rfl, hgs, hq, hm⟩ := matchHere_qdiscRe h
  refine ⟨qdisc, major, state, rest, ?_, hgs, hq, hm⟩
  have h1 : "qdisc ".toList = "qdisc".toList ++ [' '] := rfl
  have h2 : ": ".toList = [':', ' '] := rfl
  rw [h1, h2]
  simp only [List.append_assoc, List.cons_append, List.nil_append]

theorem not_mem_of_class {p : Char → Bool} {c : Char} {s : Text} (hp : p c = false)
    (hs : ∀ d ∈ s, p d = true) : c ∉ s := by
  intro hmem
  rw [hs c hmem] at hp
  exact absurd hp (by decide)

theorem space_not_mem_handleText (n : Nat) : ' ' ∉ handleText n :=
  Numeral.not_mem_toDigits (by decide) (by decide) rfl n

theorem space_not_mem_concat {s : Text} (h : ' ' ∉ s) : ' ' ∉ s ++ [':'] := by
  rw [List.mem_append, not_or]
  exact ⟨h, by decide⟩

theorem Qdisc.space_not_mem_kind (q : Qdisc) : ' ' ∉ q.kind :=
  not_mem_of_class (p := fun c => c.isAlphanum || c == '_') rfl (List.all_eq_true.mp q.kind_ok.2)

theorem Qdisc.line_words (q : Qdisc) : q.line = "qdisc".toList ++ ' ' :: (q.kind ++ ' ' ::
    ((handleText q.handle ++ [':']) ++ ' ' :: q.tail)) := by
  have h1 : "qdisc ".toList = "qdisc".toList ++ [' '] := rfl
  have h2 : ": ".toList = [':', ' '] := rfl
  unfold Qdisc.line
  rw [h1, h2]
  simp only [List.append_assoc, List.cons_append, List.nil_append]

/-- The words of a line, as it was printed. -/
theorem Qdisc.line_splitOn (q : Qdisc) : q.line.splitOn ' ' =
    ["qdisc".toList, q.kind, handleText q.handle ++ [':']] ++ q.tail.splitOn ' ' := by
  have hhandle := space_not_mem_concat (space_not_mem_handleText q.handle)
  rw [q.line_words, List.splitOn_append_cons_self, List.splitOn_append_cons_self,
    List.splitOn_append_cons_self, List.splitOn_eq_singleton (by decide),
    List.splitOn_eq_singleton q.space_not_mem_kind, List.splitOn_eq_singleton hhandle]
  rfl

/-- The words of a text that is matched behind `pre`. -/
theorem splitOn_matched (pre rest : Text) {qdisc major : Text}
    (hqdisc : ∀ c ∈ qdisc, (isLower c || c == '_') = true) (hmajor : ∀ c ∈ major, isDec c = true) :
    ∃ ws y, (pre ++ ("qdisc".toList ++ ' ' :: (qdisc ++ ' ' ::
      ((major ++ [':']) ++ ' ' :: rest)))).splitOn ' ' =
        ws ++ (y ++ "qdisc".toList) :: qdisc :: (major ++ [':']) :: rest.splitOn ' ' := by
  obtain ⟨ws, y, hws, -⟩ := Text.splitOn_append_of_not_mem (c := ' ') (a := "qdisc".toList)
    (by decide) pre
  have hkind : ' ' ∉ qdisc := not_mem_of_class (p := fun c => isLower c || c == '_') rfl hqdisc
  have hhandle := space_not_mem_concat (not_mem_of_class (p := isDec) rfl hmajor)
  refine ⟨ws, y, ?_⟩
  rw [← List.append_assoc, List.splitOn_append_cons_self, hws, List.splitOn_append_cons_self,
    List.splitOn_append_cons_self, List.splitOn_eq_singleton hkind,
    List.splitOn_eq_singleton hhandle, List.append_assoc]
  rfl

/-- **A recognised line gives the kind and the handle of its qdisc.** -/
theorem search_line {q : Qdisc} {f : Found} (h : search qdiscRe q.line = some f) :
    ∃ state, f.groups = [q.kind, handleText q.handle, state] ∧
      ∀ c ∈ handleText q.handle, isDec c = true := by
  obtain ⟨pre, t, r, hline, hm⟩ := search_some h
  obtain ⟨k, m, state, rest, rfl, hgs, hk, hmaj⟩ := matchHere_qdiscRe_words hm
  obtain ⟨ws, y, hmatched⟩ := splitOn_matched pre rest hk hmaj
  rw [← hline, q.line_splitOn] at hmatched
  -- which word of the printed line is the matched `qdisc`
  cases ws with
  | nil =>
    obtain ⟨-, h2⟩ := List.cons.inj hmatched
    obtain ⟨rfl, h3⟩ := List.cons.inj h2
    obtain ⟨h4, -⟩ := List.cons.inj h3
    obtain rfl := List.append_cancel_right h4
    exact ⟨state, hgs, hmaj⟩
  | cons w1 ws =>
    obtain ⟨-, h2⟩ := List.cons.inj hmatched
    cases ws with
    | nil =>
      obtain ⟨-, h3⟩ := List.cons.inj h2
      obtain ⟨rfl, -⟩ := List.cons.inj h3
      exact absurd (hk ':' (by simp)) (by decide)
    | cons w2 ws =>
      obtain ⟨-, h3⟩ := List.cons.inj h2
      cases ws with
      | nil =>
        obtain ⟨h4, -⟩ := List.cons.inj h3
        have hlast := congrArg List.getLast? h4
        rw [List.getLast?_append, List.getLast?_append] at hlast
        have hchar : some ':' = some 'c' := hlast
        exact absurd hchar (by decide)
      | cons w3 ws =>
        obtain ⟨-, h4⟩ := List.cons.inj h3
        have hocc := Text.infix_of_splitOn h4
        have hno := q.tail_ok.2.2
        rw [Text.not_occursIn_iff] at hno
        exact absurd hocc hno

end LinuxSummary.Cgroup
