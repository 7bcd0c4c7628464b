/-
  What `tc_qdisc_get_qdisc_and_major` and `tc_qdisc_add` make of any output of
  `tc qdisc show dev <dev>`.

  An output (`ShowOutput`) is one line for the root and any lines for child qdiscs around it,
  with any options. `ShownQdisc.pairOf_search` says what the expression
  `qdisc ([a-z_]+) ([0-9]+): ..` finds on one line: kind and handle, if the kind has no digit or
  capital and the handle no letter; else only what it finds in the options.
  `pairOf_search_lines` is the whole output: the first line on which it finds something.

  `finds_root_iff`: the script works on the root exactly when that line reads as the root.
-/
import LinuxSummary.Cgroup.Shaping

namespace LinuxSummary.Cgroup

open Prog Pattern Text

/-! ## Outputs -/

/-- A line of the output; `parent` is none for the root. -/
structure ShownQdisc where
  kind : Text
  handle : Nat
  parent : Option Text
  options : Text
  kind_ok : kind ≠ [] ∧ kind.all (fun c => c.isAlphanum || c == '_') = true
  parent_ok : ∀ id ∈ parent, '\n' ∉ id
  options_ok : '\n' ∉ options

/-- What stands behind the handle. -/
def ShownQdisc.rest (q : ShownQdisc) : Text :=
  match q.parent with
  | none => "root".toList ++ q.options
  | some id => "parent ".toList ++ id ++ q.options

def ShownQdisc.line (q : ShownQdisc) : Text :=
  "qdisc ".toList ++ q.kind ++ ' ' :: handleText q.handle ++ ": ".toList ++ q.rest

/-- Lines in any order, one of them for the root. -/
structure ShowOutput where
  before : List ShownQdisc
  root : ShownQdisc
  after : List ShownQdisc
  root_parent : root.parent = none
  child_parent : ∀ q ∈ before ++ after, q.parent ≠ none

def ShowOutput.qdiscs (out : ShowOutput) : List ShownQdisc := out.before ++ out.root :: out.after

/-- Kind and handle of the root. -/
def ShowOutput.rootPair (out : ShowOutput) : Text × Text :=
  (out.root.kind, handleText out.root.handle)

/-! ## What the expression finds -/

/-- The groups that the script takes. -/
def pairOf : Option Found → Option (Text × Text)
  | some ⟨_, qdisc :: major :: _⟩ => some (qdisc, major)
  | _ => none

/-- The kind has lower-case letters and `_` only, the handle digits below ten only. -/
def ShownQdisc.Plain (q : ShownQdisc) : Prop :=
  (∀ c ∈ q.kind, (isLower c || c == '_') = true) ∧ ∀ c ∈ handleText q.handle, isDec c = true

instance (q : ShownQdisc) : Decidable q.Plain := inferInstanceAs (Decidable (_ ∧ _))

/-- How a line reads: as it was printed, or as its options look. -/
def ShownQdisc.reads (q : ShownQdisc) : Option (Text × Text) :=
  if q.Plain then some (q.kind, handleText q.handle) else pairOf (search qdiscRe q.rest)

theorem ShownQdisc.space_not_mem_kind (q : ShownQdisc) : ' ' ∉ q.kind :=
  not_mem_of_class (p := fun c => c.isAlphanum || c == '_') rfl (List.all_eq_true.mp q.kind_ok.2)

/-- What stands in front of the rest. -/
def ShownQdisc.front (q : ShownQdisc) : Text :=
  "qdisc".toList ++ ' ' :: (q.kind ++ ' ' :: ((handleText q.handle ++ [':']) ++ [' ']))

theorem ShownQdisc.line_eq (q : ShownQdisc) : q.line = q.front ++ q.rest := by
  have h1 : "qdisc ".toList = "qdisc".toList ++ [' '] := rfl
  have h2 : ": ".toList = [':', ' '] := rfl
  unfold ShownQdisc.line ShownQdisc.front
  rw [h1, h2]
  simp only [List.append_assoc, List.cons_append, List.nil_append]

/-- No match starts in front of the rest of a line that is not plain. -/
theorem ShownQdisc.no_match {q : ShownQdisc} (hq : ¬ q.Plain) {t : Text} (hnil : t ≠ [])
    (ht : t <:+ q.front) : matchHere qdiscRe (t ++ q.rest) = none := by
  by_contra hsome
  obtain ⟨m, hm⟩ := Option.ne_none_iff_exists'.mp hsome
  obtain ⟨qdisc, major, state, rest, heq, -, hqd, hmaj⟩ := matchHere_qdiscRe_words hm
  have hword : ' ' ∉ "qdisc".toList := by decide
  have hqdisc : ' ' ∉ qdisc := not_mem_of_class (p := fun c => isLower c || c == '_') rfl hqd
  have hcolon : ':' ∉ qdisc := not_mem_of_class (p := fun c => isLower c || c == '_') rfl hqd
  have hmajor := space_not_mem_concat (not_mem_of_class (p := isDec) rfl hmaj)
  have hhandle := space_not_mem_concat (space_not_mem_handleText q.handle)
  -- in which word of the front the match starts
  rcases suffix_append_cons ht with ⟨a, ha, rfl⟩ | ht
  · rw [List.append_assoc, List.cons_append] at heq
    obtain ⟨-, h1⟩ := append_cons_inj (fun h => hword (ha.subset h)) hword heq
    rw [List.append_assoc, List.cons_append] at h1
    obtain ⟨h2, h3⟩ := append_cons_inj q.space_not_mem_kind hqdisc h1
    rw [List.append_assoc, List.singleton_append] at h3
    obtain ⟨h4, -⟩ := append_cons_inj hhandle hmajor h3
    refine hq ⟨?_, ?_⟩
    · rw [h2]
      exact hqd
    · rw [List.append_cancel_right h4]
      exact hmaj
  rcases suffix_append_cons ht with ⟨a, ha, rfl⟩ | ht
  · rw [List.append_assoc, List.cons_append] at heq
    obtain ⟨-, h1⟩ := append_cons_inj (fun h => q.space_not_mem_kind (ha.subset h)) hword heq
    rw [List.append_assoc, List.singleton_append] at h1
    obtain ⟨h2, -⟩ := append_cons_inj hhandle hqdisc h1
    refine hcolon ?_
    rw [← h2]
    exact List.mem_append_right _ (List.mem_singleton.mpr rfl)
  rcases suffix_append_cons ht with ⟨a, ha, rfl⟩ | ht
  · rw [List.append_assoc, List.singleton_append] at heq
    obtain ⟨h1, -⟩ := append_cons_inj (fun h => hhandle (ha.subset h)) hword
      heq
    rcases List.suffix_concat_iff.mp ha with h | ⟨b, hb, -⟩
    · rw [h] at h1
      exact absurd h1 (by decide)
    · rw [hb] at h1
      have hlast := congrArg List.getLast? h1
      rw [List.getLast?_concat] at hlast
      exact absurd hlast (by decide)
  · exact hnil (List.suffix_nil.mp ht)

/-- The rest begins with lower-case letters. -/
theorem ShownQdisc.rest_state (q : ShownQdisc) :
    ∃ state rest, q.rest = state ++ rest ∧ state ≠ [] ∧ (∀ c ∈ state, isLower c = true) ∧
      ∀ c, rest.head? = some c → isLower c = false := by
  refine ⟨q.rest.takeWhile isLower, q.rest.dropWhile isLower,
    (List.takeWhile_append_dropWhile).symm, ?_, fun c hc => List.mem_takeWhile_imp hc, ?_⟩
  · unfold ShownQdisc.rest
    cases q.parent with
    | none => exact List.cons_ne_nil _ _
    | some id => exact List.cons_ne_nil _ _
  · intro c hc
    have h := List.head?_dropWhile_not isLower q.rest
    rw [hc] at h
    simpa using h

/-- A class in front of a literal takes its whole run. -/
theorem matchHere_plus_lit {p : Char → Bool} {d : Char} {w : Text} {r : List Atom} {a b : Text}
    (hd : p d = false) (ha : ∀ c ∈ a, p c = true) (hne : a ≠ []) :
    matchHere (.plus p :: (lit (d :: w) ++ r)) (a ++ (d :: w ++ b)) =
      (matchHere r b).map fun m => (a :: m.1, m.2) := by
  have hreject : ∀ c cs, p c = true → matchHere (lit (d :: w) ++ r) (c :: cs) = none := by
    intro c cs hc
    have hcd : (c == d) = false := by
      rw [beq_eq_false_iff_ne]
      intro heq
      obtain rfl := heq
      rw [hd] at hc
      exact absurd hc (by decide)
    show (if (c == d) = true then _ else none) = none
    rw [hcd]
    rfl
  have hhead : ∀ c, (d :: w ++ b).head? = some c → p c = false := by
    intro c hc
    obtain rfl := Option.some.inj hc
    exact hd
  rw [matchHere_plus hreject ha hhead hne, matchHere_lit]

/-- A plain line reads as it was printed. -/
theorem ShownQdisc.match_plain {q : ShownQdisc} (hq : q.Plain) :
    ∃ state rest, matchHere qdiscRe q.line = some ([q.kind, handleText q.handle, state], rest) := by
  obtain ⟨state, rest, hrest, hne, hstate, hhead⟩ := q.rest_state
  have hline : q.line = "qdisc ".toList ++ (q.kind ++ (" ".toList ++ (handleText q.handle ++
      (": ".toList ++ (state ++ rest))))) := by
    unfold ShownQdisc.line
    rw [hrest]
    simp
  have hstate' := matchHere_plus_last hstate hhead hne
  have hhandle : matchHere (.plus isDec :: (lit ": ".toList ++ [.plus isLower]))
      (handleText q.handle ++ (": ".toList ++ (state ++ rest))) =
        some ([handleText q.handle, state], rest) := by
    have h := matchHere_plus_lit (w := " ".toList) (r := [.plus isLower]) (b := state ++ rest)
      (show isDec ':' = false from rfl) hq.2 Nat.toDigits_ne_nil
    rw [hstate'] at h
    exact h
  have hkind : matchHere (.plus (fun c => isLower c || c == '_') :: (lit " ".toList ++
      .plus isDec :: (lit ": ".toList ++ [.plus isLower])))
      (q.kind ++ (" ".toList ++ (handleText q.handle ++ (": ".toList ++ (state ++ rest))))) =
        some ([q.kind, handleText q.handle, state], rest) := by
    have h := matchHere_plus_lit (p := fun c => isLower c || c == '_') (d := ' ') (w := [])
      (r := .plus isDec :: (lit ": ".toList ++ [.plus isLower]))
      (b := handleText q.handle ++ (": ".toList ++ (state ++ rest))) rfl hq.1 q.kind_ok.1
    rw [hhandle] at h
    exact h
  refine ⟨state, rest, ?_⟩
  rw [hline]
  unfold qdiscRe
  rw [matchHere_lit, hkind]

/-- **How one line reads.** -/
theorem ShownQdisc.pairOf_search (q : ShownQdisc) : pairOf (search qdiscRe q.line) = q.reads := by
  unfold ShownQdisc.reads
  split
  · next hq =>
    obtain ⟨state, rest, hm⟩ := ShownQdisc.match_plain hq
    rw [search_of_matchHere hm]
    rfl
  · next hq =>
    rw [q.line_eq, search_append_of_none fun t hnil ht => ShownQdisc.no_match hq hnil ht]

/-- Options of `tc` itself do not hold the word, and are not read. -/
theorem ShownQdisc.reads_eq_none {q : ShownQdisc} (hq : ¬ q.Plain)
    (hrest : occursIn "qdisc ".toList q.rest = false) : q.reads = none := by
  have hsearch : search qdiscRe q.rest = none := by
    by_contra hsome
    obtain ⟨f, hf⟩ := Option.ne_none_iff_exists'.mp hsome
    obtain ⟨pre, t, r, heq, hm⟩ := search_some hf
    have hword : "qdisc ".toList <+: t := prefix_of_matchHere_lit hm
    rw [not_occursIn_iff, heq] at hrest
    exact hrest (hword.isInfix.trans (List.suffix_append pre t).isInfix)
  rw [ShownQdisc.reads, if_neg hq, hsearch]
  rfl

/-- What the expression finds has the groups that the script takes. -/
theorem pairOf_isSome {s : Text} {f : Found} (h : search qdiscRe s = some f) :
    ∃ r, pairOf (some f) = some r := by
  obtain ⟨pre, t, r, -, hm⟩ := search_some h
  obtain ⟨qdisc, major, state, rest, -, hgs, -⟩ := matchHere_qdiscRe hm
  obtain ⟨whole, groups⟩ := f
  have hgroups : groups = [qdisc, major, state] := hgs
  rw [hgroups]
  exact ⟨(qdisc, major), rfl⟩

/-- **How an output reads**: as the first line on which the expression finds something. -/
theorem pairOf_search_lines (qs : List ShownQdisc) :
    pairOf (search qdiscRe (textOf (qs.map ShownQdisc.line))) =
      qs.findSome? ShownQdisc.reads := by
  induction qs with
  | nil => rfl
  | cons q qs ih =>
    have hcons : textOf ((q :: qs).map ShownQdisc.line) =
        q.line ++ '\n' :: textOf (qs.map ShownQdisc.line) := by simp [textOf]
    rw [hcons, search_append_cons qdiscRe_avoids rfl, List.findSome?_cons, ← q.pairOf_search]
    cases hl : search qdiscRe q.line with
    | none => exact ih
    | some f =>
      obtain ⟨r, hr⟩ := pairOf_isSome hl
      rw [hr]

/-! ## The script at such an output -/

section
variable {S : Type} (serve : (q : Ask) → S → q.Reply × S) (dev : Text) (out : ShowOutput)

/-- A machine on which `tc qdisc show dev <dev>` prints the output. -/
def showing : (q : Ask) → S → q.Reply × S
  | .sh c, s =>
    if c = .tcQdiscShow (some dev) then (.ok (out.qdiscs.map ShownQdisc.line), s)
    else serve (.sh c) s
  | .isdir pid, s => serve (.isdir pid) s
  | .listdir pid, s => serve (.listdir pid) s
  | .lstat path, s => serve (.lstat path) s

/-- The command with which `tc_qdisc_add` makes a root. -/
def rootAdd : Ask := .sh (.tcQdiscAdd dev "368".toList)

/-- The script works on the root: it returns its kind and handle, and makes a new HTB root
    exactly if the root is not HTB, or goes on with the handle of the root. -/
structure FindsRoot (s : S) : Prop where
  found : run (showing serve dev out) (tcQdiscGetQdiscAndMajor dev) s = (.ok out.rootPair, s)
  added : rootAdd dev ∈ (trace (showing serve dev out) (tcQdiscAdd dev) s).map (·.1) ↔
    out.root.kind ≠ "htb".toList
  used : (run (showing serve dev out) (tcQdiscAdd dev) s).1 = .ok (pickMajor out.rootPair)

theorem showing_show (s : S) : showing serve dev out (.sh (.tcQdiscShow (some dev))) s =
    (.ok (out.qdiscs.map ShownQdisc.line), s) := by
  exact if_pos rfl

theorem run_show (s : S) : run (showing serve dev out) (tcQdiscGetQdiscAndMajor dev) s =
    (match out.qdiscs.findSome? ShownQdisc.reads with
      | some r => .ok r
      | none => .error .assertionBare, s) := by
  unfold tcQdiscGetQdiscAndMajor tcQdiscShow
  rw [run_bind_ok _ (run_checkOutput_ok _ (showing_show serve dev out s)), ← pairOf_search_lines]
  generalize search qdiscRe (textOf (out.qdiscs.map ShownQdisc.line)) = found
  rcases found with _ | ⟨whole, _ | ⟨qdisc, _ | ⟨major, rest⟩⟩⟩ <;> rfl

theorem trace_show (s : S) :
    trace (showing serve dev out) (tcQdiscGetQdiscAndMajor dev) s =
      [(.sh (.tcQdiscShow (some dev)), s)] := by
  have hshow := showing_show serve dev out s
  have hout : trace (showing serve dev out) (checkOutput (.tcQdiscShow (some dev))) s =
      [(.sh (.tcQdiscShow (some dev)), s)] := by
    unfold checkOutput
    rw [query_bind, trace_ask, hshow]
    rfl
  unfold tcQdiscGetQdiscAndMajor tcQdiscShow
  rw [trace_bind_ok _ (run_checkOutput_ok _ hshow), hout]
  generalize search qdiscRe (textOf (out.qdiscs.map ShownQdisc.line)) = found
  rcases found with _ | ⟨whole, _ | ⟨qdisc, _ | ⟨major, rest⟩⟩⟩ <;> rfl

/-- **The script works on the root exactly when the first line that it can read, reads as the
    root.** -/
theorem finds_root_iff (s : S) :
    FindsRoot serve dev out s ↔
      out.qdiscs.findSome? ShownQdisc.reads = some out.rootPair := by
  have hrun := run_show serve dev out s
  constructor
  · intro h
    rw [h.found] at hrun
    obtain ⟨hok, -⟩ := Prod.mk.inj hrun
    cases hfind : out.qdiscs.findSome? ShownQdisc.reads with
    | none =>
      rw [hfind] at hok
      exact absurd hok (by simp)
    | some r =>
      rw [hfind] at hok
      rw [Except.ok.inj hok]
  · intro h
    rw [h] at hrun
    have hget : run (showing serve dev out) (tcQdiscGetQdiscAndMajor dev) s =
        (.ok out.rootPair, s) := hrun
    have htrace : trace (showing serve dev out) (tcQdiscAdd dev) s =
        (.sh (.tcQdiscShow (some dev)), s) ::
          if out.root.kind ≠ "htb".toList then [(rootAdd dev, s)] else [] := by
      rw [tcQdiscAdd, trace_bind_ok _ hget, trace_show]
      show _ :: trace (showing serve dev out) (if out.root.kind ≠ "htb".toList then _ else _) s = _
      by_cases hk : out.root.kind ≠ "htb".toList
      · rw [if_pos hk, if_pos hk]
        rfl
      · rw [if_neg hk, if_neg hk]
        rfl
    refine ⟨hget, ?_, ?_⟩
    · rw [htrace]
      simp [rootAdd]
    · rw [tcQdiscAdd, run_bind_ok _ hget, pickMajor]
      show (run (showing serve dev out) (if out.root.kind ≠ "htb".toList then _ else _) s).1 =
        .ok (if out.root.kind = "htb".toList then _ else _)
      by_cases hk : out.root.kind = "htb".toList
      · rw [if_neg (not_not.mpr hk), if_pos hk]
        rfl
      · rw [if_pos hk, if_neg hk]
        rfl

end

theorem kind_ok_htb : "htb".toList ≠ [] ∧
    ("htb".toList.all fun c => c.isAlphanum || c == '_') = true := by
  decide

/-- An HTB root. -/
def root1a : ShownQdisc :=
  ⟨"htb".toList, 0x1a, none, " refcnt 2".toList, kind_ok_htb, by decide, by decide⟩

/-- The default child of that root. -/
def child1a : ShownQdisc :=
  ⟨"pfifo".toList, 0x10, some "1a:1".toList, " limit 9p".toList, by decide, by decide, by decide⟩

def htb1a : ShowOutput where
  before := []
  root := root1a
  after := [child1a]
  root_parent := rfl
  child_parent q hq := by
    obtain rfl := List.mem_singleton.mp hq
    exact Option.some_ne_none _

/-- A machine on which nothing else succeeds. -/
def mute : (q : Ask) → Unit → q.Reply × Unit
  | .sh _, s => (.failed, s)
  | .isdir _, s => (false, s)
  | .listdir _, s => (none, s)
  | .lstat _, s => (none, s)

theorem reads_root1a : root1a.reads = none := by
  have hplain : ¬ root1a.Plain := fun h => absurd (h.2 'a' (by decide)) (by decide)
  exact ShownQdisc.reads_eq_none hplain (by decide)

theorem reads_child1a : child1a.reads = some ("pfifo".toList, handleText 0x10) :=
  if_pos ⟨List.all_eq_true.mp (by decide), List.all_eq_true.mp (by decide)⟩

/-- Behind the handle `1a:` the child is taken for the root. -/
theorem not_findsRoot_1a : ¬ FindsRoot mute "eth0".toList htb1a () := by
  intro h
  have hfind : htb1a.qdiscs.findSome? ShownQdisc.reads =
      some ("pfifo".toList, handleText 0x10) := by
    show List.findSome? ShownQdisc.reads [root1a, child1a] = _
    rw [List.findSome?_cons, reads_root1a, List.findSome?_cons, reads_child1a]
  have hrun := run_show mute "eth0".toList htb1a ()
  rw [h.found, hfind] at hrun
  obtain ⟨hok, -⟩ := Prod.mk.inj hrun
  obtain ⟨hkind, -⟩ := Prod.mk.inj (Except.ok.inj hok)
  exact absurd hkind (by decide)

end LinuxSummary.Cgroup
