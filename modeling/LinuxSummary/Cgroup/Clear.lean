/-
  `do_cgroup_clear`: which groups it hands to `cgdelete`.

  The script selects the lines of `lscgroup` that hold the text `ctpid<P>` anywhere, and
  cuts the second controller of a co-mounted pair out of each line, wherever it stands.
  `designated_clearName` says which group the rewritten line designates: one of the same
  hierarchy, whose path is `clearedPath`. `clear_iff` is the exact condition under which
  the groups handed over are those named `ctpid<P>`.
-/
import LinuxSummary.Cgroup.Requests
import LinuxSummary.Cgroup.Traffic

namespace LinuxSummary.Cgroup

open Prog Text

/-! ## Listing and parsing back -/

theorem splitOn_join {c : Char} {xs : List Text} (hne : xs ≠ []) (h : ∀ x ∈ xs, c ∉ x) :
    ([c].intercalate xs).splitOn c = xs := List.splitOn_intercalate c h hne

theorem parsePath_join {xs : List Text} (h : ∀ x ∈ xs, '/' ∉ x) :
    parsePath ('/' :: ['/'].intercalate xs) = xs.filterMap Comp.ofText? := by
  have hroot : Comp.ofText? [] = none := by simp [Comp.ofText?]
  rw [parsePath]
  cases xs with
  | nil => rfl
  | cons x xs =>
    rw [show '/' :: ['/'].intercalate (x :: xs) = [] ++ '/' :: ['/'].intercalate (x :: xs) from rfl,
      List.splitOn_append_cons_self, splitOn_join (by simp) h]
    simp [hroot]

theorem Comp.ofText?_text (n : Comp) : Comp.ofText? n.text = some n := by
  rw [Comp.ofText?, dif_pos ⟨n.ne, n.ok.1, n.ok.2⟩]

theorem filterMap_ofText? (p : Path) : (p.map (·.text)).filterMap Comp.ofText? = p := by
  rw [List.filterMap_map]
  induction p with
  | nil => rfl
  | cons n p ih => simp [Comp.ofText?_text]

/-! ## The rewriting of a line -/

/-- The controller whose name the script cuts out of a line. -/
def coMounted (line : Text) : Option Controller :=
  if occursIn "cpu,cpuacct".toList line then some .cpuacct
  else if occursIn "net_cls,net_prio".toList line then some .netPrio
  else none

theorem clearName_eq (line : Text) :
    clearName line = match coMounted line with
      | some x => replaceAll (',' :: x.name) [] line
      | none => line := by
  rw [clearName, coMounted]
  split
  · rfl
  · split <;> rfl

/-- The path of a listed group once the co-mounted name is cut out of it. -/
def clearedPath (g : Hier × Path) : Path :=
  match coMounted (listing g) with
  | some x => g.2.filterMap fun n => Comp.ofText? (replaceAll (',' :: x.name) [] n.text)
  | none => g.2

/-- No other controller's name starts with one of the two that are cut out. -/
theorem Controller.eq_of_prefix {x c : Controller} (hx : x = .cpuacct ∨ x = .netPrio)
    (h : x.name <+: c.name) : c.name = x.name := by
  rcases hx with rfl | rfl
  all_goals
    cases c
    case named n =>
      obtain ⟨t, ht⟩ := h
      exact absurd (List.cons.inj (List.cons.inj ht).2).1 (by decide)
    all_goals revert h; decide

theorem coMounted_cases {line : Text} {x : Controller} (h : coMounted line = some x) :
    x = .cpuacct ∨ x = .netPrio := by
  unfold coMounted at h
  split at h
  · exact .inl (Option.some.inj h).symm
  · split at h
    · exact .inr (Option.some.inj h).symm
    · exact absurd h (by simp)

theorem Controller.colon_not_mem (cs : List Controller) :
    ':' ∉ [','].intercalate (cs.map (·.name)) := by
  induction cs with
  | nil => simp
  | cons c cs ih =>
    rw [List.map_cons, intercalate_cons, List.mem_append, not_or]
    refine ⟨c.name_ok.1, fun hm => ?_⟩
    obtain ⟨d, hd, hm⟩ := List.mem_flatMap.mp hm
    obtain ⟨c', -, rfl⟩ := List.mem_map.mp hd
    rcases List.mem_cons.mp hm with h | h
    · exact absurd h (by decide)
    · exact c'.name_ok.1 h

/-- Parsing a line whose controllers and components are given. -/
theorem parseGroup_join {cs : List Controller} (hcs : cs ≠ []) {xs : List Text}
    (hxs : ∀ x ∈ xs, '/' ∉ x) :
    parseGroup ([','].intercalate (cs.map (·.name)) ++ ':' :: '/' :: ['/'].intercalate xs) =
      (cs.map (·.name), xs.filterMap Comp.ofText?) := by
  obtain ⟨h1, h2⟩ := takeWhile_colon (b := '/' :: ['/'].intercalate xs)
    (Controller.colon_not_mem cs)
  have hcomma : ∀ n ∈ cs.map (·.name), ',' ∉ n := by
    intro n hn
    obtain ⟨c, -, rfl⟩ := List.mem_map.mp hn
    exact c.name_ok.2
  rw [parseGroup, h1, h2, splitOn_join (by simpa using hcs) hcomma, parsePath_join hxs]

/-- The rewritten line names controllers of the same hierarchy, and the path `clearedPath`. -/
theorem parseGroup_clearName {g : Hier × Path} (hg : g.1 ≠ []) :
    ∃ cs : List Controller, cs ≠ [] ∧ (∀ c ∈ cs, c ∈ g.1) ∧
      parseGroup (clearName (listing g)) = (cs.map (·.name), clearedPath g) := by
  obtain ⟨h, p⟩ := g
  have hslash : ∀ x ∈ p.map (·.text), '/' ∉ x := by
    intro x hx
    obtain ⟨n, -, rfl⟩ := List.mem_map.mp hx
    exact n.ok.1
  rw [clearName_eq, clearedPath]
  cases hco : coMounted (listing (h, p)) with
  | none =>
    refine ⟨h, hg, fun c hc => hc, ?_⟩
    simp only [listing, parseGroup_join hg hslash, filterMap_ofText?]
  | some x =>
    cases h with
    | nil => exact absurd rfl hg
    | cons c cs =>
      have hx := coMounted_cases hco
      have hcolon : ':' ∉ ',' :: x.name := by
        rw [List.mem_cons, not_or]
        exact ⟨by decide, x.name_ok.1⟩
      have hsl : '/' ∉ ',' :: x.name := by rcases hx with rfl | rfl <;> decide
      -- the controllers that stay
      have hctrl : replaceAll (',' :: x.name) [] ([','].intercalate ((c :: cs).map (·.name))) =
          [','].intercalate ((c :: cs.filter (·.name ≠ x.name)).map (·.name)) := by
        rw [List.map_cons, replaceAll_fields x.name_ok.2 c.name_ok.2]
        · rw [List.map_cons, List.filter_map]
          rfl
        · intro m hm
          obtain ⟨d, -, rfl⟩ := List.mem_map.mp hm
          exact d.name_ok.2
        · intro m hm hpre
          obtain ⟨d, -, rfl⟩ := List.mem_map.mp hm
          exact Controller.eq_of_prefix hx hpre
      -- the components, each rewritten on its own
      have hpath : replaceAll (',' :: x.name) [] ('/' :: ['/'].intercalate (p.map (·.text))) =
          '/' :: ['/'].intercalate ((p.map (·.text)).map (replaceAll (',' :: x.name) [])) := by
        rw [← replaceAll_intercalate [] hsl (by simp)]
        exact replaceAll_append_cons [] hsl (by simp) [] _
      have hslash' : ∀ y ∈ (p.map (·.text)).map (replaceAll (',' :: x.name) []), '/' ∉ y := by
        intro y hy
        obtain ⟨z, hz, rfl⟩ := List.mem_map.mp hy
        exact fun hm => hslash z hz (mem_of_mem_replaceAll hm)
      refine ⟨c :: cs.filter (·.name ≠ x.name), by simp, ?_, ?_⟩
      · intro d hd
        rcases List.mem_cons.mp hd with rfl | hd
        · exact List.mem_cons_self
        · exact List.mem_cons_of_mem _ (List.mem_filter.mp hd).1
      · simp only [listing]
        rw [replaceAll_append_cons [] hcolon (by simp), hctrl, hpath,
          parseGroup_join (by simp) hslash', List.map_map, List.filterMap_map]
        rfl

/-! ## The groups handed over -/

section
variable (sys : Sys)

theorem Sys.hierOf_of_mem {h : Hier} (hh : h ∈ sys.hiers) {c : Controller} (hc : c ∈ h) :
    sys.hierOf c = some h := by
  have hsome : (sys.hierOf c).isSome := by
    rw [Sys.hierOf, List.find?_isSome]
    exact ⟨h, hh, by simpa using hc⟩
  obtain ⟨h', hh'⟩ := Option.isSome_iff_exists.mp hsome
  have hmem := List.mem_of_find?_eq_some hh'
  have hc' : c ∈ h' := by simpa using List.find?_some hh'
  rw [hh', sys.hiers_disjoint h' hmem h hh c hc' hc]

/-- The groups that an argument of `cgdelete -g` designates. -/
def designated (name : Text) : Set (Hier × Path) :=
  {g | (∃ n ∈ (parseGroup name).1, (Controller.ofName n).bind sys.hierOf = some g.1) ∧
    g.2 = (parseGroup name).2}

/-- **A rewritten line designates one group**, in the hierarchy it was listed for. -/
theorem designated_clearName {g : Hier × Path} (hg : g.1 ∈ sys.hiers) :
    designated sys (clearName (listing g)) = {(g.1, clearedPath g)} := by
  obtain ⟨cs, hne, hcs, hparse⟩ := parseGroup_clearName (sys.hiers_ne g.1 hg)
  have hhier : ∀ c ∈ cs, (Controller.ofName c.name).bind sys.hierOf = some g.1 := by
    intro c hc
    rw [Controller.ofName_name, Option.bind_some]
    exact sys.hierOf_of_mem hg (hcs c hc)
  ext ⟨h, p⟩
  rw [designated, hparse]
  simp only [Set.mem_ofPred_eq, Set.mem_singleton_iff, Prod.mk.injEq, List.mem_map,
    exists_exists_and_eq_and]
  constructor
  · intro h
    obtain ⟨⟨c, hc, hh⟩, hp⟩ := h
    rw [hhier c hc] at hh
    exact ⟨(Option.some.inj hh).symm, hp⟩
  · intro h
    obtain ⟨rfl, hp⟩ := h
    obtain ⟨c, hc⟩ := List.exists_mem_of_ne_nil cs hne
    exact ⟨⟨c, hc, hhier c hc⟩, hp⟩

variable (fails : Cmd → Bool)

def cgdeleteArg : Ask → Option Text
  | .sh (.cgdelete name) => some name
  | _ => none

/-- The arguments that `do_cgroup_clear` hands to `cgdelete`. -/
def handed (args : ClearArgs) (w : World) : List Text :=
  (trace (exec sys fails) (doCgroupClear args) w).filterMap fun x => cgdeleteArg x.1

def handedGroups (args : ClearArgs) (w : World) : Set (Hier × Path) :=
  {g | ∃ name ∈ handed sys fails args w, g ∈ designated sys name}

/-- The text that the lines are selected by. -/
def ClearArgs.filterName (args : ClearArgs) : Text :=
  ctpid (if args.all then [] else args.pid.getD [])

theorem run_lscgroupFilter (name : Text) (w : World) :
    run (exec sys fails) (lscgroupFilter (some name)) w =
      (.ok (((sys.lscgroup w.cg).map listing).filter fun x => occursIn name x), w) := by
  have hrun : exec sys fails (.sh .lscgroup) w = (.ok ((sys.lscgroup w.cg).map listing), w) := rfl
  rw [lscgroupFilter, run_bind_ok _ (run_checkOutput_ok _ hrun)]
  rfl

/-- The loop over the selected lines. -/
def deleteAll (names : List Text) : Py Unit :=
  forEach names fun groupName => cgdeleteName (clearName groupName)

/-- The loop always ends normally, with every line handed over. -/
theorem deleteAll_handed (names : List Text) (w : World) :
    (∃ w', run (exec sys fails) (deleteAll names) w = (.ok (), w')) ∧
      (trace (exec sys fails) (deleteAll names) w).filterMap (fun x => cgdeleteArg x.1) =
        names.map clearName := by
  induction names generalizing w with
  | nil => exact ⟨⟨w, rfl⟩, rfl⟩
  | cons n names ih =>
    have hcall := run_call (exec sys fails) (.cgdelete (clearName n)) w
    obtain ⟨⟨w', hw'⟩, htr⟩ := ih (exec sys fails (.sh (.cgdelete (clearName n))) w).2
    refine ⟨⟨w', ?_⟩, ?_⟩
    · rw [deleteAll, forEach_cons, cgdeleteName, run_bind_ok _ hcall]
      exact hw'
    · rw [deleteAll, forEach_cons, cgdeleteName, trace_bind_ok _ hcall, List.filterMap_append,
        List.map_cons]
      exact congrArg _ htr

/-- What `do_cgroup_clear` does after the loop. -/
def clearTc (args : ClearArgs) : Py Unit :=
  if args.all then tcQdiscDoDel none
  else
    match args.pid with
    | some pid => if pid ≠ [] then tcQdiscDoDel (some (.str pid)) else return ()
    | none => return ()

theorem doCgroupClear_eq {args : ClearArgs} (h : (args.all || args.pid.isSome) = true) :
    doCgroupClear args = lscgroupFilter (some args.filterName) >>= fun names =>
      deleteAll names >>= fun _ => clearTc args := by
  rw [doCgroupClear, h]
  rfl

theorem only_clearTc (args : ClearArgs) : (clearTc args).Only asksTc notValidation := by
  unfold clearTc
  split
  · exact only_tcQdiscDoDel _
  · split
    · split
      · exact only_tcQdiscDoDel _
      · exact trivial
    · exact trivial

/-- The lines that hold the text are handed over, each rewritten. -/
theorem handed_eq {args : ClearArgs} (h : (args.all || args.pid.isSome) = true) (w : World) :
    handed sys fails args w =
      (((sys.lscgroup w.cg).map listing).filter fun x => occursIn args.filterName x).map
        clearName := by
  have hlist := run_lscgroupFilter sys fails args.filterName w
  obtain ⟨⟨w', hdel⟩, hdeltr⟩ := deleteAll_handed sys fails
    (((sys.lscgroup w.cg).map listing).filter fun x => occursIn args.filterName x) w
  have htc : (trace (exec sys fails) (clearTc args) w').filterMap (fun x => cgdeleteArg x.1) =
      [] := by
    rw [List.filterMap_eq_nil_iff]
    intro x hx
    have := (only_clearTc args).trace _ hx
    cases hq : x.1 with
    | sh c =>
      rw [hq] at this
      cases c <;> first | rfl | exact absurd this (by simp [asksTc, Ask.isTc, Cmd.isTc])
    | isdir pid => rfl
    | listdir pid => rfl
    | lstat p => rfl
  rw [handed, doCgroupClear_eq h, trace_bind_ok _ hlist, trace_bind_ok _ hdel,
    List.filterMap_append, List.filterMap_append, hdeltr, htc, List.append_nil]
  rfl

theorem mem_handedGroups (args : ClearArgs) (h : (args.all || args.pid.isSome) = true) (w : World)
    (g : Hier × Path) :
    g ∈ handedGroups sys fails args w ↔ ∃ g' ∈ sys.lscgroup w.cg,
      occursIn args.filterName (listing g') = true ∧ g = (g'.1, clearedPath g') := by
  have hmounted : ∀ g' ∈ sys.lscgroup w.cg, g'.1 ∈ sys.hiers :=
    fun g' hg' => ((sys.lscgroup_mem w.cg g'.1 g'.2).mp hg').1
  rw [handedGroups, handed_eq sys fails h]
  constructor
  · intro h
    obtain ⟨name, hname, hg⟩ := h
    obtain ⟨line, hline, rfl⟩ := List.mem_map.mp hname
    obtain ⟨hmem, hocc⟩ := List.mem_filter.mp hline
    obtain ⟨g', hg', rfl⟩ := List.mem_map.mp hmem
    rw [designated_clearName sys (hmounted g' hg')] at hg
    exact ⟨g', hg', hocc, hg⟩
  · intro h
    obtain ⟨g', hg', hocc, rfl⟩ := h
    refine ⟨clearName (listing g'), ?_, ?_⟩
    · exact List.mem_map_of_mem (List.mem_filter.mpr ⟨List.mem_map_of_mem hg', hocc⟩)
    · rw [designated_clearName sys (hmounted g' hg')]
      rfl

/-! ## `clear -p <P>` -/

/-- `clear -p <P>` -/
def clearPid (pid : Nat) : ClearArgs := ⟨false, some (Nat.toDigits 10 pid)⟩

/-- A group named `ctpid<P>` is selected and its path stays. -/
theorem clearedPath_self (h : Hier) (pid : Nat) :
    occursIn (getCgroupName pid) (listing (h, groupPath pid)) = true ∧
      clearedPath (h, groupPath pid) = groupPath pid := by
  constructor
  · rw [occursIn_iff]
    exact ⟨[','].intercalate (h.map (·.name)) ++ [':', '/'], [], by simp [listing, groupPath]⟩
  · rw [clearedPath]
    have hcomma : ',' ∉ getCgroupName pid := not_mem_getCgroupName rfl (by decide) pid
    cases coMounted (listing (h, groupPath pid)) with
    | none => rfl
    | some x =>
      have hcut : replaceAll (',' :: x.name) [] (getCgroupName pid) = getCgroupName pid := by
        refine replaceAll_of_not_infix [] fun hi => hcomma (hi.subset (by simp))
      have hof : Comp.ofText? (getCgroupName pid) =
          some ((groupPath pid).head (groupPath_ne_nil pid)) :=
        Comp.ofText?_text ((groupPath pid).head (groupPath_ne_nil pid))
      simp only [groupPath, List.filterMap_cons, List.filterMap_nil, hcut, hof]
      rfl

/-- **What `clear -p <P>` deletes.** The groups handed to `cgdelete` are the listed groups named
    `ctpid<P>` exactly when every listed line that holds `ctpid<P>` is rewritten to the path
    `/ctpid<P>` of a listed group. -/
theorem clear_iff (pid : Nat) (w : World) :
    handedGroups sys fails (clearPid pid) w =
        {g | g ∈ sys.lscgroup w.cg ∧ g.2 = groupPath pid} ↔
      ∀ g ∈ sys.lscgroup w.cg, occursIn (getCgroupName pid) (listing g) = true →
        clearedPath g = groupPath pid ∧ (g.1, groupPath pid) ∈ sys.lscgroup w.cg := by
  have hmem := mem_handedGroups sys fails (clearPid pid) rfl w
  constructor
  · intro heq g hg hocc
    have hin := (hmem (g.1, clearedPath g)).mpr ⟨g, hg, hocc, rfl⟩
    rw [heq] at hin
    obtain ⟨hlisted, hpath⟩ := hin
    exact ⟨hpath, hpath ▸ hlisted⟩
  · intro h
    ext ⟨k, p⟩
    rw [hmem]
    constructor
    · intro h
      obtain ⟨g', hg', hocc, heq⟩ := h
      obtain ⟨hpath, hlisted⟩ := h g' hg' hocc
      rw [hpath] at heq
      rw [heq]
      exact ⟨hlisted, rfl⟩
    · intro h
      obtain ⟨hg, rfl⟩ := h
      obtain ⟨hocc, hpath⟩ := clearedPath_self k pid
      exact ⟨(k, groupPath pid), hg, hocc, by rw [hpath]⟩

end

/-- `clear -p 1` also deletes the group of the process 12. -/
theorem clear_one_deletes_twelve :
    handedGroups Sys.boot noFailure (clearPid 1) (World.boot.resetGroup Sys.boot .memory 12) ≠
      {g | g ∈ Sys.boot.lscgroup (World.boot.resetGroup Sys.boot .memory 12).cg ∧
        g.2 = groupPath 1} := by
  intro heq
  have hlisted : ([Controller.memory], groupPath 12) ∈
      Sys.boot.lscgroup (World.boot.resetGroup Sys.boot .memory 12).cg := by
    rw [Sys.boot.lscgroup_mem]
    refine ⟨by decide, ?_⟩
    have := group_resetGroup Sys.boot World.boot .memory 12
    exact Option.isSome_iff_exists.mpr ⟨_, this⟩
  have hin : ([Controller.memory], clearedPath ([Controller.memory], groupPath 12)) ∈
      handedGroups Sys.boot noFailure (clearPid 1)
        (World.boot.resetGroup Sys.boot .memory 12) := by
    rw [mem_handedGroups Sys.boot noFailure (clearPid 1) rfl]
    exact ⟨_, hlisted, by decide, rfl⟩
  rw [heq] at hin
  exact absurd hin.2 (by decide)

end LinuxSummary.Cgroup
