/-
  `cgroup_limit_bak.py`, the first version of the tool.

  A group is named by its limit, not by its pid: `cpu_50`, `mem_100M`, `net_5M`. So all processes
  with one limit share a group, and no group is ever deleted. The class of a `net_` group is drawn
  at random in each run.

  `main` runs the commands of `Cgroup/Tool` on the machine of `Cgroup/Host`; `tc class add` has
  other parameters here. The script checks none of its options, and neither does the machine:
  `Args.Taken` are the options that the kernel and `tc` take and the shell does not split. Over
  any sequence of such runs, what a process is held to by `cpu` and `memory` is its last run's
  (`bak_settled`), and for `net` it depends on the runs of others (`net_limited_iff`).
-/
import LinuxSummary.Cgroup.ClassId
import LinuxSummary.Cgroup.History

namespace LinuxSummary.Cgroup.Bak

/-! ## The script -/

/-- `args`; `minor_id` is the number that `randint` draws. -/
structure Args where
  cpu : Option Int
  dev : Option Text
  net : Option Text
  mem : Option Text
  pid : Nat
  minorId : Fin 0x10000

def majorId : Text := "1368".toList

/-- `'%04x' % minor_id` -/
def minorText (minorId : Nat) : Text := Numeral.padLeft 4 (Nat.toDigits 16 minorId)

/-- One limit of a run: its group, and what `cgset` writes there. -/
structure Limit where
  controller : Controller
  name : Text
  settings : List (Key × Text)
deriving DecidableEq

def cpuLimit (cpu : Int) : Limit :=
  ⟨.cpu, "cpu_".toList ++ intText cpu, [(cfsQuota, intText (cpu * 1000))]⟩

def swappiness : Key := ⟨.memory, "swappiness".toList⟩

def memLimit (mem : Text) : Limit :=
  ⟨.memory, "mem_".toList ++ mem,
    [(limitInBytes, mem.map Char.toUpper), (swappiness, "0".toList)]⟩

def netLimit (net : Text) (minorId : Nat) : Limit :=
  ⟨.netCls, "net_".toList ++ net, [(netClsClassid, classidText majorId minorId)]⟩

/-- `subprocess.call` -/
def sh (sys : Sys) (c : Cmd) (w : World) : World := (execCmd sys c w).2

/-- `cgcreate`, `cgset` and `cgclassify` of one limit. -/
def limit (sys : Sys) (l : Limit) (pid : Nat) (w : World) : World :=
  sh sys (.cgclassify l.controller l.name pid)
    (l.settings.foldl (fun w s => sh sys (.cgset s.1 s.2 l.name) w)
      (sh sys (.cgcreate l.controller l.name) w))

/-- `tc class add dev <dev> parent <parent> classid <classid> htb rate <net>bps burst <net>b`, for
    a rate that `tc` takes and a class below the root. -/
def tcClassAdd (dev parent classid net : Text) (tc : Tc) : Tc :=
  match parseMajor parent, parseClassid classid with
  | some m, some id =>
    if dev ∈ tc.ifaces ∧ tc.hasHtb dev m ∧ id.1 = m ∧ tc.classes dev id = none then
      tc.setClass dev id (some ⟨net ++ "bps".toList, some (net ++ "b".toList), none⟩)
    else tc
  | _, _ => tc

/-- The three `tc` commands of a run. -/
def shape (sys : Sys) (dev net : Text) (minorId : Nat) (w : World) : World :=
  let w := sh sys (.tcQdiscAdd dev majorId) w
  let w := { w with
    tc := tcClassAdd dev (majorId ++ [':']) (majorId ++ ':' :: minorText minorId) net w.tc }
  sh sys (.tcFilterAdd dev (majorId ++ [':'])) w

/-- Python's truth of an argument. -/
def given : Option Text → Option Text := Option.filter (· ≠ [])

/-- The limits that a run asks for, in the order of the script. -/
def Args.limits (args : Args) : List Limit :=
  ((args.cpu.filter (· ≠ 0)).map cpuLimit).toList ++ ((given args.mem).map memLimit).toList ++
    ((given args.net).map fun net => netLimit net args.minorId).toList

/-- `Use network limit -d option needed` -/
def Args.refused (args : Args) : Bool := (given args.net).isSome && (given args.dev).isNone

def main (sys : Sys) (w : World) (args : Args) : World :=
  if args.refused then w
  else
    let w := args.limits.foldl (fun w l => limit sys l args.pid w) w
    match given args.dev, given args.net with
    | some dev, some net => shape sys dev net args.minorId w
    | _, _ => w

/-- The machine behind a sequence of runs. -/
def runs (sys : Sys) (w : World) (history : List Args) : World := history.foldl (main sys) w

/-! ## One limit -/

/-- The text is one component of a path, and one line. -/
def Plain (text : Text) : Prop := '/' ∉ text ∧ '\n' ∉ text

/-- The group of a plain name, below the root. -/
def groupOf (name : Text) : Path := (Comp.ofText? name).toList

theorem parsePath_plain {name : Text} (hname : name ≠ [] ∧ Plain name) :
    parsePath name = groupOf name := by
  have hcomp : Comp.ofText? name = some ⟨name, hname.1, hname.2⟩ :=
    dif_pos ⟨hname.1, hname.2⟩
  simp only [parsePath, List.splitOn_eq_singleton hname.2.1, groupOf, hcomp,
    List.filterMap_cons, List.filterMap_nil]
  rfl

theorem groupOf_injective {a b : Text} (ha : a ≠ [] ∧ Plain a) (h : groupOf a = groupOf b) :
    a = b := by
  have hcomp : Comp.ofText? a = some ⟨a, ha.1, ha.2⟩ := dif_pos ⟨ha.1, ha.2⟩
  rw [groupOf, groupOf, hcomp] at h
  unfold Comp.ofText? at h
  split at h
  · exact congrArg Comp.text (by simpa only [Option.toList_some, List.cons.injEq, and_true] using h)
  · cases h

/-- What the limits of the script are like. -/
structure Limit.Ok (l : Limit) : Prop where
  tool : l.controller ∈ toolControllers
  name : l.name ≠ [] ∧ Plain l.name
  keys : ∀ s ∈ l.settings, s.1.controller = l.controller
  values : ∀ s ∈ l.settings, '\n' ∉ s.2
  nodup : (l.settings.map Prod.fst).Nodup

section
variable (sys : Sys) {l : Limit} (w : World) (pid : Nat)

/-- The tree that a limit leaves. -/
def Limit.tree (l : Limit) (alive : Bool) (pid : Nat) (g : Tree) : Tree :=
  let g := (g.create (groupOf l.name) sys.fresh).modify (groupOf l.name) (applyAll l.settings)
  if alive then g.move pid (groupOf l.name) else g

theorem groupOf_dropLast (name : Text) : (groupOf name).dropLast = [] := by
  unfold groupOf
  cases Comp.ofText? name <;> rfl

theorem parent_isSome (g : Tree) (name : Text) : (g.attrs (groupOf name).dropLast).isSome := by
  rw [groupOf_dropLast]
  exact g.root_mem

theorem sh_cgset {settings : List (Key × Text)} (hl : l.Ok)
    (hsub : ∀ s ∈ settings, s ∈ l.settings)
    (hgroup : ((w.cg (sys.hier l.controller)).attrs (groupOf l.name)).isSome) :
    settings.foldl (fun w s => sh sys (.cgset s.1 s.2 l.name) w) w =
      w.setTree (sys.hier l.controller)
        ((w.cg (sys.hier l.controller)).modify (groupOf l.name) (applyAll settings)) := by
  induction settings generalizing w with
  | nil =>
    show w = w.setTree _ (GroupTree.modify _ _ id)
    rw [GroupTree.modify_id, World.setTree_self]
  | cons s settings ih =>
    have hs := hsub s List.mem_cons_self
    have hone : sh sys (.cgset s.1 s.2 l.name) w = w.setTree (sys.hier l.controller)
        ((w.cg (sys.hier l.controller)).modify (groupOf l.name)
          fun a => Function.update a s.1 s.2) := by
      simp only [sh, execCmd, Cmd.isTc, Bool.false_eq_true, if_false, execCg, hl.keys s hs,
        sys.hierOf_tool hl.tool, parsePath_plain hl.name, hgroup, hl.values s hs, not_false_eq_true,
        and_self, if_true]
    rw [List.foldl_cons, hone, ih _ (fun s' hs' => hsub s' (List.mem_cons_of_mem _ hs')),
      World.setTree_cg, World.setTree_setTree, GroupTree.modify_modify]
    · rfl
    · rw [World.setTree_cg, GroupTree.modify_attrs, if_pos rfl, Option.isSome_map]
      exact hgroup

theorem limit_eq (hl : l.Ok) :
    limit sys l pid w = w.setTree (sys.hier l.controller)
      (l.tree sys (w.alive pid) pid (w.cg (sys.hier l.controller))) := by
  have hcreate : sh sys (.cgcreate l.controller l.name) w = w.setTree (sys.hier l.controller)
      ((w.cg (sys.hier l.controller)).create (groupOf l.name) sys.fresh) := by
    simp only [sh, execCmd, Cmd.isTc, Bool.false_eq_true, if_false, execCg,
      sys.hierOf_tool hl.tool, parsePath_plain hl.name]
  have hgroup := GroupTree.create_isSome (w.cg (sys.hier l.controller))
    (parent_isSome (w.cg (sys.hier l.controller)) l.name) sys.fresh
  rw [limit, hcreate, sh_cgset sys _ hl (fun _ hs => hs)
    (by rw [World.setTree_cg]; exact hgroup), World.setTree_cg, World.setTree_setTree]
  have hset : (((w.cg (sys.hier l.controller)).create (groupOf l.name) sys.fresh).modify
      (groupOf l.name) (applyAll l.settings)).attrs (groupOf l.name) |>.isSome := by
    rw [GroupTree.modify_attrs, if_pos rfl, Option.isSome_map]
    exact hgroup
  have halive (t : Tree) : (w.setTree (sys.hier l.controller) t).alive pid = w.alive pid := rfl
  simp only [sh, execCmd, Cmd.isTc, Bool.false_eq_true, if_false, execCg,
    sys.hierOf_tool hl.tool, parsePath_plain hl.name, World.setTree_cg, hset, halive, true_and,
    World.setTree_setTree, Limit.tree]
  split <;> rfl

theorem Limit.tree_attrs (alive : Bool) (g : Tree) (q : Path) :
    (l.tree sys alive pid g).attrs q =
      if q = groupOf l.name then
        some (applyAll l.settings ((g.attrs (groupOf l.name)).getD sys.fresh))
      else g.attrs q := by
  have hcreate := g.create_attrs (parent_isSome g l.name) sys.fresh
  unfold Limit.tree
  by_cases hq : q = groupOf l.name
  · cases alive <;> simp [hq, GroupTree.modify_attrs, hcreate]
  · cases alive <;> simp [hq, GroupTree.modify_attrs, hcreate]

theorem Limit.tree_loc (alive : Bool) (g : Tree) (t : Nat) :
    (l.tree sys alive pid g).loc t =
      if t = pid ∧ alive = true then groupOf l.name else g.loc t := by
  unfold Limit.tree
  cases alive with
  | false => simp
  | true =>
    have hgroup : (((g.create (groupOf l.name) sys.fresh).modify (groupOf l.name)
        (applyAll l.settings)).attrs (groupOf l.name)).isSome := by
      rw [GroupTree.modify_attrs, if_pos rfl, Option.isSome_map]
      exact g.create_isSome (parent_isSome g l.name) sys.fresh
    simp only [if_true, GroupTree.move_loc _ hgroup, GroupTree.modify_loc, GroupTree.create_loc,
      Function.update_apply, and_true]

end

/-! ## A sequence of runs, one controller at a time -/

/-- What a run asks of a controller. -/
def asked (c : Controller) (args : Args) : Option Limit :=
  if args.refused then none else args.limits.find? (·.controller = c)

/-- What the runs ask of a controller, and for which process. -/
def asks (c : Controller) (history : List Args) : List (Limit × Nat) :=
  history.filterMap fun args => (asked c args).map (·, args.pid)

theorem asks_append (c : Controller) (history : List Args) (args : Args) :
    asks c (history ++ [args]) =
      asks c history ++ ((asked c args).map (·, args.pid)).toList := by
  rw [asks, List.filterMap_append]
  cases h : asked c args <;> simp [asks, h]

/-- The last of them that is meant. -/
def last (p : Limit × Nat → Bool) (es : List (Limit × Nat)) : Option (Limit × Nat) :=
  (es.filter p).getLast?

theorem last_append (p : Limit × Nat → Bool) (es : List (Limit × Nat)) (e : Limit × Nat) :
    last p (es ++ [e]) = if p e then some e else last p es := by
  unfold last
  rw [List.filter_append]
  cases h : p e <;> simp [h]

section
variable (sys : Sys) (alive : Nat → Bool)

/-- The tree of a controller behind what was asked of it. -/
def replay (g : Tree) (es : List (Limit × Nat)) : Tree :=
  es.foldl (fun g e => e.1.tree sys (alive e.2) e.2 g) g

theorem replay_append (g : Tree) (es : List (Limit × Nat)) (e : Limit × Nat) :
    replay sys alive g (es ++ [e]) = e.1.tree sys (alive e.2) e.2 (replay sys alive g es) := by
  unfold replay
  rw [List.foldl_append]
  rfl

/-- A process stands in the group of the last limit that was asked for it. -/
theorem replay_loc (g : Tree) (es : List (Limit × Nat)) {t : Nat} (halive : alive t = true) :
    (replay sys alive g es).loc t =
      match last (·.2 = t) es with
      | some e => groupOf e.1.name
      | none => g.loc t := by
  induction es using List.reverseRecOn with
  | nil => rfl
  | append_singleton es e ih =>
    rw [replay_append, Limit.tree_loc, last_append, ih]
    by_cases he : e.2 = t
    · subst he
      simp [halive]
    · simp [he, Ne.symm he]

/-- A group holds the settings of the last limit that has its name. -/
theorem replay_attrs (g : Tree) (es : List (Limit × Nat)) (hes : ∀ e ∈ es, e.1.Ok) {name : Text}
    {e : Limit × Nat} (hlast : last (·.1.name = name) es = some e) :
    ∃ a, (replay sys alive g es).attrs (groupOf name) = some a ∧
      ∀ s ∈ e.1.settings, a s.1 = s.2 := by
  induction es using List.reverseRecOn with
  | nil => cases hlast
  | append_singleton es e' ih =>
    have hok := hes e' (by simp)
    rw [last_append] at hlast
    rw [replay_append, Limit.tree_attrs]
    by_cases hname : e'.1.name = name
    · subst hname
      obtain rfl : e' = e := by simpa using hlast
      rw [if_pos rfl]
      exact ⟨_, rfl, fun s hs => applyAll_of_mem hok.nodup hs _⟩
    · have hne : groupOf name ≠ groupOf e'.1.name := fun h =>
        hname (groupOf_injective hok.name h.symm)
      rw [if_neg hne]
      exact ih (fun e he => hes e (List.mem_append_left _ he)) (by simpa [hname] using hlast)

end

/-! ## The limits of a run -/

/-- A character of a name that the shell leaves alone. -/
def isNameChar (c : Char) : Bool := c.isAlphanum || ['-', '_', '.'].contains c

/-- What is written to `cpu.cfs_quota_us` is a quota, sizes are digits with at most one unit, and
    for `net` a rate of less than 4 GiB, and of more than nothing, in a class below the root. -/
structure Args.Taken (args : Args) : Prop where
  cpu : ∀ cpu ∈ args.cpu, 0 ≤ cpu ∧ cpu * 1000 < 2 ^ 44
  mem : ∀ mem ∈ given args.mem, ∃ n, Denotes mem n
  net : ∀ net ∈ given args.net, (∃ n, Denotes net n ∧ 0 < n ∧ n < 2 ^ 32) ∧
    0 < args.minorId.val
  dev : ∀ dev ∈ given args.dev, ∀ c ∈ dev, isNameChar c = true

theorem plain_of_denotes {text : Text} {n : Nat} (h : Denotes text n) : Plain text := by
  obtain ⟨ds, u, rfl, -, hds, hu, -⟩ := h
  have hno : ∀ c, isDec c = false → isUnit c = false → c ∉ ds ++ u.toList := by
    intro c hdec hunit hc
    rcases List.mem_append.mp hc with hc | hc
    · exact absurd (hdec.symm.trans (hds c hc)) (by decide)
    · exact absurd (hunit.symm.trans (hu c (Option.mem_toList.mp hc))) (by decide)
  exact ⟨hno '/' rfl rfl, hno '\n' rfl rfl⟩

theorem newline_of_toUpper {c : Char} (h : c.toUpper = '\n') : c = '\n' := by
  unfold Char.toUpper at h
  split at h
  · next hlower =>
    have hval := congrArg (fun c => c.val.toNat) h
    have hle : 97 ≤ c.toNat ∧ c.toNat ≤ 122 := hlower
    simp only [UInt32.toNat_add, Char.toNat_val, Char.reduceVal, UInt32.reduceSub,
      UInt32.reduceToNat, Nat.reducePow] at hval
    omega
  · exact h

theorem ok_cpuLimit (cpu : Int) : (cpuLimit cpu).Ok := by
  refine ⟨by simp [cpuLimit, toolControllers], ⟨by simp [cpuLimit], ?_, ?_⟩, ?_, ?_, ?_⟩
  · simp [cpuLimit, not_mem_intText (c := '/') (by decide) (by decide)]
  · simp [cpuLimit, not_mem_intText (c := '\n') (by decide) (by decide)]
  · simp [cpuLimit, cfsQuota]
  · simp [cpuLimit, not_mem_intText (c := '\n') (by decide) (by decide)]
  · simp [cpuLimit]

theorem ok_memLimit {mem : Text} (h : Plain mem) : (memLimit mem).Ok := by
  refine ⟨by simp [memLimit, toolControllers], ⟨by simp [memLimit], ?_, ?_⟩, ?_, ?_, ?_⟩
  · simp [memLimit, h.1]
  · simp [memLimit, h.2]
  · simp [memLimit, limitInBytes, swappiness]
  · simp only [memLimit, List.forall_mem_cons, List.mem_map, List.not_mem_nil, false_implies,
      implies_true, and_true]
    refine ⟨?_, by decide⟩
    rintro ⟨c, hc, hup⟩
    exact h.2 (newline_of_toUpper hup ▸ hc)
  · simp [memLimit, limitInBytes, swappiness]

theorem ok_netLimit {net : Text} (h : Plain net) (minorId : Nat) : (netLimit net minorId).Ok := by
  refine ⟨by simp [netLimit, toolControllers], ⟨by simp [netLimit], ?_, ?_⟩, ?_, ?_, ?_⟩
  · simp [netLimit, h.1]
  · simp [netLimit, h.2]
  · simp [netLimit, netClsClassid]
  · have hminor : '\n' ∉ minorText minorId := fun hmem =>
      absurd (List.all_eq_true.mp (Numeral.padLeft_all (by decide) 4
        (Numeral.toDigits_all (by decide) (by decide) minorId)) _ hmem) (by decide)
    have hmajor : '\n' ∉ "0x".toList ++ majorId := by decide
    simp only [netLimit, classidText, List.forall_mem_singleton]
    exact List.mem_append.not.mpr (not_or.mpr ⟨hmajor, hminor⟩)
  · simp [netLimit]

theorem mem_limits {args : Args} {l : Limit} (hl : l ∈ args.limits) :
    (∃ cpu, l = cpuLimit cpu) ∨ (∃ mem, given args.mem = some mem ∧ l = memLimit mem) ∨
      ∃ net, given args.net = some net ∧ l = netLimit net args.minorId := by
  simp only [Args.limits, List.mem_append, Option.mem_toList, Option.map_eq_some_iff] at hl
  rcases hl with (⟨cpu, -, rfl⟩ | ⟨mem, hmem, rfl⟩) | ⟨net, hnet, rfl⟩
  · exact .inl ⟨cpu, rfl⟩
  · exact .inr (.inl ⟨mem, hmem, rfl⟩)
  · exact .inr (.inr ⟨net, hnet, rfl⟩)

theorem limits_ok {args : Args} (h : args.Taken) : ∀ l ∈ args.limits, l.Ok := by
  intro l hl
  rcases mem_limits hl with ⟨cpu, rfl⟩ | ⟨mem, hmem, rfl⟩ | ⟨net, hnet, rfl⟩
  · exact ok_cpuLimit cpu
  · obtain ⟨n, hn⟩ := h.mem mem hmem
    exact ok_memLimit (plain_of_denotes hn)
  · obtain ⟨⟨n, hn, -⟩, -⟩ := h.net net hnet
    exact ok_netLimit (plain_of_denotes hn) _

theorem limits_nodup (args : Args) : (args.limits.map (·.controller)).Nodup := by
  unfold Args.limits
  cases args.cpu.filter (· ≠ 0) <;> cases given args.mem <;> cases given args.net <;>
    simp [cpuLimit, memLimit, netLimit]

/-- Each limit of a run acts on the tree of its controller alone. -/
theorem limits_cg {sys : Sys} (hsep : sys.Separate) {c : Controller} (hc : c ∈ toolControllers)
    (pid : Nat) {ls : List Limit} (hls : ∀ l ∈ ls, l.Ok)
    (hnodup : (ls.map (·.controller)).Nodup) (w : World) :
    (ls.foldl (fun w l => limit sys l pid w) w).procs = w.procs ∧
    (ls.foldl (fun w l => limit sys l pid w) w).tc = w.tc ∧
    (ls.foldl (fun w l => limit sys l pid w) w).cg (sys.hier c) =
      match ls.find? (·.controller = c) with
      | some l => l.tree sys (w.alive pid) pid (w.cg (sys.hier c))
      | none => w.cg (sys.hier c) := by
  induction ls generalizing w with
  | nil => exact ⟨rfl, rfl, rfl⟩
  | cons l ls ih =>
    obtain ⟨hfirst, hrest⟩ := List.nodup_cons.mp hnodup
    have hl := hls l List.mem_cons_self
    obtain ⟨hprocs, htc, hcg⟩ := ih (fun l' hl' => hls l' (List.mem_cons_of_mem _ hl')) hrest
      (limit sys l pid w)
    have halive : (limit sys l pid w).alive pid = w.alive pid := by
      rw [limit_eq sys w pid hl]
      rfl
    rw [List.foldl_cons, hprocs, htc, hcg, halive, limit_eq sys w pid hl]
    refine ⟨rfl, rfl, ?_⟩
    by_cases hlc : l.controller = c
    · subst hlc
      have hnone : ls.find? (·.controller = l.controller) = none := by
        rw [List.find?_eq_none]
        intro l' hl' heq
        exact hfirst (List.mem_map.mpr ⟨l', hl', of_decide_eq_true heq⟩)
      rw [hnone, World.setTree_cg, List.find?_cons_of_pos (by simp)]
    · have hne : sys.hier c ≠ sys.hier l.controller := fun h =>
        hlc (hsep c hc l.controller hl.tool h).symm
      rw [World.setTree_cg_of_ne _ hne, List.find?_cons_of_neg (by simpa using hlc)]

theorem main_tree {sys : Sys} (hsep : sys.Separate) {c : Controller} (hc : c ∈ toolControllers)
    {args : Args} (htaken : args.Taken) (w : World) :
    (main sys w args).procs = w.procs ∧
    (main sys w args).cg (sys.hier c) =
      match asked c args with
      | some l => l.tree sys (w.alive args.pid) args.pid (w.cg (sys.hier c))
      | none => w.cg (sys.hier c) := by
  obtain ⟨hprocs, -, hcg⟩ := limits_cg hsep hc args.pid (limits_ok htaken) (limits_nodup args) w
  unfold main asked
  split
  · exact ⟨rfl, rfl⟩
  · rw [← hcg, ← hprocs]
    split <;> exact ⟨rfl, rfl⟩

/-- **The tree of a controller is what was asked of it, one after another.** -/
theorem runs_tree {sys : Sys} (hsep : sys.Separate) {c : Controller} (hc : c ∈ toolControllers)
    {history : List Args} (htaken : ∀ args ∈ history, args.Taken) (w : World) :
    (runs sys w history).procs = w.procs ∧
    (runs sys w history).cg (sys.hier c) =
      replay sys w.alive (w.cg (sys.hier c)) (asks c history) := by
  induction history using List.reverseRecOn with
  | nil => exact ⟨rfl, rfl⟩
  | append_singleton history args ih =>
    obtain ⟨hprocs, hcg⟩ := ih fun args' h => htaken args' (List.mem_append_left _ h)
    obtain ⟨hprocs', hcg'⟩ := main_tree hsep hc (htaken args (by simp)) (runs sys w history)
    have hruns : runs sys w (history ++ [args]) = main sys (runs sys w history) args := by
      rw [runs, List.foldl_append]
      rfl
    have halive : (runs sys w history).alive = w.alive := by
      funext t
      rw [World.alive, World.alive, hprocs]
    rw [hruns, hprocs', hcg', hcg, halive, asks_append]
    refine ⟨hprocs, ?_⟩
    cases asked c args with
    | none => simp
    | some l => exact (replay_append sys w.alive _ _ (l, args.pid)).symm

theorem mem_asks {c : Controller} {history : List Args} {e : Limit × Nat}
    (he : e ∈ asks c history) :
    ∃ args ∈ history, args.refused = false ∧ e.1 ∈ args.limits ∧ e.1.controller = c ∧
      e.2 = args.pid := by
  obtain ⟨args, hargs, hasked⟩ := List.mem_filterMap.mp he
  obtain ⟨l, hl, rfl⟩ := Option.map_eq_some_iff.mp hasked
  unfold asked at hl
  split at hl
  · cases hl
  · next hrefused =>
    have hctl := List.find?_some hl
    exact ⟨args, hargs, by simpa using hrefused, List.mem_of_find?_eq_some hl,
      of_decide_eq_true hctl, rfl⟩

theorem ok_of_mem_asks {c : Controller} {history : List Args}
    (htaken : ∀ args ∈ history, args.Taken) : ∀ e ∈ asks c history, e.1.Ok := by
  intro e he
  obtain ⟨args, hargs, -, hl, -⟩ := mem_asks he
  exact limits_ok (htaken args hargs) _ hl

/-! ## `cpu` and `memory` -/

/-- The process stands in the group of the limit, and the group has its settings. -/
def Held (sys : Sys) (w : World) (pid : Nat) (l : Limit) : Prop :=
  (w.cg (sys.hier l.controller)).loc pid = groupOf l.name ∧
    ∃ a, (w.cg (sys.hier l.controller)).attrs (groupOf l.name) = some a ∧
      ∀ s ∈ l.settings, a s.1 = s.2

theorem separate_boot : Sys.boot.Separate := by
  unfold Sys.Separate
  decide +kernel

/-- A run with a speed. -/
structure NetRun where
  pid : Nat
  dev : Text
  net : Text
  minorId : Nat
deriving DecidableEq

def netRun (args : Args) : Option NetRun :=
  if args.refused then none
  else
    match given args.dev, given args.net with
    | some dev, some net => some ⟨args.pid, dev, net, args.minorId⟩
    | _, _ => none

def netRuns (history : List Args) : List NetRun := history.filterMap netRun

theorem netRuns_append (history : List Args) (args : Args) :
    netRuns (history ++ [args]) = netRuns history ++ (netRun args).toList := by
  rw [netRuns, List.filterMap_append]
  cases h : netRun args <;> simp [netRuns, h]

theorem asked_net (args : Args) :
    asked .netCls args = (netRun args).map fun r => netLimit r.net r.minorId := by
  unfold asked netRun
  split
  · rfl
  · next hrefused =>
    have hfind : args.limits.find? (·.controller = .netCls) =
        (given args.net).map fun net => netLimit net args.minorId := by
      unfold Args.limits
      cases args.cpu.filter (· ≠ 0) <;> cases given args.mem <;> cases given args.net <;>
        simp [cpuLimit, memLimit, netLimit]
    rw [hfind]
    cases hnet : given args.net with
    | none => cases given args.dev <;> rfl
    | some net =>
      cases hdev : given args.dev with
      | none => simp [Args.refused, hnet, hdev] at hrefused
      | some dev => rfl

theorem asks_net (history : List Args) :
    asks .netCls history =
      (netRuns history).map fun r => (netLimit r.net r.minorId, r.pid) := by
  unfold asks netRuns
  rw [List.map_filterMap]
  refine List.filterMap_congr fun args _ => ?_
  rw [asked_net]
  unfold netRun
  split
  · rfl
  · split <;> rfl

/-- What `tc class add` sets. -/
def classParams (net : Text) : HtbParams := ⟨net ++ "bps".toList, some (net ++ "b".toList), none⟩

/-- `0x1368` -/
def major : Nat := Numeral.value 16 majorId

theorem isMajor_1368 : IsMajor majorId where
  ne := by decide
  dec := List.all_eq_true.mp (show majorId.all isDec = true from rfl)
  lt := by decide

theorem parseClassid_minor {minorId : Nat} (h : minorId < 65536) :
    parseClassid (majorId ++ ':' :: minorText minorId) = some (major, minorId) := by
  have hall : (minorText minorId).all (Numeral.isDigitOf 16) = true :=
    Numeral.padLeft_all (by decide) 4 (Numeral.toDigits_all (by decide) (by decide) minorId)
  have hx : ¬ "0x".toList <+: minorText minorId := fun hpre =>
    absurd (List.all_eq_true.mp hall 'x' (hpre.subset (by decide))) (by decide)
  have hne : minorText minorId ≠ [] := by simp [minorText, Numeral.padLeft]
  have hminor : parseHex (minorText minorId) = some minorId := by
    rw [parseHex, if_neg hx, Numeral.readDigits, if_pos ⟨hne, hall⟩, minorText,
      Numeral.value_padLeft, Numeral.value_toDigits (by decide) (by decide)]
  obtain ⟨h1, h2⟩ := takeWhile_colon (b := minorText minorId) isMajor_1368.colon_not_mem
  rw [parseClassid, h1, h2, isMajor_1368.parseHex, hminor]
  simp only [isMajor_1368.lt, h, and_self, if_true]
  rfl

/-- The root that a run adds where there is none. -/
def rooted (dev : Text) (tc : Tc) : Tc :=
  if dev ∈ tc.ifaces ∧ tc.hasRoot dev = false then tc.setRoot dev (htbRoot major isMajor_1368.lt)
  else tc

theorem exec_tcQdiscAdd (sys : Sys) (dev : Text) (tc : Tc) :
    (execTc sys (.tcQdiscAdd dev majorId) tc).2 = rooted dev tc := by
  simp only [execTc, isMajor_1368.parseHex, rooted]
  by_cases h : dev ∈ tc.ifaces ∧ tc.hasRoot dev = false
  · rw [dif_pos ⟨isMajor_1368.lt, h⟩, if_pos h]
    rfl
  · rw [dif_neg fun h' => h h'.2, if_neg h]

/-- The traffic control behind a run. -/
def shapeTc (sys : Sys) (r : NetRun) (tc : Tc) : Tc :=
  (execTc sys (.tcFilterAdd r.dev (majorId ++ [':']))
    (tcClassAdd r.dev (majorId ++ [':']) (majorId ++ ':' :: minorText r.minorId) r.net
      (execTc sys (.tcQdiscAdd r.dev majorId) tc).2)).2

theorem exec_tcFilterAdd (sys : Sys) (dev : Text) (tc : Tc) :
    (execTc sys (.tcFilterAdd dev (majorId ++ [':'])) tc).2.ifaces = tc.ifaces ∧
    (execTc sys (.tcFilterAdd dev (majorId ++ [':'])) tc).2.qdiscs = tc.qdiscs ∧
    (execTc sys (.tcFilterAdd dev (majorId ++ [':'])) tc).2.classes = tc.classes := by
  simp only [execTc, isMajor_1368.parseMajor]
  split <;> exact ⟨rfl, rfl, rfl⟩

theorem tcClassAdd_eq {r : NetRun} (hr : r.minorId < 65536) (tc : Tc) :
    tcClassAdd r.dev (majorId ++ [':']) (majorId ++ ':' :: minorText r.minorId) r.net tc =
      if r.dev ∈ tc.ifaces ∧ tc.hasHtb r.dev major ∧ tc.classes r.dev (major, r.minorId) = none
      then tc.setClass r.dev (major, r.minorId) (some (classParams r.net)) else tc := by
  simp only [tcClassAdd, isMajor_1368.parseMajor, parseClassid_minor hr]
  rw [show Numeral.value 16 majorId = major from rfl]
  simp only [true_and]
  rfl

theorem shapeTc_ifaces (sys : Sys) {r : NetRun} (hr : r.minorId < 65536) (tc : Tc) :
    (shapeTc sys r tc).ifaces = tc.ifaces := by
  rw [shapeTc, (exec_tcFilterAdd sys _ _).1, tcClassAdd_eq hr, exec_tcQdiscAdd]
  unfold rooted
  split <;> split <;> rfl

theorem shapeTc_qdiscs (sys : Sys) {r : NetRun} (hr : r.minorId < 65536) (tc : Tc) :
    (shapeTc sys r tc).qdiscs = (rooted r.dev tc).qdiscs := by
  rw [shapeTc, (exec_tcFilterAdd sys _ _).2.1, tcClassAdd_eq hr, exec_tcQdiscAdd]
  split <;> rfl

theorem shapeTc_classes (sys : Sys) {r : NetRun} (hr : r.minorId < 65536) (tc : Tc) :
    (shapeTc sys r tc).classes =
      if r.dev ∈ (rooted r.dev tc).ifaces ∧ (rooted r.dev tc).hasHtb r.dev major ∧
          (rooted r.dev tc).classes r.dev (major, r.minorId) = none then
        ((rooted r.dev tc).setClass r.dev (major, r.minorId) (some (classParams r.net))).classes
      else (rooted r.dev tc).classes := by
  rw [shapeTc, (exec_tcFilterAdd sys _ _).2.2, tcClassAdd_eq hr, exec_tcQdiscAdd]
  split <;> rfl

/-- The first run that asked for the class. -/
def firstFor (dev : Text) (minorId : Nat) (rs : List NetRun) : Option NetRun :=
  rs.find? fun r => r.dev = dev ∧ r.minorId = minorId

/-- The interface behind a sequence of runs: as it was while no run is for it, then with the root
    of the script and the class of the first run for each number. -/
structure Shaped (dev : Text) (rs : List NetRun) (tc : Tc) : Prop where
  iface : dev ∈ tc.ifaces
  fresh : (∀ r ∈ rs, r.dev ≠ dev) → tc.hasRoot dev = false
  root : (∃ r ∈ rs, r.dev = dev) → tc.hasRoot dev = true ∧ tc.hasHtb dev major = true
  classes : (∃ r ∈ rs, r.dev = dev) → ∀ minorId,
    tc.classes dev (major, minorId) = (firstFor dev minorId rs).map fun r => classParams r.net

theorem rooted_of_ne {dev dev' : Text} (h : dev ≠ dev') (tc : Tc) :
    (rooted dev' tc).qdiscs dev = tc.qdiscs dev ∧
      (rooted dev' tc).classes dev = tc.classes dev := by
  unfold rooted
  split
  · exact ⟨Function.update_of_ne h .., Function.update_of_ne h ..⟩
  · exact ⟨rfl, rfl⟩

theorem firstFor_none {dev : Text} {rs : List NetRun} (h : ∀ r ∈ rs, r.dev ≠ dev)
    (minorId : Nat) : firstFor dev minorId rs = none := by
  rw [firstFor, List.find?_eq_none]
  intro r hr
  simp [h r hr]

theorem firstFor_append (dev : Text) (minorId : Nat) (rs : List NetRun) (r : NetRun) :
    firstFor dev minorId (rs ++ [r]) =
      (firstFor dev minorId rs).or
        (if r.dev = dev ∧ r.minorId = minorId then some r else none) := by
  rw [firstFor, List.find?_append]
  congr 1
  by_cases h : r.dev = dev ∧ r.minorId = minorId <;> simp [h]

/-- Behind `tc qdisc add` the root is there, and the classes are those of the runs before. -/
theorem rooted_spec {dev : Text} {rs : List NetRun} {tc : Tc} (hs : Shaped dev rs tc) :
    (rooted dev tc).ifaces = tc.ifaces ∧ (rooted dev tc).hasRoot dev = true ∧
      (rooted dev tc).hasHtb dev major = true ∧ ∀ minorId,
        (rooted dev tc).classes dev (major, minorId) =
          (firstFor dev minorId rs).map fun r => classParams r.net := by
  by_cases hany : ∃ r ∈ rs, r.dev = dev
  · obtain ⟨hroot, hhtb⟩ := hs.root hany
    have hsame : rooted dev tc = tc := if_neg fun h => by simp [hroot] at h
    rw [hsame]
    exact ⟨rfl, hroot, hhtb, hs.classes hany⟩
  · have hnone : ∀ r ∈ rs, r.dev ≠ dev := fun r hr hdev => hany ⟨r, hr, hdev⟩
    have hnew : rooted dev tc = tc.setRoot dev (htbRoot major isMajor_1368.lt) :=
      if_pos ⟨hs.iface, hs.fresh hnone⟩
    have hmajor : major ≠ 0 := by decide
    rw [hnew]
    refine ⟨rfl, ?_, ?_, fun minorId => ?_⟩
    · simp [Tc.hasRoot, Tc.setRoot, htbRoot, hmajor]
    · simp [Tc.hasHtb, Tc.setRoot, htbRoot]
    · simp [Tc.setRoot, firstFor_none hnone]

theorem shaped_step (sys : Sys) {dev : Text} {rs : List NetRun} {tc : Tc} {r : NetRun}
    (hr : r.minorId < 65536) (hs : Shaped dev rs tc) :
    Shaped dev (rs ++ [r]) (shapeTc sys r tc) := by
  by_cases hdev : r.dev = dev
  · subst hdev
    obtain ⟨hifaces, hroot, hhtb, hclasses⟩ := rooted_spec hs
    refine ⟨?_, fun h => absurd rfl (h r (by simp)), fun _ => ⟨?_, ?_⟩, fun _ minorId => ?_⟩
    · rw [shapeTc_ifaces sys hr]
      exact hs.iface
    · rw [Tc.hasRoot, shapeTc_qdiscs sys hr]
      exact hroot
    · rw [Tc.hasHtb, shapeTc_qdiscs sys hr]
      exact hhtb
    · rw [shapeTc_classes sys hr, hifaces, hhtb, hclasses, firstFor_append]
      cases hfirst : firstFor r.dev r.minorId rs with
      | some first =>
        rw [if_neg (by simp), hclasses]
        by_cases hm : r.minorId = minorId
        · simp [← hm, hfirst]
        · simp [hm]
      | none =>
        rw [if_pos ⟨hs.iface, rfl, rfl⟩]
        by_cases hm : r.minorId = minorId
        · simp [Tc.setClass, ← hm, hfirst]
        · have hne : (major, minorId) ≠ (major, r.minorId) := fun h =>
            hm (congrArg Prod.snd h).symm
          simp [Tc.setClass, hne, hm, hclasses]
  · have hne : dev ≠ r.dev := Ne.symm hdev
    have hq : (shapeTc sys r tc).qdiscs dev = tc.qdiscs dev := by
      rw [shapeTc_qdiscs sys hr]
      exact (rooted_of_ne hne tc).1
    have hcl : (shapeTc sys r tc).classes dev = tc.classes dev := by
      rw [shapeTc_classes sys hr, ← (rooted_of_ne hne tc).2]
      split
      · exact Function.update_of_ne hne ..
      · rfl
    have hany : (∃ r' ∈ rs ++ [r], r'.dev = dev) → ∃ r' ∈ rs, r'.dev = dev := by
      rintro ⟨r', hr', hdev'⟩
      rcases List.mem_append.mp hr' with h | h
      · exact ⟨r', h, hdev'⟩
      · rw [List.mem_singleton.mp h] at hdev'
        exact absurd hdev' hdev
    refine ⟨?_, fun h => ?_, fun h => ?_, fun h minorId => ?_⟩
    · rw [shapeTc_ifaces sys hr]
      exact hs.iface
    · rw [Tc.hasRoot, hq]
      exact hs.fresh fun r' hr' => h r' (List.mem_append_left _ hr')
    · rw [Tc.hasRoot, Tc.hasHtb, hq]
      exact hs.root (hany h)
    · rw [hcl, hs.classes (hany h), firstFor_append]
      simp [hdev]

theorem main_tc {sys : Sys} (hsep : sys.Separate) {args : Args} (htaken : args.Taken) (w : World) :
    (main sys w args).tc = ((netRun args).map fun r => shapeTc sys r w.tc).getD w.tc := by
  obtain ⟨-, htc, -⟩ := limits_cg hsep (c := .cpu) (by decide) args.pid (limits_ok htaken)
    (limits_nodup args) w
  unfold main netRun
  split
  · rfl
  · cases given args.dev with
    | none => exact htc
    | some dev =>
      cases given args.net with
      | none => exact htc
      | some net =>
        show (shape sys dev net args.minorId _).tc = shapeTc sys _ w.tc
        rw [← htc]
        rfl

theorem minor_lt_of_netRun {args : Args} {r : NetRun} (h : netRun args = some r) :
    r.minorId < 65536 := by
  unfold netRun at h
  split at h
  · cases h
  · split at h
    · cases h
      exact args.minorId.isLt
    · cases h

theorem minor_lt_of_mem {history : List Args} {r : NetRun} (h : r ∈ netRuns history) :
    r.minorId < 65536 := by
  obtain ⟨args, -, hrun⟩ := List.mem_filterMap.mp h
  exact minor_lt_of_netRun hrun

theorem shaped_runs {sys : Sys} (hsep : sys.Separate) {dev : Text} {w : World}
    (hdev : dev ∈ w.tc.ifaces) (hroot : w.tc.hasRoot dev = false) {history : List Args}
    (htaken : ∀ args ∈ history, args.Taken) :
    Shaped dev (netRuns history) (runs sys w history).tc := by
  induction history using List.reverseRecOn with
  | nil =>
    exact ⟨hdev, fun _ => hroot, fun ⟨_, h, _⟩ => absurd h (by simp [netRuns]),
      fun ⟨_, h, _⟩ => absurd h (by simp [netRuns])⟩
  | append_singleton history args ih =>
    have hs := ih fun args' h => htaken args' (List.mem_append_left _ h)
    have hruns : runs sys w (history ++ [args]) = main sys (runs sys w history) args := by
      rw [runs, List.foldl_append]
      rfl
    rw [hruns, main_tc hsep (htaken args (by simp)), netRuns_append]
    cases hrun : netRun args with
    | none => simpa using hs
    | some r => exact shaped_step sys (minor_lt_of_netRun hrun) hs

/-- A process is in a class of the interface that has the rate. -/
def Limited (sys : Sys) (w : World) (pid : Nat) (dev net : Text) : Prop :=
  ∃ a id, (w.cg (sys.hier .netCls)).attrs ((w.cg (sys.hier .netCls)).loc pid) = some a ∧
    readClassid (a netClsClassid) = some id ∧ w.tc.classes dev id = some (classParams net)

theorem classParams_injective : Function.Injective classParams := fun _ _ h =>
  List.append_cancel_right (HtbParams.mk.inj h).1

/-- The last run for a process, and the last run for a rate. -/
def lastRun (pid : Nat) (rs : List NetRun) : Option NetRun := (rs.filter (·.pid = pid)).getLast?
def lastRate (net : Text) (rs : List NetRun) : Option NetRun := (rs.filter (·.net = net)).getLast?

theorem last_map (p : Limit × Nat → Bool) (f : NetRun → Limit × Nat) (rs : List NetRun) :
    last p (rs.map f) = ((rs.filter (p ∘ f)).getLast?).map f := by
  rw [last, List.filter_map, List.getLast?_map]

/-- **A process is limited to the rate of its last run exactly when the class that the last run for
    this rate drew, for whatever process and interface, was on its own interface first drawn for
    this rate.** -/
theorem net_limited_iff (sys : Sys) (hsep : sys.Separate) (w : World) (history : List Args)
    (htaken : ∀ args ∈ history, args.Taken) (r : NetRun) (halive : w.alive r.pid = true)
    (hlast : lastRun r.pid (netRuns history) = some r) (hdev : r.dev ∈ w.tc.ifaces)
    (hroot : w.tc.hasRoot r.dev = false) :
    ∃ s, lastRate r.net (netRuns history) = some s ∧
      (Limited sys (runs sys w history) r.pid r.dev r.net ↔
        ∃ first, firstFor r.dev s.minorId (netRuns history) = some first ∧
          first.net = r.net) := by
  have htool : (Controller.netCls) ∈ toolControllers := by decide
  obtain ⟨-, hcg⟩ := runs_tree hsep htool htaken w
  have hshaped := shaped_runs hsep hdev hroot htaken
  obtain ⟨hmem, -⟩ := List.mem_filter.mp (List.mem_of_getLast? hlast)
  have hok := ok_of_mem_asks (c := .netCls) htaken
  -- the process stands in the group of its rate
  have hloc := replay_loc sys w.alive (w.cg (sys.hier .netCls)) (asks .netCls history) halive
  have hlast' : last (·.2 = r.pid) (asks .netCls history) =
      some (netLimit r.net r.minorId, r.pid) := by
    rw [asks_net, last_map]
    exact congrArg (Option.map _) hlast
  rw [hlast'] at hloc
  -- whose class is the last that was drawn for it
  obtain ⟨s, hs⟩ : ∃ s, lastRate r.net (netRuns history) = some s := by
    rw [← Option.isSome_iff_exists, lastRate, List.getLast?_isSome]
    exact List.ne_nil_of_mem (List.mem_filter.mpr ⟨hmem, by simp⟩)
  obtain ⟨hmems, hnet⟩ := List.mem_filter.mp (List.mem_of_getLast? hs)
  have hnet : s.net = r.net := of_decide_eq_true hnet
  have hname : last (·.1.name = (netLimit r.net r.minorId).name) (asks .netCls history) =
      some (netLimit s.net s.minorId, s.pid) := by
    have hfilter (rs : List NetRun) :
        rs.filter ((·.1.name = (netLimit r.net r.minorId).name) ∘
          fun r => (netLimit r.net r.minorId, r.pid)) = rs.filter (·.net = r.net) :=
      List.filter_congr fun _ _ => by simp [netLimit]
    rw [asks_net, last_map]
    exact congrArg (Option.map _) ((congrArg _ (hfilter _)).trans hs)
  obtain ⟨a, hattrs, hset⟩ := replay_attrs sys w.alive (w.cg (sys.hier .netCls))
    (asks .netCls history) hok hname
  have hread : readClassid (a netClsClassid) = some (major, s.minorId) := by
    rw [hset _ (List.mem_singleton_self _)]
    exact readClassid_small isMajor_1368 (minor_lt_of_mem hmems)
  -- and the class of this number is the first that was added
  have hclass := hshaped.classes ⟨r, hmem, rfl⟩ s.minorId
  refine ⟨s, hs, ?_⟩
  rw [Limited, hcg, hloc, hattrs]
  constructor
  · rintro ⟨a', id, ha, hid, hparams⟩
    cases ha
    rw [hread] at hid
    cases hid
    rw [hclass, Option.map_eq_some_iff] at hparams
    obtain ⟨first, hfirst, heq⟩ := hparams
    exact ⟨first, hfirst, classParams_injective heq⟩
  · rintro ⟨first, hfirst, heq⟩
    exact ⟨a, _, rfl, hread, by rw [hclass, hfirst, Option.map_some, heq]⟩

/-- Two processes are given one rate, and the second draws a class that another rate has. -/
def drawnTwice : List Args :=
  [⟨none, some "eth0".toList, some "1M".toList, none, 9, 11⟩,
   ⟨none, some "eth0".toList, some "5M".toList, none, 7, 10⟩,
   ⟨none, some "eth0".toList, some "5M".toList, none, 8, 11⟩]

theorem taken_net {net : Text} {n : Nat} (h : Denotes net n) (hn : 0 < n ∧ n < 2 ^ 32) {pid : Nat}
    {minorId : Fin 0x10000} (hminor : 0 < minorId.val) :
    Args.Taken ⟨none, some "eth0".toList, some net, none, pid, minorId⟩ := by
  refine ⟨by simp, by simp [given], fun net' hnet => ?_, fun dev hdev => ?_⟩
  · obtain rfl := Option.some.inj (Option.filter_eq_some_iff.mp hnet).1
    exact ⟨⟨n, h, hn⟩, hminor⟩
  · obtain rfl := Option.some.inj (Option.filter_eq_some_iff.mp hdev).1
    exact List.all_eq_true.mp (show "eth0".toList.all isNameChar = true from rfl)

theorem net_limited_iff_drawnTwice :
    ¬ Limited Sys.boot (runs Sys.boot World.boot drawnTwice) 7 "eth0".toList "5M".toList := by
  have htaken : ∀ args ∈ drawnTwice, args.Taken := by
    have hone : Denotes "1M".toList (1 * 1024 ^ 2) :=
      ⟨['1'], some 'M', rfl, by decide, List.all_eq_true.mp (by decide), by simp; rfl, rfl⟩
    have hfive : Denotes "5M".toList (5 * 1024 ^ 2) :=
      ⟨['5'], some 'M', rfl, by decide, List.all_eq_true.mp (by decide), by simp; rfl, rfl⟩
    simp only [drawnTwice, List.forall_mem_cons, List.not_mem_nil, false_implies, implies_true,
      and_true]
    exact ⟨taken_net hone (by decide) (by decide), taken_net hfive (by decide) (by decide),
      taken_net hfive (by decide) (by decide)⟩
  obtain ⟨s, hs, hiff⟩ := net_limited_iff Sys.boot separate_boot World.boot drawnTwice htaken
    ⟨7, "eth0".toList, "5M".toList, 10⟩ (by decide) (by decide +kernel)
    List.mem_cons_self rfl
  have hrate : lastRate "5M".toList (netRuns drawnTwice) =
      some ⟨8, "eth0".toList, "5M".toList, 11⟩ := by decide +kernel
  obtain rfl := Option.some.inj (hrate.symm.trans hs)
  have hfirst : firstFor "eth0".toList 11 (netRuns drawnTwice) =
      some ⟨9, "eth0".toList, "1M".toList, 11⟩ := by decide +kernel
  rw [hiff]
  rintro ⟨first, h, hnet⟩
  obtain rfl := Option.some.inj (hfirst.symm.trans h)
  exact absurd hnet (by decide)

end LinuxSummary.Cgroup.Bak
