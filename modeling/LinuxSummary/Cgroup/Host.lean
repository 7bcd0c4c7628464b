/-
  The machine that `cgroup_limit.py` runs on: the cgroup v1 hierarchies, the traffic
  control state and the process table, and what the external commands of the script
  do to them.

  The commands are given with the argument texts that the script formats; `execCmd`
  says which of them succeed and with what effect (libcgroup's tools and `tc`). A
  command that does not succeed has a non-zero status, a message on stderr and no
  effect. `exec fails` is the same machine on which, besides, every command chosen by
  `fails` fails, where the choice is among the commands that change something and
  `cgget` (`failable`).
-/
import LinuxSummary.Library.Text
import LinuxSummary.Library.Numeral
import LinuxSummary.Library.GroupTree
import LinuxSummary.Library.Dialogue

namespace LinuxSummary.Cgroup

/-! ## Controllers, paths and keys -/

/-- The name of a named hierarchy, as the kernel accepts it. -/
structure HierName where
  text : Text
  ok : text.all (fun c => c.isAlphanum || c == '.' || c == '-' || c == '_') = true
  deriving DecidableEq

/-- A controller as `lscgroup` names it. -/
inductive Controller where
  | cpuset | cpu | cpuacct | blkio | memory | devices | freezer | netCls | perfEvent
  | netPrio | hugetlb | pids | rdma | misc
  | named (n : HierName)
  deriving DecidableEq

def Controller.name : Controller → Text
  | .cpuset => "cpuset".toList
  | .cpu => "cpu".toList
  | .cpuacct => "cpuacct".toList
  | .blkio => "blkio".toList
  | .memory => "memory".toList
  | .devices => "devices".toList
  | .freezer => "freezer".toList
  | .netCls => "net_cls".toList
  | .perfEvent => "perf_event".toList
  | .netPrio => "net_prio".toList
  | .hugetlb => "hugetlb".toList
  | .pids => "pids".toList
  | .rdma => "rdma".toList
  | .misc => "misc".toList
  | .named n => "name=".toList ++ n.text

/-- The controllers of the kernel. -/
def Controller.kernel : List Controller :=
  [.cpuset, .cpu, .cpuacct, .blkio, .memory, .devices, .freezer, .netCls, .perfEvent,
    .netPrio, .hugetlb, .pids, .rdma, .misc]

def HierName.ofText? (s : Text) : Option HierName :=
  if h : s.all (fun c => c.isAlphanum || c == '.' || c == '-' || c == '_') = true
  then some ⟨s, h⟩ else none

/-- The controller of a name, `none` for a text that names none. -/
def Controller.ofName (s : Text) : Option Controller :=
  match Controller.kernel.find? (fun c => c.name = s) with
  | some c => some c
  | none =>
    if "name=".toList <+: s then (HierName.ofText? (s.drop 5)).map .named else none

/-- A hierarchy: the controllers mounted together, in the order they are listed. -/
abbrev Hier := List Controller

/-- One component of a group's path, a directory name. -/
structure Comp where
  text : Text
  ne : text ≠ []
  ok : '/' ∉ text ∧ '\n' ∉ text
  deriving DecidableEq

/-- The path of a group below the root of its hierarchy. -/
abbrev Path := List Comp

def Comp.ofText? (s : Text) : Option Comp :=
  if h : s ≠ [] ∧ '/' ∉ s ∧ '\n' ∉ s then some ⟨s, h.1, h.2⟩ else none

/-- The path that a text designates: empty components are dropped, as the kernel does. -/
def parsePath (s : Text) : Path := (s.splitOn '/').filterMap Comp.ofText?

/-- A file of a group, such as `cpu.cfs_quota_us`. -/
structure Key where
  controller : Controller
  file : Text
  deriving DecidableEq

/-- The contents of a group's files. -/
abbrev Attrs := Key → Text

abbrev Tree := GroupTree Comp Attrs Nat

/-! ## Traffic control -/

/-- A queueing discipline of an interface. `tail` is what `tc` prints behind the handle:
    `root` or `parent <id>`, and the options. -/
structure Qdisc where
  kind : Text
  handle : Nat
  tail : Text
  isRoot : Bool
  kind_ok : kind ≠ [] ∧ kind.all (fun c => c.isAlphanum || c == '_') = true
  handle_lt : handle < 65536
  tail_ok : (if isRoot then "root".toList else "parent ".toList) <+: tail ∧ '\n' ∉ tail ∧
    Text.occursIn "qdisc ".toList tail = false

/-- The parameters of an HTB class, as given on the command line. -/
structure HtbParams where
  rate : Text
  burst : Option Text
  cburst : Option Text
  deriving DecidableEq

/-- A filter at a qdisc: its kind and the rest of what `tc filter show` prints. -/
structure Filter where
  kind : Text
  detail : Text
  deriving DecidableEq

/-- The traffic control state: the interfaces in the order `tc` lists them, the qdiscs of
    each, its HTB classes by major and minor, and its filters by parent major. -/
@[ext]
structure Tc where
  ifaces : List Text
  qdiscs : Text → List Qdisc
  classes : Text → Nat × Nat → Option HtbParams
  filters : Text → Nat → List Filter

/-! ## The machine -/

/-- A thread and the process it belongs to. -/
structure Thread where
  tid : Nat
  tgid : Nat
  deriving DecidableEq

/-- The process table: no thread id twice, and a thread whose id is a process id belongs to
    that process. -/
@[ext]
structure ProcTable where
  threads : List Thread
  nodup : (threads.map (·.tid)).Nodup
  leader : ∀ t ∈ threads, ∀ u ∈ threads, u.tid = t.tgid → u.tgid = t.tgid

@[ext]
structure World where
  cg : Hier → Tree
  tc : Tc
  procs : ProcTable

/-- The process of which `pid` is the id or a thread. -/
def World.tgidOf (w : World) (pid : Nat) : Option Nat :=
  if w.procs.threads.any (·.tgid = pid) then some pid
  else (w.procs.threads.find? (·.tid = pid)).map (·.tgid)

/-- The entries of `/proc/<pid>/task`; none when there is no such directory. -/
def World.taskDir (w : World) (pid : Nat) : List Nat :=
  match w.tgidOf pid with
  | some g => (w.procs.threads.filter (·.tgid = g)).map (·.tid)
  | none => []

def World.alive (w : World) (tid : Nat) : Bool := w.procs.threads.any (·.tid = tid)

def World.setTree (w : World) (h : Hier) (t : Tree) : World :=
  { w with cg := Function.update w.cg h t }

/-- The controllers that the script limits with. -/
def toolControllers : List Controller := [.cpu, .memory, .blkio, .netCls]

/-- What does not change while the script runs: the mounts, the contents of a fresh group,
    the device nodes, the default qdisc, and the order in which `lscgroup` lists. -/
structure Sys where
  hiers : List Hier
  hiers_ne : ∀ h ∈ hiers, h ≠ []
  hiers_disjoint : ∀ h ∈ hiers, ∀ h' ∈ hiers, ∀ c ∈ h, c ∈ h' → h = h'
  tool_mounted : ∀ c ∈ toolControllers, ∃ h ∈ hiers, c ∈ h
  fresh : Attrs
  lstat : Text → Option (Nat × Nat)
  defaultQdisc : Qdisc
  default_handle : defaultQdisc.handle = 0
  lscgroup : (Hier → Tree) → List (Hier × Path)
  lscgroup_mem : ∀ cg h p, (h, p) ∈ lscgroup cg ↔ h ∈ hiers ∧ ((cg h).attrs p).isSome

/-- The hierarchy of a controller. -/
def Sys.hierOf (sys : Sys) (c : Controller) : Option Hier := sys.hiers.find? (c ∈ ·)

/-- The hierarchy of a mounted controller. -/
def Sys.hier (sys : Sys) (c : Controller) : Hier := (sys.hierOf c).getD []

/-! ## What is printed -/

/-- A group as `lscgroup` prints it: `<controllers>:/<path>`. -/
def listing (g : Hier × Path) : Text :=
  [','].intercalate (g.1.map (·.name)) ++ ':' :: '/' :: ['/'].intercalate (g.2.map (·.text))

/-- A handle as `tc` prints it. -/
def handleText (n : Nat) : Text := Nat.toDigits 16 n

/-- A line of `tc qdisc show dev <dev>`. -/
def Qdisc.line (q : Qdisc) : Text :=
  "qdisc ".toList ++ q.kind ++ ' ' :: handleText q.handle ++ ": ".toList ++ q.tail

/-- A line of `tc qdisc show`. -/
def Qdisc.lineDev (dev : Text) (q : Qdisc) : Text :=
  "qdisc ".toList ++ q.kind ++ ' ' :: handleText q.handle ++ ": dev ".toList ++ dev ++ ' ' :: q.tail

def Filter.line (f : Filter) : Text :=
  "filter protocol ip pref 1 ".toList ++ f.kind ++ ' ' :: f.detail

/-! ## What is parsed -/

/-- The `<controllers>:<path>` argument of `cgdelete -g`. -/
def parseGroup (s : Text) : List Text × Path :=
  ((s.takeWhile (· ≠ ':')).splitOn ',', parsePath ((s.dropWhile (· ≠ ':')).drop 1))

/-- Digits in base 16, with or without `0x`, as `strtoul(.., 16)` takes a whole text. -/
def parseHex (s : Text) : Option Nat :=
  if "0x".toList <+: s then Numeral.readDigits 16 (s.drop 2) else Numeral.readDigits 16 s

/-- The `<major>:<minor>` argument of `tc class`: 16 bits each. -/
def parseClassid (s : Text) : Option (Nat × Nat) :=
  match parseHex (s.takeWhile (· ≠ ':')), parseHex ((s.dropWhile (· ≠ ':')).drop 1) with
  | some maj, some min => if maj < 65536 ∧ min < 65536 then some (maj, min) else none
  | _, _ => none

/-- The `<major>:` argument of `tc`. -/
def parseMajor (s : Text) : Option Nat :=
  match parseHex (s.takeWhile (· ≠ ':')) with
  | some maj => if maj < 65536 ∧ s.dropWhile (· ≠ ':') = [':'] then some maj else none
  | none => none

/-! ## A machine after boot -/

/-- The default qdisc of an interface. -/
def pfifoFast : Qdisc where
  kind := "pfifo_fast".toList
  handle := 0
  tail := "root refcnt 2 bands 3".toList
  isRoot := true
  kind_ok := by decide
  handle_lt := by decide
  tail_ok := ⟨by decide, by decide, by decide⟩

def bootHiers : List Hier := [[.cpu, .cpuacct], [.memory], [.blkio], [.netCls, .netPrio]]

/-- The files of a new group that do not read `0`. -/
def bootAttrs (k : Key) : Text :=
  if k.file = "cfs_quota_us".toList then "-1".toList
  else if k.file = "limit_in_bytes".toList ∨ k.file = "memsw.limit_in_bytes".toList then
    "9223372036854771712".toList
  else "0".toList

/-- The usual mounts, one disk and one interface. -/
noncomputable def Sys.boot : Sys where
  hiers := bootHiers
  hiers_ne := by decide
  hiers_disjoint := by decide
  tool_mounted := by decide
  fresh := bootAttrs
  lstat p := if p = "/dev/sda".toList then some (8, 0) else none
  defaultQdisc := pfifoFast
  default_handle := rfl
  lscgroup cg := bootHiers.flatMap fun h => (cg h).finite.toFinset.toList.map (h, ·)
  lscgroup_mem := by simp

/-- No group but the roots, no limit, and the process 7 with a second thread 8. -/
def World.boot : World where
  cg _ := GroupTree.empty bootAttrs
  tc :=
    { ifaces := ["eth0".toList]
      qdiscs := fun _ => [pfifoFast]
      classes := fun _ _ => none
      filters := fun _ _ => [] }
  procs :=
    { threads := [⟨7, 7⟩, ⟨8, 7⟩]
      nodup := by decide
      leader := by decide }

end LinuxSummary.Cgroup
