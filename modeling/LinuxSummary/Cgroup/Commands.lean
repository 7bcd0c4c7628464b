/-
  The external commands of `cgroup_limit.py` and their effect on the machine.

  A `Cmd` holds the argument texts that the script formats. `execCmd` follows libcgroup's
  tools and `tc`: a command whose object is missing, or whose arguments the tool rejects,
  ends with status 1 and a message. `exec fails` is the machine on which, besides, each
  failable command chosen by `fails` ends so without effect.

  Shell: the script passes one string through `/bin/sh`. A line feed inside an argument
  ends the command there, which the accepted size texts may hold at their end
  (`^[0-9]+[kKmMgG]?$` lets one pass); `cgset` then lacks its group, and `tc class add`
  its burst parameters.
-/
import LinuxSummary.Cgroup.Host

namespace LinuxSummary.Cgroup

/-! ## Commands and replies -/

/-- The shell commands of the script, with their argument texts. -/
inductive Cmd where
  | lscgroupG (controller : Controller) (name : Text)
  | lscgroup
  | cgcreate (controller : Controller) (name : Text)
  | cgdelete (groupName : Text)
  | cgget (key : Key) (name : Text)
  | cgset (key : Key) (value name : Text)
  | cgclassify (controller : Controller) (name : Text) (pid : Nat)
  | tcQdiscShow (dev : Option Text)
  | tcQdiscAdd (dev handle : Text)
  | tcQdiscDel (dev : Text)
  | tcClassShow (dev classid : Text)
  | tcClassDel (dev classid : Text)
  | tcClassAdd (dev parent classid value : Text)
  | tcFilterShow (dev parent : Text)
  | tcFilterAdd (dev parent : Text)
  deriving DecidableEq

/-- What a finished command leaves to its caller: status, stdout and stderr by lines. -/
structure Output where
  status : Nat
  lines : List Text
  stderr : List Text

def Output.ok (lines : List Text) : Output := ⟨0, lines, []⟩

def Output.failed : Output := ⟨1, [], ["error".toList]⟩

/-- What the script asks of the machine. -/
inductive Ask where
  | sh (c : Cmd)
  | isdir (pid : Nat)
  | listdir (pid : Nat)
  | lstat (path : Text)

/-- `sh`: the output; `os.path.isdir('/proc/<pid>/task')`; `os.listdir` of it, `none` for
    an `OSError`; major and minor of `os.lstat(path).st_rdev`, `none` for an `OSError`. -/
@[reducible] def Ask.Reply : Ask → Type
  | .sh _ => Output
  | .isdir _ => Bool
  | .listdir _ => Option (List Nat)
  | .lstat _ => Option (Nat × Nat)

/-! ## Effects -/

/-- `cgdelete -r -g <group>`: every named controller's group goes, with all below it. -/
def World.deleteGroup (sys : Sys) (w : World) (g : List Text × Path) : World :=
  g.1.foldl (fun w c =>
    match (Controller.ofName c).bind sys.hierOf with
    | some h => w.setTree h ((w.cg h).remove g.2)
    | none => w) w

def groupExists (sys : Sys) (w : World) (g : List Text × Path) : Bool :=
  g.1.all fun c =>
    match (Controller.ofName c).bind sys.hierOf with
    | some h => g.2 ≠ [] && ((w.cg h).attrs g.2).isSome
    | none => false

/-- `rate %sbps burst %sbit cburst %sbit`, up to a line feed in the value. -/
def htbParams (value : Text) : HtbParams :=
  if '\n' ∈ value then ⟨value.takeWhile (· ≠ '\n'), none, none⟩
  else ⟨value ++ "bps".toList, some (value ++ "bit".toList), some (value ++ "bit".toList)⟩

/-- The root qdisc that `tc qdisc add dev <dev> root handle <m>: htb` makes. -/
def htbRoot (m : Nat) (hm : m < 65536) : Qdisc where
  kind := "htb".toList
  handle := m
  tail := "root refcnt 2 r2q 10 default 0".toList
  isRoot := true
  kind_ok := by decide
  handle_lt := hm
  tail_ok := ⟨by decide, by decide, by decide⟩

/-- An ingress qdisc stays when the root changes. -/
def Qdisc.isIngress (q : Qdisc) : Bool := "parent ffff:fff1".toList.isPrefixOf q.tail

/-- A new root `q`: the classes, the filters and the other qdiscs below the old one go. -/
def Tc.setRoot (tc : Tc) (dev : Text) (q : Qdisc) : Tc where
  ifaces := tc.ifaces
  qdiscs := Function.update tc.qdiscs dev (q :: (tc.qdiscs dev).filter (·.isIngress))
  classes := Function.update tc.classes dev fun _ => none
  filters := Function.update tc.filters dev fun m => if m = 65535 then tc.filters dev m else []

def Tc.setClass (tc : Tc) (dev : Text) (id : Nat × Nat) (c : Option HtbParams) : Tc :=
  { tc with classes := Function.update tc.classes dev (Function.update (tc.classes dev) id c) }

def Tc.addFilter (tc : Tc) (dev : Text) (m : Nat) (f : Filter) : Tc :=
  { tc with
    filters := Function.update tc.filters dev
      (Function.update (tc.filters dev) m (tc.filters dev m ++ [f])) }

/-- The root qdisc of the interface is not the default one. -/
def Tc.hasRoot (tc : Tc) (dev : Text) : Bool :=
  (tc.qdiscs dev).any fun q => q.isRoot && q.handle ≠ 0

def Tc.hasQdisc (tc : Tc) (dev : Text) (m : Nat) : Bool :=
  (tc.qdiscs dev).any fun q => q.handle = m

def Tc.hasHtb (tc : Tc) (dev : Text) (m : Nat) : Bool :=
  (tc.qdiscs dev).any fun q => q.kind = "htb".toList && q.handle = m

def cgroupFilter : Filter := ⟨"cgroup".toList, "handle 0x1".toList⟩

/-! ## Execution -/

/-- What a cgroup command does. -/
def execCg (sys : Sys) : Cmd → World → Output × World
  | .lscgroupG c n, w =>
    match sys.hierOf c with
    | some h =>
      (.ok (if ((w.cg h).attrs (parsePath n)).isSome then [listing (h, parsePath n)] else []), w)
    | none => (.failed, w)
  | .lscgroup, w => (.ok ((sys.lscgroup w.cg).map listing), w)
  | .cgcreate c n, w =>
    match sys.hierOf c with
    | some h => (.ok [], w.setTree h ((w.cg h).create (parsePath n) sys.fresh))
    | none => (.failed, w)
  | .cgdelete g, w =>
    (if groupExists sys w (parseGroup g) then .ok [] else .failed, w.deleteGroup sys (parseGroup g))
  | .cgget k n, w =>
    match sys.hierOf k.controller with
    | some h =>
      match (w.cg h).attrs (parsePath n) with
      | some a => (.ok [a k], w)
      | none => (.failed, w)
    | none => (.failed, w)
  | .cgset k v n, w =>
    match sys.hierOf k.controller with
    | some h =>
      if ((w.cg h).attrs (parsePath n)).isSome ∧ '\n' ∉ v then
        (.ok [], w.setTree h ((w.cg h).modify (parsePath n) fun a => Function.update a k v))
      else (.failed, w)
    | none => (.failed, w)
  | .cgclassify c n t, w =>
    match sys.hierOf c with
    | some h =>
      if ((w.cg h).attrs (parsePath n)).isSome ∧ w.alive t then
        (.ok [], w.setTree h ((w.cg h).move t (parsePath n)))
      else (.failed, w)
    | none => (.failed, w)
  | _, w => (.failed, w)

/-- What a `tc` command does. -/
def execTc (sys : Sys) : Cmd → Tc → Output × Tc
  | .tcQdiscShow none, tc =>
    (.ok (tc.ifaces.flatMap fun d => (tc.qdiscs d).map (·.lineDev d)), tc)
  | .tcQdiscShow (some d), tc =>
    if d ∈ tc.ifaces then (.ok ((tc.qdiscs d).map (·.line)), tc) else (.failed, tc)
  | .tcQdiscAdd d handle, tc =>
    match parseHex handle with
    | some m =>
      if h : m < 65536 ∧ d ∈ tc.ifaces ∧ tc.hasRoot d = false then
        (.ok [], tc.setRoot d (htbRoot m h.1))
      else (.failed, tc)
    | none => (.failed, tc)
  | .tcQdiscDel d, tc =>
    if d ∈ tc.ifaces ∧ tc.hasRoot d then (.ok [], tc.setRoot d sys.defaultQdisc)
    else (.failed, tc)
  | .tcClassShow d cid, tc =>
    match parseClassid cid with
    | some id =>
      if d ∈ tc.ifaces then
        (.ok (if (tc.classes d id).isSome then ["class htb ".toList ++ cid] else []), tc)
      else (.failed, tc)
    | none => (.failed, tc)
  | .tcClassDel d cid, tc =>
    match parseClassid cid with
    | some id =>
      if (tc.classes d id).isSome then (.ok [], tc.setClass d id none) else (.failed, tc)
    | none => (.failed, tc)
  | .tcClassAdd d parent cid v, tc =>
    match parseMajor parent, parseClassid cid with
    | some m, some id =>
      if d ∈ tc.ifaces ∧ tc.hasHtb d m ∧ id.1 = m ∧ tc.classes d id = none then
        (.ok [], tc.setClass d id (some (htbParams v)))
      else (.failed, tc)
    | _, _ => (.failed, tc)
  | .tcFilterShow d parent, tc =>
    match parseMajor parent with
    | some m => if d ∈ tc.ifaces then (.ok ((tc.filters d m).map (·.line)), tc) else (.failed, tc)
    | none => (.failed, tc)
  | .tcFilterAdd d parent, tc =>
    match parseMajor parent with
    | some m =>
      if d ∈ tc.ifaces ∧ tc.hasQdisc d m then (.ok [], tc.addFilter d m cgroupFilter)
      else (.failed, tc)
    | none => (.failed, tc)
  | _, tc => (.failed, tc)

/-- The commands of `tc`. -/
def Cmd.isTc : Cmd → Bool
  | .tcQdiscShow _ | .tcQdiscAdd .. | .tcQdiscDel _ | .tcClassShow .. | .tcClassDel ..
  | .tcClassAdd .. | .tcFilterShow .. | .tcFilterAdd .. => true
  | _ => false

def execCmd (sys : Sys) (c : Cmd) (w : World) : Output × World :=
  if c.isTc then ((execTc sys c w.tc).1, { w with tc := (execTc sys c w.tc).2 })
  else execCg sys c w

/-- The commands that may be chosen to fail. -/
def Cmd.failable : Cmd → Bool
  | .cgcreate .. | .cgget .. | .cgset .. | .cgclassify .. | .tcQdiscAdd .. | .tcClassAdd ..
  | .tcFilterAdd .. => true
  | _ => false

/-- The machine, with the failable commands chosen by `fails` failing. -/
def exec (sys : Sys) (fails : Cmd → Bool) : (q : Ask) → World → q.Reply × World
  | .sh c, w => if c.failable && fails c then (.failed, w) else execCmd sys c w
  | .isdir pid, w => (!(w.taskDir pid).isEmpty, w)
  | .listdir pid, w => (if (w.taskDir pid).isEmpty then none else some (w.taskDir pid), w)
  | .lstat p, w => (sys.lstat p, w)

/-- No command is chosen to fail. -/
def noFailure : Cmd → Bool := fun _ => false

end LinuxSummary.Cgroup
