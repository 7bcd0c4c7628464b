/-
  `src/python/cgroup/cgroup_limit.py`: the functions of the script, in its order and under
  its names, as programs in dialogue with the machine (`Py`).

  `subprocess.call` ignores the status (`call`), `subprocess.check_output` raises on a
  non-zero one (`checkOutput`). Python raises are `Prog.throw`. The script runs under
  Python 2: `filter` returns a list and `hex` of a `str` raises `TypeError`.
  What `do_cgroup_blkio` prints on stdout (`print(value)`) is left out.
-/
import LinuxSummary.Library.Pattern
import LinuxSummary.Cgroup.Commands

namespace LinuxSummary.Cgroup

open Pattern Text

/-- The exceptions of the script. -/
inductive PyError where
  /-- `assert <check>, '<msg>'`: the argument validation. -/
  | assertionError (msg : String)
  /-- `assert len(stderr) == 0, stderr`. -/
  | assertionStderr (stderr : List Text)
  /-- `assert m is not None`. -/
  | assertionBare
  | calledProcessError (status : Nat)
  | osError
  | attributeError
  | typeError (msg : String)

/-- An `AssertionError` of the argument validation. -/
def PyError.isValidation : PyError → Bool
  | .assertionError _ => true
  | _ => false

/-- A computation of the script. -/
abbrev Py := Prog Ask Ask.Reply PyError

open Prog (query require forEach)

/-- `subprocess.call(cmd, shell=True)`, the status unused. -/
def call (c : Cmd) : Py Unit := do
  let _ ← query (R := Ask.Reply) (.sh c)
  return ()

/-- `subprocess.check_output(cmd, shell=True)`, by lines. -/
def checkOutput (c : Cmd) : Py (List Text) := do
  let out ← query (R := Ask.Reply) (.sh c)
  require (out.status = 0) (.calledProcessError out.status)
  return out.lines

/-- The text of an output. -/
def textOf (lines : List Text) : Text := lines.flatMap (· ++ ['\n'])

/-! ## Sizes -/

/-- `[0-9]` -/
def isDec (c : Char) : Bool := '0' ≤ c && c ≤ '9'

/-- `[kKmMgG]` -/
def isUnit (c : Char) : Bool := "kKmMgG".toList.contains c

/-- `^[0-9]+[kKmMgG]?$` -/
def sizeRe : List Atom := [.plus isDec, .opt isUnit, .eos]

/-- `re.match('^[0-9]+[kKmMgG]?$', data) is not None` -/
def isSize (data : Text) : Bool := (matchHere sizeRe data).isSome

/-- The dictionary `us`. -/
def us (c : Char) : Nat :=
  if c = 'k' ∨ c = 'K' then 1024
  else if c = 'm' ∨ c = 'M' then 1024 * 1024
  else 1024 * 1024 * 1024

def unitToBytes (data : Text) : Py Nat := do
  require (isSize data) (.assertionError "can use K,M,G")
  match search [.plus isDec] data with
  | none => .throw .attributeError
  | some m =>
    let v := Numeral.value 10 m.whole
    match search [.chr isUnit] data with
    | some r => return v * us (r.whole.headD 'g')
    | none => return v

/-! ## cgroups -/

def getSpidsByPid (pid : Nat) : Py (List Nat) := do
  if ← query (R := Ask.Reply) (.isdir pid) then
    match ← query (R := Ask.Reply) (.listdir pid) with
    | some spids => return spids
    | none => .throw .osError
  else
    return [pid]

/-- `'ctpid%s' % pid`; `do_cgroup_clear` formats a text, the others a number. -/
def ctpid (pid : Text) : Text := "ctpid".toList ++ pid

def getCgroupName (pid : Nat) : Text := ctpid (Nat.toDigits 10 pid)

def checkCgroupExist (controller : Controller) (name : Text) : Py Bool := do
  let out ← checkOutput (.lscgroupG controller name)
  return out.length > 0

def lscgroupFilter (name : Option Text) : Py (List Text) := do
  let out ← checkOutput .lscgroup
  match name with
  | none => return out
  | some name => return out.filter fun x => occursIn name x

def cgdeleteName (groupName : Text) : Py Unit := call (.cgdelete groupName)

def cgdelete (controller : Controller) (name : Text) : Py Unit :=
  cgdeleteName (controller.name ++ ':' :: name)

def cgcreate (controller : Controller) (name : Text) : Py Unit := do
  if ← checkCgroupExist controller name then
    cgdelete controller name
  call (.cgcreate controller name)

def cggetKey (key : Key) (name : Text) : Py (List Text) := do
  let out ← query (R := Ask.Reply) (.sh (.cgget key name))
  require (out.stderr.length = 0) (.assertionStderr out.stderr)
  return out.lines

def cgset (key : Key) (value name : Text) : Py Unit := do
  let _ ← cggetKey key name
  call (.cgset key value name)

def cgclassify (controller : Controller) (name : Text) (pid : Nat) : Py Unit :=
  call (.cgclassify controller name pid)

/-! ## Traffic control -/

/-- A pid as the script holds it: `type=int` for the limit commands, a text for `clear`. -/
inductive PyPid where
  | int (n : Nat)
  | str (s : Text)

/-- `hex(pid)` -/
def hex : PyPid → Py Text
  | .int n => return "0x".toList ++ Nat.toDigits 16 n
  | .str _ => .throw (.typeError "hex() argument can't be converted to hex")

def tcQdiscShow (dev : Text) : Py (List Text) := checkOutput (.tcQdiscShow (some dev))

def tcClassDel (pid : PyPid) (dev tcMajor : Text) : Py Unit := do
  let h ← hex pid
  let out ← checkOutput (.tcClassShow dev (tcMajor ++ ':' :: h))
  if out.length > 0 then
    call (.tcClassDel dev (tcMajor ++ ':' :: h))

/-- `[a-z]` -/
def isLower (c : Char) : Bool := 'a' ≤ c && c ≤ 'z'

/-- `qdisc ([a-z_]+) ([0-9]+): ([a-z]+)` -/
def qdiscRe : List Atom :=
  lit "qdisc ".toList ++ .plus (fun c => isLower c || c == '_') :: (lit " ".toList ++
    .plus isDec :: (lit ": ".toList ++ [.plus isLower]))

/-- `qdisc ([a-z]+) ([0-9]+): dev ([a-z0-9]+)` -/
def qdiscDevRe : List Atom :=
  lit "qdisc ".toList ++ .plus isLower :: (lit " ".toList ++
    .plus isDec :: (lit ": dev ".toList ++ [.plus fun c => isLower c || isDec c]))

def tcQdiscGetQdiscAndMajor (dev : Text) : Py (Text × Text) := do
  let out ← tcQdiscShow dev
  match search qdiscRe (textOf out) with
  | some ⟨_, qdisc :: major :: _⟩ => return (qdisc, major)
  | _ => .throw .assertionBare

def tcQdiscAdd (dev : Text) : Py Text := do
  let tcMajor := "368".toList
  let (qdisc, major) ← tcQdiscGetQdiscAndMajor dev
  if qdisc ≠ "htb".toList then
    call (.tcQdiscAdd dev tcMajor)
    return tcMajor
  else
    return major

/-- The body of the loop of `tc_qdisc_do_del` over the lines of `tc qdisc show`. -/
def tcQdiscDelLine (pid : Option PyPid) (line : Text) : Py Unit :=
  match search qdiscDevRe line with
  | some ⟨_, qdisc :: major :: dev :: _⟩ =>
    match pid with
    | none =>
      if qdisc = "htb".toList ∧ major = "368".toList then call (.tcQdiscDel dev) else return ()
    | some pid =>
      if qdisc = "htb".toList then tcClassDel pid dev major else return ()
  | _ => return ()

def tcQdiscDoDel (pid : Option PyPid) : Py Unit := do
  let lines ← checkOutput (.tcQdiscShow none)
  forEach lines (tcQdiscDelLine pid)

def tcClassAdd (pid : PyPid) (dev value tcMajor : Text) : Py Unit := do
  tcClassDel pid dev tcMajor
  let h ← hex pid
  call (.tcClassAdd dev (tcMajor ++ [':']) (tcMajor ++ ':' :: h) value)

def tcFilterAdd (dev tcMajor : Text) : Py Unit := do
  let out ← checkOutput (.tcFilterShow dev (tcMajor ++ [':']))
  if occursIn "cgroup".toList (textOf out) then
    return ()
  else
    call (.tcFilterAdd dev (tcMajor ++ [':']))

def tcQdiscClassFilterCreate (pid : Nat) (dev value : Text) : Py Text := do
  let tcMajor ← tcQdiscAdd dev
  tcClassAdd (.int pid) dev value tcMajor
  tcFilterAdd dev tcMajor
  return tcMajor

/-- `'0x%s%s' % (tc_major, '%04x' % pid)` -/
def classidText (tcMajor : Text) (pid : Nat) : Text :=
  "0x".toList ++ tcMajor ++ Numeral.padLeft 4 (Nat.toDigits 16 pid)

def netClsClassid : Key := ⟨.netCls, "classid".toList⟩

def netClsTcCreate (pid : Nat) (dev value : Text) : Py Unit := do
  let tcMajor ← tcQdiscClassFilterCreate pid dev value
  let name := getCgroupName pid
  cgcreate .netCls name
  cgset netClsClassid (classidText tcMajor pid) name
  cgclassify .netCls name pid

/-! ## The commands -/

/-- `'%s' % i` of an integer. -/
def intText : Int → Text
  | .ofNat n => Nat.toDigits 10 n
  | .negSucc n => '-' :: Nat.toDigits 10 (n + 1)

structure CpuArgs where
  pid : Nat
  clear : Bool
  spid : Bool
  usage : Option Int

def cfsQuota : Key := ⟨.cpu, "cfs_quota_us".toList⟩

def doCgroupCpu (args : CpuArgs) : Py Unit := do
  let name := getCgroupName args.pid
  if args.clear then
    cgdelete .cpu name
  else
    match args.usage with
    | none => return ()
    | some usage =>
      if usage ≠ 0 then
        cgcreate .cpu name
        cgset cfsQuota (intText (usage * 1000)) name
        if args.spid then
          cgclassify .cpu name args.pid
        else
          let spids ← getSpidsByPid args.pid
          forEach spids fun spid => cgclassify .cpu name spid
      else return ()

structure MemArgs where
  pid : Nat
  clear : Bool
  mem : Option Text

def limitInBytes : Key := ⟨.memory, "limit_in_bytes".toList⟩

def memswLimitInBytes : Key := ⟨.memory, "memsw.limit_in_bytes".toList⟩

def doCgroupMem (args : MemArgs) : Py Unit := do
  let name := getCgroupName args.pid
  if args.clear then
    cgdelete .memory name
  else
    match args.mem with
    | none => return ()
    | some mem =>
      if mem ≠ [] then
        cgcreate .memory name
        require (isSize mem) (.assertionError "-m <bytes to limit>, can use K,M,G")
        cgset limitInBytes mem name
        cgset memswLimitInBytes mem name
        cgclassify .memory name args.pid
      else return ()

/-- The attributes of the parsed arguments of `blkio`. -/
inductive BlkioAttr where
  | clear | pid | dev | wbps | rbps | wiops | riops | func
  deriving DecidableEq

/-- The parsed arguments of `blkio`. `order` is the iteration order of `vars(args)`. -/
structure BlkioArgs where
  pid : Nat
  clear : Bool
  dev : Option Text
  wbps : Option Text
  rbps : Option Text
  wiops : Option Int
  riops : Option Int
  order : List BlkioAttr
  order_perm : order.Perm [.clear, .pid, .dev, .wbps, .rbps, .wiops, .riops, .func]

def throttleKey (file : String) : Key := ⟨.blkio, "throttle.".toList ++ file.toList⟩

/-- `'"%d:%d %d"' % (major, minor, value)`, the quotes taken off by the shell. -/
def deviceValue (st : Nat × Nat) (value : Int) : Text :=
  Nat.toDigits 10 st.1 ++ ':' :: Nat.toDigits 10 st.2 ++ ' ' :: intText value

/-- `wbps_func`, `rbps_func`: a size for the device. -/
def bpsFunc (key : Key) (st : Nat × Nat) (name bps : Text) : Py Unit := do
  let value ← unitToBytes bps
  cgset key (deviceValue st value) name

/-- `wiops_func`, `riops_func`: a count for the device. -/
def iopsFunc (key : Key) (st : Nat × Nat) (name : Text) (iops : Int) : Py Unit :=
  cgset key (deviceValue st iops) name

def wbpsFunc := bpsFunc (throttleKey "write_bps_device")
def rbpsFunc := bpsFunc (throttleKey "read_bps_device")
def wiopsFunc := iopsFunc (throttleKey "write_iops_device")
def riopsFunc := iopsFunc (throttleKey "read_iops_device")

/-- The body of the loop over `vars(args).items()`: `funcs.get(k)(v)` where both are there. -/
def blkioItem (args : BlkioArgs) (st : Nat × Nat) (name : Text) : BlkioAttr → Py Unit
  | .wbps => match args.wbps with
    | some v => wbpsFunc st name v
    | none => return ()
  | .rbps => match args.rbps with
    | some v => rbpsFunc st name v
    | none => return ()
  | .wiops => match args.wiops with
    | some v => wiopsFunc st name v
    | none => return ()
  | .riops => match args.riops with
    | some v => riopsFunc st name v
    | none => return ()
  | .clear | .pid | .dev | .func => return ()

def doCgroupBlkio (args : BlkioArgs) : Py Unit := do
  let name := getCgroupName args.pid
  if args.clear then
    cgdelete .blkio name
  else
    match args.dev with
    | none => .throw (.assertionError "Need --dev <block device>")
    | some dev =>
      match ← query (R := Ask.Reply) (.lstat dev) with
      | none => .throw .osError
      | some st =>
        cgcreate .blkio name
        forEach args.order (blkioItem args st name)
        cgclassify .blkio name args.pid

structure NetArgs where
  pid : Nat
  clear : Bool
  dev : Text
  speed : Option Text

def doCgroupNet (args : NetArgs) : Py Unit := do
  let name := getCgroupName args.pid
  if args.clear then
    let (qdisc, major) ← tcQdiscGetQdiscAndMajor args.dev
    if qdisc = "htb".toList then
      tcClassDel (.int args.pid) args.dev major
    cgdelete .netCls name
  else
    match args.speed with
    | none => return ()
    | some speed =>
      require (isSize speed) (.assertionError "-s <bps to limit>, can use K,M,G")
      netClsTcCreate args.pid args.dev speed

structure ClearArgs where
  all : Bool
  pid : Option Text

/-- `group_name` with the second controller of a co-mounted pair taken out. -/
def clearName (groupName : Text) : Text :=
  if occursIn "cpu,cpuacct".toList groupName then replaceAll ",cpuacct".toList [] groupName
  else if occursIn "net_cls,net_prio".toList groupName then
    replaceAll ",net_prio".toList [] groupName
  else groupName

def doCgroupClear (args : ClearArgs) : Py Unit := do
  require (args.all || args.pid.isSome) (.assertionError "-A or -p <pid> must use one")
  let groupNames ← lscgroupFilter (some (ctpid (if args.all then [] else args.pid.getD [])))
  forEach groupNames fun groupName => cgdeleteName (clearName groupName)
  if args.all then
    tcQdiscDoDel none
  else
    match args.pid with
    | some pid => if pid ≠ [] then tcQdiscDoDel (some (.str pid)) else return ()
    | none => return ()

/-- The parsed command line of a limit command: `args`, of which `args.func` is the subcommand. -/
inductive Command where
  | cpu (args : CpuArgs)
  | mem (args : MemArgs)
  | blkio (args : BlkioArgs)
  | net (args : NetArgs)

/-- `args.func(args)` -/
def Command.func : Command → Py Unit
  | .cpu args => doCgroupCpu args
  | .mem args => doCgroupMem args
  | .blkio args => doCgroupBlkio args
  | .net args => doCgroupNet args

def Command.pid : Command → Nat
  | .cpu args => args.pid
  | .mem args => args.pid
  | .blkio args => args.pid
  | .net args => args.pid

def Command.clear : Command → Bool
  | .cpu args => args.clear
  | .mem args => args.clear
  | .blkio args => args.clear
  | .net args => args.clear

/-- The controller that the command works on. -/
def Command.controller : Command → Controller
  | .cpu _ => .cpu
  | .mem _ => .memory
  | .blkio _ => .blkio
  | .net _ => .netCls

end LinuxSummary.Cgroup
