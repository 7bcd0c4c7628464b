/-
  What the limit commands ask for.

  Each command that asks for a limit is the core `limitGroup` with its settings and its
  tasks, behind what it checks and (for `net`) its traffic control part. The lemmas are
  equations between programs, or between runs where the thread list is read on the way.
  `blkio` validates its sizes inside its loop: `Request` is what one attribute asks for,
  `accepted` the settings made before the first size that is rejected.
-/
import LinuxSummary.Cgroup.Limit
import LinuxSummary.Cgroup.Size

namespace LinuxSummary.Cgroup

open Prog

/-! ## The loop of `do_cgroup_blkio` -/

/-- What one attribute of the arguments asks for. -/
inductive Request where
  | nothing
  | rejected
  | set (kv : Key × Text)

def Request.isRejected : Request → Bool
  | .rejected => true
  | _ => false

def bpsRequest (key : Key) (st : Nat × Nat) : Option Text → Request
  | none => .nothing
  | some v => if isSize v then .set (key, deviceValue st (sizeBytes v)) else .rejected

def iopsRequest (key : Key) (st : Nat × Nat) : Option Int → Request
  | none => .nothing
  | some v => .set (key, deviceValue st v)

def blkioRequest (args : BlkioArgs) (st : Nat × Nat) : BlkioAttr → Request
  | .wbps => bpsRequest (throttleKey "write_bps_device") st args.wbps
  | .rbps => bpsRequest (throttleKey "read_bps_device") st args.rbps
  | .wiops => iopsRequest (throttleKey "write_iops_device") st args.wiops
  | .riops => iopsRequest (throttleKey "read_iops_device") st args.riops
  | .clear | .pid | .dev | .func => .nothing

/-- The settings before the first rejected size. -/
def accepted : List Request → List (Key × Text)
  | [] => []
  | .nothing :: rs => accepted rs
  | .rejected :: _ => []
  | .set kv :: rs => kv :: accepted rs

def rejects (rs : List Request) : Bool := rs.any (·.isRejected)

def BlkioArgs.requests (args : BlkioArgs) (st : Nat × Nat) : List Request :=
  args.order.map (blkioRequest args st)

/-- One request as a program. -/
def Request.prog (name : Text) : Request → Py Unit
  | .nothing => .ret ()
  | .rejected => .throw (.assertionError "can use K,M,G")
  | .set kv => cgset kv.1 kv.2 name

theorem blkioItem_eq (args : BlkioArgs) (st : Nat × Nat) (name : Text) (a : BlkioAttr) :
    blkioItem args st name a = (blkioRequest args st a).prog name := by
  have hbps : ∀ key v, bpsFunc key st name v = (bpsRequest key st (some v)).prog name := by
    intro key v
    rw [bpsFunc, unitToBytes_eq, bpsRequest]
    split <;> rfl
  cases a with
  | wbps =>
    cases h : args.wbps with
    | none => simp only [blkioItem, blkioRequest, h]; rfl
    | some v => simp only [blkioItem, blkioRequest, h, wbpsFunc, hbps]
  | rbps =>
    cases h : args.rbps with
    | none => simp only [blkioItem, blkioRequest, h]; rfl
    | some v => simp only [blkioItem, blkioRequest, h, rbpsFunc, hbps]
  | wiops => cases h : args.wiops <;> (simp only [blkioItem, blkioRequest, h]; rfl)
  | riops => cases h : args.riops <;> (simp only [blkioItem, blkioRequest, h]; rfl)
  | clear => rfl
  | pid => rfl
  | dev => rfl
  | func => rfl

/-- The loop makes the settings before the first rejected size, and raises there. -/
theorem forEach_request (name : Text) (rs : List Request) :
    forEach rs (Request.prog name) =
      if rejects rs then
        setAll (accepted rs) name >>= fun _ => .throw (.assertionError "can use K,M,G")
      else setAll (accepted rs) name := by
  induction rs with
  | nil => rfl
  | cons r rs ih =>
    rw [forEach_cons]
    cases r with
    | nothing => exact ih
    | rejected => rfl
    | set kv =>
      have hrej : rejects (.set kv :: rs) = rejects rs := rfl
      rw [hrej, ih]
      split
      · exact (bind_assoc _ _ _).symm
      · rfl

theorem forEach_blkioItem (args : BlkioArgs) (st : Nat × Nat) (name : Text) :
    forEach args.order (blkioItem args st name) =
      forEach (args.requests st) (Request.prog name) := by
  rw [BlkioArgs.requests]
  induction args.order with
  | nil => rfl
  | cons a as ih => rw [List.map_cons, forEach_cons, forEach_cons, ih, blkioItem_eq]

theorem mem_of_mem_accepted {kv : Key × Text} {rs : List Request} (h : kv ∈ accepted rs) :
    .set kv ∈ rs := by
  induction rs with
  | nil => exact absurd h (by simp [accepted])
  | cons r rs ih =>
    cases r with
    | nothing => exact List.mem_cons_of_mem _ (ih h)
    | rejected => exact absurd h (by simp [accepted])
    | set kv' =>
      rcases List.mem_cons.mp h with rfl | h
      · exact List.mem_cons_self
      · exact List.mem_cons_of_mem _ (ih h)

theorem not_mem_intText {c : Char} (hc : Numeral.digitVal c = none) (h : c ≠ '-') (i : Int) :
    c ∉ intText i := by
  have hdigits := fun n => Numeral.not_mem_toDigits (b := 10) (by decide) (by decide) hc n
  cases i with
  | ofNat n => exact hdigits n
  | negSucc n =>
    rw [intText, List.mem_cons, not_or]
    exact ⟨h, hdigits _⟩

/-- The value of a throttle setting holds no line feed. -/
theorem not_mem_deviceValue (st : Nat × Nat) (value : Int) : '\n' ∉ deviceValue st value := by
  have hdigits := fun n =>
    Numeral.not_mem_toDigits (b := 10) (c := '\n') (by decide) (by decide) rfl n
  simp only [deviceValue, List.mem_append, List.mem_cons, not_or]
  exact ⟨⟨hdigits _, by decide, hdigits _⟩, by decide, not_mem_intText rfl (by decide) value⟩

/-- What `do_cgroup_blkio` sets: throttle files of `blkio`, each with a one-line value. -/
theorem set_mem_requests {args : BlkioArgs} {st : Nat × Nat} {kv : Key × Text}
    (h : .set kv ∈ args.requests st) : kv.1.controller = .blkio ∧ '\n' ∉ kv.2 := by
  have hbps : ∀ file v, bpsRequest (throttleKey file) st v = .set kv →
      kv.1.controller = .blkio ∧ '\n' ∉ kv.2 := by
    intro file v hv
    cases v with
    | none => exact absurd hv (by simp [bpsRequest])
    | some v =>
      rw [bpsRequest] at hv
      split at hv
      · obtain rfl := Request.set.inj hv
        exact ⟨rfl, not_mem_deviceValue st _⟩
      · exact absurd hv (by simp)
  have hiops : ∀ file v, iopsRequest (throttleKey file) st v = .set kv →
      kv.1.controller = .blkio ∧ '\n' ∉ kv.2 := by
    intro file v hv
    cases v with
    | none => exact absurd hv (by simp [iopsRequest])
    | some v =>
      obtain rfl := Request.set.inj hv
      exact ⟨rfl, not_mem_deviceValue st _⟩
  obtain ⟨a, -, ha⟩ := List.mem_map.mp h
  cases a with
  | wbps => exact hbps _ _ ha
  | rbps => exact hbps _ _ ha
  | wiops => exact hiops _ _ ha
  | riops => exact hiops _ _ ha
  | _ => exact absurd ha (by simp [blkioRequest])

/-! ## The commands -/

theorem Command.controller_mem (cmd : Command) : cmd.controller ∈ toolControllers := by
  cases cmd <;> simp [Command.controller, toolControllers]

theorem classifyAll_singleton (c : Controller) (t : Nat) (name : Text) :
    classifyAll c [t] name = cgclassify c name t := bind_ret_unit _

def cpuSettings (usage : Int) : List (Key × Text) := [(cfsQuota, intText (usage * 1000))]

/-- The tasks that `do_cgroup_cpu` classifies: the thread itself, or all of its process. -/
def CpuArgs.tasks (args : CpuArgs) (w : World) : List Nat :=
  if args.spid || (w.taskDir args.pid).isEmpty then [args.pid] else w.taskDir args.pid

def memSettings (mem : Text) : List (Key × Text) :=
  [(limitInBytes, mem), (memswLimitInBytes, mem)]

def netSettings (tcMajor : Text) (pid : Nat) : List (Key × Text) :=
  [(netClsClassid, classidText tcMajor pid)]

section
variable (sys : Sys) (fails : Cmd → Bool)

/-- No command touches the process table. -/
theorem exec_procs (q : Ask) (w : World) : (exec sys fails q w).2.procs = w.procs := by
  have hdel : ∀ (cs : List Text) (p : Path) (w : World),
      (w.deleteGroup sys (cs, p)).procs = w.procs := by
    intro cs p
    induction cs with
    | nil => exact fun _ => rfl
    | cons c cs ih =>
      intro w
      rw [World.deleteGroup, List.foldl_cons]
      refine (ih _).trans ?_
      dsimp only
      split <;> rfl
  cases q with
  | sh c =>
    simp only [exec]
    split
    · rfl
    · unfold execCmd
      split
      · rfl
      · cases c with
        | cgdelete g => exact hdel _ _ w
        | _ => simp only [execCg] <;> (try split) <;> (try split) <;> rfl
  | isdir pid => rfl
  | listdir pid => rfl
  | lstat p => rfl

theorem run_procs {α : Type} (p : Py α) (w : World) :
    (run (exec sys fails) p w).2.procs = w.procs :=
  run_invariant (I := fun s => s.procs = w.procs) _
    (fun q s hs => (exec_procs sys fails q s).trans hs) p rfl

theorem taskDir_congr {w w' : World} (h : w'.procs = w.procs) (pid : Nat) :
    w'.taskDir pid = w.taskDir pid := by
  simp only [World.taskDir, World.tgidOf, h]

theorem run_getSpidsByPid (pid : Nat) (w : World) :
    run (exec sys fails) (getSpidsByPid pid) w =
      (.ok (if (w.taskDir pid).isEmpty then [pid] else w.taskDir pid), w) := by
  simp only [getSpidsByPid, query_bind, run_ask, exec]
  by_cases h : (w.taskDir pid).isEmpty = true
  · simp [h]
  · simp [h, exec]

/-- `do_cgroup_cpu` is the core, with the thread list as it was at the start. -/
theorem run_doCgroupCpu {args : CpuArgs} (hclear : args.clear = false) {usage : Int}
    (husage : args.usage = some usage) (hne : usage ≠ 0) (w : World) :
    run (exec sys fails) (doCgroupCpu args) w =
      run (exec sys fails) (limitGroup .cpu args.pid (cpuSettings usage) (args.tasks w)) w := by
  simp only [doCgroupCpu, hclear, Bool.false_eq_true, if_false, husage, if_pos hne, limitGroup]
  refine run_bind_congr _ fun _ w1 h1 => ?_
  rw [setAll, cpuSettings, forEach_cons, bind_assoc]
  refine run_bind_congr _ fun _ w2 h2 => ?_
  have hp1 : w1.procs = w.procs := by
    have := run_procs sys fails (cgcreate .cpu (getCgroupName args.pid)) w
    rwa [h1] at this
  have hp2 : w2.procs = w.procs := by
    have := run_procs sys fails
      (cgset cfsQuota (intText (usage * 1000)) (getCgroupName args.pid)) w1
    rw [h2] at this
    exact this.trans hp1
  rw [forEach_nil, ret_bind, CpuArgs.tasks]
  cases hs : args.spid with
  | true =>
    simp only [if_true, Bool.true_or, classifyAll_singleton]
  | false =>
    simp only [Bool.false_eq_true, if_false, Bool.false_or]
    rw [run_bind_ok _ (run_getSpidsByPid sys fails args.pid w2), taskDir_congr hp2]
    rfl

end

theorem doCgroupMem_limit {args : MemArgs} (hclear : args.clear = false) {mem : Text}
    (hmem : args.mem = some mem) (hne : mem ≠ []) (hsize : isSize mem = true) :
    doCgroupMem args = limitGroup .memory args.pid (memSettings mem) [args.pid] := by
  simp only [doCgroupMem, hclear, Bool.false_eq_true, if_false, hmem, if_pos hne, hsize,
    require, if_true, ret_bind, limitGroup, setAll, memSettings, forEach_cons, forEach_nil,
    bind_assoc, classifyAll_singleton]

theorem doCgroupMem_rejected {args : MemArgs} (hclear : args.clear = false) {mem : Text}
    (hmem : args.mem = some mem) (hne : mem ≠ []) (hsize : isSize mem = false) :
    doCgroupMem args = cgcreate .memory (getCgroupName args.pid) >>= fun _ =>
      .throw (.assertionError "-m <bytes to limit>, can use K,M,G") := by
  simp only [doCgroupMem, hclear, Bool.false_eq_true, if_false, hmem, if_pos hne, hsize,
    require, throw_bind]

/-- `do_cgroup_blkio` behind its checks. -/
def blkioProg (args : BlkioArgs) (st : Nat × Nat) : Py Unit :=
  if rejects (args.requests st) then
    cgcreate .blkio (getCgroupName args.pid) >>= fun _ =>
      setAll (accepted (args.requests st)) (getCgroupName args.pid) >>= fun _ =>
        .throw (.assertionError "can use K,M,G")
  else limitGroup .blkio args.pid (accepted (args.requests st)) [args.pid]

theorem run_doCgroupBlkio (sys : Sys) (fails : Cmd → Bool) {args : BlkioArgs}
    (hclear : args.clear = false) {dev : Text} (hdev : args.dev = some dev) {st : Nat × Nat}
    (hst : sys.lstat dev = some st) (w : World) :
    run (exec sys fails) (doCgroupBlkio args) w = run (exec sys fails) (blkioProg args st) w := by
  simp only [doCgroupBlkio, hclear, Bool.false_eq_true, if_false, hdev, query_bind, run_ask, exec,
    hst, forEach_blkioItem, forEach_request, blkioProg]
  split
  · rw [bind_assoc]
    rfl
  · simp only [limitGroup, classifyAll_singleton]

/-- `do_cgroup_blkio` finds the number of its device, or ends with nothing done. -/
theorem doCgroupBlkio_cases (sys : Sys) (fails : Cmd → Bool) {args : BlkioArgs}
    (hclear : args.clear = false) (w : World) :
    (∃ dev st, args.dev = some dev ∧ sys.lstat dev = some st) ∨
      ∃ e, run (exec sys fails) (doCgroupBlkio args) w = (.error e, w) := by
  cases hdev : args.dev with
  | none =>
    right
    simp only [doCgroupBlkio, hclear, hdev]
    exact ⟨_, rfl⟩
  | some dev =>
    cases hst : sys.lstat dev with
    | none =>
      right
      simp only [doCgroupBlkio, hclear, Bool.false_eq_true, if_false, hdev, query_bind, run_ask,
        exec, hst]
      exact ⟨_, rfl⟩
    | some st => exact .inl ⟨dev, st, rfl, hst⟩

theorem doCgroupNet_limit {args : NetArgs} (hclear : args.clear = false) {speed : Text}
    (hspeed : args.speed = some speed) (hsize : isSize speed = true) :
    doCgroupNet args = tcQdiscClassFilterCreate args.pid args.dev speed >>= fun tcMajor =>
      limitGroup .netCls args.pid (netSettings tcMajor args.pid) [args.pid] := by
  simp only [doCgroupNet, hclear, Bool.false_eq_true, if_false, hspeed, hsize, require, if_true,
    ret_bind, netClsTcCreate, limitGroup, setAll, netSettings, forEach_cons, forEach_nil,
    bind_assoc, classifyAll_singleton]

end LinuxSummary.Cgroup
