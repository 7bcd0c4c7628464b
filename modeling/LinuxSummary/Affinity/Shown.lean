/-
  The module `cpu_affinity.c`: a number is written to its file, and a read shows the CPUs and the
  memory policy of the process with this number.

  The number is a `long`, and `find_vpid` takes an `int`. Few processes have a memory policy of
  their own; the others have none, which `proc_get_show` does not ask for. `told_iff`: after any
  writes, a read shows what the last number stands for exactly when it is 0, or finds no process, or
  an `int` and the number of one with a policy.
-/
import LinuxSummary.Zproc.ProcWrite

namespace LinuxSummary.Affinity

open CInt Strtol Zproc

/-! ## The module -/

def MPOL_PREFERRED : Nat := 1
def MPOL_BIND : Nat := 2
def MPOL_INTERLEAVE : Nat := 3

/-- `struct mempolicy` -/
structure Policy where
  mode : Nat
  preferredNode : Int
  nodes : Nat

structure Task where
  nrCpusAllowed : Int
  /-- the first word of the mask -/
  cpusAllowed : Nat
  mempolicy : Option Policy

/-- `pid_task(find_vpid(nr), PIDTYPE_PID)` -/
abbrev Tasks := Int → Option Task

/-- `"pid:%ld nr_cpus_allowed:%d cpus_allowed:0x%lx\n"` -/
def taskText (pid : Int) (task : Task) : Text :=
  "pid:".toList ++ Printf.dec pid ++ (" nr_cpus_allowed:".toList ++
    Printf.dec task.nrCpusAllowed ++ " cpus_allowed:0x".toList ++
      Printf.hex task.cpusAllowed ++ "\n".toList)

/-- `"\t mode:%d nodes:0x%x\n"` -/
def nodesText (mode nodes : Nat) : Text :=
  "\t mode:".toList ++ Printf.udec mode ++ " nodes:0x".toList ++ Printf.hex nodes ++ "\n".toList

/-- The `switch` over the mode. -/
def policyText (policy : Policy) : Text :=
  if policy.mode = MPOL_PREFERRED then nodesText policy.mode (u32 policy.preferredNode)
  else if policy.mode = MPOL_BIND ∨ policy.mode = MPOL_INTERLEAVE then
    nodesText policy.mode policy.nodes
  else []

/-- `"pid:%ld task is NULL\n"` -/
def noTaskText (pid : Int) : Text :=
  "pid:".toList ++ Printf.dec pid ++ " task is NULL\n".toList

/-- None is the fault at `task->mempolicy->mode`. -/
def procGetShow (tasks : Tasks) (pid : Int) : Option Text :=
  if pid = 0 then some ("pid:".toList ++ Printf.dec pid ++ "\n".toList)
  else
    match tasks (int32 pid) with
    | none => some (noTaskText pid)
    | some task => task.mempolicy.map fun policy => taskText pid task ++ policyText policy

/-! ## What is written -/

/-- A call of `proc_get_write`; `beyond` is the stack behind its buffer. -/
structure Write where
  beyond : Text
  copied : Bool
  buf : Text

/-- The variable `pid`, behind the writes. -/
def stored (ws : List Write) : Int :=
  ws.foldl (fun pid w => (procGetWrite pid w.beyond w.copied w.buf).stored) 0

/-- The number that a write brings. -/
def Write.number (w : Write) : Option Int :=
  if w.copied then (kstrtol w.buf 10).toOption else none

def lastNumber (ws : List Write) : Int := (ws.filterMap Write.number).getLast?.getD 0

/-- The text has room in the buffer, with a NUL behind it. -/
def Write.Fits (w : Write) : Prop := w.buf.length < MSG_LEN ∧ NUL ∉ w.buf

theorem stored_of_fits {w : Write} (hw : w.Fits) (pid : Int) :
    (procGetWrite pid w.beyond w.copied w.buf).stored = w.number.getD pid := by
  obtain ⟨beyond, copied, buf⟩ := w
  cases copied with
  | false => rfl
  | true =>
    obtain ⟨msg, -, -, hwritten⟩ := procWrite_short 10 pid beyond hw.1 hw.2
    rw [procGetWrite, hwritten, Write.number, if_pos rfl]
    cases kstrtol buf 10 with
    | ok n => rfl
    | error e => rfl

/-- The variable has the last number; what is no number changes nothing. -/
theorem stored_eq {ws : List Write} (hws : ∀ w ∈ ws, w.Fits) : stored ws = lastNumber ws := by
  induction ws using List.reverseRecOn with
  | nil => rfl
  | append_singleton ws w ih =>
    have hrest := ih fun v hv => hws v (List.mem_append_left _ hv)
    have hlast := stored_of_fits (hws w (by simp)) (lastNumber ws)
    unfold stored at hrest ⊢
    rw [List.foldl_append, hrest, List.foldl_cons, List.foldl_nil, hlast]
    unfold lastNumber
    rw [List.filterMap_append]
    cases hnumber : w.number with
    | none => simp [hnumber]
    | some n => simp [hnumber]

/-! ## What is shown -/

/-- The process with this number: the numbers of processes are `int`s. -/
def process (tasks : Tasks) (n : Int) : Option Task := if int32 n = n then tasks n else none

/-- What there is to say about a number. -/
def tell (tasks : Tasks) (n : Int) : Text :=
  if n = 0 then "pid:".toList ++ Printf.dec n ++ "\n".toList
  else
    match process tasks n with
    | none => noTaskText n
    | some task => taskText n task ++ (task.mempolicy.map policyText).getD []

theorem taskText_ne_noTaskText (n : Int) (task : Task) (rest : Text) :
    taskText n task ++ rest ≠ noTaskText n := by
  intro h
  rw [taskText, noTaskText, List.append_assoc] at h
  have htail := List.append_cancel_left h
  rw [List.append_assoc, List.append_assoc, List.append_assoc] at htail
  exact absurd (congrArg (·[1]?) htail) (by simp)

theorem show_eq_tell_iff (tasks : Tasks) (n : Int) :
    procGetShow tasks n = some (tell tasks n) ↔
      n = 0 ∨ ∀ task, tasks (int32 n) = some task →
        task.mempolicy.isSome = true ∧ int32 n = n := by
  unfold procGetShow tell
  by_cases hzero : n = 0
  · rw [if_pos hzero, if_pos hzero]
    exact iff_of_true rfl (.inl hzero)
  · rw [if_neg hzero, if_neg hzero, or_iff_right hzero]
    cases htask : tasks (int32 n) with
    | none =>
      have hprocess : process tasks n = none := by
        unfold process
        split
        · next hint => rwa [hint] at htask
        · rfl
      rw [hprocess]
      exact iff_of_true rfl fun _ h => absurd h (by simp)
    | some task =>
      simp only [Option.some.injEq, forall_eq']
      cases hpolicy : task.mempolicy with
      | none => simp
      | some policy =>
        by_cases hint : int32 n = n
        · have hprocess : process tasks n = some task := by
            rwa [process, if_pos hint, ← hint]
          rw [hprocess]
          simp [hpolicy, hint]
        · have hprocess : process tasks n = none := if_neg hint
          rw [hprocess]
          simp [taskText_ne_noTaskText, hint]

/-- **A read says what there is to say about the last number that was written exactly when that is
    0, or the number found, cut to an `int`, is none of a process, or is itself the number of a
    process with a memory policy**; a process without one is a fault of the kernel. -/
theorem told_iff (tasks : Tasks) (ws : List Write) (hws : ∀ w ∈ ws, w.Fits) :
    procGetShow tasks (stored ws) = some (tell tasks (lastNumber ws)) ↔
      lastNumber ws = 0 ∨ ∀ task, tasks (int32 (lastNumber ws)) = some task →
        task.mempolicy.isSome = true ∧ int32 (lastNumber ws) = lastNumber ws := by
  rw [stored_eq hws]
  exact show_eq_tell_iff tasks (lastNumber ws)

/-- The process 1, as most of them, has no memory policy. -/
def noPolicy : Tasks := fun n => if n = 1 then some ⟨4, 0xf, none⟩ else none

/-- `echo 1 > /proc/cpu_affinity/get; cat /proc/cpu_affinity/get` -/
theorem told_iff_noPolicy : procGetShow noPolicy (stored [⟨[], true, "1\n".toList⟩]) ≠
    some (tell noPolicy (lastNumber [⟨[], true, "1\n".toList⟩])) := by
  have hlast : lastNumber [⟨[], true, "1\n".toList⟩] = 1 := rfl
  rw [ne_eq, told_iff noPolicy _ (by simp [Write.Fits, MSG_LEN, NUL]), hlast]
  rintro (hzero | hall)
  · exact absurd hzero (by decide)
  · exact absurd (hall ⟨4, 0xf, none⟩ rfl).1 (by decide)

end LinuxSummary.Affinity
