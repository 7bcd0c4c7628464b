/-
  `pmon.c`: monitors that listen to the process events of the kernel.

  The kernel counts its listeners: `PROC_CN_MCAST_LISTEN` adds one, `PROC_CN_MCAST_IGNORE` takes
  one away, and the exit of a monitor does neither. `act` is one step of one monitor, with the
  result of the call that it makes; SIGINT may come between any two steps. `step` is a step of
  any one of several monitors.

  `act_cases` is the inversion of a step. `listeners_eq` says who is counted in any state, and
  `kept_after_exit` what is left when all have exited: the monitors that a failed `recv` or a
  failed `send` took past the `PROC_CN_MCAST_IGNORE`. `printed_of_run` says what is printed, and
  `stops_after_signal` how much of it behind SIGINT.
-/
import LinuxSummary.Library.CInt
import LinuxSummary.Library.Machine
import LinuxSummary.Library.Printf

namespace LinuxSummary.ProcConnector

open Machine

/-! ## The events -/

/-- `struct proc_event`: `what`, with the fields of `event_data` that are printed. The pids are
    `__kernel_pid_t`, the uids, the gids and the exit code `__u32`. -/
inductive ProcEvent
  | none
  | fork (parentPid parentTgid childPid childTgid : Int)
  | exec (processPid processTgid : Int)
  | uid (processPid processTgid : Int) (ruid euid : Nat)
  | gid (processPid processTgid : Int) (rgid egid : Nat)
  | exit (processPid processTgid : Int) (exitCode : Nat)
  | other
deriving DecidableEq

/-- `%d` of a `__u32` -/
def dec32 (n : Nat) : Text := Printf.dec (CInt.int32 n)

/-- The line of `handle_proc_ev`. -/
def line : ProcEvent → Text
  | .none => "set mcast listen ok\n".toList
  | .fork parentPid parentTgid childPid childTgid =>
    "fork: parent tid=".toList ++ Printf.dec parentPid ++ " pid=".toList ++
      Printf.dec parentTgid ++ " -> child tid=".toList ++ Printf.dec childPid ++
      " pid=".toList ++ Printf.dec childTgid ++ "\n".toList
  | .exec processPid processTgid =>
    "exec: tid=".toList ++ Printf.dec processPid ++ " pid=".toList ++ Printf.dec processTgid ++
      "\n".toList
  | .uid processPid processTgid ruid euid =>
    "uid change: tid=".toList ++ Printf.dec processPid ++ " pid=".toList ++
      Printf.dec processTgid ++ " from ".toList ++ dec32 ruid ++ " to ".toList ++ dec32 euid ++
      "\n".toList
  | .gid processPid processTgid rgid egid =>
    "gid change: tid=".toList ++ Printf.dec processPid ++ " pid=".toList ++
      Printf.dec processTgid ++ " from ".toList ++ dec32 rgid ++ " to ".toList ++ dec32 egid ++
      "\n".toList
  | .exit processPid processTgid exitCode =>
    "exit: tid=".toList ++ Printf.dec processPid ++ " pid=".toList ++ Printf.dec processTgid ++
      " exit_code=".toList ++ dec32 exitCode ++ "\n".toList
  | .other => "unhandled proc event\n".toList

/-! ## One monitor -/

/-- How a monitor ended. -/
inductive Why
  | noSocket
  | listenFailed
  | recvFailed
  /-- `handle_proc_ev` returned 0; the `send` behind it may fail, and nobody looks -/
  | stopped (ignored : Bool)
deriving DecidableEq

/-- The call that `main` is at. -/
inductive Pc
  | nlConnect
  | listen
  /-- `while (!need_exit)` -/
  | check
  | recv
  | print (ev : ProcEvent)
  | ignore
  | close (why : Why)
  | exited (why : Why)
deriving DecidableEq

structure Proc where
  pc : Pc
  needExit : Bool
  printed : List Text

/-- What `recv` comes back with. -/
inductive Recv
  | event (ev : ProcEvent)
  | shutdown
  | interrupted
  | failed

/-- The call of a monitor, with its outcome, or SIGINT. -/
inductive Call
  | nlConnect (ok : Bool)
  | listen (ok : Bool)
  | check
  | recv (r : Recv)
  | print
  | ignore (ok : Bool)
  | close
  | sigint

/-- Where a call leads, and what it does to the count of the kernel. -/
def move (needExit : Bool) : Pc → Call → Option (Pc × Int)
  | .nlConnect, .nlConnect true => some (.listen, 0)
  | .nlConnect, .nlConnect false => some (.exited .noSocket, 0)
  | .listen, .listen true => some (.check, 1)
  | .listen, .listen false => some (.close .listenFailed, 0)
  | .check, .check => some (if needExit then .ignore else .recv, 0)
  | .recv, .recv (.event ev) => some (.print ev, 0)
  | .recv, .recv .shutdown => some (.ignore, 0)
  | .recv, .recv .interrupted => some (.check, 0)
  | .recv, .recv .failed => some (.close .recvFailed, 0)
  | .print _, .print => some (.check, 0)
  | .ignore, .ignore true => some (.close (.stopped true), -1)
  | .ignore, .ignore false => some (.close (.stopped false), 0)
  | .close why, .close => some (.exited why, 0)
  | _, _ => none

/-- The line of a `printf`. -/
def prints : Pc → Call → List Text
  | .print ev, .print => [line ev]
  | _, _ => []

/-- The monitor after a step, and the listeners of the kernel. -/
def act (proc : Proc) (listeners : Int) (call : Call) : Option (Proc × Int) :=
  match proc.pc, call with
  | .exited _, .sigint => none
  | _, .sigint => some ({ proc with needExit := true }, listeners)
  | pc, call =>
    (move proc.needExit pc call).map fun next =>
      ({ proc with pc := next.1, printed := proc.printed ++ prints pc call }, listeners + next.2)

theorem act_cases {proc proc' : Proc} {n n' : Int} {call : Call}
    (h : act proc n call = some (proc', n')) :
    (call = .sigint ∧ proc' = { proc with needExit := true } ∧ n' = n) ∨
      ∃ pc' d, move proc.needExit proc.pc call = some (pc', d) ∧ n' = n + d ∧
        proc' = { proc with pc := pc', printed := proc.printed ++ prints proc.pc call } := by
  unfold act at h
  split at h
  · cases h
  · cases h
    exact .inl ⟨rfl, rfl, rfl⟩
  · obtain ⟨⟨pc', d⟩, hmove, heq⟩ := Option.map_eq_some_iff.mp h
    cases heq
    exact .inr ⟨pc', d, hmove, rfl, rfl⟩

/-! ## What a step keeps -/

/-- Behind its `PROC_CN_MCAST_LISTEN` and not behind a `PROC_CN_MCAST_IGNORE` that was sent. -/
def Pc.listens : Pc → Bool
  | .check | .recv | .print _ | .ignore => true
  | .close why | .exited why => why = .recvFailed ∨ why = .stopped false
  | .nlConnect | .listen => false

/-- The line that is received and not printed yet. -/
def Pc.pending : Pc → List Text
  | .print ev => [line ev]
  | _ => []

/-- `recv` may still bring an event once `need_exit` is set. -/
def Pc.due : Pc → Nat
  | .recv | .print _ => 1
  | _ => 0

/-- The event that a call comes back with. -/
def Call.received : Call → List ProcEvent
  | .recv (.event ev) => [ev]
  | _ => []

theorem listens_of_move {needExit : Bool} {pc pc' : Pc} {call : Call} {d : Int}
    (h : move needExit pc call = some (pc', d)) : d + pc.listens.toNat = pc'.listens.toNat := by
  unfold move at h
  split at h <;> cases h <;> simp [Pc.listens]
  cases needExit <;> rfl

theorem pending_of_move {needExit : Bool} {pc pc' : Pc} {call : Call} {d : Int}
    (h : move needExit pc call = some (pc', d)) :
    prints pc call ++ pc'.pending = pc.pending ++ call.received.map line := by
  unfold move at h
  split at h <;> cases h <;> simp [prints, Pc.pending, Call.received]
  cases needExit <;> rfl

theorem due_of_move {pc pc' : Pc} {call : Call} {d : Int}
    (h : move true pc call = some (pc', d)) :
    (prints pc call).length + pc'.due ≤ pc.due := by
  unfold move at h
  split at h <;> cases h <;> simp [prints, Pc.due]

/-- A step moves the count of the kernel as it moves the monitor. -/
theorem listeners_of_act {proc proc' : Proc} {n n' : Int} {call : Call}
    (h : act proc n call = some (proc', n')) :
    n' + proc.pc.listens.toNat = n + proc'.pc.listens.toNat := by
  rcases act_cases h with ⟨-, rfl, rfl⟩ | ⟨pc', d, hmove, rfl, rfl⟩
  · rfl
  · rw [Int.add_assoc, listens_of_move hmove]

/-- A step prints what was pending, or makes what it receives pending. -/
theorem printed_of_act {proc proc' : Proc} {n n' : Int} {call : Call}
    (h : act proc n call = some (proc', n')) :
    proc'.printed ++ proc'.pc.pending =
      proc.printed ++ proc.pc.pending ++ call.received.map line := by
  rcases act_cases h with ⟨rfl, rfl, -⟩ | ⟨pc', d, hmove, -, rfl⟩
  · simp [Call.received]
  · rw [List.append_assoc, List.append_assoc, pending_of_move hmove]

/-- Behind SIGINT a line is printed only where one was due, and none becomes due. -/
theorem due_of_act {proc proc' : Proc} {n n' : Int} {call : Call}
    (h : act proc n call = some (proc', n')) (hexit : proc.needExit = true) :
    proc'.needExit = true ∧
      proc'.printed.length + proc'.pc.due ≤ proc.printed.length + proc.pc.due := by
  rcases act_cases h with ⟨-, rfl, -⟩ | ⟨pc', d, hmove, -, rfl⟩
  · exact ⟨rfl, le_rfl⟩
  · refine ⟨hexit, ?_⟩
    rw [hexit] at hmove
    rw [List.length_append, Nat.add_assoc]
    exact Nat.add_le_add_left (due_of_move hmove) _

/-! ## Several monitors -/

variable {ι : Type} [DecidableEq ι]

structure State (ι : Type) where
  proc : ι → Proc
  listeners : Int

/-- Monitors that have just been started, on a kernel with so many listeners. -/
def start (listeners : Int) : State ι := ⟨fun _ => ⟨.nlConnect, false, []⟩, listeners⟩

def step (s : State ι) (l : ι × Call) : Option (State ι) :=
  (act (s.proc l.1) s.listeners l.2).map fun next =>
    ⟨Function.update s.proc l.1 next.1, next.2⟩

abbrev Runs (s : State ι) (ls : List (ι × Call)) (s' : State ι) : Prop :=
  Run (fun s l s' => step s l = some s') s ls s'

theorem step_eq_some {s s' : State ι} {l : ι × Call} (h : step s l = some s') :
    ∃ proc' n', act (s.proc l.1) s.listeners l.2 = some (proc', n') ∧
      s' = ⟨Function.update s.proc l.1 proc', n'⟩ := by
  obtain ⟨⟨proc', n'⟩, hact, rfl⟩ := Option.map_eq_some_iff.mp h
  exact ⟨proc', n', hact, rfl⟩

theorem listeners_eq [Fintype ι] {n : Int} {s : State ι} {ls : List (ι × Call)}
    (hrun : Runs (start n) ls s) : s.listeners = n + count (·.pc.listens) s.proc := by
  refine hrun.invariant (I := fun s => s.listeners = n + count (·.pc.listens) s.proc)
    (fun s l s' hs h => ?_) ?_
  · obtain ⟨proc', n', hact, rfl⟩ := step_eq_some h
    have hone := listeners_of_act hact
    have hall := count_update (·.pc.listens) s.proc l.1 proc'
    show n' = n + count (·.pc.listens) (Function.update s.proc l.1 proc')
    omega
  · simp [start, count, Pc.listens]

/-- **When all monitors have exited, the kernel still counts those that got past the
    `PROC_CN_MCAST_IGNORE`**, by a failed `recv` or a failed `send`; a monitor with the status 0
    is one of them only where its last `send` failed. -/
theorem kept_after_exit [Fintype ι] (n : Int) (ls : List (ι × Call)) (s : State ι)
    (hrun : Runs (start n) ls s) (hexited : ∀ i, ∃ why, (s.proc i).pc = .exited why) :
    s.listeners = n + count (fun proc =>
      proc.pc = .exited .recvFailed ∨ proc.pc = .exited (.stopped false)) s.proc := by
  rw [listeners_eq hrun, count, count]
  congr 3
  refine Finset.filter_congr fun i _ => ?_
  obtain ⟨why, hwhy⟩ := hexited i
  simp [Pc.listens, hwhy]

/-- One monitor is stopped by SIGINT, the other by an error of `recv`. -/
theorem kept_after_exit_two :
    ∃ s : State Bool, Runs (start 5) [(true, .nlConnect true), (false, .nlConnect true),
        (true, .listen true), (false, .listen true), (true, .check), (false, .check),
        (true, .recv .failed), (false, .sigint), (false, .recv .interrupted), (false, .check),
        (true, .close), (false, .ignore true), (false, .close)] s ∧
      s.listeners = 5 + count (fun proc =>
        proc.pc = .exited .recvFailed ∨ proc.pc = .exited (.stopped false)) s.proc := by
  have hrun : Runs (start 5) [(true, Call.nlConnect true), (false, .nlConnect true),
        (true, .listen true), (false, .listen true), (true, .check), (false, .check),
        (true, .recv .failed), (false, .sigint), (false, .recv .interrupted), (false, .check),
        (true, .close), (false, .ignore true), (false, .close)] _ := Run.of_foldlM rfl
  refine ⟨_, hrun, kept_after_exit 5 _ _ hrun fun i => ?_⟩
  cases i
  · exact ⟨.stopped true, rfl⟩
  · exact ⟨.recvFailed, rfl⟩

/-- What monitor `i` receives in a run. -/
def received (i : ι) (ls : List (ι × Call)) : List ProcEvent :=
  ls.flatMap fun l => if l.1 = i then l.2.received else []

theorem printed_from {s s' : State ι} {ls : List (ι × Call)} (hrun : Runs s ls s') (i : ι) :
    (s'.proc i).printed ++ (s'.proc i).pc.pending =
      (s.proc i).printed ++ (s.proc i).pc.pending ++ (received i ls).map line := by
  induction hrun with
  | nil s => simp [received]
  | @cons s mid s' l ls h _ ih =>
    obtain ⟨proc', n', hact, rfl⟩ := step_eq_some h
    have hone := printed_of_act hact
    have hcons : received i (l :: ls) = (if l.1 = i then l.2.received else []) ++ received i ls :=
      List.flatMap_cons
    rw [ih, hcons]
    rcases eq_or_ne l.1 i with rfl | hne
    · simp only [Function.update_self, hone, if_true, List.map_append, List.append_assoc]
    · simp only [Function.update_of_ne hne.symm, if_neg hne, List.nil_append]

/-- **Each event is printed once and in order**, the last one perhaps not yet. -/
theorem printed_of_run (n : Int) (ls : List (ι × Call)) (s : State ι)
    (hrun : Runs (start n) ls s) (i : ι) :
    (s.proc i).printed ++ (s.proc i).pc.pending = (received i ls).map line :=
  printed_from hrun i

/-- A fork that is received and not printed yet. -/
theorem printed_of_run_fork :
    ∃ s : State Unit, Runs (start 0) [((), .nlConnect true), ((), .listen true), ((), .check),
        ((), .recv (.event .none)), ((), .print), ((), .check),
        ((), .recv (.event (.fork 1 1 2 2)))] s ∧
      (s.proc ()).printed ++ (s.proc ()).pc.pending =
        [line .none, line (.fork 1 1 2 2)] := by
  have hrun : Runs (start 0) [((), Call.nlConnect true), ((), .listen true), ((), .check),
        ((), .recv (.event .none)), ((), .print), ((), .check),
        ((), .recv (.event (.fork 1 1 2 2)))] _ := Run.of_foldlM rfl
  exact ⟨_, hrun, printed_of_run 0 _ _ hrun ()⟩

/-- **Behind SIGINT at most one more line is printed.** -/
theorem stops_after_signal (s s' : State ι) (ls : List (ι × Call)) (hrun : Runs s ls s') (i : ι)
    (hexit : (s.proc i).needExit = true) :
    (s'.proc i).printed.length ≤ (s.proc i).printed.length + (s.proc i).pc.due := by
  have hdue := hrun.invariant (I := fun t => (t.proc i).needExit = true ∧
      (t.proc i).printed.length + (t.proc i).pc.due ≤
        (s.proc i).printed.length + (s.proc i).pc.due)
    (fun t l t' ht h => ?_) ⟨hexit, le_rfl⟩
  · omega
  · obtain ⟨proc', n', hact, rfl⟩ := step_eq_some h
    rcases eq_or_ne l.1 i with rfl | hne
    · obtain ⟨hexit', hle⟩ := due_of_act hact ht.1
      simp only [Function.update_self]
      exact ⟨hexit', hle.trans ht.2⟩
    · simpa only [Function.update_of_ne hne.symm] using ht

/-- SIGINT comes behind the test of `need_exit`, and an event behind it. -/
theorem stops_after_signal_recv :
    ∃ s' : State Unit, Runs ⟨fun _ => ⟨.recv, true, []⟩, 1⟩
        [((), .recv (.event (.exec 7 7))), ((), .print), ((), .check), ((), .ignore true)] s' ∧
      (s'.proc ()).printed.length ≤ 0 + 1 := by
  have hrun : Runs ⟨fun _ => ⟨.recv, true, []⟩, 1⟩
      [((), Call.recv (.event (.exec 7 7))), ((), .print), ((), .check), ((), .ignore true)] _ :=
    Run.of_foldlM rfl
  exact ⟨_, hrun, stops_after_signal _ _ _ hrun () rfl⟩

end LinuxSummary.ProcConnector
