/-
  `getDiskNameByPCI` of `get_diskname_by_volume_id.py` and the guest agent.

  The host asks for `guest-exec` of `readlink` and then, once, for `guest-exec-status`. In
  the guest the process runs on its own: it may exit at any time between two steps of the
  host (`Finish`), and the status has `out-data` only if it has exited by then and printed
  something. The machine logs for each status whether the process had exited. The script is
  read as the Python 2 program it is.

  `disk_name_iff`: an ended call has printed the last component of the link target exactly
  when the process had exited before the status was answered and that component is one word.
-/
import LinuxSummary.Library.Base64
import LinuxSummary.Library.Dialogue

namespace LinuxSummary.Libvirt

open Prog
open Relation (ReflTransGen)

abbrev Bytes := List UInt8

/-! ## The agent -/

/-- The arguments of `guest-exec`. -/
structure Exec where
  path : Text
  arg : List Text
  captureOutput : Bool

/-- A process that `guest-exec` has started, and what it printed once it has exited. -/
inductive Process
  | running (cmd : Exec)
  | exited (out : Bytes)

/-- The reply of `guest-exec-status`. -/
structure Status where
  exited : Bool
  outData : Option Text

structure Machine where
  procs : Nat → Option Process
  /-- the pid of the next process -/
  next : Nat
  /-- for each status that was answered, whether the process had exited -/
  answered : List Bool
  stdout : List Bytes

inductive Ask
  | guestExec (cmd : Exec)
  | guestExecStatus (pid : Nat)
  | print (line : Bytes)

/-- A status of an unknown pid is an error of the agent. -/
abbrev Ask.Reply : Ask → Type
  | .guestExec _ => Nat
  | .guestExecStatus _ => Option Status
  | .print _ => Unit

def serve : (q : Ask) → Machine → q.Reply × Machine
  | .guestExec cmd, m =>
    (m.next, { m with
      procs := Function.update m.procs m.next (some (.running cmd))
      next := m.next + 1 })
  | .guestExecStatus pid, m =>
    match m.procs pid with
    | none => (none, m)
    | some (.running _) => (some ⟨false, none⟩, { m with answered := m.answered ++ [false] })
    | some (.exited out) =>
      (some ⟨true, if out = [] then none else some (Base64.encode out)⟩,
        { m with answered := m.answered ++ [true] })
  | .print line, m => ((), { m with stdout := m.stdout ++ [line] })

/-- What the process prints: `readlink` the target and a newline, or nothing for no link. -/
def output (links : Text → Option Bytes) (cmd : Exec) : Bytes :=
  if cmd.path = "readlink".toList ∧ cmd.captureOutput = true then
    match cmd.arg with
    | [link] => (links link).elim [] (· ++ [10])
    | _ => []
  else []

/-- A process exits. -/
inductive Finish (links : Text → Option Bytes) : Machine → Machine → Prop
  | exit {m : Machine} {pid : Nat} {cmd : Exec} (h : m.procs pid = some (.running cmd)) :
      Finish links m
        { m with procs := Function.update m.procs pid (some (.exited (output links cmd))) }

/-! ## The script -/

inductive Exn
  | libvirtError
  | keyError
  | typeError
  | indexError
deriving DecidableEq

/-- White space of `split()`. -/
def isSpace (b : UInt8) : Bool := b = 32 || (9 ≤ b && b ≤ 13)

/-- `text.split()[0]` -/
def firstWord (text : Bytes) : Option Bytes :=
  match (text.dropWhile isSpace).takeWhile (!isSpace ·) with
  | [] => none
  | w => some w

/-- `text.split("/")[-1]` -/
def lastComponent (text : Bytes) : Bytes := (text.splitOn 47).getLastD []

def linkPath (pci : Text) : Text := "/dev/disk/by-path/virtio-pci-".toList ++ pci

def readlink (pci : Text) : Exec := ⟨"readlink".toList, [linkPath pci], true⟩

abbrev Py (α : Type) := Prog Ask Ask.Reply Exn α

/-- From `ret_dict["return"]` to `disk_name`. -/
def diskName (ret : Option Status) : Except Exn Bytes :=
  match ret with
  | none => .error .libvirtError
  | some status =>
    match status.outData with
    | none => .error .keyError
    | some outData =>
      match Base64.decode outData with
      | none => .error .typeError
      | some outDataStr =>
        match firstWord (lastComponent outDataStr) with
        | none => .error .indexError
        | some diskName => .ok diskName

def printName (ret : Option Status) : Py Unit :=
  match diskName ret with
  | .error e => .throw e
  | .ok diskName => .ask (.print diskName) fun _ => .ret ()

def getDiskNameByPCI (pci : Text) : Py Unit :=
  .ask (.guestExec (readlink pci)) fun pid =>
  .ask (.guestExecStatus pid) printName

/-! ## The printed word -/

/-- The last component has at least one character and no white space. -/
def IsWord (text : Bytes) : Prop := text ≠ [] ∧ ∀ b ∈ text, isSpace b = false

/-- Behind the last slash. -/
theorem lastComponent_slash {a : Bytes} (ha : (47 : UInt8) ∉ a) (pre : Bytes) :
    lastComponent (pre ++ 47 :: a) = a := by
  rw [lastComponent, List.splitOn_append_cons_self, List.splitOn_eq_singleton ha,
    List.getLastD_concat]

theorem lastComponent_append {a : Bytes} (ha : (47 : UInt8) ∉ a) (pre : Bytes) :
    lastComponent (pre ++ a) = lastComponent pre ++ a := by
  obtain ⟨ws, y, h1, h2⟩ := Text.splitOn_append_of_not_mem ha pre
  rw [lastComponent, lastComponent, h1, h2, List.getLastD_concat, List.getLastD_concat]

theorem firstWord_newline (text : Bytes) :
    firstWord (text ++ [10]) = some text ↔ IsWord text := by
  unfold firstWord IsWord
  constructor
  · intro h
    split at h
    · exact absurd h (by simp)
    · next hne =>
      have heq := Option.some.inj h
      refine ⟨fun hnil => hne (heq.trans hnil), fun b hb => ?_⟩
      rw [← heq] at hb
      simpa using List.mem_takeWhile_imp hb
  · intro h
    obtain ⟨hne, hall⟩ := h
    have hdrop : (text ++ [10]).dropWhile isSpace = text ++ [10] := by
      cases text with
      | nil => exact absurd rfl hne
      | cons b bs => rw [List.cons_append, List.dropWhile_cons_of_neg (by simp [hall b])]
    have htake : (text ++ [10]).takeWhile (!isSpace ·) = text := by
      rw [List.takeWhile_append_of_pos (fun b hb => by simp [hall b hb])]
      simp [show isSpace 10 = true from rfl]
    rw [hdrop, htake]
    split
    · exact absurd rfl hne
    · rfl

/-! ## Every interleaving -/

section
variable (links : Text → Option Bytes) {pci : Text} {target : Bytes}

theorem output_readlink (hlink : links (linkPath pci) = some target) :
    output links (readlink pci) = target ++ [10] := by
  unfold output readlink
  simp only [and_self, if_true, hlink, Option.elim_some]

/-- Between the two commands: the process of the host is still there, and nothing was answered
    or printed. -/
def Waiting (pci : Text) (target : Bytes) (m0 : Machine) (m : Machine) : Prop :=
  (m.procs m0.next = some (.running (readlink pci)) ∨
    m.procs m0.next = some (.exited (target ++ [10]))) ∧
    m.answered = m0.answered ∧ m.stdout = m0.stdout

/-- What processes do that exit: they answer nothing and print nothing on the host. -/
theorem finish_logs {m m' : Machine} (h : ReflTransGen (Finish links) m m') :
    m'.answered = m.answered ∧ m'.stdout = m.stdout := by
  induction h with
  | refl => exact ⟨rfl, rfl⟩
  | tail _ hstep ih =>
    cases hstep
    exact ih

theorem waiting_stable (hlink : links (linkPath pci) = some target) (m0 : Machine) :
    Stable (Finish links) (Waiting pci target m0) := by
  intro m m' h hstep
  obtain ⟨hproc, hlog⟩ := h
  cases hstep with
  | @exit pid cmd hrun =>
    refine ⟨?_, hlog⟩
    by_cases hpid : m0.next = pid
    · subst hpid
      right
      rcases hproc with hproc | hproc
      · obtain rfl := Process.running.inj (Option.some.inj (hproc.symm.trans hrun))
        rw [← output_readlink links hlink]
        exact Function.update_self _ _ _
      · exact absurd (hproc.symm.trans hrun) (by simp)
    · dsimp only
      rwa [Function.update_of_ne hpid]

theorem diskName_exited (target : Bytes) :
    diskName (some ⟨true, some (Base64.encode (target ++ [10]))⟩) =
      match firstWord (lastComponent target ++ [10]) with
      | none => .error .indexError
      | some diskName => .ok diskName := by
  have hlast : lastComponent (target ++ [10]) = lastComponent target ++ [10] :=
    lastComponent_append (by decide) target
  simp only [diskName, Base64.decode_encode, hlast]

/-- What the host has printed and logged at the end. -/
def Told (target : Bytes) (m0 : Machine) (r : Except Exn Unit) (m : Machine) : Prop :=
  (r = .ok () ∧ m.stdout = m0.stdout ++ [lastComponent target]) ↔
    m.answered = m0.answered ++ [true] ∧ IsWord (lastComponent target)

theorem sat_getDiskNameByPCI (hlink : links (linkPath pci) = some target) (m : Machine) :
    Sat serve (Finish links) (fun _ _ => True) (fun r m' => ∃ m0 : Machine,
      m0.answered = m.answered ∧ m0.stdout = m.stdout ∧ Told target m0 r m')
      (getDiskNameByPCI pci) m := by
  intro m0 hr0 _
  obtain ⟨hans0, hout0⟩ := finish_logs links hr0
  intro m1 hr1 _
  have hwait : Waiting pci target m0 m1 := by
    refine (waiting_stable links hlink m0).star ?_ hr1
    exact ⟨.inl (Function.update_self _ _ _), rfl, rfl⟩
  obtain ⟨hproc, hans1, hout1⟩ := hwait
  rcases hproc with hproc | hproc
  · -- the process is still running: there is no `out-data`
    simp only [serve, hproc, printName, diskName]
    intro m2 hr2
    obtain ⟨hans2, -⟩ := finish_logs links hr2
    refine ⟨m0, hans0, hout0, ⟨fun h => absurd h.1 (by simp), fun h => ?_⟩⟩
    have hlast := hans2.symm.trans h.1
    rw [hans1] at hlast
    exact absurd (List.append_cancel_left hlast) (by simp)
  · have hne : target ++ [10] ≠ [] := by simp
    simp only [serve, hproc, if_neg hne, printName, diskName_exited]
    cases hword : firstWord (lastComponent target ++ [10]) with
    | none =>
      intro m2 hr2
      refine ⟨m0, hans0, hout0, ⟨fun h => absurd h.1 (by simp), fun h => ?_⟩⟩
      rw [(firstWord_newline _).mpr h.2] at hword
      exact absurd hword (by simp)
    | some diskName =>
      intro m2 hr2 _ m3 hr3
      obtain ⟨hans2, hout2⟩ := finish_logs links hr2
      obtain ⟨hans3, hout3⟩ := finish_logs links hr3
      have hanswered : m3.answered = m0.answered ++ [true] :=
        hans3.trans (hans2.trans (congrArg (· ++ [true]) hans1))
      have hstdout : m3.stdout = m0.stdout ++ [diskName] :=
        hout3.trans (congrArg (· ++ [diskName]) (hout2.trans hout1))
      refine ⟨m0, hans0, hout0, ⟨fun h => ⟨hanswered, ?_⟩, fun h => ⟨rfl, ?_⟩⟩⟩
      · have hname := List.append_cancel_left (hstdout.symm.trans h.2)
        rw [(List.cons.inj hname).1] at hword
        exact (firstWord_newline _).mp hword
      · rw [hstdout]
        have hsome := (firstWord_newline _).mpr h.2
        rw [Option.some.inj (hsome.symm.trans hword)]

/-- **The name is printed exactly when the process was faster than the status**, over every
    order of the steps, for every link whose target ends in one word. -/
theorem disk_name_iff (hlink : links (linkPath pci) = some target) {m m' : Machine}
    {r : Except Exn Unit} {p : Py Unit}
    (hend : p = match r with
      | .ok () => .ret ()
      | .error e => .throw e)
    (hrun : ReflTransGen (Step serve (Finish links) fun _ _ => True)
      (m, getDiskNameByPCI pci) (m', p)) :
    (r = .ok () ∧ m'.stdout = m.stdout ++ [lastComponent target]) ↔
      m'.answered = m.answered ++ [true] ∧ IsWord (lastComponent target) := by
  have hsat := (sat_getDiskNameByPCI links hlink m).run (c := (m, getDiskNameByPCI pci)) hrun
  have hpost : ∃ m0 : Machine, m0.answered = m.answered ∧ m0.stdout = m.stdout ∧
      Told target m0 r m' := by
    subst hend
    cases r with
    | ok a => exact hsat m' ReflTransGen.refl
    | error e => exact hsat m' ReflTransGen.refl
  obtain ⟨m0, hans, hout, htold⟩ := hpost
  rw [← hans, ← hout]
  exact htold

/-! ## Both orders happen -/

/-- The status is answered at once: the script ends with a `KeyError`. -/
theorem run_slow (m : Machine) (pci : Text) : ∃ m',
    ReflTransGen (Step serve (Finish links) fun _ _ => True) (m, getDiskNameByPCI pci)
      (m', .throw .keyError) := by
  obtain ⟨m1, hm1⟩ : ∃ m1, m1 = (serve (.guestExec (readlink pci)) m).2 := ⟨_, rfl⟩
  have hproc : m1.procs m.next = some (.running (readlink pci)) := by
    rw [hm1]
    exact Function.update_self _ _ _
  have hstatus : serve (.guestExecStatus m.next) m1 =
      (some ⟨false, none⟩, { m1 with answered := m1.answered ++ [false] }) := by
    simp only [serve, hproc]
  have hexec : Step serve (Finish links) (fun _ _ => True) (m, getDiskNameByPCI pci)
      (m1, .ask (.guestExecStatus m.next) printName) := by
    rw [hm1]
    exact Step.own trivial
  have hask : Step serve (Finish links) (fun _ _ => True)
      (m1, .ask (.guestExecStatus m.next) printName)
      ((serve (.guestExecStatus m.next) m1).2, printName (serve (.guestExecStatus m.next) m1).1) :=
    Step.own trivial
  rw [hstatus] at hask
  exact ⟨_, ReflTransGen.head hexec (ReflTransGen.single hask)⟩

/-- The process exits before the status is asked for: the script returns. -/
theorem run_fast (hlink : links (linkPath pci) = some target)
    (hword : IsWord (lastComponent target)) (m : Machine) : ∃ m',
    ReflTransGen (Step serve (Finish links) fun _ _ => True) (m, getDiskNameByPCI pci)
      (m', .ret ()) ∧ m'.answered = m.answered ++ [true] := by
  obtain ⟨m1, hm1⟩ : ∃ m1, m1 = (serve (.guestExec (readlink pci)) m).2 := ⟨_, rfl⟩
  have hproc : m1.procs m.next = some (.running (readlink pci)) := by
    rw [hm1]
    exact Function.update_self _ _ _
  obtain ⟨m2, hm2⟩ : ∃ m2 : Machine, m2 = { m1 with
      procs := Function.update m1.procs m.next (some (.exited (output links (readlink pci)))) } :=
    ⟨_, rfl⟩
  have hne : target ++ [10] ≠ [] := by simp
  have hdone : m2.procs m.next = some (.exited (target ++ [10])) := by
    rw [hm2, output_readlink links hlink]
    exact Function.update_self _ _ _
  have hstatus : serve (.guestExecStatus m.next) m2 =
      (some ⟨true, some (Base64.encode (target ++ [10]))⟩,
        { m2 with answered := m2.answered ++ [true] }) := by
    simp only [serve, hdone, if_neg hne]
  have hname : printName (some ⟨true, some (Base64.encode (target ++ [10]))⟩) =
      .ask (.print (lastComponent target)) fun _ => .ret () := by
    simp only [printName, diskName_exited, (firstWord_newline _).mpr hword]
  have hexec : Step serve (Finish links) (fun _ _ => True) (m, getDiskNameByPCI pci)
      (m1, .ask (.guestExecStatus m.next) printName) := by
    rw [hm1]
    exact Step.own trivial
  have hexit : Step serve (Finish links) (fun _ _ => True)
      (m1, .ask (.guestExecStatus m.next) printName)
      (m2, .ask (.guestExecStatus m.next) printName) := by
    rw [hm2]
    exact Step.other (.exit hproc)
  have hask : Step serve (Finish links) (fun _ _ => True)
      (m2, .ask (.guestExecStatus m.next) printName)
      ((serve (.guestExecStatus m.next) m2).2, printName (serve (.guestExecStatus m.next) m2).1) :=
    Step.own trivial
  rw [hstatus, hname] at hask
  refine ⟨_, ReflTransGen.head hexec (ReflTransGen.head hexit (ReflTransGen.head hask
    (ReflTransGen.single (Step.own trivial)))), ?_⟩
  show m2.answered ++ [true] = _
  rw [hm2, hm1]
  rfl

end

/-- A guest with one disk, before anything is asked. -/
def idle : Machine := ⟨fun _ => none, 1, [], []⟩

/-- `../../vda` -/
def vdaTarget : Bytes := [46, 46, 47, 46, 46] ++ 47 :: [118, 100, 97]

def vdaLink (_ : Text) : Option Bytes := some vdaTarget

theorem isWord_vda : IsWord (lastComponent vdaTarget) := by
  rw [vdaTarget, lastComponent_slash (by decide)]
  refine ⟨by simp, fun b hb => ?_⟩
  simp only [List.mem_cons, List.not_mem_nil, or_false] at hb
  rcases hb with rfl | rfl | rfl <;> rfl

/-- A guest that is fast enough. -/
theorem disk_name_vda : ∃ m' : Machine, m'.stdout = [lastComponent vdaTarget] := by
  have hlink : vdaLink (linkPath []) = some vdaTarget := rfl
  obtain ⟨m', hrun, hans⟩ := run_fast vdaLink hlink isWord_vda idle
  have htold := @disk_name_iff vdaLink [] vdaTarget hlink idle m' (.ok ()) (.ret ()) rfl hrun
  exact ⟨m', (htold.mpr ⟨hans, isWord_vda⟩).2⟩

/-- A guest that is not: the script raises `KeyError`, though the target would be printed. -/
theorem disk_name_lost : ∃ m', vdaLink (linkPath []) = some vdaTarget ∧
    ReflTransGen (Step serve (Finish vdaLink) fun _ _ => True) (idle, getDiskNameByPCI [])
      (m', .throw .keyError) := by
  obtain ⟨m', hrun⟩ := run_slow vdaLink idle []
  exact ⟨m', rfl, hrun⟩

end LinuxSummary.Libvirt
