/-
  The module `eventfd/efd_lkm.c`, which signals the eventfd of `eventfd/efd_us.c`.

  The user's program waits for its eventfd, reads it once, prints what it read and closes it. The
  module is loaded with the numbers of a process and of a descriptor; each statement of its
  `init_module` is a step, so the program can close its eventfd between any two of them. Only
  `eventfd_ctx_fileget` takes a reference.

  `value_of_run`: what is printed is 123 for each signal before the read. `faults_iff`: the
  module never faults exactly when it is always loaded with an eventfd that is open, and none is
  closed before the module has its reference.
-/
import LinuxSummary.EventFd.Counters

namespace LinuxSummary.EventFd.Signal

open Machine

/-! ## The kernel's side -/

/-- What the numbers of a process and of a descriptor stand for. -/
inductive File
  /-- the eventfd of the program -/
  | own
  /-- that of another one -/
  | eventfd
  | notEventfd
  | noFile
  | noTask
deriving DecidableEq

/-- `eventfd_signal`: the counter stays where it would overflow. -/
def eventfdSignal (count n : Nat) : Nat := count + min n (ULLONG_MAX - count)

/-- What `efd_ctx` is: never `NULL`, which is the one error that `init_module` checks for. -/
inductive Ctx
  | ctx
  | errptr
  /-- a file that is `NULL`, or has been freed -/
  | fault

def eventfdCtxFileget (isOpen : Bool) : File → Ctx
  | .own => if isOpen then .ctx else .fault
  | .eventfd => .ctx
  | .notEventfd => .errptr
  | .noFile => .fault
  | .noTask => .fault

/-! ## The two programs -/

/-- `efd_us.c` behind `epoll_ctl`. -/
inductive Us
  | waiting
  | reading
  | printing (count : Nat)
  | closing
  | ended
deriving DecidableEq

/-- `efd_lkm.c`: behind `pid_task`, behind `fcheck_files`, behind `eventfd_ctx_fileget`, behind
    `eventfd_signal`. -/
inductive Lkm
  | unloaded
  | task (file : File)
  | file (file : File)
  | ctx (file : File)
  | signalled
  | loaded
deriving DecidableEq

structure Params where
  pid : Int
  efd : Int
  /-- all other descriptors, which do not change during a run -/
  others : Int → Int → File

def Params.find (p : Params) (pid efd : Int) : File :=
  if pid = p.pid ∧ efd = p.efd then .own else p.others pid efd

structure State where
  us : Us
  /-- the eventfd of the program is open -/
  isOpen : Bool
  count : Nat
  printed : List Nat
  lkm : Lkm
  oops : Bool

def start : State where
  us := .waiting
  isOpen := true
  count := 0
  printed := []
  lkm := .unloaded
  oops := false

/-- The program; `die` is an error of a call, or a signal. -/
inductive UsLabel
  | wake
  | read
  | print
  | close
  | die
deriving DecidableEq

/-- The module, on the program's eventfd (`signal`) or on another one (`signalOther`). -/
inductive LkmLabel
  | insmod (pid efd : Int)
  | fcheckFiles
  | fileget
  | signal
  | signalOther
  | put
  | rmmod
deriving DecidableEq

inductive Label
  | us (l : UsLabel)
  | lkm (l : LkmLabel)
deriving DecidableEq

def usStep (s : State) : UsLabel → Option State
  | .wake => if s.us = .waiting ∧ 0 < s.count then some { s with us := .reading } else none
  | .read =>
    if s.us = .reading then
      (eventfdRead s.count).map fun r => { s with us := .printing r.1, count := r.2 }
    else none
  | .print =>
    match s.us with
    | .printing count => some { s with us := .closing, printed := s.printed ++ [count] }
    | _ => none
  | .close => if s.us = .closing then some { s with us := .ended, isOpen := false } else none
  | .die => if s.us ≠ .ended then some { s with us := .ended, isOpen := false } else none

def State.fault (s : State) : State := { s with oops := true }

def State.setLkm (s : State) (lkm : Lkm) : State := { s with lkm := lkm }

/-- A process that has ended has no files: `userspace_task` is `NULL`. -/
def insmodStep (p : Params) (s : State) (pid efd : Int) : State :=
  if p.find pid efd = .noTask ∨ (p.find pid efd = .own ∧ s.us = .ended) then s.fault
  else s.setLkm (.task (p.find pid efd))

/-- What the descriptor stands for at this time. -/
def fcheck (s : State) (file : File) : File :=
  if file = .own ∧ s.isOpen = false then .noFile else file

/-- An error pointer passes the check, and `eventfd_signal` uses it. -/
def filegetStep (s : State) (file : File) : State :=
  match eventfdCtxFileget s.isOpen file with
  | .ctx => s.setLkm (.ctx file)
  | .errptr => s.fault
  | .fault => s.fault

def lkmStep (p : Params) (s : State) : LkmLabel → Option State
  | .insmod pid efd => if s.lkm = .unloaded then some (insmodStep p s pid efd) else none
  | .fcheckFiles =>
    match s.lkm with
    | .task file => some (s.setLkm (.file (fcheck s file)))
    | _ => none
  | .fileget =>
    match s.lkm with
    | .file file => some (filegetStep s file)
    | _ => none
  | .signal =>
    if s.lkm = .ctx .own then
      some { s.setLkm .signalled with count := eventfdSignal s.count 123 }
    else none
  | .signalOther => if s.lkm = .ctx .eventfd then some (s.setLkm .signalled) else none
  | .put => if s.lkm = .signalled then some (s.setLkm .loaded) else none
  | .rmmod => if s.lkm = .loaded then some (s.setLkm .unloaded) else none

def step (p : Params) (s : State) (l : Label) : Option State :=
  if s.oops then none
  else
    match l with
    | .us l => usStep s l
    | .lkm l => lkmStep p s l

/-- Any interleaving of the program with loading and unloading the module. -/
abbrev Runs (p : Params) : State → List Label → State → Prop :=
  Run fun s l s' => step p s l = some s'

/-! ## One step -/

section
variable {p : Params} {s s' : State}

theorem oops_of_step {l : Label} (h : step p s l = some s') : s.oops = false := by
  unfold step at h
  split at h
  · cases h
  · next hoops => simpa using hoops

/-- The program leaves the module alone. The eventfd is closed by `close` and by the end of the
    program. -/
theorem usStep_spec {l : UsLabel} (h : usStep s l = some s') :
    s'.lkm = s.lkm ∧ s'.oops = s.oops ∧
      ((s'.isOpen = s.isOpen ∧ s.us ≠ .ended ∧ s'.us ≠ .ended ∧ l ≠ .close ∧ l ≠ .die) ∨
        (s'.isOpen = false ∧ s'.us = .ended ∧ (l = .close ∨ l = .die))) := by
  cases l with
  | wake =>
    simp only [usStep, Option.ite_none_right_eq_some, Option.some.injEq] at h
    obtain ⟨⟨hus, -⟩, rfl⟩ := h
    exact ⟨rfl, rfl, .inl ⟨rfl, by simp [hus], by simp, by simp, by simp⟩⟩
  | read =>
    simp only [usStep, Option.ite_none_right_eq_some, Option.map_eq_some_iff] at h
    obtain ⟨hus, r, -, rfl⟩ := h
    exact ⟨rfl, rfl, .inl ⟨rfl, by simp [hus], by simp, by simp, by simp⟩⟩
  | print =>
    simp only [usStep] at h
    split at h
    · next count hus =>
      cases h
      exact ⟨rfl, rfl, .inl ⟨rfl, by simp [hus], by simp, by simp, by simp⟩⟩
    · cases h
  | close =>
    simp only [usStep, Option.ite_none_right_eq_some, Option.some.injEq] at h
    obtain ⟨-, rfl⟩ := h
    exact ⟨rfl, rfl, .inr ⟨rfl, rfl, .inl rfl⟩⟩
  | die =>
    simp only [usStep, Option.ite_none_right_eq_some, Option.some.injEq] at h
    obtain ⟨-, rfl⟩ := h
    exact ⟨rfl, rfl, .inr ⟨rfl, rfl, .inr rfl⟩⟩

/-- All that the module does. -/
inductive LkmStep (p : Params) (s : State) : LkmLabel → State → Prop
  | insmod {pid efd : Int} : LkmStep p s (.insmod pid efd) (insmodStep p s pid efd)
  | fcheckFiles {file : File} (h : s.lkm = .task file) :
      LkmStep p s .fcheckFiles (s.setLkm (.file (fcheck s file)))
  | fileget {file : File} (h : s.lkm = .file file) : LkmStep p s .fileget (filegetStep s file)
  | signal : LkmStep p s .signal { s.setLkm .signalled with count := eventfdSignal s.count 123 }
  | behind {l : LkmLabel} {lkm : Lkm} (hl : l ≠ .signal)
      (h : lkm = .signalled ∨ lkm = .loaded ∨ lkm = .unloaded) : LkmStep p s l (s.setLkm lkm)

theorem lkmStep_cases {l : LkmLabel} (h : lkmStep p s l = some s') : LkmStep p s l s' := by
  cases l with
  | insmod pid efd =>
    simp only [lkmStep, Option.ite_none_right_eq_some, Option.some.injEq] at h
    exact h.2 ▸ .insmod
  | fcheckFiles =>
    simp only [lkmStep] at h
    split at h
    · next file hlkm => exact Option.some.inj h ▸ .fcheckFiles hlkm
    · cases h
  | fileget =>
    simp only [lkmStep] at h
    split at h
    · next file hlkm => exact Option.some.inj h ▸ .fileget hlkm
    · cases h
  | signal =>
    simp only [lkmStep, Option.ite_none_right_eq_some, Option.some.injEq] at h
    exact h.2 ▸ .signal
  | signalOther =>
    simp only [lkmStep, Option.ite_none_right_eq_some, Option.some.injEq] at h
    exact h.2 ▸ .behind (by simp) (.inl rfl)
  | put =>
    simp only [lkmStep, Option.ite_none_right_eq_some, Option.some.injEq] at h
    exact h.2 ▸ .behind (by simp) (.inr (.inl rfl))
  | rmmod =>
    simp only [lkmStep, Option.ite_none_right_eq_some, Option.some.injEq] at h
    exact h.2 ▸ .behind (by simp) (.inr (.inr rfl))

/-- What the program sees of the module is the counter. -/
theorem lkmStep_user {l : LkmLabel} (h : lkmStep p s l = some s') :
    s'.us = s.us ∧ s'.isOpen = s.isOpen ∧ s'.printed = s.printed ∧
      s'.count = if l = .signal then eventfdSignal s.count 123 else s.count := by
  cases lkmStep_cases h with
  | insmod =>
    unfold insmodStep
    split <;> exact ⟨rfl, rfl, rfl, rfl⟩
  | fcheckFiles => exact ⟨rfl, rfl, rfl, rfl⟩
  | fileget =>
    unfold filegetStep
    split <;> exact ⟨rfl, rfl, rfl, rfl⟩
  | signal => exact ⟨rfl, rfl, rfl, rfl⟩
  | behind hl => exact ⟨rfl, rfl, rfl, (if_neg hl).symm⟩

end

/-! ## What is printed -/

theorem eventfdSignal_min (k : Nat) :
    eventfdSignal (min (123 * k) ULLONG_MAX) 123 = min (123 * (k + 1)) ULLONG_MAX := by
  unfold eventfdSignal
  omega

section
variable {p : Params} {s s' : State}

/-- Behind the read: `n` is printed, or the program ended before. -/
def Over (n : Nat) (s : State) : Prop :=
  s.us = .printing n ∧ s.printed = [] ∨ s.us = .closing ∧ s.printed = [n] ∨
    s.us = .ended ∧ (s.printed = [] ∨ s.printed = [n])

theorem Over.step {n : Nat} (hs : Over n s) {l : Label} (h : step p s l = some s') :
    Over n s' := by
  unfold Signal.step at h
  rw [if_neg (by simp [oops_of_step h])] at h
  cases l with
  | lkm l =>
    obtain ⟨hus, -, hprinted, -⟩ := lkmStep_user h
    unfold Over
    rwa [hus, hprinted]
  | us l =>
    rcases hs with ⟨hus, hprinted⟩ | ⟨hus, hprinted⟩ | ⟨hus, hprinted⟩
    · cases l with
      | print =>
        simp only [usStep, hus] at h
        cases h
        exact .inr (.inl ⟨rfl, by rw [hprinted]; rfl⟩)
      | die =>
        simp only [usStep, hus] at h
        cases h
        exact .inr (.inr ⟨rfl, .inl hprinted⟩)
      | _ => simp [usStep, hus] at h
    · cases l with
      | close =>
        simp only [usStep, hus] at h
        cases h
        exact .inr (.inr ⟨rfl, .inr hprinted⟩)
      | die =>
        simp only [usStep, hus] at h
        cases h
        exact .inr (.inr ⟨rfl, .inr hprinted⟩)
      | _ => simp [usStep, hus] at h
    · cases l <;> simp [usStep, hus] at h

/-- A program that has ended prints nothing. -/
theorem ended_step (hs : s.us = .ended ∧ s.printed = []) {l : Label}
    (h : step p s l = some s') : s'.us = .ended ∧ s'.printed = [] := by
  unfold Signal.step at h
  rw [if_neg (by simp [oops_of_step h])] at h
  cases l with
  | lkm l =>
    obtain ⟨hus, -, hprinted, -⟩ := lkmStep_user h
    rwa [hus, hprinted]
  | us l => cases l <;> simp [usStep, hs.1] at h

/-- What a run from before the read, behind `k` signals, prints. -/
def PrintsFrom (k : Nat) (ls : List Label) (s' : State) : Prop :=
  s'.printed = [] ∨ ∃ before after, ls = before ++ .us .read :: after ∧
    0 < k + before.count (.lkm .signal) ∧
    s'.printed = [min (123 * (k + before.count (.lkm .signal))) ULLONG_MAX]

/-- One more label before. -/
theorem PrintsFrom.cons {k k' : Nat} {l : Label} {ls : List Label}
    (h : PrintsFrom k' ls s') (hk : k + [l].count (.lkm .signal) = k') :
    PrintsFrom k (l :: ls) s' := by
  refine h.imp id fun hread => ?_
  obtain ⟨before, after, rfl, hpos, hout⟩ := hread
  have hsum : k + (l :: before).count (.lkm .signal) = k' + before.count (.lkm .signal) := by
    rw [← List.singleton_append, List.count_append]
    omega
  exact ⟨l :: before, after, rfl, hsum ▸ hpos, hsum ▸ hout⟩

/-- The read takes the counter, and nothing else is printed behind it. -/
theorem printsFrom_read {s₁ : State} {k : Nat} {ls : List Label}
    (h : usStep s .read = some s₁) (hrest : Runs p s₁ ls s') (hprinted : s.printed = [])
    (hcount : s.count = min (123 * k) ULLONG_MAX) : PrintsFrom k (.us .read :: ls) s' := by
  simp only [usStep, Option.ite_none_right_eq_some, Option.map_eq_some_iff] at h
  obtain ⟨-, r, hread, rfl⟩ := h
  simp only [eventfdRead, Option.ite_none_left_eq_some, Option.some.injEq] at hread
  obtain ⟨hpos, rfl⟩ := hread
  have hover : Over s.count s' :=
    hrest.invariant (fun _ _ _ hs h => hs.step h) (.inl ⟨rfl, hprinted⟩)
  have hout : s'.printed = [] ∨ s'.printed = [s.count] := by
    rcases hover with ⟨-, h⟩ | ⟨-, h⟩ | ⟨-, h⟩
    · exact .inl h
    · exact .inr h
    · exact h
  refine hout.imp id fun hout => ⟨[], ls, rfl, ?_, ?_⟩
  · simp only [List.count_nil, Nat.add_zero]
    omega
  · rw [hout, hcount, List.count_nil, Nat.add_zero]

theorem printed_from {ls : List Label} (hrun : Runs p s ls s') {k : Nat}
    (hus : s.us = .waiting ∨ s.us = .reading) (hprinted : s.printed = [])
    (hcount : s.count = min (123 * k) ULLONG_MAX) : PrintsFrom k ls s' := by
  induction hrun generalizing k with
  | nil s => exact .inl hprinted
  | @cons s s₁ s' l ls hone hrest ih =>
    have h := hone
    unfold Signal.step at h
    rw [if_neg (by simp [oops_of_step hone])] at h
    cases l with
    | lkm l =>
      obtain ⟨hus₁, -, hprinted₁, hcount₁⟩ := lkmStep_user h
      rw [← hus₁] at hus
      by_cases hl : l = .signal
      · subst hl
        rw [if_pos rfl, hcount, eventfdSignal_min] at hcount₁
        exact (ih hus (hprinted₁.trans hprinted) hcount₁).cons rfl
      · rw [if_neg hl] at hcount₁
        exact (ih hus (hprinted₁.trans hprinted) (hcount₁.trans hcount)).cons (by simp [hl])
    | us l =>
      cases l with
      | wake =>
        simp only [usStep, Option.ite_none_right_eq_some, Option.some.injEq] at h
        obtain ⟨-, rfl⟩ := h
        exact (ih (.inr rfl) hprinted hcount).cons (by simp)
      | read => exact printsFrom_read h hrest hprinted hcount
      | print => rcases hus with hus | hus <;> simp [usStep, hus] at h
      | close => rcases hus with hus | hus <;> simp [usStep, hus] at h
      | die =>
        simp only [usStep, Option.ite_none_right_eq_some, Option.some.injEq] at h
        obtain ⟨-, rfl⟩ := h
        exact .inl (hrest.invariant (I := fun s => s.us = .ended ∧ s.printed = [])
          (fun _ _ _ hs h => ended_step hs h) ⟨rfl, hprinted⟩).2

end

/-- **The program prints at most one number, and it is 123 for each signal before its read**, of
    which there is at least one; the signals behind it are lost. -/
theorem value_of_run (p : Params) (ls : List Label) (s : State) (hrun : Runs p start ls s) :
    s.printed = [] ∨ ∃ before after, ls = before ++ .us .read :: after ∧
      0 < before.count (.lkm .signal) ∧
      s.printed = [min (123 * before.count (.lkm .signal)) ULLONG_MAX] := by
  simpa [PrintsFrom] using printed_from (k := 0) hrun (.inl rfl) rfl rfl

/-- Two signals come before the read, and a third one behind it. -/
def threeSignals : List Label :=
  let load (pid : Int) : List Label :=
    [.lkm (.insmod pid 3), .lkm .fcheckFiles, .lkm .fileget, .lkm .signal, .lkm .put, .lkm .rmmod]
  load 100 ++ [.us .wake] ++ load 100 ++ [.us .read] ++ load 100 ++ [.us .print, .us .close]

/-- The process 100 has the descriptor 3, and there is no other process. -/
def onlyOne : Params := ⟨100, 3, fun _ _ => .noTask⟩

theorem value_of_run_threeSignals : ∃ s, Runs onlyOne start threeSignals s ∧
    s.printed = [246] := by
  have hrun : Runs onlyOne start threeSignals
      ⟨.ended, false, 123, [246], .unloaded, false⟩ := Run.of_foldlM rfl
  refine ⟨_, hrun, ?_⟩
  rcases value_of_run onlyOne _ _ hrun with hnone | ⟨before, after, hsplit, -, hout⟩
  · cases hnone
  · exact rfl

/-! ## Faults of the module -/

/-- The module gets its reference from this file. -/
def Good (s : State) : File → Prop
  | .own => s.isOpen = true
  | .eventfd => True
  | _ => False

/-- The module is loaded with an eventfd that is open, and the program does not close its own
    while the module has it without a reference. -/
def InTime (p : Params) (s : State) : Label → Prop
  | .lkm (.insmod pid efd) => Good s (p.find pid efd)
  | .us .close | .us .die => s.lkm ≠ .task .own ∧ s.lkm ≠ .file .own
  | _ => True

/-- The labels of an `init_module` that has its task. -/
def Label.ofInit : Label → Bool
  | .lkm (.insmod ..) | .lkm .rmmod => false
  | .lkm _ => true
  | .us _ => false

structure Safe (s : State) : Prop where
  oops : s.oops = false
  file : ∀ file, s.lkm = .task file ∨ s.lkm = .file file → Good s file
  isOpen : s.us = .ended ↔ s.isOpen = false

/-- The module has faulted, or is about to. -/
def Lost (s : State) : Prop :=
  s.oops = true ∨ ∃ file, (s.lkm = .task file ∨ s.lkm = .file file) ∧ ¬ Good s file

theorem safe_start : Safe start :=
  ⟨rfl, fun _ h => (by rcases h with h | h <;> cases h), by simp [start]⟩

section
variable {p : Params} {s s' : State} {file : File}

theorem not_good_own (h : s.isOpen = false) : ¬ Good s .own := fun hgood =>
  Bool.false_ne_true (h.symm.trans hgood)

theorem fcheck_good (h : Good s file) : fcheck s file = file := by
  refine if_neg fun hown => ?_
  obtain ⟨rfl, hclosed⟩ := hown
  exact not_good_own hclosed h

theorem good_fcheck_iff : Good s (fcheck s file) ↔ Good s file := by
  by_cases h : Good s file
  · rw [fcheck_good h]
  · refine iff_of_false (fun hgood => h ?_) h
    unfold fcheck at hgood
    split at hgood
    · exact hgood.elim
    · exact hgood

theorem filegetStep_good (h : Good s file) : filegetStep s file = s.setLkm (.ctx file) := by
  cases file with
  | own => simp [filegetStep, eventfdCtxFileget, show s.isOpen = true from h]
  | eventfd => rfl
  | _ => exact h.elim

theorem filegetStep_bad (h : ¬ Good s file) : filegetStep s file = s.fault := by
  cases file with
  | own => simp [filegetStep, eventfdCtxFileget, show ¬ s.isOpen = true from h]
  | eventfd => exact absurd trivial h
  | _ => rfl

/-- What is good for the module depends on whether the eventfd is open. -/
theorem good_congr (h : s'.isOpen = s.isOpen) : Good s' file ↔ Good s file := by
  cases file with
  | own => exact iff_of_eq (congrArg (· = true) h)
  | _ => exact Iff.rfl

theorem Safe.us (hs : Safe s) {l : UsLabel} (h : usStep s l = some s') (hp : InTime p s (.us l)) :
    Safe s' := by
  obtain ⟨hlkm, hoops, ⟨hopen, hus, hus', -, -⟩ | ⟨hclosed, hended, hl⟩⟩ := usStep_spec h
  · refine ⟨hoops.trans hs.oops, fun file hfile => ?_, ?_⟩
    · rw [hlkm] at hfile
      exact (good_congr hopen).mpr (hs.file file hfile)
    · rw [hopen, ← hs.isOpen]
      exact iff_of_false hus' hus
  · refine ⟨hoops.trans hs.oops, fun file hfile => ?_, iff_of_true hended hclosed⟩
    rw [hlkm] at hfile
    have hnot : s.lkm ≠ .task .own ∧ s.lkm ≠ .file .own := by
      rcases hl with rfl | rfl <;> exact hp
    have hgood := hs.file file hfile
    cases file with
    | own => exact (hfile.elim hnot.1 hnot.2).elim
    | eventfd => trivial
    | _ => exact hgood.elim

theorem Safe.lkm (hs : Safe s) {l : LkmLabel} (h : lkmStep p s l = some s')
    (hp : InTime p s (.lkm l)) : Safe s' := by
  cases lkmStep_cases h with
  | @insmod pid efd =>
    have hgood : Good s (p.find pid efd) := hp
    rw [insmodStep, if_neg]
    · refine ⟨hs.oops, fun file hfile => ?_, hs.isOpen⟩
      rcases hfile with hfile | hfile
      · exact Lkm.task.inj hfile ▸ hgood
      · cases hfile
    · rintro (htask | ⟨hown, hended⟩)
      · rw [htask] at hgood
        exact hgood
      · rw [hown] at hgood
        exact not_good_own (hs.isOpen.mp hended) hgood
  | fcheckFiles hlkm =>
    refine ⟨hs.oops, fun file' hfile => ?_, hs.isOpen⟩
    rcases hfile with hfile | hfile
    · cases hfile
    · exact Lkm.file.inj hfile ▸ good_fcheck_iff.mpr (hs.file _ (.inl hlkm))
  | fileget hlkm =>
    rw [filegetStep_good (hs.file _ (.inr hlkm))]
    exact ⟨hs.oops, fun _ hfile => (by rcases hfile with h | h <;> cases h), hs.isOpen⟩
  | signal => exact ⟨hs.oops, fun _ hfile => (by rcases hfile with h | h <;> cases h), hs.isOpen⟩
  | behind _ hlkm =>
    refine ⟨hs.oops, fun file hfile => ?_, hs.isOpen⟩
    rcases hlkm with rfl | rfl | rfl <;> rcases hfile with hfile | hfile <;> cases hfile

theorem Safe.keep (hs : Safe s) {l : Label} (h : step p s l = some s') (hp : InTime p s l) :
    Safe s' := by
  unfold Signal.step at h
  rw [if_neg (by simp [hs.oops])] at h
  cases l with
  | us l => exact hs.us h hp
  | lkm l => exact hs.lkm h hp

/-- Loaded with anything else, the module has faulted or will; so it will when its file goes. -/
theorem Safe.lose (hs : Safe s) {l : Label} (h : step p s l = some s') (hp : ¬ InTime p s l) :
    Lost s' := by
  unfold Signal.step at h
  rw [if_neg (by simp [hs.oops])] at h
  -- the program closes its eventfd
  have hclose {l : UsLabel} (hl : l = .close ∨ l = .die) (h : usStep s l = some s')
      (hp : ¬ (s.lkm ≠ .task .own ∧ s.lkm ≠ .file .own)) : Lost s' := by
    obtain ⟨hlkm, -, ⟨-, -, -, hnot, hnot'⟩ | ⟨hclosed, -, -⟩⟩ := usStep_spec h
    · exact (hl.elim hnot hnot').elim
    · refine .inr ⟨.own, ?_, not_good_own hclosed⟩
      rw [hlkm]
      by_contra hno
      exact hp (not_or.mp hno)
  match l, hp with
  | .us .close, hp => exact hclose (.inl rfl) h hp
  | .us .die, hp => exact hclose (.inr rfl) h hp
  | .lkm (.insmod pid efd), hp =>
    simp only [lkmStep, Option.ite_none_right_eq_some, Option.some.injEq] at h
    obtain ⟨-, rfl⟩ := h
    unfold insmodStep
    split
    · exact .inl rfl
    · exact .inr ⟨_, .inl rfl, hp⟩
  | .us .wake, hp | .us .read, hp | .us .print, hp => exact absurd trivial hp
  | .lkm .fcheckFiles, hp | .lkm .fileget, hp | .lkm .signal, hp | .lkm .signalOther, hp
  | .lkm .put, hp | .lkm .rmmod, hp => exact absurd trivial hp

theorem Lost.stay (hs : Lost s) {l : Label} (h : step p s l = some s') : Lost s' := by
  have hoops := oops_of_step h
  obtain ⟨file, hlkm, hbad⟩ := hs.resolve_left (by simp [hoops])
  unfold Signal.step at h
  rw [if_neg (by simp [hoops])] at h
  cases l with
  | us l =>
    obtain ⟨hlkm', -, hopen⟩ := usStep_spec h
    refine .inr ⟨file, hlkm' ▸ hlkm, fun hgood => hbad ?_⟩
    rcases hopen with ⟨hopen, -⟩ | ⟨hclosed, -⟩
    · exact (good_congr hopen).mp hgood
    · cases file with
      | own => exact (not_good_own hclosed hgood).elim
      | _ => exact hgood
  | lkm l =>
    rcases hlkm with hlkm | hlkm
    · cases l with
      | fcheckFiles =>
        simp only [lkmStep, hlkm, Option.some.injEq] at h
        subst h
        exact .inr ⟨_, .inr rfl, fun hgood => hbad (good_fcheck_iff.mp hgood)⟩
      | _ => simp [lkmStep, hlkm] at h
    · cases l with
      | fileget =>
        simp only [lkmStep, hlkm, Option.some.injEq, filegetStep_bad hbad] at h
        subst h
        exact .inl rfl
      | _ => simp [lkmStep, hlkm] at h

/-- The module goes on to its fault. -/
theorem Lost.oops (p : Params) (hs : Lost s) :
    ∃ ws t, (∀ l ∈ ws, l.ofInit = true) ∧ Runs p s ws t ∧ t.oops = true := by
  by_cases hoops : s.oops = true
  · exact ⟨[], s, by simp, .nil s, hoops⟩
  · obtain ⟨file, hlkm, hbad⟩ := hs.resolve_left hoops
    have hfileget {t : State} {file : File} (hoops : ¬ t.oops = true) (ht : t.lkm = .file file)
        (hbad : ¬ Good t file) : step p t (.lkm .fileget) = some t.fault := by
      simp [Signal.step, hoops, lkmStep, ht, filegetStep_bad hbad]
    rcases hlkm with hlkm | hlkm
    · have hfcheck : step p s (.lkm .fcheckFiles) =
          some (s.setLkm (.file (fcheck s file))) := by
        simp [Signal.step, hoops, lkmStep, hlkm]
      have hbad' : ¬ Good (s.setLkm (.file (fcheck s file))) (fcheck s file) := fun hgood =>
        hbad (good_fcheck_iff.mp ((good_congr rfl).mp hgood))
      exact ⟨[.lkm .fcheckFiles, .lkm .fileget], _, by simp [Label.ofInit],
        .cons hfcheck (.cons (hfileget hoops rfl hbad') (.nil _)), rfl⟩
    · exact ⟨[.lkm .fileget], _, by simp [Label.ofInit],
        .cons (hfileget hoops hlkm hbad) (.nil _), rfl⟩

theorem inTime_of_init {l : Label} (hl : l.ofInit = true) : InTime p s l := by
  match l, hl with
  | .lkm .fcheckFiles, _ | .lkm .fileget, _ | .lkm .signal, _ | .lkm .signalOther, _
  | .lkm .put, _ => trivial

theorem Safe.init {ls : List Label} (hs : Safe s) (hls : ∀ l ∈ ls, l.ofInit = true)
    (h : Runs p s ls s') : s'.oops = false := by
  induction h with
  | nil s => exact hs.oops
  | @cons s s₁ s' l ls hone _ ih =>
    exact ih (hs.keep hone (inTime_of_init (hls l List.mem_cons_self)))
      fun l hl => hls l (List.mem_cons_of_mem _ hl)

end

/-- **The module has not faulted and need not exactly when each time it was loaded with an eventfd
    that was open, and the program never closed its own before the module had its reference**, for
    every interleaving and any number of loads. -/
theorem faults_iff (p : Params) (ls : List Label) (s : State) (hrun : Runs p start ls s) :
    (∀ ws t, (∀ l ∈ ws, l.ofInit = true) → Runs p s ws t → t.oops = false) ↔
      AlongSome (InTime p) (step p) start ls := by
  rcases hrun.kept_or_lost (fun _ _ _ hs h hp => hs.keep h hp) (fun _ _ _ hs h hp => hs.lose h hp)
    (fun _ _ _ hs h => hs.stay h) safe_start with ⟨halong, hsafe⟩ | ⟨halong, hlost⟩
  · exact iff_of_true (fun ws t hws h => hsafe.init hws h) halong
  · obtain ⟨ws, t, hws, h, hoops⟩ := hlost.oops p
    exact iff_of_false (fun hall => by simp [hall ws t hws h] at hoops) halong

/-- The program is killed between `fcheck_files` and `eventfd_ctx_fileget`. -/
def killed : List Label := [.lkm (.insmod 100 3), .lkm .fcheckFiles, .us .die]

theorem faults_iff_killed : ¬ AlongSome (InTime onlyOne) (step onlyOne) start killed := by
  have hrun : Runs onlyOne start killed ⟨.ended, false, 0, [], .file .own, false⟩ :=
    Run.of_foldlM rfl
  rw [← faults_iff onlyOne killed _ hrun]
  intro hall
  have hfault : Runs onlyOne ⟨.ended, false, 0, [], .file .own, false⟩ [.lkm .fileget]
      ⟨.ended, false, 0, [], .file .own, true⟩ := Run.of_foldlM rfl
  simpa using hall _ _ (by simp [Label.ofInit]) hfault

end LinuxSummary.EventFd.Signal
