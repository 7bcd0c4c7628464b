/-
  The two modules of `kernel/workqueue`, loaded and unloaded while the workers run.

  Each load has a `work` of its own, in the memory of the module, and the handler is code of the
  module; both are there from `insmod` until the module is freed. A run is any interleaving of the
  statements of the module with the workers, so a worker can come late. `work_queue_b` waits for
  its work in `destroy_workqueue`; `work_queue_a` only prints when it is removed.

  `Safe` is the invariant: no work that is pending or running belongs to freed memory. Of
  `work_queue_b` it always holds (`never_oops`), and `drained_iff` gives the logs of its runs. Of
  `work_queue_a` it holds for the runs that remove the module when its work is done, and for no
  others, and nothing sees to that (`unload_safe_iff`).
-/
import LinuxSummary.Library.Machine

namespace LinuxSummary.Workqueue

open Machine

/-! ## The modules -/

inductive Stmt
  | prInfo (line : String)
  /-- with the return where there is no queue, and the line of it -/
  | createSinglethreadWorkqueue (error : String)
  | INIT_WORK
  /-- `schedule_work` too -/
  | queueWork
  | destroyWorkqueue
deriving DecidableEq

/-- `workqueue_init` and `workqueue_exit`. -/
structure Module where
  init : List Stmt
  exit : List Stmt

def handlerLine : String := "This is a work_queue work_handler"

def workQueueA : Module where
  init :=
    [.prInfo "Demo work_queue init", .INIT_WORK, .queueWork,
      .prInfo "Demo work_queue init end"]
  exit := [.prInfo "Demo work_queue exit"]

def initLine : String := "Demo work_queue_b init"
def errorLine : String := "Demo work_queue fail create_singlethread_workqueue"
def initEndLine : String := "Demo work_queue_b init end"
def exitLine : String := "Demo work_queue_b exit"

def workQueueB : Module where
  init :=
    [.prInfo initLine, .createSinglethreadWorkqueue errorLine, .INIT_WORK, .queueWork,
      .prInfo initEndLine]
  exit := [.prInfo exitLine, .destroyWorkqueue]

/-! ## The machine -/

/-- `running` holds the `i` of the handler. -/
structure Work where
  pending : Bool
  running : Option Nat
deriving DecidableEq

def Work.Idle (w : Work) : Prop := w.pending = false ∧ w.running = none

instance (w : Work) : Decidable w.Idle := inferInstanceAs (Decidable (_ ∧ _))

/-- What is left of the module's function. -/
inductive Phase
  | unloaded
  | init (rest : List Stmt)
  | live
  | exit (rest : List Stmt)
deriving DecidableEq

structure State where
  phase : Phase
  /-- the number of the load -/
  load : Nat
  /-- the `work` of each load -/
  work : Nat → Work
  log : List String
  /-- a worker has used freed memory -/
  oops : Bool

def start : State where
  phase := .unloaded
  load := 0
  work _ := ⟨false, none⟩
  log := []
  oops := false

inductive Label
  | insmod
  | rmmod
  /-- the next statement of the module, or its return -/
  | next
  | createFails
  /-- a worker takes the work of a load -/
  | fetch (n : Nat)
  /-- a turn of its handler, or the return -/
  | turn (n : Nat)
deriving DecidableEq

def Label.isWorker : Label → Bool
  | .fetch _ | .turn _ => true
  | _ => false

/-- The memory of the load is there. -/
def Mapped (s : State) (n : Nat) : Prop := n = s.load ∧ s.phase ≠ .unloaded

instance (s : State) (n : Nat) : Decidable (Mapped s n) := inferInstanceAs (Decidable (_ ∧ _))

def State.setWork (s : State) (n : Nat) (w : Work) : State :=
  { s with work := Function.update s.work n w }

def State.print (s : State) (line : String) : State := { s with log := s.log ++ [line] }

def State.goTo (s : State) (phase : Phase) : State := { s with phase := phase }

/-- `destroy_workqueue` waits for the work. -/
def Stmt.exec (s : State) : Stmt → Option State
  | .prInfo line => some (s.print line)
  | .createSinglethreadWorkqueue _ => some s
  | .INIT_WORK => some (s.setWork s.load ⟨false, none⟩)
  | .queueWork => some (s.setWork s.load { s.work s.load with pending := true })
  | .destroyWorkqueue => if (s.work s.load).Idle then some s else none

def nextStep (s : State) : Option State :=
  match s.phase with
  | .init [] => some (s.goTo .live)
  | .init (stmt :: rest) => (stmt.exec s).map (·.goTo (.init rest))
  | .exit [] => some (s.goTo .unloaded)
  | .exit (stmt :: rest) => (stmt.exec s).map (·.goTo (.exit rest))
  | _ => none

/-- A worker, where it finds the work in memory. -/
def workStep (s : State) (n : Nat) (s' : State) : State :=
  if Mapped s n then s' else { s with oops := true }

def step (M : Module) (s : State) (l : Label) : Option State :=
  if s.oops then none
  else
    match l with
    | .insmod =>
      if s.phase = .unloaded then some { s with phase := .init M.init, load := s.load + 1 }
      else none
    | .rmmod => if s.phase = .live then some (s.goTo (.exit M.exit)) else none
    | .next => nextStep s
    | .createFails =>
      match s.phase with
      | .init (.createSinglethreadWorkqueue error :: _) =>
        some ((s.print error).goTo .unloaded)
      | _ => none
    | .fetch n =>
      if (s.work n).pending ∧ (s.work n).running = none then
        some (workStep s n (s.setWork n ⟨false, some 0⟩))
      else none
    | .turn n =>
      match (s.work n).running with
      | some i =>
        some (workStep s n (if i < 3 then
            (s.print handlerLine).setWork n { s.work n with running := some (i + 1) }
          else s.setWork n { s.work n with running := none }))
      | none => none

abbrev Steps (M : Module) : State → List Label → State → Prop :=
  Run fun s l s' => step M s l = some s'

/-! ## What a step can do -/

/-- The step gives the memory of the module back. -/
def Frees (s : State) (l : Label) : Prop :=
  l = .next ∧ s.phase = .exit [] ∨ l = .createFails

section
variable {M : Module} {s s' : State} {l : Label}

/-- Nothing but the statements of the load that is there and its handler change a work. -/
structure Inside (s s' : State) : Prop where
  before : s.phase ≠ .unloaded
  after : s'.phase ≠ .unloaded
  load : s'.load = s.load
  work : ∀ n ≠ s.load, s'.work n = s.work n
  oops : s'.oops = false

theorem inside_exec {stmt : Stmt} (hs : s.oops = false) (hphase : s.phase ≠ .unloaded)
    {phase : Phase} (hafter : phase ≠ .unloaded) (h : stmt.exec s = some s') :
    Inside s (s'.goTo phase) := by
  have hset (w : Work) : ∀ n ≠ s.load, (s.setWork s.load w).work n = s.work n :=
    fun n hn => Function.update_of_ne hn ..
  cases stmt with
  | prInfo line =>
    cases h
    exact ⟨hphase, hafter, rfl, fun _ _ => rfl, hs⟩
  | createSinglethreadWorkqueue error =>
    cases h
    exact ⟨hphase, hafter, rfl, fun _ _ => rfl, hs⟩
  | INIT_WORK =>
    cases h
    exact ⟨hphase, hafter, rfl, hset _, hs⟩
  | queueWork =>
    cases h
    exact ⟨hphase, hafter, rfl, hset _, hs⟩
  | destroyWorkqueue =>
    simp only [Stmt.exec] at h
    split at h
    · cases h
      exact ⟨hphase, hafter, rfl, fun _ _ => rfl, hs⟩
    · cases h

/-- The step loads, or stays inside the load, or frees it, or is that of a late worker. -/
inductive Kind (s : State) (l : Label) (s' : State) : Prop
  | loads (before : s.phase = .unloaded) (load : s'.load = s.load + 1) (work : s'.work = s.work)
    (oops : s'.oops = false) (hfree : ¬ Frees s l)
  | inside (hin : Inside s s') (hfree : ¬ Frees s l)
  | frees (hfree : Frees s l) (after : s'.phase = .unloaded) (load : s'.load = s.load)
    (work : s'.work = s.work) (oops : s'.oops = false)
  | late {n : Nat} (busy : ¬ (s.work n).Idle) (unmapped : ¬ Mapped s n) (oops : s'.oops = true)
    (hfree : ¬ Frees s l)

theorem kind_of_next (hoops : s.oops = false) (h : nextStep s = some s') : Kind s .next s' := by
  unfold nextStep at h
  split at h
  · next hphase =>
    cases h
    exact .inside ⟨by simp [hphase], by simp [State.goTo], rfl, fun _ _ => rfl, hoops⟩
      (by simp [Frees, hphase])
  · next stmt rest hphase =>
    obtain ⟨s₁, hexec, rfl⟩ := Option.map_eq_some_iff.mp h
    exact .inside (inside_exec hoops (by simp [hphase]) (by simp) hexec) (by simp [Frees, hphase])
  · next hphase =>
    cases h
    exact .frees (.inl ⟨rfl, hphase⟩) rfl rfl rfl hoops
  · next stmt rest hphase =>
    obtain ⟨s₁, hexec, rfl⟩ := Option.map_eq_some_iff.mp h
    exact .inside (inside_exec hoops (by simp [hphase]) (by simp) hexec) (by simp [Frees, hphase])
  · cases h

/-- A worker moves its work on where that is mapped, and is late where it is not. -/
theorem kind_of_work {n : Nat} (hbusy : ¬ (s.work n).Idle) (hfree : ¬ Frees s l)
    (hload : s'.load = s.load) (hphase : s'.phase = s.phase) (hoops : s'.oops = false)
    (hwork : ∀ m ≠ n, s'.work m = s.work m) : Kind s l (workStep s n s') := by
  by_cases hn : Mapped s n
  · rw [workStep, if_pos hn]
    obtain ⟨rfl, hthere⟩ := hn
    exact .inside ⟨hthere, hphase ▸ hthere, hload, hwork, hoops⟩ hfree
  · rw [workStep, if_neg hn]
    exact .late hbusy hn rfl hfree

theorem kind_of_step (h : step M s l = some s') : s.oops = false ∧ Kind s l s' := by
  unfold step at h
  split at h
  · cases h
  · next hoops =>
    have hoops : s.oops = false := by simpa using hoops
    refine ⟨hoops, ?_⟩
    cases l with
    | insmod =>
      simp only [Option.ite_none_right_eq_some, Option.some.injEq] at h
      obtain ⟨hphase, rfl⟩ := h
      exact .loads hphase rfl rfl hoops (by simp [Frees])
    | rmmod =>
      simp only [Option.ite_none_right_eq_some, Option.some.injEq] at h
      obtain ⟨hphase, rfl⟩ := h
      exact .inside ⟨by simp [hphase], by simp [State.goTo], rfl, fun _ _ => rfl, hoops⟩
        (by simp [Frees])
    | next => exact kind_of_next hoops h
    | createFails =>
      simp only at h
      split at h
      · cases h
        exact .frees (.inr rfl) rfl rfl rfl hoops
      · cases h
    | fetch n =>
      simp only [Option.ite_none_right_eq_some, Option.some.injEq] at h
      obtain ⟨⟨hpending, -⟩, rfl⟩ := h
      exact kind_of_work (by simp [Work.Idle, hpending]) (by simp [Frees]) rfl rfl hoops
        fun m hm => Function.update_of_ne hm ..
    | turn n =>
      simp only at h
      split at h
      · next i hrunning =>
        cases h
        have hbusy : ¬ (s.work n).Idle := by simp [Work.Idle, hrunning]
        split
        · exact kind_of_work hbusy (by simp [Frees]) rfl rfl hoops
            fun m hm => Function.update_of_ne hm ..
        · exact kind_of_work hbusy (by simp [Frees]) rfl rfl hoops
            fun m hm => Function.update_of_ne hm ..
      · cases h

/-! ## Safe and lost -/

/-- No worker can come to freed memory. -/
def Safe (s : State) : Prop := s.oops = false ∧ ∀ n, ¬ (s.work n).Idle → Mapped s n

/-- A worker has come to freed memory, or can. -/
def Lost (s : State) : Prop := s.oops = true ∨ ∃ n ≤ s.load, ¬ (s.work n).Idle ∧ ¬ Mapped s n

/-- The work is done. -/
def FreesIdle (s : State) (l : Label) : Prop := Frees s l → (s.work s.load).Idle

theorem Safe.keep (hs : Safe s) (h : step M s l = some s') (hp : FreesIdle s l) : Safe s' := by
  cases (kind_of_step h).2 with
  | loads hphase _ hwork hoops _ =>
    refine ⟨hoops, fun n hn => ?_⟩
    rw [hwork] at hn
    exact absurd hphase (hs.2 n hn).2
  | inside hin _ =>
    refine ⟨hin.oops, fun n hn => ?_⟩
    by_cases hn' : n = s.load
    · exact ⟨hn'.trans hin.load.symm, hin.after⟩
    · rw [hin.work n hn'] at hn
      exact absurd (hs.2 n hn).1 hn'
  | frees hfree _ _ hwork hoops =>
    refine ⟨hoops, fun n hn => absurd ?_ hn⟩
    rw [hwork]
    by_contra hn
    obtain ⟨rfl, -⟩ := hs.2 n hn
    exact hn (hp hfree)
  | late hbusy hunmapped _ _ => exact absurd (hs.2 _ hbusy) hunmapped

theorem Safe.lose (h : step M s l = some s') (hp : ¬ FreesIdle s l) : Lost s' := by
  obtain ⟨hfree, hidle⟩ := Classical.not_imp.mp hp
  cases (kind_of_step h).2 with
  | loads _ _ _ _ hnot => exact absurd hfree hnot
  | inside _ hnot => exact absurd hfree hnot
  | frees _ hphase hload hwork _ =>
    exact .inr ⟨s.load, hload.ge, by rwa [hwork], fun hm => hm.2 hphase⟩
  | late _ _ _ hnot => exact absurd hfree hnot

theorem Lost.stay (hs : Lost s) (h : step M s l = some s') : Lost s' := by
  obtain ⟨hoops, hkind⟩ := kind_of_step h
  obtain ⟨n, hle, hn, hunmapped⟩ := hs.resolve_left (by simp [hoops])
  cases hkind with
  | loads _ hload hwork _ _ =>
    exact .inr ⟨n, by omega, by rwa [hwork], fun hm => by have := hm.1; omega⟩
  | inside hin _ =>
    have hne : n ≠ s.load := fun heq => hunmapped ⟨heq, hin.before⟩
    refine .inr ⟨n, hin.load ▸ hle, ?_, fun hm => hne (hm.1.trans hin.load)⟩
    rwa [hin.work n hne]
  | frees _ hphase hload hwork _ =>
    exact .inr ⟨n, hload ▸ hle, by rwa [hwork], fun hm => hm.2 hphase⟩
  | late _ _ hoops' _ => exact .inl hoops'

/-- What workers do frees nothing. -/
theorem not_frees_of_worker (s : State) (hl : l.isWorker = true) : ¬ Frees s l := by
  rintro (⟨rfl, -⟩ | rfl) <;> cases hl

/-- From a state that is lost, one step of a worker is enough. -/
theorem Lost.oops (M : Module) (hs : Lost s) :
    ∃ ws t, (∀ l ∈ ws, l.isWorker = true) ∧ Steps M s ws t ∧ t.oops = true := by
  by_cases hoops : s.oops = true
  · exact ⟨[], s, by simp, .nil s, hoops⟩
  · obtain ⟨n, -, hn, hunmapped⟩ := hs.resolve_left hoops
    cases hrunning : (s.work n).running with
    | none =>
      have hpending : (s.work n).pending = true := by simpa [Work.Idle, hrunning] using hn
      have hstep : step M s (.fetch n) = some { s with oops := true } := by
        simp only [step, hoops, hpending, hrunning, workStep, hunmapped, and_self, if_true,
          if_false, Bool.false_eq_true]
      exact ⟨[.fetch n], _, by simp [Label.isWorker], .cons hstep (.nil _), rfl⟩
    | some i =>
      have hstep : step M s (.turn n) = some { s with oops := true } := by
        simp only [step, hoops, hrunning, workStep, hunmapped, if_false, Bool.false_eq_true]
      exact ⟨[.turn n], _, by simp [Label.isWorker], .cons hstep (.nil _), rfl⟩

theorem Safe.workers {ws : List Label} {t : State} (hs : Safe s)
    (hws : ∀ l ∈ ws, l.isWorker = true) (h : Steps M s ws t) : t.oops = false := by
  induction h with
  | nil s => exact hs.1
  | @cons s s₁ t l ls hone _ ih =>
    have hfree := not_frees_of_worker s (hws l List.mem_cons_self)
    exact ih (hs.keep hone fun hf => absurd hf hfree) fun l hl => hws l (List.mem_cons_of_mem _ hl)

end

theorem safe_start : Safe start := ⟨rfl, fun _ hn => absurd ⟨rfl, rfl⟩ hn⟩

/-- No worker has come to freed memory, or comes there whatever the workers go on to do. -/
def WorkersSafe (M : Module) (s : State) : Prop :=
  ∀ ws t, (∀ l ∈ ws, l.isWorker = true) → Steps M s ws t → t.oops = false

theorem Lost.not_workersSafe {M : Module} {s : State} (hs : Lost s) : ¬ WorkersSafe M s := by
  obtain ⟨ws, t, hws, h, hoops⟩ := hs.oops M
  exact fun hall => by simp [hall ws t hws h] at hoops

/-- Of either module, the workers are safe where the memory was given back with the work done. -/
theorem workersSafe_iff (M : Module) {ls : List Label} {s : State} (hrun : Steps M start ls s) :
    WorkersSafe M s ↔ AlongSome FreesIdle (step M) start ls := by
  rcases hrun.kept_or_lost (fun _ _ _ hs h hp => hs.keep h hp) (fun _ _ _ _ h hp => Safe.lose h hp)
    (fun _ _ _ hs h => hs.stay h) safe_start with ⟨halong, hsafe⟩ | ⟨halong, hlost⟩
  · exact iff_of_true (fun ws t hws h => hsafe.workers hws h) halong
  · exact iff_of_false hlost.not_workersSafe halong

/-- `work_queue_a` can be removed at any time once it is loaded. -/
theorem remove_workQueueA {s : State} (hoops : s.oops = false) (hphase : s.phase = .live) :
    Steps workQueueA s [.rmmod, .next, .next]
      ((s.print "Demo work_queue exit").goTo .unloaded) := by
  obtain ⟨phase, load, work, log, oops⟩ := s
  dsimp only at hoops hphase
  subst hoops hphase
  exact Run.of_foldlM rfl

/-! ## `work_queue_b` -/

/-- What one load prints: that there is no queue, or, behind its first line, the other lines of
    the module among those of the handler. -/
def Session (t : List String) : Prop :=
  t = [initLine, errorLine] ∨
    ∃ u, t = initLine :: u ∧
      Interleave [initEndLine, exitLine] (List.replicate 3 handlerLine) u

def Stmt.line : Stmt → Option String
  | .prInfo line => some line
  | _ => none

/-- The lines that the module still prints. -/
def todo : Phase → List String
  | .unloaded => []
  | .init rest => rest.filterMap Stmt.line ++ workQueueB.exit.filterMap Stmt.line
  | .live => workQueueB.exit.filterMap Stmt.line
  | .exit rest => rest.filterMap Stmt.line

/-- The lines that the handler still prints. -/
def left (w : Work) : Nat :=
  match w.running with
  | some i => 3 - i
  | none => if w.pending then 3 else 0

/-- The points of the module behind `queue_work`. -/
inductive Queued : Phase → Prop
  | printing : Queued (.init [.prInfo initEndLine])
  | ready : Queued (.init [])
  | live : Queued .live
  | removing : Queued (.exit workQueueB.exit)
  | waiting : Queued (.exit [.destroyWorkqueue])
  | drained : Queued (.exit [])

/-- Where the module is, with its work and the lines of this load. -/
inductive Point : Phase → Work → List String → Prop
  | unloaded {w : Work} (hw : w.Idle) : Point .unloaded w []
  | loading {w : Work} (hw : w.Idle) : Point (.init workQueueB.init) w []
  | before {i : Nat} (hi : i ∈ [1, 2, 3]) {w : Work} (hw : w.Idle) :
    Point (.init (workQueueB.init.drop i)) w [initLine]
  | queued {phase : Phase} (hphase : Queued phase) {w : Work}
    (hw : w.pending = true → w.running = none) (hdrained : phase = .exit [] → w.Idle)
    {cur : List String}
    (hrest : ∀ u, Interleave (todo phase) (List.replicate (left w) handlerLine) u →
      Session (cur ++ u)) : Point phase w cur

theorem Point.idle {phase : Phase} {w : Work} {cur : List String} (h : Point phase w cur)
    (hphase : ¬ Queued phase) : w.Idle := by
  cases h with
  | unloaded hw => exact hw
  | loading hw => exact hw
  | before _ hw => exact hw
  | queued hq => exact absurd hq hphase

theorem Point.not_pending {phase : Phase} {w : Work} {cur : List String} (h : Point phase w cur)
    {i : Nat} (hrunning : w.running = some i) : w.pending = false := by
  cases h with
  | unloaded hw => exact hw.1
  | loading hw => exact hw.1
  | before _ hw => exact hw.1
  | queued _ hw =>
    by_contra hp
    rw [hw (by simpa using hp)] at hrunning
    cases hrunning

/-- The runs of `work_queue_b`: whole sessions, and the lines of the load that is there. -/
structure Drains (s : State) : Prop where
  oops : s.oops = false
  others : ∀ n ≠ s.load, (s.work n).Idle
  point : ∃ sessions cur, s.log = List.flatten sessions ++ cur ∧ (∀ t ∈ sessions, Session t) ∧
    Point s.phase (s.work s.load) cur

theorem drains_start : Drains start where
  oops := rfl
  others _ _ := ⟨rfl, rfl⟩
  point := ⟨[], [], rfl, by simp, .unloaded ⟨rfl, rfl⟩⟩

section
variable {s s' : State}

theorem Drains.insmod (hs : Drains s) (hphase : s.phase = .unloaded) :
    Drains { s with phase := .init workQueueB.init, load := s.load + 1 } := by
  obtain ⟨sessions, cur, hlog, hsessions, hpoint⟩ := hs.point
  rw [hphase] at hpoint
  have hidle (n : Nat) : (s.work n).Idle := by
    by_cases hn : n = s.load
    · rw [hn]
      exact hpoint.idle (fun h => by cases h)
    · exact hs.others n hn
  cases hpoint with
  | unloaded =>
    exact ⟨hs.oops, fun n _ => hidle n, sessions, [], hlog, hsessions, .loading (hidle _)⟩
  | queued hq => cases hq

theorem Drains.rmmod (hs : Drains s) (hphase : s.phase = .live) :
    Drains (s.goTo (.exit workQueueB.exit)) := by
  obtain ⟨sessions, cur, hlog, hsessions, hpoint⟩ := hs.point
  rw [hphase] at hpoint
  cases hpoint with
  | queued hq hw hdrained hrest =>
    exact ⟨hs.oops, hs.others, sessions, cur, hlog, hsessions,
      .queued .removing hw (fun h => by cases h) hrest⟩

theorem Drains.createFails (hs : Drains s) {error : String} {rest : List Stmt}
    (hphase : s.phase = .init (.createSinglethreadWorkqueue error :: rest)) :
    Drains ((s.print error).goTo .unloaded) := by
  obtain ⟨sessions, cur, hlog, hsessions, hpoint⟩ := hs.point
  have hidle := hpoint.idle (by rw [hphase]; intro h; cases h)
  generalize s.phase = phase at hphase hpoint
  cases hpoint with
  | unloaded => cases hphase
  | loading => cases hphase
  | before hi =>
    have herror : error = errorLine := by
      simp only [List.mem_cons, List.not_mem_nil, or_false] at hi
      rcases hi with rfl | rfl | rfl
      · cases hphase
        rfl
      · cases hphase
      · cases hphase
    subst herror
    refine ⟨hs.oops, hs.others, sessions ++ [[initLine, errorLine]], [], ?_, ?_, .unloaded hidle⟩
    · simp [State.goTo, State.print, hlog]
    · rintro t ht
      rcases List.mem_append.mp ht with ht | ht
      · exact hsessions t ht
      · exact .inl (List.mem_singleton.mp ht)
  | queued hq => subst hphase; cases hq

/-- A statement that prints, behind `queue_work`. -/
theorem point_print {phase phase' : Phase} {line : String} {w : Work} {cur : List String}
    (hphase : Queued phase') (htodo : todo phase = line :: todo phase') (hne : phase' ≠ .exit [])
    (hw : w.pending = true → w.running = none)
    (hrest : ∀ u, Interleave (todo phase) (List.replicate (left w) handlerLine) u →
      Session (cur ++ u)) : Point phase' w (cur ++ [line]) := by
  refine .queued hphase hw (fun h => absurd h hne) fun u hu => ?_
  rw [List.append_assoc]
  exact hrest (line :: u) (htodo ▸ .left hu)

theorem Drains.next (hs : Drains s) (h : nextStep s = some s') : Drains s' := by
  obtain ⟨sessions, cur, hlog, hsessions, hpoint⟩ := hs.point
  have hmove {phase : Phase} (hp : Point phase (s.work s.load) cur) : Drains (s.goTo phase) :=
    ⟨hs.oops, hs.others, sessions, cur, hlog, hsessions, hp⟩
  have hprint {phase : Phase} {line : String} (hp : Point phase (s.work s.load) (cur ++ [line])) :
      Drains ((s.print line).goTo phase) :=
    ⟨hs.oops, hs.others, sessions, cur ++ [line], by simp [State.goTo, State.print, hlog],
      hsessions, hp⟩
  generalize hphase : s.phase = phase at hpoint
  generalize hw : s.work s.load = w at hpoint
  simp only [nextStep, hphase] at h
  cases hpoint with
  | unloaded => cases h
  | loading hidle =>
    cases h
    exact hprint (hw ▸ .before (i := 1) (by simp) hidle)
  | before hi hidle =>
    simp only [List.mem_cons, List.not_mem_nil, or_false] at hi
    rcases hi with rfl | rfl | rfl
    · cases h
      exact hmove (hw ▸ .before (i := 2) (by simp) hidle)
    · cases h
      refine ⟨hs.oops, fun n hn => ?_, sessions, [initLine], hlog, hsessions,
        .before (i := 3) (by simp) ?_⟩
      · exact (congrArg Work.Idle (Function.update_of_ne hn ..)).mpr (hs.others n hn)
      · exact (congrArg Work.Idle (Function.update_self ..)).mpr ⟨rfl, rfl⟩
    · cases h
      refine ⟨hs.oops, fun n hn => ?_, sessions, [initLine], hlog, hsessions, ?_⟩
      · exact (congrArg Work.Idle (Function.update_of_ne hn ..)).mpr (hs.others n hn)
      · have hnew : ((s.setWork s.load { s.work s.load with pending := true }).goTo
            (.init [.prInfo initEndLine])).work s.load = ⟨true, none⟩ := by
          rw [← hidle.2, ← hw]
          exact Function.update_self ..
        show Point _ (((s.setWork s.load _).goTo _).work s.load) _
        rw [hnew]
        exact .queued .printing (fun _ => rfl) (fun h => by cases h) fun u hu =>
          .inr ⟨u, rfl, hu⟩
  | queued hq hpending hdrained hrest =>
    cases hq with
    | printing =>
      cases h
      exact hprint (hw ▸ point_print .ready rfl (by simp) hpending hrest)
    | ready =>
      cases h
      exact hmove (hw ▸ .queued .live hpending (fun h => by cases h) hrest)
    | live => cases h
    | removing =>
      cases h
      exact hprint (hw ▸ point_print .waiting rfl (by simp) hpending hrest)
    | waiting =>
      simp only [Stmt.exec, hw] at h
      split at h
      · next hidle =>
        cases h
        exact hmove (hw ▸ .queued .drained hpending (fun _ => hidle) hrest)
      · cases h
    | drained =>
      cases h
      have hleft : left w = 0 := by simp [left, (hdrained rfl).1, (hdrained rfl).2]
      have hcur : Session cur := by
        have hnil := hrest [] (by rw [hleft]; exact .nil)
        rwa [List.append_nil] at hnil
      refine ⟨hs.oops, hs.others, sessions ++ [cur], [], by simp [State.goTo, hlog], ?_, ?_⟩
      · intro t ht
        rcases List.mem_append.mp ht with ht | ht
        · exact hsessions t ht
        · rwa [List.mem_singleton.mp ht]
      · exact .unloaded ((congrArg Work.Idle hw).mpr (hdrained rfl))

/-- A work that is not idle is that of the load, and queued. -/
theorem Drains.of_busy (hs : Drains s) {n : Nat} (hn : ¬ (s.work n).Idle) :
    n = s.load ∧ Queued s.phase := by
  obtain ⟨_, cur, -, -, hpoint⟩ := hs.point
  have hload : n = s.load := by
    by_contra h
    exact hn (hs.others n h)
  refine ⟨hload, ?_⟩
  by_contra hq
  exact hn (hload ▸ hpoint.idle hq)

theorem Drains.mapped (hs : Drains s) {n : Nat} (hn : ¬ (s.work n).Idle) : Mapped s n := by
  obtain ⟨hload, hq⟩ := hs.of_busy hn
  exact ⟨hload, fun h => by rw [h] at hq; cases hq⟩

/-- A worker moves the work of the load on, and may print. -/
theorem Drains.worker (hs : Drains s) (hn : ¬ (s.work s.load).Idle) {w : Work} {out : List String}
    (hw : w.pending = true → w.running = none)
    (hout : List.replicate (left (s.work s.load)) handlerLine =
      out ++ List.replicate (left w) handlerLine)
    (hlen : out = [] ∨ out = [handlerLine]) :
    Drains { s with work := Function.update s.work s.load w, log := s.log ++ out } := by
  obtain ⟨sessions, cur, hlog, hsessions, hpoint⟩ := hs.point
  refine ⟨hs.oops, fun n hne => ?_, sessions, cur ++ out, by simp [hlog], hsessions, ?_⟩
  · exact (congrArg Work.Idle (Function.update_of_ne hne ..)).mpr (hs.others n hne)
  · show Point s.phase (Function.update s.work s.load w s.load) (cur ++ out)
    rw [Function.update_self]
    have hq := (hs.of_busy hn).2
    generalize s.phase = phase at hpoint hq
    generalize s.work s.load = w' at hpoint hn hout
    cases hpoint with
    | unloaded hidle => exact absurd hidle hn
    | loading hidle => exact absurd hidle hn
    | before _ hidle => exact absurd hidle hn
    | queued _ _ hdrained hrest =>
      refine .queued hq hw (fun h => absurd (hdrained h) hn) fun u hu => ?_
      rw [List.append_assoc]
      refine hrest (out ++ u) ?_
      rw [hout]
      rcases hlen with rfl | rfl
      · exact hu
      · exact .right hu

theorem Drains.step {l : Label} (hs : Drains s) (h : step workQueueB s l = some s') :
    Drains s' := by
  unfold Workqueue.step at h
  rw [if_neg (by simp [hs.oops])] at h
  cases l with
  | insmod =>
    simp only [Option.ite_none_right_eq_some, Option.some.injEq] at h
    obtain ⟨hphase, rfl⟩ := h
    exact hs.insmod hphase
  | rmmod =>
    simp only [Option.ite_none_right_eq_some, Option.some.injEq] at h
    obtain ⟨hphase, rfl⟩ := h
    exact hs.rmmod hphase
  | next => exact hs.next h
  | createFails =>
    simp only at h
    split at h
    · next error rest hphase =>
      cases h
      exact hs.createFails hphase
    · cases h
  | fetch n =>
    simp only [Option.ite_none_right_eq_some, Option.some.injEq] at h
    obtain ⟨⟨hpending, hrunning⟩, rfl⟩ := h
    have hn : ¬ (s.work n).Idle := by simp [Work.Idle, hpending]
    obtain ⟨rfl, -⟩ := hs.of_busy hn
    rw [workStep, if_pos (hs.mapped hn)]
    have hnew := hs.worker (w := ⟨false, some 0⟩) hn (fun h => by cases h)
      (by simp [left, hpending, hrunning]) (.inl rfl)
    simpa [State.setWork] using hnew
  | turn n =>
    simp only at h
    split at h
    · next i hrunning =>
      cases h
      have hn : ¬ (s.work n).Idle := by simp [Work.Idle, hrunning]
      obtain ⟨rfl, -⟩ := hs.of_busy hn
      obtain ⟨_, cur, -, -, hpoint⟩ := hs.point
      have hpending := hpoint.not_pending hrunning
      rw [workStep, if_pos (hs.mapped hn)]
      split
      · next hi =>
        have hleft : 3 - i = (3 - (i + 1)) + 1 := by omega
        exact hs.worker hn (fun h => by simp [hpending] at h)
          (by simp only [left, hrunning]; rw [hleft]; rfl) (.inr rfl)
      · next hi =>
        have hleft : 3 - i = 0 := by omega
        have hnew := hs.worker (w := { s.work s.load with running := none }) hn (fun _ => rfl)
          (by simp [left, hrunning, hpending, hleft]) (.inl rfl)
        simpa [State.setWork] using hnew
    · cases h

theorem drains_run {ls : List Label} (hrun : Steps workQueueB start ls s) : Drains s :=
  hrun.invariant (fun _ _ _ hs h => hs.step h) drains_start

end

/-- **No worker ever comes to freed memory of `work_queue_b`**, and when the module is gone all
    its work is done. -/
theorem never_oops (ls : List Label) (s : State) (hrun : Steps workQueueB start ls s) :
    s.oops = false ∧ (s.phase = .unloaded → ∀ n, (s.work n).Idle) := by
  have hs := drains_run hrun
  refine ⟨hs.oops, fun hphase n => ?_⟩
  by_contra hn
  exact (hs.mapped hn).2 hphase

/-- **When the modules can be removed**, for every interleaving and any number of loads: the
    workers of `work_queue_a` are safe exactly when each time it was given back its work was done,
    and nothing in it waits for that; those of `work_queue_b` are safe, and it always waits. -/
theorem unload_safe_iff :
    (∀ ls s, Steps workQueueA start ls s →
      (WorkersSafe workQueueA s ↔ AlongSome FreesIdle (step workQueueA) start ls) ∧
      (s.oops = false → s.phase = .live → ¬ (s.work s.load).Idle →
        ∃ t, Steps workQueueA s [.rmmod, .next, .next] t ∧ ¬ WorkersSafe workQueueA t)) ∧
    ∀ ls s, Steps workQueueB start ls s →
      WorkersSafe workQueueB s ∧ AlongSome FreesIdle (step workQueueB) start ls := by
  refine ⟨fun ls s hrun => ⟨workersSafe_iff workQueueA hrun, fun hoops hphase hbusy => ?_⟩,
    fun ls s hrun => ?_⟩
  · have hlost : Lost ((s.print "Demo work_queue exit").goTo .unloaded) :=
      .inr ⟨s.load, le_rfl, hbusy, fun hmapped => hmapped.2 rfl⟩
    exact ⟨_, remove_workQueueA hoops hphase, hlost.not_workersSafe⟩
  · have hsafe : WorkersSafe workQueueB s := fun ws t _ h => (never_oops _ t (hrun.append h)).1
    exact ⟨hsafe, (workersSafe_iff workQueueB hrun).mp hsafe⟩

/-- The module is removed before a worker has taken its work. -/
def tooSoon : List Label := [.insmod, .next, .next, .next, .next, .next, .rmmod, .next, .next]

/-- The machine behind it: the work is pending, and its memory is gone. -/
def removed : State where
  phase := .unloaded
  load := 1
  work := Function.update (Function.update start.work 1 ⟨false, none⟩) 1 ⟨true, none⟩
  log := ["Demo work_queue init", "Demo work_queue init end", "Demo work_queue exit"]
  oops := false

theorem unload_safe_iff_tooSoon : ¬ AlongSome FreesIdle (step workQueueA) start tooSoon := by
  intro halong
  have hrun : Steps workQueueA start tooSoon removed := Run.of_foldlM rfl
  have hfetch : Steps workQueueA removed [.fetch 1] { removed with oops := true } :=
    Run.of_foldlM rfl
  have hoops := (unload_safe_iff.1 tooSoon removed hrun).1.mpr halong _ _
    (by simp [Label.isWorker]) hfetch
  cases hoops

/-- The module is removed at once; its work is done while `destroy_workqueue` waits. -/
def atOnce : List Label :=
  [.insmod, .next, .next, .next, .next, .next, .next, .rmmod, .next, .fetch 1, .turn 1, .turn 1,
    .turn 1, .turn 1, .next, .next]

theorem never_oops_atOnce :
    (atOnce.foldlM (step workQueueB) start).map (·.oops) = some false := by
  have hsome : (atOnce.foldlM (step workQueueB) start).isSome = true := by decide +kernel
  obtain ⟨s, hs⟩ := Option.isSome_iff_exists.mp hsome
  rw [hs, Option.map_some, (never_oops atOnce s (Run.of_foldlM hs)).1]

/-! ## The logs -/

section
variable {s : State}

/-- The module goes on to its next line, without waiting. -/
theorem print_next (hoops : s.oops = false) (hq : Queued s.phase) {x : String} {u : List String}
    (htodo : todo s.phase = x :: u) :
    ∃ ls phase, Queued phase ∧ todo phase = u ∧
      Steps workQueueB s ls ((s.print x).goTo phase) := by
  obtain ⟨phase, load, work, log, oops⟩ := s
  dsimp only at hoops hq htodo
  subst hoops
  cases hq with
  | printing =>
    obtain ⟨rfl, rfl⟩ := List.cons.inj htodo
    exact ⟨[.next], _, .ready, rfl, Run.of_foldlM rfl⟩
  | ready =>
    obtain ⟨rfl, rfl⟩ := List.cons.inj htodo
    exact ⟨[.next, .rmmod, .next], _, .waiting, rfl, Run.of_foldlM rfl⟩
  | live =>
    obtain ⟨rfl, rfl⟩ := List.cons.inj htodo
    exact ⟨[.rmmod, .next], _, .waiting, rfl, Run.of_foldlM rfl⟩
  | removing =>
    obtain ⟨rfl, rfl⟩ := List.cons.inj htodo
    exact ⟨[.next], _, .waiting, rfl, Run.of_foldlM rfl⟩
  | waiting => cases htodo
  | drained => cases htodo

theorem step_turn (hoops : s.oops = false) (hphase : s.phase ≠ .unloaded) {i : Nat}
    (hrunning : (s.work s.load).running = some i) :
    step workQueueB s (.turn s.load) = some (if i < 3 then
      (s.print handlerLine).setWork s.load { s.work s.load with running := some (i + 1) }
      else s.setWork s.load { s.work s.load with running := none }) := by
  simp only [step, hoops, hrunning, workStep, Mapped, hphase, ne_eq, not_false_eq_true, and_self,
    if_true, if_false, Bool.false_eq_true]

/-- The handler goes on to its next line. -/
theorem print_handler (hoops : s.oops = false) (hphase : s.phase ≠ .unloaded)
    (hw : (s.work s.load).pending = true → (s.work s.load).running = none) {k : Nat}
    (hleft : left (s.work s.load) = k + 1) :
    ∃ ls w, (w.pending = true → w.running = none) ∧ left w = k ∧
      Steps workQueueB s ls ((s.print handlerLine).setWork s.load w) := by
  cases hrunning : (s.work s.load).running with
  | none =>
    have hpending : (s.work s.load).pending = true := by
      by_contra hp
      simp [left, hrunning, hp] at hleft
    have hk : 2 = k := by
      simp only [left, hrunning, hpending, if_true] at hleft
      omega
    refine ⟨[.fetch s.load, .turn s.load], ⟨false, some 1⟩, (fun h => by cases h), hk, ?_⟩
    have hfetch : step workQueueB s (.fetch s.load) =
        some (s.setWork s.load ⟨false, some 0⟩) := by
      simp only [step, hoops, hpending, hrunning, workStep, Mapped, hphase, ne_eq,
        not_false_eq_true, and_self, if_true, if_false, Bool.false_eq_true]
    have hself : (s.setWork s.load ⟨false, some 0⟩).work s.load = ⟨false, some 0⟩ :=
      Function.update_self ..
    have hturn := step_turn (s := s.setWork s.load ⟨false, some 0⟩) hoops hphase
      (congrArg Work.running hself)
    refine .cons hfetch (.cons (hturn.trans ?_) (.nil _))
    simp [State.setWork, State.print]
  | some i =>
    have hpending : (s.work s.load).pending = false := by
      by_contra hp
      rw [hw (by simpa using hp)] at hrunning
      cases hrunning
    simp only [left, hrunning] at hleft
    have hi : i < 3 := by omega
    refine ⟨[.turn s.load], { s.work s.load with running := some (i + 1) },
      fun h => by simp [hpending] at h, by simp only [left]; omega, ?_⟩
    have hturn := step_turn hoops hphase hrunning
    rw [if_pos hi] at hturn
    exact .cons hturn (.nil _)

/-- The handler returns. -/
theorem return_handler (hoops : s.oops = false) (hphase : s.phase ≠ .unloaded)
    (hw : (s.work s.load).pending = true → (s.work s.load).running = none)
    (hleft : left (s.work s.load) = 0) :
    ∃ ls w, w.Idle ∧ Steps workQueueB s ls (s.setWork s.load w) := by
  cases hrunning : (s.work s.load).running with
  | none =>
    have hpending : (s.work s.load).pending = false := by
      by_contra hp
      simp [left, hrunning, hp] at hleft
    refine ⟨[], s.work s.load, ⟨hpending, hrunning⟩, ?_⟩
    rw [State.setWork, Function.update_eq_self]
    exact .nil s
  | some i =>
    have hpending : (s.work s.load).pending = false := by
      by_contra hp
      rw [hw (by simpa using hp)] at hrunning
      cases hrunning
    simp only [left, hrunning] at hleft
    have hturn := step_turn hoops hphase hrunning
    rw [if_neg (by omega)] at hturn
    exact ⟨[.turn s.load], { s.work s.load with running := none }, ⟨hpending, rfl⟩,
      .cons hturn (.nil _)⟩

/-- The module is gone without another line. -/
theorem finish (hoops : s.oops = false) (hq : Queued s.phase) (htodo : todo s.phase = [])
    (hw : (s.work s.load).pending = true → (s.work s.load).running = none)
    (hleft : left (s.work s.load) = 0) :
    ∃ ls s', Steps workQueueB s ls s' ∧ s'.phase = .unloaded ∧ s'.oops = false ∧
      s'.log = s.log := by
  have hphase : s.phase ≠ .unloaded := fun h => by rw [h] at hq; cases hq
  obtain ⟨ls, w, hidle, hrun⟩ := return_handler hoops hphase hw hleft
  obtain ⟨phase, load, work, log, oops⟩ := s
  dsimp only at hoops hq htodo
  subst hoops
  have hself : (Function.update work load w load).Idle :=
    (congrArg Work.Idle (Function.update_self ..)).mpr hidle
  have hfree : Steps workQueueB ⟨.exit [], load, Function.update work load w, log, false⟩ [.next]
      ⟨.unloaded, load, Function.update work load w, log, false⟩ := Run.of_foldlM rfl
  cases hq with
  | printing => cases htodo
  | ready => cases htodo
  | live => cases htodo
  | removing => cases htodo
  | waiting =>
    have hdestroy : step workQueueB ⟨.exit [.destroyWorkqueue], load,
        Function.update work load w, log, false⟩ .next =
          some ⟨.exit [], load, Function.update work load w, log, false⟩ := by
      simp only [step, nextStep, Stmt.exec, hself, if_true, if_false, Bool.false_eq_true,
        Option.map_some, State.goTo]
    exact ⟨_, _, hrun.append (.cons hdestroy hfree), rfl, rfl, rfl⟩
  | drained => exact ⟨_, _, hrun.append hfree, rfl, rfl, rfl⟩

/-- Behind `queue_work`, the lines that are left can come in any order of the two threads. -/
theorem queued_run {u v t : List String} (h : Interleave u v t) (hoops : s.oops = false)
    (hq : Queued s.phase) (htodo : todo s.phase = u)
    (hw : (s.work s.load).pending = true → (s.work s.load).running = none)
    (hleft : List.replicate (left (s.work s.load)) handlerLine = v) :
    ∃ ls s', Steps workQueueB s ls s' ∧ s'.phase = .unloaded ∧ s'.oops = false ∧
      s'.log = s.log ++ t := by
  induction h generalizing s with
  | nil =>
    obtain ⟨ls, s', hrun, hphase, hoops', hlog⟩ :=
      finish hoops hq htodo hw (by simpa using congrArg List.length hleft)
    exact ⟨ls, s', hrun, hphase, hoops', by rw [hlog, List.append_nil]⟩
  | @left x u v t h ih =>
    obtain ⟨ls, phase, hq', htodo', hrun⟩ := print_next hoops hq htodo
    obtain ⟨ls', s', hrun', hphase, hoops', hlog⟩ :=
      ih (s := (s.print x).goTo phase) hoops hq' htodo' hw hleft
    exact ⟨ls ++ ls', s', hrun.append hrun', hphase, hoops', by
      simp [hlog, State.goTo, State.print]⟩
  | @right x u v t h ih =>
    obtain ⟨k, hk⟩ : ∃ k, left (s.work s.load) = k + 1 := by
      cases hk : left (s.work s.load) with
      | zero => simp [hk] at hleft
      | succ k => exact ⟨k, rfl⟩
    rw [hk, List.replicate_succ, List.cons.injEq] at hleft
    obtain ⟨rfl, hrest⟩ := hleft
    have hphase : s.phase ≠ .unloaded := fun h => by rw [h] at hq; cases hq
    obtain ⟨ls, w, hw', hleft', hrun⟩ := print_handler hoops hphase hw hk
    have hself : ((s.print handlerLine).setWork s.load w).work s.load = w := Function.update_self ..
    obtain ⟨ls', s', hrun', hphase', hoops', hlog⟩ :=
      ih (s := (s.print handlerLine).setWork s.load w) hoops hq htodo
        (fun h => (congrArg Work.running hself).trans (hw' (hself ▸ h)))
        ((congrArg (fun w => List.replicate (left w) handlerLine) hself).trans (hleft' ▸ hrest))
    exact ⟨ls ++ ls', s', hrun.append hrun', hphase', hoops', by
      simp [hlog, State.setWork, State.print]⟩

theorem session_run {t : List String} (ht : Session t) (hoops : s.oops = false)
    (hphase : s.phase = .unloaded) :
    ∃ ls s', Steps workQueueB s ls s' ∧ s'.phase = .unloaded ∧ s'.oops = false ∧
      s'.log = s.log ++ t := by
  obtain ⟨phase, load, work, log, oops⟩ := s
  dsimp only at hoops hphase
  subst hoops hphase
  rcases ht with rfl | ⟨u, rfl, hu⟩
  · exact ⟨[.insmod, .next, .createFails], _, Run.of_foldlM rfl, rfl, rfl, by
      simp [State.print, State.goTo]⟩
  · have hload : Steps workQueueB ⟨.unloaded, load, work, log, false⟩
        [.insmod, .next, .next, .next, .next]
        ⟨.init [.prInfo initEndLine], load + 1,
          Function.update (Function.update work (load + 1) ⟨false, none⟩) (load + 1)
            ⟨true, (Function.update work (load + 1) ⟨false, none⟩ (load + 1)).running⟩,
          log ++ [initLine], false⟩ := Run.of_foldlM rfl
    rw [Function.update_self, Function.update_idem] at hload
    have hself : Function.update work (load + 1) ⟨true, none⟩ (load + 1) = ⟨true, none⟩ :=
      Function.update_self ..
    obtain ⟨ls, s', hrun, hphase', hoops', hlog⟩ :=
      queued_run (s := ⟨.init [.prInfo initEndLine], load + 1, _, log ++ [initLine], false⟩)
        hu rfl .printing rfl (fun _ => congrArg Work.running hself)
        (congrArg (fun w => List.replicate (left w) handlerLine) hself)
    exact ⟨_, s', hload.append hrun, hphase', hoops', by rw [hlog, List.append_assoc]; rfl⟩

end

/-- **The logs of `work_queue_b` are exactly these**: session after session, each with its first
    line first, and the handler's three lines anywhere behind it, also behind that of the exit. -/
theorem drained_iff (log : List String) :
    (∃ ls s, Steps workQueueB start ls s ∧ s.phase = .unloaded ∧ s.log = log) ↔
      ∃ sessions, (∀ t ∈ sessions, Session t) ∧ log = List.flatten sessions := by
  constructor
  · rintro ⟨ls, s, hrun, hphase, rfl⟩
    obtain ⟨sessions, cur, hlog, hsessions, hpoint⟩ := (drains_run hrun).point
    rw [hphase] at hpoint
    cases hpoint with
    | unloaded => exact ⟨sessions, hsessions, hlog.trans (List.append_nil _)⟩
    | queued hq => cases hq
  · rintro ⟨sessions, hsessions, rfl⟩
    suffices h : ∀ s : State, s.oops = false → s.phase = .unloaded →
        ∃ ls s', Steps workQueueB s ls s' ∧ s'.phase = .unloaded ∧
          s'.log = s.log ++ List.flatten sessions by
      obtain ⟨ls, s, hrun, hphase, hlog⟩ := h start rfl rfl
      exact ⟨ls, s, hrun, hphase, hlog⟩
    induction sessions with
    | nil => exact fun s _ hphase => ⟨[], s, .nil s, hphase, by simp⟩
    | cons t sessions ih =>
      obtain ⟨ht, hrest⟩ := List.forall_mem_cons.mp hsessions
      intro s hoops hphase
      obtain ⟨ls, s₁, hrun, hphase₁, hoops₁, hlog₁⟩ := session_run ht hoops hphase
      obtain ⟨ls', s₂, hrun', hphase₂, hlog₂⟩ := ih hrest s₁ hoops₁ hphase₁
      exact ⟨ls ++ ls', s₂, hrun.append hrun', hphase₂, by simp [hlog₂, hlog₁]⟩

end LinuxSummary.Workqueue
