/-
  `do_cgroup_cpu` while the threads of the process come and go.

  The surroundings of the script are the target process: a live thread creates a new one,
  which starts in the groups of its creator, or a thread ends (`ThreadStep`). The state
  has a ghost bit, whether the script has taken the thread list. `cpu_covers`: if every
  thread created behind the list is created by a thread that is already in the group,
  every thread of the process is in the group at the end, whatever the interleaving.
  The invariant behind the list is `Covered`: each thread is in the group or still to be
  classified.
-/
import LinuxSummary.Cgroup.Requests

namespace LinuxSummary.Cgroup

open Prog
open Relation (ReflTransGen)

/-! ## Threads that come and go -/

/-- A thread of the process of `creator` is added under the unused id `new`. -/
def ProcTable.spawn (ps : ProcTable) (creator : Thread) (new : Nat) (hc : creator ∈ ps.threads)
    (hfresh : ∀ u ∈ ps.threads, u.tid ≠ new ∧ u.tgid ≠ new) : ProcTable where
  threads := ps.threads ++ [⟨new, creator.tgid⟩]
  nodup := by
    rw [List.map_append, List.nodup_append]
    refine ⟨ps.nodup, by simp, ?_⟩
    intro a ha b hb hab
    obtain ⟨u, hu, rfl⟩ := List.mem_map.mp ha
    simp only [List.map_cons, List.map_nil, List.mem_singleton] at hb
    exact (hfresh u hu).1 (hab.trans hb)
  leader := by
    intro t ht u hu htu
    simp only [List.mem_append, List.mem_singleton] at ht hu
    rcases ht with ht | rfl <;> rcases hu with hu | rfl
    · exact ps.leader t ht u hu htu
    · exact absurd htu.symm (hfresh t ht).2
    · exact ps.leader creator hc u hu htu
    · rfl

def ProcTable.exit (ps : ProcTable) (tid : Nat) : ProcTable where
  threads := ps.threads.filter (·.tid ≠ tid)
  nodup := ps.nodup.sublist ((List.filter_sublist).map _)
  leader := fun t ht u hu => ps.leader t (List.mem_of_mem_filter ht) u (List.mem_of_mem_filter hu)

/-- The new thread stands in every hierarchy where its creator stands. -/
def World.spawn (w : World) (creator : Thread) (new : Nat) (hc : creator ∈ w.procs.threads)
    (hfresh : ∀ u ∈ w.procs.threads, u.tid ≠ new ∧ u.tgid ≠ new) : World :=
  { w with
    cg := fun h => (w.cg h).move new ((w.cg h).loc creator.tid)
    procs := w.procs.spawn creator new hc hfresh }

/-- The thread leaves the table and its groups. -/
def World.exit (w : World) (tid : Nat) : World :=
  { w with
    cg := fun h => (w.cg h).move tid []
    procs := w.procs.exit tid }

/-- The machine, and whether the script has taken the thread list. -/
structure Watched where
  world : World
  listed : Bool

def Ask.isListdir : Ask → Bool
  | .listdir _ => true
  | _ => false

/-- The machine with the ghost bit. -/
def watch (sys : Sys) (q : Ask) (s : Watched) : q.Reply × Watched :=
  ((exec sys noFailure q s.world).1, ⟨(exec sys noFailure q s.world).2, s.listed || q.isListdir⟩)

/-- `t` is a thread of the process `pid`. -/
def World.threadOf (w : World) (pid t : Nat) : Prop := ⟨t, pid⟩ ∈ w.procs.threads

/-- One step of the process `pid`: a thread allowed by `may` creates another, or one ends. -/
inductive ThreadStep (may : Watched → Nat → Prop) (pid : Nat) : Watched → Watched → Prop
  | spawn {s : Watched} {t new : Nat} (ht : ⟨t, pid⟩ ∈ s.world.procs.threads)
      (hfresh : ∀ u ∈ s.world.procs.threads, u.tid ≠ new ∧ u.tgid ≠ new) (hmay : may s t) :
      ThreadStep may pid s ⟨s.world.spawn ⟨t, pid⟩ new ht hfresh, s.listed⟩
  | exit {s : Watched} {t : Nat} (ht : s.world.threadOf pid t) :
      ThreadStep may pid s ⟨s.world.exit t, s.listed⟩

/-- Any thread may create another at any time. -/
def mayAlways (_ : Watched) (_ : Nat) : Prop := True

/-- Behind the thread list, only a thread of the group may create another. -/
def mayInside (sys : Sys) (pid : Nat) (s : Watched) (t : Nat) : Prop :=
  s.listed = true → s.world.member sys .cpu pid t

/-- `do_cgroup_cpu` without `--spid` for a quota of `usage` percent. -/
def cpuLimit (pid : Nat) (usage : Int) : CpuArgs := ⟨pid, false, false, some usage⟩

/-- The runs of `do_cgroup_cpu` with the process beside it that have returned in `s`. -/
def Returns (sys : Sys) (may : Watched → Nat → Prop) (pid : Nat) (usage : Int) (w : World)
    (s : Watched) : Prop :=
  ReflTransGen (Step (watch sys) (ThreadStep may pid) fun _ _ => True)
    (⟨w, false⟩, doCgroupCpu (cpuLimit pid usage)) (s, .ret ())

/-- The quota is set and every thread of the process is in the group. -/
def World.bounded (sys : Sys) (w : World) (pid : Nat) (usage : Int) : Prop :=
  (w.group sys .cpu pid).map (· cfsQuota) = some (intText (usage * 1000)) ∧
    ∀ t, w.threadOf pid t → w.member sys .cpu pid t

/-! ## What a step of the process keeps -/

section
variable (sys : Sys) {pid : Nat}

theorem group_threadStep {may : Watched → Nat → Prop} {s s' : Watched}
    (h : ThreadStep may pid s s') (c : Controller) (p : Nat) :
    s'.world.group sys c p = s.world.group sys c p := by
  cases h with
  | spawn ht hfresh hmay => exact congrFun (GroupTree.move_attrs _ _ _) _
  | exit ht => exact congrFun (GroupTree.move_attrs _ _ _) _

theorem loc_spawn (w : World) {creator : Thread} {new : Nat} (hc : creator ∈ w.procs.threads)
    (hfresh : ∀ u ∈ w.procs.threads, u.tid ≠ new ∧ u.tgid ≠ new) (h : Hier) (t : Nat) :
    ((w.spawn creator new hc hfresh).cg h).loc t =
      if t = new then (w.cg h).loc creator.tid else (w.cg h).loc t := by
  rw [World.spawn, GroupTree.move_loc _ ((w.cg h).loc_mem creator.tid)]
  exact Function.update_apply _ _ _ _

theorem loc_exit (w : World) {u t : Nat} (hut : t ≠ u) (h : Hier) :
    ((w.exit u).cg h).loc t = (w.cg h).loc t := by
  rw [World.exit, GroupTree.move_loc _ (w.cg h).root_mem, Function.update_of_ne hut]

/-- Every thread of the process is in the group or among those to be classified, and nothing
    is created outside any more. -/
def Covered (usage : Int) (pid : Nat) (rest : List Nat) (s : Watched) : Prop :=
  (s.world.group sys .cpu pid).map (· cfsQuota) = some (intText (usage * 1000)) ∧
    (∀ t, s.world.threadOf pid t → s.world.member sys .cpu pid t ∨ t ∈ rest) ∧
    (s.listed = true ∨ ∀ t, ¬ s.world.threadOf pid t)

theorem covered_stable (usage : Int) (rest : List Nat) :
    Stable (ThreadStep (mayInside sys pid) pid) (Covered sys usage pid rest) := by
  intro s s' h hstep
  obtain ⟨hquota, hin, hlisted⟩ := h
  refine ⟨by rw [group_threadStep sys hstep]; exact hquota, ?_⟩
  cases hstep with
  | @spawn t new ht hfresh hmay =>
    -- a thread is left, so the list has been taken, and the creator is in the group
    have hl : s.listed = true := hlisted.resolve_right fun hno => hno t ht
    refine ⟨fun u hu => ?_, .inl hl⟩
    show ((s.world.spawn ⟨t, pid⟩ new ht hfresh).cg (sys.hier .cpu)).loc u = groupPath pid ∨ _
    rw [loc_spawn]
    have hu' : (⟨u, pid⟩ : Thread) ∈ s.world.procs.threads ++ [⟨new, pid⟩] := hu
    rcases List.mem_append.mp hu' with hold | hnew
    · rw [if_neg (hfresh _ hold).1]
      exact hin u hold
    · obtain rfl : u = new := (Thread.mk.inj (List.mem_singleton.mp hnew)).1
      rw [if_pos rfl]
      exact .inl (hmay hl)
  | @exit t ht =>
    have hsub : ∀ u, (s.world.exit t).threadOf pid u → s.world.threadOf pid u ∧ u ≠ t := by
      intro u hu
      obtain ⟨hmem, hne⟩ := List.mem_filter.mp hu
      exact ⟨hmem, by simpa using hne⟩
    refine ⟨fun u hu => ?_, hlisted.imp id fun hno u hu => hno u (hsub u hu).1⟩
    obtain ⟨hold, hne⟩ := hsub u hu
    rw [World.member, loc_exit _ hne]
    exact hin u hold

/-! ## What the script establishes -/

/-- The triple with the process beside the script. -/
abbrev Beside (pid : Nat) {α : Type} (I : Watched → Prop) (p : Py α) (J : α → Watched → Prop) :
    Prop :=
  Meets (watch sys) (ThreadStep (mayInside sys pid) pid) (fun _ _ => True) I p J

theorem beside_call {I J : Watched → Prop} (hI : Stable (ThreadStep (mayInside sys pid) pid) I)
    (hJ : Stable (ThreadStep (mayInside sys pid) pid) J) {c : Cmd}
    (h : ∀ s, I s → J ⟨(exec sys noFailure (.sh c) s.world).2, s.listed⟩) :
    Beside sys pid I (call c) fun _ => J := by
  refine meets_ask hI fun out => meets_ret hJ fun s' hs' => ?_
  obtain ⟨s, hs, heq⟩ := hs'
  have := h s hs
  rw [← (Prod.mk.inj heq).2, show Ask.isListdir (.sh c) = false from rfl, Bool.or_false]
  exact this

/-- The group of the process is there. -/
def grouped (pid : Nat) (s : Watched) : Prop := (s.world.group sys .cpu pid).isSome

def quotaSet (usage : Int) (pid : Nat) (s : Watched) : Prop :=
  (s.world.group sys .cpu pid).map (· cfsQuota) = some (intText (usage * 1000))

theorem grouped_stable : Stable (ThreadStep (mayInside sys pid) pid) (grouped sys pid) := by
  intro s s' h hstep
  rw [grouped, group_threadStep sys hstep]
  exact h

theorem quotaSet_stable (usage : Int) :
    Stable (ThreadStep (mayInside sys pid) pid) (quotaSet sys usage pid) := by
  intro s s' h hstep
  rw [quotaSet, group_threadStep sys hstep]
  exact h

theorem beside_cgcreate :
    Beside sys pid (fun _ => True) (cgcreate .cpu (getCgroupName pid))
      fun _ => grouped sys pid := by
  have hcreate : Beside sys pid (fun _ => True) (call (.cgcreate .cpu (getCgroupName pid)))
      fun _ => grouped sys pid := by
    refine beside_call sys (fun _ _ _ _ => trivial) (grouped_stable sys) fun s _ => ?_
    have hroot := root_isSome pid s.world (sys.hier .cpu)
    have hhier := sys.hierOf_tool (c := .cpu) (by decide)
    simp only [grouped, World.group, exec, noFailure, Bool.and_false, Bool.false_eq_true, if_false,
      execCmd, Cmd.isTc, execCg, hhier, parsePath_name, World.setTree_cg]
    exact GroupTree.create_isSome _ hroot _
  refine (meets_true _).bind fun b => ?_
  cases b with
  | true => exact (meets_true _).bind fun _ => hcreate
  | false => exact hcreate

theorem beside_cgset (usage : Int) :
    Beside sys pid (grouped sys pid)
      (cgset cfsQuota (intText (usage * 1000)) (getCgroupName pid))
      fun _ => quotaSet sys usage pid := by
  have hget : Beside sys pid (grouped sys pid) (cggetKey cfsQuota (getCgroupName pid))
      fun _ => grouped sys pid := by
    refine meets_ask (grouped_stable sys) fun out => ?_
    have hkeep : ∀ s', (∃ s, grouped sys pid s ∧
        watch sys (.sh (.cgget cfsQuota (getCgroupName pid))) s = (out, s')) →
        grouped sys pid s' := by
      rintro s' ⟨s, hs, heq⟩
      have hsame : (exec sys noFailure (.sh (.cgget cfsQuota (getCgroupName pid))) s.world).2 =
          s.world := by
        simp only [exec, noFailure, Bool.and_false, Bool.false_eq_true, if_false, execCmd,
          Cmd.isTc, execCg]
        split
        · split <;> rfl
        · rfl
      rw [← (Prod.mk.inj heq).2, grouped, hsame]
      exact hs
    exact ((meets_require (grouped_stable sys)).bind fun _ =>
      meets_ret (J := fun _ => grouped sys pid) (grouped_stable sys) fun _ h => h).weaken hkeep
  refine hget.bind fun _ =>
    beside_call sys (grouped_stable sys) (quotaSet_stable sys usage) fun s hs => ?_
  have hnl : '\n' ∉ intText (usage * 1000) := not_mem_intText rfl (by decide) _
  rw [exec_cgset sys noFailure pid s.world (k := cfsQuota) (by decide) _ hs,
    if_neg (by simp [noFailure, hnl]), quotaSet, group_setKey sys s.world .cpu pid rfl]
  obtain ⟨a, ha⟩ := Option.isSome_iff_exists.mp hs
  simp [ha]

/-- Taking the thread list: every thread that is there is on it. -/
theorem beside_getSpidsByPid (usage : Int) :
    Beside sys pid (quotaSet sys usage pid) (getSpidsByPid pid)
      fun spids => Covered sys usage pid spids := by
  have hdir : ∀ (w : World) t, w.threadOf pid t → t ∈ w.taskDir pid := by
    intro w t ht
    have hany : w.procs.threads.any (·.tgid = pid) = true :=
      List.any_eq_true.mpr ⟨_, ht, by simp⟩
    rw [World.taskDir, World.tgidOf, if_pos hany]
    exact List.mem_map.mpr ⟨_, List.mem_filter.mpr ⟨ht, by simp⟩, rfl⟩
  refine meets_ask (quotaSet_stable sys usage) fun b => ?_
  cases b with
  | false =>
    refine meets_ret (covered_stable sys usage [pid]) fun s' hs' => ?_
    obtain ⟨s, hs, heq⟩ := hs'
    obtain ⟨hb, rfl⟩ := Prod.mk.inj heq
    have hempty : (s.world.taskDir pid).isEmpty = true := by simpa [exec] using hb
    have hnone : ∀ t, ¬ s.world.threadOf pid t := by
      intro t ht
      have := hdir s.world t ht
      rw [List.isEmpty_iff.mp hempty] at this
      exact absurd this (by simp)
    exact ⟨hs, fun t ht => absurd ht (hnone t), .inr hnone⟩
  | true =>
    have hkeep : ∀ s', (∃ s, quotaSet sys usage pid s ∧ watch sys (.isdir pid) s = (true, s')) →
        quotaSet sys usage pid s' := by
      rintro s' ⟨s, hs, heq⟩
      obtain ⟨-, rfl⟩ := Prod.mk.inj heq
      exact hs
    refine (meets_ask (quotaSet_stable sys usage) fun r => ?_).weaken hkeep
    cases r with
    | none => exact meets_throw
    | some spids =>
      refine meets_ret (covered_stable sys usage spids) fun s' hs' => ?_
      obtain ⟨s, hs, heq⟩ := hs'
      obtain ⟨hr, rfl⟩ := Prod.mk.inj heq
      simp only [exec] at hr
      split at hr
      · exact absurd hr (by simp)
      · obtain rfl := Option.some.inj hr
        exact ⟨hs, fun t ht => .inr (hdir s.world t ht), .inl (by simp [Ask.isListdir])⟩

theorem beside_cgclassify (usage : Int) (t : Nat) (ts : List Nat) :
    Beside sys pid (Covered sys usage pid (t :: ts)) (cgclassify .cpu (getCgroupName pid) t)
      fun _ => Covered sys usage pid ts := by
  refine beside_call sys (covered_stable sys usage _) (covered_stable sys usage _) fun s hs => ?_
  obtain ⟨hquota, hin, hlisted⟩ := hs
  have hg : (s.world.group sys .cpu pid).isSome := by
    rw [← Option.isSome_map (f := (· cfsQuota)), hquota]
    rfl
  have hrun := congrArg Prod.snd
    (run_cgclassify sys noFailure (c := .cpu) (by decide) pid s.world t)
  rw [cgclassify, run_call] at hrun
  simp only [noFailure, hg, true_and] at hrun
  rw [hrun]
  split
  · refine ⟨by rw [group_addTask]; exact hquota, fun u hu => ?_, hlisted⟩
    rw [member_addTask sys s.world .cpu pid hg]
    rcases hin u hu with hm | hm
    · exact .inl (.inr hm)
    · rcases List.mem_cons.mp hm with rfl | hm
      · exact .inl (.inl rfl)
      · exact .inr hm
  · next hdead =>
    -- a thread that is gone needs no classifying
    refine ⟨hquota, fun u hu => ?_, hlisted⟩
    have halive : s.world.alive u = true := List.any_eq_true.mpr ⟨_, hu, by simp⟩
    rcases hin u hu with hm | hm
    · exact .inl hm
    · rcases List.mem_cons.mp hm with rfl | hm
      · exact absurd halive hdead
      · exact .inr hm

theorem beside_doCgroupCpu {usage : Int} (husage : usage ≠ 0) :
    Beside sys pid (fun _ => True) (doCgroupCpu (cpuLimit pid usage))
      fun _ => Covered sys usage pid [] := by
  have hprog : doCgroupCpu (cpuLimit pid usage) =
      cgcreate .cpu (getCgroupName pid) >>= fun _ =>
        cgset cfsQuota (intText (usage * 1000)) (getCgroupName pid) >>= fun _ =>
          getSpidsByPid pid >>= fun spids =>
            forEach spids fun spid => cgclassify .cpu (getCgroupName pid) spid := by
    simp [doCgroupCpu, cpuLimit, husage]
  rw [hprog]
  exact (beside_cgcreate sys).bind fun _ => (beside_cgset sys usage).bind fun _ =>
    (beside_getSpidsByPid sys usage).bind fun spids =>
      meets_forEach (covered_stable sys usage [])
        (fun t ts => beside_cgclassify sys usage t ts) spids

/-- **The whole process is limited**, if behind the thread list only threads of the group
    create others. -/
theorem cpu_covers {usage : Int} (husage : usage ≠ 0) {w : World} {s : Watched}
    (hrun : Returns sys (mayInside sys pid) pid usage w s) : s.world.bounded sys pid usage := by
  have hend : Covered sys usage pid [] s :=
    Meets.sound (beside_doCgroupCpu sys husage) trivial hrun
  exact ⟨hend.1, fun t ht => (hend.2.1 t ht).resolve_right (by simp)⟩

/-! ## A thread created behind the list -/

/-- A run of the machine without the ghost bit, for a program that does not take the list. -/
theorem run_watch {α : Type} {p : Py α} {B : PyError → Prop}
    (hp : p.Only (fun q => q.isListdir = false) B) (s : Watched) :
    run (watch sys) p s =
      ((run (exec sys noFailure) p s.world).1,
        ⟨(run (exec sys noFailure) p s.world).2, s.listed⟩) :=
  hp.run_component (watch sys) Watched.world (fun w s => ⟨w, s.listed⟩) (fun _ _ => rfl)
    (fun _ _ _ => rfl) (fun _ => rfl) (fun q s hq => by rw [watch, hq, Bool.or_false]) s

theorem asksSh_not_listdir (q : Ask) (h : asksSh q) : q.isListdir = false := by
  obtain ⟨c, rfl⟩ := h
  rfl

/-- The machine when the quota is set and the list about to be taken. -/
def World.withQuota (w : World) (pid : Nat) (usage : Int) : World :=
  (w.resetGroup sys .cpu pid).setKey sys cfsQuota (intText (usage * 1000)) pid

theorem steps_to_list (may : Watched → Nat → Prop) (pid : Nat) {usage : Int} (husage : usage ≠ 0)
    (w : World) (hdir : w.taskDir pid ≠ []) :
    ReflTransGen (Step (watch sys) (ThreadStep may pid) fun _ _ => True)
      (⟨w, false⟩, doCgroupCpu (cpuLimit pid usage))
      (⟨w.withQuota sys pid usage, true⟩,
        classifyAll .cpu (w.taskDir pid) (getCgroupName pid)) := by
  have hcr := run_cgcreate sys noFailure (c := .cpu) (by decide) pid w
  have hset := run_cgset sys noFailure pid (w.resetGroup sys .cpu pid) cfsQuota (by decide)
    (intText (usage * 1000))
  have hnl : '\n' ∉ intText (usage * 1000) := not_mem_intText rfl (by decide) _
  rw [if_neg (by simp [noFailure, cfsQuota, group_resetGroup]),
    if_neg (by simp [noFailure, hnl])] at hset
  have hempty : (w.taskDir pid).isEmpty = false := by simpa using hdir
  have hlist : run (watch sys) (getSpidsByPid pid) ⟨w.withQuota sys pid usage, false⟩ =
      (.ok (w.taskDir pid), ⟨w.withQuota sys pid usage, true⟩) := by
    have hsame : (w.withQuota sys pid usage).taskDir pid = w.taskDir pid := taskDir_congr rfl pid
    simp [getSpidsByPid, watch, exec, hsame, hempty, Ask.isListdir]
  have hcr' := run_watch sys ((only_cgcreate .cpu (getCgroupName pid)).mono asksSh_not_listdir)
    ⟨w, false⟩
  have hset' := run_watch sys ((only_cgset cfsQuota (intText (usage * 1000))
    (getCgroupName pid)).mono asksSh_not_listdir) ⟨w.resetGroup sys .cpu pid, false⟩
  rw [hcr] at hcr'
  rw [hset] at hset'
  have hprog : doCgroupCpu (cpuLimit pid usage) =
      cgcreate .cpu (getCgroupName pid) >>= fun _ =>
        cgset cfsQuota (intText (usage * 1000)) (getCgroupName pid) >>= fun _ =>
          getSpidsByPid pid >>= fun spids => classifyAll .cpu spids (getCgroupName pid) := by
    simp [doCgroupCpu, cpuLimit, husage, classifyAll]
  rw [hprog]
  exact ((steps_of_run hcr').trans (steps_of_run hset')).trans
    (steps_of_run (f := fun spids => classifyAll .cpu spids (getCgroupName pid)) hlist)

theorem steps_classify (may : Watched → Nat → Prop) (tasks : List Nat) (s : Watched)
    (hg : (s.world.group sys .cpu pid).isSome) :
    ReflTransGen (Step (watch sys) (ThreadStep may pid) fun _ _ => True)
      (s, classifyAll .cpu tasks (getCgroupName pid))
      (⟨s.world.setTree (sys.hier .cpu) ((s.world.cg (sys.hier .cpu)).moveAll
        (tasks.filter (joins noFailure .cpu pid s.world)) (groupPath pid)), s.listed⟩,
        .ret ()) := by
  have honly : (classifyAll .cpu tasks (getCgroupName pid)).Only
      (fun q => q.isListdir = false) notValidation :=
    (only_forEach tasks fun _ _ => only_sh _).mono asksSh_not_listdir
  have hrun := run_watch sys honly s
  rw [run_classifyAll sys noFailure pid (c := .cpu) (by decide) tasks hg] at hrun
  have hsteps : ReflTransGen (Step (watch sys) (ThreadStep may pid) fun _ _ => True)
      (s, classifyAll .cpu tasks (getCgroupName pid) >>= Prog.ret) (_, .ret ()) :=
    steps_of_run hrun
  rwa [show classifyAll .cpu tasks (getCgroupName pid) >>= Prog.ret =
    classifyAll .cpu tasks (getCgroupName pid) from bind_ret_unit _] at hsteps

end

section
variable (sys : Sys)

theorem group_withQuota (w : World) (pid : Nat) (usage : Int) :
    ((w.withQuota sys pid usage).group sys .cpu pid).isSome := by
  rw [World.withQuota, group_setKey sys _ .cpu pid rfl, group_resetGroup]
  rfl

/-- The tasks can be classified in two parts. -/
theorem steps_classify_cons (may : Watched → Nat → Prop) {pid : Nat} (t : Nat) (tasks : List Nat)
    (s : Watched) (hg : (s.world.group sys .cpu pid).isSome) :
    ReflTransGen (Step (watch sys) (ThreadStep may pid) fun _ _ => True)
      (s, classifyAll .cpu (t :: tasks) (getCgroupName pid))
      (⟨s.world.setTree (sys.hier .cpu) ((s.world.cg (sys.hier .cpu)).moveAll
        ([t].filter (joins noFailure .cpu pid s.world)) (groupPath pid)), s.listed⟩,
        classifyAll .cpu tasks (getCgroupName pid)) := by
  have hprog : classifyAll .cpu (t :: tasks) (getCgroupName pid) =
      classifyAll .cpu [t] (getCgroupName pid) >>= fun _ =>
        classifyAll .cpu tasks (getCgroupName pid) := by
    simp only [classifyAll, forEach_cons, forEach_nil, bind_assoc]
    rfl
  rw [hprog]
  exact steps_bind (steps_classify sys may [t] s hg)

end

/-- The thread 7, which has been classified, creates the thread 9 behind the list, and the thread 8
    ends before it is classified. -/
theorem cpu_covers_boot :
    ∃ s, Returns Sys.boot (mayInside Sys.boot 7) 7 50 World.boot s ∧ s.world.threadOf 7 9 ∧
      ¬ s.world.threadOf 7 8 ∧ s.world.bounded Sys.boot 7 50 := by
  have husage : (50 : Int) ≠ 0 := by decide
  have htasks : World.boot.taskDir 7 = [7, 8] := by decide
  have hlist := steps_to_list Sys.boot (mayInside Sys.boot 7) 7 husage World.boot
    (by rw [htasks]; decide)
  rw [htasks] at hlist
  have hfirst := steps_classify_cons Sys.boot (mayInside Sys.boot 7) 7 [8]
    ⟨World.boot.withQuota Sys.boot 7 50, true⟩ (group_withQuota Sys.boot World.boot 7 50)
  obtain ⟨w1, hw1⟩ : ∃ w1, w1 = (World.boot.withQuota Sys.boot 7 50).setTree (Sys.boot.hier .cpu)
      (((World.boot.withQuota Sys.boot 7 50).cg (Sys.boot.hier .cpu)).moveAll
        ([7].filter (joins noFailure .cpu 7 (World.boot.withQuota Sys.boot 7 50)))
        (groupPath 7)) := ⟨_, rfl⟩
  rw [← hw1] at hfirst
  have hthreads : w1.procs.threads = World.boot.procs.threads := by rw [hw1]; rfl
  have hmember : w1.member Sys.boot .cpu 7 7 := by
    rw [hw1, World.member, World.setTree_cg,
      GroupTree.moveAll_loc _ _ (group_withQuota Sys.boot World.boot 7 50)]
    exact if_pos (by decide)
  have hg1 : (w1.group Sys.boot .cpu 7).isSome := by
    rw [hw1]
    decide +kernel
  have hcreator : ⟨7, 7⟩ ∈ w1.procs.threads := by rw [hthreads]; decide
  have hfresh : ∀ u ∈ w1.procs.threads, u.tid ≠ 9 ∧ u.tgid ≠ 9 := by rw [hthreads]; decide
  obtain ⟨w2, hw2⟩ : ∃ w2, w2 = w1.spawn ⟨7, 7⟩ 9 hcreator hfresh := ⟨_, rfl⟩
  have hspawn : ThreadStep (mayInside Sys.boot 7) 7 ⟨w1, true⟩ ⟨w2, true⟩ := by
    rw [hw2]
    exact ThreadStep.spawn hcreator hfresh fun _ => hmember
  have hprocs : w2.procs.threads = World.boot.procs.threads ++ [(⟨9, 7⟩ : Thread)] := by
    rw [hw2, ← hthreads]
    rfl
  have height : w2.threadOf 7 8 := by
    rw [World.threadOf, hprocs]
    decide
  have hexit : ThreadStep (mayInside Sys.boot 7) 7 ⟨w2, true⟩ ⟨w2.exit 8, true⟩ :=
    ThreadStep.exit height
  have hg2 : ((w2.exit 8).group Sys.boot .cpu 7).isSome := by
    rw [show (w2.exit 8).group Sys.boot .cpu 7 = _ from group_threadStep Sys.boot hexit .cpu 7,
      show w2.group Sys.boot .cpu 7 = _ from group_threadStep Sys.boot hspawn .cpu 7]
    exact hg1
  have hrest := steps_classify Sys.boot (mayInside Sys.boot 7) [8] ⟨w2.exit 8, true⟩ hg2
  have hrun := (((hlist.trans hfirst).tail (Step.other hspawn)).tail (Step.other hexit)).trans hrest
  have hleft : (w2.exit 8).procs.threads =
      (World.boot.procs.threads ++ [(⟨9, 7⟩ : Thread)]).filter (·.tid ≠ 8) := by
    rw [← hprocs]
    rfl
  refine ⟨_, hrun, ?_, ?_, cpu_covers Sys.boot husage hrun⟩
  · show (⟨9, 7⟩ : Thread) ∈ (w2.exit 8).procs.threads
    rw [hleft]
    decide
  · show (⟨8, 7⟩ : Thread) ∉ (w2.exit 8).procs.threads
    rw [hleft]
    decide

/-- Between the list and the classification of the thread 8, it creates the thread 9. -/
theorem not_bounded_boot :
    ¬ ∀ s, Returns Sys.boot mayAlways 7 50 World.boot s → s.world.bounded Sys.boot 7 50 := by
  intro hall
  have husage : (50 : Int) ≠ 0 := by decide
  have hcreator : ⟨8, 7⟩ ∈ (World.boot.withQuota Sys.boot 7 50).procs.threads := by decide
  have hfresh : ∀ u ∈ (World.boot.withQuota Sys.boot 7 50).procs.threads,
      u.tid ≠ 9 ∧ u.tgid ≠ 9 := by decide
  obtain ⟨w, hw⟩ : ∃ w, w = (World.boot.withQuota Sys.boot 7 50).spawn ⟨8, 7⟩ 9 hcreator hfresh :=
    ⟨_, rfl⟩
  have hspawn : ThreadStep mayAlways 7 ⟨World.boot.withQuota Sys.boot 7 50, true⟩ ⟨w, true⟩ := by
    rw [hw]
    exact ThreadStep.spawn hcreator hfresh trivial
  have hg : (w.group Sys.boot .cpu 7).isSome := by
    rw [show w.group Sys.boot .cpu 7 = _ from group_threadStep Sys.boot hspawn .cpu 7]
    exact group_withQuota Sys.boot World.boot 7 50
  have hrun := ((steps_to_list Sys.boot mayAlways 7 husage World.boot (by decide)).tail
    (Step.other hspawn)).trans (steps_classify Sys.boot mayAlways _ ⟨w, true⟩ hg)
  have hnine : w.threadOf 7 9 := by
    rw [hw]
    exact List.mem_append_right _ (List.mem_singleton.mpr rfl)
  have hmem := (hall _ hrun).2 9 hnine
  -- the thread 9 stands where the thread 8 stood, at the root
  have hout : 9 ∉ (World.boot.taskDir 7).filter (joins noFailure .cpu 7 w) :=
    fun h => absurd (List.mem_of_mem_filter h) (by decide)
  rw [World.member, World.setTree_cg, GroupTree.moveAll_loc _ _ hg, if_neg hout, hw,
    loc_spawn, if_pos rfl] at hmem
  exact absurd hmem (by decide)

end LinuxSummary.Cgroup
