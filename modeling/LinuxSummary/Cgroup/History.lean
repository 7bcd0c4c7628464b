/-
  Sequences of commands, limits and `--clear`, for several pids and controllers.

  A limit command makes its group afresh, so what it leaves there does not depend on what was
  there (`Command.leaves`); it moves only threads of its process, so it leaves the groups of
  other processes alone. `History` is the invariant over a sequence: each group is what the last
  command for it leaves. `last_command_wins` compares it with that command run alone.
-/
import LinuxSummary.Cgroup.Atomic
import LinuxSummary.Cgroup.Faults

namespace LinuxSummary.Cgroup

open Prog

/-! ## Processes -/

/-- Two commands for one process are for one pid. -/
def DistinctProcs (w : World) (cmds : List Command) : Prop :=
  ∀ a ∈ cmds, ∀ b ∈ cmds, ∀ g, w.tgidOf a.pid = some g → w.tgidOf b.pid = some g → a.pid = b.pid

theorem alive_iff {w : World} {t : Nat} : w.alive t = true ↔ ∃ g, ⟨t, g⟩ ∈ w.procs.threads := by
  unfold World.alive
  rw [List.any_eq_true]
  constructor
  · intro h
    obtain ⟨⟨tid, g⟩, hmem, ht⟩ := h
    obtain rfl := of_decide_eq_true ht
    exact ⟨g, hmem⟩
  · intro h
    obtain ⟨g, hmem⟩ := h
    exact ⟨_, hmem, decide_eq_true rfl⟩

theorem tgid_unique {w : World} {t g g' : Nat} (h : ⟨t, g⟩ ∈ w.procs.threads)
    (h' : ⟨t, g'⟩ ∈ w.procs.threads) : g = g' := by
  have heq := List.inj_on_of_nodup_map w.procs.nodup h h' rfl
  exact congrArg Thread.tgid heq

/-- A live thread is a thread of its process. -/
theorem tgidOf_of_mem {w : World} {t g : Nat} (h : ⟨t, g⟩ ∈ w.procs.threads) :
    w.tgidOf t = some g := by
  unfold World.tgidOf
  split
  · next hany =>
    -- the thread is the leader of a process
    obtain ⟨u, hu, hut⟩ := List.any_eq_true.mp hany
    have hlead := w.procs.leader u hu _ h (of_decide_eq_true hut).symm
    exact congrArg some ((of_decide_eq_true hut).symm.trans hlead.symm)
  · have hsome : (w.procs.threads.find? (·.tid = t)).isSome := by
      rw [List.find?_isSome]
      exact ⟨_, h, decide_eq_true rfl⟩
    obtain ⟨⟨tid, g'⟩, hfind⟩ := Option.isSome_iff_exists.mp hsome
    have htid : tid = t := by simpa using List.find?_some hfind
    subst htid
    rw [hfind, Option.map_some, tgid_unique (List.mem_of_find?_eq_some hfind) h]

theorem mem_taskDir {w : World} {pid t : Nat} (h : t ∈ w.taskDir pid) :
    ∃ g, w.tgidOf pid = some g ∧ ⟨t, g⟩ ∈ w.procs.threads := by
  unfold World.taskDir at h
  split at h
  · next g hg =>
    obtain ⟨⟨tid, g'⟩, hmem, rfl⟩ := List.mem_map.mp h
    obtain ⟨hthread, hg'⟩ := List.mem_filter.mp hmem
    obtain rfl : g' = g := of_decide_eq_true hg'
    exact ⟨g', hg, hthread⟩
  · exact absurd h (by simp)

/-- A live thread that a command classifies belongs to the process of its pid. -/
theorem Command.task_process {cmd : Command} {w : World} {t : Nat} (h : t ∈ cmd.tasks w)
    (halive : w.alive t = true) :
    ∃ g, w.tgidOf cmd.pid = some g ∧ ⟨t, g⟩ ∈ w.procs.threads := by
  have hself : t = cmd.pid → ∃ g, w.tgidOf cmd.pid = some g ∧ ⟨t, g⟩ ∈ w.procs.threads := by
    intro heq
    obtain rfl := heq
    obtain ⟨g, hg⟩ := alive_iff.mp halive
    exact ⟨g, tgidOf_of_mem hg, hg⟩
  cases cmd with
  | cpu args =>
    have htasks : t ∈ args.tasks w := h
    unfold CpuArgs.tasks at htasks
    split at htasks
    · exact hself (List.mem_singleton.mp htasks)
    · exact mem_taskDir htasks
  | mem args => exact hself (List.mem_singleton.mp h)
  | blkio args => exact hself (List.mem_singleton.mp h)
  | net args => exact hself (List.mem_singleton.mp h)

theorem pid_eq_of_task {w : World} {cmds : List Command} (hdist : DistinctProcs w cmds)
    {a b : Command} (ha : a ∈ cmds) (hb : b ∈ cmds) {t : Nat} (hta : t ∈ a.tasks w)
    (htb : t ∈ b.tasks w) (halive : w.alive t = true) : a.pid = b.pid := by
  obtain ⟨g, hga, hg⟩ := a.task_process hta halive
  obtain ⟨g', hgb, hg'⟩ := b.task_process htb halive
  obtain rfl := tgid_unique hg hg'
  exact hdist a ha b hb g hga hgb

/-! ## What a command does -/

/-- The command does something. -/
def Command.effective : Command → Bool
  | .cpu args => args.clear || args.usage.any fun usage => decide (usage ≠ 0)
  | .mem args => args.clear || args.mem.any fun mem => decide (mem ≠ [])
  | .blkio _ => true
  | .net args => args.clear || args.speed.isSome

section
variable (sys : Sys)

/-- The group `ctpid<pid>` of a controller with all below it. -/
def World.subtree (w : World) (c : Controller) (pid : Nat) : GroupTree.Subtree Comp Attrs Nat :=
  (w.cg (sys.hier c)).subtree (groupPath pid)

/-- What a limit command leaves: its group, with its settings and its threads. -/
def Command.leaves (w : World) (cmd : Command) : GroupTree.Subtree Comp Attrs Nat :=
  .leaf (applyAll ((cmd.settings sys w).filter (keeps noFailure cmd.pid)) sys.fresh)
    {t | t ∈ (cmd.tasks w).filter (joins noFailure cmd.controller cmd.pid w)}

variable {sys} {cmd : Command} {w w' : World}

theorem Command.tasks_congr (hprocs : w'.procs = w.procs) : cmd.tasks w' = cmd.tasks w := by
  cases cmd with
  | cpu args => simp only [Command.tasks, CpuArgs.tasks, taskDir_congr hprocs]
  | _ => rfl

theorem Command.leaves_congr (hprocs : w'.procs = w.procs)
    (hmajor : ∀ d, w'.tc.majorOf d = w.tc.majorOf d) : cmd.leaves sys w' = cmd.leaves sys w := by
  have hsettings : cmd.settings sys w' = cmd.settings sys w := by
    cases cmd with
    | net args => simp only [Command.settings, hmajor]
    | _ => rfl
  have hjoins : joins noFailure cmd.controller cmd.pid w' =
      joins noFailure cmd.controller cmd.pid w := by
    funext t
    simp only [joins, World.alive, hprocs]
  unfold Command.leaves
  rw [hsettings, Command.tasks_congr hprocs, hjoins]

/-- A limit command that passes its checks returns, and leaves its group; it leaves alone what is
    apart from its group and holds none of its threads. -/
theorem Command.run_limit (h : cmd.Passes sys) (hroot : ¬ cmd.NoRoot w) :
    ∃ w', run (exec sys noFailure) cmd.func w = (.ok (), w') ∧
      (∀ d, w'.tc.majorOf d = w.tc.majorOf d) ∧
      w'.cg = (w.limited sys noFailure cmd.controller cmd.pid (cmd.settings sys w)
        (cmd.tasks w)).cg := by
  obtain ⟨tc', hrun, -, hmajor⟩ := Command.run_func noFailure h hroot
  have hlimit := run_limitGroup sys noFailure cmd.pid (Command.settings_ok h w).1
    cmd.controller_mem rfl (fun _ _ => rfl) (cmd.tasks w) { w with tc := tc' }
  exact ⟨_, hrun.trans hlimit, hmajor, rfl⟩

theorem subtree_limited (c : Controller) (pid : Nat) (kvs : List (Key × Text))
    (tasks : List Nat) :
    (w.limited sys noFailure c pid kvs tasks).subtree sys c pid =
      .leaf (applyAll (kvs.filter (keeps noFailure pid)) sys.fresh)
        {t | t ∈ tasks.filter (joins noFailure c pid w)} := by
  unfold World.subtree World.limited
  rw [World.setTree_cg]
  exact GroupTree.subtree_refresh_self _ (groupPath_ne_nil pid) (root_isSome pid w _) _ _ _

theorem groupPath_apart {p q : Nat} (h : p ≠ q) : GroupTree.Apart (groupPath p) (groupPath q) :=
  ⟨fun hpre => h ((groupPath_prefix_iff p q).mp hpre),
    fun hpre => h ((groupPath_prefix_iff q p).mp hpre).symm⟩

theorem subtree_limited_of_ne {c : Controller} {p pid : Nat} (hp : p ≠ pid)
    {kvs : List (Key × Text)} {tasks : List Nat}
    (hfree : ∀ t ∈ tasks, w.alive t = true → ¬ groupPath p <+: (w.cg (sys.hier c)).loc t) :
    (w.limited sys noFailure c pid kvs tasks).subtree sys c p = w.subtree sys c p := by
  have hapart := groupPath_apart hp
  have hroot := root_isSome pid w (sys.hier c)
  have hmade := GroupTree.subtree_refresh (w.cg (sys.hier c)) (groupPath_ne_nil pid) hapart hroot
    sys.fresh (applyAll (kvs.filter (keeps noFailure pid)))
  unfold World.subtree World.limited
  rw [World.setTree_cg, ← hmade]
  refine GroupTree.subtree_moveAll _ hapart ?_ ?_
  · rw [GroupTree.modify_attrs, if_pos rfl,
      GroupTree.refresh_attrs _ (groupPath_ne_nil pid) _ hroot, if_pos rfl]
    rfl
  · intro t ht
    obtain ⟨hmem, hjoins⟩ := List.mem_filter.mp ht
    have halive : w.alive t = true := by
      unfold joins at hjoins
      exact (Bool.and_eq_true _ _ ▸ hjoins).2
    rw [GroupTree.modify_loc, GroupTree.refresh_loc _ (groupPath_ne_nil pid)]
    split
    · exact fun hpre => absurd (List.prefix_nil.mp hpre) (groupPath_ne_nil p)
    · exact hfree t hmem halive

/-- A command that asks for nothing returns and changes nothing. -/
theorem Command.run_idle (h : cmd.effective = false) :
    run (exec sys noFailure) cmd.func w = (.ok (), w) := by
  cases cmd with
  | cpu args =>
    obtain ⟨hclear, hnone⟩ := (Bool.or_eq_false_iff ..).mp h
    show run _ (doCgroupCpu args) w = _
    unfold doCgroupCpu
    cases husage : args.usage with
    | none => simp [hclear]
    | some usage =>
      have hzero : usage = 0 := by simpa [husage] using hnone
      simp [hclear, hzero]
  | mem args =>
    obtain ⟨hclear, hnone⟩ := (Bool.or_eq_false_iff ..).mp h
    show run _ (doCgroupMem args) w = _
    unfold doCgroupMem
    cases hmem : args.mem with
    | none => simp [hclear]
    | some mem =>
      have hempty : mem = [] := by simpa [hmem] using hnone
      simp [hclear, hempty]
  | blkio args => exact absurd h (by simp [Command.effective])
  | net args =>
    obtain ⟨hclear, hnone⟩ := (Bool.or_eq_false_iff ..).mp h
    have hspeed : args.speed = none := Option.not_isSome_iff_eq_none.mp (by simp [hnone])
    show run _ (doCgroupNet args) w = _
    unfold doCgroupNet
    simp [hclear, hspeed]

/-- A limit command that returns has passed its checks. -/
theorem Command.passes_of_ok (hclear : cmd.clear = false) (heff : cmd.effective = true)
    (h : run (exec sys noFailure) cmd.func w = (.ok (), w')) :
    cmd.Passes sys ∧ ¬ cmd.NoRoot w := by
  have hreject : ∀ kvs, cmd.madeBeforeReject sys ≠ some kvs := by
    intro kvs hkvs
    obtain ⟨msg, hrun⟩ := run_rejected sys hkvs w
    rw [hrun] at h
    exact absurd (Prod.mk.inj h).1 (by simp)
  have hpass : cmd.Passes sys := by
    cases cmd with
    | cpu args =>
      have hclear' : args.clear = false := hclear
      cases husage : args.usage with
      | none => exact absurd heff (by simp [Command.effective, hclear', husage])
      | some usage =>
        have hne : usage ≠ 0 := by simpa [Command.effective, hclear', husage] using heff
        exact ⟨hclear, usage, husage, hne⟩
    | mem args =>
      have hclear' : args.clear = false := hclear
      cases hmem : args.mem with
      | none => exact absurd heff (by simp [Command.effective, hclear', hmem])
      | some mem =>
        have hne : mem ≠ [] := by simpa [Command.effective, hclear', hmem] using heff
        refine ⟨hclear, mem, hmem, hne, ?_⟩
        by_contra hsize
        refine hreject [] ?_
        simp [Command.madeBeforeReject, hmem, hclear', hne, Bool.eq_false_iff.mpr hsize]
    | blkio args =>
      have hclear' : args.clear = false := hclear
      rcases doCgroupBlkio_cases sys noFailure hclear' w with ⟨dev, st, hdev, hst⟩ | ⟨e, he⟩
      · refine ⟨hclear, dev, st, hdev, hst, ?_⟩
        by_contra hrej
        refine hreject (accepted (args.requests st)) ?_
        have hrej' : rejects (args.requests st) = true := Bool.eq_true_of_not_eq_false hrej
        simp [Command.madeBeforeReject, hdev, hst, hclear', hrej']
      · exact absurd (Prod.mk.inj (he.symm.trans h)).1 (by simp)
    | net args =>
      have hclear' : args.clear = false := hclear
      have hrun : run (exec sys noFailure) (doCgroupNet args) w = (.ok (), w') := h
      have hsome : args.speed.isSome = true := by
        simpa [Command.effective, hclear'] using heff
      obtain ⟨speed, hspeed⟩ := Option.isSome_iff_exists.mp hsome
      refine ⟨hclear, speed, hspeed, ?_⟩
      by_contra hsize
      simp only [doCgroupNet, hclear', hspeed, Bool.eq_false_iff.mpr hsize, require] at hrun
      exact absurd (Prod.mk.inj hrun).1 (by simp)
  refine ⟨hpass, fun hroot => ?_⟩
  obtain ⟨e, w1, herr⟩ := Command.run_noRoot noFailure hpass hroot
  rw [herr] at h
  exact absurd (Prod.mk.inj h).1 (by simp)

/-- `--clear` of `net`: the class goes, if the root is htb, and then the group. -/
theorem run_netClear {args : NetArgs} (hclear : args.clear = true)
    (h : run (exec sys noFailure) (doCgroupNet args) w = (.ok (), w')) :
    (∀ d, w'.tc.majorOf d = w.tc.majorOf d) ∧
      w'.cg = (w.dropGroup sys .netCls args.pid).cg := by
  have hdrop : ∀ w1 : World, w1.cg = w.cg → (w1.dropGroup sys .netCls args.pid).cg =
      (w.dropGroup sys .netCls args.pid).cg := by
    intro w1 hcg
    unfold World.dropGroup World.setTree
    rw [hcg]
  have hdelete : ∀ w1, run (exec sys noFailure) (cgdelete .netCls (getCgroupName args.pid)) w1 =
      (.ok (), w1.dropGroup sys .netCls args.pid) :=
    fun w1 => run_cgdelete sys noFailure (by decide) args.pid w1
  have hget := run_tc sys noFailure (only_tcQdiscGetQdiscAndMajor args.dev) w
  have hfind := run_tcQdiscGetQdiscAndMajor sys noFailure args.dev w.tc
  rw [doCgroupNet, hclear] at h
  rcases hfind with ⟨r, hr, hrun⟩ | ⟨-, e, hrun⟩
  · rw [hrun] at hget
    rw [if_pos rfl, run_bind_ok _ hget] at h
    by_cases hhtb : r.1 = "htb".toList
    · have hmajor : pickMajor r = r.2 := if_pos hhtb
      have hm : IsMajor r.2 := hmajor ▸ isMajor_pickMajor hr
      have hdel := run_tc sys noFailure (only_tcClassDel (.int args.pid) args.dev r.2) w
      rw [run_tcClassDel sys noFailure hm] at hdel
      simp only [hhtb, if_true] at h
      split at hdel
      · rw [run_bind_ok _ hdel, hdelete] at h
        obtain rfl := (Prod.mk.inj h).2
        refine ⟨fun d => ?_, hdrop _ rfl⟩
        exact congrArg (Option.map pickMajor) (rootOf_congr rfl rfl)
      · rw [run_bind_error _ hdel] at h
        exact absurd (Prod.mk.inj h).1 (by simp)
    · simp only [hhtb, if_false] at h
      have hw : run (exec sys noFailure) (cgdelete .netCls (getCgroupName args.pid)) w =
          (.ok (), w') := h
      rw [hdelete] at hw
      obtain rfl := (Prod.mk.inj hw).2
      exact ⟨fun _ => rfl, rfl⟩
  · rw [hrun] at hget
    rw [if_pos rfl, run_bind_error _ hget] at h
    exact absurd (Prod.mk.inj h).1 (by simp)

theorem Command.run_clear (hclear : cmd.clear = true)
    (h : run (exec sys noFailure) cmd.func w = (.ok (), w')) :
    (∀ d, w'.tc.majorOf d = w.tc.majorOf d) ∧
      w'.cg = (w.dropGroup sys cmd.controller cmd.pid).cg := by
  have hdelete : ∀ c ∈ toolControllers, ∀ pid,
      run (exec sys noFailure) (cgdelete c (getCgroupName pid)) w = (.ok (), w') →
      (∀ d, w'.tc.majorOf d = w.tc.majorOf d) ∧ w'.cg = (w.dropGroup sys c pid).cg := by
    intro c hc pid hrun
    rw [run_cgdelete sys noFailure hc pid w] at hrun
    obtain rfl := (Prod.mk.inj hrun).2
    exact ⟨fun _ => rfl, rfl⟩
  cases cmd with
  | cpu args =>
    have hprog : doCgroupCpu args = cgdelete .cpu (getCgroupName args.pid) := if_pos hclear
    exact hdelete .cpu (by decide) args.pid (hprog ▸ h)
  | mem args =>
    have hprog : doCgroupMem args = cgdelete .memory (getCgroupName args.pid) := if_pos hclear
    exact hdelete .memory (by decide) args.pid (hprog ▸ h)
  | blkio args =>
    have hprog : doCgroupBlkio args = cgdelete .blkio (getCgroupName args.pid) := if_pos hclear
    exact hdelete .blkio (by decide) args.pid (hprog ▸ h)
  | net args => exact run_netClear hclear h

end

/-! ## The last command for a group -/

/-- The command is for this group, and does something. -/
def Command.touches (c : Controller) (pid : Nat) (cmd : Command) : Bool :=
  cmd.effective && decide (cmd.controller = c ∧ cmd.pid = pid)

/-- The last effective command for a group. -/
def lastFor (c : Controller) (pid : Nat) (cmds : List Command) : Option Command :=
  cmds.foldl (fun last cmd => if cmd.touches c pid then some cmd else last) none

theorem lastFor_concat (c : Controller) (pid : Nat) (cmds : List Command) (cmd : Command) :
    lastFor c pid (cmds ++ [cmd]) =
      if cmd.touches c pid then some cmd else lastFor c pid cmds := by
  unfold lastFor
  rw [List.foldl_append]
  rfl

theorem Command.touches_iff {c : Controller} {pid : Nat} {cmd : Command} :
    cmd.touches c pid = true ↔
      cmd.effective = true ∧ cmd.controller = c ∧ cmd.pid = pid := by
  unfold Command.touches
  rw [Bool.and_eq_true, decide_eq_true_iff]

theorem mem_of_lastFor {c : Controller} {pid : Nat} {cmds : List Command} {cmd : Command}
    (h : lastFor c pid cmds = some cmd) : cmd ∈ cmds ∧ cmd.controller = c ∧ cmd.pid = pid := by
  induction cmds using List.reverseRecOn with
  | nil => exact absurd h (by simp [lastFor])
  | append_singleton cmds last ih =>
    rw [lastFor_concat] at h
    split at h
    · next ht =>
      obtain rfl := Option.some.inj h
      exact ⟨by simp, (Command.touches_iff.mp ht).2⟩
    · exact ⟨List.mem_append_left _ (ih h).1, (ih h).2⟩

/-- The controllers of the tool have hierarchies of their own. -/
def Sys.Separate (sys : Sys) : Prop :=
  ∀ c ∈ toolControllers, ∀ c' ∈ toolControllers, sys.hier c = sys.hier c' → c = c'

section
variable (sys : Sys)

/-- What a group holds, by the last command for it. -/
def Settled (w0 w : World) (c : Controller) (pid : Nat) : Option Command → Prop
  | none => w.group sys c pid = none
  | some cmd =>
    if cmd.clear then w.group sys c pid = none
    else cmd.Passes sys ∧ ¬ cmd.NoRoot w0 ∧ w.subtree sys c pid = cmd.leaves sys w0

/-- The machine behind a sequence of commands. -/
structure History (w0 : World) (cmds : List Command) (w : World) : Prop where
  procs : w.procs = w0.procs
  major : ∀ d, w.tc.majorOf d = w0.tc.majorOf d
  settled : ∀ c ∈ toolControllers, ∀ pid, Settled sys w0 w c pid (lastFor c pid cmds)

variable {sys} {w0 w w' : World} {cmds : List Command} {cmd : Command}

theorem subtree_attrs_nil (w : World) (c : Controller) (pid : Nat) :
    (w.subtree sys c pid).attrs [] = w.group sys c pid :=
  congrArg (w.cg (sys.hier c)).attrs (List.append_nil _)

theorem settled_clear {c : Controller} {pid : Nat} (hclear : cmd.clear = true) :
    Settled sys w0 w c pid (some cmd) ↔ w.group sys c pid = none := by
  simp only [Settled, hclear, if_true]

theorem settled_limit {c : Controller} {pid : Nat} (hclear : cmd.clear = false) :
    Settled sys w0 w c pid (some cmd) ↔
      cmd.Passes sys ∧ ¬ cmd.NoRoot w0 ∧ w.subtree sys c pid = cmd.leaves sys w0 := by
  simp only [Settled, hclear, Bool.false_eq_true, if_false]

theorem Settled.congr {c : Controller} {pid : Nat} {last : Option Command}
    (hsub : w'.subtree sys c pid = w.subtree sys c pid) (h : Settled sys w0 w c pid last) :
    Settled sys w0 w' c pid last := by
  have hgroup : w'.group sys c pid = w.group sys c pid := by
    rw [← subtree_attrs_nil, ← subtree_attrs_nil, hsub]
  cases last with
  | none => exact hgroup.trans h
  | some cmd =>
    unfold Settled at h ⊢
    rw [hgroup, hsub]
    exact h

/-- Who stands in or below a group is one of the threads of the last command for it. -/
theorem History.task_of_prefix (hist : History sys w0 cmds w) {c : Controller}
    (hc : c ∈ toolControllers) {pid t : Nat}
    (h : groupPath pid <+: (w.cg (sys.hier c)).loc t) :
    ∃ last ∈ cmds, last.pid = pid ∧ t ∈ last.tasks w0 := by
  have hnone : w.group sys c pid ≠ none := by
    have hin := GroupTree.isSome_of_prefix _ ((w.cg (sys.hier c)).loc_mem t) h
    exact Option.isSome_iff_ne_none.mp hin
  have hset := hist.settled c hc pid
  cases hlast : lastFor c pid cmds with
  | none =>
    rw [hlast] at hset
    exact absurd hset hnone
  | some last =>
    obtain ⟨hmem, -, hpid⟩ := mem_of_lastFor hlast
    rw [hlast] at hset
    cases hclear : last.clear with
    | true => exact absurd ((settled_clear hclear).mp hset) hnone
    | false =>
      obtain ⟨-, -, hsub⟩ := (settled_limit hclear).mp hset
      obtain ⟨q, hq⟩ := h
      have hin : t ∈ (w.subtree sys c pid).members q := hq.symm
      rw [hsub] at hin
      cases q with
      | nil => exact ⟨last, hmem, hpid, (List.mem_filter.mp hin).1⟩
      | cons x q => exact absurd hin (Set.notMem_empty t)

theorem subtree_of_cg (h : w'.cg = w.cg) (c : Controller) (pid : Nat) :
    w'.subtree sys c pid = w.subtree sys c pid := by
  unfold World.subtree
  rw [h]

/-- **A command leaves the groups alone that it is not for.** -/
theorem History.subtree_other (hist : History sys w0 cmds w) (hsep : sys.Separate)
    (hdist : DistinctProcs w0 (cmds ++ [cmd]))
    (hrun : run (exec sys noFailure) cmd.func w = (.ok (), w')) {c : Controller}
    (hc : c ∈ toolControllers) {pid : Nat} (hne : cmd.touches c pid = false) :
    w'.subtree sys c pid = w.subtree sys c pid := by
  cases heff : cmd.effective with
  | false =>
    rw [Command.run_idle heff] at hrun
    rw [(Prod.mk.inj hrun).2]
  | true =>
    have hnot : ¬ (cmd.controller = c ∧ cmd.pid = pid) := by
      intro h
      rw [Command.touches_iff.mpr ⟨heff, h⟩] at hne
      exact absurd hne (by decide)
    cases hclear : cmd.clear with
    | true =>
      rw [subtree_of_cg (Command.run_clear hclear hrun).2]
      unfold World.subtree World.dropGroup
      by_cases hcc : cmd.controller = c
      · have hp : pid ≠ cmd.pid := fun h => hnot ⟨hcc, h.symm⟩
        rw [hcc, World.setTree_cg]
        exact GroupTree.subtree_remove _ (groupPath_ne_nil cmd.pid) (groupPath_apart hp)
      · rw [World.setTree_cg_of_ne]
        exact fun h => hcc (hsep c hc _ cmd.controller_mem h).symm
    | false =>
      obtain ⟨hpass, hroot⟩ := Command.passes_of_ok hclear heff hrun
      obtain ⟨w1, hrun1, -, hcg⟩ := Command.run_limit hpass hroot
      obtain rfl := (Prod.mk.inj (hrun1.symm.trans hrun)).2
      rw [subtree_of_cg hcg]
      by_cases hcc : cmd.controller = c
      · have hp : pid ≠ cmd.pid := fun h => hnot ⟨hcc, h.symm⟩
        rw [hcc]
        refine subtree_limited_of_ne hp fun t ht halive hpre => hp ?_
        obtain ⟨last, hlast, hpid, htask⟩ := hist.task_of_prefix hc hpre
        have halive0 : w0.alive t = true := by
          unfold World.alive at halive ⊢
          rwa [hist.procs] at halive
        rw [Command.tasks_congr hist.procs] at ht
        rw [← hpid]
        exact pid_eq_of_task hdist (List.mem_append_left _ hlast) (by simp) htask ht halive0
      · unfold World.subtree World.limited
        rw [World.setTree_cg_of_ne]
        exact fun h => hcc (hsep c hc _ cmd.controller_mem h).symm

theorem noRoot_congr (hmajor : ∀ d, w'.tc.majorOf d = w.tc.majorOf d) :
    cmd.NoRoot w' ↔ cmd.NoRoot w := by
  cases cmd with
  | net args => simp only [Command.NoRoot, hmajor]
  | _ => exact Iff.rfl

/-- What a command leaves of its own group. -/
theorem Command.settled_own {c : Controller} {pid : Nat} (ht : cmd.touches c pid = true)
    (hprocs : w.procs = w0.procs) (hmajor : ∀ d, w.tc.majorOf d = w0.tc.majorOf d)
    (hrun : run (exec sys noFailure) cmd.func w = (.ok (), w')) :
    Settled sys w0 w' c pid (some cmd) := by
  obtain ⟨heff, rfl, rfl⟩ := Command.touches_iff.mp ht
  cases hclear : cmd.clear with
  | true =>
    rw [settled_clear hclear, ← subtree_attrs_nil, subtree_of_cg (Command.run_clear hclear hrun).2,
      subtree_attrs_nil]
    exact group_dropGroup sys w cmd.controller cmd.pid
  | false =>
    obtain ⟨hpass, hroot⟩ := Command.passes_of_ok hclear heff hrun
    obtain ⟨w1, hrun1, -, hcg⟩ := Command.run_limit hpass hroot
    obtain rfl := (Prod.mk.inj (hrun1.symm.trans hrun)).2
    rw [settled_limit hclear, subtree_of_cg hcg, subtree_limited]
    exact ⟨hpass, fun h => hroot ((noRoot_congr hmajor).mpr h), Command.leaves_congr hprocs hmajor⟩

/-- The major of an interface outlives a command. -/
theorem Command.majorOf_of_ok (hrun : run (exec sys noFailure) cmd.func w = (.ok (), w'))
    (d : Text) : w'.tc.majorOf d = w.tc.majorOf d := by
  cases heff : cmd.effective with
  | false =>
    rw [Command.run_idle heff] at hrun
    rw [(Prod.mk.inj hrun).2]
  | true =>
    cases hclear : cmd.clear with
    | true => exact (Command.run_clear hclear hrun).1 d
    | false =>
      obtain ⟨hpass, hroot⟩ := Command.passes_of_ok hclear heff hrun
      obtain ⟨w1, hrun1, hmajor, -⟩ := Command.run_limit hpass hroot
      rw [← (Prod.mk.inj (hrun1.symm.trans hrun)).2]
      exact hmajor d

/-- One more command. -/
theorem History.step (hist : History sys w0 cmds w) (hsep : sys.Separate)
    (hdist : DistinctProcs w0 (cmds ++ [cmd]))
    (hrun : run (exec sys noFailure) cmd.func w = (.ok (), w')) :
    History sys w0 (cmds ++ [cmd]) w' where
  procs := by
    have hprocs := run_procs sys noFailure cmd.func w
    rw [hrun] at hprocs
    exact hprocs.trans hist.procs
  major d := (Command.majorOf_of_ok hrun d).trans (hist.major d)
  settled := by
    intro c hc pid
    rw [lastFor_concat]
    cases ht : cmd.touches c pid with
    | true => exact Command.settled_own ht hist.procs hist.major hrun
    | false => exact (hist.settled c hc pid).congr (hist.subtree_other hsep hdist hrun hc ht)

/-- A whole sequence. -/
theorem History.run (hsep : sys.Separate) {more : List Command} (hist : History sys w0 cmds w)
    (hdist : DistinctProcs w0 (cmds ++ more))
    (hrun : Prog.run (exec sys noFailure) (forEach more Command.func) w = (.ok (), w')) :
    History sys w0 (cmds ++ more) w' := by
  induction more generalizing cmds w with
  | nil =>
    rw [List.append_nil, ← (Prod.mk.inj hrun).2]
    exact hist
  | cons cmd more ih =>
    have happend : cmds ++ cmd :: more = (cmds ++ [cmd]) ++ more := by simp
    rcases hfirst : Prog.run (exec sys noFailure) cmd.func w with ⟨e | u, w1⟩
    · rw [forEach_cons, run_bind_error _ hfirst] at hrun
      exact absurd (Prod.mk.inj hrun).1 (by simp)
    · rw [forEach_cons, run_bind_ok _ hfirst] at hrun
      rw [happend] at hdist ⊢
      refine ih (hist.step hsep (fun a ha b hb => ?_) hfirst) hdist hrun
      exact hdist a (List.mem_append_left _ ha) b (List.mem_append_left _ hb)

end

/-! ## The order of the attributes -/

/-- Settings of different keys may be made in any order. -/
theorem applyAll_perm {kvs kvs' : List (Key × Text)} (hperm : kvs.Perm kvs')
    (hnd : (kvs.map Prod.fst).Nodup) (a : Attrs) : applyAll kvs a = applyAll kvs' a := by
  have hnd' : (kvs'.map Prod.fst).Nodup := (hperm.map Prod.fst).nodup_iff.mp hnd
  funext k
  by_cases hk : k ∈ kvs.map Prod.fst
  · obtain ⟨⟨k', v⟩, hmem, rfl⟩ := List.mem_map.mp hk
    rw [applyAll_of_mem hnd hmem, applyAll_of_mem hnd' (hperm.mem_iff.mp hmem)]
  · have hk' : k ∉ kvs'.map Prod.fst := fun h => hk ((hperm.map Prod.fst).mem_iff.mpr h)
    rw [applyAll_of_not_mem hk, applyAll_of_not_mem hk']

def Request.setting? : Request → Option (Key × Text)
  | .set kv => some kv
  | _ => none

theorem accepted_eq_filterMap {rs : List Request} (h : rejects rs = false) :
    accepted rs = rs.filterMap Request.setting? := by
  induction rs with
  | nil => rfl
  | cons r rs ih =>
    have hrs : rejects rs = false := by
      unfold rejects at h ⊢
      rw [List.any_cons, Bool.or_eq_false_iff] at h
      exact h.2
    cases r with
    | nothing => exact ih hrs
    | rejected => exact absurd h (by simp [rejects, Request.isRejected])
    | set kv => exact congrArg (kv :: ·) (ih hrs)

/-- The same arguments, with another order of `vars(args)`. -/
def BlkioArgs.reorder (args : BlkioArgs) (order : List BlkioAttr)
    (hperm : order.Perm [.clear, .pid, .dev, .wbps, .rbps, .wiops, .riops, .func]) : BlkioArgs :=
  { args with order := order, order_perm := hperm }

section
variable {sys : Sys} {w w' : World}

/-- What a `blkio` limit leaves, when no size is rejected. -/
theorem run_blkioLimit {args : BlkioArgs} (hclear : args.clear = false) {dev : Text}
    (hdev : args.dev = some dev) {st : Nat × Nat} (hst : sys.lstat dev = some st)
    (hrej : rejects (args.requests st) = false) (w : World) :
    run (exec sys noFailure) (doCgroupBlkio args) w = (.ok (), w.limited sys noFailure .blkio
      args.pid (accepted (args.requests st)) [args.pid]) := by
  have hk : ∀ kv ∈ accepted (args.requests st), kv.1.controller = .blkio :=
    fun kv hkv => (set_mem_requests (mem_of_mem_accepted hkv)).1
  rw [run_doCgroupBlkio sys noFailure hclear hdev hst, blkioProg, hrej, if_neg (by simp)]
  exact run_limitGroup sys noFailure args.pid hk (by decide) rfl (fun _ _ => rfl) _ w

/-- **The order of `vars(args)` does not matter** to a `blkio` command that returns. -/
theorem run_reorder {args : BlkioArgs} {order : List BlkioAttr}
    (hperm : order.Perm [.clear, .pid, .dev, .wbps, .rbps, .wiops, .riops, .func])
    (hrun : run (exec sys noFailure) (doCgroupBlkio args) w = (.ok (), w')) :
    run (exec sys noFailure) (doCgroupBlkio (args.reorder order hperm)) w = (.ok (), w') := by
  obtain ⟨args', hargs'⟩ : ∃ args', args' = args.reorder order hperm := ⟨_, rfl⟩
  rw [← hargs']
  cases hclear : args.clear with
  | true =>
    have hclear' : args'.clear = true := by rw [hargs']; exact hclear
    have hprog : doCgroupBlkio args = cgdelete .blkio (getCgroupName args.pid) := if_pos hclear
    have hprog' : doCgroupBlkio args' = cgdelete .blkio (getCgroupName args'.pid) :=
      if_pos hclear'
    have hpid : args'.pid = args.pid := by rw [hargs']; rfl
    rw [hprog', hpid, ← hprog, hrun]
  | false =>
    obtain ⟨⟨-, dev, st, hdev, hst, hrej⟩, -⟩ :=
      @Command.passes_of_ok sys (.blkio args) w w' hclear rfl hrun
    have hclear' : args'.clear = false := by rw [hargs']; exact hclear
    have hdev' : args'.dev = some dev := by rw [hargs']; exact hdev
    have hpid : args'.pid = args.pid := by rw [hargs']; rfl
    have hreqs : (args.requests st).Perm (args'.requests st) := by
      rw [hargs']
      exact (args.order_perm.trans hperm.symm).map _
    have hrej' : rejects (args'.requests st) = false := by
      unfold rejects at hrej ⊢
      rw [← hreqs.any_eq]
      exact hrej
    have hset : (accepted (args.requests st)).Perm (accepted (args'.requests st)) := by
      rw [accepted_eq_filterMap hrej, accepted_eq_filterMap hrej']
      exact hreqs.filterMap _
    have happly : applyAll ((accepted (args.requests st)).filter (keeps noFailure args.pid)) =
        applyAll ((accepted (args'.requests st)).filter (keeps noFailure args.pid)) := by
      funext a
      refine applyAll_perm (hset.filter _) ?_ a
      exact (nodup_accepted args st).sublist (List.filter_sublist.map Prod.fst)
    rw [run_blkioLimit hclear hdev hst hrej] at hrun
    rw [run_blkioLimit hclear' hdev' hst hrej', ← (Prod.mk.inj hrun).2, hpid]
    unfold World.limited
    rw [happly]

/-! ## The result -/

/-- The same machine with an empty store. -/
def World.emptied (sys : Sys) (w : World) : World :=
  { w with cg := fun _ => GroupTree.empty sys.fresh }

/-- The group is what the last command for it makes of an empty store, when it runs alone; absent
    where that is `--clear`, or there is none. -/
def FromLast (sys : Sys) (w0 w : World) (c : Controller) (pid : Nat) : Option Command → Prop
  | none => w.group sys c pid = none
  | some cmd =>
    if cmd.clear then w.group sys c pid = none
    else ∃ w1, run (exec sys noFailure) cmd.func (w0.emptied sys) = (.ok (), w1) ∧
      w.subtree sys c pid = w1.subtree sys c pid

theorem Settled.fromLast {w0 : World} {c : Controller} {pid : Nat} {cmds : List Command}
    (h : Settled sys w0 w c pid (lastFor c pid cmds)) :
    FromLast sys w0 w c pid (lastFor c pid cmds) := by
  cases hlast : lastFor c pid cmds with
  | none =>
    rw [hlast] at h
    exact h
  | some cmd =>
    obtain ⟨-, rfl, rfl⟩ := mem_of_lastFor hlast
    rw [hlast] at h
    cases hclear : cmd.clear with
    | true =>
      simp only [FromLast, hclear, if_true]
      exact (settled_clear hclear).mp h
    | false =>
      obtain ⟨hpass, hroot, hsub⟩ := (settled_limit hclear).mp h
      have hroot' : ¬ cmd.NoRoot (w0.emptied sys) :=
        fun hno => hroot ((noRoot_congr fun _ => rfl).mp hno)
      obtain ⟨w1, hrun1, -, hcg⟩ := Command.run_limit hpass hroot'
      simp only [FromLast, hclear, Bool.false_eq_true, if_false]
      refine ⟨w1, hrun1, ?_⟩
      rw [hsub, subtree_of_cg hcg, subtree_limited]
      exact (Command.leaves_congr rfl fun _ => rfl).symm

/-- **The last command wins, and pids do not disturb each other.** -/
theorem last_command_wins (hsep : sys.Separate) {w0 : World}
    (hempty : ∀ c ∈ toolControllers, ∀ pid, w0.group sys c pid = none) {cmds : List Command}
    (hdist : DistinctProcs w0 cmds)
    (hrun : run (exec sys noFailure) (forEach cmds Command.func) w0 = (.ok (), w)) :
    (∀ c ∈ toolControllers, ∀ pid, FromLast sys w0 w c pid (lastFor c pid cmds)) ∧
      (∀ cmd, DistinctProcs w0 (cmds ++ [cmd]) →
        ∀ w', run (exec sys noFailure) cmd.func w = (.ok (), w') →
          ∀ c ∈ toolControllers, ∀ pid, pid ≠ cmd.pid →
            w'.subtree sys c pid = w.subtree sys c pid) ∧
      (∀ (args : BlkioArgs) (order : List BlkioAttr)
        (hperm : order.Perm [.clear, .pid, .dev, .wbps, .rbps, .wiops, .riops, .func]) (w1 w2),
        run (exec sys noFailure) (doCgroupBlkio args) w1 = (.ok (), w2) →
          run (exec sys noFailure) (doCgroupBlkio (args.reorder order hperm)) w1 =
            (.ok (), w2)) := by
  have hstart : History sys w0 [] w0 := ⟨rfl, fun _ => rfl, hempty⟩
  have hist : History sys w0 cmds w := History.run hsep hstart hdist hrun
  refine ⟨fun c hc pid => (hist.settled c hc pid).fromLast, ?_,
    fun _ _ hperm _ _ => run_reorder hperm⟩
  intro cmd hdist' w' hrun' c hc pid hpid
  refine hist.subtree_other hsep hdist' hrun' hc (Bool.eq_false_iff.mpr fun ht => ?_)
  exact hpid (Command.touches_iff.mp ht).2.2.symm

end

/-- Memory and processor of the process 7 are limited, and memory is given free again. -/
def limitAndClear : List Command :=
  [mem10M, .cpu ⟨7, false, false, some 50⟩, .mem ⟨7, true, none⟩]

set_option maxRecDepth 20000 in
/-- The memory group is gone, the other one as if it had been made alone. -/
theorem last_command_wins_boot : ∃ w : World, w.group Sys.boot .memory 7 = none ∧
    FromLast Sys.boot World.boot w .cpu 7 (some (.cpu ⟨7, false, false, some 50⟩)) := by
  have hsep : Sys.boot.Separate := by
    unfold Sys.Separate
    decide +kernel
  have hempty : ∀ c ∈ toolControllers, ∀ pid, World.boot.group Sys.boot c pid = none :=
    fun _ _ pid => if_neg (t := some bootAttrs) (groupPath_ne_nil pid)
  have hpids : ∀ cmd ∈ limitAndClear, cmd.pid = 7 := by decide
  have hdist : DistinctProcs World.boot limitAndClear :=
    fun a ha b hb _ _ _ => (hpids a ha).trans (hpids b hb).symm
  have hok : ((run (exec Sys.boot noFailure) (forEach limitAndClear Command.func)
      World.boot).1.toOption).isSome = true := by decide +kernel
  rcases hrun : run (exec Sys.boot noFailure) (forEach limitAndClear Command.func) World.boot with
    ⟨e | u, w⟩
  · rw [hrun] at hok
    exact absurd hok (by simp [Except.toOption])
  · have hlast := (last_command_wins hsep hempty hdist hrun).1
    have hmem : lastFor .memory 7 limitAndClear = some (.mem ⟨7, true, none⟩) := rfl
    have hcpu : lastFor .cpu 7 limitAndClear = some (.cpu ⟨7, false, false, some 50⟩) := rfl
    have hgone := hlast .memory (by decide) 7
    rw [hmem] at hgone
    exact ⟨w, hgone, hcpu ▸ hlast .cpu (by decide) 7⟩

end LinuxSummary.Cgroup
