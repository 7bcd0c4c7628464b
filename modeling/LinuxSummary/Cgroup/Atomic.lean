/-
  Validation errors and the state they leave.

  `do_cgroup_net` checks its speed before it changes anything, `do_cgroup_mem` and
  `do_cgroup_blkio` check their sizes behind `cgcreate`, which has already dropped the
  earlier group. `atomic_iff` says when a command that ends in a validation error has
  left the machine as it was: when no size is rejected behind `cgcreate`, or the group
  was already what `cgcreate` and the settings made so far leave.
-/
import LinuxSummary.Cgroup.Requests
import LinuxSummary.Cgroup.Traffic

namespace LinuxSummary.Cgroup

open Prog

/-- A run that ends in a validation error leaves the machine as it was. -/
def Atomic (sys : Sys) (cmd : Command) (w : World) : Prop :=
  ∀ e w', run (exec sys noFailure) cmd.func w = (.error e, w') → e.isValidation = true → w' = w

/-- The settings that a command makes before it rejects a size, where it rejects one behind
    `cgcreate`. -/
def Command.madeBeforeReject (sys : Sys) : Command → Option (List (Key × Text))
  | .cpu _ | .net _ => none
  | .mem args =>
    match args.mem with
    | some size => if args.clear = false ∧ size ≠ [] ∧ isSize size = false then some [] else none
    | none => none
  | .blkio args =>
    match args.dev.bind sys.lstat with
    | some st =>
      if args.clear = false ∧ rejects (args.requests st) then some (accepted (args.requests st))
      else none
    | none => none

/-- The group has these contents, with no group below it and no task in it. -/
def World.bareGroup (sys : Sys) (w : World) (c : Controller) (pid : Nat) (a : Attrs) : Prop :=
  w.group sys c pid = some a ∧
    (∀ q, groupPath pid <+: q → q ≠ groupPath pid → (w.cg (sys.hier c)).attrs q = none) ∧
    ∀ t, ¬ w.member sys c pid t

/-! ## Where no size is rejected behind `cgcreate` -/

/-- Any query. -/
def asksAny (_ : Ask) : Prop := True

theorem asksTc_any (q : Ask) (_ : asksTc q) : asksAny q := trivial

theorem asksSh_any (q : Ask) (_ : asksSh q) : asksAny q := trivial

theorem only_sh_any (c : Cmd) : (call c).Only asksAny notValidation := (only_sh c).mono asksSh_any

theorem only_limitGroup (c : Controller) (pid : Nat) (kvs : List (Key × Text))
    (tasks : List Nat) : (limitGroup c pid kvs tasks).Only asksAny notValidation := by
  have hsh : (limitGroup c pid kvs tasks).Only asksSh notValidation :=
    (only_cgcreate c _).bind fun _ =>
      (only_forEach kvs fun kv _ => only_cgset kv.1 kv.2 _).bind fun _ =>
        only_forEach tasks fun _ _ => only_sh _
  exact hsh.mono asksSh_any

theorem only_doCgroupCpu (args : CpuArgs) : (doCgroupCpu args).Only asksAny notValidation := by
  have hspids : (getSpidsByPid args.pid).Only asksAny notValidation := by
    refine ⟨trivial, fun b => ?_⟩
    cases b with
    | false => exact trivial
    | true =>
      refine ⟨trivial, fun r => ?_⟩
      cases r with
      | none => exact rfl
      | some spids => exact trivial
  unfold doCgroupCpu
  dsimp only
  split
  · exact only_sh_any _
  · split
    · exact trivial
    · split
      · refine ((only_cgcreate _ _).mono asksSh_any).bind fun _ =>
        ((only_cgset _ _ _).mono asksSh_any).bind fun _ => ?_
        split
        · exact only_sh_any _
        · exact hspids.bind fun _ => only_forEach _ fun _ _ => only_sh_any _
      · exact trivial

/-- `do_cgroup_net` fails its validation at the start or not at all. -/
theorem doCgroupNet_cases (args : NetArgs) :
    (doCgroupNet args).Only asksAny notValidation ∨
      doCgroupNet args = .throw (.assertionError "-s <bps to limit>, can use K,M,G") := by
  cases hclear : args.clear with
  | true =>
    left
    unfold doCgroupNet
    rw [hclear]
    refine ((only_tcQdiscGetQdiscAndMajor args.dev).mono asksTc_any).bind fun ⟨qdisc, major⟩ => ?_
    dsimp only
    split
    · exact ((only_tcClassDel _ _ _).mono asksTc_any).bind fun _ => only_sh_any _
    · exact only_sh_any _
  | false =>
    cases hspeed : args.speed with
    | none =>
      left
      simp only [doCgroupNet, hclear, hspeed]
      exact trivial
    | some speed =>
      cases hsize : isSize speed with
      | true =>
        left
        rw [doCgroupNet_limit hclear hspeed hsize]
        exact ((only_tcQdiscClassFilterCreate _ _ _).mono asksTc_any).bind fun m =>
          only_limitGroup _ _ _ _
      | false =>
        right
        simp only [doCgroupNet, hclear, hspeed, hsize, require]
        rfl

section
variable (sys : Sys)

theorem only_doCgroupMem {args : MemArgs} (h : (Command.mem args).madeBeforeReject sys = none) :
    (doCgroupMem args).Only asksAny notValidation := by
  cases hclear : args.clear with
  | true =>
    simp only [doCgroupMem, hclear, if_true]
    exact only_sh_any _
  | false =>
    cases hmem : args.mem with
    | none =>
      simp only [doCgroupMem, hclear, hmem]
      exact trivial
    | some mem =>
      by_cases hne : mem = []
      · simp only [doCgroupMem, hclear, hmem, hne]
        exact trivial
      · cases hsize : isSize mem with
        | true =>
          rw [doCgroupMem_limit hclear hmem hne hsize]
          exact only_limitGroup _ _ _ _
        | false => simp [Command.madeBeforeReject, hmem, hclear, hne, hsize] at h

/-- No size is rejected behind `cgcreate`: a validation error has changed nothing. -/
theorem atomic_of_none {cmd : Command} (h : cmd.madeBeforeReject sys = none) (w : World) :
    Atomic sys cmd w := by
  have honly : ∀ {p : Py Unit}, p.Only asksAny notValidation → ∀ e w',
      run (exec sys noFailure) p w = (.error e, w') → e.isValidation = true → w' = w := by
    intro p hp e w' hrun hval
    have := hp.run_error _ hrun
    rw [notValidation, hval] at this
    exact absurd this (by decide)
  intro e w' hrun hval
  cases cmd with
  | cpu args => exact honly (only_doCgroupCpu args) e w' hrun hval
  | net args =>
    rcases doCgroupNet_cases args with hp | hp
    · exact honly hp e w' hrun hval
    · have hrun' : run (exec sys noFailure) (doCgroupNet args) w = (.error e, w') := hrun
      rw [hp] at hrun'
      exact (Prod.mk.inj hrun').2.symm
  | mem args => exact honly (only_doCgroupMem sys h) e w' hrun hval
  | blkio args =>
    have hrun' : run (exec sys noFailure) (doCgroupBlkio args) w = (.error e, w') := hrun
    cases hclear : args.clear with
    | true =>
      refine honly ?_ e w' hrun' hval
      simp only [doCgroupBlkio, hclear, if_true]
      exact only_sh_any _
    | false =>
      rcases doCgroupBlkio_cases sys noFailure hclear w with ⟨dev, st, hdev, hst⟩ | ⟨e', he'⟩
      · have hrej : rejects (args.requests st) = false := by
          simpa [Command.madeBeforeReject, hdev, hst, hclear] using h
        rw [run_doCgroupBlkio sys noFailure hclear hdev hst, blkioProg, hrej] at hrun'
        exact honly (only_limitGroup _ _ _ _) e w' hrun' hval
      · rw [he'] at hrun'
        exact (Prod.mk.inj hrun').2.symm

/-- A size is rejected behind `cgcreate`: the group is a fresh one with the settings made. -/
theorem run_rejected {cmd : Command} {kvs : List (Key × Text)}
    (h : cmd.madeBeforeReject sys = some kvs) (w : World) :
    ∃ msg, run (exec sys noFailure) cmd.func w = (.error (.assertionError msg),
      (w.resetGroup sys cmd.controller cmd.pid).modifyGroup sys cmd.controller cmd.pid
        (applyAll kvs)) := by
  have hcr : ∀ c ∈ toolControllers, ∀ pid,
      run (exec sys noFailure) (cgcreate c (getCgroupName pid)) w =
        (.ok (), w.resetGroup sys c pid) :=
    fun c hc pid => run_cgcreate sys noFailure hc pid w
  cases cmd with
  | cpu args => exact absurd h (by simp [Command.madeBeforeReject])
  | net args => exact absurd h (by simp [Command.madeBeforeReject])
  | mem args =>
    cases hmem : args.mem with
    | none => simp [Command.madeBeforeReject, hmem] at h
    | some mem =>
      simp only [Command.madeBeforeReject, hmem, Option.ite_none_right_eq_some,
        Option.some.injEq] at h
      obtain ⟨⟨hclear, hne, hsize⟩, rfl⟩ := h
      refine ⟨"-m <bytes to limit>, can use K,M,G", ?_⟩
      show run _ (doCgroupMem args) w = _
      rw [doCgroupMem_rejected hclear hmem hne hsize,
        run_bind_ok _ (hcr .memory (by decide) args.pid)]
      exact congrArg _ (modifyGroup_id sys args.pid _).symm
  | blkio args =>
    cases hdev : args.dev with
    | none => simp [Command.madeBeforeReject, hdev] at h
    | some dev =>
      cases hst : sys.lstat dev with
      | none => simp [Command.madeBeforeReject, hdev, hst] at h
      | some st =>
        simp only [Command.madeBeforeReject, hdev, Option.bind_some, hst,
          Option.ite_none_right_eq_some, Option.some.injEq] at h
        obtain ⟨⟨hclear, hrej⟩, rfl⟩ := h
        have hkvs : ∀ kv ∈ accepted (args.requests st),
            kv.1.controller = .blkio ∧ '\n' ∉ kv.2 :=
          fun kv hkv => set_mem_requests (mem_of_mem_accepted hkv)
        have hkeep : (accepted (args.requests st)).filter (keeps noFailure args.pid) =
            accepted (args.requests st) := by
          rw [List.filter_eq_self]
          intro kv hkv
          simp [keeps, noFailure, (hkvs kv hkv).2]
        have hg : ((w.resetGroup sys .blkio args.pid).group sys .blkio args.pid).isSome := by
          rw [group_resetGroup]
          rfl
        have hset := run_setAll sys noFailure args.pid (fun kv hkv => (hkvs kv hkv).1)
          (by decide) (fun _ _ => rfl) hg
        rw [hkeep] at hset
        refine ⟨"can use K,M,G", ?_⟩
        show run _ (doCgroupBlkio args) w = _
        rw [run_doCgroupBlkio sys noFailure hclear hdev hst, blkioProg, if_pos hrej,
          run_bind_ok _ (hcr .blkio (by decide) args.pid), run_bind_ok _ hset]
        rfl

/-- **When a validation error is atomic.** -/
theorem atomic_iff (cmd : Command) (w : World) :
    Atomic sys cmd w ↔ ∀ kvs, cmd.madeBeforeReject sys = some kvs →
      w.bareGroup sys cmd.controller cmd.pid (applyAll kvs sys.fresh) := by
  cases h : cmd.madeBeforeReject sys with
  | none => exact ⟨fun _ kvs hk => absurd hk (by simp), fun _ => atomic_of_none sys h w⟩
  | some kvs =>
    obtain ⟨msg, hrun⟩ := run_rejected sys h w
    have hatomic : Atomic sys cmd w ↔
        (w.resetGroup sys cmd.controller cmd.pid).modifyGroup sys cmd.controller cmd.pid
          (applyAll kvs) = w := by
      constructor
      · intro ha
        exact ha _ _ hrun rfl
      · intro heq e w' hrun' _
        rw [hrun] at hrun'
        rw [← (Prod.mk.inj hrun').2, heq]
    have hbare := GroupTree.refresh_modify_eq_iff (w.cg (sys.hier cmd.controller))
      (groupPath_ne_nil cmd.pid) sys.fresh (root_isSome cmd.pid w _) (applyAll kvs)
    rw [hatomic, World.modifyGroup, World.resetGroup, World.setTree_cg, World.setTree_setTree,
      World.setTree_eq_iff, hbare]
    constructor
    · intro hb kvs' hk
      obtain rfl := Option.some.inj hk
      exact hb
    · exact fun hb => hb kvs rfl

/-- The process 7 has a limit of 10M when it is asked for a limit of `10X`. -/
theorem not_atomic_mem :
    ¬ Atomic Sys.boot (.mem ⟨7, false, some "10X".toList⟩)
      (World.boot.limited Sys.boot noFailure .memory 7 (memSettings "10M".toList) [7]) := by
  intro ha
  have hmade : Command.madeBeforeReject Sys.boot (.mem ⟨7, false, some "10X".toList⟩) = some [] :=
    rfl
  obtain ⟨msg, hrun⟩ := run_rejected Sys.boot hmade
    (World.boot.limited Sys.boot noFailure .memory 7 (memSettings "10M".toList) [7])
  have heq := congrArg (fun w => (w.group Sys.boot .memory 7).map (· limitInBytes))
    (ha _ _ hrun rfl)
  have hnew : ∀ w : World, ((w.resetGroup Sys.boot .memory 7).modifyGroup Sys.boot .memory 7
      (applyAll [])).group Sys.boot .memory 7 = some bootAttrs := by
    intro w
    rw [group_modifyGroup, group_resetGroup]
    rfl
  simp only [Command.controller, Command.pid, hnew, group_limited, Option.map_some,
    Option.some.injEq] at heq
  exact absurd heq (by decide)

end

end LinuxSummary.Cgroup
