/-
  Limit commands on a machine whose external commands may fail.

  Of the steps of a limit command the script checks some: it raises where the group cannot be
  made or a key cannot be read, and where `tc` cannot show what there is. It does not look at
  the status of `cgset`, `cgclassify` and the `tc .. add` commands. No command is run twice
  with the same arguments, so that a choice among the commands is one among the steps.

  `noSilentFailure_iff`: a command that returns normally has done what was asked exactly when
  the steps that are not checked take effect, or were not needed.
-/
import LinuxSummary.Cgroup.Shaping

namespace LinuxSummary.Cgroup

open Prog Text

/-! ## Settings that take effect -/

theorem applyAll_filter_iff {kvs : List (Key × Text)} (hnd : (kvs.map Prod.fst).Nodup)
    (p : Key × Text → Bool) (a : Attrs) :
    (∀ kv ∈ kvs, applyAll (kvs.filter p) a kv.1 = kv.2) ↔
      ∀ kv ∈ kvs, p kv = true ∨ a kv.1 = kv.2 := by
  refine forall₂_congr fun kv hkv => ?_
  have hnd' : ((kvs.filter p).map Prod.fst).Nodup := hnd.sublist (List.filter_sublist.map Prod.fst)
  by_cases hp : p kv = true
  · have hmem : (kv.1, kv.2) ∈ kvs.filter p := List.mem_filter.mpr ⟨hkv, hp⟩
    rw [applyAll_of_mem hnd' hmem]
    exact iff_of_true rfl (.inl hp)
  · have hno : kv.1 ∉ (kvs.filter p).map Prod.fst := by
      intro h
      obtain ⟨x, hx, heq⟩ := List.mem_map.mp h
      have hsame := List.inj_on_of_nodup_map hnd (List.mem_filter.mp hx).1 hkv heq
      exact hp (hsame ▸ (List.mem_filter.mp hx).2)
    rw [applyAll_of_not_mem hno]
    exact (or_iff_right hp).symm

/-! ### The keys of `do_cgroup_blkio` -/

def Request.key? : Request → Option Key
  | .set kv => some kv.1
  | _ => none

theorem accepted_sublist (rs : List Request) :
    ((accepted rs).map Prod.fst).Sublist (rs.filterMap Request.key?) := by
  induction rs with
  | nil => exact List.Sublist.refl []
  | cons r rs ih =>
    cases r with
    | nothing => exact ih
    | rejected => exact List.nil_sublist _
    | set kv => exact ih.cons_cons kv.1

/-- The throttle file of an attribute. -/
def throttleKeys : List (BlkioAttr × Key) :=
  [(.wbps, throttleKey "write_bps_device"), (.rbps, throttleKey "read_bps_device"),
    (.wiops, throttleKey "write_iops_device"), (.riops, throttleKey "read_iops_device")]

theorem key_blkioRequest {args : BlkioArgs} {st : Nat × Nat} {a : BlkioAttr} {k : Key}
    (h : (blkioRequest args st a).key? = some k) : (a, k) ∈ throttleKeys := by
  have hbps : ∀ key v, (bpsRequest key st v).key? = some k → k = key := by
    intro key v hv
    cases v with
    | none => exact absurd hv (by simp [bpsRequest, Request.key?])
    | some v =>
      rw [bpsRequest] at hv
      split at hv
      · exact (Option.some.inj hv).symm
      · exact absurd hv (by simp [Request.key?])
  have hiops : ∀ key v, (iopsRequest key st v).key? = some k → k = key := by
    intro key v hv
    cases v with
    | none => exact absurd hv (by simp [iopsRequest, Request.key?])
    | some v => exact (Option.some.inj hv).symm
  cases a with
  | wbps =>
    obtain rfl := hbps _ _ h
    exact List.mem_cons_self
  | rbps =>
    obtain rfl := hbps _ _ h
    exact List.mem_cons_of_mem _ List.mem_cons_self
  | wiops =>
    obtain rfl := hiops _ _ h
    exact List.mem_cons_of_mem _ (List.mem_cons_of_mem _ List.mem_cons_self)
  | riops =>
    obtain rfl := hiops _ _ h
    exact List.mem_cons_of_mem _ (List.mem_cons_of_mem _ (List.mem_cons_of_mem _
      List.mem_cons_self))
  | _ => exact absurd h (by simp [blkioRequest, Request.key?])

/-- No throttle file is set twice. -/
theorem nodup_accepted (args : BlkioArgs) (st : Nat × Nat) :
    ((accepted (args.requests st)).map Prod.fst).Nodup := by
  have hone : ∀ x ∈ throttleKeys, ∀ y ∈ throttleKeys, x.2 = y.2 → x.1 = y.1 := by decide
  have horder : args.order.Nodup := args.order_perm.nodup_iff.mpr (by decide)
  refine List.Nodup.sublist (accepted_sublist _) ?_
  unfold BlkioArgs.requests
  rw [List.filterMap_map]
  refine horder.filterMap fun a a' k ha ha' => ?_
  exact hone _ (key_blkioRequest ha) _ (key_blkioRequest ha') rfl

/-! ## The traffic control part -/

/-- The parameters that are asked for. -/
def limitParams (speed : Text) : HtbParams :=
  ⟨speed ++ "bps".toList, some (speed ++ "bit".toList), some (speed ++ "bit".toList)⟩

theorem htbParams_eq_iff (speed : Text) : htbParams speed = limitParams speed ↔ '\n' ∉ speed := by
  unfold htbParams limitParams
  by_cases h : '\n' ∈ speed
  · rw [if_pos h]
    exact iff_of_false (fun heq => absurd (congrArg HtbParams.burst heq) (by simp)) (not_not.mpr h)
  · rw [if_neg h]
    exact iff_of_true rfl h

/-- A filter of the kind `cgroup` is there. -/
def hasCgroup (fs : List Filter) : Prop := ∃ f ∈ fs, f.kind = "cgroup".toList

/-- The script takes what `tc filter show` prints for such a filter. -/
def showsCgroup (fs : List Filter) : Prop :=
  occursIn "cgroup".toList (textOf (fs.map (·.line))) = true

theorem line_infix_textOf {fs : List Filter} {f : Filter} (h : f ∈ fs) :
    f.line <:+: textOf (fs.map (·.line)) := by
  obtain ⟨as, bs, rfl⟩ := List.append_of_mem h
  refine ⟨textOf (as.map (·.line)), '\n' :: textOf (bs.map (·.line)), ?_⟩
  simp only [textOf, List.map_append, List.map_cons, List.flatMap_append, List.flatMap_cons,
    List.append_assoc, List.cons_append, List.nil_append]

theorem showsCgroup_of_has {fs : List Filter} (h : hasCgroup fs) : showsCgroup fs := by
  obtain ⟨f, hf, hkind⟩ := h
  have hline : f.kind <:+: f.line := by
    unfold Filter.line
    exact List.infix_append _ _ _
  rw [hkind] at hline
  exact (occursIn_iff _ _).mpr (hline.trans (line_infix_textOf hf))

section
variable (fails : Cmd → Bool)

/-- The command that adds the filter succeeds. -/
def addsFilter (dev m : Text) : Prop := fails (.tcFilterAdd dev (m ++ [':'])) = false

theorem withFilter_has_iff {tc : Tc} {dev m : Text}
    (hq : tc.hasQdisc dev (Numeral.value 16 m) = true) :
    hasCgroup ((tc.withFilter fails dev m).filters dev (Numeral.value 16 m)) ↔
      hasCgroup (tc.filters dev (Numeral.value 16 m)) ∨
        (¬ showsCgroup (tc.filters dev (Numeral.value 16 m)) ∧ addsFilter fails dev m) := by
  by_cases hs : showsCgroup (tc.filters dev (Numeral.value 16 m))
  · have hsame : tc.withFilter fails dev m = tc := if_pos hs
    rw [hsame]
    exact (or_iff_left fun h => h.1 hs).symm
  · have hnot : ¬ hasCgroup (tc.filters dev (Numeral.value 16 m)) :=
      fun h => hs (showsCgroup_of_has h)
    by_cases hf : addsFilter fails dev m
    · have hadd : tc.withFilter fails dev m =
          tc.addFilter dev (Numeral.value 16 m) cgroupFilter := (if_neg hs).trans (if_pos ⟨hf, hq⟩)
      rw [hadd]
      refine iff_of_true ⟨cgroupFilter, ?_, rfl⟩ (.inr ⟨hs, hf⟩)
      simp [Tc.addFilter]
    · have hsame : tc.withFilter fails dev m = tc :=
        (if_neg hs).trans (if_neg fun h => hf h.1)
      rw [hsame]
      exact iff_of_false hnot fun h => h.elim hnot fun h => hf h.2

/-- The script makes a new root. -/
def Tc.NewRoot (tc : Tc) (dev : Text) (r : Text × Text) : Prop :=
  r.1 ≠ "htb".toList ∧ fails (.tcQdiscAdd dev "368".toList) = false ∧ tc.hasRoot dev = false

/-- The class is added: nothing fails, and there is an htb qdisc to hold it. -/
def Tc.AddsClass (tc : Tc) (dev : Text) (r : Text × Text) (pid : Nat) (speed : Text) : Prop :=
  '\n' ∉ speed ∧ fails (.tcClassAdd dev (pickMajor r ++ [':']) (pickMajor r ++ ':' :: hexText pid)
      speed) = false ∧
    (tc.NewRoot fails dev r ∨ tc.hasHtb dev (Numeral.value 16 (pickMajor r)) = true)

/-- The filter is there, or is added. -/
def Tc.GetsFilter (tc : Tc) (dev : Text) (r : Text × Text) : Prop :=
  (tc.NewRoot fails dev r ∧ addsFilter fails dev (pickMajor r)) ∨
    (¬ tc.NewRoot fails dev r ∧ (hasCgroup (tc.filters dev (Numeral.value 16 (pickMajor r))) ∨
      (¬ showsCgroup (tc.filters dev (Numeral.value 16 (pickMajor r))) ∧
        addsFilter fails dev (pickMajor r))))

variable {fails} {tc : Tc} {dev : Text} {r : Text × Text}

theorem withRoot_of_new (h : tc.NewRoot fails dev r) :
    tc.withRoot fails dev r = tc.setRoot dev htb368 ∧ pickMajor r = "368".toList :=
  ⟨if_pos h, if_neg h.1⟩

theorem withRoot_of_not_new (h : ¬ tc.NewRoot fails dev r) : tc.withRoot fails dev r = tc :=
  if_neg h

theorem hasHtb_withRoot_iff :
    (tc.withRoot fails dev r).hasHtb dev (Numeral.value 16 (pickMajor r)) = true ↔
      tc.NewRoot fails dev r ∨ tc.hasHtb dev (Numeral.value 16 (pickMajor r)) = true := by
  by_cases hnew : tc.NewRoot fails dev r
  · obtain ⟨hroot, hmajor⟩ := withRoot_of_new hnew
    refine iff_of_true ?_ (.inl hnew)
    rw [hroot, hmajor]
    refine List.any_eq_true.mpr ⟨htb368, ?_, by decide⟩
    simp [Tc.setRoot]
  · rw [withRoot_of_not_new hnew]
    exact (or_iff_right hnew).symm

theorem class_shaped_iff (pid : Nat) (speed : Text) :
    (tc.shaped fails dev r pid speed).classes dev (classOf (pickMajor r) pid) =
      some (limitParams speed) ↔ tc.AddsClass fails dev r pid speed := by
  unfold Tc.AddsClass
  rw [Tc.shaped, withFilter_classes, setClass_classes, if_pos ⟨rfl, rfl⟩, addedClass,
    ← hasHtb_withRoot_iff, ← htbParams_eq_iff]
  split
  · next h => exact Option.some_inj.trans (and_iff_left h).symm
  · next h => exact iff_of_false (by simp) fun h' => h h'.2

theorem hasQdisc_of_hasHtb {m : Nat} (h : tc.hasHtb dev m = true) : tc.hasQdisc dev m = true := by
  obtain ⟨q, hq, hqm⟩ := List.any_eq_true.mp h
  exact List.any_eq_true.mpr ⟨q, hq, (Bool.and_eq_true _ _ ▸ hqm).2⟩

theorem filter_shaped_iff {pid : Nat} {speed : Text} (h : tc.AddsClass fails dev r pid speed) :
    hasCgroup ((tc.shaped fails dev r pid speed).filters dev (Numeral.value 16 (pickMajor r))) ↔
      tc.GetsFilter fails dev r := by
  have hq : ((tc.withRoot fails dev r).setClass dev (classOf (pickMajor r) pid)
      (addedClass fails (pickMajor r) dev pid speed (tc.withRoot fails dev r))).hasQdisc dev
      (Numeral.value 16 (pickMajor r)) = true :=
    hasQdisc_of_hasHtb (hasHtb_withRoot_iff.mpr h.2.2)
  rw [Tc.shaped, withFilter_has_iff fails hq]
  show hasCgroup ((tc.withRoot fails dev r).filters dev (Numeral.value 16 (pickMajor r))) ∨
    (¬ showsCgroup ((tc.withRoot fails dev r).filters dev (Numeral.value 16 (pickMajor r))) ∧
      addsFilter fails dev (pickMajor r)) ↔ _
  unfold Tc.GetsFilter
  by_cases hnew : tc.NewRoot fails dev r
  · obtain ⟨hroot, hmajor⟩ := withRoot_of_new hnew
    have hnone : (tc.setRoot dev htb368).filters dev (Numeral.value 16 "368".toList) = [] := by
      have hne : Numeral.value 16 "368".toList ≠ 65535 := by decide
      unfold Tc.setRoot
      dsimp only
      rw [Function.update_self, if_neg hne]
    have hno : ¬ hasCgroup [] := by simp [hasCgroup]
    have hquiet : ¬ showsCgroup [] := by unfold showsCgroup; decide
    rw [hroot, hmajor, hnone]
    simp only [hno, hquiet, hnew, not_true_eq_false, not_false_eq_true, true_and, false_and,
      false_or, or_false]
  · rw [withRoot_of_not_new hnew]
    simp only [hnew, not_false_eq_true, true_and, false_and, false_or]

end

/-! ## What the commands ask for -/

/-- The command passes its checks and makes its group. -/
def Command.Passes (sys : Sys) : Command → Prop
  | .cpu args => args.clear = false ∧ ∃ usage, args.usage = some usage ∧ usage ≠ 0
  | .mem args => args.clear = false ∧ ∃ mem, args.mem = some mem ∧ mem ≠ [] ∧ isSize mem = true
  | .blkio args => args.clear = false ∧ ∃ dev st, args.dev = some dev ∧ sys.lstat dev = some st ∧
      rejects (args.requests st) = false
  | .net args => args.clear = false ∧ ∃ speed, args.speed = some speed ∧ isSize speed = true

/-- The command passes its checks and asks for a limit: `blkio` may ask for none. -/
def Command.AsksLimit (sys : Sys) (cmd : Command) : Prop :=
  cmd.Passes sys ∧ ∀ args st, cmd = .blkio args → args.dev.bind sys.lstat = some st →
    accepted (args.requests st) ≠ []

/-- The keys and the values that are asked for. -/
def Command.settings (sys : Sys) (w : World) : Command → List (Key × Text)
  | .cpu args => args.usage.elim [] cpuSettings
  | .mem args => args.mem.elim [] memSettings
  | .blkio args => (args.dev.bind sys.lstat).elim [] fun st => accepted (args.requests st)
  | .net args => (w.tc.majorOf args.dev).elim [] fun m => netSettings m args.pid

/-- The threads that the command classifies. -/
def Command.tasks (w : World) : Command → List Nat
  | .cpu args => args.tasks w
  | .mem args => [args.pid]
  | .blkio args => [args.pid]
  | .net args => [args.pid]

/-- Class and filter are there behind the command. -/
def Command.Shaped (tc tc' : Tc) : Command → Prop
  | .net args => ∀ m speed, tc.majorOf args.dev = some m → args.speed = some speed →
      tc'.classes args.dev (classOf m args.pid) = some (limitParams speed) ∧
        hasCgroup (tc'.filters args.dev (Numeral.value 16 m))
  | _ => True

/-- The command has done what was asked. -/
structure Command.Done (sys : Sys) (cmd : Command) (w w' : World) : Prop where
  group : ∃ a, w'.group sys cmd.controller cmd.pid = some a ∧
    ∀ kv ∈ cmd.settings sys w, a kv.1 = kv.2
  member : w'.member sys cmd.controller cmd.pid cmd.pid
  shaped : cmd.Shaped w.tc w'.tc

/-- The command does not return normally without having done what was asked. -/
def NoSilentFailure (sys : Sys) (fails : Cmd → Bool) (cmd : Command) (w : World) : Prop :=
  ∀ w', run (exec sys fails) cmd.func w = (.ok (), w') → cmd.Done sys w w'

section
variable (sys : Sys) (fails : Cmd → Bool)

/-- `tc` has no root to show, or takes no such class number. -/
def Command.NoRoot (w : World) : Command → Prop
  | .net args => w.tc.majorOf args.dev = none ∨ 65536 ≤ args.pid
  | _ => False

/-- A step that is checked fails. -/
def Command.Stopped (w : World) (cmd : Command) : Prop :=
  cmd.NoRoot w ∨ fails (.cgcreate cmd.controller (getCgroupName cmd.pid)) = true ∨
    ∃ kv ∈ cmd.settings sys w, fails (.cgget kv.1 (getCgroupName cmd.pid)) = true

/-- Class and filter are added, or the filter was there. -/
def Command.Shapes (tc : Tc) : Command → Prop
  | .net args => ∀ r speed, tc.rootOf args.dev = some r → args.speed = some speed →
      tc.AddsClass fails args.dev r args.pid speed ∧ tc.GetsFilter fails args.dev r
  | _ => True

/-- The steps that are not checked take effect: each setting, unless a fresh group has the value
    anyway; the classification of the pid, which must be among the threads; class and filter. -/
def Command.TakesEffect (w : World) (cmd : Command) : Prop :=
  (∀ kv ∈ cmd.settings sys w, keeps fails cmd.pid kv = true ∨ sys.fresh kv.1 = kv.2) ∧
    (cmd.pid ∈ cmd.tasks w ∧ joins fails cmd.controller cmd.pid w cmd.pid = true) ∧
    cmd.Shapes fails w.tc

/-! ## The commands are the core -/

variable {sys fails} {cmd : Command} {w : World}

/-- What is set are files of the controller, none of them twice. -/
theorem Command.settings_ok (h : cmd.Passes sys) (w : World) :
    (∀ kv ∈ cmd.settings sys w, kv.1.controller = cmd.controller) ∧
      ((cmd.settings sys w).map Prod.fst).Nodup := by
  cases cmd with
  | cpu args =>
    obtain ⟨-, usage, husage, -⟩ := h
    simp [Command.settings, husage, cpuSettings, Command.controller, cfsQuota]
  | mem args =>
    obtain ⟨-, mem, hmem, -, -⟩ := h
    have hne : limitInBytes ≠ memswLimitInBytes := by decide
    have hctrl : limitInBytes.controller = .memory ∧ memswLimitInBytes.controller = .memory :=
      ⟨rfl, rfl⟩
    simp [Command.settings, hmem, memSettings, Command.controller, hne, hctrl]
  | blkio args =>
    obtain ⟨-, dev, st, hdev, hst, -⟩ := h
    have hset : (Command.blkio args).settings sys w = accepted (args.requests st) := by
      simp [Command.settings, hdev, hst]
    rw [hset]
    exact ⟨fun kv hkv => (set_mem_requests (mem_of_mem_accepted hkv)).1, nodup_accepted args st⟩
  | net args =>
    cases hm : w.tc.majorOf args.dev with
    | none => simp [Command.settings, hm]
    | some m => simp [Command.settings, hm, netSettings, Command.controller, netClsClassid]

theorem Command.settings_ne_nil (h : cmd.AsksLimit sys) (hroot : ¬ cmd.NoRoot w) :
    cmd.settings sys w ≠ [] := by
  obtain ⟨hpass, hsome⟩ := h
  cases cmd with
  | cpu args =>
    obtain ⟨-, usage, husage, -⟩ := hpass
    simp [Command.settings, husage, cpuSettings]
  | mem args =>
    obtain ⟨-, mem, hmem, -, -⟩ := hpass
    simp [Command.settings, hmem, memSettings]
  | blkio args =>
    obtain ⟨-, dev, st, hdev, hst, -⟩ := hpass
    have hbind : args.dev.bind sys.lstat = some st := by rw [hdev, Option.bind_some, hst]
    have hset : (Command.blkio args).settings sys w = accepted (args.requests st) := by
      simp [Command.settings, hbind]
    rw [hset]
    exact hsome args st rfl hbind
  | net args =>
    obtain ⟨m, hm⟩ := Option.ne_none_iff_exists'.mp (not_or.mp hroot).1
    simp [Command.settings, hm, netSettings]

/-- The command is the core, on a machine whose traffic control state it may have changed. -/
theorem Command.run_func (fails : Cmd → Bool) (h : cmd.Passes sys) (hroot : ¬ cmd.NoRoot w) :
    ∃ tc', run (exec sys fails) cmd.func w = run (exec sys fails) (limitGroup cmd.controller cmd.pid
      (cmd.settings sys w) (cmd.tasks w)) { w with tc := tc' } ∧
    (cmd.Shaped w.tc tc' ↔ cmd.Shapes fails w.tc) ∧ ∀ d, tc'.majorOf d = w.tc.majorOf d := by
  cases cmd with
  | cpu args =>
    obtain ⟨hclear, usage, husage, hne⟩ := h
    refine ⟨w.tc, ?_, Iff.rfl, fun _ => rfl⟩
    have hset : (Command.cpu args).settings sys w = cpuSettings usage := by
      simp [Command.settings, husage]
    rw [hset]
    exact run_doCgroupCpu sys fails hclear husage hne w
  | mem args =>
    obtain ⟨hclear, mem, hmem, hne, hsize⟩ := h
    refine ⟨w.tc, ?_, Iff.rfl, fun _ => rfl⟩
    have hset : (Command.mem args).settings sys w = memSettings mem := by
      simp [Command.settings, hmem]
    rw [hset]
    exact congrArg (run (exec sys fails) · w) (doCgroupMem_limit hclear hmem hne hsize)
  | blkio args =>
    obtain ⟨hclear, dev, st, hdev, hst, hrej⟩ := h
    refine ⟨w.tc, ?_, Iff.rfl, fun _ => rfl⟩
    have hset : (Command.blkio args).settings sys w = accepted (args.requests st) := by
      simp [Command.settings, hdev, hst]
    have hprog : blkioProg args st =
        limitGroup .blkio args.pid (accepted (args.requests st)) [args.pid] := by
      unfold blkioProg
      rw [hrej, if_neg (by simp)]
    rw [hset]
    refine (run_doCgroupBlkio sys fails hclear hdev hst w).trans ?_
    rw [hprog]
    rfl
  | net args =>
    obtain ⟨hclear, speed, hspeed, hsize⟩ := h
    obtain ⟨hsome, hpid⟩ := not_or.mp hroot
    obtain ⟨m, hm⟩ := Option.ne_none_iff_exists'.mp hsome
    obtain ⟨r, hr, rfl⟩ := Option.map_eq_some_iff.mp hm
    have hset : (Command.net args).settings sys w = netSettings (pickMajor r) args.pid := by
      simp [Command.settings, hm]
    refine ⟨w.tc.shaped fails args.dev r args.pid speed, ?_, ?_,
      majorOf_shaped fails args.dev args.pid w.tc hr speed⟩
    · rw [hset]
      exact run_doCgroupNet sys fails hclear hspeed hsize w hr (Nat.lt_of_not_le hpid)
    · constructor
      · intro hsh r' speed' hr' hspeed'
        obtain rfl := Option.some.inj (hr.symm.trans hr')
        obtain rfl := Option.some.inj (hspeed.symm.trans hspeed')
        obtain ⟨hclass, hfilter⟩ := hsh _ _ hm hspeed
        have hadds := (class_shaped_iff args.pid speed).mp hclass
        exact ⟨hadds, (filter_shaped_iff hadds).mp hfilter⟩
      · intro hsh m' speed' hm' hspeed'
        obtain rfl := Option.some.inj (hm.symm.trans hm')
        obtain rfl := Option.some.inj (hspeed.symm.trans hspeed')
        obtain ⟨hadds, hgets⟩ := hsh _ _ hr hspeed
        exact ⟨(class_shaped_iff args.pid speed).mpr hadds, (filter_shaped_iff hadds).mpr hgets⟩

/-- Without a root the script raises. -/
theorem Command.run_noRoot (fails : Cmd → Bool) (h : cmd.Passes sys) (hroot : cmd.NoRoot w) :
    ∃ e w', run (exec sys fails) cmd.func w = (.error e, w') := by
  cases cmd with
  | net args =>
    obtain ⟨hclear, speed, hspeed, hsize⟩ := h
    refine run_doCgroupNet_error sys fails hclear hspeed hsize w (hroot.imp_left ?_)
    exact fun hnone => Option.map_eq_none_iff.mp hnone
  | _ => exact hroot.elim

/-- **No silent failure exactly where a checked step fails or all unchecked steps take effect.** -/
theorem noSilentFailure_iff (h : cmd.AsksLimit sys) :
    NoSilentFailure sys fails cmd w ↔
      cmd.Stopped sys fails w ∨ cmd.TakesEffect sys fails w := by
  unfold NoSilentFailure Command.Stopped
  by_cases hroot : cmd.NoRoot w
  · refine iff_of_true ?_ (.inl (.inl hroot))
    intro w' hrun
    obtain ⟨e, w1, herr⟩ := Command.run_noRoot fails h.1 hroot
    rw [herr] at hrun
    exact absurd (Prod.mk.inj hrun).1 (by simp)
  obtain ⟨hk, hnd⟩ := Command.settings_ok h.1 w
  have hne := Command.settings_ne_nil h hroot
  obtain ⟨tc', hrun, hshape, -⟩ := Command.run_func fails h.1 hroot
  rw [hrun, or_iff_right hroot]
  by_cases hstop : fails (.cgcreate cmd.controller (getCgroupName cmd.pid)) = true ∨
      ∃ kv ∈ cmd.settings sys w, fails (.cgget kv.1 (getCgroupName cmd.pid)) = true
  · refine iff_of_true ?_ (.inl hstop)
    intro w' hok
    obtain ⟨w1, herr⟩ := run_limitGroup_error sys fails cmd.pid hk cmd.controller_mem hne hstop
      (cmd.tasks w) { w with tc := tc' }
    rw [herr] at hok
    exact absurd (Prod.mk.inj hok).1 (by simp)
  rw [or_iff_right hstop]
  obtain ⟨hcreate, hget⟩ := not_or.mp hstop
  have hget' : ∀ kv ∈ cmd.settings sys w, fails (.cgget kv.1 (getCgroupName cmd.pid)) = false :=
    fun kv hkv => Bool.eq_false_iff.mpr fun hf => hget ⟨kv, hkv, hf⟩
  rw [run_limitGroup sys fails cmd.pid hk cmd.controller_mem (Bool.eq_false_iff.mpr hcreate) hget'
    (cmd.tasks w) { w with tc := tc' }]
  have hgroup := group_limited sys fails (c := cmd.controller) cmd.pid { w with tc := tc' }
    (cmd.settings sys w) (cmd.tasks w)
  have hmember := member_limited sys fails (c := cmd.controller) cmd.pid { w with tc := tc' }
    (cmd.settings sys w) (cmd.tasks w) cmd.pid
  have hset := applyAll_filter_iff hnd (keeps fails cmd.pid) sys.fresh
  constructor
  · intro hdone
    obtain ⟨⟨a, ha, hvals⟩, hmem, hsh⟩ := hdone _ rfl
    obtain rfl := Option.some.inj (hgroup.symm.trans ha)
    exact ⟨hset.mp hvals, hmember.mp hmem, hshape.mp hsh⟩
  · rintro ⟨hvals, hmem, hsh⟩ w' hok
    rw [← (Prod.mk.inj hok).2]
    exact ⟨⟨_, hgroup, hset.mpr hvals⟩, hmember.mpr hmem, hshape.mpr hsh⟩

end

/-- A limit of 10M for the process 7. -/
def mem10M : Command := .mem ⟨7, false, some "10M".toList⟩

theorem mem10M_asks : mem10M.AsksLimit Sys.boot :=
  ⟨⟨rfl, "10M".toList, rfl, by decide, by decide⟩, fun _ _ h => absurd h (by simp [mem10M])⟩

/-- On the machine after boot, with nothing failing, the limit is set. -/
theorem noSilentFailure_boot : NoSilentFailure Sys.boot noFailure mem10M World.boot := by
  have htask : 7 ∈ mem10M.tasks World.boot ∧ joins noFailure .memory 7 World.boot 7 = true :=
    ⟨List.mem_singleton.mpr rfl, rfl⟩
  refine (noSilentFailure_iff mem10M_asks).mpr (.inr ⟨?_, htask, trivial⟩)
  intro kv hkv
  have hval : kv.2 = "10M".toList := by
    rcases List.mem_cons.mp hkv with rfl | hkv
    · rfl
    · rw [List.mem_singleton.mp hkv]
  unfold keeps noFailure
  rw [hval]
  exact .inl (by decide)

/-- Only `cgset` fails. -/
def cgsetFails : Cmd → Bool
  | .cgset .. => true
  | _ => false

/-- Where `cgset` fails the script returns normally, and the process has no limit. -/
theorem not_noSilentFailure_cgset : mem10M.AsksLimit Sys.boot ∧
    ¬ NoSilentFailure Sys.boot cgsetFails mem10M World.boot := by
  refine ⟨mem10M_asks, fun h => ?_⟩
  have hk : ∀ kv ∈ memSettings "10M".toList, kv.1.controller = .memory := by
    simp [memSettings, limitInBytes, memswLimitInBytes]
  have hrun : run (exec Sys.boot cgsetFails) mem10M.func World.boot =
      (.ok (), World.boot.limited Sys.boot cgsetFails .memory 7 (memSettings "10M".toList)
        [7]) := by
    have hprog : doCgroupMem ⟨7, false, some "10M".toList⟩ =
        limitGroup .memory 7 (memSettings "10M".toList) [7] :=
      doCgroupMem_limit rfl rfl (by decide) (by decide)
    show run (exec Sys.boot cgsetFails) (doCgroupMem ⟨7, false, some "10M".toList⟩) World.boot = _
    rw [hprog]
    exact run_limitGroup Sys.boot cgsetFails 7 hk (by decide) rfl (fun _ _ => rfl) [7] World.boot
  obtain ⟨a, ha, hvals⟩ := (h _ hrun).group
  have hfresh : a = bootAttrs :=
    (Option.some.inj ((group_limited Sys.boot cgsetFails 7 World.boot
      (memSettings "10M".toList) [7]).symm.trans ha)).symm
  have hval := hvals (limitInBytes, "10M".toList) List.mem_cons_self
  rw [hfresh] at hval
  exact absurd hval (by decide)

end LinuxSummary.Cgroup
