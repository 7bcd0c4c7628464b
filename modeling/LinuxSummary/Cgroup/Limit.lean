/-
  The common core of the four limit commands: make the group afresh, set its keys,
  classify tasks into it.

  `limitGroup` is that core as a program, `run_limitGroup` what a run of it leaves when
  no command raises, for every choice of failing commands: `World.limited`. The
  observations of the result are `group_limited` (which values the keys have) and
  `member_limited` (who is a member).
-/
import LinuxSummary.Cgroup.Rules

namespace LinuxSummary.Cgroup

open Prog

/-- Set keys one after the other. -/
def setAll (kvs : List (Key × Text)) (name : Text) : Py Unit :=
  forEach kvs fun kv => cgset kv.1 kv.2 name

/-- Classify tasks one after the other. -/
def classifyAll (c : Controller) (tasks : List Nat) (name : Text) : Py Unit :=
  forEach tasks fun t => cgclassify c name t

def limitGroup (c : Controller) (pid : Nat) (kvs : List (Key × Text)) (tasks : List Nat) :
    Py Unit := do
  cgcreate c (getCgroupName pid)
  setAll kvs (getCgroupName pid)
  classifyAll c tasks (getCgroupName pid)

/-! ## Settings -/

/-- The contents of a group after settings. -/
def applyAll (kvs : List (Key × Text)) (a : Attrs) : Attrs :=
  kvs.foldl (fun a kv => Function.update a kv.1 kv.2) a

@[simp] theorem applyAll_nil (a : Attrs) : applyAll [] a = a := rfl

theorem applyAll_cons (kv : Key × Text) (kvs : List (Key × Text)) (a : Attrs) :
    applyAll (kv :: kvs) a = applyAll kvs (Function.update a kv.1 kv.2) := rfl

theorem applyAll_of_not_mem {kvs : List (Key × Text)} {k : Key} (h : k ∉ kvs.map Prod.fst)
    (a : Attrs) : applyAll kvs a k = a k := by
  induction kvs generalizing a with
  | nil => rfl
  | cons kv kvs ih =>
    simp only [List.map_cons, List.mem_cons, not_or] at h
    rw [applyAll_cons, ih h.2, Function.update_of_ne h.1]

/-- A key that is set once has the value it is set to. -/
theorem applyAll_of_mem {kvs : List (Key × Text)} (hnd : (kvs.map Prod.fst).Nodup) {k : Key}
    {v : Text} (h : (k, v) ∈ kvs) (a : Attrs) : applyAll kvs a k = v := by
  induction kvs generalizing a with
  | nil => exact absurd h (by simp)
  | cons kv kvs ih =>
    simp only [List.map_cons, List.nodup_cons] at hnd
    rw [applyAll_cons]
    rcases List.mem_cons.mp h with rfl | h
    · rw [applyAll_of_not_mem hnd.1, Function.update_self]
    · exact ih hnd.2 h _

section
variable (sys : Sys) (fails : Cmd → Bool) (c : Controller) (pid : Nat)

/-- The setting takes effect. -/
def keeps (kv : Key × Text) : Bool :=
  !fails (.cgset kv.1 kv.2 (getCgroupName pid)) && decide ('\n' ∉ kv.2)

/-- The task can be classified. -/
def joins (w : World) (t : Nat) : Bool :=
  !fails (.cgclassify c (getCgroupName pid) t) && w.alive t

def World.modifyGroup (w : World) (f : Attrs → Attrs) : World :=
  w.setTree (sys.hier c) ((w.cg (sys.hier c)).modify (groupPath pid) f)

/-- What the core leaves: a fresh group with the settings and the tasks that took effect. -/
def World.limited (w : World) (kvs : List (Key × Text)) (tasks : List Nat) : World :=
  w.setTree (sys.hier c)
    ((((w.cg (sys.hier c)).refresh (groupPath pid) sys.fresh).modify (groupPath pid)
      (applyAll (kvs.filter (keeps fails pid)))).moveAll
        (tasks.filter (joins fails c pid w)) (groupPath pid))

variable {c} {kvs : List (Key × Text)} (hk : ∀ kv ∈ kvs, kv.1.controller = c)

theorem setKey_eq_modifyGroup {k : Key} (hkc : k.controller = c) (v : Text) (w : World) :
    w.setKey sys k v pid = w.modifyGroup sys c pid fun a => Function.update a k v := by
  subst hkc
  rfl

theorem modifyGroup_modifyGroup (w : World) (f f' : Attrs → Attrs) :
    (w.modifyGroup sys c pid f).modifyGroup sys c pid f' = w.modifyGroup sys c pid (f' ∘ f) := by
  simp only [World.modifyGroup, World.setTree_cg, World.setTree_setTree,
    GroupTree.modify_modify]

theorem modifyGroup_id (w : World) : w.modifyGroup sys c pid id = w := by
  simp [World.modifyGroup]

theorem group_modifyGroup (w : World) (f : Attrs → Attrs) :
    (w.modifyGroup sys c pid f).group sys c pid = (w.group sys c pid).map f := by
  rw [World.modifyGroup, World.group, World.setTree_cg, GroupTree.modify_attrs, if_pos rfl]
  rfl

include hk

/-- One setting: what it leaves when `cgget` finds the key. -/
theorem run_cgset_ok (hc : c ∈ toolControllers) {kv : Key × Text} (hkv : kv ∈ kvs)
    (hget : fails (.cgget kv.1 (getCgroupName pid)) = false) {w : World}
    (hg : (w.group sys c pid).isSome) :
    run (exec sys fails) (cgset kv.1 kv.2 (getCgroupName pid)) w =
      (.ok (), w.modifyGroup sys c pid (applyAll ([kv].filter (keeps fails pid)))) := by
  have hkc := hk kv hkv
  have hne : w.group sys c pid ≠ none := Option.isSome_iff_ne_none.mp hg
  rw [run_cgset sys fails pid w kv.1 (hkc ▸ hc), if_neg (by simp [hget, hkc, hne])]
  by_cases hkeep : keeps fails pid kv = true
  · have hno : ¬ (fails (.cgset kv.1 kv.2 (getCgroupName pid)) = true ∨ '\n' ∈ kv.2) := by
      simpa [keeps] using hkeep
    rw [if_neg hno, List.filter_cons_of_pos hkeep, setKey_eq_modifyGroup sys pid hkc]
    rfl
  · have hyes : fails (.cgset kv.1 kv.2 (getCgroupName pid)) = true ∨ '\n' ∈ kv.2 := by
      by_contra h
      exact hkeep (by simpa [keeps] using h)
    rw [if_pos hyes, List.filter_cons_of_neg hkeep]
    exact congrArg _ (modifyGroup_id sys pid w).symm

theorem run_setAll (hc : c ∈ toolControllers)
    (hget : ∀ kv ∈ kvs, fails (.cgget kv.1 (getCgroupName pid)) = false) {w : World}
    (hg : (w.group sys c pid).isSome) :
    run (exec sys fails) (setAll kvs (getCgroupName pid)) w =
      (.ok (), w.modifyGroup sys c pid (applyAll (kvs.filter (keeps fails pid)))) := by
  induction kvs generalizing w with
  | nil => exact congrArg _ (modifyGroup_id sys pid w).symm
  | cons kv kvs ih =>
    have hmem : kv ∈ kv :: kvs := List.mem_cons_self
    have hstep := run_cgset_ok sys fails pid hk hc hmem (hget kv (by simp)) hg
    have hg' : ((w.modifyGroup sys c pid
        (applyAll ([kv].filter (keeps fails pid)))).group sys c pid).isSome := by
      rw [group_modifyGroup]
      simpa using hg
    rw [setAll, forEach_cons, run_bind_ok _ hstep]
    refine (ih (fun x hx => hk x (by simp [hx])) (fun x hx => hget x (by simp [hx])) hg').trans ?_
    rw [modifyGroup_modifyGroup]
    refine congrArg (fun f => (Except.ok (), w.modifyGroup sys c pid f)) ?_
    funext a
    by_cases hkeep : keeps fails pid kv = true
    · simp [hkeep, applyAll_cons]
    · simp [hkeep]

/-- If `cgget` fails for a key, the script raises. -/
theorem run_setAll_error (hc : c ∈ toolControllers)
    (hget : ∃ kv ∈ kvs, fails (.cgget kv.1 (getCgroupName pid)) = true) (w : World) :
    ∃ w', run (exec sys fails) (setAll kvs (getCgroupName pid)) w =
      (.error (.assertionStderr ["error".toList]), w') := by
  induction kvs generalizing w with
  | nil => exact absurd hget (by simp)
  | cons kv kvs ih =>
    have hrun := run_cgset sys fails pid w kv.1 (hk kv (by simp) ▸ hc) kv.2
    rw [setAll, forEach_cons]
    split at hrun
    · exact ⟨w, run_bind_error _ hrun _⟩
    · next hno =>
      rw [run_bind_ok _ hrun]
      refine ih (fun x hx => hk x (by simp [hx])) ?_ _
      obtain ⟨x, hx, hf⟩ := hget
      rcases List.mem_cons.mp hx with rfl | hx
      · exact absurd (.inl hf) hno
      · exact ⟨x, hx, hf⟩

omit hk

theorem run_classifyAll (hc : c ∈ toolControllers) (tasks : List Nat) {w : World}
    (hg : (w.group sys c pid).isSome) :
    run (exec sys fails) (classifyAll c tasks (getCgroupName pid)) w =
      (.ok (), w.setTree (sys.hier c)
        ((w.cg (sys.hier c)).moveAll (tasks.filter (joins fails c pid w)) (groupPath pid))) := by
  induction tasks generalizing w with
  | nil => simp [classifyAll]
  | cons t tasks ih =>
    rw [classifyAll, forEach_cons, run_bind_ok _ (run_cgclassify sys fails hc pid w t)]
    by_cases hj : joins fails c pid w t = true
    · have hcond : fails (.cgclassify c (getCgroupName pid) t) = false ∧
          (w.group sys c pid).isSome ∧ w.alive t := by
        simp only [joins, Bool.and_eq_true, Bool.not_eq_true'] at hj
        exact ⟨hj.1, hg, hj.2⟩
      rw [if_pos hcond]
      refine (ih (w := w.addTask sys c pid t) (by rwa [group_addTask])).trans ?_
      rw [List.filter_cons_of_pos hj, GroupTree.moveAll_cons]
      simp only [World.addTask, World.setTree_cg, World.setTree_setTree]
      rfl
    · have hcond : ¬ (fails (.cgclassify c (getCgroupName pid) t) = false ∧
          (w.group sys c pid).isSome ∧ w.alive t) := by
        intro h
        obtain ⟨h1, -, h3⟩ := h
        exact hj (by simp [joins, h1, h3])
      rw [if_neg hcond, List.filter_cons_of_neg hj]
      exact ih hg

/-! ## The core -/

include hk

/-- The core ends normally when making the group and reading its keys succeed. -/
theorem run_limitGroup (hc : c ∈ toolControllers)
    (hcreate : fails (.cgcreate c (getCgroupName pid)) = false)
    (hget : ∀ kv ∈ kvs, fails (.cgget kv.1 (getCgroupName pid)) = false) (tasks : List Nat)
    (w : World) :
    run (exec sys fails) (limitGroup c pid kvs tasks) w =
      (.ok (), w.limited sys fails c pid kvs tasks) := by
  have hcr := run_cgcreate sys fails hc pid w
  rw [hcreate, if_neg (by simp)] at hcr
  have hg : ((w.resetGroup sys c pid).group sys c pid).isSome := by
    rw [group_resetGroup]; rfl
  have hset := run_setAll sys fails pid hk hc hget hg
  have hg' := group_modifyGroup sys pid (c := c) (w.resetGroup sys c pid)
    (applyAll (kvs.filter (keeps fails pid)))
  rw [group_resetGroup] at hg'
  rw [limitGroup, run_bind_ok _ hcr, run_bind_ok _ hset,
    run_classifyAll sys fails pid hc tasks (by rw [hg']; rfl)]
  simp only [World.modifyGroup, World.resetGroup, World.limited, World.setTree_cg,
    World.setTree_setTree]
  rfl

/-- Otherwise, if there is a key to set, the script raises. -/
theorem run_limitGroup_error (hc : c ∈ toolControllers) (hne : kvs ≠ [])
    (hbad : fails (.cgcreate c (getCgroupName pid)) = true ∨
      ∃ kv ∈ kvs, fails (.cgget kv.1 (getCgroupName pid)) = true) (tasks : List Nat) (w : World) :
    ∃ w', run (exec sys fails) (limitGroup c pid kvs tasks) w =
      (.error (.assertionStderr ["error".toList]), w') := by
  have hcr := run_cgcreate sys fails hc pid w
  rw [limitGroup, run_bind_ok _ hcr]
  cases hcreate : fails (.cgcreate c (getCgroupName pid)) with
  | false =>
    rw [hcreate] at hbad
    obtain ⟨w', hw'⟩ := run_setAll_error sys fails pid hk hc
      (hbad.resolve_left (by simp)) (w.resetGroup sys c pid)
    exact ⟨w', run_bind_error _ hw' _⟩
  | true =>
    -- the group is gone, so the first `cgget` does not find it
    cases kvs with
    | nil => exact absurd rfl hne
    | cons kv kvs =>
      have hkc := hk kv (by simp)
      have hset := run_cgset sys fails pid (w.dropGroup sys c pid) kv.1 (hkc ▸ hc) kv.2
      rw [hkc, group_dropGroup, if_pos (.inr rfl)] at hset
      refine ⟨w.dropGroup sys c pid, ?_⟩
      simp only [if_true, setAll, forEach_cons]
      exact run_bind_error _ (run_bind_error _ hset _) _

omit hk

/-! ## Observations -/

theorem group_limited (w : World) (kvs : List (Key × Text)) (tasks : List Nat) :
    (w.limited sys fails c pid kvs tasks).group sys c pid =
      some (applyAll (kvs.filter (keeps fails pid)) sys.fresh) := by
  rw [World.limited, World.group, World.setTree_cg, GroupTree.moveAll_attrs,
    GroupTree.modify_attrs, if_pos rfl,
    GroupTree.refresh_attrs _ (groupPath_ne_nil pid) _ (w.cg _).root_mem, if_pos rfl,
    Option.map_some]

/-- Only the tasks just classified are members. -/
theorem member_limited (w : World) (kvs : List (Key × Text)) (tasks : List Nat) (t : Nat) :
    (w.limited sys fails c pid kvs tasks).member sys c pid t ↔
      t ∈ tasks ∧ joins fails c pid w t = true := by
  have hsome : (((w.cg (sys.hier c)).refresh (groupPath pid) sys.fresh).modify (groupPath pid)
      (applyAll (kvs.filter (keeps fails pid)))).attrs (groupPath pid) =
      some (applyAll (kvs.filter (keeps fails pid)) sys.fresh) := by
    rw [GroupTree.modify_attrs, if_pos rfl,
      GroupTree.refresh_attrs _ (groupPath_ne_nil pid) _ (w.cg _).root_mem, if_pos rfl,
      Option.map_some]
  rw [← List.mem_filter, World.limited, World.member, World.setTree_cg,
    GroupTree.moveAll_loc _ _ (by rw [hsome]; rfl)]
  split
  · next h => exact ⟨fun _ => h, fun _ => rfl⟩
  · next h =>
    refine ⟨fun heq => ?_, fun h' => absurd h' h⟩
    rw [GroupTree.modify_loc] at heq
    refine absurd ?_ (GroupTree.refresh_loc_ne (w.cg (sys.hier c)) (groupPath_ne_nil pid)
      sys.fresh t)
    rw [heq]

end

end LinuxSummary.Cgroup
