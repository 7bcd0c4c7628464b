/-
  What the helpers of `cgroup_limit.py` do to the machine: one rule for each, on which
  every result about the commands rests.

  The script only touches groups `ctpid<pid>` directly below a root (`groupPath`). The
  four effects on such a group are `resetGroup`, `dropGroup`, `setKey` and `addTask`;
  `run_cgcreate`, `run_cgdelete`, `run_cgset` and `run_cgclassify` say which of them a
  helper has, for every choice of failing commands.
-/
import LinuxSummary.Cgroup.Tool

namespace LinuxSummary.Cgroup

open Prog

/-! ## Names and paths -/

theorem ctpid_ne_nil (s : Text) : ctpid s ≠ [] := by simp [ctpid]

theorem not_mem_getCgroupName {c : Char} (hc : Numeral.digitVal c = none)
    (h : c ∉ "ctpid".toList) (pid : Nat) : c ∉ getCgroupName pid := by
  rw [getCgroupName, ctpid, List.mem_append, not_or]
  exact ⟨h, Numeral.not_mem_toDigits (by decide) (by decide) hc pid⟩

/-- The group `ctpid<pid>` below the root. -/
def groupPath (pid : Nat) : Path :=
  [⟨getCgroupName pid, ctpid_ne_nil _, not_mem_getCgroupName (by decide) (by decide) pid,
    not_mem_getCgroupName (by decide) (by decide) pid⟩]

theorem groupPath_ne_nil (pid : Nat) : groupPath pid ≠ [] := by simp [groupPath]

theorem getCgroupName_injective : Function.Injective getCgroupName := by
  intro p q h
  exact Numeral.toDigits_injective (by decide) (by decide) (List.append_cancel_left h)

theorem groupPath_injective : Function.Injective groupPath := by
  intro p q h
  have h1 := (List.cons.inj h).1
  exact getCgroupName_injective (congrArg Comp.text h1)

/-- Of two tool groups none is below the other. -/
theorem groupPath_prefix_iff (p q : Nat) : groupPath p <+: groupPath q ↔ p = q := by
  constructor
  · intro h
    exact groupPath_injective (h.eq_of_length rfl)
  · intro heq
    obtain rfl := heq
    exact List.prefix_rfl

theorem parsePath_name (pid : Nat) : parsePath (getCgroupName pid) = groupPath pid := by
  have hslash : '/' ∉ getCgroupName pid := not_mem_getCgroupName (by decide) (by decide) pid
  have hnl : '\n' ∉ getCgroupName pid := not_mem_getCgroupName (by decide) (by decide) pid
  have hne : getCgroupName pid ≠ [] := ctpid_ne_nil _
  simp only [parsePath, List.splitOn_eq_singleton hslash, List.filterMap_cons, List.filterMap_nil,
    Comp.ofText?, dif_pos (⟨hne, hslash, hnl⟩ : _ ∧ _ ∧ _)]
  rfl

/-- Splitting a text at its first `:`. -/
theorem takeWhile_colon {a b : Text} (ha : ':' ∉ a) :
    (a ++ ':' :: b).takeWhile (· ≠ ':') = a ∧
      ((a ++ ':' :: b).dropWhile (· ≠ ':')).drop 1 = b := by
  have hpos : ∀ c ∈ a, decide (c ≠ ':') = true := by
    intro c hc
    simp only [ne_eq, decide_eq_true_eq]
    intro heq
    obtain rfl := heq
    exact ha hc
  rw [List.takeWhile_append_of_pos hpos, List.dropWhile_append_of_pos hpos]
  simp

theorem Controller.name_ok (c : Controller) : ':' ∉ c.name ∧ ',' ∉ c.name := by
  cases c
  case named n =>
    have hno : ∀ d ∈ n.text, d ≠ ':' ∧ d ≠ ',' := by
      intro d hd
      have := List.all_eq_true.mp n.ok d hd
      constructor <;> rintro rfl <;> simp at this
    have hname : (Controller.named n).name = "name=".toList ++ n.text := rfl
    rw [hname, List.mem_append, List.mem_append, not_or, not_or]
    refine ⟨⟨by decide, fun h => ?_⟩, ⟨by decide, fun h => ?_⟩⟩
    · exact (hno ':' h).1 rfl
    · exact (hno ',' h).2 rfl
  all_goals decide

theorem Controller.ofName_name (c : Controller) : Controller.ofName c.name = some c := by
  cases c
  case named n =>
    have hkernel : Controller.kernel.find? (fun c => c.name = (Controller.named n).name) =
        none := by
      rw [List.find?_eq_none]
      intro c hc heq
      have hshort : ∀ c ∈ Controller.kernel, c.name.take 5 ≠ "name=".toList := by decide
      refine hshort c hc ?_
      rw [of_decide_eq_true heq]
      rfl
    have hdrop : (Controller.named n).name.drop 5 = n.text := rfl
    have hpre : "name=".toList <+: (Controller.named n).name := List.prefix_append _ _
    rw [Controller.ofName, hkernel]
    simp only [if_pos hpre, hdrop, HierName.ofText?, dif_pos n.ok, Option.map_some]
  all_goals decide

theorem parseGroup_name (c : Controller) (pid : Nat) :
    parseGroup (c.name ++ ':' :: getCgroupName pid) = ([c.name], groupPath pid) := by
  obtain ⟨h1, h2⟩ := takeWhile_colon (b := getCgroupName pid) c.name_ok.1
  rw [parseGroup, h1, h2, List.splitOn_eq_singleton c.name_ok.2, parsePath_name]

/-! ## The hierarchies of the tool -/

section
variable (sys : Sys)

theorem Sys.hierOf_tool {c : Controller} (hc : c ∈ toolControllers) :
    sys.hierOf c = some (sys.hier c) := by
  obtain ⟨h, hm, hch⟩ := sys.tool_mounted c hc
  have hsome : (sys.hierOf c).isSome := by
    rw [Sys.hierOf, List.find?_isSome]
    exact ⟨h, hm, by simpa using hch⟩
  obtain ⟨h', hh'⟩ := Option.isSome_iff_exists.mp hsome
  rw [Sys.hier, hh']
  rfl

/-! ## Groups of the tool -/

/-- The contents of the group `ctpid<pid>` of a controller. -/
def World.group (w : World) (c : Controller) (pid : Nat) : Option Attrs :=
  (w.cg (sys.hier c)).attrs (groupPath pid)

/-- The thread `t` is a member of the group `ctpid<pid>` of a controller. -/
def World.member (w : World) (c : Controller) (pid t : Nat) : Prop :=
  (w.cg (sys.hier c)).loc t = groupPath pid

def World.resetGroup (w : World) (c : Controller) (pid : Nat) : World :=
  w.setTree (sys.hier c) ((w.cg (sys.hier c)).refresh (groupPath pid) sys.fresh)

def World.dropGroup (w : World) (c : Controller) (pid : Nat) : World :=
  w.setTree (sys.hier c) ((w.cg (sys.hier c)).remove (groupPath pid))

def World.setKey (w : World) (k : Key) (v : Text) (pid : Nat) : World :=
  w.setTree (sys.hier k.controller)
    ((w.cg (sys.hier k.controller)).modify (groupPath pid) fun a => Function.update a k v)

def World.addTask (w : World) (c : Controller) (pid t : Nat) : World :=
  w.setTree (sys.hier c) ((w.cg (sys.hier c)).move t (groupPath pid))

end

@[simp] theorem World.setTree_cg (w : World) (h : Hier) (t : Tree) :
    (w.setTree h t).cg h = t := by simp [World.setTree]

theorem World.setTree_cg_of_ne (w : World) {h h' : Hier} (hne : h' ≠ h) (t : Tree) :
    (w.setTree h t).cg h' = w.cg h' := by simp [World.setTree, hne]

@[simp] theorem World.setTree_self (w : World) (h : Hier) : w.setTree h (w.cg h) = w := by
  simp [World.setTree]

@[simp] theorem World.setTree_setTree (w : World) (h : Hier) (t u : Tree) :
    (w.setTree h t).setTree h u = w.setTree h u := by
  simp [World.setTree]

theorem World.setTree_eq_iff (w : World) (h : Hier) (t : Tree) :
    w.setTree h t = w ↔ t = w.cg h := by
  constructor
  · intro he
    rw [← w.setTree_cg h t, he]
  · intro heq
    obtain rfl := heq
    exact w.setTree_self h

/-! ## What the effects leave -/

section
variable (sys : Sys) (w : World) (c : Controller) (pid : Nat)

theorem group_resetGroup : (w.resetGroup sys c pid).group sys c pid = some sys.fresh := by
  rw [World.resetGroup, World.group, World.setTree_cg,
    GroupTree.refresh_attrs _ (groupPath_ne_nil pid) _ (w.cg _).root_mem, if_pos rfl]

theorem group_dropGroup : (w.dropGroup sys c pid).group sys c pid = none := by
  rw [World.dropGroup, World.group, World.setTree_cg,
    GroupTree.remove_attrs_self _ (groupPath_ne_nil pid)]

theorem group_setKey {k : Key} (hk : k.controller = c) (v : Text) :
    (w.setKey sys k v pid).group sys c pid =
      (w.group sys c pid).map fun a => Function.update a k v := by
  subst hk
  rw [World.setKey, World.group, World.setTree_cg, GroupTree.modify_attrs, if_pos rfl]
  rfl

theorem group_addTask (t : Nat) :
    (w.addTask sys c pid t).group sys c pid = w.group sys c pid := by
  rw [World.addTask, World.group, World.setTree_cg, GroupTree.move_attrs]
  rfl

theorem member_addTask (h : (w.group sys c pid).isSome) (t u : Nat) :
    (w.addTask sys c pid t).member sys c pid u ↔ u = t ∨ w.member sys c pid u := by
  rw [World.addTask, World.member, World.setTree_cg, GroupTree.move_loc _ h]
  by_cases hut : u = t
  · simp [hut]
  · simp only [Function.update_of_ne hut, hut, false_or]
    rfl

end

/-! ## What the helpers ask and raise -/

/-- A shell command. -/
def asksSh (q : Ask) : Prop := ∃ c, q = .sh c

/-- An exception that is no failed validation. -/
def notValidation (e : PyError) : Prop := e.isValidation = false

theorem only_sh (c : Cmd) : (call c).Only asksSh notValidation := ⟨⟨c, rfl⟩, fun _ => trivial⟩

theorem only_cgcreate (c : Controller) (name : Text) :
    (cgcreate c name).Only asksSh notValidation := by
  have hcheck : (checkOutput (.lscgroupG c name)).Only asksSh notValidation := by
    refine ⟨⟨_, rfl⟩, fun out => ?_⟩
    have hraise : notValidation (.calledProcessError out.status) := rfl
    exact (only_require hraise).bind fun _ => trivial
  have hexist : (checkCgroupExist c name).Only asksSh notValidation :=
    hcheck.bind fun out => by exact trivial
  refine hexist.bind fun b => ?_
  cases b with
  | true => exact (only_sh _).bind fun _ => only_sh _
  | false => exact only_sh _

theorem only_cgset (k : Key) (v name : Text) : (cgset k v name).Only asksSh notValidation := by
  have hget : (cggetKey k name).Only asksSh notValidation := by
    refine ⟨⟨_, rfl⟩, fun out => ?_⟩
    have hraise : notValidation (.assertionStderr out.stderr) := rfl
    exact (only_require hraise).bind fun _ => trivial
  exact hget.bind fun _ => only_sh _

/-! ## One rule for each helper -/

section
variable {S : Type} (serve : (q : Ask) → S → q.Reply × S)

theorem run_call (c : Cmd) (s : S) : run serve (call c) s = (.ok (), (serve (.sh c) s).2) := rfl

theorem run_checkOutput_ok {c : Cmd} {s s' : S} {lines : List Text}
    (h : serve (.sh c) s = (.ok lines, s')) :
    run serve (checkOutput c) s = (.ok lines, s') := by
  simp only [checkOutput, query_bind, run_ask, h]
  rfl

theorem run_checkOutput_failed {c : Cmd} {s s' : S} (h : serve (.sh c) s = (.failed, s')) :
    run serve (checkOutput c) s = (.error (.calledProcessError 1), s') := by
  simp only [checkOutput, query_bind, run_ask, h]
  rfl

end

section
variable (sys : Sys) (fails : Cmd → Bool)

variable {c : Controller} (hc : c ∈ toolControllers) (pid : Nat) (w : World)

/-- The group `ctpid<pid>` can be made: its parent is the root. -/
theorem root_isSome (h : Hier) : ((w.cg h).attrs (groupPath pid).dropLast).isSome :=
  (w.cg h).root_mem

theorem dropGroup_of_none (h : w.group sys c pid = none) : w.dropGroup sys c pid = w := by
  rw [World.dropGroup, GroupTree.remove_eq_self _ h, World.setTree_self]

include hc

theorem run_cgdelete :
    run (exec sys fails) (cgdelete c (getCgroupName pid)) w = (.ok (), w.dropGroup sys c pid) := by
  rw [cgdelete, cgdeleteName, run_call]
  simp only [exec, Cmd.failable, Bool.false_and, Bool.false_eq_true, if_false, execCmd, Cmd.isTc,
    execCg, parseGroup_name, World.deleteGroup, List.foldl_cons, List.foldl_nil,
    Controller.ofName_name, Option.bind_some, sys.hierOf_tool hc]
  rfl

theorem run_checkCgroupExist :
    run (exec sys fails) (checkCgroupExist c (getCgroupName pid)) w =
      (.ok (w.group sys c pid).isSome, w) := by
  have hrun : exec sys fails (.sh (.lscgroupG c (getCgroupName pid))) w =
      (.ok (if (w.group sys c pid).isSome then [listing (sys.hier c, groupPath pid)] else []),
        w) := by
    simp only [exec, Cmd.failable, Bool.false_and, Bool.false_eq_true, if_false, execCmd,
      Cmd.isTc, execCg, sys.hierOf_tool hc, parsePath_name]
    rfl
  rw [checkCgroupExist, run_bind_ok _ (run_checkOutput_ok _ hrun)]
  cases w.group sys c pid <;> rfl

/-- `cgcreate` leaves a fresh group, or none if the command fails. -/
theorem run_cgcreate :
    run (exec sys fails) (cgcreate c (getCgroupName pid)) w =
      (.ok (), if fails (.cgcreate c (getCgroupName pid)) then w.dropGroup sys c pid
        else w.resetGroup sys c pid) := by
  have hcreate : run (exec sys fails) (call (.cgcreate c (getCgroupName pid)))
      (w.dropGroup sys c pid) =
      (.ok (), if fails (.cgcreate c (getCgroupName pid)) then w.dropGroup sys c pid
        else w.resetGroup sys c pid) := by
    rw [run_call]
    simp only [exec, Cmd.failable, Bool.true_and]
    split
    · rfl
    · simp only [execCmd, Cmd.isTc, Bool.false_eq_true, if_false, execCg, sys.hierOf_tool hc,
        parsePath_name, World.dropGroup, World.setTree_cg, World.setTree_setTree]
      rfl
  rw [cgcreate, run_bind_ok _ (run_checkCgroupExist sys fails hc pid w)]
  cases hg : w.group sys c pid with
  | none =>
    rw [dropGroup_of_none sys pid w hg] at hcreate
    rw [dropGroup_of_none sys pid w hg]
    exact hcreate
  | some a =>
    simp only [Option.isSome_some, if_true]
    rw [run_bind_ok _ (run_cgdelete sys fails hc pid w)]
    exact hcreate

/-- `cgclassify` moves a live thread into the group. -/
theorem run_cgclassify (t : Nat) :
    run (exec sys fails) (cgclassify c (getCgroupName pid) t) w =
      (.ok (), if fails (.cgclassify c (getCgroupName pid) t) = false ∧
          (w.group sys c pid).isSome ∧ w.alive t then w.addTask sys c pid t else w) := by
  rw [cgclassify, run_call]
  simp only [exec, Cmd.failable, Bool.true_and, execCmd, Cmd.isTc, Bool.false_eq_true, if_false,
    execCg, sys.hierOf_tool hc, parsePath_name]
  cases hf : fails (.cgclassify c (getCgroupName pid) t) with
  | true => simp
  | false =>
    simp only [Bool.false_eq_true, if_false, true_and]
    have hg : (w.cg (sys.hier c)).attrs (groupPath pid) = w.group sys c pid := rfl
    rw [hg]
    split <;> rfl

omit hc

/-- The command `cgset` on a group that is there. -/
theorem exec_cgset {k : Key} (hk : k.controller ∈ toolControllers) (v : Text)
    (hg : (w.group sys k.controller pid).isSome) :
    (exec sys fails (.sh (.cgset k v (getCgroupName pid))) w).2 =
      if fails (.cgset k v (getCgroupName pid)) ∨ '\n' ∈ v then w else w.setKey sys k v pid := by
  have hsome : ((w.cg (sys.hier k.controller)).attrs (groupPath pid)).isSome := hg
  simp only [exec, Cmd.failable, Bool.true_and, execCmd, Cmd.isTc, Bool.false_eq_true, if_false,
    execCg, sys.hierOf_tool hk, parsePath_name, hsome, true_and]
  cases fails (.cgset k v (getCgroupName pid)) with
  | true => simp
  | false =>
    simp only [Bool.false_eq_true, if_false, false_or]
    by_cases hnl : '\n' ∈ v
    · simp [hnl]
    · simp only [hnl, not_false_eq_true, if_true, if_false]
      rfl

/-- `cgset` raises if `cgget` does not find the key, and sets it if no step fails. -/
theorem run_cgset (k : Key) (hk : k.controller ∈ toolControllers) (v : Text) :
    run (exec sys fails) (cgset k v (getCgroupName pid)) w =
      if fails (.cgget k (getCgroupName pid)) ∨ w.group sys k.controller pid = none then
        (.error (.assertionStderr ["error".toList]), w)
      else (.ok (), if fails (.cgset k v (getCgroupName pid)) ∨ '\n' ∈ v then w
        else w.setKey sys k v pid) := by
  have hget : exec sys fails (.sh (.cgget k (getCgroupName pid))) w =
      if fails (.cgget k (getCgroupName pid)) then (.failed, w)
      else (w.group sys k.controller pid).elim (.failed, w) fun a => (.ok [a k], w) := by
    simp only [exec, Cmd.failable, Bool.true_and, execCmd, Cmd.isTc, Bool.false_eq_true, if_false,
      execCg, sys.hierOf_tool hk, parsePath_name]
    unfold World.group
    cases (w.cg (sys.hier k.controller)).attrs (groupPath pid) with
    | none => rfl
    | some a => rfl
  simp only [cgset, cggetKey, query_bind, ask_bind, run_ask, hget]
  cases hf : fails (.cgget k (getCgroupName pid)) with
  | true => rfl
  | false =>
    cases hg : w.group sys k.controller pid with
    | none => rfl
    | some a =>
      have hset : run (exec sys fails) (call (.cgset k v (getCgroupName pid))) w =
          (.ok (), if fails (.cgset k v (getCgroupName pid)) ∨ '\n' ∈ v then w
            else w.setKey sys k v pid) := by
        rw [run_call, exec_cgset sys fails pid w hk v (by rw [hg]; rfl)]
      simp only [reduceCtorEq, Bool.false_eq_true, or_self, if_false]
      exact hset

end

end LinuxSummary.Cgroup
