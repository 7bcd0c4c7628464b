/-
  `zmodule.c`: the list of the loaded modules.

  `ztest_init` takes the node before `THIS_MODULE` for the head of the list. Its counter begins
  at 1. A head that is a module is left out, and the anchor is then taken for a module: what
  stands in memory around it is arbitrary.

  `Modules` is the list, the newest module first, with the uses of each module. `visits_iff`: the
  modules are visited exactly when `THIS_MODULE` is the newest one. `never_enumerates` adds the
  number, which is never right.
-/
import LinuxSummary.Library.Walk

namespace LinuxSummary.Zmodule

open Walk CInt
open ForLoop (Loop)

abbrev Ptr := Nat

/-- The kernel's memory, as far as it is read. A module stands for its node in the list, a
`module_use` for its node in `target_list`; a use without a target is not readable. -/
structure Memory where
  name : Ptr → String
  init : Ptr → Ptr
  targetList : Ptr → Ptr
  useNext : Ptr → Ptr
  target : Ptr → Option Ptr

/-- `l` are the uses of the module `m`. -/
structure Memory.Uses (mem : Memory) (m : Ptr) (l : List Ptr) : Prop where
  chain : Chain mem.useNext (mem.useNext (mem.targetList m)) l (mem.targetList m)
  not_head : mem.targetList m ∉ l
  readable : ∀ use ∈ l, ∃ target, mem.target use = some target

/-- The modules, the newest first. -/
structure Modules extends Memory where
  anchor : Ptr
  next : Ptr → Ptr
  prev : Ptr → Ptr
  modules : List Ptr
  uses : Ptr → List Ptr
  this : Ptr
  ring : Ring next prev anchor modules
  proper : ∀ m ∈ modules, toMemory.Uses m (uses m)
  loaded : this ∈ modules

/-- What `pr_info` prints. -/
inductive Line
  | init (ztestInit : Ptr)
  | this (thisModule : Ptr) (name : String) (init : Ptr)
  | mod (m : Ptr) (name : String)
  | depends (name : String)
  | newline
  | num (n : Int)

structure State where
  out : List Line
  i : Int

section
variable (M : Modules) (fuel : Nat)

/-- The body of the loop over the uses. -/
def printUse (use : Ptr) (s : State) : Loop State :=
  match M.target use with
  | none => .fault s
  | some i => .ended { s with out := s.out ++ [.depends (M.name i)] }

/-- The body of the loop over the modules. -/
def printModule (m : Ptr) (s : State) : Loop State :=
  andThen
    (walk (fun use => use == M.targetList m) M.useNext (printUse M) fuel
      (M.useNext (M.targetList m)) { s with out := s.out ++ [.mod m (M.name m)] })
    fun s => .ended { out := s.out ++ [.newline], i := int32 (s.i + 1) }

/-- `THIS_MODULE->init` is `ztest_init`; the function returns 0. -/
def ztestInit : Loop State :=
  andThen
    (walk (fun m => m == M.prev M.this) M.next (printModule M fuel) fuel
      (M.next (M.prev M.this))
      { out := [.init (M.init M.this), .this M.this (M.name M.this) (M.init M.this)], i := 1 })
    fun s => .ended { s with out := s.out ++ [.num s.i] }

end

/-! ## What is listed -/

/-- The modules that were visited. -/
def visited (out : List Line) : List Ptr :=
  out.filterMap fun line => match line with
    | .mod m _ => some m
    | _ => none

/-- The numbers that were printed. -/
def nums (out : List Line) : List Int :=
  out.filterMap fun line => match line with
    | .num n => some n
    | _ => none

section
variable (M : Modules)

/-- Every loaded module is visited once, and nothing else. -/
def VisitsAll (s : State) : Prop :=
  (visited s.out).Nodup ∧ ∀ m, m ∈ visited s.out ↔ m ∈ M.modules

/-- The listing ends, with every loaded module in it once. -/
def Visits : Prop := ∃ fuel s, ztestInit M fuel = .ended s ∧ VisitsAll M s

/-- Such a listing, and the number of the modules. -/
def Enumerates : Prop :=
  ∃ fuel s, ztestInit M fuel = .ended s ∧ VisitsAll M s ∧
    nums s.out = [((visited s.out).length : Int)]

end

/-! ## One module -/

theorem visited_append (a b : List Line) : visited (a ++ b) = visited a ++ visited b :=
  List.filterMap_append

theorem nums_append (a b : List Line) : nums (a ++ b) = nums a ++ nums b :=
  List.filterMap_append

section
variable {M : Modules}

/-- The loop over the uses lists no module and no number, and does not count. -/
theorem printUse_keeps {use : Ptr} {s t : State} (h : printUse M use s = .ended t) :
    visited t.out = visited s.out ∧ nums t.out = nums s.out ∧ t.i = s.i := by
  unfold printUse at h
  split at h
  · exact absurd h (by simp)
  · rw [← Loop.ended.inj h]
    exact ⟨(visited_append _ _).trans (List.append_nil _),
      (nums_append _ _).trans (List.append_nil _), rfl⟩

/-- **Whatever stands there, a node that is passed is listed and counted.** -/
theorem printModule_ended {fuel : Nat} {m : Ptr} {s t : State}
    (h : printModule M fuel m s = .ended t) :
    visited t.out = visited s.out ++ [m] ∧ nums t.out = nums s.out ∧ t.i = int32 (s.i + 1) := by
  obtain ⟨u, hwalk, hend⟩ := andThen_ended h
  have hkeep := walk_rule
    (I := fun u => visited u.out = visited s.out ++ [m] ∧ nums u.out = nums s.out ∧ u.i = s.i)
    (fun use u v hu hbody => by
      obtain ⟨h1, h2, h3⟩ := printUse_keeps hbody
      exact ⟨h1.trans hu.1, h2.trans hu.2.1, h3.trans hu.2.2⟩)
    ⟨visited_append _ _, (nums_append _ _).trans (List.append_nil _), rfl⟩ hwalk
  obtain ⟨hvisited, hnums, hi⟩ := hkeep
  rw [← Loop.ended.inj hend, ← hi]
  refine ⟨?_, ?_, rfl⟩
  · exact (visited_append _ _).trans ((List.append_nil _).trans hvisited)
  · exact (nums_append _ _).trans ((List.append_nil _).trans hnums)

/-- A loaded module is passed. -/
theorem printModule_of_mem {m : Ptr} (hm : m ∈ M.modules) {fuel : Nat}
    (hfuel : (M.uses m).length ≤ fuel) (s : State) :
    ∃ t, printModule M fuel m s = .ended t := by
  have huses := M.proper m hm
  have hstop : ∀ use ∈ M.uses m, (use == M.targetList m) = false := by
    intro use huse
    exact beq_eq_false_iff_ne.mpr fun heq => huses.not_head (heq ▸ huse)
  have hall : ∀ use ∈ M.uses m, ∀ s, ∃ t, printUse M use s = .ended t := by
    intro use huse s
    obtain ⟨target, htarget⟩ := huses.readable use huse
    unfold printUse
    rw [htarget]
    exact ⟨_, rfl⟩
  unfold printModule
  rw [walk_chain huses.chain hstop (beq_self_eq_true _) hfuel]
  obtain ⟨t, ht⟩ := runAll_ended hall { s with out := s.out ++ [.mod m (M.name m)] }
  rw [ht]
  exact ⟨_, rfl⟩

end

/-! ## The list -/

section
variable {M : Modules}

theorem runAll_printModule {fuel k : Nat} {l : List Ptr} {s t : State}
    (hi : s.i = int32 k) (h : runAll (printModule M fuel) l s = .ended t) :
    visited t.out = visited s.out ++ l ∧ nums t.out = nums s.out ∧
      t.i = int32 ((k + l.length : Nat) : Int) := by
  induction l generalizing s k with
  | nil =>
    rw [← Loop.ended.inj h]
    exact ⟨(List.append_nil _).symm, rfl, hi⟩
  | cons m l ih =>
    obtain ⟨u, hhere, hrest⟩ := andThen_ended h
    obtain ⟨h1, h2, h3⟩ := printModule_ended hhere
    rw [hi, ForLoop.int32_succ] at h3
    obtain ⟨h4, h5, h6⟩ := ih h3 hrest
    have hcount : k + 1 + l.length = k + (m :: l).length := by rw [List.length_cons]; omega
    rw [hcount] at h6
    exact ⟨by rw [h4, h1, List.append_assoc]; rfl, h5.trans h2, h6⟩

/-- **What is listed is the ring without the node before `THIS_MODULE`**, and the number is one
more. -/
theorem ztestInit_ended {l : List Ptr} (h : Ring M.next M.prev (M.prev M.this) l) {fuel : Nat}
    {s : State} (hrun : ztestInit M fuel = .ended s) :
    visited s.out = l ∧ nums s.out = [int32 ((1 + l.length : Nat) : Int)] := by
  obtain ⟨t, hwalk, hend⟩ := andThen_ended hrun
  have hall := ((walk_ended_iff h.chain h.ne_head (beq_self_eq_true _)).mp hwalk).2
  obtain ⟨hvisited, hnums, hi⟩ := runAll_printModule (k := 1) rfl hall
  rw [← Loop.ended.inj hend]
  constructor
  · exact (visited_append _ _).trans ((List.append_nil _).trans hvisited)
  · rw [← hi]
    exact (nums_append _ _).trans (congrArg (· ++ [t.i]) hnums)

/-- Over loaded modules the listing ends. -/
theorem ztestInit_ends {l : List Ptr} (h : Ring M.next M.prev (M.prev M.this) l)
    (hl : ∀ m ∈ l, m ∈ M.modules) : ∃ fuel s, ztestInit M fuel = .ended s := by
  have huses : ∀ m ∈ l, (M.uses m).length ≤ (l.flatMap M.uses).length := by
    intro m hm
    exact (List.sublist_flatten_of_mem (List.mem_map_of_mem hm)).length_le
  have hall : ∀ m ∈ l, ∀ s, ∃ t,
      printModule M (l.length + (l.flatMap M.uses).length) m s = .ended t := by
    intro m hm s
    exact printModule_of_mem (hl m hm) (Nat.le_add_left_of_le (huses m hm)) s
  refine ⟨l.length + (l.flatMap M.uses).length, ?_⟩
  unfold ztestInit
  rw [walk_chain h.chain h.ne_head (beq_self_eq_true _) (Nat.le_add_right _ _)]
  obtain ⟨t, ht⟩ := runAll_ended hall
    { out := [.init (M.init M.this), .this M.this (M.name M.this) (M.init M.this)], i := 1 }
  rw [ht]
  exact ⟨_, rfl⟩

/-- The node before `THIS_MODULE`, and the ring behind it. -/
theorem exists_ring (M : Modules) :
    ∃ l, Ring M.next M.prev (M.prev M.this) l ∧
      List.Perm (M.prev M.this :: l) (M.anchor :: M.modules) :=
  M.ring.rotate (M.ring.next_prev (List.mem_cons_of_mem _ M.loaded)).1

/-- **The modules are visited exactly when none is newer than `THIS_MODULE`.** -/
theorem visits_iff (M : Modules) : Visits M ↔ M.prev M.this = M.anchor := by
  constructor
  · intro h
    obtain ⟨fuel, s, hrun, -, hmem⟩ := h
    obtain ⟨l, hring, hperm⟩ := exists_ring M
    obtain ⟨hvisited, -⟩ := ztestInit_ended hring hrun
    have hin : M.prev M.this ∈ M.anchor :: M.modules := hperm.mem_iff.mp List.mem_cons_self
    rcases List.mem_cons.mp hin with heq | hmod
    · exact heq
    · have hlisted := (hmem _).mpr hmod
      rw [hvisited] at hlisted
      exact absurd hlisted (List.nodup_cons.mp hring.nodup).1
  · intro h
    have hring : Ring M.next M.prev (M.prev M.this) M.modules := h.symm ▸ M.ring
    obtain ⟨fuel, s, hrun⟩ := ztestInit_ends hring fun m hm => hm
    obtain ⟨hvisited, -⟩ := ztestInit_ended hring hrun
    refine ⟨fuel, s, hrun, ?_⟩
    unfold VisitsAll
    rw [hvisited]
    exact ⟨(List.nodup_cons.mp M.ring.nodup).2, fun m => Iff.rfl⟩

/-- The counter that begins at 1 never ends at the number of turns. -/
theorem int32_one_add_ne (n : Nat) : int32 ((1 + n : Nat) : Int) ≠ n := by
  unfold int32
  rw [Int.bmod_def]
  omega

theorem not_enumerates_of_ring (M : Modules) : ¬ Enumerates M := by
  intro h
  obtain ⟨fuel, s, hrun, -, hnum⟩ := h
  obtain ⟨l, hring, -⟩ := exists_ring M
  obtain ⟨hvisited, hnums⟩ := ztestInit_ended hring hrun
  rw [hnums, hvisited] at hnum
  exact int32_one_add_ne l.length (List.cons.inj hnum).1

end

/-- **The number is never right; the modules are, when none is newer than `THIS_MODULE`.** -/
theorem never_enumerates (M : Modules) :
    ¬ Enumerates M ∧ (Visits M ↔ M.prev M.this = M.anchor) :=
  ⟨not_enumerates_of_ring M, visits_iff M⟩

/-- `THIS_MODULE` alone, without uses. -/
def alone : Modules where
  name _ := "zmodule"
  init m := m
  targetList m := m
  useNext m := m
  target _ := none
  anchor := 0
  next m := 1 - m
  prev m := 1 - m
  modules := [1]
  uses _ := []
  this := 1
  ring := ⟨.cons (.nil 0), by decide, by decide⟩
  proper m _ := ⟨.nil m, List.not_mem_nil, fun _ h => absurd h List.not_mem_nil⟩
  loaded := List.mem_singleton_self 1

/-- One module, and the number 2. -/
theorem not_enumerates_alone : ¬ Enumerates alone := not_enumerates_of_ring alone

/-! ## Modules that are loaded later -/

/-- A module is inserted behind the anchor. -/
def Modules.load (M : Modules) (m : Ptr) (l : List Ptr) (hm : m ∉ M.anchor :: M.modules)
    (hl : M.Uses m l) : Modules :=
  { M with
    next := (listAdd M.next M.prev m M.anchor).1
    prev := (listAdd M.next M.prev m M.anchor).2
    modules := m :: M.modules
    uses := Function.update M.uses m l
    ring := M.ring.listAdd hm
    proper := fun c hc => by
      rcases List.mem_cons.mp hc with rfl | hc
      · rw [Function.update_self]
        exact hl
      · have hne : c ≠ m := fun heq => hm (heq ▸ List.mem_cons_of_mem _ hc)
        rw [Function.update_of_ne hne]
        exact M.proper c hc
    loaded := List.mem_cons_of_mem m M.loaded }

/-- With a module loaded since, the listing is wrong too. -/
theorem not_visits_load (M : Modules) {m : Ptr} {l : List Ptr}
    (hm : m ∉ M.anchor :: M.modules) (hl : M.Uses m l) : ¬ Visits (M.load m l hm hl) := by
  intro h
  have hring := (M.load m l hm hl).ring
  have hprev := (visits_iff _).mp h
  have hthis := (hring.next_prev (List.mem_cons_of_mem _ (M.load m l hm hl).loaded)).2
  rw [hprev] at hthis
  have hfirst := hring.chain
  rw [hthis] at hfirst
  have heq : M.this = m := by
    generalize hthis' : (M.load m l hm hl).this = first at hfirst
    cases hfirst with
    | cons _ => exact hthis'
  exact hm (heq ▸ List.mem_cons_of_mem _ M.loaded)

end LinuxSummary.Zmodule
