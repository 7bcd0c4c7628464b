/-
  Loading and unloading the character device modules `ofcd.c` (with CREATE_NODE),
  `hello_chrdev.c` and `ztest.c`.

  The kernel side is the registry of device numbers, cdevs, classes and device nodes, with the
  owner of each entry (`none` is somebody else). `class_create` and `device_create` report a
  failure as an error pointer, which the `!` of the sources does not see. A `Faults` says
  which calls of a load fail for reasons outside the module.

  `init_cases` says what an init can leave behind. `registrations_iff`: along a run every load
  and unload leaves the registry as it should exactly when each step meets `Allowed`: a load
  fails nowhere or in its first call, and `hello_chrdev`, whose exit destroys neither its
  device nor its class, is not unloaded.
-/
import LinuxSummary.Library.Machine
import LinuxSummary.Library.Text

namespace LinuxSummary.Chrdev

open Machine

inductive Module
  | ofcd
  | helloChrdev
  | ztest
deriving DecidableEq

/-- `DEVICE_NAME`, the name of the class as well. -/
def Module.deviceName : Module → Text
  | .ofcd => "Shyi".toList
  | .helloChrdev => "hello".toList
  | .ztest => "ztest".toList

/-! ## The kernel -/

/-- A module of the repository, or somebody else. -/
abbrev Owner := Option Module

structure Registry where
  /-- device numbers -/
  regions : List (Owner × Nat)
  cdevs : List (Owner × Nat)
  classes : List (Owner × Text)
  /-- device nodes, each in the class of its owner -/
  nodes : List (Owner × Nat)

/-- A pointer that a kernel function returns. -/
inductive Ptr
  | null
  | error
  | valid
deriving DecidableEq

/-- Which calls of a load fail for a reason outside the module, and with which error
    (`-(errno + 1)`). -/
structure Faults where
  allocChrdevRegion : Bool
  cdevAlloc : Bool
  cdevAdd : Bool
  classCreate : Bool
  deviceCreate : Bool
  errno : Nat

/-- The error code of a call that fails. -/
def Faults.error (flt : Faults) : Int := -(flt.errno + 1)

theorem Faults.error_neg (flt : Faults) : flt.error < 0 := by
  unfold Faults.error
  omega

theorem Faults.error_ne (flt : Faults) : flt.error ≠ 0 := flt.error_neg.ne

/-- The number for a dynamic region: one that is not in use. -/
def freshDev (r : Registry) : Nat := (r.regions.map (·.2)).foldr max 0 + 1

section
variable (m : Module) (flt : Faults) (r : Registry)

def allocChrdevRegion : Int × Nat × Registry :=
  if flt.allocChrdevRegion then (flt.error, 0, r)
  else (0, freshDev r, { r with regions := (some m, freshDev r) :: r.regions })

def cdevAlloc : Ptr := if flt.cdevAlloc then .null else .valid

def cdevAdd (dev : Nat) : Int × Registry :=
  if flt.cdevAdd then (flt.error, r)
  else (0, { r with cdevs := (some m, dev) :: r.cdevs })

def classCreate : Ptr × Registry :=
  if flt.classCreate = true ∨ m.deviceName ∈ r.classes.map (·.2) then (.error, r)
  else (.valid, { r with classes := (some m, m.deviceName) :: r.classes })

def deviceCreate (cls : Ptr) (dev : Nat) : Ptr × Registry :=
  if flt.deviceCreate = true ∨ cls ≠ .valid then (.error, r)
  else (.valid, { r with nodes := (some m, dev) :: r.nodes })

def cdevDel : Registry := { r with cdevs := r.cdevs.filter (·.1 ≠ some m) }

/-- None where the class is an error pointer, which is followed. -/
def deviceDestroy (cls : Ptr) (dev : Nat) : Option Registry :=
  if cls = .error then none
  else some { r with nodes := r.nodes.filter fun x => ¬ (x.1 = some m ∧ x.2 = dev) }

def classDestroy (cls : Ptr) : Registry :=
  if cls = .valid then { r with classes := r.classes.filter (·.1 ≠ some m) } else r

def unregisterChrdevRegion (dev : Nat) : Registry :=
  { r with regions := r.regions.filter (·.2 ≠ dev) }

end

/-! ## The modules -/

/-- The static variables of a module. -/
structure Vars where
  devT : Nat
  cls : Ptr

/-- `ofcd_init`, `ztest_init`: the value returned, the registry, and the variables. -/
def chrdevInit (m : Module) (flt : Faults) (r : Registry) : Int × Registry × Vars :=
  match allocChrdevRegion m flt r with
  | (ret, dev, r) =>
    if ret ≠ 0 then (-1, r, ⟨dev, .null⟩)
    else
      match cdevAdd m flt r dev with
      | (ret, r) =>
        if ret ≠ 0 then (-1, r, ⟨dev, .null⟩)
        else
          match classCreate m flt r with
          | (cls, r) =>
            if cls = .null then (-1, r, ⟨dev, cls⟩)
            else
              match deviceCreate m flt r cls dev with
              | (device, r) =>
                if device = .null then (-1, r, ⟨dev, cls⟩) else (0, r, ⟨dev, cls⟩)

def ofcdInit : Faults → Registry → Int × Registry × Vars := chrdevInit .ofcd

def ztestInit : Faults → Registry → Int × Registry × Vars := chrdevInit .ztest

/-- `-EFAULT` -/
def EFAULT : Int := 14

def helloInit (flt : Faults) (r : Registry) : Int × Registry × Vars :=
  match allocChrdevRegion .helloChrdev flt r with
  | (result, dev, r) =>
    if result < 0 then (result, r, ⟨dev, .null⟩)
    else if cdevAlloc flt = .null then (-EFAULT, r, ⟨dev, .null⟩)
    else
      match cdevAdd .helloChrdev flt r dev with
      | (result, r) =>
        if result < 0 then (result, r, ⟨dev, .null⟩)
        else
          match classCreate .helloChrdev flt r with
          | (cls, r) =>
            if cls = .null then (-EFAULT, r, ⟨dev, cls⟩)
            else
              match deviceCreate .helloChrdev flt r cls dev with
              | (device, r) =>
                if device = .null then (-EFAULT, r, ⟨dev, cls⟩) else (0, r, ⟨dev, cls⟩)

/-- `ofcd_exit`, `ztest_exit`; none where the exit follows an error pointer. -/
def chrdevExit (m : Module) (v : Vars) (r : Registry) : Option Registry :=
  (deviceDestroy m (cdevDel m r) v.cls v.devT).map fun r =>
    unregisterChrdevRegion (classDestroy m r v.cls) v.devT

def ofcdExit : Vars → Registry → Option Registry := chrdevExit .ofcd

def ztestExit : Vars → Registry → Option Registry := chrdevExit .ztest

def helloExit (v : Vars) (r : Registry) : Option Registry :=
  some (unregisterChrdevRegion (cdevDel .helloChrdev r) v.devT)

def init : Module → Faults → Registry → Int × Registry × Vars
  | .ofcd => ofcdInit
  | .helloChrdev => helloInit
  | .ztest => ztestInit

def exit : Module → Vars → Registry → Option Registry
  | .ofcd => ofcdExit
  | .helloChrdev => helloExit
  | .ztest => ztestExit

/-! ## Loads and unloads -/

structure State where
  reg : Registry
  /-- the variables of the modules that are loaded -/
  vars : Module → Option Vars
  /-- an exit has followed an error pointer -/
  oops : Bool

inductive Label
  | load (m : Module) (flt : Faults)
  | unload (m : Module)

/-- `insmod` keeps a module whose init returned 0; `rmmod` runs the exit of a loaded one. -/
def step (s : State) : Label → State
  | .load m flt =>
    match s.vars m with
    | some _ => s
    | none =>
      match init m flt s.reg with
      | (ret, r, v) =>
        { s with
          reg := r
          vars := if ret = 0 then Function.update s.vars m (some v) else s.vars }
  | .unload m =>
    match s.vars m with
    | none => s
    | some v =>
      match exit m v s.reg with
      | none => { s with oops := true }
      | some r => { s with reg := r, vars := Function.update s.vars m none }

/-- The entries of the module. -/
def Registry.own (r : Registry) (m : Module) : Registry where
  regions := r.regions.filter (·.1 = some m)
  cdevs := r.cdevs.filter (·.1 = some m)
  classes := r.classes.filter (·.1 = some m)
  nodes := r.nodes.filter (·.1 = some m)

/-- The registry has nothing of the module. -/
def Registry.Nothing (r : Registry) (m : Module) : Prop := r.own m = ⟨[], [], [], []⟩

/-- The registry has one entry of each kind of the module, and no more. -/
def Registry.Everything (r : Registry) (m : Module) (dev : Nat) : Prop :=
  r.own m = ⟨[(some m, dev)], [(some m, dev)], [(some m, m.deviceName)], [(some m, dev)]⟩

def Faults.none (flt : Faults) : Prop :=
  flt.allocChrdevRegion = false ∧ flt.cdevAlloc = false ∧ flt.cdevAdd = false ∧
    flt.classCreate = false ∧ flt.deviceCreate = false

/-- What a step has to do: an init that fails leaves nothing, one that returns 0 has registered
    everything, and where nothing outside fails it returns 0; an exit leaves nothing. -/
def Tidies (s : State) : Label → Prop
  | .load m flt => s.vars m = none →
    ((init m flt s.reg).1 ≠ 0 → (init m flt s.reg).2.1.Nothing m) ∧
    ((init m flt s.reg).1 = 0 →
      (init m flt s.reg).2.1.Everything m (init m flt s.reg).2.2.devT) ∧
    (flt.none → (∀ x ∈ s.reg.classes, x.1 ≠ some m → x.2 ≠ m.deviceName) →
      (init m flt s.reg).1 = 0)
  | .unload m => ∀ v, s.vars m = some v → ∃ r, exit m v s.reg = some r ∧ r.Nothing m

/-- A load fails in no call but the first, its class name is free, and `hello_chrdev` stays. -/
def Allowed (s : State) : Label → Prop
  | .load m flt => s.vars m = none → flt.allocChrdevRegion = true ∨
    (¬ (m = .helloChrdev ∧ flt.cdevAlloc = true) ∧ flt.cdevAdd = false ∧
      flt.classCreate = false ∧ m.deviceName ∉ s.reg.classes.map (·.2) ∧
      flt.deviceCreate = false)
  | .unload m => s.vars m ≠ none → m ≠ .helloChrdev

/-! ## What an init leaves behind -/

section
variable (m : Module) (flt : Faults) (r : Registry)

/-- The registry with the device number of a module, and with its cdev. -/
def Registry.added : Registry where
  regions := (some m, freshDev r) :: r.regions
  cdevs := (some m, freshDev r) :: r.cdevs
  classes := r.classes
  nodes := r.nodes

/-- The registry with all of a module in it. -/
def Registry.full : Registry where
  regions := (some m, freshDev r) :: r.regions
  cdevs := (some m, freshDev r) :: r.cdevs
  classes := (some m, m.deviceName) :: r.classes
  nodes := (some m, freshDev r) :: r.nodes

variable {m flt r}

theorem alloc_failed (h : flt.allocChrdevRegion = true) :
    allocChrdevRegion m flt r = (flt.error, 0, r) := if_pos h

theorem alloc_ok (h : flt.allocChrdevRegion = false) :
    allocChrdevRegion m flt r =
      (0, freshDev r, { r with regions := (some m, freshDev r) :: r.regions }) :=
  if_neg (by simp [h])

theorem cdevAdd_failed {dev : Nat} (h : flt.cdevAdd = true) :
    cdevAdd m flt r dev = (flt.error, r) := if_pos h

theorem cdevAdd_ok (h : flt.cdevAdd = false) :
    cdevAdd m flt { r with regions := (some m, freshDev r) :: r.regions } (freshDev r) =
      (0, r.added m) :=
  if_neg (by simp [h])

theorem classCreate_failed (h : flt.classCreate = true ∨ m.deviceName ∈ r.classes.map (·.2)) :
    classCreate m flt (r.added m) = (.error, r.added m) := if_pos h

theorem classCreate_ok (h : ¬ (flt.classCreate = true ∨ m.deviceName ∈ r.classes.map (·.2))) :
    classCreate m flt (r.added m) =
      (.valid, { r.added m with classes := (some m, m.deviceName) :: r.classes }) := if_neg h

theorem deviceCreate_failed {cls : Ptr} {dev : Nat}
    (h : flt.deviceCreate = true ∨ cls ≠ .valid) :
    deviceCreate m flt r cls dev = (.error, r) := if_pos h

theorem deviceCreate_ok (h : flt.deviceCreate = false) :
    deviceCreate m flt { r.added m with classes := (some m, m.deviceName) :: r.classes } .valid
      (freshDev r) = (.valid, r.full m) :=
  if_neg (by simp [h])

/-- An init fails at once; or it fails with the device number left; or it returns 0 without a
    device node; or it has registered everything. -/
def InitEnds (m : Module) (flt : Faults) (r : Registry) (res : Int × Registry × Vars) : Prop :=
  (flt.allocChrdevRegion = true ∧ res.1 ≠ 0 ∧ res.2.1 = r) ∨
  (flt.allocChrdevRegion = false ∧
    ((m = .helloChrdev ∧ flt.cdevAlloc = true) ∨ flt.cdevAdd = true) ∧
    res.1 ≠ 0 ∧ res.2.1.regions = (some m, freshDev r) :: r.regions) ∨
  (flt.allocChrdevRegion = false ∧
    (flt.classCreate = true ∨ m.deviceName ∈ r.classes.map (·.2) ∨ flt.deviceCreate = true) ∧
    res.1 = 0 ∧ res.2.1.nodes = r.nodes) ∨
  (flt.allocChrdevRegion = false ∧ ¬ (m = .helloChrdev ∧ flt.cdevAlloc = true) ∧
    flt.cdevAdd = false ∧ flt.classCreate = false ∧ m.deviceName ∉ r.classes.map (·.2) ∧
    flt.deviceCreate = false ∧ res = (0, r.full m, ⟨freshDev r, .valid⟩))

variable (m flt r)

theorem chrdevInit_ends (hm : m ≠ .helloChrdev) : InitEnds m flt r (chrdevInit m flt r) := by
  have hcdev : ¬ (m = .helloChrdev ∧ flt.cdevAlloc = true) := fun h => hm h.1
  have hne := flt.error_ne
  unfold InitEnds
  cases ha : flt.allocChrdevRegion with
  | true =>
    refine .inl ⟨rfl, ?_⟩
    simp only [chrdevInit, alloc_failed ha, if_pos hne]
    exact ⟨by decide, trivial⟩
  | false =>
    right
    cases hadd : flt.cdevAdd with
    | true =>
      refine .inl ⟨rfl, .inr rfl, ?_⟩
      simp only [chrdevInit, alloc_ok ha, cdevAdd_failed hadd, if_pos hne]
      exact ⟨show (-1 : Int) ≠ 0 by decide, rfl⟩
    | false =>
      right
      by_cases hclass : flt.classCreate = true ∨ m.deviceName ∈ r.classes.map (·.2)
      · -- the error pointer of the class goes on to `device_create`, which fails in turn
        refine .inl ⟨rfl, by tauto, ?_⟩
        simp only [chrdevInit, alloc_ok ha, cdevAdd_ok hadd, classCreate_failed hclass]
        rw [deviceCreate_failed (.inr (by decide))]
        exact ⟨rfl, rfl⟩
      · cases hd : flt.deviceCreate with
        | true =>
          refine .inl ⟨rfl, .inr (.inr rfl), ?_⟩
          simp only [chrdevInit, alloc_ok ha, cdevAdd_ok hadd, classCreate_ok hclass]
          rw [deviceCreate_failed (.inl hd)]
          exact ⟨rfl, rfl⟩
        | false =>
          have hfree := hclass
          rw [not_or, Bool.not_eq_true] at hfree
          refine .inr ⟨rfl, hcdev, rfl, hfree.1, hfree.2, rfl, ?_⟩
          simp only [chrdevInit, alloc_ok ha, cdevAdd_ok hadd, classCreate_ok hclass]
          rw [deviceCreate_ok hd]
          rfl

theorem helloInit_ends : InitEnds .helloChrdev flt r (helloInit flt r) := by
  have hneg := flt.error_neg
  unfold InitEnds
  cases ha : flt.allocChrdevRegion with
  | true =>
    refine .inl ⟨rfl, ?_⟩
    simp only [helloInit, alloc_failed ha, if_pos hneg]
    exact ⟨hneg.ne, trivial⟩
  | false =>
    right
    cases hc : flt.cdevAlloc with
    | true =>
      refine .inl ⟨rfl, .inl ⟨rfl, rfl⟩, ?_⟩
      have hnull : cdevAlloc flt = .null := if_pos hc
      simp only [helloInit, alloc_ok ha, hnull]
      exact ⟨show -EFAULT ≠ 0 by decide, rfl⟩
    | false =>
      have hvalid : cdevAlloc flt = .valid := if_neg (by simp [hc])
      cases hadd : flt.cdevAdd with
      | true =>
        refine .inl ⟨rfl, .inr rfl, ?_⟩
        simp only [helloInit, alloc_ok ha, hvalid, cdevAdd_failed hadd, if_pos hneg]
        exact ⟨show flt.error ≠ 0 from hneg.ne, rfl⟩
      | false =>
        right
        by_cases hclass : flt.classCreate = true ∨
            Module.helloChrdev.deviceName ∈ r.classes.map (·.2)
        · refine .inl ⟨rfl, by tauto, ?_⟩
          simp only [helloInit, alloc_ok ha, hvalid, cdevAdd_ok hadd,
            classCreate_failed hclass]
          rw [deviceCreate_failed (.inr (by decide))]
          exact ⟨rfl, rfl⟩
        · cases hd : flt.deviceCreate with
          | true =>
            refine .inl ⟨rfl, .inr (.inr rfl), ?_⟩
            simp only [helloInit, alloc_ok ha, hvalid, cdevAdd_ok hadd,
              classCreate_ok hclass]
            rw [deviceCreate_failed (.inl hd)]
            exact ⟨rfl, rfl⟩
          | false =>
            have hfree := hclass
            rw [not_or, Bool.not_eq_true] at hfree
            refine .inr ⟨rfl, by simp, rfl, hfree.1, hfree.2, rfl, ?_⟩
            simp only [helloInit, alloc_ok ha, hvalid, cdevAdd_ok hadd, classCreate_ok hclass]
            rw [deviceCreate_ok hd]
            rfl

theorem init_cases : InitEnds m flt r (init m flt r) := by
  cases m with
  | ofcd => exact chrdevInit_ends .ofcd flt r (by decide)
  | helloChrdev => exact helloInit_ends flt r
  | ztest => exact chrdevInit_ends .ztest flt r (by decide)

end

/-! ## The registry between the steps -/

/-- Device numbers are not shared, a module that is not loaded owns nothing, and a loaded one
    has everything registered under its own variables. -/
structure Tidy (s : State) : Prop where
  devs : (s.reg.regions.map (·.2)).Nodup
  unloaded : ∀ m, s.vars m = none → s.reg.Nothing m
  loaded : ∀ m v, s.vars m = some v → s.reg.Everything m v.devT ∧ v.cls = .valid

theorem lt_freshDev {r : Registry} {x : Owner × Nat} (h : x ∈ r.regions) : x.2 < freshDev r := by
  have hmax : ∀ (l : List Nat) (n : Nat), n ∈ l → n ≤ l.foldr max 0 := by
    intro l
    induction l with
    | nil => exact fun n hn => absurd hn (by simp)
    | cons a l ih =>
      intro n hn
      rw [List.foldr_cons]
      rcases List.mem_cons.mp hn with rfl | hn
      · exact Nat.le_max_left _ _
      · exact (ih n hn).trans (Nat.le_max_right _ _)
  have := hmax _ _ (List.mem_map_of_mem (f := (·.2)) h)
  unfold freshDev
  omega

section
variable {m m' : Module} {r : Registry}

theorem full_everything (h : r.Nothing m) : (r.full m).Everything m (freshDev r) := by
  obtain ⟨h1, h2, h3, h4⟩ := Registry.mk.inj h
  simp [Registry.Everything, Registry.own, Registry.full, h1, h2, h3, h4]

theorem full_own (hne : m' ≠ m) : (r.full m).own m' = r.own m' := by
  have : some m ≠ some m' := fun h => hne (Option.some.inj h).symm
  simp [Registry.own, Registry.full, this]

/-- What the exit of a module with everything registered leaves. -/
theorem chrdevExit_eq {v : Vars} (hcls : v.cls = .valid) :
    chrdevExit m v r = some
      ⟨r.regions.filter (·.2 ≠ v.devT), r.cdevs.filter (·.1 ≠ some m),
        r.classes.filter (·.1 ≠ some m),
        r.nodes.filter fun x => ¬ (x.1 = some m ∧ x.2 = v.devT)⟩ := by
  simp [chrdevExit, deviceDestroy, hcls, cdevDel, classDestroy, unregisterChrdevRegion]

theorem filter_own_ne {α : Type} (l : List (Owner × α)) :
    (l.filter (·.1 ≠ some m)).filter (·.1 = some m) = [] := by
  rw [List.filter_filter, List.filter_eq_nil_iff]
  intro x _
  simp

theorem filter_other_ne {α : Type} (l : List (Owner × α)) (hne : m' ≠ m) :
    (l.filter (·.1 ≠ some m)).filter (·.1 = some m') = l.filter (·.1 = some m') := by
  rw [List.filter_filter]
  refine List.filter_congr fun x _ => ?_
  by_cases hx : x.1 = some m'
  · simp [hx, hne]
  · simp [hx]

theorem chrdevExit_nothing {v : Vars} (h : r.Everything m v.devT) :
    Registry.Nothing
      ⟨r.regions.filter (·.2 ≠ v.devT), r.cdevs.filter (·.1 ≠ some m),
        r.classes.filter (·.1 ≠ some m),
        r.nodes.filter fun x => ¬ (x.1 = some m ∧ x.2 = v.devT)⟩ m := by
  obtain ⟨h1, -, -, h4⟩ := Registry.mk.inj h
  have hregions : (r.regions.filter (·.2 ≠ v.devT)).filter (·.1 = some m) = [] := by
    rw [List.filter_comm, h1]
    simp
  have hnodes : (r.nodes.filter fun x => ¬ (x.1 = some m ∧ x.2 = v.devT)).filter
      (·.1 = some m) = [] := by
    rw [List.filter_comm, h4]
    simp
  simp only [Registry.Nothing, Registry.own, hregions, hnodes, filter_own_ne]

/-- An exit leaves the entries of the other modules, whose device numbers are others. -/
theorem chrdevExit_own {v : Vars} (hdevs : (r.regions.map (·.2)).Nodup)
    (h : r.Everything m v.devT) (hne : m' ≠ m) :
    Registry.own
      ⟨r.regions.filter (·.2 ≠ v.devT), r.cdevs.filter (·.1 ≠ some m),
        r.classes.filter (·.1 ≠ some m),
        r.nodes.filter fun x => ¬ (x.1 = some m ∧ x.2 = v.devT)⟩ m' = r.own m' := by
  obtain ⟨h1, -⟩ := Registry.mk.inj h
  have hin : (some m, v.devT) ∈ r.regions := by
    have : (some m, v.devT) ∈ r.regions.filter (·.1 = some m) := by rw [h1]; simp
    exact List.mem_of_mem_filter this
  have hregions : (r.regions.filter (·.2 ≠ v.devT)).filter (·.1 = some m') =
      r.regions.filter (·.1 = some m') := by
    rw [List.filter_filter]
    refine List.filter_congr fun x hx => ?_
    by_cases hown : x.1 = some m'
    · have hdev : x.2 ≠ v.devT := by
        intro heq
        have := List.inj_on_of_nodup_map hdevs hx hin heq
        rw [this] at hown
        exact hne (Option.some.inj hown).symm
      simp [hown, hdev]
    · simp [hown]
  have hnodes : (r.nodes.filter fun x => ¬ (x.1 = some m ∧ x.2 = v.devT)).filter
      (·.1 = some m') = r.nodes.filter (·.1 = some m') := by
    rw [List.filter_filter]
    refine List.filter_congr fun x _ => ?_
    by_cases hown : x.1 = some m'
    · have : x.1 ≠ some m := fun h => hne (Option.some.inj (hown.symm.trans h))
      simp [hown, hne]
    · simp [hown]
  simp only [Registry.own, hregions, hnodes, filter_other_ne _ hne]

end

/-! ## Steps and runs -/

section
variable {s : State}

/-- A load leaves nothing or everything, unless a call behind the first fails. -/
theorem tidies_load_iff (h : Tidy s) (m : Module) (flt : Faults) :
    Tidies s (.load m flt) ↔ Allowed s (.load m flt) := by
  unfold Tidies Allowed
  refine forall_congr' fun hm => ?_
  have hnothing := h.unloaded m hm
  rcases init_cases m flt s.reg with ⟨ha, hret, hreg⟩ | ⟨ha, hearly, hret, hreg⟩ |
    ⟨ha, hlate, hret, hreg⟩ | ⟨ha, hcdev, hadd, hclass, hfree, hdevice, hres⟩
  · refine iff_of_true ⟨fun _ => by rw [hreg]; exact hnothing, fun h0 => absurd h0 hret,
      fun hnone => ?_⟩ (.inl ha)
    rw [hnone.1] at ha
    exact absurd ha (by simp)
  · refine iff_of_false (fun ht => ?_) ?_
    · have := (Registry.mk.inj (ht.1 hret)).1
      rw [hreg] at this
      simp at this
    · rw [ha]
      intro h
      rcases h with hc | ⟨hno, hadd, -⟩
      · exact absurd hc (by simp)
      · rcases hearly with hc | hc
        · exact hno hc
        · rw [hadd] at hc
          exact absurd hc (by simp)
  · refine iff_of_false (fun ht => ?_) ?_
    · have hnodes := (Registry.mk.inj (ht.2.1 hret)).2.2.2
      rw [hreg, (Registry.mk.inj hnothing).2.2.2] at hnodes
      exact absurd hnodes (by simp)
    · rw [ha]
      intro h
      rcases h with hc | ⟨-, -, hclass, hfree, hdevice⟩
      · exact absurd hc (by simp)
      · rcases hlate with hc | hc | hc
        · rw [hclass] at hc
          exact absurd hc (by simp)
        · exact hfree hc
        · rw [hdevice] at hc
          exact absurd hc (by simp)
  · rw [hres]
    exact iff_of_true ⟨fun hne => absurd rfl hne, fun _ => full_everything hnothing,
      fun _ _ => rfl⟩ (.inr ⟨hcdev, hadd, hclass, hfree, hdevice⟩)

/-- An unload leaves nothing, unless it is the one that keeps its class. -/
theorem tidies_unload_iff (h : Tidy s) (m : Module) :
    Tidies s (.unload m) ↔ Allowed s (.unload m) := by
  have hexit : m ≠ .helloChrdev → exit m = chrdevExit m := by
    intro hne
    cases m with
    | ofcd => rfl
    | helloChrdev => exact absurd rfl hne
    | ztest => rfl
  unfold Tidies Allowed
  constructor
  · intro ht hloaded hm
    obtain ⟨v, hv⟩ := Option.ne_none_iff_exists'.mp hloaded
    obtain ⟨r, hr, hnothing⟩ := ht v hv
    subst hm
    -- `hello_exit` keeps the class
    obtain rfl := Option.some.inj hr
    have hclasses := (Registry.mk.inj (h.loaded _ v hv).1).2.2.1
    have hgone := (Registry.mk.inj hnothing).2.2.1
    exact absurd (hgone.symm.trans hclasses) (by simp)
  · intro hne v hv
    obtain ⟨hevery, hcls⟩ := h.loaded m v hv
    rw [hexit (hne (by rw [hv]; simp)), chrdevExit_eq hcls]
    exact ⟨_, rfl, chrdevExit_nothing hevery⟩

/-- In a tidy state a step does what it has to exactly when it is an allowed one. -/
theorem tidies_iff (h : Tidy s) (l : Label) : Tidies s l ↔ Allowed s l := by
  cases l with
  | load m flt => exact tidies_load_iff h m flt
  | unload m => exact tidies_unload_iff h m

theorem tidy_load (h : Tidy s) {m : Module} {flt : Faults} (hm : s.vars m = none)
    (hok : Allowed s (.load m flt)) : Tidy (step s (.load m flt)) := by
  rcases init_cases m flt s.reg with ⟨-, hret, hreg⟩ | ⟨ha, hearly, -⟩ | ⟨ha, hlate, -⟩ |
    ⟨-, -, -, -, -, -, hres⟩
  · have hstep : step s (.load m flt) = s := by
      simp only [step, hm, if_neg hret, hreg]
    rw [hstep]
    exact h
  · rcases hok hm with hc | ⟨hno, hadd, -⟩
    · rw [ha] at hc
      exact absurd hc (by simp)
    · rcases hearly with hc | hc
      · exact absurd hc hno
      · rw [hadd] at hc
        exact absurd hc (by simp)
  · rcases hok hm with hc | ⟨-, -, hclass, hfree, hdevice⟩
    · rw [ha] at hc
      exact absurd hc (by simp)
    · rcases hlate with hc | hc | hc
      · rw [hclass] at hc
        exact absurd hc (by simp)
      · exact absurd hc hfree
      · rw [hdevice] at hc
        exact absurd hc (by simp)
  · have hstep : step s (.load m flt) =
        ⟨s.reg.full m, Function.update s.vars m (some ⟨freshDev s.reg, .valid⟩), s.oops⟩ := by
      simp only [step, hm, hres, if_true]
    rw [hstep]
    refine ⟨?_, fun m' hm' => ?_, fun m' v hm' => ?_⟩
    · show ((some m, freshDev s.reg) :: s.reg.regions |>.map (·.2)).Nodup
      rw [List.map_cons, List.nodup_cons]
      refine ⟨fun hin => ?_, h.devs⟩
      obtain ⟨x, hx, heq⟩ := List.mem_map.mp hin
      have := lt_freshDev hx
      omega
    · by_cases hne : m' = m
      · subst hne
        exact absurd hm' (by simp)
      · have hold := h.unloaded m' ((Function.update_of_ne hne _ s.vars).symm.trans hm')
        exact (full_own hne).trans hold
    · by_cases hne : m' = m
      · subst hne
        obtain rfl := Option.some.inj ((Function.update_self m' _ s.vars).symm.trans hm')
        exact ⟨full_everything (h.unloaded m' hm), rfl⟩
      · have hold := h.loaded m' v ((Function.update_of_ne hne _ s.vars).symm.trans hm')
        exact ⟨(full_own hne).trans hold.1, hold.2⟩

theorem tidy_unload (h : Tidy s) {m : Module} {v : Vars} (hv : s.vars m = some v)
    (hm : m ≠ .helloChrdev) : Tidy (step s (.unload m)) := by
  obtain ⟨hevery, hcls⟩ := h.loaded m v hv
  have hexit : exit m v s.reg = chrdevExit m v s.reg := by
    cases m with
    | ofcd => rfl
    | helloChrdev => exact absurd rfl hm
    | ztest => rfl
  have hstep : step s (.unload m) =
      ⟨⟨s.reg.regions.filter (·.2 ≠ v.devT), s.reg.cdevs.filter (·.1 ≠ some m),
        s.reg.classes.filter (·.1 ≠ some m),
        s.reg.nodes.filter fun x => ¬ (x.1 = some m ∧ x.2 = v.devT)⟩,
        Function.update s.vars m none, s.oops⟩ := by
    simp only [step, hv, hexit, chrdevExit_eq hcls]
  rw [hstep]
  refine ⟨h.devs.sublist (List.filter_sublist.map _), fun m' hm' => ?_, fun m' v' hm' => ?_⟩
  · by_cases hne : m' = m
    · subst hne
      exact chrdevExit_nothing hevery
    · have hold := h.unloaded m' ((Function.update_of_ne hne _ s.vars).symm.trans hm')
      exact (chrdevExit_own h.devs hevery hne).trans hold
  · by_cases hne : m' = m
    · subst hne
      exact absurd hm' (by simp)
    · have hold := h.loaded m' v' ((Function.update_of_ne hne _ s.vars).symm.trans hm')
      exact ⟨(chrdevExit_own h.devs hevery hne).trans hold.1, hold.2⟩

theorem tidy_step (h : Tidy s) (l : Label) (hok : Allowed s l) : Tidy (step s l) := by
  cases l with
  | load m flt =>
    cases hm : s.vars m with
    | none => exact tidy_load h hm hok
    | some v =>
      have hstep : step s (.load m flt) = s := by simp only [step, hm]
      rw [hstep]
      exact h
  | unload m =>
    cases hm : s.vars m with
    | none =>
      have hstep : step s (.unload m) = s := by simp only [step, hm]
      rw [hstep]
      exact h
    | some v => exact tidy_unload h hm (hok (by rw [hm]; simp))

end

/-- **No registration is left behind along a run exactly when each step is an allowed one.** -/
theorem registrations_iff {s : State} (h : Tidy s) (ls : List Label) :
    Along Tidies step s ls ↔ Along Allowed step s ls :=
  along_congr (P := Tidies) (G := Allowed) (I := Tidy) (fun _ l hs => tidies_iff hs l)
    (fun _ l hs hok => tidy_step hs l hok) h ls

/-- A machine without any of the modules. -/
def bare : State := ⟨⟨[], [], [], []⟩, fun _ => none, false⟩

theorem tidy_bare : Tidy bare :=
  ⟨List.nodup_nil, fun _ _ => rfl, fun _ _ h => absurd h (by simp [bare])⟩

/-- No call fails. -/
def fine : Faults := ⟨false, false, false, false, false, 11⟩

/-- `ofcd` is loaded, unloaded and loaded again. -/
theorem registrations_ofcd : Along Tidies step bare [.load .ofcd fine, .unload .ofcd,
    .load .ofcd fine] := by
  refine (registrations_iff tidy_bare _).mpr ⟨fun _ => ?_, fun _ => ?_, fun _ => ?_, trivial⟩
  · exact .inr ⟨by decide, rfl, rfl, by simp [bare], rfl⟩
  · decide
  · exact .inr ⟨by decide, rfl, rfl, by decide, rfl⟩

/-- `ofcd` is loaded while `cdev_add` fails: the device number stays. -/
theorem not_tidies_cdev_add : ¬ Along Tidies step bare
    [.load .ofcd { fine with cdevAdd := true }] := by
  intro h
  have hnothing := (h.1 rfl).1 (by decide)
  exact absurd (Registry.mk.inj hnothing).1 (by decide)

end LinuxSummary.Chrdev
