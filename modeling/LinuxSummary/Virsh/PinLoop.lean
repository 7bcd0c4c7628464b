/-
  The scripts `vcpupin-ssh-virsh.py` and `virsh-ssh.py`: pin the instances of a host to its nodes.

  Each line of `virsh list` with `instance` in it is one instance. The counter `node` chooses the
  CPUs: of the emulator in `numainfos`, of the vcpus in a table of 16 for each node, or again in
  `numainfos`. Both tables have two nodes, and nothing stops the counter there.

  The two scripts differ in the table of the vcpus (`VcpuTable`). `handles_iff_fits` is about both
  of them: a host is handled exactly when it has at most two instances, each with a name.
-/
import LinuxSummary.Library.Python

namespace LinuxSummary.Virsh

open Python Python.Script

/-! ## The scripts -/

def targets : List Text :=
  ["172.18.211.22", "172.18.211.20", "172.18.211.21", "172.18.211.27", "172.18.211.9",
    "172.18.211.18", "172.18.211.17", "172.18.211.15", "172.18.211.12", "172.18.211.11",
    "172.18.211.10"].map String.toList

def numainfos : List Text := ["0-7,16-23".toList, "8-15,24-31".toList]

def cacheindex2 : List Text :=
  ["0,16", "0,16", "1,17", "1,17", "2,18", "2,18", "3,19", "3,19", "4,20", "4,20", "5,21", "5,21",
    "6,22", "6,22", "7,23", "7,23", "8,24", "8,24", "9,25", "9,25", "10,26", "10,26", "11,27",
    "11,27", "12,28", "12,28", "13,29", "13,29", "14,30", "14,30", "15,31", "15,31"].map
      String.toList

/-- What a script does: print the name and the host, or run a command. -/
inductive Action
  | print (domName target : Text)
  | vcpupin (target domName : Text) (vcpu : Nat) (cpus : Text)
  | emulatorpin (target domName cpus : Text)

/-- The CPUs of a vcpu, by the node and the number of the vcpu. -/
abbrev VcpuTable := Nat → Nat → Except Exn Text

/-- `cacheindex2[node*16 + i]` -/
def byCache : VcpuTable := fun node i => getItem cacheindex2 (node * 16 + i : Nat)

/-- `numainfos[node]` -/
def byNode : VcpuTable := fun node _ => getItem numainfos node

/-- `range(15)` -/
def vcpus : List Nat := List.range 15

def isInstance (line : Text) : Bool := Text.occursIn "instance".toList line

/-- The pin commands of an instance. -/
def pin (table : VcpuTable) (target domName : Text) (node : Nat) : Script Action Unit := do
  vcpus.forM fun i => do
    let cpus ← eval (table node i)
    emit (.vcpupin target domName i cpus)
  let cpus ← eval (getItem numainfos node)
  emit (.emulatorpin target domName cpus)

/-- A turn of the loop over the lines. -/
def pinLine (table : VcpuTable) (target : Text) (node : Nat) (line : Text) : Script Action Nat :=
  if isInstance line then do
    let domName ← eval (getItem (words line) 1)
    emit (.print domName target)
    pin table target domName node
    pure (node + 1)
  else pure node

def pinHost (table : VcpuTable) (target : Text) (lines : List Text) : Script Action Unit := do
  let _ ← lines.foldlM (pinLine table target) 0
  pure ()

/-- `output` is what `virsh list` prints for a host. -/
def main (table : VcpuTable) (output : Text → List Text) : Script Action Unit :=
  targets.forM fun target => pinHost table target (output target)

/-- The command as the shell gets it. -/
def Action.command : Action → Option Text
  | .print _ _ => none
  | .vcpupin target domName vcpu cpus =>
    some ("virsh -c qemu+ssh://".toList ++ target ++ "/system vcpupin ".toList ++ domName ++
      " ".toList ++ Printf.udec vcpu ++ " ".toList ++ cpus)
  | .emulatorpin target domName cpus =>
    some ("virsh -c qemu+ssh://".toList ++ target ++ "/system emulatorpin ".toList ++ domName ++
      " ".toList ++ cpus)

/-- What is left to the shell, in order. -/
def commands (p : Script Action Unit) : List Text := p.trace.filterMap Action.command

/-! ## Sets of CPUs -/

/-- The CPUs of a list such as `0-7,16-23`. -/
def cpuSet (s : Text) : List Nat :=
  (s.splitOn ',').flatMap fun part =>
    match (part.splitOn '-').map (Numeral.value 10) with
    | [a] => [a]
    | [a, b] => List.range' a (b + 1 - a)
    | _ => []

theorem cpuSet_numainfos : numainfos.map cpuSet =
    [List.range' 0 8 ++ List.range' 16 8, List.range' 8 8 ++ List.range' 24 8] := by rfl

theorem cpuSet_cacheindex2 : cacheindex2.map cpuSet =
    (List.range 32).map fun i => [i / 2, 16 + i / 2] := by rfl

/-- The CPUs of a node. -/
def nodeCpus (node : Nat) : List Nat := List.range' (8 * node) 8 ++ List.range' (16 + 8 * node) 8

theorem disjoint_nodeCpus {m n : Nat} (hm : m < 2) (hn : n < 2) (h : m ≠ n) :
    (nodeCpus m).Disjoint (nodeCpus n) := by
  intro c hc hc'
  simp only [nodeCpus, List.mem_append, List.mem_range'_1] at hc hc'
  omega

theorem getItem_numainfos {node : Nat} {info : Text} (h : getItem numainfos node = .ok info) :
    node < 2 ∧ cpuSet info = nodeCpus node := by
  have hsome := getItem_nat_eq_ok_iff.mp h
  have hlt : node < 2 := by
    by_contra hge
    rw [List.getElem?_eq_none (show numainfos.length ≤ node by
      have : numainfos.length = 2 := rfl
      omega)] at hsome
    exact absurd hsome (by simp)
  have hset := congrArg (·[node]?) cpuSet_numainfos
  simp only [List.getElem?_map, hsome, Option.map_some] at hset
  refine ⟨hlt, ?_⟩
  interval_cases node
  · exact Option.some.inj hset
  · exact Option.some.inj hset

/-! ## What a host needs -/

/-- The commands that pin one instance. -/
structure Pinned where
  domName : Text
  vcpus : List Text
  emulator : Text

def Pinned.actions (target : Text) (p : Pinned) : List Action :=
  .print p.domName target ::
    ((p.vcpus.zipIdx.map fun c => .vcpupin target p.domName c.2 c.1) ++
      [.emulatorpin target p.domName p.emulator])

/-- Every listed instance is pinned, its vcpus inside the CPUs of its emulator; and where there
    are nodes enough, those of different instances have no CPU in common. -/
structure Right (lines : List Text) (pins : List Pinned) : Prop where
  names : pins.map (fun p => some p.domName) = (lines.filter isInstance).map fun l => (words l)[1]?
  count : ∀ p ∈ pins, p.vcpus.length = 15
  inside : ∀ p ∈ pins, ∀ c ∈ p.vcpus, cpuSet c ⊆ cpuSet p.emulator
  apart : pins.length ≤ numainfos.length →
    pins.Pairwise fun p q => ∀ c ∈ p.vcpus, ∀ d ∈ q.vcpus, (cpuSet c).Disjoint (cpuSet d)

/-- The host is finished without an exception, with the right pin commands. -/
def Handles (table : VcpuTable) (target : Text) (lines : List Text) : Prop :=
  ∃ pins, pinHost table target lines = ⟨pins.flatMap (Pinned.actions target), .ok ()⟩ ∧
    Right lines pins

/-- A table that has CPUs of the node for each vcpu. -/
def Serves (table : VcpuTable) : Prop :=
  ∀ (node : Nat) (info : Text), getItem numainfos node = .ok info → ∀ i ∈ vcpus,
    ∃ c, table node i = .ok c ∧ cpuSet c ⊆ cpuSet info

theorem serves_byNode : Serves byNode := fun _ info h _ _ => ⟨info, h, fun _ hc => hc⟩

theorem serves_byCache : Serves byCache := by
  intro node info h i hi
  obtain ⟨hnode, hinfo⟩ := getItem_numainfos h
  have hi : i < 15 := List.mem_range.mp hi
  have hlt : node * 16 + i < cacheindex2.length := by
    have : cacheindex2.length = 32 := rfl
    omega
  have hset := congrArg (·[node * 16 + i]?) cpuSet_cacheindex2
  simp only [List.getElem?_map, List.getElem?_eq_getElem hlt, Option.map_some,
    List.getElem?_range (show node * 16 + i < 32 by omega), Option.some.injEq] at hset
  refine ⟨_, getItem_nat_eq_ok_iff.mpr (List.getElem?_eq_getElem hlt), ?_⟩
  rw [hset, hinfo]
  intro c hc
  simp only [List.mem_cons, List.not_mem_nil, or_false] at hc
  simp only [nodeCpus, List.mem_append, List.mem_range'_1]
  omega

/-! ## One instance -/

/-- The CPUs of a vcpu and of an emulator, where there are some. -/
def cpusOf (table : VcpuTable) (node i : Nat) : Text := (table node i).toOption.getD []
def infoOf (node : Nat) : Text := (getItem numainfos node).toOption.getD []

def nameOf (line : Text) : Text := (words line)[1]?.getD []

/-- What an instance gets at a node. -/
def pinned (table : VcpuTable) (node : Nat) (line : Text) : Pinned :=
  ⟨nameOf line, vcpus.map (cpusOf table node), infoOf node⟩

theorem getItem_infoOf {node : Nat} (h : node < 2) :
    getItem numainfos node = .ok (infoOf node) := by
  interval_cases node <;> rfl

theorem zipIdx_vcpus (f : Nat → Text) :
    (vcpus.map f).zipIdx = vcpus.map fun i => (f i, i) := by
  rfl

section
variable {table : VcpuTable} (target : Text) {node : Nat}

theorem pin_ok (htable : Serves table) (hnode : node < 2) (line : Text) :
    pin table target (nameOf line) node =
      ⟨(vcpus.map fun i => .vcpupin target (nameOf line) i (cpusOf table node i)) ++
        [.emulatorpin target (nameOf line) (infoOf node)], .ok ()⟩ := by
  have hvcpu : ∀ i ∈ vcpus, (eval (table node i) >>= fun cpus =>
      emit (.vcpupin target (nameOf line) i cpus)) =
        (⟨[.vcpupin target (nameOf line) i (cpusOf table node i)], .ok ()⟩ :
          Script Action Unit) := by
    intro i hi
    obtain ⟨c, hc, -⟩ := htable node _ (getItem_infoOf hnode) i hi
    rw [cpusOf, hc]
    rfl
  rw [pin, forM_ok hvcpu, ok_bind, getItem_infoOf hnode, eval_ok_bind, ← List.map_eq_flatMap]
  rfl

/-- From the third node on there are no CPUs to pin to. -/
theorem pin_error (table : VcpuTable) (domName : Text) (hnode : 2 ≤ node) :
    ∃ e, (pin table target domName node).result = .error e := by
  apply bind_result_right
  intro _
  have hlen : numainfos.length ≤ node := hnode
  rw [getItem_nat_error hlen]
  exact ⟨.indexError, rfl⟩

variable {line : Text} (hline : isInstance line = true)
include hline

theorem pinLine_ok (htable : Serves table) (hnode : node < 2) (hwords : 2 ≤ (words line).length) :
    pinLine table target node line =
      ⟨(pinned table node line).actions target, .ok (node + 1)⟩ := by
  have hname : getItem (words line) 1 = .ok (nameOf line) := by
    have hsome := List.getElem?_eq_getElem (l := words line) (i := 1) (by omega)
    have hitem := getItem_nat_eq_ok_iff.mpr hsome
    rw [nameOf, hsome]
    exact hitem
  rw [pinLine, if_pos hline, hname, eval_ok_bind, emit_bind, pin_ok target htable hnode, ok_bind]
  simp only [pinned, Pinned.actions, zipIdx_vcpus, List.map_map, pure_eq, List.append_nil]
  rfl

theorem pinLine_error (table : VcpuTable) (h : 2 ≤ node ∨ (words line).length < 2) :
    ∃ e, (pinLine table target node line).result = .error e := by
  rw [pinLine, if_pos hline]
  rcases h with hnode | hwords
  · apply bind_result_right
    intro domName
    apply bind_result_right
    intro _
    obtain ⟨e, he⟩ := pin_error target table domName hnode
    exact ⟨e, bind_result_error he _⟩
  · have hname : getItem (words line) (1 : Nat) = .error .indexError :=
      getItem_nat_error (by omega)
    exact ⟨.indexError, bind_result_error (congrArg (fun r => (eval r : Script Action _).result)
      hname) _⟩

end

/-! ## One host -/

/-- What the instances get, from a node on. -/
def pinnedFrom (table : VcpuTable) : Nat → List Text → List Pinned
  | _, [] => []
  | node, line :: lines => pinned table node line :: pinnedFrom table (node + 1) lines

/-- Lines without an instance change nothing. -/
theorem pinLine_skip (table : VcpuTable) (target : Text) (line : Text)
    (hline : isInstance line = false) (node : Nat) :
    pinLine table target node line = pure node := by
  rw [pinLine, hline]
  rfl

section
variable {table : VcpuTable} (target : Text) {lines : List Text}
  (hlines : ∀ line ∈ lines, isInstance line = true)
include hlines

theorem foldlM_ok_of_room (htable : Serves table) {node : Nat} (hroom : node + lines.length ≤ 2)
    (hwords : ∀ line ∈ lines, 2 ≤ (words line).length) :
    lines.foldlM (pinLine table target) node =
      ⟨(pinnedFrom table node lines).flatMap (Pinned.actions target),
        .ok (node + lines.length)⟩ := by
  induction lines generalizing node with
  | nil => rfl
  | cons line lines ih =>
    rw [List.length_cons] at hroom
    rw [List.foldlM_cons, pinLine_ok target (hlines line List.mem_cons_self) htable (by omega)
      (hwords line List.mem_cons_self), ok_bind,
      ih (fun l hl => hlines l (List.mem_cons_of_mem line hl)) (by omega)
        (fun l hl => hwords l (List.mem_cons_of_mem line hl)),
      List.length_cons, Nat.add_assoc, Nat.add_comm 1]
    rfl

theorem foldlM_error_of_crowd (htable : Serves table) {node : Nat} (hnode : node ≤ 2)
    (h : ¬ (node + lines.length ≤ 2 ∧ ∀ line ∈ lines, 2 ≤ (words line).length)) :
    ∃ e, (lines.foldlM (pinLine table target) node).result = .error e := by
  induction lines generalizing node with
  | nil => exact absurd ⟨hnode, by simp⟩ h
  | cons line lines ih =>
    have hline := hlines line List.mem_cons_self
    rw [List.foldlM_cons]
    by_cases hhere : 2 ≤ node ∨ (words line).length < 2
    · obtain ⟨e, he⟩ := pinLine_error target hline table hhere
      exact ⟨e, bind_result_error he _⟩
    · rw [pinLine_ok target hline htable (by omega) (by omega), ok_bind]
      apply ih (fun l hl => hlines l (List.mem_cons_of_mem line hl)) (by omega)
      intro hrest
      refine h ⟨by rw [List.length_cons]; omega, fun l hl => ?_⟩
      rcases List.mem_cons.mp hl with rfl | hl
      · omega
      · exact hrest.2 l hl

end

theorem mem_pinnedFrom {table : VcpuTable} {p : Pinned} {lines : List Text} {node : Nat}
    (h : p ∈ pinnedFrom table node lines) :
    ∃ k line, node ≤ k ∧ k < node + lines.length ∧ p = pinned table k line := by
  induction lines generalizing node with
  | nil => exact absurd h (by simp [pinnedFrom])
  | cons line lines ih =>
    rw [List.length_cons]
    rcases List.mem_cons.mp h with rfl | h
    · exact ⟨node, line, le_rfl, by omega, rfl⟩
    · obtain ⟨k, l, h1, h2, rfl⟩ := ih h
      exact ⟨k, l, by omega, by omega, rfl⟩

theorem names_pinnedFrom (table : VcpuTable) {lines : List Text}
    (hwords : ∀ line ∈ lines, 2 ≤ (words line).length) (node : Nat) :
    (pinnedFrom table node lines).map (fun p => some p.domName) =
      lines.map fun l => (words l)[1]? := by
  induction lines generalizing node with
  | nil => rfl
  | cons line lines ih =>
    have hname : some (nameOf line) = (words line)[1]? := by
      rw [nameOf, List.getElem?_eq_getElem (hwords line List.mem_cons_self)]
      rfl
    rw [pinnedFrom, List.map_cons, List.map_cons, ih fun l hl =>
      hwords l (List.mem_cons_of_mem line hl), ← hname]
    rfl

/-- The vcpus of a node are pinned to CPUs of the node. -/
theorem inside_pinned {table : VcpuTable} (htable : Serves table) {node : Nat} (hnode : node < 2)
    {line c : Text} (hc : c ∈ (pinned table node line).vcpus) :
    cpuSet c ⊆ cpuSet (infoOf node) ∧ cpuSet (infoOf node) = nodeCpus node := by
  obtain ⟨i, hi, rfl⟩ := List.mem_map.mp hc
  obtain ⟨c, hcpus, hsub⟩ := htable node _ (getItem_infoOf hnode) i hi
  rw [cpusOf, hcpus]
  exact ⟨hsub, (getItem_numainfos (getItem_infoOf hnode)).2⟩

theorem apart_pinnedFrom {table : VcpuTable} (htable : Serves table) {lines : List Text}
    {node : Nat} (hroom : node + lines.length ≤ 2) :
    (pinnedFrom table node lines).Pairwise fun p q =>
      ∀ c ∈ p.vcpus, ∀ d ∈ q.vcpus, (cpuSet c).Disjoint (cpuSet d) := by
  induction lines generalizing node with
  | nil => exact List.Pairwise.nil
  | cons line lines ih =>
    rw [List.length_cons] at hroom
    refine List.Pairwise.cons (fun q hq c hc d hd => ?_) (ih (by omega))
    obtain ⟨k, l, hk, hlt, rfl⟩ := mem_pinnedFrom hq
    obtain ⟨hcsub, hcset⟩ := inside_pinned htable (by omega) hc
    obtain ⟨hdsub, hdset⟩ := inside_pinned htable (by omega) hd
    rw [hcset] at hcsub
    rw [hdset] at hdsub
    intro x hxc hxd
    exact disjoint_nodeCpus (by omega) (by omega) (by omega) (hcsub hxc) (hdsub hxd)

theorem right_pinnedFrom {table : VcpuTable} (htable : Serves table) {lines : List Text}
    (hroom : (lines.filter isInstance).length ≤ 2)
    (hwords : ∀ line ∈ lines.filter isInstance, 2 ≤ (words line).length) :
    Right lines (pinnedFrom table 0 (lines.filter isInstance)) where
  names := names_pinnedFrom table hwords 0
  count := by
    intro p hp
    obtain ⟨k, line, -, -, rfl⟩ := mem_pinnedFrom hp
    exact List.length_map _
  inside := by
    intro p hp c hc
    obtain ⟨k, line, -, hk, rfl⟩ := mem_pinnedFrom hp
    exact (inside_pinned htable (by omega) hc).1
  apart := fun _ => apart_pinnedFrom htable (by omega)

/-- The nodes are enough for the instances of a host, and each of them has a name. -/
def Fits (lines : List Text) : Prop :=
  (lines.filter isInstance).length ≤ 2 ∧
    ∀ line ∈ lines.filter isInstance, 2 ≤ (words line).length

theorem isInstance_of_mem_filter {lines : List Text} :
    ∀ line ∈ lines.filter isInstance, isInstance line = true := by
  intro line hline
  exact (List.mem_filter.mp hline).2

theorem pinHost_ok {table : VcpuTable} (htable : Serves table) (target : Text) {lines : List Text}
    (h : Fits lines) : pinHost table target lines =
      ⟨(pinnedFrom table 0 (lines.filter isInstance)).flatMap (Pinned.actions target), .ok ()⟩ := by
  obtain ⟨hroom, hwords⟩ := h
  rw [pinHost, foldlM_filter (pinLine_skip table target),
    foldlM_ok_of_room target isInstance_of_mem_filter htable (by omega) hwords, ok_bind, pure_eq,
    List.append_nil]

theorem length_commands_actions (target : Text) (p : Pinned) :
    ((p.actions target).filterMap Action.command).length = p.vcpus.length + 1 := by
  have hvcpus : (p.vcpus.zipIdx.map fun c => Action.vcpupin target p.domName c.2 c.1).filterMap
      Action.command = p.vcpus.zipIdx.filterMap fun c =>
        (Action.vcpupin target p.domName c.2 c.1).command := List.filterMap_map
  have hsome : (fun c : Text × Nat => (Action.vcpupin target p.domName c.2 c.1).command) =
      some ∘ fun c : Text × Nat => "virsh -c qemu+ssh://".toList ++ target ++
        "/system vcpupin ".toList ++ p.domName ++ " ".toList ++ Printf.udec c.2 ++ " ".toList ++
          c.1 := rfl
  rw [Pinned.actions, List.filterMap_cons_none rfl, List.filterMap_append, hvcpus, hsome,
    List.filterMap_eq_map, List.length_append, List.length_map, List.length_zipIdx]
  rfl

/-- 15 commands for the vcpus and one for the emulator, for each instance. -/
theorem length_commands {table : VcpuTable} (htable : Serves table) (target : Text)
    {lines : List Text} (h : Fits lines) : (commands (pinHost table target lines)).length =
      16 * (lines.filter isInstance).length := by
  have hlen : ∀ node, (pinnedFrom table node (lines.filter isInstance)).map
      (fun p => ((p.actions target).filterMap Action.command).length) =
        List.replicate (lines.filter isInstance).length 16 := by
    generalize lines.filter isInstance = ls
    induction ls with
    | nil => intro node; rfl
    | cons line ls ih =>
      intro node
      rw [pinnedFrom, List.map_cons, ih, length_commands_actions]
      rfl
  rw [commands, pinHost_ok htable target h, List.filterMap_flatMap, List.length_flatMap, hlen,
    List.sum_replicate, smul_eq_mul, Nat.mul_comm]

/-- A host is finished only where it fits. -/
theorem pinHost_finishes_iff {table : VcpuTable} (htable : Serves table) (target : Text)
    (lines : List Text) : (pinHost table target lines).result = .ok () ↔ Fits lines := by
  constructor
  · intro h
    by_contra hno
    unfold Fits at hno
    rw [← Nat.zero_add (lines.filter isInstance).length] at hno
    obtain ⟨e, he⟩ :=
      foldlM_error_of_crowd target isInstance_of_mem_filter htable (Nat.zero_le 2) hno
    rw [pinHost, foldlM_filter (pinLine_skip table target), bind_result_error he] at h
    exact absurd h (by simp)
  · intro h
    rw [pinHost_ok htable target h]

theorem handles_iff_fits {table : VcpuTable} (htable : Serves table) (target : Text)
    (lines : List Text) : Handles table target lines ↔ Fits lines := by
  constructor
  · intro h
    obtain ⟨pins, hrun, -⟩ := h
    rw [← pinHost_finishes_iff htable target, hrun]
  · intro h
    exact ⟨_, pinHost_ok htable target h, right_pinnedFrom htable h.1 h.2⟩

/-- The whole script is finished where every host fits. -/
theorem main_finishes_iff {table : VcpuTable} (htable : Serves table) (output : Text → List Text) :
    (main table output).result = .ok () ↔ ∀ target ∈ targets, Fits (output target) := by
  rw [main, forM_result_iff]
  simp only [pinHost_finishes_iff htable]

/-- A host is handled by `vcpupin-ssh-virsh.py` exactly where it has at most two instances, each
    with a name. -/
theorem vcpupin_handles_iff (target : Text) (lines : List Text) :
    Handles byCache target lines ↔ (lines.filter isInstance).length ≤ 2 ∧
      ∀ line ∈ lines.filter isInstance, 2 ≤ (words line).length :=
  handles_iff_fits serves_byCache target lines

/-- The same holds of `virsh-ssh.py`. -/
theorem handles_byNode_iff (target : Text) (lines : List Text) :
    Handles byNode target lines ↔ Fits lines :=
  handles_iff_fits serves_byNode target lines

/-- A line of `virsh list`. -/
def running (n : Nat) : Text :=
  ' ' :: (Printf.udec n ++ "     instance-0000000".toList ++ Printf.udec n ++
    "              running\n".toList)

/-- The third instance of a host ends the script. -/
theorem vcpupin_three_instances : ¬ ∀ target lines, Handles byCache target lines := by
  intro h
  have hthree := (handles_iff_fits serves_byCache [] [running 1, running 2, running 3]).mp (h _ _)
  exact absurd hthree.1 (by decide)

end LinuxSummary.Virsh
