/-
  C's `for (pos = first; !stop(pos); pos = next(pos))`, for a position of any kind, and the
  linked lists that such loops go through. Proof-only, nothing about one program.

  `walk` is the loop. A body may fault, or hold a loop that has not ended when the fuel is used
  up. `Chain next a l b` says that `next` leads from `a` through the nodes `l` to `b`;
  `walk_append` reduces a loop along a chain to its bodies in order (`runAll`).

  `Ring` is the circular doubly linked list of the kernel: a head, and the nodes between it and
  itself. Every node of a ring can be taken for the head (`Ring.rotate`). `listAdd` inserts
  behind the head, and a ring stays one (`Ring.listAdd`).
-/
import LinuxSummary.Library.ForLoop

namespace Walk

open ForLoop (Loop)

variable {α σ : Type}

/-! ## Loops -/

/-- A loop, then the rest. -/
def andThen (r : Loop σ) (f : σ → Loop σ) : Loop σ :=
  match r with
  | .ended s => f s
  | .fault s => .fault s
  | .running s => .running s

def walk (stop : α → Bool) (next : α → α) (body : α → σ → Loop σ) : Nat → α → σ → Loop σ
  | 0, a, s => if stop a then .ended s else .running s
  | fuel + 1, a, s =>
    if stop a then .ended s else andThen (body a s) (walk stop next body fuel (next a))

/-- The bodies of the nodes, one after another. -/
def runAll (body : α → σ → Loop σ) : List α → σ → Loop σ
  | [], s => .ended s
  | a :: l, s => andThen (body a s) (runAll body l)

theorem andThen_assoc (r : Loop σ) (f g : σ → Loop σ) :
    andThen (andThen r f) g = andThen r fun s => andThen (f s) g := by
  cases r <;> rfl

theorem andThen_ended {r : Loop σ} {f : σ → Loop σ} {s : σ} (h : andThen r f = .ended s) :
    ∃ t, r = .ended t ∧ f t = .ended s := by
  cases r with
  | ended t => exact ⟨t, rfl, h⟩
  | fault t => exact absurd h (by simp [andThen])
  | running t => exact absurd h (by simp [andThen])

theorem runAll_cons {body : α → σ → Loop σ} {a : α} {s t : σ} (h : body a s = .ended t)
    (l : List α) : runAll body (a :: l) s = runAll body l t := by
  rw [runAll, h]
  rfl

theorem runAll_append (body : α → σ → Loop σ) (l l' : List α) (s : σ) :
    runAll body (l ++ l') s = andThen (runAll body l s) (runAll body l') := by
  induction l generalizing s with
  | nil => rfl
  | cons a l ih =>
    rw [List.cons_append, runAll, runAll, andThen_assoc]
    congr 1
    funext t
    exact ih t

/-- Bodies that all end, end in order. -/
theorem runAll_ended {body : α → σ → Loop σ} {l : List α}
    (h : ∀ a ∈ l, ∀ s, ∃ t, body a s = .ended t) (s : σ) : ∃ t, runAll body l s = .ended t := by
  induction l generalizing s with
  | nil => exact ⟨s, rfl⟩
  | cons a l ih =>
    obtain ⟨u, hu⟩ := h a List.mem_cons_self s
    rw [runAll_cons hu]
    exact ih (fun b hb => h b (List.mem_cons_of_mem a hb)) u

section
variable {stop : α → Bool} {next : α → α} {body : α → σ → Loop σ}

theorem walk_stop {a : α} (h : stop a = true) (fuel : Nat) (s : σ) :
    walk stop next body fuel a s = .ended s := by
  cases fuel with
  | zero => exact if_pos h
  | succ fuel => exact if_pos h

theorem walk_succ {a : α} (h : stop a = false) (fuel : Nat) (s : σ) :
    walk stop next body (fuel + 1) a s =
      andThen (body a s) (walk stop next body fuel (next a)) :=
  if_neg (Bool.eq_false_iff.mp h)

/-- What every body keeps, the loop keeps. -/
theorem walk_rule {I : σ → Prop} (hbody : ∀ a s t, I s → body a s = .ended t → I t) {fuel : Nat}
    {a : α} {s t : σ} (hs : I s) (hended : walk stop next body fuel a s = .ended t) : I t := by
  induction fuel generalizing a s with
  | zero =>
    unfold walk at hended
    split at hended
    · exact Loop.ended.inj hended ▸ hs
    · exact absurd hended (by simp)
  | succ fuel ih =>
    unfold walk at hended
    split at hended
    · exact Loop.ended.inj hended ▸ hs
    · obtain ⟨u, hhere, hrest⟩ := andThen_ended hended
      exact ih (hbody a s u hs hhere) hrest

/-- A loop does not get past a body that does not end. -/
theorem not_ended_of_body {a : α} (h : stop a = false)
    (hbody : ∀ s t, body a s ≠ .ended t) (fuel : Nat) (s t : σ) :
    walk stop next body fuel a s ≠ .ended t := by
  intro hended
  cases fuel with
  | zero =>
    have hrun : walk stop next body 0 a s = .running s := if_neg (Bool.eq_false_iff.mp h)
    exact absurd (hrun.symm.trans hended) (by simp)
  | succ fuel =>
    rw [walk_succ h] at hended
    obtain ⟨u, hhere, -⟩ := andThen_ended hended
    exact hbody s u hhere

/-! ## Chains -/

/-- The nodes `l` lead from `a` to `b`. -/
inductive Chain (next : α → α) : α → List α → α → Prop
  | nil (a : α) : Chain next a [] a
  | cons {a b : α} {l : List α} (h : Chain next (next a) l b) : Chain next a (a :: l) b

theorem Chain.append {a b c : α} {l l' : List α} (h : Chain next a l b) (h' : Chain next b l' c) :
    Chain next a (l ++ l') c := by
  induction h with
  | nil a => exact h'
  | cons _ ih => exact .cons (ih h')

/-- A chain, cut at one of its nodes. -/
theorem Chain.split {a b y : α} {x z : List α} (h : Chain next a (x ++ y :: z) b) :
    Chain next a x y ∧ Chain next (next y) z b := by
  induction x generalizing a with
  | nil =>
    cases h with
    | cons h => exact ⟨.nil _, h⟩
  | cons c x ih =>
    cases h with
    | cons h =>
      obtain ⟨h1, h2⟩ := ih h
      exact ⟨.cons h1, h2⟩

/-- The end of a chain is the next of a node. -/
theorem Chain.last {a b : α} {l : List α} (h : Chain next (next a) l b) :
    ∃ c ∈ a :: l, next c = b := by
  rcases List.eq_nil_or_concat l with rfl | ⟨x, c, rfl⟩
  · cases h
    exact ⟨a, List.mem_cons_self, rfl⟩
  · rw [List.concat_eq_append] at h ⊢
    have hlast := h.split.2
    generalize hd : next c = d at hlast
    cases hlast
    exact ⟨c, by simp, hd⟩

/-- Links outside the nodes do not matter. -/
theorem Chain.congr {next' : α → α} {a b : α} {l : List α} (h : Chain next a l b)
    (heq : ∀ c ∈ l, next' c = next c) : Chain next' a l b := by
  induction h with
  | nil a => exact .nil a
  | @cons a b l _ ih =>
    apply Chain.cons
    rw [heq a List.mem_cons_self]
    exact ih fun c hc => heq c (List.mem_cons_of_mem a hc)

/-- The nodes in order, each the next of the one before. -/
theorem Chain.next_mem {a b c : α} {l : List α} (h : Chain next a l b) (hc : c ∈ l) :
    next c ∈ l ∨ next c = b := by
  induction h with
  | nil a => exact absurd hc List.not_mem_nil
  | @cons a b l htail ih =>
    rcases List.mem_cons.mp hc with rfl | hc
    · cases htail with
      | nil => exact .inr rfl
      | cons _ => exact .inl (List.mem_cons_of_mem _ List.mem_cons_self)
    · exact (ih hc).imp_left (List.mem_cons_of_mem a)

/-- **A loop along a chain runs the bodies of its nodes.** -/
theorem walk_append {a b : α} {l : List α} (h : Chain next a l b)
    (hstop : ∀ c ∈ l, stop c = false) (fuel : Nat) (s : σ) :
    walk stop next body (l.length + fuel) a s =
      andThen (runAll body l s) (walk stop next body fuel b) := by
  induction h generalizing s with
  | nil a => rw [List.length_nil, Nat.zero_add]; rfl
  | @cons a b l _ ih =>
    have hhere := hstop a List.mem_cons_self
    have htail := ih fun c hc => hstop c (List.mem_cons_of_mem a hc)
    rw [List.length_cons, Nat.add_right_comm, walk_succ hhere, runAll, andThen_assoc]
    congr 1
    funext t
    exact htail t

theorem walk_chain {a b : α} {l : List α} (h : Chain next a l b)
    (hstop : ∀ c ∈ l, stop c = false) (hend : stop b = true) {fuel : Nat}
    (hfuel : l.length ≤ fuel) (s : σ) : walk stop next body fuel a s = runAll body l s := by
  obtain ⟨more, rfl⟩ := Nat.exists_eq_add_of_le hfuel
  rw [walk_append h hstop]
  cases runAll body l s with
  | ended t => exact walk_stop hend more t
  | fault t => rfl
  | running t => rfl

/-- The nodes of a chain of pointers are not null. -/
theorem not_isNone {l : List α} : ∀ node ∈ l.map some, Option.isNone node = false := by
  intro node hnode
  obtain ⟨p, -, rfl⟩ := List.mem_map.mp hnode
  rfl

/-- A loop that has ended had the fuel for its chain. -/
theorem length_le_of_walk {a b : α} {l : List α} (h : Chain next a l b)
    (hstop : ∀ c ∈ l, stop c = false) {fuel : Nat} {s t : σ}
    (hended : walk stop next body fuel a s = .ended t) : l.length ≤ fuel := by
  induction h generalizing fuel s with
  | nil a => exact Nat.zero_le fuel
  | @cons a b l _ ih =>
    have hhere := hstop a List.mem_cons_self
    cases fuel with
    | zero =>
      have hrun : walk stop next body 0 a s = .running s := if_neg (Bool.eq_false_iff.mp hhere)
      rw [hrun] at hended
      exact absurd hended (by simp)
    | succ fuel =>
      rw [walk_succ hhere] at hended
      obtain ⟨u, -, hrest⟩ := andThen_ended hended
      exact Nat.succ_le_succ (ih (fun c hc => hstop c (List.mem_cons_of_mem a hc)) hrest)

/-- A loop along a chain to its end has ended exactly as its bodies say. -/
theorem walk_ended_iff {a b : α} {l : List α} (h : Chain next a l b)
    (hstop : ∀ c ∈ l, stop c = false) (hend : stop b = true) {fuel : Nat} {s t : σ} :
    walk stop next body fuel a s = .ended t ↔
      l.length ≤ fuel ∧ runAll body l s = .ended t := by
  constructor
  · intro hended
    have hfuel := length_le_of_walk h hstop hended
    exact ⟨hfuel, (walk_chain h hstop hend hfuel s).symm.trans hended⟩
  · intro hrun
    exact (walk_chain h hstop hend hrun.1 s).trans hrun.2

end

/-- The values of an `int` that is counted up from 0. -/
theorem chain_counter (n : Nat) :
    Chain (fun i => CInt.int32 (i + 1)) 0 ((List.range n).map fun k : Nat => CInt.int32 k)
      (CInt.int32 n) := by
  induction n with
  | zero => exact .nil 0
  | succ n ih =>
    have hlast : Chain (fun i => CInt.int32 (i + 1)) (CInt.int32 n) [CInt.int32 n]
        (CInt.int32 ((n + 1 : Nat) : Int)) := by
      apply Chain.cons
      rw [ForLoop.int32_succ]
      exact .nil _
    rw [List.range_succ, List.map_append]
    exact ih.append hlast

/-! ## Rings -/

/-- The nodes `l` between the head and itself, forwards and backwards. -/
structure Ring (next prev : α → α) (head : α) (l : List α) : Prop where
  chain : Chain next (next head) l head
  nodup : (head :: l).Nodup
  back : ∀ a ∈ head :: l, prev (next a) = a

section
variable {next prev : α → α} {head : α} {l : List α}

/-- **Every node can be taken for the head.** -/
theorem Ring.rotate (h : Ring next prev head l) {a : α} (ha : a ∈ head :: l) :
    ∃ l', Ring next prev a l' ∧ List.Perm (a :: l') (head :: l) := by
  rcases List.mem_cons.mp ha with rfl | ha
  · exact ⟨l, h, List.Perm.refl _⟩
  · obtain ⟨x, z, rfl⟩ := List.append_of_mem ha
    obtain ⟨h1, h2⟩ := h.chain.split
    have hturn : List.Perm (head :: x ++ a :: z) (a :: z ++ head :: x) := List.perm_append_comm
    have hperm : List.Perm (a :: (z ++ head :: x)) (head :: (x ++ a :: z)) := hturn.symm
    exact ⟨z ++ head :: x, ⟨h2.append (.cons h1), hperm.nodup_iff.mpr h.nodup,
      fun c hc => h.back c (hperm.mem_iff.mp hc)⟩, hperm⟩

/-- No node is the head. -/
theorem Ring.ne_head [BEq α] [LawfulBEq α] (h : Ring next prev head l) :
    ∀ a ∈ l, (a == head) = false := by
  intro a ha
  have hhead := (List.nodup_cons.mp h.nodup).1
  exact beq_eq_false_iff_ne.mpr fun heq => hhead (heq ▸ ha)

theorem Ring.next_mem (h : Ring next prev head l) {a : α} (ha : a ∈ head :: l) :
    next a ∈ head :: l := by
  have hfull : Chain next head (head :: l) head := .cons h.chain
  rcases hfull.next_mem ha with hnext | hnext
  · exact hnext
  · rw [hnext]
    exact List.mem_cons_self

/-- Every node is the next of the one before it. -/
theorem Ring.next_prev (h : Ring next prev head l) {a : α} (ha : a ∈ head :: l) :
    prev a ∈ head :: l ∧ next (prev a) = a := by
  obtain ⟨l', h', hperm⟩ := h.rotate ha
  obtain ⟨c, hc, hnext⟩ := h'.chain.last
  have hback := h'.back c hc
  rw [hnext] at hback
  rw [hback]
  exact ⟨hperm.mem_iff.mp hc, hnext⟩

variable [DecidableEq α]

/-- `list_add(node, head)` -/
def listAdd (next prev : α → α) (node head : α) : (α → α) × (α → α) :=
  (Function.update (Function.update next node (next head)) head node,
    Function.update (Function.update prev (next head) node) node head)

/-- The new node is the first behind the head. -/
theorem Ring.listAdd {node : α} (h : Ring next prev head l) (hnew : node ∉ head :: l) :
    Ring (listAdd next prev node head).1 (listAdd next prev node head).2 head (node :: l) := by
  have hhead : node ≠ head := List.ne_of_not_mem_cons hnew
  have hl : node ∉ l := List.not_mem_of_not_mem_cons hnew
  obtain ⟨hheadl, hnodup⟩ := List.nodup_cons.mp h.nodup
  have hnext_head : (Walk.listAdd next prev node head).1 head = node :=
    Function.update_self _ _ _
  have hnext_node : (Walk.listAdd next prev node head).1 node = next head :=
    (Function.update_of_ne hhead _ _).trans (Function.update_self _ _ _)
  have hnext : ∀ c ∈ l, (Walk.listAdd next prev node head).1 c = next c := by
    intro c hc
    have h1 : c ≠ head := fun heq => hheadl (heq ▸ hc)
    have h2 : c ≠ node := fun heq => hl (heq ▸ hc)
    exact (Function.update_of_ne h1 _ _).trans (Function.update_of_ne h2 _ _)
  have hfirst : next head ≠ node :=
    fun heq => hnew (heq ▸ h.next_mem List.mem_cons_self)
  refine ⟨?_, ?_, fun a ha => ?_⟩
  · rw [hnext_head]
    apply Chain.cons
    rw [hnext_node]
    exact h.chain.congr hnext
  · refine List.nodup_cons.mpr ⟨?_, List.nodup_cons.mpr ⟨hl, hnodup⟩⟩
    rw [List.mem_cons, not_or]
    exact ⟨hhead.symm, hheadl⟩
  · rw [List.mem_cons, List.mem_cons] at ha
    rcases ha with rfl | rfl | ha
    · rw [hnext_head]
      exact Function.update_self _ _ _
    · rw [hnext_node]
      exact (Function.update_of_ne hfirst _ _).trans (Function.update_self _ _ _)
    · have h1 : next a ≠ node := fun heq => hnew (heq ▸ h.next_mem (List.mem_cons_of_mem _ ha))
      have hback := h.back a (List.mem_cons_of_mem _ ha)
      have h2 : next a ≠ next head := by
        intro heq
        rw [heq, h.back head List.mem_cons_self] at hback
        rw [hback] at hheadl
        exact hheadl ha
      rw [hnext a ha]
      exact (Function.update_of_ne h1 _ _).trans ((Function.update_of_ne h2 _ _).trans hback)

end

end Walk
