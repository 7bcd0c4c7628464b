/-
  A rooted tree of groups with members. Proof-only, nothing about one program.

  A group is named by its path from the root; a path that exists carries attributes,
  and every member stands in exactly one group. The structure carries its own
  well-formedness: the root exists, a parent of an existing group exists, members
  stand in existing groups, and there are finitely many groups.

  `remove` takes a group away with everything below it and moves the members to its
  parent. `refresh p a` is remove-then-create: `refresh_attrs` and `refresh_loc` say
  what it leaves, `refresh_modify_eq_iff` when it leaves the tree as it was. A `subtree`
  is a group with all below it: the operations on groups apart leave it alone.
-/
import Mathlib

/-- A tree of groups: path components in `N`, attributes in `A`, members in `T`. -/
@[ext]
structure GroupTree (N A T : Type) where
  attrs : List N → Option A
  loc : T → List N
  root_mem : (attrs []).isSome
  parent_mem : ∀ p x, (attrs (p ++ [x])).isSome → (attrs p).isSome
  loc_mem : ∀ t, (attrs (loc t)).isSome
  finite : {p | (attrs p).isSome}.Finite

namespace GroupTree

variable {N A T : Type}

/-- Every prefix of an existing path exists. -/
theorem isSome_of_prefix (g : GroupTree N A T) {p q : List N} (h : (g.attrs q).isSome)
    (hpq : p <+: q) : (g.attrs p).isSome := by
  obtain ⟨r, rfl⟩ := hpq
  induction r using List.reverseRecOn with
  | nil => simpa using h
  | append_singleton r x ih =>
    rw [← List.append_assoc] at h
    exact ih (g.parent_mem _ _ h)

/-- A group is not above its own parent. -/
theorem not_prefix_dropLast {p : List N} (hp : p ≠ []) : ¬ p <+: p.dropLast := by
  intro hd
  have := hd.length_le
  have := List.length_pos_iff.mpr hp
  simp only [List.length_dropLast] at *
  omega

/-- Only the root, with these attributes, and every member there. -/
def empty [DecidableEq N] (a : A) : GroupTree N A T where
  attrs p := if p = [] then some a else none
  loc _ := []
  root_mem := by simp
  parent_mem p x h := by simp at h
  loc_mem _ := by simp
  finite := (Set.finite_singleton []).subset fun p hp => by
    by_contra h
    simp only [Set.mem_singleton_iff] at h
    simp [h] at hp

section Operations

variable [DecidableEq N]

/-- Make the group `p` with attributes `a`, where its parent exists and it does not. -/
def create (g : GroupTree N A T) (p : List N) (a : A) : GroupTree N A T :=
  if h : (g.attrs p.dropLast).isSome ∧ g.attrs p = none then
    { attrs := Function.update g.attrs p (some a)
      loc := g.loc
      root_mem := by
        by_cases hp : p = []
        · simp [hp]
        · rw [Function.update_of_ne (Ne.symm hp)]; exact g.root_mem
      parent_mem := by
        intro q x hq
        by_cases hqp : q = p
        · simp [hqp]
        rw [Function.update_of_ne hqp]
        by_cases hx : q ++ [x] = p
        · have := h.1
          rwa [← hx, List.dropLast_concat] at this
        · rw [Function.update_of_ne hx] at hq
          exact g.parent_mem q x hq
      loc_mem := by
        intro t
        by_cases ht : g.loc t = p
        · simp [ht]
        · rw [Function.update_of_ne ht]; exact g.loc_mem t
      finite := (g.finite.insert p).subset fun q hq => by
        by_cases hqp : q = p
        · exact Set.mem_insert_iff.mpr (.inl hqp)
        · refine Set.mem_insert_iff.mpr (.inr ?_)
          simpa only [Set.mem_ofPred_eq, Function.update_of_ne hqp] using hq }
  else g

/-- Take the group `p` away with all groups below it; their members go to the parent of
    `p`. The root stays. -/
def remove (g : GroupTree N A T) (p : List N) : GroupTree N A T :=
  if h : p ≠ [] ∧ (g.attrs p).isSome then
    { attrs := fun q => if p <+: q then none else g.attrs q
      loc := fun t => if p <+: g.loc t then p.dropLast else g.loc t
      root_mem := by
        rw [if_neg (by simpa using h.1)]
        exact g.root_mem
      parent_mem := by
        intro q x hq
        by_cases hp : p <+: q ++ [x]
        · simp [hp] at hq
        · have hpq : ¬ p <+: q := fun h => hp (h.trans (List.prefix_append _ _))
          rw [if_neg hp] at hq
          rw [if_neg hpq]
          exact g.parent_mem q x hq
      loc_mem := by
        intro t
        by_cases hp : p <+: g.loc t
        · rw [if_pos hp, if_neg (not_prefix_dropLast h.1)]
          exact g.isSome_of_prefix h.2 (List.dropLast_prefix p)
        · rw [if_neg hp, if_neg hp]
          exact g.loc_mem t
      finite := g.finite.subset fun q hq => by
        simp only [Set.mem_ofPred_eq] at hq ⊢
        split at hq
        · exact absurd hq (by simp)
        · exact hq }
  else g

/-- Change the attributes of the group `p`, if it exists. -/
def modify (g : GroupTree N A T) (p : List N) (f : A → A) : GroupTree N A T where
  attrs q := if q = p then (g.attrs p).map f else g.attrs q
  loc := g.loc
  root_mem := by
    have := g.root_mem
    split
    · next h => rw [← h]; simpa using this
    · exact this
  parent_mem := by
    intro q x hq
    have hq' : (g.attrs (q ++ [x])).isSome := by
      split at hq
      · next h => rw [h]; simpa using hq
      · exact hq
    have := g.parent_mem q x hq'
    split
    · next h => rw [← h]; simpa using this
    · exact this
  loc_mem := by
    intro t
    have := g.loc_mem t
    split
    · next h => rw [← h]; simpa using this
    · exact this
  finite := g.finite.subset fun q hq => by
    simp only [Set.mem_ofPred_eq] at hq ⊢
    split at hq
    · next h => rw [h]; simpa using hq
    · exact hq

/-- Remove the group `p` if it is there, then make it with attributes `a`. -/
def refresh (g : GroupTree N A T) (p : List N) (a : A) : GroupTree N A T :=
  (g.remove p).create p a

/-! ## What the operations leave -/

theorem modify_attrs (g : GroupTree N A T) (p : List N) (f : A → A) (q : List N) :
    (g.modify p f).attrs q = if q = p then (g.attrs p).map f else g.attrs q := rfl

@[simp] theorem modify_loc (g : GroupTree N A T) (p : List N) (f : A → A) :
    (g.modify p f).loc = g.loc := rfl

theorem modify_modify (g : GroupTree N A T) (p : List N) (f f' : A → A) :
    (g.modify p f).modify p f' = g.modify p (f' ∘ f) := by
  apply GroupTree.ext
  · funext q
    simp only [modify_attrs, if_true, Option.map_map]
    split <;> rfl
  · rfl

@[simp] theorem modify_id (g : GroupTree N A T) (p : List N) : g.modify p id = g := by
  apply GroupTree.ext
  · funext q
    rw [modify_attrs, Option.map_id_apply]
    split
    · next h => rw [h]
    · rfl
  · rfl

theorem remove_attrs (g : GroupTree N A T) {p : List N} (hp : p ≠ []) (q : List N) :
    (g.remove p).attrs q = if p <+: q then none else g.attrs q := by
  unfold remove
  split
  · rfl
  · next h =>
    -- the group is absent, and so is everything below it
    split
    · next hpq =>
      have hnone : ¬ (g.attrs p).isSome := fun hs => h ⟨hp, hs⟩
      by_contra hq
      exact hnone (g.isSome_of_prefix (Option.isSome_iff_ne_none.mpr hq) hpq)
    · rfl

theorem remove_loc (g : GroupTree N A T) {p : List N} (hp : p ≠ []) (t : T) :
    (g.remove p).loc t = if p <+: g.loc t then p.dropLast else g.loc t := by
  unfold remove
  split
  · rfl
  · next h =>
    rw [if_neg]
    exact fun hpt => h ⟨hp, g.isSome_of_prefix (g.loc_mem t) hpt⟩

theorem remove_attrs_self (g : GroupTree N A T) {p : List N} (hp : p ≠ []) :
    (g.remove p).attrs p = none := by
  rw [remove_attrs g hp, if_pos List.prefix_rfl]

theorem remove_attrs_none (g : GroupTree N A T) (p : List N) {q : List N} (h : g.attrs q = none) :
    (g.remove p).attrs q = none := by
  unfold remove
  split
  · show (if p <+: q then none else g.attrs q) = none
    rw [h, ite_self]
  · exact h

theorem remove_eq_self (g : GroupTree N A T) {p : List N} (h : g.attrs p = none) :
    g.remove p = g := by
  unfold remove
  rw [dif_neg]
  simp [h]

@[simp] theorem create_loc (g : GroupTree N A T) (p : List N) (a : A) :
    (g.create p a).loc = g.loc := by
  unfold create
  split <;> rfl

/-- A group that exists is not made anew. -/
theorem create_attrs (g : GroupTree N A T) {p : List N} (hpar : (g.attrs p.dropLast).isSome)
    (a : A) (q : List N) :
    (g.create p a).attrs q = if q = p then some ((g.attrs p).getD a) else g.attrs q := by
  unfold create
  split
  · next h =>
    by_cases hq : q = p
    · simp [hq, h.2]
    · simp [hq]
  · next h =>
    have hsome : (g.attrs p).isSome := by
      by_contra hnone
      exact h ⟨hpar, by simpa using hnone⟩
    obtain ⟨b, hb⟩ := Option.isSome_iff_exists.mp hsome
    by_cases hq : q = p
    · simp [hq, hb]
    · simp [hq]

theorem create_isSome (g : GroupTree N A T) {p : List N} (hpar : (g.attrs p.dropLast).isSome)
    (a : A) : ((g.create p a).attrs p).isSome := by
  unfold create
  split
  · simp
  · next h =>
    rw [Option.isSome_iff_ne_none]
    exact fun hnone => h ⟨hpar, hnone⟩

section Refresh

variable (g : GroupTree N A T) {p : List N} (hp : p ≠ []) (a : A)
include hp

theorem refresh_attrs (hpar : (g.attrs p.dropLast).isSome) (q : List N) :
    (g.refresh p a).attrs q =
      if q = p then some a else if p <+: q then none else g.attrs q := by
  have hcan : ((g.remove p).attrs p.dropLast).isSome ∧ (g.remove p).attrs p = none := by
    rw [remove_attrs g hp, if_neg (not_prefix_dropLast hp)]
    exact ⟨hpar, remove_attrs_self g hp⟩
  unfold refresh create
  rw [dif_pos hcan]
  show Function.update (g.remove p).attrs p (some a) q = _
  by_cases hq : q = p
  · simp [hq]
  · rw [Function.update_of_ne hq, if_neg hq, remove_attrs g hp]

theorem refresh_loc (t : T) :
    (g.refresh p a).loc t = if p <+: g.loc t then p.dropLast else g.loc t := by
  rw [refresh, create_loc, remove_loc g hp]

/-- No member stands in a group that was just made. -/
theorem refresh_loc_ne (t : T) : ¬ p <+: (g.refresh p a).loc t := by
  rw [refresh_loc g hp]
  split
  · exact not_prefix_dropLast hp
  · assumption

/-- **Remove-then-create, then changing the new attributes, leaves the tree as it was** exactly
    when the group was there with the attributes that come out, with nothing below it and no
    member in it. -/
theorem refresh_modify_eq_iff (hpar : (g.attrs p.dropLast).isSome) (f : A → A) :
    (g.refresh p a).modify p f = g ↔
      g.attrs p = some (f a) ∧ (∀ q, p <+: q → q ≠ p → g.attrs q = none) ∧ ∀ t, g.loc t ≠ p := by
  constructor
  · intro h
    have hattrs : ∀ q, ((g.refresh p a).modify p f).attrs q = g.attrs q := fun q => by rw [h]
    have hloc : ∀ t, (g.refresh p a).loc t = g.loc t := fun t => by
      rw [← modify_loc (g.refresh p a) p f, h]
    refine ⟨?_, ?_, ?_⟩
    · rw [← hattrs p, modify_attrs, if_pos rfl, refresh_attrs g hp a hpar, if_pos rfl,
        Option.map_some]
    · intro q hpq hq
      rw [← hattrs q, modify_attrs, if_neg hq, refresh_attrs g hp a hpar, if_neg hq, if_pos hpq]
    · intro t ht
      have := refresh_loc_ne g hp a t
      rw [hloc t, ht] at this
      exact this List.prefix_rfl
  · intro h
    obtain ⟨hself, hbelow, hnomem⟩ := h
    have hout : ∀ t, ¬ p <+: g.loc t := by
      intro t hpt
      have := g.loc_mem t
      rw [hbelow _ hpt (hnomem t)] at this
      exact absurd this (by simp)
    apply GroupTree.ext
    · funext q
      rw [modify_attrs, refresh_attrs g hp a hpar, refresh_attrs g hp a hpar, if_pos rfl,
        Option.map_some]
      split
      · next h => rw [h, hself]
      · next h =>
        split
        · next hpq => rw [hbelow q hpq h]
        · rfl
    · funext t
      rw [modify_loc, refresh_loc g hp, if_neg (hout t)]

end Refresh

end Operations

/-! ## Members -/

section Move

variable [DecidableEq T]

/-- Move the member `t` to the group `p`, if it exists. -/
def move (g : GroupTree N A T) (t : T) (p : List N) : GroupTree N A T :=
  if h : (g.attrs p).isSome then
    { g with
      loc := Function.update g.loc t p
      loc_mem := by
        intro u
        by_cases hu : u = t
        · simpa [hu] using h
        · rw [Function.update_of_ne hu]; exact g.loc_mem u }
  else g

@[simp] theorem move_attrs (g : GroupTree N A T) (t : T) (p : List N) :
    (g.move t p).attrs = g.attrs := by
  unfold move
  split <;> rfl

theorem move_loc (g : GroupTree N A T) {t : T} {p : List N} (h : (g.attrs p).isSome) :
    (g.move t p).loc = Function.update g.loc t p := by
  unfold move
  rw [dif_pos h]

/-- Move the members `ts` to the group `p`, one after the other. -/
def moveAll (g : GroupTree N A T) (ts : List T) (p : List N) : GroupTree N A T :=
  ts.foldl (fun g t => g.move t p) g

@[simp] theorem moveAll_nil (g : GroupTree N A T) (p : List N) : g.moveAll [] p = g := rfl

theorem moveAll_cons (g : GroupTree N A T) (t : T) (ts : List T) (p : List N) :
    g.moveAll (t :: ts) p = (g.move t p).moveAll ts p := rfl

@[simp] theorem moveAll_attrs (g : GroupTree N A T) (ts : List T) (p : List N) :
    (g.moveAll ts p).attrs = g.attrs := by
  induction ts generalizing g with
  | nil => rfl
  | cons t ts ih => rw [moveAll_cons, ih, move_attrs]

/-- Those moved stand in the group, the others where they stood. -/
theorem moveAll_loc (g : GroupTree N A T) (ts : List T) {p : List N} (h : (g.attrs p).isSome)
    (u : T) : (g.moveAll ts p).loc u = if u ∈ ts then p else g.loc u := by
  induction ts generalizing g with
  | nil => simp
  | cons t ts ih =>
    rw [moveAll_cons, ih _ (by rwa [move_attrs]), move_loc g h]
    by_cases hut : u = t
    · simp [hut]
    · simp [hut]

end Move

/-! ## A group with all below it -/

/-- Attributes and members of a group and of those below it, by the path from the group on. -/
@[ext]
structure Subtree (N A T : Type) where
  attrs : List N → Option A
  members : List N → Set T

/-- A group with nothing below it. -/
def Subtree.leaf (a : A) (ts : Set T) : Subtree N A T where
  attrs
    | [] => some a
    | _ :: _ => none
  members
    | [] => ts
    | _ :: _ => ∅

def subtree (g : GroupTree N A T) (p : List N) : Subtree N A T where
  attrs q := g.attrs (p ++ q)
  members q := {t | g.loc t = p ++ q}

section

variable [DecidableEq N] [DecidableEq T]

/-- A group made afresh, with what becomes of its attributes and the members moved to it. -/
theorem subtree_refresh_self (g : GroupTree N A T) {p : List N} (hp : p ≠ [])
    (hpar : (g.attrs p.dropLast).isSome) (a : A) (f : A → A) (ts : List T) :
    (((g.refresh p a).modify p f).moveAll ts p).subtree p = Subtree.leaf (f a) {t | t ∈ ts} := by
  have hself : ((g.refresh p a).modify p f).attrs p = some (f a) := by
    rw [modify_attrs, if_pos rfl, refresh_attrs g hp a hpar, if_pos rfl, Option.map_some]
  have hloc : ∀ t, (((g.refresh p a).modify p f).moveAll ts p).loc t =
      if t ∈ ts then p else (g.refresh p a).loc t := by
    intro t
    rw [moveAll_loc _ ts (by rw [hself]; rfl), modify_loc]
  apply Subtree.ext
  · funext q
    show (((g.refresh p a).modify p f).moveAll ts p).attrs (p ++ q) = _
    rw [moveAll_attrs]
    cases q with
    | nil => rw [List.append_nil]; exact hself
    | cons x q =>
      have hne : p ++ x :: q ≠ p := fun h => by simp at h
      rw [modify_attrs, if_neg hne, refresh_attrs g hp a hpar, if_neg hne,
        if_pos (List.prefix_append _ _)]
      rfl
  · funext q
    ext t
    show (((g.refresh p a).modify p f).moveAll ts p).loc t = p ++ q ↔ _
    rw [hloc t]
    have hout := refresh_loc_ne g hp a t
    have hnot : (g.refresh p a).loc t ≠ p ++ q := fun h => hout (h ▸ List.prefix_append _ _)
    cases q with
    | nil =>
      rw [List.append_nil] at hnot ⊢
      show _ ↔ t ∈ ts
      split
      · next ht => exact iff_of_true rfl ht
      · next ht => exact iff_of_false hnot ht
    | cons x q =>
      refine iff_of_false ?_ (Set.notMem_empty t)
      split
      · exact fun h => by simp at h
      · exact hnot

/-- Of two groups none is below the other. -/
def Apart (p p' : List N) : Prop := ¬ p <+: p' ∧ ¬ p' <+: p

omit [DecidableEq N] [DecidableEq T] in
theorem Apart.not_prefix_append {p p' : List N} (h : Apart p p') (q : List N) :
    ¬ p' <+: p ++ q := by
  intro hpre
  rcases List.prefix_or_prefix_of_prefix hpre (List.prefix_append p q) with h1 | h1
  · exact h.2 h1
  · exact h.1 h1

variable (g : GroupTree N A T) {p p' : List N} (hp' : p' ≠ []) (h : Apart p p')
include hp' h

omit [DecidableEq T] in
theorem subtree_remove : (g.remove p').subtree p = g.subtree p := by
  apply Subtree.ext
  · funext q
    show (g.remove p').attrs (p ++ q) = _
    rw [remove_attrs g hp', if_neg (h.not_prefix_append q)]
    rfl
  · funext q
    ext t
    show (g.remove p').loc t = p ++ q ↔ g.loc t = p ++ q
    rw [remove_loc g hp']
    split
    · next hin =>
      -- it was below `p'` and is now above it, neither is below `p`
      refine iff_of_false (fun heq => ?_) fun heq => h.not_prefix_append q (heq ▸ hin)
      have hpre : p <+: p'.dropLast := heq ▸ List.prefix_append p q
      exact h.1 (hpre.trans (List.dropLast_prefix p'))
    · exact Iff.rfl

omit [DecidableEq T] in
theorem subtree_refresh (hpar : (g.attrs p'.dropLast).isSome) (a : A) (f : A → A) :
    ((g.refresh p' a).modify p' f).subtree p = g.subtree p := by
  have hne : ∀ q, p ++ q ≠ p' := fun q heq => h.1 (heq ▸ List.prefix_append p q)
  rw [← subtree_remove g hp' h]
  apply Subtree.ext
  · funext q
    show ((g.refresh p' a).modify p' f).attrs (p ++ q) = (g.remove p').attrs (p ++ q)
    rw [modify_attrs, if_neg (hne q), refresh_attrs g hp' a hpar, if_neg (hne q),
      remove_attrs g hp']
  · funext q
    ext t
    show ((g.refresh p' a).modify p' f).loc t = p ++ q ↔ (g.remove p').loc t = p ++ q
    rw [modify_loc, refresh, create_loc]

omit hp' [DecidableEq N] in
/-- Members are moved that are not below the group. -/
theorem subtree_moveAll {ts : List T} (hin : (g.attrs p').isSome)
    (hts : ∀ t ∈ ts, ¬ p <+: g.loc t) : (g.moveAll ts p').subtree p = g.subtree p := by
  apply Subtree.ext
  · funext q
    show (g.moveAll ts p').attrs (p ++ q) = g.attrs (p ++ q)
    rw [moveAll_attrs]
  · funext q
    ext t
    show (g.moveAll ts p').loc t = p ++ q ↔ g.loc t = p ++ q
    rw [moveAll_loc g ts hin]
    split
    · next ht =>
      refine iff_of_false (fun heq => h.1 (heq ▸ List.prefix_append p q)) fun heq => ?_
      exact hts t ht (heq ▸ List.prefix_append p q)
    · exact Iff.rfl

end

end GroupTree
