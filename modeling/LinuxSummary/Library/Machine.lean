/-
  Runs of a labelled machine. Proof-only, nothing about one program.

  `Run step s ls s'`: the labels `ls`, taken one after another by `step`, lead from `s` to
  `s'`. `Run.invariant` is the induction over a run, used by name for every safety result.
  `Along P f s ls` says that each step of a deterministic machine meets `P`; `along_congr`
  replaces a property of the steps by a guard on them where an invariant links the two.
-/
import Mathlib

namespace Machine

variable {S L : Type}

/-- The labels lead from the first state to the last. -/
inductive Run (step : S → L → S → Prop) : S → List L → S → Prop
  | nil (s : S) : Run step s [] s
  | cons {s s' s'' : S} {l : L} {ls : List L} (h : step s l s') (hrest : Run step s' ls s'') :
      Run step s (l :: ls) s''

/-- What every step keeps, a run keeps. -/
theorem Run.invariant {step : S → L → S → Prop} {I : S → Prop}
    (hstep : ∀ s l s', I s → step s l s' → I s') {s s' : S} {ls : List L}
    (h : Run step s ls s') (hs : I s) : I s' := by
  induction h with
  | nil s => exact hs
  | cons hone _ ih => exact ih (hstep _ _ _ hs hone)

theorem Run.append {step : S → L → S → Prop} {s s' s'' : S} {ls ls' : List L}
    (h : Run step s ls s') (h' : Run step s' ls' s'') : Run step s (ls ++ ls') s'' := by
  induction h with
  | nil s => exact h'
  | cons hone _ ih => exact .cons hone (ih h')

/-- A run of a machine that says itself which steps it has. -/
theorem Run.of_foldlM {f : S → L → Option S} {ls : List L} {s s' : S}
    (h : ls.foldlM f s = some s') : Run (fun s l s' => f s l = some s') s ls s' := by
  induction ls generalizing s with
  | nil => exact Option.some.inj h ▸ .nil s
  | cons l ls ih =>
    rw [List.foldlM_cons] at h
    obtain ⟨mid, hmid, hrest⟩ := Option.bind_eq_some_iff.mp h
    exact .cons hmid (ih hrest)

/-- Every step of the machine `f` along the labels meets `P`. -/
def Along (P : S → L → Prop) (f : S → L → S) : S → List L → Prop
  | _, [] => True
  | s, l :: ls => P s l ∧ Along P f (f s l) ls

/-- Where the steps that meet `G` keep `I`, and under `I` a step meets `P` exactly when it meets
    `G`, the same holds along every run. -/
theorem along_congr {P G : S → L → Prop} {f : S → L → S} {I : S → Prop}
    (hiff : ∀ s l, I s → (P s l ↔ G s l)) (hkeep : ∀ s l, I s → G s l → I (f s l)) {s : S}
    (hs : I s) (ls : List L) : Along P f s ls ↔ Along G f s ls := by
  induction ls generalizing s with
  | nil => exact Iff.rfl
  | cons l ls ih =>
    unfold Along
    rw [hiff s l hs]
    exact and_congr_right fun hg => ih (hkeep s l hs hg)

/-- A property of the labels alone. -/
theorem along_forall {Q : L → Prop} {f : S → L → S} (s : S) (ls : List L) :
    Along (fun _ l => Q l) f s ls ↔ ∀ l ∈ ls, Q l := by
  induction ls generalizing s with
  | nil => simp [Along]
  | cons l ls ih =>
    unfold Along
    rw [ih, List.forall_mem_cons]

/-- Every step that the machine `f` can take along the labels meets `P`. -/
def AlongSome (P : S → L → Prop) (f : S → L → Option S) : S → List L → Prop
  | _, [] => True
  | s, l :: ls => P s l ∧ ∀ s' ∈ f s l, AlongSome P f s' ls

/-- Where a step that meets `P` keeps `I`, any other step brings `B` about, and `B` stays, a run
    ends in `I` when all its steps meet `P`, and in `B` otherwise. -/
theorem Run.kept_or_lost {P : S → L → Prop} {f : S → L → Option S} {I B : S → Prop}
    (hkeep : ∀ s l s', I s → f s l = some s' → P s l → I s')
    (hlose : ∀ s l s', I s → f s l = some s' → ¬ P s l → B s')
    (hstay : ∀ s l s', B s → f s l = some s' → B s') {s s' : S} {ls : List L}
    (h : Run (fun s l s' => f s l = some s') s ls s') (hs : I s) :
    AlongSome P f s ls ∧ I s' ∨ ¬ AlongSome P f s ls ∧ B s' := by
  induction h with
  | nil s => exact .inl ⟨trivial, hs⟩
  | @cons s s₁ s' l ls hone hrest ih =>
    by_cases hp : P s l
    · rcases ih (hkeep s l s₁ hs hone hp) with ⟨halong, hi⟩ | ⟨halong, hb⟩
      · refine .inl ⟨⟨hp, fun s₂ h₂ => ?_⟩, hi⟩
        obtain rfl := Option.some.inj (hone.symm.trans h₂)
        exact halong
      · exact .inr ⟨fun h => halong (h.2 s₁ hone), hb⟩
    · exact .inr ⟨fun h => hp h.1, hrest.invariant hstay (hlose s l s₁ hs hone hp)⟩

/-- The third list has the elements of the other two, each in its order. -/
inductive Interleave {α : Type} : List α → List α → List α → Prop
  | nil : Interleave [] [] []
  | left {a : α} {u v t : List α} (h : Interleave u v t) : Interleave (a :: u) v (a :: t)
  | right {a : α} {u v t : List α} (h : Interleave u v t) : Interleave u (a :: v) (a :: t)

/-- The members of a family that meet `P`. -/
def count {ι α : Type} [Fintype ι] (P : α → Bool) (f : ι → α) : Nat :=
  (Finset.univ.filter fun i => P (f i)).card

/-- One member of a family moves: it is taken out of the count and put back in as it is now. -/
theorem count_update {ι α : Type} [Fintype ι] [DecidableEq ι] (P : α → Bool) (f : ι → α) (i : ι)
    (a : α) :
    count P (Function.update f i a) + (P (f i)).toNat = count P f + (P a).toNat := by
  have hrest : ∑ j ∈ Finset.univ.erase i, (if P (Function.update f i a j) then 1 else 0) =
      ∑ j ∈ Finset.univ.erase i, if P (f j) then 1 else 0 := by
    refine Finset.sum_congr rfl fun j hj => ?_
    rw [Function.update_of_ne (Finset.ne_of_mem_erase hj)]
  have hone (b : Bool) : b.toNat = if b then 1 else 0 := by cases b <;> rfl
  rw [count, count, Finset.card_filter, Finset.card_filter,
    ← Finset.add_sum_erase _ _ (Finset.mem_univ i), hrest,
    ← Finset.add_sum_erase Finset.univ (fun j => if P (f j) then 1 else 0) (Finset.mem_univ i),
    Function.update_self, hone, hone]
  omega

end Machine
