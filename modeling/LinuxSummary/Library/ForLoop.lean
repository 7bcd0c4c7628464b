/-
  C's `for (i = 0; cond; i++)` with an `int i`. Proof-only, nothing about one program.

  The counter wraps around. A body faults where it uses something that is not there. A loop
  that has not ended when the fuel is used up is `running`.

  `forLoop_rule` is the invariant rule of the loop, in the number of the turns it has made.
  `forLoop_reach` is the other direction: turns that are known to happen are made.
-/
import LinuxSummary.Library.CInt

namespace ForLoop

open CInt

variable {σ : Type}

/-- How far a loop got. -/
inductive Loop (σ : Type)
  | ended (s : σ)
  | fault (s : σ)
  | running (s : σ)

def Loop.state : Loop σ → σ
  | .ended s => s
  | .fault s => s
  | .running s => s

/-- The loop from the counter `i` on. -/
def forFrom (cond : Int → Bool) (body : Int → σ → Option σ) : Nat → Int → σ → Loop σ
  | 0, i, s => if cond i then .running s else .ended s
  | fuel + 1, i, s =>
    if cond i then
      match body i s with
      | none => .fault s
      | some s' => forFrom cond body fuel (int32 (i + 1)) s'
    else .ended s

def forLoop (cond : Int → Bool) (body : Int → σ → Option σ) (fuel : Nat) (s : σ) : Loop σ :=
  forFrom cond body fuel 0 s

theorem int32_zero : int32 ((0 : Nat) : Int) = 0 := rfl

/-- The counter in turn `k + 1`. -/
theorem int32_succ (k : Nat) : int32 (int32 k + 1) = int32 ((k + 1 : Nat) : Int) := by
  unfold int32
  rw [Int.bmod_add_bmod]
  rfl

variable {cond : Int → Bool} {body : Int → σ → Option σ}

theorem forFrom_ended {i : Int} (h : cond i = false) (fuel : Nat) (s : σ) :
    forFrom cond body fuel i s = .ended s := by
  cases fuel <;> simp [forFrom, h]

theorem forFrom_fault {i : Int} {s : σ} (h : cond i = true) (hbody : body i s = none)
    (fuel : Nat) : forFrom cond body (fuel + 1) i s = .fault s := by
  rw [forFrom, if_pos h, hbody]

theorem forFrom_turn {i : Int} {s s' : σ} (h : cond i = true) (hbody : body i s = some s')
    (fuel : Nat) :
    forFrom cond body (fuel + 1) i s = forFrom cond body fuel (int32 (i + 1)) s' := by
  rw [forFrom, if_pos h, hbody]

theorem forFrom_zero_state (i : Int) (s : σ) : (forFrom cond body 0 i s).state = s := by
  unfold forFrom
  split <;> rfl

/-- What holds after some number of turns, and how the loop stands there. -/
def Stands (cond : Int → Bool) (body : Int → σ → Option σ) (I : Nat → σ → Prop) :
    Loop σ → Prop
  | .ended s => ∃ k, I k s ∧ cond (int32 (k : Nat)) = false
  | .fault s => ∃ k, I k s ∧ cond (int32 (k : Nat)) = true ∧ body (int32 (k : Nat)) s = none
  | .running s => ∃ k, I k s ∧ cond (int32 (k : Nat)) = true

theorem Stands.state {I : Nat → σ → Prop} {l : Loop σ} (h : Stands cond body I l) :
    ∃ k, I k l.state := by
  cases l with
  | ended s => exact ⟨h.choose, h.choose_spec.1⟩
  | fault s => exact ⟨h.choose, h.choose_spec.1⟩
  | running s => exact ⟨h.choose, h.choose_spec.1⟩

theorem forFrom_rule {I : Nat → σ → Prop}
    (hstep : ∀ k s s', cond (int32 (k : Nat)) = true → I k s →
      body (int32 (k : Nat)) s = some s' → I (k + 1) s')
    (fuel k : Nat) {s : σ} (hs : I k s) :
    Stands cond body I (forFrom cond body fuel (int32 k) s) := by
  induction fuel generalizing k s with
  | zero =>
    unfold forFrom
    split
    · next h => exact ⟨k, hs, h⟩
    · next h => exact ⟨k, hs, by simpa using h⟩
  | succ fuel ih =>
    cases hc : cond (int32 k) with
    | false =>
      rw [forFrom_ended hc]
      exact ⟨k, hs, hc⟩
    | true =>
      cases hb : body (int32 k) s with
      | none =>
        rw [forFrom_fault hc hb]
        exact ⟨k, hs, hc, hb⟩
      | some s' =>
        rw [forFrom_turn hc hb, int32_succ]
        exact ih (k + 1) (hstep k s s' hc hs hb)

/-- What each turn keeps holds wherever the loop stands. -/
theorem forLoop_rule {I : Nat → σ → Prop}
    (hstep : ∀ k s s', cond (int32 (k : Nat)) = true → I k s →
      body (int32 (k : Nat)) s = some s' → I (k + 1) s')
    (fuel : Nat) {s : σ} (hs : I 0 s) : Stands cond body I (forLoop cond body fuel s) :=
  forFrom_rule hstep fuel 0 hs

/-- The first `n` turns happen, and lead through the states `st`. -/
def Turns (cond : Int → Bool) (body : Int → σ → Option σ) (st : Nat → σ) (n : Nat) : Prop :=
  ∀ k, k < n → cond (int32 (k : Nat)) = true ∧ body (int32 (k : Nat)) (st k) = some (st (k + 1))

theorem forLoop_reach {st : Nat → σ} {n : Nat} (hturns : Turns cond body st n) (fuel : Nat) :
    forLoop cond body (n + fuel) (st 0) = forFrom cond body fuel (int32 n) (st n) := by
  unfold forLoop
  induction n generalizing fuel with
  | zero => rw [Nat.zero_add, int32_zero]
  | succ n ih =>
    obtain ⟨hc, hb⟩ := hturns n (by omega)
    have hprev := ih (fun k hk => hturns k (by omega)) (fuel + 1)
    rw [show n + 1 + fuel = n + (fuel + 1) by omega, hprev, forFrom_turn hc hb, int32_succ]

theorem forLoop_ends {st : Nat → σ} {n : Nat} (hturns : Turns cond body st n)
    (hend : cond (int32 n) = false) (fuel : Nat) :
    forLoop cond body (n + fuel) (st 0) = .ended (st n) := by
  rw [forLoop_reach hturns, forFrom_ended hend]

/-- Where the states of a loop are known, it stands behind turns that have happened. -/
theorem forLoop_along (st : Nat → σ)
    (hst : ∀ (k : Nat) s, body (int32 k) (st k) = some s → s = st (k + 1)) (fuel : Nat) :
    Stands cond body (fun n s => s = st n ∧ Turns cond body st n)
      (forLoop cond body fuel (st 0)) := by
  apply forLoop_rule
  · intro k s s' hc hs hb
    obtain ⟨rfl, hturns⟩ := hs
    have hs' := hst k s' hb
    refine ⟨hs', fun j hj => ?_⟩
    rcases Nat.lt_succ_iff_lt_or_eq.mp hj with hlt | heq
    · exact hturns j hlt
    · rw [heq, ← hs']
      exact ⟨hc, hb⟩
  · exact ⟨rfl, fun k hk => absurd hk (Nat.not_lt_zero k)⟩

end ForLoop
