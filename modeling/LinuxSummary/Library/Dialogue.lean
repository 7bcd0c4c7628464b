/-
  Programs in dialogue with a server, and their rules. Proof-only, nothing about
  one program.

  A `Prog Q R E α` puts queries `q : Q` to its surroundings, goes on with the reply
  (of type `R q`), and ends with a result in `α` or an exception in `E`. The same
  program is read in three ways:

  * `run serve p s`: alone with a server of state `s`, in sequence.
  * `trace serve p s`: the queries of that run, each with the state it meets.
  * `Step serve rely guard`: interleaved with surroundings that may change the state
    by `rely` between two queries. `Sat` is the invariant rule for it, sound by
    `Sat.sound`; `Meets` is the triple over it, with one rule for each way to build a
    program. `guard q s` restricts the own steps that are considered.

  `PoolStep` is many programs at one server. Each of them sees the others as
  surroundings (`PoolStep.project`), so `Sat` serves there as well. `sat_of_simulation`
  compares a program among others with the same program alone.
-/
import Mathlib

open Relation (ReflTransGen)

/-- A program that puts queries to a server and ends with a result or an exception. -/
inductive Prog (Q : Type) (R : Q → Type) (E α : Type) : Type where
  | ret (a : α)
  | throw (e : E)
  | ask (q : Q) (k : R q → Prog Q R E α)

namespace Prog

variable {Q : Type} {R : Q → Type} {E α β γ S T : Type}

/-! ## Sequencing -/

def bind : Prog Q R E α → (α → Prog Q R E β) → Prog Q R E β
  | .ret a, f => f a
  | .throw e, _ => .throw e
  | .ask q k, f => .ask q fun r => (k r).bind f

instance : Monad (Prog Q R E) where
  pure := .ret
  bind := .bind

/-- Put one query and return the reply. -/
def query (q : Q) : Prog Q R E (R q) := .ask q .ret

/-- `assert b, e`. -/
def require (b : Bool) (e : E) : Prog Q R E Unit := if b then .ret () else .throw e

/-- `for x in xs: f x`. -/
def forEach (xs : List β) (f : β → Prog Q R E Unit) : Prog Q R E Unit :=
  match xs with
  | [] => .ret ()
  | x :: xs => f x >>= fun _ => forEach xs f

@[simp] theorem pure_eq (a : α) : (pure a : Prog Q R E α) = .ret a := rfl

@[simp] theorem ret_bind (a : α) (f : α → Prog Q R E β) : (Prog.ret a >>= f) = f a := rfl

@[simp] theorem throw_bind (e : E) (f : α → Prog Q R E β) :
    (Prog.throw e >>= f) = .throw e := rfl

@[simp] theorem ask_bind (q : Q) (k : R q → Prog Q R E α) (f : α → Prog Q R E β) :
    (Prog.ask q k >>= f) = .ask q fun r => k r >>= f := rfl

@[simp] theorem query_bind (q : Q) (f : R q → Prog Q R E β) :
    (query q >>= f) = .ask q f := rfl

@[simp] theorem forEach_nil (f : β → Prog Q R E Unit) : forEach [] f = .ret () := rfl

@[simp] theorem forEach_cons (x : β) (xs : List β) (f : β → Prog Q R E Unit) :
    forEach (x :: xs) f = (f x >>= fun _ => forEach xs f) := rfl

theorem bind_assoc (p : Prog Q R E α) (f : α → Prog Q R E β) (g : β → Prog Q R E γ) :
    (p >>= f >>= g) = (p >>= fun a => f a >>= g) := by
  induction p with
  | ret a => rfl
  | throw e => rfl
  | ask q k ih =>
    simp only [ask_bind]
    congr 1
    funext r
    exact ih r

theorem bind_ret_unit (p : Prog Q R E Unit) : (p >>= fun _ => .ret ()) = p := by
  induction p with
  | ret a => rfl
  | throw e => rfl
  | ask q k ih =>
    simp only [ask_bind]
    congr 1
    funext r
    exact ih r

/-! ## What a program may ask and raise -/

/-- Every query of the program meets `A` and every exception `B`, whatever the replies. -/
def Only (A : Q → Prop) (B : E → Prop) : Prog Q R E α → Prop
  | .ret _ => True
  | .throw e => B e
  | .ask q k => A q ∧ ∀ r, Only A B (k r)

section
variable {A : Q → Prop} {B : E → Prop}

theorem Only.mono {A' : Q → Prop} (hA : ∀ q, A q → A' q) {p : Prog Q R E α} (hp : Only A B p) :
    Only A' B p := by
  induction p with
  | ret a => exact trivial
  | throw e => exact hp
  | ask q k ih => exact ⟨hA q hp.1, fun r => ih r (hp.2 r)⟩

theorem only_require {b : Bool} {e : E} (h : B e) : Only A B (require (Q := Q) (R := R) b e) := by
  unfold require
  split
  · exact trivial
  · exact h

theorem Only.bind {p : Prog Q R E α} {f : α → Prog Q R E β} (hp : Only A B p)
    (hf : ∀ a, Only A B (f a)) : Only A B (p >>= f) := by
  induction p with
  | ret a => exact hf a
  | throw e => exact hp
  | ask q k ih => exact ⟨hp.1, fun r => ih r (hp.2 r)⟩

theorem only_forEach {f : β → Prog Q R E Unit} (xs : List β) (hf : ∀ x ∈ xs, Only A B (f x)) :
    Only A B (forEach xs f) := by
  induction xs with
  | nil => exact trivial
  | cons x xs ih =>
    rw [forEach_cons]
    exact (hf x (by simp)).bind fun _ => ih fun y hy => hf y (by simp [hy])

end

/-! ## Alone with the server -/

section
variable (serve : (q : Q) → S → R q × S)

/-- The run of `p` alone, from server state `s`: its outcome and the state it leaves. -/
def run : Prog Q R E α → S → Except E α × S
  | .ret a, s => (.ok a, s)
  | .throw e, s => (.error e, s)
  | .ask q k, s => run (k (serve q s).1) (serve q s).2

/-- The queries of the run, each with the server state that it meets. -/
def trace : Prog Q R E α → S → List (Q × S)
  | .ret _, _ => []
  | .throw _, _ => []
  | .ask q k, s => (q, s) :: trace (k (serve q s).1) (serve q s).2

@[simp] theorem run_ret (a : α) (s : S) :
    run serve (.ret a : Prog Q R E α) s = (.ok a, s) := rfl

@[simp] theorem run_throw (e : E) (s : S) :
    run serve (.throw e : Prog Q R E α) s = (.error e, s) := rfl

@[simp] theorem run_ask (q : Q) (k : R q → Prog Q R E α) (s : S) :
    run serve (.ask q k) s = run serve (k (serve q s).1) (serve q s).2 := rfl

@[simp] theorem trace_ret (a : α) (s : S) : trace serve (.ret a : Prog Q R E α) s = [] := rfl

@[simp] theorem trace_throw (e : E) (s : S) :
    trace serve (.throw e : Prog Q R E α) s = [] := rfl

@[simp] theorem trace_ask (q : Q) (k : R q → Prog Q R E α) (s : S) :
    trace serve (.ask q k) s = (q, s) :: trace serve (k (serve q s).1) (serve q s).2 := rfl

theorem run_bind (p : Prog Q R E α) (f : α → Prog Q R E β) (s : S) :
    run serve (p >>= f) s =
      match run serve p s with
      | (.ok a, s') => run serve (f a) s'
      | (.error e, s') => (.error e, s') := by
  induction p generalizing s with
  | ret a => rfl
  | throw e => rfl
  | ask q k ih => exact ih _ _

theorem run_bind_ok {p : Prog Q R E α} {s s' : S} {a : α} (h : run serve p s = (.ok a, s'))
    (f : α → Prog Q R E β) : run serve (p >>= f) s = run serve (f a) s' := by
  rw [run_bind, h]

theorem run_bind_error {p : Prog Q R E α} {s s' : S} {e : E}
    (h : run serve p s = (.error e, s')) (f : α → Prog Q R E β) :
    run serve (p >>= f) s = (.error e, s') := by
  rw [run_bind, h]

/-- A run that ends normally has been through both parts. -/
theorem ok_of_bind {p : Prog Q R E α} {f : α → Prog Q R E β} {s s' : S} {b : β}
    (h : run serve (p >>= f) s = (.ok b, s')) :
    ∃ a t, run serve p s = (.ok a, t) ∧ run serve (f a) t = (.ok b, s') := by
  rw [run_bind] at h
  split at h
  · next a t hp => exact ⟨a, t, hp, h⟩
  · exact absurd (Prod.mk.inj h).1 (by simp)

theorem trace_bind (p : Prog Q R E α) (f : α → Prog Q R E β) (s : S) :
    trace serve (p >>= f) s = trace serve p s ++
      match run serve p s with
      | (.ok a, s') => trace serve (f a) s'
      | (.error _, _) => [] := by
  induction p generalizing s with
  | ret a => rfl
  | throw e => rfl
  | ask q k ih =>
    simp only [ask_bind, trace_ask, run_ask, List.cons_append]
    rw [ih]

theorem trace_bind_ok {p : Prog Q R E α} {s s' : S} {a : α} (h : run serve p s = (.ok a, s'))
    (f : α → Prog Q R E β) :
    trace serve (p >>= f) s = trace serve p s ++ trace serve (f a) s' := by
  rw [trace_bind, h]

/-- Two continuations that agree on what is reached. -/
theorem run_bind_congr {p : Prog Q R E α} {f g : α → Prog Q R E β} {s : S}
    (h : ∀ a s', run serve p s = (.ok a, s') → run serve (f a) s' = run serve (g a) s') :
    run serve (p >>= f) s = run serve (p >>= g) s := by
  rw [run_bind, run_bind]
  rcases hr : run serve p s with ⟨_ | a, s'⟩
  · rfl
  · exact h a s' hr

theorem Only.run_error {A : Q → Prop} {B : E → Prop} {p : Prog Q R E α} (hp : Only A B p)
    {s s' : S} {e : E} (h : run serve p s = (.error e, s')) : B e := by
  induction p generalizing s with
  | ret a => exact absurd h (by simp)
  | throw e' =>
    obtain ⟨he, -⟩ := Prod.mk.inj h
    exact Except.error.inj he ▸ hp
  | ask q k ih => exact ih _ (hp.2 _) h

theorem Only.trace {A : Q → Prop} {B : E → Prop} {p : Prog Q R E α} (hp : Only A B p) {s : S}
    {x : Q × S} (h : x ∈ trace serve p s) : A x.1 := by
  induction p generalizing s with
  | ret a => exact absurd h (by simp)
  | throw e => exact absurd h (by simp)
  | ask q k ih =>
    rcases List.mem_cons.mp h with rfl | h
    · exact hp.1
    · exact ih _ (hp.2 _) h

/-- What the queries that a program puts keep, its run keeps. -/
theorem Only.run_invariant {A : Q → Prop} {B : E → Prop} {I : S → Prop}
    (hstep : ∀ q s, A q → I s → I (serve q s).2) {p : Prog Q R E α} (hp : Only A B p) {s : S}
    (hs : I s) : I (run serve p s).2 := by
  induction p generalizing s with
  | ret a => exact hs
  | throw e => exact hs
  | ask q k ih => exact ih _ (hp.2 _) (hstep q s hp.1 hs)

/-- A program that only puts queries about one component of the state runs on that
    component. -/
theorem Only.run_component {serveT : (q : Q) → T → R q × T} (get : S → T) (put : T → S → S)
    (hget : ∀ s t, get (put t s) = t) (hput : ∀ s t t', put t' (put t s) = put t' s)
    (hself : ∀ s, put (get s) s = s) {A : Q → Prop} {B : E → Prop}
    (hserve : ∀ q s, A q → serve q s = ((serveT q (get s)).1, put (serveT q (get s)).2 s))
    {p : Prog Q R E α} (hp : Only A B p) (s : S) :
    run serve p s = ((run serveT p (get s)).1, put (run serveT p (get s)).2 s) := by
  induction p generalizing s with
  | ret a => exact Prod.ext rfl (hself s).symm
  | throw e => exact Prod.ext rfl (hself s).symm
  | ask q k ih => rw [run_ask, hserve q s hp.1, ih _ (hp.2 _), run_ask, hget, hput]

/-- Every reply of the run is good. -/
def Replies (good : (q : Q) → R q → Prop) (p : Prog Q R E α) (s : S) : Prop :=
  ∀ x ∈ trace serve p s, good x.1 (serve x.1 x.2).1

theorem Replies.left {serve : (q : Q) → S → R q × S} {good : (q : Q) → R q → Prop}
    {p : Prog Q R E α} {f : α → Prog Q R E β} {s : S} (h : Replies serve good (p >>= f) s) :
    Replies serve good p s := by
  intro x hx
  refine h x ?_
  rw [trace_bind]
  exact List.mem_append_left _ hx

theorem Replies.right {serve : (q : Q) → S → R q × S} {good : (q : Q) → R q → Prop}
    {p : Prog Q R E α} {f : α → Prog Q R E β} {s s' : S} {a : α}
    (h : Replies serve good (p >>= f) s) (hp : run serve p s = (.ok a, s')) :
    Replies serve good (f a) s' := by
  intro x hx
  refine h x ?_
  rw [trace_bind_ok serve hp]
  exact List.mem_append_right _ hx

/-- What every query keeps, a run keeps. -/
theorem run_invariant {I : S → Prop} (hstep : ∀ q s, I s → I (serve q s).2)
    (p : Prog Q R E α) {s : S} (hs : I s) : I (run serve p s).2 := by
  induction p generalizing s with
  | ret a => exact hs
  | throw e => exact hs
  | ask q k ih => exact ih _ (hstep q s hs)

/-- A loop whose body always succeeds folds the effect of the body. -/
theorem run_forEach {f : β → Prog Q R E Unit} {eff : S → β → S} (xs : List β)
    (hf : ∀ x ∈ xs, ∀ s, run serve (f x) s = (.ok (), eff s x)) (s : S) :
    run serve (forEach xs f) s = (.ok (), xs.foldl eff s) := by
  induction xs generalizing s with
  | nil => rfl
  | cons x xs ih =>
    rw [forEach_cons, run_bind_ok serve (hf x (by simp) s), List.foldl_cons]
    exact ih (fun y hy => hf y (by simp [hy])) _

end

/-! ## Among others -/

section
variable (serve : (q : Q) → S → R q × S) (rely : S → S → Prop) (guard : Q → S → Prop)

/-- One step of a program among surroundings: its next query is served, where `guard`
    allows it, or the surroundings change the state. -/
inductive Step : S × Prog Q R E α → S × Prog Q R E α → Prop
  | own {q : Q} {k : R q → Prog Q R E α} {s : S} (hg : guard q s) :
      Step (s, .ask q k) ((serve q s).2, k (serve q s).1)
  | other {p : Prog Q R E α} {s s' : S} (h : rely s s') : Step (s, p) (s', p)

/-- `Sat Post p s`: from `s`, however the surroundings interfere, an end of `p` meets `Post`,
    and goes on meeting it. -/
def Sat (Post : Except E α → S → Prop) : Prog Q R E α → S → Prop
  | .ret a, s => ∀ s', ReflTransGen rely s s' → Post (.ok a) s'
  | .throw e, s => ∀ s', ReflTransGen rely s s' → Post (.error e) s'
  | .ask q k, s => ∀ s', ReflTransGen rely s s' → guard q s' →
      Sat Post (k (serve q s').1) (serve q s').2

variable {serve rely guard}

theorem Sat.stable {Post : Except E α → S → Prop} {p : Prog Q R E α} {s s' : S}
    (h : Sat serve rely guard Post p s) (hr : ReflTransGen rely s s') :
    Sat serve rely guard Post p s' := by
  cases p with
  | ret a => exact fun t ht => h t (hr.trans ht)
  | throw e => exact fun t ht => h t (hr.trans ht)
  | ask q k => exact fun t ht => h t (hr.trans ht)

theorem Sat.step {Post : Except E α → S → Prop} {c c' : S × Prog Q R E α}
    (h : Sat serve rely guard Post c.2 c.1) (hs : Step serve rely guard c c') :
    Sat serve rely guard Post c'.2 c'.1 := by
  cases hs with
  | own hg => exact h _ ReflTransGen.refl hg
  | other hr => exact h.stable (ReflTransGen.single hr)

/-- Every interleaved run keeps `Sat`. -/
theorem Sat.run {Post : Except E α → S → Prop} {c c' : S × Prog Q R E α}
    (h : Sat serve rely guard Post c.2 c.1)
    (hs : ReflTransGen (Step serve rely guard) c c') :
    Sat serve rely guard Post c'.2 c'.1 := by
  induction hs with
  | refl => exact h
  | tail _ hstep ih => exact ih.step hstep

/-- When the program has returned, in whatever state, `Post` holds. -/
theorem Sat.sound {Post : Except E α → S → Prop} {p : Prog Q R E α} {s s' : S} {a : α}
    (h : Sat serve rely guard Post p s)
    (hs : ReflTransGen (Step serve rely guard) (s, p) (s', .ret a)) : Post (.ok a) s' :=
  have hend : Sat serve rely guard Post (.ret a : Prog Q R E α) s' := Sat.run (c := (s, p)) h hs
  hend s' ReflTransGen.refl

theorem Sat.bind {Post : Except E β → S → Prop} {p : Prog Q R E α}
    {f : α → Prog Q R E β} {s : S}
    (h : Sat serve rely guard (fun r s' => match r with
      | .ok a => Sat serve rely guard Post (f a) s'
      | .error e => Post (.error e) s') p s) :
    Sat serve rely guard Post (p >>= f) s := by
  induction p generalizing s with
  | ret a => exact h s ReflTransGen.refl
  | throw e => exact h
  | ask q k ih => exact fun s' hr hg => ih _ (h s' hr hg)

theorem Sat.mono {P P' : Except E α → S → Prop} (hP : ∀ r s, P r s → P' r s) {p : Prog Q R E α}
    {s : S} (h : Sat serve rely guard P p s) : Sat serve rely guard P' p s := by
  induction p generalizing s with
  | ret a => exact fun s' hr => hP _ _ (h s' hr)
  | throw e => exact fun s' hr => hP _ _ (h s' hr)
  | ask q k ih => exact fun s' hr hg => ih _ (h s' hr hg)

/-- What is met at an end goes on being met. -/
theorem Sat.later {Post : Except E α → S → Prop} {p : Prog Q R E α} {s : S}
    (h : Sat serve rely guard Post p s) :
    Sat serve rely guard (fun r s' => ∀ s'', ReflTransGen rely s' s'' → Post r s'') p s := by
  induction p generalizing s with
  | ret a => exact fun s' hr s'' hr' => h s'' (hr.trans hr')
  | throw e => exact fun s' hr s'' hr' => h s'' (hr.trans hr')
  | ask q k ih => exact fun s' hr hg => ih _ (h s' hr hg)

/-! ### Triples -/

variable (serve rely guard) in
/-- From a state in `I`, however the surroundings interfere, a normal end of `p` meets `J`. -/
def Meets (I : S → Prop) (p : Prog Q R E α) (J : α → S → Prop) : Prop :=
  ∀ s, I s → Sat serve rely guard (fun r s' => ∀ a, r = .ok a → J a s') p s

/-- A condition that the surroundings keep. -/
def Stable (rely : S → S → Prop) (I : S → Prop) : Prop := ∀ s s', I s → rely s s' → I s'

theorem Stable.star {I : S → Prop} (hI : Stable rely I) {s s' : S} (h : I s)
    (hr : ReflTransGen rely s s') : I s' := by
  induction hr with
  | refl => exact h
  | tail _ hstep ih => exact hI _ _ ih hstep

section
variable {I : S → Prop} {J : α → S → Prop}

theorem meets_ret {a : α} (hJ : Stable rely (J a)) (h : ∀ s, I s → J a s) :
    Meets serve rely guard I (.ret a : Prog Q R E α) J := by
  intro s hs s' hr b hb
  obtain rfl := Except.ok.inj hb
  exact hJ.star (h s hs) hr

theorem meets_throw {e : E} : Meets serve rely guard I (.throw e : Prog Q R E α) J :=
  fun _ _ _ _ _ hb => absurd hb (by simp)

/-- One query: what is known before it has to be kept by the surroundings. -/
theorem meets_ask {q : Q} {k : R q → Prog Q R E α} (hI : Stable rely I)
    (h : ∀ r, Meets serve rely guard (fun s' => ∃ s, I s ∧ serve q s = (r, s')) (k r) J) :
    Meets serve rely guard I (.ask q k) J :=
  fun _ hs s' hr _ => h _ _ ⟨s', hI.star hs hr, rfl⟩

theorem meets_require {b : Bool} {e : E} (hI : Stable rely I) :
    Meets serve rely guard I (require (Q := Q) (R := R) b e) fun _ => I := by
  unfold require
  split
  · exact meets_ret hI fun _ h => h
  · exact meets_throw

theorem meets_true (p : Prog Q R E α) : Meets serve rely guard I p fun _ _ => True := by
  have hsat : ∀ s, Sat serve rely guard (fun r _ => ∀ a : α, r = .ok a → True) p s := by
    induction p with
    | ret a => exact fun _ _ _ _ _ => trivial
    | throw e => exact fun _ _ _ _ _ => trivial
    | ask q k ih => exact fun _ _ _ _ => ih _ _
  exact fun s _ => hsat s

theorem Meets.weaken {I' : S → Prop} {p : Prog Q R E α} (hI : ∀ s, I' s → I s)
    (h : Meets serve rely guard I p J) : Meets serve rely guard I' p J :=
  fun s hs => h s (hI s hs)

theorem Meets.bind {K : α → S → Prop} {J : β → S → Prop} {p : Prog Q R E α}
    {f : α → Prog Q R E β} (hp : Meets serve rely guard I p K)
    (hf : ∀ a, Meets serve rely guard (K a) (f a) J) : Meets serve rely guard I (p >>= f) J := by
  intro s hs
  refine Sat.bind ((hp s hs).mono fun r s' hK => ?_)
  cases r with
  | ok a => exact hf a s' (hK a rfl)
  | error e => exact fun b hb => absurd hb (by simp)

/-- A loop, by an invariant over the elements that are left. -/
theorem meets_forEach {f : β → Prog Q R E Unit} {I : List β → S → Prop}
    (hnil : Stable rely (I []))
    (hstep : ∀ x xs, Meets serve rely guard (I (x :: xs)) (f x) fun _ => I xs) (xs : List β) :
    Meets serve rely guard (I xs) (forEach xs f) fun _ => I [] := by
  induction xs with
  | nil => exact meets_ret hnil fun _ h => h
  | cons x xs ih => exact (hstep x xs).bind fun _ => ih

theorem Meets.sound {p : Prog Q R E α} (h : Meets serve rely guard I p J) {s s' : S} {a : α}
    (hs : I s) (hrun : ReflTransGen (Step serve rely guard) (s, p) (s', .ret a)) : J a s' :=
  (h s hs).sound hrun a rfl

end

/-- What a program can do, it can do before another. -/
theorem steps_bind {p : Prog Q R E α} {f : α → Prog Q R E β} {s s' : S} {a : α}
    (h : ReflTransGen (Step serve rely guard) (s, p) (s', .ret a)) :
    ReflTransGen (Step serve rely guard) (s, p >>= f) (s', f a) := by
  refine h.lift (fun c : S × Prog Q R E α => (c.1, c.2 >>= f)) fun c c' hc => ?_
  cases hc with
  | own hg => exact .own hg
  | other hr => exact .other hr

/-- A run alone is one of the interleavings. -/
theorem steps_of_run {p : Prog Q R E α} {f : α → Prog Q R E β} {s s' : S} {a : α}
    (h : Prog.run serve p s = (.ok a, s')) :
    ReflTransGen (Step serve rely fun _ _ => True) (s, p >>= f) (s', f a) := by
  induction p generalizing s with
  | ret b =>
    obtain ⟨h1, rfl⟩ := Prod.mk.inj h
    obtain rfl := Except.ok.inj h1
    exact ReflTransGen.refl
  | throw e => exact absurd h (by simp)
  | ask q k ih => exact ReflTransGen.head (Step.own trivial) (ih _ h)

/-! ### Comparison with the program alone -/

/-- **Among others as alone.** If the surroundings keep `Sim s t` and an own query in related
    states gets one reply and related states, the program among others ends as the program
    alone from `t`. -/
theorem sat_of_simulation {serveT : (q : Q) → T → R q × T} {Sim : S → T → Prop}
    (hrely : ∀ s s' t, Sim s t → rely s s' → Sim s' t)
    (hown : ∀ q s t, Sim s t → guard q s →
      (serve q s).1 = (serveT q t).1 ∧ Sim (serve q s).2 (serveT q t).2)
    (p : Prog Q R E α) {s : S} {t : T} (h : Sim s t) :
    Sat serve rely guard (fun r _ => r = (Prog.run serveT p t).1) p s := by
  have hstar : ∀ {s s' t}, Sim s t → ReflTransGen rely s s' → Sim s' t := by
    intro s s' t h hr
    induction hr with
    | refl => exact h
    | tail _ hstep ih => exact hrely _ _ _ ih hstep
  induction p generalizing s t with
  | ret a => exact fun _ _ => rfl
  | throw e => exact fun _ _ => rfl
  | ask q k ih =>
    intro s' hr hg
    obtain ⟨hrep, hsim⟩ := hown q s' t (hstar h hr) hg
    rw [run_ask, ← hrep]
    exact ih _ hsim

end

/-! ## A pool of programs at one server -/

section
variable {ι : Type} [DecidableEq ι] (serve : ι → (q : Q) → S → R q × S)
  (guard : ι → Q → S → Prop)

/-- One step of the pool: the server serves the next query of one member `i`. -/
inductive PoolStep : S × (ι → Prog Q R E α) → S × (ι → Prog Q R E α) → Prop
  | ask {i : ι} {q : Q} {k : R q → Prog Q R E α} {s : S} {ps : ι → Prog Q R E α}
      (hp : ps i = .ask q k) (hg : guard i q s) :
      PoolStep (s, ps) ((serve i q s).2, Function.update ps i (k (serve i q s).1))

/-- What the other members of the pool do to the state, seen from member `i`. -/
def others (i : ι) (s s' : S) : Prop :=
  ∃ j, j ≠ i ∧ ∃ q, guard j q s ∧ s' = (serve j q s).2

variable {serve guard}

/-- Member `i` of the pool runs as a program among surroundings. -/
theorem PoolStep.project {c c' : S × (ι → Prog Q R E α)}
    (hs : ReflTransGen (PoolStep serve guard) c c') (i : ι) :
    ReflTransGen (Step (serve i) (others serve guard i) (guard i))
      (c.1, c.2 i) (c'.1, c'.2 i) := by
  induction hs with
  | refl => exact ReflTransGen.refl
  | tail _ hstep ih =>
    refine ih.tail ?_
    cases hstep with
    | @ask j q k s ps hp hg =>
      by_cases hji : j = i
      · subst hji
        simp only [Function.update_self, hp]
        exact Step.own hg
      · simp only [Function.update_of_ne (Ne.symm hji)]
        exact Step.other ⟨j, hji, q, hg, rfl⟩

/-- What is left of a program that has ended. -/
def ended : Except E α → Prog Q R E α
  | .ok a => .ret a
  | .error e => .throw e

/-- Where nothing bars member `i`, its run alone is a run of the pool in which the others wait. -/
theorem pool_of_run {I : S → Prop} {i : ι} (hguard : ∀ q s, I s → guard i q s)
    (hkeep : ∀ q s, I s → I (serve i q s).2) (p : Prog Q R E α) {s : S} (hs : I s)
    (ps : ι → Prog Q R E α) :
    ReflTransGen (PoolStep serve guard) (s, Function.update ps i p)
      ((run (serve i) p s).2, Function.update ps i (ended (run (serve i) p s).1)) := by
  induction p generalizing s with
  | ret a => exact ReflTransGen.refl
  | throw e => exact ReflTransGen.refl
  | ask q k ih =>
    have hstep : PoolStep serve guard (s, Function.update ps i (.ask q k)) _ :=
      PoolStep.ask (Function.update_self i (.ask q k) ps) (hguard q s hs)
    rw [Function.update_idem] at hstep
    exact ReflTransGen.head hstep (ih _ (hkeep q s hs))

end

end Prog
