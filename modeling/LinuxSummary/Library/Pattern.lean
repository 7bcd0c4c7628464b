/-
  Regular expressions that are a sequence of atoms, with the backtracking semantics
  of a scripting language's `re` module. Proof-only, nothing about one program.

  An atom is one character of a class, `class+` (greedy), `class?` (greedy) or `$`
  (the end of the text, or just before a final line feed). Every `class+` is reported
  as a group. `matchHere` is `re.match`, `search` is `re.search` (leftmost match).

  `matchHere_plus` removes the backtracking where what follows a `class+` cannot start
  inside it; `search_line` cuts a search at a line feed that no atom accepts.
-/
import LinuxSummary.Library.Text

namespace Pattern

/-- One item of a regular expression. -/
inductive Atom where
  | chr (p : Char → Bool)
  | plus (p : Char → Bool)
  | opt (p : Char → Bool)
  | eos

/-- The atoms of a literal text. -/
def lit (w : Text) : List Atom := w.map fun c => .chr (· == c)

/-- The first success of `f n, f (n - 1), …, f 1`. -/
def longestFirst {β : Type} (f : Nat → Option β) : Nat → Option β
  | 0 => none
  | n + 1 => f (n + 1) <|> longestFirst f n

/-- One character of the class, then `k`. -/
def one {β : Type} (p : Char → Bool) (k : Text → Option β) : Text → Option β
  | c :: cs => if p c then k cs else none
  | [] => none

/-- Match at the start of the text: the groups and the text after the match. -/
def matchHere : List Atom → Text → Option (List Text × Text)
  | [], s => some ([], s)
  | .chr p :: as, s => one p (matchHere as) s
  | .plus p :: as, s =>
    longestFirst (fun k => (matchHere as (s.drop k)).map fun m => (s.take k :: m.1, m.2))
      (s.takeWhile p).length
  | .opt p :: as, s => one p (matchHere as) s <|> matchHere as s
  | .eos :: as, s => if s = [] ∨ s = ['\n'] then matchHere as s else none

/-- What `re.search` returns: `group()` and `groups()`. -/
structure Found where
  whole : Text
  groups : List Text

/-- The leftmost match in the text. -/
def search (as : List Atom) : Text → Option Found
  | [] => (matchHere as []).map fun m => ⟨[], m.1⟩
  | c :: cs =>
    match matchHere as (c :: cs) with
    | some m => some ⟨(c :: cs).take ((c :: cs).length - m.2.length), m.1⟩
    | none => search as cs

/-! ## One match -/

@[simp] theorem matchHere_nil (s : Text) : matchHere [] s = some ([], s) := rfl

@[simp] theorem matchHere_chr_cons (p : Char → Bool) (as : List Atom) (c : Char) (cs : Text) :
    matchHere (.chr p :: as) (c :: cs) = if p c then matchHere as cs else none := rfl

@[simp] theorem matchHere_chr_nil (p : Char → Bool) (as : List Atom) :
    matchHere (.chr p :: as) [] = none := rfl

/-- A literal text is consumed where it stands. -/
theorem matchHere_lit (w : Text) (as : List Atom) (s : Text) :
    matchHere (lit w ++ as) (w ++ s) = matchHere as s := by
  induction w with
  | nil => rfl
  | cons c w ih => simpa [lit] using ih

theorem prefix_of_matchHere_lit {w : Text} {as : List Atom} {s : Text} {m : List Text × Text}
    (h : matchHere (lit w ++ as) s = some m) : w <+: s := by
  induction w generalizing s with
  | nil => exact List.nil_prefix
  | cons c w ih =>
    cases s with
    | nil => simp [lit] at h
    | cons d s =>
      simp only [lit, List.map_cons, List.cons_append, matchHere_chr_cons, beq_iff_eq] at h
      split at h
      · next hdc => rw [hdc, List.prefix_cons_inj]; exact ih h
      · exact absurd h (by simp)

theorem matchHere_lit_some {w : Text} {as : List Atom} {s : Text} {m : List Text × Text}
    (h : matchHere (lit w ++ as) s = some m) : ∃ t, s = w ++ t ∧ matchHere as t = some m := by
  obtain ⟨t, rfl⟩ := prefix_of_matchHere_lit h
  rw [matchHere_lit] at h
  exact ⟨t, rfl, h⟩

theorem longestFirst_top {β : Type} {f : Nat → Option β} {n : Nat}
    (h : ∀ k, 1 ≤ k → k < n → f k = none) (hn : 0 < n) : longestFirst f n = f n := by
  have hbelow : ∀ m, m < n → longestFirst f m = none := by
    intro m
    induction m with
    | zero => intro _; rfl
    | succ m ih =>
      intro hm
      simp [longestFirst, h (m + 1) (by omega) hm, ih (by omega)]
  cases n with
  | zero => omega
  | succ n => simp [longestFirst, hbelow n (by omega)]

theorem takeWhile_append_run {p : Char → Bool} {a b : Text} (ha : ∀ c ∈ a, p c = true)
    (hb : ∀ c, b.head? = some c → p c = false) : (a ++ b).takeWhile p = a := by
  rw [List.takeWhile_append_of_pos ha]
  cases b with
  | nil => simp
  | cons c b => simp [hb c rfl]

/-- `class+` takes the whole run of its class when what follows cannot start inside it. -/
theorem matchHere_plus {p : Char → Bool} {as : List Atom}
    (hreject : ∀ c cs, p c = true → matchHere as (c :: cs) = none) {a b : Text}
    (ha : ∀ c ∈ a, p c = true) (hb : ∀ c, b.head? = some c → p c = false) (hne : a ≠ []) :
    matchHere (.plus p :: as) (a ++ b) = (matchHere as b).map fun m => (a :: m.1, m.2) := by
  simp only [matchHere, takeWhile_append_run ha hb]
  rw [longestFirst_top]
  · simp
  · intro k _ hk
    -- a shorter run leaves a character of the class in front
    rw [List.drop_append_of_le_length (by omega), List.drop_eq_getElem_cons hk, List.cons_append,
      hreject _ _ (ha _ (List.getElem_mem hk))]
    rfl
  · exact List.length_pos_iff.mpr hne

/-- A `class+` at the end takes the whole run. -/
theorem matchHere_plus_last {p : Char → Bool} {a b : Text} (ha : ∀ c ∈ a, p c = true)
    (hb : ∀ c, b.head? = some c → p c = false) (hne : a ≠ []) :
    matchHere [.plus p] (a ++ b) = some ([a], b) := by
  have hpos : a.length = (a.length - 1) + 1 := by
    have := List.length_pos_iff.mpr hne; omega
  simp only [matchHere, takeWhile_append_run ha hb]
  rw [hpos, longestFirst, ← hpos]
  simp

theorem longestFirst_some {β : Type} {f : Nat → Option β} {n : Nat} {b : β}
    (h : longestFirst f n = some b) : ∃ k, 1 ≤ k ∧ k ≤ n ∧ f k = some b := by
  induction n with
  | zero => exact absurd h (by simp [longestFirst])
  | succ n ih =>
    rw [longestFirst, Option.orElse_eq_orElse, Option.orElse_eq_or, Option.or_eq_some_iff] at h
    rcases h with h | ⟨-, h⟩
    · exact ⟨n + 1, by omega, le_rfl, h⟩
    · obtain ⟨k, h1, h2, h3⟩ := ih h
      exact ⟨k, h1, by omega, h3⟩

/-- What a successful `class+` has consumed. -/
theorem matchHere_plus_some {p : Char → Bool} {as : List Atom} {s : Text}
    {m : List Text × Text} (h : matchHere (.plus p :: as) s = some m) :
    ∃ a b gs, s = a ++ b ∧ a ≠ [] ∧ (∀ c ∈ a, p c = true) ∧
      matchHere as b = some (gs, m.2) ∧ m.1 = a :: gs := by
  obtain ⟨k, h1, h2, h3⟩ := longestFirst_some h
  obtain ⟨⟨gs, r⟩, hm, rfl⟩ := Option.map_eq_some_iff.mp h3
  have hpre : s.takeWhile p <+: s := List.takeWhile_prefix p
  refine ⟨s.take k, s.drop k, gs, (List.take_append_drop k s).symm, ?_, ?_, hm, rfl⟩
  · intro h0
    have := congrArg List.length h0
    have := hpre.length_le
    simp only [List.length_take, List.length_nil] at *
    omega
  · intro c hc
    have htake : s.take k <+: s.takeWhile p :=
      List.prefix_of_prefix_length_le (List.take_prefix k s) hpre (by simp; omega)
    exact List.mem_takeWhile_imp (htake.subset hc)

/-- What is left after a match is an end of the text. -/
theorem suffix_of_matchHere {as : List Atom} {s : Text} {m : List Text × Text}
    (h : matchHere as s = some m) : m.2 <:+ s := by
  induction as generalizing s m with
  | nil =>
    obtain rfl := Option.some.inj h
    exact List.suffix_rfl
  | cons a as ih =>
    have hone : ∀ p, one p (matchHere as) s = some m → m.2 <:+ s := by
      intro p hp
      cases s with
      | nil => exact absurd hp (by simp [one])
      | cons c s =>
        simp only [one] at hp
        split at hp
        · exact (ih hp).trans (List.suffix_cons c s)
        · exact absurd hp (by simp)
    cases a with
    | chr p => exact hone p h
    | plus p =>
      obtain ⟨a, b, gs, rfl, -, -, hm, -⟩ := matchHere_plus_some h
      exact (ih hm).trans (List.suffix_append a b)
    | opt p =>
      rw [matchHere, Option.orElse_eq_orElse, Option.orElse_eq_or, Option.or_eq_some_iff] at h
      rcases h with h | ⟨-, h⟩
      · exact hone p h
      · exact ih h
    | eos =>
      rw [matchHere] at h
      split at h
      · exact ih h
      · exact absurd h (by simp)

/-! ## Searching -/

/-- A match in the text starts at some suffix of it. -/
theorem search_some {as : List Atom} {s : Text} {f : Found} (h : search as s = some f) :
    ∃ pre t r, s = pre ++ t ∧ matchHere as t = some (f.groups, r) := by
  induction s with
  | nil =>
    obtain ⟨⟨gs, r⟩, hm, rfl⟩ := Option.map_eq_some_iff.mp h
    exact ⟨[], [], r, rfl, hm⟩
  | cons c cs ih =>
    rw [search] at h
    split at h
    · next m hm =>
      obtain rfl := Option.some.inj h
      exact ⟨[], c :: cs, m.2, rfl, hm⟩
    · obtain ⟨pre, t, r, rfl, hm⟩ := ih h
      exact ⟨c :: pre, t, r, rfl, hm⟩

/-- A literal that does not occur is not found. -/
theorem search_lit_none {w : Text} {as : List Atom} {s : Text} (h : ¬ w <:+: s) :
    search (lit w ++ as) s = none := by
  by_contra hne
  obtain ⟨f, hf⟩ := Option.ne_none_iff_exists'.mp hne
  obtain ⟨pre, t, r, rfl, hm⟩ := search_some hf
  exact h ((prefix_of_matchHere_lit hm).isInfix.trans (List.suffix_append pre t).isInfix)

/-- A match at the start of the text is the leftmost one. -/
theorem search_of_matchHere {as : List Atom} {s : Text} {m : List Text × Text}
    (h : matchHere as s = some m) :
    search as s = some ⟨s.take (s.length - m.2.length), m.1⟩ := by
  cases s with
  | nil => simp [search, h]
  | cons c cs => simp [search, h]

/-- A search goes on behind a part of the text in which no match starts. -/
theorem search_append_of_none {as : List Atom} {pre s : Text}
    (h : ∀ t, t ≠ [] → t <:+ pre → matchHere as (t ++ s) = none) :
    search as (pre ++ s) = search as s := by
  induction pre with
  | nil => rfl
  | cons c pre ih =>
    have hhere : matchHere as (c :: (pre ++ s)) = none :=
      h (c :: pre) (List.cons_ne_nil c pre) List.suffix_rfl
    have htail : search as (pre ++ s) = search as s :=
      ih fun t hne ht => h t hne (ht.trans (List.suffix_cons c pre))
    rw [List.cons_append, search, hhere]
    exact htail

/-! ## Lines -/

/-- No atom accepts the character `c`, and none asks for the end of the text. -/
def Avoids (c : Char) (as : List Atom) : Prop :=
  ∀ a ∈ as, match a with
    | .chr p | .plus p | .opt p => p c = false
    | .eos => False

/-- What a match leaves over, with more text behind. -/
private def extend (t : Text) (m : List Text × Text) : List Text × Text := (m.1, m.2 ++ t)

private theorem longestFirst_map {β γ : Type} (g : β → γ) {f : Nat → Option β}
    {f' : Nat → Option γ} {n : Nat} (h : ∀ k, k ≤ n → f' k = (f k).map g) :
    longestFirst f' n = (longestFirst f n).map g := by
  induction n with
  | zero => rfl
  | succ n ih =>
    simp only [longestFirst, h (n + 1) le_rfl, ih fun k hk => h k (by omega)]
    cases f (n + 1) <;> simp

private theorem one_append_cons {p : Char → Bool} {c : Char} (hp : p c = false)
    {k : Text → Option (List Text × Text)} {t : Text}
    (hk : ∀ s, k (s ++ c :: t) = (k s).map (extend (c :: t))) (s : Text) :
    one p k (s ++ c :: t) = (one p k s).map (extend (c :: t)) := by
  cases s with
  | nil => simp [one, hp]
  | cons d s =>
    simp only [List.cons_append, one]
    split
    · exact hk s
    · rfl

/-- A match does not see past a character that no atom accepts. -/
theorem matchHere_append_cons {c : Char} {as : List Atom} (has : Avoids c as) (s t : Text) :
    matchHere as (s ++ c :: t) = (matchHere as s).map (extend (c :: t)) := by
  induction as generalizing s with
  | nil => rfl
  | cons a as ih =>
    have htail : Avoids c as := fun b hb => has b (by simp [hb])
    have ha := has a (by simp)
    cases a with
    | chr p => exact one_append_cons ha (ih htail) s
    | plus p =>
      have hw : (s ++ c :: t).takeWhile p = s.takeWhile p := by
        rw [List.takeWhile_append]
        split
        · next h =>
          rw [(List.takeWhile_prefix p).eq_of_length h]
          simp [show p c = false from ha]
        · rfl
      simp only [matchHere, hw]
      refine longestFirst_map _ fun k hk => ?_
      have hk' : k ≤ s.length := hk.trans (List.takeWhile_prefix p).length_le
      rw [List.drop_append_of_le_length hk', List.take_append_of_le_length hk', ih htail]
      simp only [Option.map_map]
      rfl
    | opt p =>
      have h1 := one_append_cons (p := p) ha (ih htail) s
      simp only [matchHere, h1, ih htail]
      cases one p (matchHere as) s <;> simp
    | eos => exact ha.elim

/-- **A search goes line by line** when no atom accepts the line feed. -/
theorem search_append_cons {c : Char} {as : List Atom} (has : Avoids c as)
    (hnil : matchHere as [] = none) (s t : Text) :
    search as (s ++ c :: t) =
      match search as s with
      | some f => some f
      | none => search as t := by
  induction s with
  | nil =>
    have h := matchHere_append_cons has [] t
    rw [hnil] at h
    simp only [List.nil_append, Option.map_none] at h
    simp [search, h, hnil]
  | cons d s ih =>
    have h := matchHere_append_cons has (d :: s) t
    simp only [List.cons_append] at h ⊢
    rw [search, search, h]
    cases hm : matchHere as (d :: s) with
    | none => simpa using ih
    | some m =>
      have hlen : m.2.length ≤ (d :: s).length := (suffix_of_matchHere hm).length_le
      have hsub : (d :: (s ++ c :: t)).length - (m.2 ++ c :: t).length =
          (d :: s).length - m.2.length := by
        simp only [List.length_cons, List.length_append] at hlen ⊢
        omega
      simp only [Option.map_some, extend, hsub]
      rw [← List.cons_append, List.take_append_of_le_length (by omega)]

end Pattern
