/-
  Texts as lists of characters, with the substring test, the replacement and the
  splitting that scripting languages have on strings. Proof-only, nothing about
  one program.

  `occursIn` is `needle in text`, `replaceAll` is `text.replace(old, new)` (leftmost
  occurrences, non-overlapping), `List.splitOn` of the core library is `text.split(c)`.
-/
import Mathlib

/-- A text: its characters in order. A byte of a C string is the character of its code. -/
abbrev Text := List Char

namespace Text

/-- `x in xs` -/
instance instDecidableMem (x : Text) (xs : List Text) : Decidable (x ∈ xs) := inferInstance

/-! ## Substrings -/

/-- `needle in text`. -/
def occursIn (needle text : Text) : Bool :=
  text.tails.any (needle.isPrefixOf ·)

theorem occursIn_iff (needle text : Text) : occursIn needle text = true ↔ needle <:+: text := by
  simp only [occursIn, List.any_eq_true, List.mem_tails, List.isPrefixOf_iff_prefix]
  constructor
  · intro h
    obtain ⟨t, hsuf, hpre⟩ := h
    exact hpre.isInfix.trans hsuf.isInfix
  · intro h
    obtain ⟨pre, suf, h⟩ := h
    refine ⟨needle ++ suf, ⟨pre, by simpa using h⟩, List.prefix_append _ _⟩

theorem not_occursIn_iff (needle text : Text) :
    occursIn needle text = false ↔ ¬ needle <:+: text := by
  rw [← occursIn_iff, Bool.not_eq_true]

/-! ## Replacement -/

/-- `replaceFrom old new k text`: drop the `k` characters of `text` that belong to an
    occurrence already replaced, then replace the occurrences in the rest. -/
def replaceFrom (old new : Text) : Nat → Text → Text
  | _, [] => []
  | k + 1, _ :: cs => replaceFrom old new k cs
  | 0, c :: cs =>
    if old.isPrefixOf (c :: cs) then new ++ replaceFrom old new (old.length - 1) cs
    else c :: replaceFrom old new 0 cs

/-- `text.replace(old, new)` for a non-empty `old`. -/
def replaceAll (old new text : Text) : Text := replaceFrom old new 0 text

theorem replaceFrom_drop (old new : Text) (k : Nat) (text : Text) :
    replaceFrom old new k text = replaceAll old new (text.drop k) := by
  induction k generalizing text with
  | zero => rfl
  | succ k ih =>
    cases text with
    | nil => rfl
    | cons c cs => exact ih cs

/-- A text without an occurrence of `old` is unchanged. -/
theorem replaceAll_of_not_infix {old : Text} (new : Text) {text : Text}
    (h : ¬ old <:+: text) : replaceAll old new text = text := by
  induction text with
  | nil => rfl
  | cons c cs ih =>
    have hpre : old.isPrefixOf (c :: cs) = false := by
      rw [← Bool.not_eq_true, List.isPrefixOf_iff_prefix]
      exact fun hp => h hp.isInfix
    have htail : ¬ old <:+: cs := fun hi => h (hi.trans (List.suffix_cons c cs).isInfix)
    simp only [replaceAll, replaceFrom, hpre, Bool.false_eq_true, if_false] at ih ⊢
    rw [ih htail]

/-- The first occurrence is replaced and the rest treated alike. -/
theorem replaceAll_prefix {old : Text} (hold : old ≠ []) (new rest : Text) :
    replaceAll old new (old ++ rest) = new ++ replaceAll old new rest := by
  cases old with
  | nil => exact absurd rfl hold
  | cons c cs =>
    have hpre : (c :: cs).isPrefixOf (c :: (cs ++ rest)) = true := by
      rw [List.isPrefixOf_iff_prefix]
      exact ⟨rest, rfl⟩
    simp only [replaceAll, List.cons_append, replaceFrom, hpre, if_true]
    rw [replaceFrom_drop]
    simp [replaceAll]

/-- Replacement splits at a character that the replaced text does not have. -/
theorem replaceAll_append_cons {old : Text} (new : Text) {c : Char} (hc : c ∉ old)
    (hold : old ≠ []) (a b : Text) :
    replaceAll old new (a ++ c :: b) = replaceAll old new a ++ c :: replaceAll old new b := by
  induction hn : a.length using Nat.strong_induction_on generalizing a with
  | _ n ih =>
    subst hn
    cases a with
    | nil =>
      have hpre : old.isPrefixOf (c :: b) = false := by
        rw [← Bool.not_eq_true, List.isPrefixOf_iff_prefix]
        intro h
        obtain ⟨t, ht⟩ := h
        cases old with
        | nil => exact hold rfl
        | cons d o => exact hc (by simp [(List.cons.inj ht).1])
      simp [replaceAll, replaceFrom, hpre]
    | cons d a =>
      by_cases hp : old <+: d :: a
      · obtain ⟨t, ht⟩ := hp
        have hlen : t.length < (d :: a).length := by
          have := congrArg List.length ht
          have : 0 < old.length := List.length_pos_iff.mpr hold
          simp only [List.length_append] at *
          omega
        rw [← ht, List.append_assoc, replaceAll_prefix hold, replaceAll_prefix hold,
          ih t.length hlen t rfl, List.append_assoc]
      · have h1 : old.isPrefixOf (d :: a) = false := by
          rw [← Bool.not_eq_true, List.isPrefixOf_iff_prefix]; exact hp
        have h2 : old.isPrefixOf (d :: (a ++ c :: b)) = false := by
          rw [← Bool.not_eq_true, List.isPrefixOf_iff_prefix]
          -- a prefix that reaches past `d :: a` would hold `c`
          intro h
          obtain ⟨t, ht⟩ := h
          rcases List.append_eq_append_iff.mp (show old ++ t = (d :: a) ++ c :: b from ht) with
            ⟨m, hm, -⟩ | ⟨m, hm, hk⟩
          · exact hp ⟨m, hm.symm⟩
          · cases m with
            | nil => exact hp ⟨[], by simp [hm]⟩
            | cons e m =>
              obtain rfl : c = e := (List.cons.inj hk).1
              exact hc (by simp [hm])
        have := ih a.length (by simp) a rfl
        simp only [replaceAll, List.cons_append, replaceFrom, h1, h2, Bool.false_eq_true,
          if_false] at this ⊢
        rw [this]

/-- What lacks the first character of the replaced text is skipped. -/
theorem replaceAll_append_of_not_mem {d : Char} {old : Text} (new : Text) {a : Text} (ha : d ∉ a)
    (b : Text) : replaceAll (d :: old) new (a ++ b) = a ++ replaceAll (d :: old) new b := by
  induction a with
  | nil => rfl
  | cons c a ih =>
    simp only [List.mem_cons, not_or] at ha
    have hpre : (d :: old).isPrefixOf (c :: (a ++ b)) = false := by
      rw [List.isPrefixOf_cons_cons, beq_eq_false_iff_ne.mpr ha.1, Bool.false_and]
    have := ih ha.2
    simp only [replaceAll, List.cons_append, replaceFrom, hpre, Bool.false_eq_true,
      if_false] at this ⊢
    rw [this]

/-- Cutting occurrences out adds no character. -/
theorem mem_of_mem_replaceAll {old : Text} {c : Char} {text : Text}
    (h : c ∈ replaceAll old [] text) : c ∈ text := by
  have hfrom : ∀ (text : Text) (k : Nat), c ∈ replaceFrom old [] k text → c ∈ text := by
    intro text
    induction text with
    | nil => intro k hk; cases k <;> exact absurd hk (by simp [replaceFrom])
    | cons d text ih =>
      intro k hk
      cases k with
      | succ k => exact List.mem_cons_of_mem _ (ih k hk)
      | zero =>
        rw [replaceFrom] at hk
        split at hk
        · exact List.mem_cons_of_mem _ (ih _ hk)
        · rcases List.mem_cons.mp hk with rfl | hk
          · exact List.mem_cons_self
          · exact List.mem_cons_of_mem _ (ih 0 hk)
  exact hfrom text 0 h

/-! ## Joined fields -/

theorem intercalate_cons (c : Char) (x : Text) (xs : List Text) :
    [c].intercalate (x :: xs) = x ++ xs.flatMap (c :: ·) := by
  induction xs generalizing x with
  | nil => simp
  | cons y ys ih =>
    rw [List.intercalate_cons_cons, ih y]
    simp

/-- Replacing inside joined fields replaces in each of them. -/
theorem replaceAll_intercalate {old : Text} (new : Text) {c : Char} (hc : c ∉ old)
    (hold : old ≠ []) (xs : List Text) :
    replaceAll old new ([c].intercalate xs) = [c].intercalate (xs.map (replaceAll old new)) := by
  induction xs with
  | nil => rfl
  | cons x xs ih =>
    cases xs with
    | nil => simp
    | cons y ys =>
      rw [List.map_cons, List.map_cons, List.intercalate_cons_cons, List.intercalate_cons_cons,
        List.append_assoc, List.singleton_append, replaceAll_append_cons new hc hold, ih,
        List.append_assoc, List.singleton_append, List.map_cons]

/-- A needle without `c` that starts before a `c` ends before it. -/
theorem prefix_of_prefix_append {needle a b : Text} {c : Char} (hc : c ∉ needle)
    (hb : ∀ d, b.head? = some d → d = c) (h : needle <+: a ++ b) : needle <+: a := by
  rcases List.prefix_or_prefix_of_prefix h (List.prefix_append a b) with hp | ⟨y, rfl⟩
  · exact hp
  · have hy : y <+: b := (List.prefix_append_right_inj a).mp h
    cases y with
    | nil => simp
    | cons d y =>
      obtain ⟨t, rfl⟩ := hy
      obtain rfl := hb d rfl
      exact absurd (by simp) hc

/-- Cutting `c` and a field name out of joined fields removes the fields of that name behind the
    first, when no other field starts with it. -/
theorem replaceAll_fields {c : Char} {x : Text} (hx : c ∉ x) {n : Text} (hn : c ∉ n)
    {ns : List Text} (hns : ∀ m ∈ ns, c ∉ m) (hpre : ∀ m ∈ ns, x <+: m → m = x) :
    replaceAll (c :: x) [] ([c].intercalate (n :: ns)) =
      [c].intercalate (n :: ns.filter (· ≠ x)) := by
  rw [intercalate_cons, intercalate_cons, replaceAll_append_of_not_mem [] hn]
  congr 1
  clear hn
  induction ns with
  | nil => rfl
  | cons m ns ih =>
    have ih' := ih (fun m' h => hns m' (by simp [h])) (fun m' h => hpre m' (by simp [h]))
    by_cases hm : m = x
    · subst hm
      rw [List.filter_cons_of_neg (by simp), List.flatMap_cons,
        replaceAll_prefix (by simp), ih', List.nil_append]
    · have hhead : ∀ d, (ns.flatMap (c :: ·)).head? = some d → d = c := by
        intro d hd
        cases ns with
        | nil => exact absurd hd (by simp)
        | cons m' ns =>
          rw [List.flatMap_cons] at hd
          exact (Option.some.inj hd).symm
      have hno : (c :: x).isPrefixOf (c :: (m ++ ns.flatMap (c :: ·))) = false := by
        rw [← Bool.not_eq_true, List.isPrefixOf_iff_prefix, List.prefix_cons_inj]
        intro hp
        exact hm (hpre m (by simp) (prefix_of_prefix_append hx hhead hp))
      have hstep : replaceAll (c :: x) [] (c :: (m ++ ns.flatMap (c :: ·))) =
          c :: replaceAll (c :: x) [] (m ++ ns.flatMap (c :: ·)) := by
        simp only [replaceAll, replaceFrom, hno, Bool.false_eq_true, if_false]
      rw [List.filter_cons_of_pos (by simpa using hm), List.flatMap_cons, List.flatMap_cons,
        List.cons_append, hstep, replaceAll_append_of_not_mem [] (hns m (by simp)), ih',
        List.cons_append]

/-! ## Splitting -/

/-- The first `c` cuts a text in one way. -/
theorem append_cons_inj {c : Char} {a a' b b' : Text} (ha : c ∉ a) (ha' : c ∉ a')
    (h : a ++ c :: b = a' ++ c :: b') : a = a' ∧ b = b' := by
  induction a generalizing a' with
  | nil =>
    cases a' with
    | nil => exact ⟨rfl, (List.cons.inj h).2⟩
    | cons d a' => exact absurd (List.cons.inj h).1 (List.ne_of_not_mem_cons ha')
  | cons d a ih =>
    cases a' with
    | nil => exact absurd (List.cons.inj h).1.symm (List.ne_of_not_mem_cons ha)
    | cons d' a' =>
      obtain ⟨hd, htail⟩ := List.cons.inj h
      obtain ⟨h1, h2⟩ := ih (List.not_mem_of_not_mem_cons ha) (List.not_mem_of_not_mem_cons ha')
        htail
      exact ⟨by rw [hd, h1], h2⟩

/-- An end of a text with a `c` in it begins before the `c`, or behind it. -/
theorem suffix_append_cons {c : Char} {t a b : Text} (h : t <:+ a ++ c :: b) :
    (∃ a', a' <:+ a ∧ t = a' ++ c :: b) ∨ t <:+ b := by
  induction a with
  | nil =>
    rcases List.suffix_cons_iff.mp h with h | h
    · exact .inl ⟨[], List.suffix_rfl, h⟩
    · exact .inr h
  | cons d a ih =>
    rcases List.suffix_cons_iff.mp h with h | h
    · exact .inl ⟨d :: a, List.suffix_rfl, h⟩
    · rcases ih h with ⟨a', ha', rfl⟩ | h
      · exact .inl ⟨a', ha'.trans (List.suffix_cons d a), rfl⟩
      · exact .inr h

/-- A field that ends in `a`, with another one behind it, shows that `a ++ [c]` occurs. -/
theorem infix_of_splitOn {c : Char} {s a y k : Text} {ws vs : List Text}
    (h : s.splitOn c = ws ++ (y ++ a) :: k :: vs) : a ++ [c] <:+: s := by
  have hs : [c].intercalate (ws ++ (y ++ a) :: k :: vs) = s := by
    rw [← h, List.intercalate_splitOn]
  rw [← hs]
  clear h hs
  induction ws with
  | nil =>
    rw [List.nil_append, List.intercalate_cons_cons]
    exact ⟨y, [c].intercalate (k :: vs), by simp⟩
  | cons w ws ih =>
    have hne : ∃ w' ws', ws ++ (y ++ a) :: k :: vs = w' :: ws' := by
      cases ws with
      | nil => exact ⟨_, _, rfl⟩
      | cons w' ws' => exact ⟨_, _, rfl⟩
    obtain ⟨w', ws', he⟩ := hne
    rw [List.cons_append, he, List.intercalate_cons_cons, ← he]
    exact ih.trans (List.suffix_append _ _).isInfix

/-- Behind the last `c` of a prefix, the fields go on. -/
theorem splitOn_append_of_not_mem {α : Type*} [BEq α] [LawfulBEq α] {c : α} {a : List α}
    (ha : c ∉ a) (pre : List α) :
    ∃ ws y, (pre ++ a).splitOn c = ws ++ [y ++ a] ∧ pre.splitOn c = ws ++ [y] := by
  induction hn : pre.length using Nat.strong_induction_on generalizing pre with
  | _ n ih =>
    by_cases hc : c ∈ pre
    · obtain ⟨p, q, rfl⟩ := List.append_of_mem hc
      obtain ⟨ws, y, h1, h2⟩ := ih q.length (by simp at hn; omega) q rfl
      refine ⟨p.splitOn c ++ ws, y, ?_, ?_⟩
      · rw [List.append_assoc, List.cons_append, List.splitOn_append_cons_self, h1,
          List.append_assoc]
      · rw [List.splitOn_append_cons_self, h2, List.append_assoc]
    · refine ⟨[], pre, ?_, ?_⟩
      · rw [List.splitOn_eq_singleton (by simp [hc, ha]), List.nil_append]
      · rw [List.splitOn_eq_singleton hc, List.nil_append]

end Text
