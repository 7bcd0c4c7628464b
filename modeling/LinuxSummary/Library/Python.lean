/-
  What the scripts use of Python. Proof-only, nothing about one program.

  `slice`, `getItem`, `words`, `int` and `bin` are `s[a:b]`, `xs[i]`, `s.split()`,
  `int(s, base)` and `bin(n)`. A `Script` leaves a trace (the lines it prints, the commands it
  runs) and ends with a value or an exception; what it left before an exception stays.
-/
import LinuxSummary.Library.Strtol

namespace Python

inductive Exn
  | indexError
  | valueError
  | systemExit (status : Nat)
deriving DecidableEq

/-! ## Sequences -/

/-- `s[a:b]`, with bounds that are not negative. -/
def slice {α : Type} (s : List α) (a b : Nat) : List α := (s.take b).drop a

theorem mem_of_mem_slice {α : Type} {s : List α} {a b : Nat} {x : α} (h : x ∈ slice s a b) :
    x ∈ s := List.mem_of_mem_take (List.mem_of_mem_drop h)

theorem length_slice {α : Type} (s : List α) (a b : Nat) :
    (slice s a b).length = min b s.length - a := by
  rw [slice, List.length_drop, List.length_take]

theorem slice_append_slice {α : Type} (s : List α) {a b c : Nat} (hab : a ≤ b) (hbc : b ≤ c) :
    slice s a b ++ slice s b c = slice s a c := by
  rw [slice, slice, slice, List.drop_take, List.drop_take, List.drop_take,
    show c - a = b - a + (c - b) by omega, List.take_add, List.drop_drop, Nat.add_sub_cancel' hab]

theorem slice_length {α : Type} (s : List α) (a : Nat) : slice s a s.length = s.drop a := by
  rw [slice, List.take_length]

theorem reverse_slice_reverse {α : Type} (s : List α) (a b : Nat) :
    (slice s.reverse a b).reverse = slice s (s.length - b) (s.length - a) := by
  rw [slice, slice, List.take_reverse, List.drop_reverse, List.reverse_reverse, List.length_drop,
    List.drop_take]
  congr 1
  omega

/-- A piece of a numeral: the digits behind it are divided off, those before it are the quotient. -/
theorem value_slice {b : Nat} (hb : 0 < b) {s : Text}
    (hall : s.all (Numeral.isDigitOf b) = true) {i j : Nat} (hj : j ≤ s.length) :
    Numeral.value b (slice s i j) = Numeral.value b s / b ^ (s.length - j) % b ^ (j - i) := by
  have htake : (s.take j).all (Numeral.isDigitOf b) = true :=
    List.all_eq_true.mpr fun c hc => List.all_eq_true.mp hall c (List.mem_of_mem_take hc)
  rw [slice, Numeral.value_drop htake, Numeral.value_take hb hall, List.length_take,
    min_eq_left hj]

/-- A negative index counts from the end. -/
def index {α : Type} (xs : List α) (i : Int) : Int := if i < 0 then i + xs.length else i

/-- `xs[i]` -/
def getItem {α : Type} (xs : List α) (i : Int) : Except Exn α :=
  if index xs i < 0 then .error .indexError
  else match xs[(index xs i).toNat]? with
    | none => .error .indexError
    | some x => .ok x

theorem getItem_eq_ok_iff {α : Type} {xs : List α} {i : Int} {x : α} :
    getItem xs i = .ok x ↔ ∃ j : Nat, xs[j]? = some x ∧ index xs i = j := by
  unfold getItem
  constructor
  · intro h
    split at h
    · exact absurd h (by simp)
    · split at h
      · exact absurd h (by simp)
      · next y hy =>
        obtain rfl := Except.ok.inj h
        exact ⟨_, hy, by omega⟩
  · intro h
    obtain ⟨j, hj, hi⟩ := h
    rw [hi, Int.toNat_natCast, hj, if_neg (by omega)]

theorem getItem_nat_eq_ok_iff {α : Type} {xs : List α} {i : Nat} {x : α} :
    getItem xs i = .ok x ↔ xs[i]? = some x := by
  have hi : index xs i = i := if_neg (by omega)
  rw [getItem_eq_ok_iff, hi]
  constructor
  · intro h
    obtain ⟨j, hj, hij⟩ := h
    rwa [Int.ofNat_inj.mp hij]
  · intro h
    exact ⟨i, h, rfl⟩

theorem getItem_nat_error {α : Type} {xs : List α} {i : Nat} (h : xs.length ≤ i) :
    getItem xs i = .error .indexError := by
  have hi : index xs i = i := if_neg (by omega)
  rw [getItem, hi, if_neg (by omega), Int.toNat_natCast, List.getElem?_eq_none h]

/-- `s.split()` -/
def words (s : Text) : List Text := (s.splitOnP Strtol.isspace).filter (· ≠ [])

theorem words_cons_space {c : Char} (hc : Strtol.isspace c = true) (s : Text) :
    words (c :: s) = words s := by
  rw [words, List.splitOnP_cons_eq_if_modifyHead, if_pos hc]
  rfl

theorem words_append_space {w : Text} (hne : w ≠ [])
    (hw : ∀ c ∈ w, Strtol.isspace c = false) {c : Char} (hc : Strtol.isspace c = true)
    (s : Text) : words (w ++ c :: s) = w :: words s := by
  rw [words, List.splitOnP_append_cons_of_forall_mem hw c hc, List.filter_cons_of_pos, words]
  simpa using hne

theorem words_spaces {sp : Text} (hsp : ∀ c ∈ sp, Strtol.isspace c = true) (s : Text) :
    words (sp ++ s) = words s := by
  induction sp with
  | nil => rfl
  | cons c sp ih =>
    rw [List.cons_append, words_cons_space (hsp c List.mem_cons_self),
      ih fun d hd => hsp d (List.mem_cons_of_mem c hd)]

/-! ## Numbers -/

/-- `s.strip()` -/
def strip (s : Text) : Text := (s.dropWhile Strtol.isspace).rdropWhile Strtol.isspace

/-- The prefix that a numeral of the base may have. -/
def takePrefix (base : Nat) (s : Text) : Text :=
  if base = 16 ∧ ("0x".toList <+: s ∨ "0X".toList <+: s) ∨
      base = 2 ∧ ("0b".toList <+: s ∨ "0B".toList <+: s) then s.drop 2
  else s

/-- `int(s, base)` -/
def int (base : Nat) (s : Text) : Except Exn Int :=
  let signed := Strtol.takeSign (strip s)
  match Numeral.readDigits base (takePrefix base signed.2) with
  | none => .error .valueError
  | some n => .ok (Strtol.applySign signed.1 n)

/-- `bin(n)` -/
def bin : Int → Text
  | .ofNat n => "0b".toList ++ Nat.toDigits 2 n
  | .negSucc n => "-0b".toList ++ Nat.toDigits 2 (n + 1)

/-- `'%x' % n` -/
def hex : Int → Text
  | .ofNat n => Printf.hex n
  | .negSucc n => '-' :: Printf.hex (n + 1)

theorem int_nil (base : Nat) : int base [] = .error .valueError := by
  have hpre : takePrefix base [] = [] := by
    unfold takePrefix
    split <;> rfl
  have hsign : Strtol.takeSign (strip []) = (false, []) := rfl
  have hread : Numeral.readDigits base [] = none := if_neg fun h => h.1 rfl
  unfold int
  simp only [hsign, hpre, hread]

theorem strip_digits {b : Nat} {s : Text} (hall : s.all (Numeral.isDigitOf b) = true) :
    strip s = s := by
  have hspace : ∀ c ∈ s, Strtol.isspace c = false := by
    intro c hc
    have := Strtol.le_toNat_of_isDigitOf (List.all_eq_true.mp hall c hc)
    exact Strtol.not_isspace (by omega)
  have hdrop : s.dropWhile Strtol.isspace = s := by
    refine List.dropWhile_eq_self_iff.mpr fun hpos => ?_
    rw [hspace _ (List.getElem_mem hpos)]
    exact Bool.false_ne_true
  rw [strip, hdrop, List.rdropWhile_eq_self_iff]
  intro hne
  rw [hspace _ (List.getLast_mem hne)]
  exact Bool.false_ne_true

theorem takePrefix_digits {b : Nat} {s : Text} (hall : s.all (Numeral.isDigitOf b) = true) :
    takePrefix b s = s := by
  -- the second character of a prefix is no digit
  have hno : ∀ c : Char, Numeral.isDigitOf b c = false → ¬ ['0', c] <+: s := by
    intro c hc hpre
    have := List.all_eq_true.mp hall c (hpre.subset (by simp))
    exact Bool.false_ne_true (hc.symm.trans this)
  refine if_neg fun h => ?_
  rcases h with ⟨rfl, h | h⟩ | ⟨rfl, h | h⟩
  · exact hno 'x' (by decide) h
  · exact hno 'X' (by decide) h
  · exact hno 'b' (by decide) h
  · exact hno 'B' (by decide) h

/-- A text of digits is read as what they stand for. -/
theorem int_digits {b : Nat} {s : Text} (hne : s ≠ [])
    (hall : s.all (Numeral.isDigitOf b) = true) : int b s = .ok (Numeral.value b s) := by
  have hsign : Strtol.takeSign s = (false, s) := by
    have hnone : Strtol.IsSign [] false := .inr ⟨by simp, rfl⟩
    have := Strtol.takeSign_append hnone hne hall
    rwa [List.nil_append] at this
  have hread : Numeral.readDigits b s = some (Numeral.value b s) := if_pos ⟨hne, hall⟩
  unfold int
  simp only [strip_digits hall, hsign, takePrefix_digits hall, hread]
  rfl

theorem int_slice {b : Nat} {s : Text} (hall : s.all (Numeral.isDigitOf b) = true) {i j : Nat}
    (hij : i < j) (hi : i < s.length) :
    int b (slice s i j) = .ok (Numeral.value b (slice s i j)) := by
  apply int_digits
  · rw [← List.length_pos_iff, length_slice]
    omega
  · exact List.all_eq_true.mpr fun c hc => List.all_eq_true.mp hall c (mem_of_mem_slice hc)

/-- A numeral of the base is read back. -/
theorem int_toDigits {b : Nat} (h2 : 2 ≤ b) (h16 : b ≤ 16) (n : Nat) :
    int b (Nat.toDigits b n) = .ok n := by
  rw [int_digits Nat.toDigits_ne_nil (Numeral.toDigits_all h2 h16 n),
    Numeral.value_toDigits h2 h16]

/-! ## Scripts -/

/-- What a script leaves behind, and how it ends. -/
@[ext] structure Script (ω α : Type) where
  trace : List ω
  result : Except Exn α

namespace Script

variable {ω α β : Type}

def ret (a : α) : Script ω α := ⟨[], .ok a⟩

def raise (e : Exn) : Script ω α := ⟨[], .error e⟩

def emit (w : ω) : Script ω Unit := ⟨[w], .ok ()⟩

/-- An expression that leaves nothing behind. -/
def eval (r : Except Exn α) : Script ω α := ⟨[], r⟩

def bind (p : Script ω α) (f : α → Script ω β) : Script ω β :=
  match p.result with
  | .error e => ⟨p.trace, .error e⟩
  | .ok a => ⟨p.trace ++ (f a).trace, (f a).result⟩

instance : Monad (Script ω) where
  pure := ret
  bind := bind

@[simp] theorem pure_eq (a : α) : (pure a : Script ω α) = ⟨[], .ok a⟩ := rfl

@[simp] theorem ok_bind (t : List ω) (a : α) (f : α → Script ω β) :
    ((⟨t, .ok a⟩ : Script ω α) >>= f) = ⟨t ++ (f a).trace, (f a).result⟩ := rfl

@[simp] theorem error_bind (t : List ω) (e : Exn) (f : α → Script ω β) :
    ((⟨t, .error e⟩ : Script ω α) >>= f) = ⟨t, .error e⟩ := rfl

@[simp] theorem emit_bind (w : ω) (f : Unit → Script ω β) :
    (emit w >>= f) = ⟨w :: (f ()).trace, (f ()).result⟩ := rfl

@[simp] theorem eval_ok_bind (a : α) (f : α → Script ω β) :
    ((eval (.ok a) : Script ω α) >>= f) = f a := rfl

@[simp] theorem eval_error_bind (e : Exn) (f : α → Script ω β) :
    ((eval (.error e) : Script ω α) >>= f) = raise e := rfl

@[simp] theorem raise_bind (e : Exn) (f : α → Script ω β) :
    ((raise e : Script ω α) >>= f) = raise e := rfl

theorem bind_result_error {p : Script ω α} {e : Exn} (h : p.result = .error e)
    (f : α → Script ω β) : (p >>= f).result = .error e := by
  obtain ⟨t, r⟩ := p
  obtain rfl : r = .error e := h
  rfl

theorem bind_result_right {p : Script ω α} {f : α → Script ω β}
    (h : ∀ a, ∃ e, (f a).result = .error e) : ∃ e, (p >>= f).result = .error e := by
  obtain ⟨t, r⟩ := p
  cases r with
  | error e => exact ⟨e, rfl⟩
  | ok a => exact h a

theorem bind_assoc {γ : Type} (p : Script ω α) (f : α → Script ω β) (g : β → Script ω γ) :
    (p >>= f >>= g) = (p >>= fun a => f a >>= g) := by
  obtain ⟨t, r⟩ := p
  cases r with
  | error e => rfl
  | ok a =>
    rw [ok_bind, ok_bind]
    obtain ⟨t', r'⟩ := f a
    cases r' with
    | error e => rfl
    | ok b => rw [ok_bind, ok_bind, List.append_assoc]

instance : LawfulMonad (Script ω) := LawfulMonad.mk' _
  (fun p => by
    obtain ⟨t, r⟩ := p
    cases r with
    | error e => rfl
    | ok a => exact congrArg (Script.mk · (.ok a)) (List.append_nil t))
  (fun a f => rfl) bind_assoc

theorem forM_cons (x : β) (xs : List β) (g : β → Script ω Unit) :
    (x :: xs).forM g = (g x >>= fun _ => xs.forM g) := rfl

/-- A loop goes through all its turns, or an exception ends it. -/
theorem forM_ok {g : β → Script ω Unit} {t : β → List ω} {xs : List β}
    (h : ∀ x ∈ xs, g x = ⟨t x, .ok ()⟩) : xs.forM g = ⟨xs.flatMap t, .ok ()⟩ := by
  induction xs with
  | nil => rfl
  | cons x xs ih =>
    rw [forM_cons, h x List.mem_cons_self, ok_bind, ih fun y hy => h y (List.mem_cons_of_mem x hy)]
    rfl

theorem forM_result_iff {g : β → Script ω Unit} {xs : List β} :
    (xs.forM g).result = .ok () ↔ ∀ x ∈ xs, (g x).result = .ok () := by
  induction xs with
  | nil => exact iff_of_true rfl (by simp)
  | cons x xs ih =>
    rw [forM_cons, List.forall_mem_cons, ← ih]
    obtain ⟨t, r⟩ := g x
    cases r with
    | error e => simp
    | ok a => simp

theorem forM_emit (ws : List ω) : ws.forM emit = ⟨ws, .ok ()⟩ := by
  have h : ws.forM emit = ⟨ws.flatMap fun w => [w], .ok ()⟩ := forM_ok fun _ _ => rfl
  rwa [List.flatMap_singleton'] at h

theorem foldlM_flatMap {γ : Type} (f : γ → List β) (g : α → β → Script ω α) (xs : List γ) (a : α) :
    (xs.flatMap f).foldlM g a = xs.foldlM (fun a x => (f x).foldlM g a) a := by
  induction xs generalizing a with
  | nil => rfl
  | cons x xs ih =>
    rw [List.flatMap_cons, List.foldlM_append, List.foldlM_cons]
    exact congrArg (fun k => (f x).foldlM g a >>= k) (funext ih)

/-- Turns that do nothing. -/
theorem foldlM_skip {g : α → β → Script ω α} {xs : List β} (h : ∀ x ∈ xs, ∀ a, g a x = pure a)
    (a : α) : xs.foldlM g a = pure a := by
  induction xs with
  | nil => rfl
  | cons x xs ih =>
    rw [List.foldlM_cons, h x List.mem_cons_self, pure_bind,
      ih fun y hy => h y (List.mem_cons_of_mem x hy)]

/-- Turns that do nothing can be left out. -/
theorem foldlM_filter {g : α → β → Script ω α} {p : β → Bool}
    (h : ∀ x, p x = false → ∀ a, g a x = pure a) (xs : List β) (a : α) :
    xs.foldlM g a = (xs.filter p).foldlM g a := by
  induction xs generalizing a with
  | nil => rfl
  | cons x xs ih =>
    cases hx : p x with
    | true =>
      rw [List.filter_cons_of_pos hx, List.foldlM_cons, List.foldlM_cons]
      exact congrArg (g a x >>= ·) (funext ih)
    | false =>
      rw [List.filter_cons_of_neg (by simp [hx]), List.foldlM_cons, h x hx, pure_bind, ih]

/-- A loop in which one turn does something. -/
theorem foldlM_one {g : α → β → Script ω α} {front back : List β} (x : β)
    (hfront : ∀ y ∈ front, ∀ a, g a y = pure a) (hback : ∀ y ∈ back, ∀ a, g a y = pure a) (a : α) :
    (front ++ x :: back).foldlM g a = g a x := by
  rw [List.foldlM_append, foldlM_skip hfront, pure_bind, List.foldlM_cons]
  simp only [foldlM_skip hback, bind_pure]

/-! ## Loops that add up -/

section
variable {g : Int → β → Script ω Int} {xs : List β}

/-- A loop in which every turn adds its number goes through all of them. -/
theorem foldlM_ok {t : β → List ω} {n : β → Int}
    (h : ∀ x ∈ xs, ∀ sum, g sum x = ⟨t x, .ok (sum + n x)⟩) (sum : Int) :
    xs.foldlM g sum = ⟨xs.flatMap t, .ok (sum + (xs.map n).sum)⟩ := by
  induction xs generalizing sum with
  | nil => simp
  | cons x xs ih =>
    rw [List.foldlM_cons, h x List.mem_cons_self, ok_bind,
      ih fun y hy => h y (List.mem_cons_of_mem x hy)]
    simp only [List.flatMap_cons, List.map_cons, List.sum_cons, Int.add_assoc]

/-- An exception in one turn is an exception of the loop. -/
theorem foldlM_error {x : β} (hx : x ∈ xs) (h : ∀ sum, ∃ e, (g sum x).result = .error e)
    (sum : Int) : ∃ e, (xs.foldlM g sum).result = .error e := by
  induction xs generalizing sum with
  | nil => exact absurd hx (by simp)
  | cons y xs ih =>
    rw [List.foldlM_cons]
    cases hg : g sum y with
    | mk t r =>
      cases r with
      | error e => exact ⟨e, rfl⟩
      | ok b =>
        rcases List.mem_cons.mp hx with rfl | hxs
        · obtain ⟨e, he⟩ := h sum
          rw [hg] at he
          exact absurd he (by simp)
        · exact ih hxs b

end

end Script

end Python
