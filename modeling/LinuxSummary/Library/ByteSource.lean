/-
  A source that is read piece by piece. Proof-only, nothing about one program.

  `window content p n` are the `n` items of a content from the offset `p` on. A source serves its
  content (`Serves`) where each read hands out the items at its position and moves on by as many;
  how many these are is its own choice, so long as it makes progress before the end.

  `fill` is the loop that reads until a buffer is full or a read comes back empty. It is written
  with as much fuel as items are asked for; `fill_step` is the loop without the fuel. `fill_eq`: on
  a source that serves its content the loop gets all that there is, whatever pieces come.
-/
import Mathlib

namespace ByteSource

variable {α σ : Type}

/-! ## Windows -/

/-- The `n` items from `p` on. -/
def window (content : Nat → α) (p n : Nat) : List α := (List.range n).map fun i => content (p + i)

@[simp] theorem length_window (content : Nat → α) (p n : Nat) :
    (window content p n).length = n := by
  simp [window]

@[simp] theorem window_zero (content : Nat → α) (p : Nat) : window content p 0 = [] := rfl

theorem getElem?_window (content : Nat → α) (p : Nat) {n i : Nat} (h : i < n) :
    (window content p n)[i]? = some (content (p + i)) := by
  simp [window, h]

/-- Two windows side by side. -/
theorem window_append (content : Nat → α) (p m n : Nat) :
    window content p m ++ window content (p + m) n = window content p (m + n) := by
  unfold window
  rw [List.range_add, List.map_append, List.map_map]
  congr 1
  apply List.map_congr_left
  intro i _
  rw [Function.comp_apply, Nat.add_assoc]

theorem window_congr {content content' : Nat → α} {p n : Nat}
    (h : ∀ i, p ≤ i → i < p + n → content i = content' i) :
    window content p n = window content' p n := by
  unfold window
  apply List.map_congr_left
  intro i hi
  have := List.mem_range.mp hi
  exact h (p + i) (by omega) (by omega)

/-- A piece of a window. -/
theorem window_drop_take (content : Nat → α) (p : Nat) {n k m : Nat} (h : k + m ≤ n) :
    ((window content p n).drop k).take m = window content (p + k) m := by
  have hsplit : window content p k ++ (window content (p + k) m ++
      window content (p + k + m) (n - (k + m))) = window content p n := by
    rw [window_append, window_append]
    congr 1
    omega
  rw [← hsplit, List.drop_left' (length_window content p k),
    List.take_left' (length_window content (p + k) m)]

/-! ## Sources -/

/-- Each read hands out what stands at the position, never more than was asked for, and something
    where there is something; `I` is what the states of the source keep. -/
structure Serves (read : σ → Nat → List α × σ) (pos : σ → Nat) (content : Nat → α) (size : Nat)
    (I : σ → Prop) : Prop where
  inside : ∀ s, I s → pos s ≤ size
  keeps : ∀ s n, I s → I (read s n).2
  bytes : ∀ s n, I s → (read s n).1 = window content (pos s) (read s n).1.length
  moves : ∀ s n, I s → pos (read s n).2 = pos s + (read s n).1.length
  asked : ∀ s n, I s → (read s n).1.length ≤ n
  progress : ∀ s n, I s → 0 < n → pos s < size → 0 < (read s n).1.length

/-! ## Filling a buffer -/

/-- `while (to_read > 0) { nbytes = read(..); if (nbytes <= 0) break; .. }` -/
def fillFor (read : σ → Nat → List α × σ) : Nat → σ → Nat → List α × σ
  | 0, s, _ => ([], s)
  | fuel + 1, s, toRead =>
    if toRead = 0 then ([], s)
    else if (read s toRead).1 = [] then ([], (read s toRead).2)
    else
      let rest := fillFor read fuel (read s toRead).2 (toRead - (read s toRead).1.length)
      ((read s toRead).1 ++ rest.1, rest.2)

def fill (read : σ → Nat → List α × σ) (s : σ) (toRead : Nat) : List α × σ :=
  fillFor read toRead s toRead

/-- Fuel beyond the items asked for changes nothing. -/
theorem fillFor_more (read : σ → Nat → List α × σ) {fuel fuel' : Nat} (s : σ) {toRead : Nat}
    (h : toRead ≤ fuel) (h' : toRead ≤ fuel') :
    fillFor read fuel s toRead = fillFor read fuel' s toRead := by
  induction fuel generalizing fuel' s toRead with
  | zero =>
    obtain rfl : toRead = 0 := by omega
    cases fuel' with
    | zero => rfl
    | succ fuel' => simp [fillFor]
  | succ fuel ih =>
    cases fuel' with
    | zero =>
      obtain rfl : toRead = 0 := by omega
      simp [fillFor]
    | succ fuel' =>
      unfold fillFor
      split
      · rfl
      · split
        · rfl
        · next hzero hne =>
          have hpos := List.length_pos_iff.mpr hne
          rw [@ih fuel' _ _ (by omega) (by omega)]

/-- The loop, one turn unrolled. -/
theorem fill_step (read : σ → Nat → List α × σ) (s : σ) {toRead : Nat} (h : toRead ≠ 0)
    (hne : (read s toRead).1 ≠ []) :
    fill read s toRead =
      ((read s toRead).1 ++
        (fill read (read s toRead).2 (toRead - (read s toRead).1.length)).1,
        (fill read (read s toRead).2 (toRead - (read s toRead).1.length)).2) := by
  obtain ⟨n, rfl⟩ := Nat.exists_eq_succ_of_ne_zero h
  have hpos := List.length_pos_iff.mpr hne
  unfold fill
  rw [fillFor, if_neg h, if_neg hne,
    @fillFor_more _ _ read n (n.succ - (read s n.succ).1.length) _ _ (by omega) le_rfl]

theorem fill_zero (read : σ → Nat → List α × σ) (s : σ) : fill read s 0 = ([], s) := rfl

theorem fill_stop (read : σ → Nat → List α × σ) (s : σ) {toRead : Nat} (h : toRead ≠ 0)
    (hnil : (read s toRead).1 = []) : fill read s toRead = ([], (read s toRead).2) := by
  obtain ⟨n, rfl⟩ := Nat.exists_eq_succ_of_ne_zero h
  unfold fill
  rw [fillFor, if_neg h, if_pos hnil]

variable {read : σ → Nat → List α × σ} {pos : σ → Nat} {content : Nat → α} {size : Nat}
  {I : σ → Prop}

theorem fill_keeps (hserves : Serves read pos content size I) {s : σ} (hs : I s) (toRead : Nat) :
    I (fill read s toRead).2 := by
  induction hn : toRead using Nat.strong_induction_on generalizing s toRead with
  | _ n ih =>
    subst hn
    by_cases hzero : toRead = 0
    · subst hzero
      exact hs
    have hnext := hserves.keeps s toRead hs
    by_cases hnil : (read s toRead).1 = []
    · rwa [fill_stop read s hzero hnil]
    · have hpos := List.length_pos_iff.mpr hnil
      rw [fill_step read s hzero hnil]
      exact ih _ (by omega) hnext _ rfl

/-- **The buffer holds what stands at the position, as much as fits and as there is.** -/
theorem fill_eq (hserves : Serves read pos content size I) {s : σ} (hs : I s) (toRead : Nat) :
    (fill read s toRead).1 = window content (pos s) (min toRead (size - pos s)) := by
  induction hn : toRead using Nat.strong_induction_on generalizing s toRead with
  | _ n ih =>
    subst hn
    by_cases hzero : toRead = 0
    · subst hzero
      rw [fill_zero, Nat.zero_min, window_zero]
    by_cases hnil : (read s toRead).1 = []
    · have hend : size - pos s = 0 := by
        by_contra hleft
        have := hserves.progress s toRead hs (by omega) (by omega)
        rw [hnil] at this
        exact absurd this (by simp)
      rw [fill_stop read s hzero hnil, hend, Nat.min_zero, window_zero]
    · have hpos := List.length_pos_iff.mpr hnil
      have hasked := hserves.asked s toRead hs
      have hmoves := hserves.moves s toRead hs
      have hnext := hserves.keeps s toRead hs
      have hinside := hserves.inside _ hnext
      have hrest := ih (toRead - (read s toRead).1.length) (by omega) hnext _ rfl
      rw [fill_step read s hzero hnil, hrest, hmoves]
      dsimp only
      rw [hserves.bytes s toRead hs, length_window, window_append]
      congr 1
      omega

end ByteSource
