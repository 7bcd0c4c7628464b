/-
  What `zpage.c` writes in its buffer.

  `r` is the sum of the lengths the texts would have. Up to 4096 it is exact; beyond, the size
  handed to `snprintf` is a negative number made `size_t`, nothing is printed any more and `r`
  stays (`Acc`). So every `snprintf` stays inside the buffer, and the NUL at `r` does exactly
  when the texts fit. A copy loop stays inside exactly when something ends it in time.

  `touched_iff`: a request stays inside the buffer exactly when its texts fit with their NUL,
  or what it copies fits, or it never gets past the buffer.
-/
import LinuxSummary.Zpage.Driver

namespace LinuxSummary.Zpage

open CInt ForLoop

/-! ## The printed texts -/

/-- Every byte that was written is one of the buffer's. -/
def InBounds (k : Kern) : Prop := ∀ o ∈ k.touched, 0 ≤ o ∧ o < MMAP_LEN

theorem inBounds_idle (ram : Int → Option UInt8) (buf : Int → UInt8) : InBounds (idle ram buf) :=
  fun _ ho => absurd ho (List.not_mem_nil)

theorem inBounds_store (k : Kern) (o : Int) (b : UInt8) :
    InBounds (k.store o b) ↔ InBounds k ∧ 0 ≤ o ∧ o < MMAP_LEN := by
  unfold InBounds Kern.store
  simp only [List.mem_append, List.mem_singleton]
  constructor
  · intro h
    exact ⟨fun x hx => h x (.inl hx), h o (.inr rfl)⟩
  · rintro ⟨h, ho⟩ x (hx | rfl)
    · exact h x hx
    · exact ho

theorem inBounds_storeAll {k : Kern} (h : InBounds k) {o : Int} (h0 : 0 ≤ o) {bs : List UInt8}
    (hlen : o + bs.length ≤ MMAP_LEN) : InBounds (k.storeAll o bs) := by
  induction bs generalizing k o with
  | nil => exact h
  | cons b bs ih =>
    rw [List.length_cons] at hlen
    exact ih ((inBounds_store k o b).mpr ⟨h, h0, by omega⟩) (by omega) (by omega)

/-- How things stand after texts of so many characters. -/
structure Acc (total : Nat) (st : Kern × Int) : Prop where
  inBounds : InBounds st.1
  fits : total ≤ MMAP_LEN → st.2 = total
  full : MMAP_LEN < total → MMAP_LEN < st.2 ∧ st.2 < 2 ^ 31

theorem acc_zero {k : Kern} (h : InBounds k) : Acc 0 (k, 0) :=
  ⟨h, fun _ => rfl, fun hlt => absurd hlt (by decide)⟩

theorem inBounds_snprintf {k : Kern} (h : InBounds k) {o : Int} (h0 : 0 ≤ o) {size : Nat}
    (hsize : o + size ≤ MMAP_LEN) (text : Text) : InBounds (snprintf k o size text).1 := by
  unfold snprintf
  split
  · exact h
  · split
    · exact h
    · next hpos =>
      refine inBounds_storeAll h h0 ?_
      rw [List.length_append, ascii, List.length_map, List.length_take, List.length_singleton]
      omega

/-- No line that is printed is longer than this. -/
def LINE_MAX : Nat := 1024

theorem acc_printOn {total : Nat} {st : Kern × Int} (h : Acc total st) {text : Text}
    (hlen : text.length ≤ LINE_MAX) : Acc (total + text.length) (printOn st text) := by
  have hline : text.length ≤ 1024 := hlen
  have hmmap : MMAP_LEN = 4096 := rfl
  by_cases hfit : total ≤ MMAP_LEN
  · have hr := h.fits hfit
    have hsize : u64 (int32 (MMAP_LEN - st.2)) = MMAP_LEN - total := by
      rw [int32_of_range (by omega) (by omega), hr]
      unfold u64
      omega
    have hdone : (snprintf st.1 st.2 (MMAP_LEN - total) text).2 = text.length := by
      unfold snprintf
      rw [if_neg (by unfold INT_MAX; omega)]
      split <;> rfl
    have hnext : (printOn st text).2 = (total + text.length : Nat) := by
      unfold printOn
      dsimp only
      rw [hsize, hdone, hr, int32_of_range (by omega) (by omega)]
      omega
    refine ⟨?_, fun _ => hnext, fun hlt => ?_⟩
    · unfold printOn
      dsimp only
      rw [hsize]
      exact inBounds_snprintf h.inBounds (by omega) (by omega) text
    · rw [hnext]
      omega
  · obtain ⟨hgt, hlt⟩ := h.full (by omega)
    -- `MMAP_LEN - r` is negative, so the size is beyond `INT_MAX`
    have hsize : INT_MAX < u64 (int32 (MMAP_LEN - st.2)) := by
      rw [int32_of_range (by omega) (by omega)]
      unfold u64 INT_MAX
      omega
    have hdone : printOn st text = st := by
      unfold printOn snprintf
      rw [if_pos hsize]
      dsimp only
      rw [Int.add_zero, int32_of_range (by omega) hlt]
    rw [hdone]
    exact ⟨h.inBounds, fun hle => absurd hle (by omega), fun _ => ⟨hgt, hlt⟩⟩

/-- The number of characters of several texts. -/
def totalLength (texts : List Text) : Nat := (texts.map List.length).sum

theorem acc_foldl {total : Nat} {st : Kern × Int} (h : Acc total st) {texts : List Text}
    (hlen : ∀ text ∈ texts, text.length ≤ LINE_MAX) :
    Acc (total + totalLength texts) (texts.foldl printOn st) := by
  induction texts generalizing total st with
  | nil => exact h
  | cons text texts ih =>
    have hfirst := acc_printOn h (hlen text List.mem_cons_self)
    have hrest := ih hfirst fun t ht => hlen t (List.mem_cons_of_mem _ ht)
    rw [Nat.add_assoc] at hrest
    exact hrest

/-- A small `r` says that the texts fitted. -/
theorem acc_lt {total : Nat} {st : Kern × Int} (h : Acc total st) (hr : st.2 < MMAP_LEN) :
    total < MMAP_LEN := by
  have hfits := h.fits
  have hfull := h.full
  by_contra hge
  rcases Nat.lt_or_ge MMAP_LEN total with hgt | hle
  · have := (hfull hgt).1
    omega
  · have := hfits hle
    omega

/-- The NUL at `r` is written in the buffer exactly when the texts left room for it. -/
theorem inBounds_terminate {total : Nat} {st : Kern × Int} (h : Acc total st) :
    InBounds (terminate st) ↔ total < MMAP_LEN := by
  unfold terminate
  rw [inBounds_store]
  constructor
  · intro h
    obtain ⟨-, -, hlt⟩ := h
    exact acc_lt h hlt
  · intro hlt
    have := h.fits hlt.le
    exact ⟨h.inBounds, by omega, by omega⟩

theorem inBounds_printAll {k : Kern} (h : InBounds k) {texts : List Text}
    (hlen : ∀ text ∈ texts, text.length ≤ LINE_MAX) :
    InBounds (printAll texts k).2 ↔ totalLength texts < MMAP_LEN := by
  have hacc := acc_foldl (acc_zero h) hlen
  rw [Nat.zero_add] at hacc
  exact inBounds_terminate hacc

/-! ## Lengths of the lines -/

theorem length_hex_le {n : Nat} (h : n < 2 ^ 64) : (Printf.hex n).length ≤ 16 :=
  Nat.toDigits_length 16 n 16 (by decide) h

theorem length_udec_le {n : Nat} (h : n < 2 ^ 64) : (Printf.udec n).length ≤ 20 :=
  Nat.toDigits_length 10 n 20 (by decide) (by omega)

theorem length_dec_le {x : Int} (h1 : -2 ^ 63 ≤ x) (h2 : x < 2 ^ 63) :
    (Printf.dec x).length ≤ 21 := by
  cases x with
  | ofNat n =>
    have := length_udec_le (n := n) (by have : (n : Int) < 2 ^ 63 := h2; omega)
    rw [Printf.dec]
    omega
  | negSucc n =>
    have := length_udec_le (n := n + 1) (by omega)
    rw [Printf.dec, List.length_cons]
    omega

theorem length_argText (b : UInt8) : (argText b).length = (Printf.hex b.toNat).length + 3 := by
  unfold argText
  rw [List.length_append, List.length_append]
  show 2 + _ + 1 = _
  omega

theorem argText_le (b : UInt8) : (argText b).length ≤ LINE_MAX := by
  have hlt : b.toNat < 2 ^ 64 := b.toNat_lt.trans (by decide)
  have := length_hex_le hlt
  rw [length_argText]
  unfold LINE_MAX
  omega

theorem hexOf_le (x : UInt64) : (Printf.hex x.toNat).length ≤ 16 := length_hex_le x.toNat_lt

theorem vmaText_le (vma : Vma) : (vmaText vma).length ≤ LINE_MAX := by
  have h1 := hexOf_le vma.vmStart
  have h2 := hexOf_le vma.vmEnd
  unfold vmaText
  simp only [List.length_append]
  show 12 + _ + 7 + _ + 1 ≤ 1024
  omega

theorem mapCountText_le (mm : Mm) : (mapCountText mm).length ≤ LINE_MAX := by
  obtain ⟨h1, h2⟩ := int32_range mm.mapCount
  have := length_dec_le (x := int32 mm.mapCount) (by omega) (by omega)
  unfold mapCountText
  simp only [List.length_append]
  show 10 + _ + 1 ≤ 1024
  omega

/-- The lines of `ZPAGE_GET_MM_INFO` fit, whatever the numbers. -/
theorem mmTexts_le (mm : Mm) : ∀ text ∈ mmTexts mm, text.length ≤ 96 := by
  have h1 := hexOf_le mm.startStack
  have h2 := hexOf_le mm.startCode
  have h3 := hexOf_le mm.endCode
  have h4 := hexOf_le mm.startData
  have h5 := hexOf_le mm.endData
  have h6 := length_udec_le mm.totalVm.toNat_lt
  have h7 := hexOf_le mm.argStart
  have h8 := hexOf_le mm.argEnd
  intro text htext
  simp only [mmTexts, List.mem_cons, List.not_mem_nil, or_false] at htext
  rcases htext with rfl | rfl | rfl | rfl
  · simp only [List.length_append]
    show 14 + _ + 1 ≤ 96
    omega
  · simp only [List.length_append]
    show 13 + _ + 12 + _ + 1 ≤ 96
    omega
  · simp only [List.length_append]
    show 13 + _ + 12 + _ + 1 ≤ 96
    omega
  · simp only [List.length_append]
    show 9 + _ + 13 + _ + 11 + _ + 1 ≤ 96
    omega

theorem totalLength_le {texts : List Text} {n : Nat} (h : ∀ text ∈ texts, text.length ≤ n) :
    totalLength texts ≤ texts.length * n := by
  unfold totalLength
  have hsum := List.sum_le_card_nsmul (texts.map List.length) n fun x hx => by
    obtain ⟨text, htext, rfl⟩ := List.mem_map.mp hx
    exact h text htext
  rw [List.length_map, smul_eq_mul] at hsum
  exact hsum

/-! ## Loops over the bytes behind the mapped page -/

/-- The byte that turn `n` reads. -/
def byteAt (ram : Int → Option UInt8) (p : Int) (n : Nat) : UInt8 := (ram (p + int32 n)).getD 0

/-- The bytes of the first `n` turns are there, and the loop goes on to read them. -/
def Reads (cond : Int → Bool) (ram : Int → Option UInt8) (p : Int) (n : Nat) : Prop :=
  ∀ j : Nat, j < n → cond (int32 j) = true ∧ (ram (p + int32 j)).isSome

section
variable {σ : Type} {ram : Int → Option UInt8} {p : Int} {st : Nat → σ}

theorem read_next (f : Int → UInt8 → σ → σ)
    (hst : ∀ n, st (n + 1) = f (int32 n) (byteAt ram p n) (st n)) (n : Nat) (s : σ)
    (h : (ram (p + int32 n)).map (fun b => f (int32 n) b (st n)) = some s) : s = st (n + 1) := by
  obtain ⟨b, hb, hs⟩ := Option.map_eq_some_iff.mp h
  rw [hst, byteAt, hb, Option.getD_some]
  exact hs.symm

theorem turns_iff_reads {cond : Int → Bool} (f : Int → UInt8 → σ → σ)
    (hst : ∀ n, st (n + 1) = f (int32 n) (byteAt ram p n) (st n)) (n : Nat) :
    Turns cond (fun i s => (ram (p + i)).map fun b => f i b s) st n ↔ Reads cond ram p n := by
  refine forall₂_congr fun j _ => and_congr_right fun _ => ?_
  constructor
  · intro h
    obtain ⟨b, hb, -⟩ := Option.map_eq_some_iff.mp h
    rw [hb]
    rfl
  · intro h
    obtain ⟨b, hb⟩ := Option.isSome_iff_exists.mp h
    rw [hst, byteAt, hb]
    dsimp only
    rw [hb]
    rfl

end

/-! ## The copy loops -/

/-- The state after the first bytes went into the buffer. -/
def copied (ram : Int → Option UInt8) (p : Int) (k : Kern) : Nat → Kern
  | 0 => k
  | n + 1 => (copied ram p k n).store (int32 n) (byteAt ram p n)

theorem turns_copy {cond : Int → Bool} {ram : Int → Option UInt8} {p : Int} (k : Kern) (n : Nat) :
    Turns cond (copyBody ram p) (copied ram p k) n ↔ Reads cond ram p n :=
  turns_iff_reads (fun i b (s : Kern) => s.store i b) (fun _ => rfl) n

theorem inBounds_copied {ram : Int → Option UInt8} {p : Int} {k : Kern} (h : InBounds k) {n : Nat}
    (hn : n < 2 ^ 31) : InBounds (copied ram p k n) ↔ n ≤ MMAP_LEN := by
  have hmmap : MMAP_LEN = 4096 := rfl
  induction n with
  | zero => exact iff_of_true h (Nat.zero_le _)
  | succ n ih =>
    have hint : int32 n = n := int32_of_range (by omega) (by omega)
    have hrest := ih (by omega)
    rw [copied, inBounds_store, hint]
    constructor
    · intro hs
      omega
    · intro hle
      exact ⟨hrest.mpr (by omega), by omega, by omega⟩

/-- Something stops the copying before it leaves the buffer. -/
def StopsInTime (cond : Int → Bool) (ram : Int → Option UInt8) (p : Int) : Prop :=
  ∃ n : Nat, n ≤ MMAP_LEN ∧ (cond n = false ∨ ram (p + n) = none)

theorem copyLoop_state (cond : Int → Bool) (p r : Int) (fuel : Nat) (k : Kern) :
    (copyLoop cond p r fuel k).2 = (forLoop cond (copyBody k.ram p) fuel k).state := by
  unfold copyLoop
  cases forLoop cond (copyBody k.ram p) fuel k <;> rfl

theorem copyLoop_stands (cond : Int → Bool) (p : Int) (fuel : Nat) (k : Kern) :
    Stands cond (copyBody k.ram p)
      (fun n s => s = copied k.ram p k n ∧ Turns cond (copyBody k.ram p) (copied k.ram p k) n)
      (forLoop cond (copyBody k.ram p) fuel k) :=
  forLoop_along (copied k.ram p k)
    (fun n s h => read_next (fun i b (s : Kern) => s.store i b) (fun _ => rfl) n s h) fuel

/-- **A copy loop stays inside the buffer exactly when something stops it in time.** -/
theorem copyLoop_inBounds_iff {cond : Int → Bool} {p r : Int} {k : Kern} (h : InBounds k) :
    (∀ fuel, InBounds (copyLoop cond p r fuel k).2) ↔ StopsInTime cond k.ram p := by
  have hmmap : MMAP_LEN = 4096 := rfl
  have hint : ∀ j : Nat, j ≤ MMAP_LEN + 1 → int32 j = j := fun j hj =>
    int32_of_range (by omega) (by omega)
  constructor
  · intro hall
    by_contra hstop
    have hturns : Turns cond (copyBody k.ram p) (copied k.ram p k) (MMAP_LEN + 1) := by
      rw [turns_copy]
      intro j hj
      rw [hint j (by omega)]
      by_contra hno
      refine hstop ⟨j, by omega, ?_⟩
      cases hc : cond j with
      | false => exact .inl rfl
      | true => exact .inr (by simpa [hc] using hno)
    have hout := hall (MMAP_LEN + 1 + 0)
    rw [copyLoop_state] at hout
    have hreach := forLoop_reach hturns 0
    rw [copied] at hreach
    rw [hreach, forFrom_zero_state, inBounds_copied h (by omega)] at hout
    omega
  · intro hstop fuel
    obtain ⟨n, hn, hat⟩ := hstop
    obtain ⟨m, hm, hturns⟩ := (copyLoop_stands cond p fuel k).state
    rw [copyLoop_state, hm]
    have hle : m ≤ n := by
      by_contra hlt
      have hgo := (turns_copy k m).mp hturns n (by omega)
      rw [hint n (by omega)] at hgo
      rcases hat with hc | hr
      · exact absurd (hc.symm.trans hgo.1) (by simp)
      · rw [hr] at hgo
        exact absurd hgo.2 (by simp)
    rw [inBounds_copied h (by omega)]
    omega

/-! ## The arguments -/

/-- The texts of the first `n` turns. -/
def argTexts (ram : Int → Option UInt8) (p : Int) (n : Nat) : List Text :=
  (List.range n).map fun j => argText (byteAt ram p j)

/-- The loop over the arguments comes to its end after `n` turns. -/
def ArgsEnd (mm : Mm) (ram : Int → Option UInt8) (p : Int) (n : Nat) : Prop :=
  Reads (argsCond mm) ram p n ∧ argsCond mm (int32 n) = false

/-- `buf` and `r` after `n` turns. -/
def argsState (ram : Int → Option UInt8) (p : Int) (k : Kern) (n : Nat) : Kern × Int :=
  (argTexts ram p n).foldl printOn (k, 0)

theorem argsState_succ (ram : Int → Option UInt8) (p : Int) (k : Kern) (n : Nat) :
    argsState ram p k (n + 1) = printOn (argsState ram p k n) (argText (byteAt ram p n)) := by
  unfold argsState argTexts
  rw [List.range_succ, List.map_append, List.foldl_append]
  rfl

theorem acc_args (ram : Int → Option UInt8) (p : Int) {k : Kern} (h : InBounds k) (n : Nat) :
    Acc (totalLength (argTexts ram p n)) (argsState ram p k n) := by
  have hlen : ∀ text ∈ argTexts ram p n, text.length ≤ LINE_MAX := by
    intro text htext
    obtain ⟨j, -, rfl⟩ := List.mem_map.mp htext
    exact argText_le _
  have hacc := acc_foldl (acc_zero h) hlen
  rwa [Nat.zero_add] at hacc

theorem args_stands (mm : Mm) (p : Int) (fuel : Nat) (k : Kern) :
    Stands (argsCond mm) (argsBody k.ram p)
      (fun n s => s = argsState k.ram p k n ∧
        Turns (argsCond mm) (argsBody k.ram p) (argsState k.ram p k) n)
      (forLoop (argsCond mm) (argsBody k.ram p) fuel (k, 0)) :=
  forLoop_along (argsState k.ram p k)
    (fun n s h => read_next (fun _ b s => printOn s (argText b)) (argsState_succ k.ram p k) n s h)
    fuel

theorem turns_args {mm : Mm} (k : Kern) (p : Int) (n : Nat) :
    Turns (argsCond mm) (argsBody k.ram p) (argsState k.ram p k) n ↔
      Reads (argsCond mm) k.ram p n :=
  turns_iff_reads (fun _ b s => printOn s (argText b)) (argsState_succ k.ram p k) n

/-- **The arguments stay inside the buffer exactly when their texts leave room for the NUL.** -/
theorem args_inBounds_iff {mm : Mm} {k : Kern} (h : InBounds k) :
    (∀ fuel, InBounds (taskGetArgs fuel mm k).2) ↔
      ∀ page, walkTaskPage mm mm.argStart = some page →
        ∀ n, ArgsEnd mm k.ram (physical page mm.argStart) n →
          totalLength (argTexts k.ram (physical page mm.argStart) n) < MMAP_LEN := by
  constructor
  · intro hall page hpage n hend
    obtain ⟨hreads, hlast⟩ := hend
    have hturns := (turns_args k _ n).mpr hreads
    have hloop :
        forLoop (argsCond mm) (argsBody k.ram (physical page mm.argStart)) (n + 0) (k, 0) =
          .ended (argsState k.ram (physical page mm.argStart) k n) := forLoop_ends hturns hlast 0
    have hin := hall (n + 0)
    unfold taskGetArgs at hin
    simp only [hpage, hloop] at hin
    exact (inBounds_terminate (acc_args _ _ h n)).mp hin
  · intro hroom fuel
    unfold taskGetArgs
    cases hpage : walkTaskPage mm mm.argStart with
    | none => exact h
    | some page =>
      have hstands := args_stands mm (physical page mm.argStart) fuel k
      dsimp only
      cases hl : forLoop (argsCond mm) (argsBody k.ram (physical page mm.argStart)) fuel
          (k, 0) with
      | ended st =>
        rw [hl] at hstands
        obtain ⟨n, ⟨rfl, hturns⟩, hlast⟩ := hstands
        have hend := hroom page hpage n ⟨(turns_args k _ n).mp hturns, hlast⟩
        exact (inBounds_terminate (acc_args _ _ h n)).mpr hend
      | fault st =>
        rw [hl] at hstands
        obtain ⟨n, ⟨rfl, -⟩, -⟩ := hstands
        exact (acc_args _ _ h n).inBounds
      | running st =>
        rw [hl] at hstands
        obtain ⟨n, ⟨rfl, -⟩, -⟩ := hstands
        exact (acc_args _ _ h n).inBounds

/-! ## The requests -/

/-- There is no memory at one of the first addresses. -/
def Unreadable (ram : Int → Option UInt8) (p : Int) : Prop :=
  ∃ n : Nat, n ≤ MMAP_LEN ∧ ram (p + n) = none

/-- What the request prints or copies has room in the buffer, or never gets past it. -/
def Roomy (tasks : Tasks) (ram : Int → Option UInt8) : Request → Prop
  | .ZPAGE_GET_VMA_INFO arg => ∀ mm, mmOf tasks arg.toNat = some mm →
      totalLength (mapCountText mm :: mm.mmap.map vmaText) < MMAP_LEN
  | .ZPAGE_GET_PID_ARGS arg => ∀ mm, mmOf tasks arg.toNat = some mm →
      ∀ page, walkTaskPage mm mm.argStart = some page →
        ∀ n, ArgsEnd mm ram (physical page mm.argStart) n →
          totalLength (argTexts ram (physical page mm.argStart) n) < MMAP_LEN
  | .ZPAGE_GET_PID_DATA arg => ∀ mm, mmOf tasks arg.toNat = some mm →
      ∀ page, walkTaskPage mm mm.startData = some page →
        int32 (mm.endData - mm.startData).toNat ≤ MMAP_LEN ∨
          Unreadable ram (physical page mm.startData)
  | .ZPAGE_GET_ADDR_REGION (some r) => ∀ mm, mmOf tasks r.pid.toNat = some mm →
      ∀ page, walkTaskPage mm r.startAddr = some page →
        int32 (r.endAddr - r.startAddr).toNat < MMAP_LEN ∨
          Unreadable ram (physical page r.startAddr)
  | _ => True

theorem stopsInTime_iff {cond : Int → Bool} {room : Prop}
    (h : (∃ n : Nat, n ≤ MMAP_LEN ∧ cond n = false) ↔ room) (ram : Int → Option UInt8) (p : Int) :
    StopsInTime cond ram p ↔ room ∨ Unreadable ram p := by
  unfold StopsInTime Unreadable
  simp only [and_or_left, exists_or, h]

theorem data_inBounds_iff {mm : Mm} {k : Kern} (h : InBounds k) :
    (∀ fuel, InBounds (taskGetData fuel mm k).2) ↔
      ∀ page, walkTaskPage mm mm.startData = some page →
        int32 (mm.endData - mm.startData).toNat ≤ MMAP_LEN ∨
          Unreadable k.ram (physical page mm.startData) := by
  unfold taskGetData
  cases walkTaskPage mm mm.startData with
  | none => exact iff_of_true (fun _ => h) fun page hpage => absurd hpage (by simp)
  | some page =>
    simp only [Option.some.injEq, forall_eq']
    rw [copyLoop_inBounds_iff h]
    apply stopsInTime_iff
    constructor
    · intro h
      obtain ⟨n, hn, hc⟩ := h
      have := of_decide_eq_false hc
      omega
    · intro hr
      exact ⟨(int32 (mm.endData - mm.startData).toNat).toNat, by omega,
        decide_eq_false (by omega)⟩

theorem region_inBounds_iff {mm : Mm} {start end_ : UInt64} {k : Kern} (h : InBounds k) :
    (∀ fuel, InBounds (taskGetAddrRegion fuel mm start end_ k).2) ↔
      ∀ page, walkTaskPage mm start = some page →
        int32 (end_ - start).toNat < MMAP_LEN ∨ Unreadable k.ram (physical page start) := by
  unfold taskGetAddrRegion
  cases walkTaskPage mm start with
  | none => exact iff_of_true (fun _ => h) fun page hpage => absurd hpage (by simp)
  | some page =>
    simp only [Option.some.injEq, forall_eq']
    rw [copyLoop_inBounds_iff h]
    apply stopsInTime_iff
    constructor
    · intro h
      obtain ⟨n, hn, hc⟩ := h
      have := of_decide_eq_false hc
      omega
    · intro hr
      exact ⟨(int32 (end_ - start).toNat + 1).toNat, by omega, decide_eq_false (by omega)⟩

/-- Of the requests for one task, those with its memory count. -/
theorem withMm_inBounds_iff {tasks : Tasks} {nr : Nat} {k : Kern} (h : InBounds k)
    (f : Nat → Mm → Outcome × Kern) :
    (∀ fuel, InBounds (withMm (pidTask tasks nr) k (f fuel)).2) ↔
      ∀ mm, mmOf tasks nr = some mm → ∀ fuel, InBounds (f fuel mm).2 := by
  simp only [withMm_pidTask]
  cases mmOf tasks nr with
  | none => exact iff_of_true (fun _ => h) fun mm hmm => absurd hmm (by simp)
  | some mm => simp only [Option.some.injEq, forall_eq']

theorem orFault_inBounds_iff {tasks : Tasks} {nr : Nat} {k : Kern} (h : InBounds k)
    (f : Nat → Mm → Outcome × Kern) :
    (∀ fuel, InBounds (orFault (pidTask tasks nr) k fun task => withMm (some task) k (f fuel)).2) ↔
      ∀ mm, mmOf tasks nr = some mm → ∀ fuel, InBounds (f fuel mm).2 := by
  simp only [orFault_pidTask]
  split
  · next hnone =>
    exact iff_of_true (fun _ => h) fun mm hmm => absurd hmm (mmOf_ne_some hnone mm)
  · exact withMm_inBounds_iff h f

/-- The word that is changed is the target's, not the buffer's. -/
theorem inBounds_pidAddr {k : Kern} (h : InBounds k) (mm : Mm) (addr : UInt64) :
    InBounds (pidAddr mm addr k).2 := by
  unfold pidAddr
  cases walkTaskPage mm addr with
  | none => exact h
  | some page =>
    dsimp only
    cases readWord k.ram (physical page addr) with
    | none => exact h
    | some word => exact h

/-- **A request stays inside the buffer exactly when it has room there.** -/
theorem touched_iff (tasks : Tasks) (ram : Int → Option UInt8) (buf : Int → UInt8)
    (request : Request) :
    (∀ fuel, InBounds (myIoctl fuel tasks ram buf request).2) ↔ Roomy tasks ram request := by
  have h := inBounds_idle ram buf
  cases request with
  | ZPAGE_GET_MM_INFO arg =>
    refine iff_of_true ((orFault_inBounds_iff h fun _ mm => printAll (mmTexts mm) _).mpr ?_) trivial
    intro mm _ _
    have hle := mmTexts_le mm
    have hsum := totalLength_le hle
    have hfour : (mmTexts mm).length = 4 := rfl
    refine (inBounds_printAll h fun t ht => (hle t ht).trans (by decide)).mpr ?_
    unfold MMAP_LEN
    omega
  | ZPAGE_GET_VMA_INFO arg =>
    refine (orFault_inBounds_iff h fun _ mm =>
      printAll (mapCountText mm :: mm.mmap.map vmaText) _).trans (forall₂_congr fun mm _ => ?_)
    rw [forall_const]
    refine inBounds_printAll h fun t ht => ?_
    rcases List.mem_cons.mp ht with rfl | hvma
    · exact mapCountText_le mm
    · obtain ⟨vma, -, rfl⟩ := List.mem_map.mp hvma
      exact vmaText_le vma
  | ZPAGE_GET_PID_ARGS arg =>
    refine (orFault_inBounds_iff h fun fuel mm => taskGetArgs fuel mm _).trans ?_
    exact forall₂_congr fun mm _ => args_inBounds_iff h
  | ZPAGE_GET_PID_DATA arg =>
    refine (withMm_inBounds_iff h fun fuel mm => taskGetData fuel mm _).trans ?_
    exact forall₂_congr fun mm _ => data_inBounds_iff h
  | ZPAGE_GET_ADDR_REGION argp =>
    cases argp with
    | none => exact iff_of_true (fun _ => h) trivial
    | some r =>
      refine (withMm_inBounds_iff h fun fuel mm =>
        taskGetAddrRegion fuel mm r.startAddr r.endAddr _).trans ?_
      exact forall₂_congr fun mm _ => region_inBounds_iff h
  | ZPAGE_GET_PID_ADDR argp =>
    cases argp with
    | none => exact iff_of_true (fun _ => h) trivial
    | some zpage =>
      refine iff_of_true ?_ trivial
      refine (withMm_inBounds_iff h fun _ mm => pidAddr mm zpage.addr _).mpr ?_
      exact fun mm _ _ => inBounds_pidAddr h mm zpage.addr
  | unknown cmd => exact iff_of_true (fun _ => h) trivial

/-- The data segment has 5000 bytes. -/
theorem not_inBounds_data : ¬ ∀ fuel, InBounds (myIoctl fuel
    (fun _ => some ⟨some (flatMm 0 5000 0 0)⟩) (fun _ => some 0) (fun _ => 0)
    (.ZPAGE_GET_PID_DATA 1)).2 := by
  intro hall
  have h := inBounds_idle (fun _ => some 0) fun _ => 0
  have hdata : ∀ fuel, InBounds (taskGetData fuel (flatMm 0 5000 0 0) (idle _ _)).2 := hall
  rcases (data_inBounds_iff h).mp hdata 0 rfl with hr | hno
  · exact absurd hr (by decide)
  · obtain ⟨n, -, hnone⟩ := hno
    exact absurd hnone (by simp [idle])

end LinuxSummary.Zpage
