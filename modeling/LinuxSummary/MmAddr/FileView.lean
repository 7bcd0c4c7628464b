/-
  `fileview.c`: a viewer for a file or a device.

  Each turn draws the page at `position` and then waits for a key. A file is anything that hands
  out its bytes piece by piece from the position that `lseek` sets (`IsFile`); the keys are what
  the reads of the terminal put into `inch` and `ch`, and a turn is none where the viewer ends or
  waits for a key that does not come.

  `inside_of_run` is the invariant of the main loop, over every sequence of keys. `draw_eq` says
  what a page shows. The prompt for an address edits sixteen bytes in place; `prompt_eq` ties it to
  a line that grows and shrinks at its end, and with it `address_shown` brings every byte of the
  file to the screen.
-/
import LinuxSummary.Library.ByteSource
import LinuxSummary.Library.Stdin
import LinuxSummary.MmAddr.Outline

namespace LinuxSummary.MmAddr

open CInt ByteSource Strtol

def BUFHIGH : Nat := 16
def BUFSIZE : Nat := 256

def KB_SEEK : Nat := 0x0000000A
def KB_QUIT : Nat := 0x0000001B
def KB_BACK : Nat := 0x0000007F
def KB_HOME : Nat := 0x00315B1B
def KB_LNUP : Nat := 0x00415B1B
def KB_PGUP : Nat := 0x00355B1B
def KB_LEFT : Nat := 0x00445B1B
def KB_RGHT : Nat := 0x00435B1B
def KB_LNDN : Nat := 0x00425B1B
def KB_PGDN : Nat := 0x00365B1B
def KB_END : Nat := 0x00345B1B
def KB_DEL : Nat := 0x00335B1B

def incmin : Int := 2 ^ 8
def incmax : Int := 2 ^ 36
def posmin : Int := 0

/-- `x & ~0xFLL` -/
def align (x : Int) : Int := x - x % 16

/-- `posmax` for the size of the file. -/
def posmaxOf (filesize : Int) : Int :=
  let posmax := align (filesize - 241)
  if posmax < posmin then posmin else posmax

/-! ## The file -/

/-- An open file: what `lseek` returns for an offset and a whence, and what a read of so many bytes
    gets; an empty piece stands for 0 and for an error. -/
structure Device (σ : Type) where
  lseek : σ → Int → Int → Int × σ
  read : σ → Nat → List UInt8 × σ

/-- The variables of the main loop. -/
structure View where
  position : Int
  pageincr : Int
  format : Format
deriving DecidableEq

/-- `buffer[]` after the reads. -/
def load {σ : Type} (d : Device σ) (fd : σ) : List UInt8 × σ :=
  let filled := fill d.read fd BUFSIZE
  (filled.1 ++ List.replicate (BUFSIZE - filled.1.length) 0xFF, filled.2)

/-- The lines of a page. -/
def draw {σ : Type} (d : Device σ) (fd : σ) (v : View) : List Text × σ :=
  let seek := d.lseek fd v.position 0
  let loaded := load d seek.2
  ((List.range BUFHIGH).map fun i => outline v.format (seek.1 + (i * BUFWIDE : Nat))
    ((loaded.1.drop (i * BUFWIDE)).take BUFWIDE), loaded.2)

/-! ## Keys -/

/-- The cases of the switch. -/
inductive Command
  | home
  | last
  | lndn
  | lnup
  | pgdn
  | pgup
  | rght
  | left
  | reset (f : Format)
  | seek
  | quit
  | other
deriving DecidableEq

/-- The case of a key, after `inch &= 0x00FFFFFFLL`. -/
def commandOf (inch : Nat) : Command :=
  if inch = 'H'.toNat ∨ inch = 'h'.toNat ∨ inch = KB_HOME then .home
  else if inch = 'E'.toNat ∨ inch = 'e'.toNat ∨ inch = KB_END then .last
  else if inch = KB_LNDN then .lndn
  else if inch = KB_LNUP then .lnup
  else if inch = KB_PGDN then .pgdn
  else if inch = KB_PGUP then .pgup
  else if inch = KB_RGHT then .rght
  else if inch = KB_LEFT then .left
  else if inch = 'B'.toNat ∨ inch = 'b'.toNat then .reset .byte
  else if inch = 'W'.toNat ∨ inch = 'w'.toNat then .reset .word
  else if inch = 'D'.toNat ∨ inch = 'd'.toNat then .reset .dword
  else if inch = 'Q'.toNat ∨ inch = 'q'.toNat then .reset .qword
  else if inch = 'O'.toNat ∨ inch = 'o'.toNat then .reset .octaword
  else if inch = KB_SEEK then .seek
  else if inch = KB_QUIT then .quit
  else .other

/-- What the commands do that neither end the viewer nor ask for an address. -/
def navigate (posmax : Int) (v : View) : Command → View
  | .home => { v with position := posmin }
  | .last => { v with position := posmax }
  | .lndn => { v with position := int64 (v.position + BUFWIDE) }
  | .lnup => { v with position := int64 (v.position - BUFWIDE) }
  | .pgdn => { v with position := int64 (v.position + v.pageincr) }
  | .pgup => { v with position := int64 (v.position - v.pageincr) }
  | .rght => { v with pageincr := v.pageincr >>> (4 : Nat) }
  | .left => { v with pageincr := int64 (v.pageincr <<< (4 : Nat)) }
  | .reset f => { v with format := f }
  | .seek | .quit | .other => v

/-- The keys that also go back. -/
def backKey (ch : Nat) : Nat :=
  let ch := if ch = KB_LEFT then KB_BACK else ch
  if ch = KB_DEL then KB_BACK else ch

/-- The keys up to `Enter` or `Escape`, into `inbuf[]` from the index `i` on; none where they do
    not suffice. -/
def prompt : Text → Nat → List Nat → Option (Text × List Nat)
  | inbuf, i, [] => if i < 15 then none else some (inbuf, [])
  | inbuf, i, key :: keys =>
    if i < 15 then
      let ch := key % 2 ^ 24
      if ch = '\n'.toNat then some (inbuf, keys)
      else if ch = KB_QUIT then some (inbuf.set 0 NUL, keys)
      else
        let ch := backKey ch
        let back := ch = KB_BACK ∧ 0 < i
        let i' := if back then i - 1 else i
        let inbuf := if back then inbuf.set i' NUL else inbuf
        if ch < 0x20 ∨ 0x7E < ch then prompt inbuf i' keys
        else prompt (inbuf.set i' (Char.ofNat ch)) (i' + 1) keys
    else some (inbuf, key :: keys)

/-- `inbuf[ 16 ] = {0}` -/
def emptyBuf : Text := List.replicate 16 NUL

def seekTo (inbuf : Text) : Int := align (int64 (strtoull (cstring inbuf) 16))

/-- What the bounds make of the page size. -/
def restore (pageincr : Int) : Int :=
  if pageincr = 0 then incmax
  else if pageincr < incmin then incmin
  else if incmax < pageincr then incmax
  else pageincr

def bound (posmax : Int) (v : View) : View :=
  let position := if v.position < posmin then posmin else v.position
  { v with position := if posmax < position then posmax else position }

/-! ## The main loop -/

structure Main (σ : Type) where
  view : View
  fd : σ
  /-- What the next reads of the terminal put into `inch`. -/
  input : List Nat

section
variable {σ : Type} (d : Device σ) (filesize : Int)

/-- What the turn has on the screen while it waits. -/
def screen (m : Main σ) : List Text := (draw d m.fd m.view).1

def turn (m : Main σ) : Option (Main σ) :=
  let v := { m.view with pageincr := restore m.view.pageincr }
  let fd := (draw d m.fd m.view).2
  match m.input with
  | [] => none
  | key :: input =>
    match commandOf (key % 2 ^ 24) with
    | .quit => none
    | .seek =>
      match prompt emptyBuf 0 input with
      | none => none
      | some (inbuf, input) =>
        some ⟨bound (posmaxOf filesize) { v with position := seekTo inbuf }, fd, input⟩
    | c => some ⟨bound (posmaxOf filesize) (navigate (posmaxOf filesize) v c), fd, input⟩

/-- The main loop begins; a file whose end is not found ends the viewer. -/
def start (fd : σ) (input : List Nat) : Option (Int × Main σ) :=
  let seek := d.lseek fd 0 2
  if seek.1 < 0 then none else some (seek.1, ⟨⟨0, incmin, .byte⟩, seek.2, input⟩)

/-- The state in which the turn `n` draws. -/
def reached (m : Main σ) (n : Nat) : Option (Main σ) :=
  Stdin.before (fun _ => turn d filesize) m n

end

/-! ## The place in the file -/

/-- What every turn keeps: the page begins with a paragraph of the file, no later than the last
    page does, and a page is a power of sixteen. -/
structure Inside (filesize : Int) (v : View) : Prop where
  nonneg : 0 ≤ v.position
  le : v.position ≤ posmaxOf filesize
  aligned : v.position % 16 = 0
  page : ∃ k, 1 ≤ k ∧ k ≤ 10 ∧ v.pageincr = 16 ^ k

theorem align_mod (x : Int) : align x % 16 = 0 := by
  unfold align
  omega

theorem int64_mod (x : Int) : int64 x % 16 = x % 16 := by
  unfold int64
  rw [Int.bmod_def]
  omega

theorem posmaxOf_nonneg (filesize : Int) : 0 ≤ posmaxOf filesize := by
  unfold posmaxOf posmin
  dsimp only
  split <;> omega

theorem posmaxOf_mod (filesize : Int) : posmaxOf filesize % 16 = 0 := by
  have := align_mod (filesize - 241)
  unfold posmaxOf posmin
  dsimp only
  split <;> omega

/-- The last page holds the last byte, and no page begins behind the file. -/
theorem posmaxOf_spec {filesize : Int} (h : 0 ≤ filesize) :
    posmaxOf filesize ≤ filesize ∧ filesize ≤ posmaxOf filesize + 256 := by
  unfold posmaxOf posmin align
  dsimp only
  split <;> omega

/-- The page that is moved by: the bounds leave `16 ^ 2` to `16 ^ 9`, and zero is never met. -/
theorem restore_page {p : Int} (h : ∃ k, 1 ≤ k ∧ k ≤ 10 ∧ p = 16 ^ k) :
    ∃ k, 2 ≤ k ∧ k ≤ 9 ∧ restore p = 16 ^ k := by
  obtain ⟨k, h1, h10, rfl⟩ := h
  rcases (by omega : k = 1 ∨ k = 10 ∨ 2 ≤ k ∧ k ≤ 9) with rfl | rfl | ⟨h2, h9⟩
  · exact ⟨2, le_rfl, by decide, by decide⟩
  · exact ⟨9, by decide, le_rfl, by decide⟩
  · refine ⟨k, h2, h9, ?_⟩
    interval_cases k <;> decide

/-- A command leaves the view at a paragraph, with a page that the bounds can restore. -/
theorem navigate_spec {posmax : Int} {v : View} (hmax : posmax % 16 = 0)
    (hpos : v.position % 16 = 0) (hpage : ∃ k, 2 ≤ k ∧ k ≤ 9 ∧ v.pageincr = 16 ^ k)
    (c : Command) : (navigate posmax v c).position % 16 = 0 ∧
      ∃ k, 1 ≤ k ∧ k ≤ 10 ∧ (navigate posmax v c).pageincr = 16 ^ k := by
  obtain ⟨k, h2, h9, hk⟩ := hpage
  have hsame : ∃ k, 1 ≤ k ∧ k ≤ 10 ∧ v.pageincr = 16 ^ k := ⟨k, by omega, by omega, hk⟩
  have hk16 : v.pageincr % 16 = 0 := by
    rw [hk]
    interval_cases k <;> decide
  have hwide : ((BUFWIDE : Nat) : Int) = 16 := rfl
  cases c with
  | home => exact ⟨rfl, hsame⟩
  | last => exact ⟨hmax, hsame⟩
  | lndn | lnup =>
    refine ⟨?_, hsame⟩
    rw [navigate, int64_mod, hwide]
    omega
  | pgdn | pgup =>
    refine ⟨?_, hsame⟩
    rw [navigate, int64_mod]
    omega
  | rght =>
    refine ⟨hpos, k - 1, by omega, by omega, ?_⟩
    rw [navigate, hk]
    interval_cases k <;> rfl
  | left =>
    refine ⟨hpos, k + 1, by omega, by omega, ?_⟩
    rw [navigate, hk]
    interval_cases k <;> rfl
  | reset f => exact ⟨hpos, hsame⟩
  | seek | quit | other => exact ⟨hpos, hsame⟩

theorem inside_bound {filesize : Int} {v : View} (hpos : v.position % 16 = 0)
    (hpage : ∃ k, 1 ≤ k ∧ k ≤ 10 ∧ v.pageincr = 16 ^ k) :
    Inside filesize (bound (posmaxOf filesize) v) := by
  have hmax := posmaxOf_mod filesize
  have hnonneg := posmaxOf_nonneg filesize
  unfold bound posmin
  refine ⟨?_, ?_, ?_, hpage⟩ <;> dsimp only <;> split <;> split <;> omega

section
variable {σ : Type} {d : Device σ} {filesize : Int} {m m' : Main σ}

/-- What a turn can do. -/
theorem turn_cases (h : turn d filesize m = some m') :
    ∃ v, m'.view = bound (posmaxOf filesize) v ∧ m'.fd = (draw d m.fd m.view).2 ∧
      ((∃ c, v = navigate (posmaxOf filesize)
          { m.view with pageincr := restore m.view.pageincr } c) ∨
        ∃ inbuf, v = { m.view with pageincr := restore m.view.pageincr,
                                   position := seekTo inbuf }) := by
  unfold turn at h
  split at h
  · exact absurd h (by simp)
  · split at h
    · exact absurd h (by simp)
    · split at h
      · exact absurd h (by simp)
      · next inbuf _ _ =>
        obtain rfl := Option.some.inj h
        exact ⟨_, rfl, rfl, .inr ⟨inbuf, rfl⟩⟩
    · obtain rfl := Option.some.inj h
      exact ⟨_, rfl, rfl, .inl ⟨_, rfl⟩⟩

theorem inside_turn (hin : Inside filesize m.view) (h : turn d filesize m = some m') :
    Inside filesize m'.view := by
  obtain ⟨k, h2, h9, hk⟩ := restore_page hin.page
  obtain ⟨v, hv, -, ⟨c, rfl⟩ | ⟨inbuf, rfl⟩⟩ := turn_cases h
  · obtain ⟨hpos, hpage⟩ := navigate_spec
      (v := { m.view with pageincr := restore m.view.pageincr }) (posmaxOf_mod filesize)
      hin.aligned ⟨k, h2, h9, hk⟩ c
    rw [hv]
    exact inside_bound hpos hpage
  · rw [hv]
    exact inside_bound (align_mod _) ⟨k, by omega, by omega, hk⟩

theorem inside_start {fd : σ} {input : List Nat} (h : start d fd input = some (filesize, m)) :
    Inside filesize m.view := by
  unfold start at h
  dsimp only at h
  split at h
  · exact absurd h (by simp)
  · obtain ⟨-, rfl⟩ := Prod.mk.inj (Option.some.inj h)
    exact ⟨le_rfl, posmaxOf_nonneg filesize, rfl, 2, by decide, by decide, rfl⟩

/-- **Over every sequence of keys the page stays inside the file.** -/
theorem inside_of_run {fd : σ} {input : List Nat} (h : start d fd input = some (filesize, m))
    {n : Nat} (hn : reached d filesize m n = some m') : Inside filesize m'.view :=
  Stdin.before_invariant (fun _ _ _ hin hturn => inside_turn hin hturn) (inside_start h) n m' hn

end

/-! ## What a page shows -/

/-- The bytes of a file, and behind them what `buffer[]` is erased with. -/
def padded (content : Nat → UInt8) (size p : Nat) : UInt8 := if p < size then content p else 0xFF

/-- A file of so many bytes: reads serve its content, and `lseek` goes where it is sent. -/
structure IsFile {σ : Type} (d : Device σ) (pos : σ → Nat) (content : Nat → UInt8) (size : Nat)
    (I : σ → Prop) : Prop where
  size_lt : size < 2 ^ 63
  serves : Serves d.read pos content size I
  seek_set : ∀ fd (p : Nat), I fd → p ≤ size →
    (d.lseek fd p 0).1 = p ∧ pos (d.lseek fd p 0).2 = p ∧ I (d.lseek fd p 0).2
  seek_end : ∀ fd, I fd → (d.lseek fd 0 2).1 = size ∧ I (d.lseek fd 0 2).2

section
variable {σ : Type} {d : Device σ} {pos : σ → Nat} {content : Nat → UInt8} {size : Nat}
  {I : σ → Prop}

theorem window_padded (content : Nat → UInt8) (size p n : Nat) :
    window content p (min n (size - p)) ++ List.replicate (n - min n (size - p)) 0xFF =
      window (padded content size) p n := by
  have hfront : window content p (min n (size - p)) =
      window (padded content size) p (min n (size - p)) := by
    apply window_congr
    intro i hp hi
    unfold padded
    rw [if_pos (by omega)]
  have hback : List.replicate (n - min n (size - p)) 0xFF =
      window (padded content size) (p + min n (size - p)) (n - min n (size - p)) := by
    apply List.ext_getElem?
    intro i
    by_cases hi : i < n - min n (size - p)
    · rw [getElem?_window _ _ hi, List.getElem?_replicate_of_lt hi]
      unfold padded
      rw [if_neg (by omega)]
    · rw [List.getElem?_eq_none (by simpa using hi), List.getElem?_eq_none (by simpa using hi)]
  rw [hfront, hback, window_append]
  congr 1
  omega

/-- **A page shows the file from its position on.** -/
theorem draw_eq (hfile : IsFile d pos content size I) {fd : σ} (hfd : I fd) {v : View} {p : Nat}
    (hv : v.position = p) (hp : p ≤ size) :
    (draw d fd v).1 = (List.range BUFHIGH).map (fun i =>
      outline v.format (p + i * BUFWIDE : Nat)
        (window (padded content size) (p + i * BUFWIDE) BUFWIDE)) ∧ I (draw d fd v).2 := by
  obtain ⟨hset, hpos, hkeep⟩ := hfile.seek_set fd p hfd hp
  have hfill := fill_eq hfile.serves hkeep BUFSIZE
  rw [hpos] at hfill
  have hload : (load d (d.lseek fd p 0).2).1 = window (padded content size) p BUFSIZE := by
    unfold load
    dsimp only
    rw [hfill, length_window, window_padded]
  unfold draw
  dsimp only
  rw [hv, hset, hload]
  refine ⟨List.map_congr_left fun i hi => ?_, ?_⟩
  · have hlt : i * BUFWIDE + BUFWIDE ≤ BUFSIZE := by
      have := List.mem_range.mp hi
      unfold BUFHIGH at this
      unfold BUFWIDE BUFSIZE
      omega
    rw [window_drop_take _ _ hlt, Nat.cast_add]
  · exact fill_keeps hfile.serves hkeep BUFSIZE

end

/-! ## The prompt for an address -/

/-- The line that the keys leave: it grows and shrinks at its end, and is given up with `Escape`. -/
def typed : Text → List Nat → Option (Text × List Nat)
  | line, [] => if line.length < 15 then none else some (line, [])
  | line, key :: keys =>
    if line.length < 15 then
      let ch := key % 2 ^ 24
      if ch = '\n'.toNat then some (line, keys)
      else if ch = KB_QUIT then some ([], keys)
      else if ch = KB_LEFT ∨ ch = KB_DEL ∨ ch = KB_BACK then typed line.dropLast keys
      else if ch < 0x20 ∨ 0x7E < ch then typed line keys
      else typed (line ++ [Char.ofNat ch]) keys
    else some (line, key :: keys)

/-- `inbuf[]` with a line in it. -/
def bufferOf (line : Text) : Text := line ++ List.replicate (16 - line.length) NUL

theorem bufferOf_push {line : Text} (h : line.length < 15) (c : Char) :
    (bufferOf line).set line.length c = bufferOf (line ++ [c]) := by
  obtain ⟨k, hk⟩ : ∃ k, 16 - line.length = k + 1 := ⟨15 - line.length, by omega⟩
  have hk' : 16 - (line ++ [c]).length = k := by
    rw [List.length_append, List.length_singleton]
    omega
  unfold bufferOf
  rw [hk, hk', List.set_append_right _ _ le_rfl, Nat.sub_self, List.replicate_succ,
    List.set_cons_zero, List.append_assoc, List.singleton_append]

theorem bufferOf_pop {line : Text} (hpos : 0 < line.length) (h : line.length ≤ 15) :
    (bufferOf line).set (line.length - 1) NUL = bufferOf line.dropLast := by
  have hne := List.length_pos_iff.mp hpos
  have hsplit := List.dropLast_append_getLast hne
  have hlen : line.dropLast.length = line.length - 1 := List.length_dropLast
  have hpad : 16 - line.dropLast.length = (16 - line.length) + 1 := by omega
  have hbuf : bufferOf line =
      line.dropLast ++ line.getLast hne :: List.replicate (16 - line.length) NUL := by
    conv_lhs => rw [bufferOf, ← hsplit]
    rw [List.append_assoc, List.singleton_append, hsplit]
  rw [hbuf, ← hlen, List.set_append_right _ _ le_rfl, Nat.sub_self, List.set_cons_zero, bufferOf,
    hpad, List.replicate_succ]

theorem cstring_bufferOf {line : Text} (h : line.length ≤ 15) (hnul : NUL ∉ line) :
    cstring (bufferOf line) = line := by
  obtain ⟨k, hk⟩ : ∃ k, 16 - line.length = k + 1 := ⟨15 - line.length, by omega⟩
  unfold bufferOf
  rw [hk, List.replicate_succ, cstring_of_not_mem hnul]

/-- `Escape` empties the line from its front. -/
theorem cstring_escape (line : Text) (h : line.length ≤ 15) :
    cstring ((bufferOf line).set 0 NUL) = [] := by
  cases line with
  | nil => rfl
  | cons c cs => rfl

/-- A key is typed as it is. -/
theorem ofNat_ne_NUL {ch : Nat} (h : 0x20 ≤ ch) (h' : ch ≤ 0x7E) : Char.ofNat ch ≠ NUL := by
  intro heq
  have := congrArg Char.toNat heq
  interval_cases ch <;> exact absurd this (by decide)

theorem backKey_back {ch : Nat} (h : ch = KB_LEFT ∨ ch = KB_DEL ∨ ch = KB_BACK) :
    backKey ch = KB_BACK := by
  rcases h with rfl | rfl | rfl <;> rfl

theorem backKey_other {ch : Nat} (h : ¬ (ch = KB_LEFT ∨ ch = KB_DEL ∨ ch = KB_BACK)) :
    backKey ch = ch := by
  unfold backKey
  rw [if_neg fun h' => h (.inl h'), if_neg fun h' => h (.inr (.inl h'))]

/-- **The sixteen bytes hold the line.** -/
theorem prompt_eq {line : Text} (h : line.length ≤ 15) (hnul : NUL ∉ line) (keys : List Nat) :
    (prompt (bufferOf line) line.length keys).map (fun r => (cstring r.1, r.2)) =
      typed line keys := by
  induction keys generalizing line with
  | nil =>
    unfold prompt typed
    split
    · rfl
    · rw [Option.map_some, cstring_bufferOf h hnul]
  | cons key keys ih =>
    unfold prompt typed
    by_cases hroom : line.length < 15
    · rw [if_pos hroom, if_pos hroom]
      dsimp only
      by_cases hent : key % 2 ^ 24 = '\n'.toNat
      · rw [if_pos hent, if_pos hent, Option.map_some, cstring_bufferOf h hnul]
      rw [if_neg hent, if_neg hent]
      by_cases hesc : key % 2 ^ 24 = KB_QUIT
      · rw [if_pos hesc, if_pos hesc, Option.map_some, cstring_escape line h]
      rw [if_neg hesc, if_neg hesc]
      by_cases hback : key % 2 ^ 24 = KB_LEFT ∨ key % 2 ^ 24 = KB_DEL ∨ key % 2 ^ 24 = KB_BACK
      · have hout : KB_BACK < 0x20 ∨ 0x7E < KB_BACK := .inr (by decide)
        rw [backKey_back hback, if_pos hback, if_pos hout]
        by_cases hpos : 0 < line.length
        · rw [if_pos ⟨rfl, hpos⟩, if_pos ⟨rfl, hpos⟩, bufferOf_pop hpos h, ← List.length_dropLast]
          refine ih ?_ fun hmem => hnul (List.mem_of_mem_dropLast hmem)
          rw [List.length_dropLast]
          omega
        · obtain rfl : line = [] := List.length_eq_zero_iff.mp (by omega)
          rw [if_neg fun hand => hpos hand.2, if_neg fun hand => hpos hand.2]
          exact ih h hnul
      · have hnot : ¬ (key % 2 ^ 24 = KB_BACK ∧ 0 < line.length) :=
          fun hand => hback (.inr (.inr hand.1))
        rw [backKey_other hback, if_neg hback, if_neg hnot, if_neg hnot]
        by_cases hout : key % 2 ^ 24 < 0x20 ∨ 0x7E < key % 2 ^ 24
        · rw [if_pos hout, if_pos hout]
          exact ih h hnul
        · have hchar : Char.ofNat (key % 2 ^ 24) ≠ NUL := ofNat_ne_NUL (by omega) (by omega)
          have hlen : (line ++ [Char.ofNat (key % 2 ^ 24)]).length = line.length + 1 := by
            rw [List.length_append, List.length_singleton]
          rw [if_neg hout, if_neg hout, bufferOf_push hroom, ← hlen]
          refine ih (by omega) fun hmem => ?_
          rcases List.mem_append.mp hmem with hmem | hmem
          · exact hnul hmem
          · exact hchar (List.mem_singleton.mp hmem).symm
    · rw [if_neg hroom, if_neg hroom, Option.map_some, cstring_bufferOf h hnul]

/-! ## Every byte can be shown -/

theorem seekTo_digits {inbuf digits : Text} (hline : cstring inbuf = digits) (hne : digits ≠ [])
    (hall : digits.all (Numeral.isDigitOf 16) = true) (hlt : Numeral.value 16 digits < 2 ^ 63) :
    seekTo inbuf = align (Numeral.value 16 digits) := by
  unfold seekTo
  rw [hline, strtoull_digits hne hall (by omega), int64_of_range (by omega) (by omega)]

/-- The page that an address leads to holds the byte of that address. -/
theorem bound_holds {size a : Nat} (ha : a < size) (v : View) :
    ∃ p : Nat, (bound (posmaxOf size) { v with position := align a }).position = p ∧
      p ≤ a ∧ a < p + BUFSIZE := by
  have hspec := posmaxOf_spec (Int.natCast_nonneg size)
  have hnonneg := posmaxOf_nonneg size
  generalize posmaxOf size = posmax at hspec hnonneg
  have halign : align a = (a - a % 16 : Nat) := by
    unfold align
    omega
  unfold bound posmin BUFSIZE
  dsimp only
  rw [halign]
  refine ⟨((if posmax < (a - a % 16 : Nat) then posmax else (a - a % 16 : Nat) : Int)).toNat, ?_⟩
  split <;> split <;> omega

section
variable {σ : Type} {d : Device σ} {pos : σ → Nat} {content : Nat → UInt8} {size : Nat}
  {I : σ → Prop} {m m' : Main σ}

/-- The file stays open, and its pages can be drawn, in the whole run. -/
theorem file_of_run (hfile : IsFile d pos content size I) {fd : σ} (hfd : I fd)
    {input : List Nat} (h : start d fd input = some ((size : Int), m)) {n : Nat}
    (hn : reached d size m n = some m') : Inside size m'.view ∧ I m'.fd := by
  refine Stdin.before_invariant (I := fun m => Inside size m.view ∧ I m.fd)
    (fun _ u w hu hturn => ⟨inside_turn hu.1 hturn, ?_⟩) ⟨inside_start h, ?_⟩ n m' hn
  · obtain ⟨v, -, hfdw, -⟩ := turn_cases hturn
    obtain ⟨p, hp⟩ := Int.eq_ofNat_of_zero_le hu.1.nonneg
    have hle := hu.1.le.trans (posmaxOf_spec (Int.natCast_nonneg size)).1
    rw [hfdw]
    exact (draw_eq hfile hu.2 hp (by omega)).2
  · unfold start at h
    dsimp only at h
    split at h
    · exact absurd h (by simp)
    · obtain ⟨-, rfl⟩ := Prod.mk.inj (Option.some.inj h)
      exact (hfile.seek_end fd hfd).2

/-- **Wherever the viewer is, typing the address of a byte shows it.** -/
theorem address_shown (hfile : IsFile d pos content size I) {fd : σ} (hfd : I fd)
    {input : List Nat} (h : start d fd input = some ((size : Int), m)) {n : Nat}
    (hn : reached d size m n = some m') {key : Nat} {keys rest : List Nat} {digits : Text}
    (hkey : key % 2 ^ 24 = KB_SEEK) (hinput : m'.input = key :: keys)
    (htyped : typed [] keys = some (digits, rest)) (hne : digits ≠ [])
    (hall : digits.all (Numeral.isDigitOf 16) = true) (ha : Numeral.value 16 digits < size) :
    ∃ m'', turn d size m' = some m'' ∧ m''.input = rest ∧
      ∃ (line column : Nat) (row : List UInt8), (screen d m'')[line]? =
          some (outline m''.view.format (Numeral.value 16 digits - column : Nat) row) ∧
        column ≤ Numeral.value 16 digits ∧
        row[column]? = some (content (Numeral.value 16 digits)) := by
  have hsize := hfile.size_lt
  obtain ⟨hin, hfd'⟩ := file_of_run hfile hfd h hn
  -- what the prompt hands over
  have hbuf : (prompt emptyBuf 0 keys).map (fun r => (cstring r.1, r.2)) = some (digits, rest) := by
    rw [← htyped]
    exact @prompt_eq [] (by decide) (by simp) keys
  obtain ⟨⟨inbuf, rest'⟩, hprompt, hpair⟩ := Option.map_eq_some_iff.mp hbuf
  obtain ⟨hline, hrest⟩ := Prod.mk.inj hpair
  dsimp only at hrest
  subst hrest
  have hseek := seekTo_digits hline hne hall (by omega)
  have hcommand : commandOf KB_SEEK = .seek := by decide
  let v := { m'.view with pageincr := restore m'.view.pageincr }
  refine ⟨⟨bound (posmaxOf size) { v with position := seekTo inbuf },
    (draw d m'.fd m'.view).2, rest'⟩, ?_, rfl, ?_⟩
  · unfold turn
    rw [hinput]
    dsimp only
    rw [hkey, hcommand]
    dsimp only
    rw [hprompt]
  -- the page that is drawn then
  obtain ⟨q, hq⟩ := Int.eq_ofNat_of_zero_le hin.nonneg
  have hqle := hin.le.trans (posmaxOf_spec (Int.natCast_nonneg size)).1
  have hopen := (draw_eq hfile hfd' hq (by omega)).2
  obtain ⟨p, hp, hle, hlt⟩ := bound_holds ha v
  generalize Numeral.value 16 digits = a at *
  rw [← hseek] at hp
  have hdraw := (draw_eq hfile hopen hp (by omega)).1
  have hcol : (a - p) % BUFWIDE < BUFWIDE := Nat.mod_lt _ (by decide)
  unfold BUFSIZE at hlt
  refine ⟨(a - p) / BUFWIDE, (a - p) % BUFWIDE,
    window (padded content size) (p + (a - p) / BUFWIDE * BUFWIDE) BUFWIDE, ?_, ?_, ?_⟩
  · unfold screen
    rw [hdraw, List.getElem?_map, List.getElem?_range (by unfold BUFHIGH BUFWIDE; omega),
      Option.map_some]
    have hplace : p + (a - p) / BUFWIDE * BUFWIDE = a - (a - p) % BUFWIDE := by
      unfold BUFWIDE
      omega
    rw [hplace]
  · unfold BUFWIDE
    omega
  · have hplace : p + (a - p) / BUFWIDE * BUFWIDE + (a - p) % BUFWIDE = a := by
      rw [Nat.add_assoc, Nat.div_add_mod']
      omega
    rw [getElem?_window _ _ hcol, hplace, padded, if_pos ha]

end

/-- A regular file. -/
def regular (content : Nat → UInt8) (size : Nat) : Device Nat where
  lseek fd offset whence :=
    let newpos : Int := if whence = 0 then offset else if whence = 1 then fd + offset
      else size + offset
    if newpos < 0 then (-1, fd) else (newpos, newpos.toNat)
  read fd n := (window content fd (min n (size - fd)), fd + min n (size - fd))

theorem regular_isFile (content : Nat → UInt8) {size : Nat} (h : size < 2 ^ 63) :
    IsFile (regular content size) id content size (· ≤ size) where
  size_lt := h
  serves := by
    refine ⟨fun _ hs => hs, fun s n hs => ?_, fun s n _ => ?_, fun s n _ => ?_, fun s n _ => ?_,
      fun s n _ hn hlt => ?_⟩
    · change s + min n (size - s) ≤ size
      omega
    · have hread : ((regular content size).read s n).1 = window content s (min n (size - s)) := rfl
      rw [hread, length_window]
      rfl
    · change s + min n (size - s) = s + (window content s _).length
      rw [length_window]
    · change (window content s _).length ≤ n
      rw [length_window]
      exact min_le_left _ _
    · change 0 < (window content s _).length
      rw [length_window]
      exact lt_min hn (Nat.sub_pos_of_lt hlt)
  seek_set fd p _ hp := by
    have hseek : (regular content size).lseek fd p 0 = ((p : Int), p) := by
      simp [regular]
    rw [hseek]
    exact ⟨rfl, rfl, hp⟩
  seek_end fd _ := by
    have hseek : (regular content size).lseek fd 0 2 = ((size : Int), size) := by
      simp [regular]
    rw [hseek]
    exact ⟨rfl, le_rfl⟩

/-- In a file of 300 bytes, the address 11F, typed with a slip. -/
theorem address_shown_regular :
    ∃ m'', turn (regular UInt8.ofNat 300) (300 : Nat)
        ⟨⟨0, incmin, .byte⟩, 300, [0x0A, 0x31, 0x32, 0x7F, 0x31, 0x46, 0x0A]⟩ = some m'' ∧
      m''.input = [] ∧
      ∃ (line column : Nat) (row : List UInt8),
        (screen (regular UInt8.ofNat 300) m'')[line]? =
          some (outline m''.view.format (Numeral.value 16 ['1', '1', 'F'] - column : Nat) row) ∧
        column ≤ Numeral.value 16 ['1', '1', 'F'] ∧
        row[column]? = some (UInt8.ofNat (Numeral.value 16 ['1', '1', 'F'])) := by
  have hstart : start (regular UInt8.ofNat 300) 300 [0x0A, 0x31, 0x32, 0x7F, 0x31, 0x46, 0x0A] =
      some (((300 : Nat) : Int), ⟨⟨0, incmin, .byte⟩, 300,
        [0x0A, 0x31, 0x32, 0x7F, 0x31, 0x46, 0x0A]⟩) := rfl
  have hkey : 0x0A % 2 ^ 24 = KB_SEEK := by decide
  exact address_shown (regular_isFile UInt8.ofNat (by decide)) (Nat.zero_le 300) hstart (n := 0) rfl
    hkey rfl (by decide) (by decide) (by decide) (by decide)

/-- The key `e` in a file of 300 bytes. -/
theorem inside_of_run_regular :
    ∃ m', reached (regular UInt8.ofNat 300) (300 : Nat) ⟨⟨0, incmin, .byte⟩, 300, [0x65]⟩ 1 =
        some m' ∧ Inside (300 : Nat) m'.view := by
  have hstart : start (regular UInt8.ofNat 300) 300 [0x65] =
      some (((300 : Nat) : Int), ⟨⟨0, incmin, .byte⟩, 300, [0x65]⟩) := rfl
  exact ⟨_, rfl, inside_of_run hstart (n := 1) rfl⟩

end LinuxSummary.MmAddr
