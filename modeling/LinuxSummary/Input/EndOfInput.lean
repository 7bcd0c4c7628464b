/-
  The loops of `spthread.c`, `user.c` and `memory_use.c` on a standard input that ends.

  Each turn reads a character; `spthread.c` keeps the `int` that `getchar` returns, the others
  narrow it to a `char`. In all three `EOF` is one of the characters that are no command, and
  the next turn comes. What a turn takes away of the input is one byte, and in `user.c` the
  numbers behind it, of which `q` is never a part: so a loop ends on every input with a `q`,
  and need not end on any other (`endsWithInput_iff`).
-/
import LinuxSummary.Library.Stdin
import LinuxSummary.Pthread.CommandLoop
import LinuxSummary.Zpage.FetchSet

namespace LinuxSummary.Input

open Stdin CInt

/-- `'q'` -/
def quit : UInt8 := 113

/-! ## `spthread.c` -/

namespace Spthread

open Pthread

structure Main where
  input : List UInt8
  state : State

/-- A turn, with the outcomes of `pthread_create` and `pthread_join` in `inp`. -/
def mainTurn (inp : Pthread.Input) (m : Main) : Option Main :=
  match turn m.state { inp with ch := m.input.head?.map charOf } with
  | .goes s => some ⟨m.input.tail, s⟩
  | .exits => none
  | .outOfRange => none

end Spthread

/-! ## `user.c` -/

namespace User

open Zpage

/-- What a turn gets from outside: the value of the system call, and whether all that it prints
    from the mapping is mapped. `region` and `addr_region` are what the structures on the stack
    hold before they are read in. -/
structure Outside where
  ioctl : Request → Int
  printed : Bool
  region : Region
  addrRegion : AddrRegion

structure Main where
  input : List UInt8
  pid : Int

def enterPid (pid : Int) (input : List UInt8) : Int × List UInt8 :=
  match scanNumber 10 input with
  | (none, rest) => (pid, rest)
  | (some v, rest) => (int32 (Strtol.clamp v), rest)

/-- `%lx`: what does not fit is the largest number. -/
def enterAddr (addr : UInt64) (input : List UInt8) : UInt64 × List UInt8 :=
  match scanNumber 16 input with
  | (none, rest) => (addr, rest)
  | (some v, rest) => (if 2 ^ 64 ≤ v.natAbs then UInt64.ofInt (-1) else UInt64.ofInt v, rest)

/-- The system call and `ioctl_ret`; none where it ends the tool. -/
def call (out : Outside) (str : Text) (req : Request) : Option Unit :=
  if (ioctlRet str (out.ioctl req)).2 then none else some ()

/-- Printing from the mapping; none where it reaches beyond what is mapped. -/
def printPage (out : Outside) : Option Unit := if out.printed then some () else none

/-- The cases `i`, `v`, `a` and `d`. -/
def pidCommand (out : Outside) (str : Text) (req : UInt64 → Request) (m : Main) : Option Main := do
  let (pid, input) := enterPid m.pid m.input
  call out str (req (UInt64.ofInt pid))
  printPage out
  some ⟨input, pid⟩

/-- The case `t`. -/
def testCommand (out : Outside) (m : Main) : Option Main := do
  let (pid, input) := enterPid (int32 out.region.pid.toNat) m.input
  let (addr, input) := enterAddr out.region.addr input
  call out "ZPAGE_GET_PID_ADDR".toList (.ZPAGE_GET_PID_ADDR (some ⟨UInt32.ofInt pid, addr⟩))
  some ⟨input, m.pid⟩

/-- The cases `B` and `b`. -/
def regionCommand (out : Outside) (m : Main) : Option Main := do
  let (pid, input) := enterPid (int32 out.addrRegion.pid.toNat) m.input
  let (startAddr, input) := enterAddr out.addrRegion.startAddr input
  let (endAddr, input) := enterAddr out.addrRegion.endAddr input
  call out "ZPAGE_GET_ADDR_REGION".toList
    (.ZPAGE_GET_ADDR_REGION (some ⟨UInt32.ofInt pid, startAddr, endAddr⟩))
  printPage out
  some ⟨input, m.pid⟩

/-- The `switch`. -/
def command (out : Outside) (c : Int) (m : Main) : Option Main :=
  if c = code 't' then testCommand out m
  else if c = code 'i' then pidCommand out "ZPAGE_GET_MM_INFO".toList .ZPAGE_GET_MM_INFO m
  else if c = code 'v' then pidCommand out "ZPAGE_GET_VMA_INFO".toList .ZPAGE_GET_VMA_INFO m
  else if c = code 'a' then pidCommand out "ZPAGE_GET_PID_ARGS".toList .ZPAGE_GET_PID_ARGS m
  else if c = code 'd' then pidCommand out "ZPAGE_GET_PID_DATA".toList .ZPAGE_GET_PID_DATA m
  else if c = code 'B' ∨ c = code 'b' then regionCommand out m
  else some m

def mainTurn (out : Outside) (m : Main) : Option Main :=
  let c := toChar (getchar m.input).1
  let m : Main := ⟨(getchar m.input).2, m.pid⟩
  if c = code 'q' then none
  else if isspace c then some m
  else command out c m

end User

/-! ## `memory_use.c` -/

namespace MemoryUse

/-- `i` counts the blocks. -/
structure Main where
  input : List UInt8
  i : Nat

/-- A turn; where `malloc` fails, `memset` writes through a null pointer. -/
def mainTurn (malloced : Bool) (m : Main) : Option Main :=
  let c := toChar (getchar m.input).1
  let input := (getchar m.input).2
  if c = code 'q' then none
  else if malloced then some ⟨input, m.i + 1⟩
  else none

end MemoryUse

/-! ## What a turn leaves of the input -/

/-- The input is shortened from the front, and no `q` is lost. -/
structure Keeps (input rest : List UInt8) : Prop where
  suffix : rest <:+ input
  quit_mem : quit ∈ input → quit ∈ rest

theorem Keeps.refl (input : List UInt8) : Keeps input input := ⟨List.suffix_rfl, id⟩

theorem Keeps.trans {input mid rest : List UInt8} (h1 : Keeps input mid) (h2 : Keeps mid rest) :
    Keeps input rest :=
  ⟨h2.suffix.trans h1.suffix, fun h => h2.quit_mem (h1.quit_mem h)⟩

theorem keeps_scanNumber {base : Nat} (hbase : numberByte base quit = false) (input : List UInt8) :
    Keeps input (scanNumber base input).2 :=
  ⟨scanNumber_suffix base input, mem_scanNumber hbase⟩

/-- A character that is not `q` can be taken away. -/
theorem keeps_tail {input : List UInt8} (h : input.head? ≠ some quit) : Keeps input input.tail := by
  refine ⟨List.tail_suffix input, fun hmem => ?_⟩
  cases input with
  | nil => exact hmem
  | cons b rest =>
    rcases List.mem_cons.mp hmem with heq | hrest
    · exact absurd (congrArg some heq.symm) h
    · exact hrest

namespace User

variable {out : Outside} {m m' : Main}

theorem keeps_enterPid (pid : Int) (input : List UInt8) : Keeps input (enterPid pid input).2 := by
  have hrest : (enterPid pid input).2 = (scanNumber 10 input).2 := by
    unfold enterPid
    split
    · next rest heq => rw [heq]
    · next v rest heq => rw [heq]
  rw [hrest]
  exact keeps_scanNumber (by decide) input

theorem keeps_enterAddr (addr : UInt64) (input : List UInt8) :
    Keeps input (enterAddr addr input).2 := by
  have hrest : (enterAddr addr input).2 = (scanNumber 16 input).2 := by
    unfold enterAddr
    split
    · next rest heq => rw [heq]
    · next v rest heq => rw [heq]
  rw [hrest]
  exact keeps_scanNumber (by decide) input

theorem keeps_pidCommand {str : Text} {req : UInt64 → Zpage.Request}
    (h : pidCommand out str req m = some m') : Keeps m.input m'.input := by
  simp only [pidCommand, Option.bind_eq_bind, Option.bind_eq_some_iff] at h
  obtain ⟨-, -, -, -, h⟩ := h
  obtain rfl := Option.some.inj h
  exact keeps_enterPid m.pid m.input

theorem keeps_testCommand (h : testCommand out m = some m') : Keeps m.input m'.input := by
  simp only [testCommand, Option.bind_eq_bind, Option.bind_eq_some_iff] at h
  obtain ⟨-, -, h⟩ := h
  obtain rfl := Option.some.inj h
  exact (keeps_enterPid _ _).trans (keeps_enterAddr _ _)

theorem keeps_regionCommand (h : regionCommand out m = some m') : Keeps m.input m'.input := by
  simp only [regionCommand, Option.bind_eq_bind, Option.bind_eq_some_iff] at h
  obtain ⟨-, -, -, -, h⟩ := h
  obtain rfl := Option.some.inj h
  exact (keeps_enterPid _ _).trans ((keeps_enterAddr _ _).trans (keeps_enterAddr _ _))

/-- What the `switch` does. -/
theorem command_cases (out : Outside) (c : Int) (m : Main) :
    command out c m = testCommand out m ∨ (∃ str req, command out c m = pidCommand out str req m) ∨
      command out c m = regionCommand out m ∨ command out c m = some m := by
  unfold command
  split
  · exact .inl rfl
  · split
    · exact .inr (.inl ⟨_, _, rfl⟩)
    · split
      · exact .inr (.inl ⟨_, _, rfl⟩)
      · split
        · exact .inr (.inl ⟨_, _, rfl⟩)
        · split
          · exact .inr (.inl ⟨_, _, rfl⟩)
          · split
            · exact .inr (.inr (.inl rfl))
            · exact .inr (.inr (.inr rfl))

theorem keeps_command {c : Int} (h : command out c m = some m') : Keeps m.input m'.input := by
  rcases command_cases out c m with heq | ⟨str, req, heq⟩ | heq | heq
  · exact keeps_testCommand (heq ▸ h)
  · exact keeps_pidCommand (heq ▸ h)
  · exact keeps_regionCommand (heq ▸ h)
  · obtain rfl := Option.some.inj (heq.symm.trans h)
    exact Keeps.refl _

/-- A turn that goes on takes its character away, and what its command reads. -/
theorem keeps_mainTurn (h : mainTurn out m = some m') :
    m.input.head? ≠ some quit ∧ Keeps m.input.tail m'.input := by
  unfold mainTurn at h
  simp only [getchar_snd] at h
  split at h
  · exact absurd h (by simp)
  · next hq =>
    refine ⟨fun hhead => hq ((toChar_getchar_eq_iff (by decide) m.input).mpr hhead), ?_⟩
    split at h
    · obtain rfl := Option.some.inj h
      exact Keeps.refl _
    · exact keeps_command h

/-- Calls that all succeed. -/
def fine : Outside := ⟨fun _ => 0, true, ⟨0, 0⟩, ⟨0, 0, 0⟩⟩

theorem command_fine (c : Int) (m : Main) : ∃ m', command fine c m = some m' := by
  rcases command_cases fine c m with heq | ⟨str, req, heq⟩ | heq | heq
  · exact ⟨_, heq⟩
  · exact ⟨_, heq⟩
  · exact ⟨_, heq⟩
  · exact ⟨_, heq⟩

/-- Where the calls succeed, only a `q` ends the loop. -/
theorem mainTurn_fine {m : Main} (h : m.input.head? ≠ some quit) :
    ∃ m', mainTurn fine m = some m' := by
  have hq : toChar (getchar m.input).1 ≠ code 'q' := fun heq =>
    h ((toChar_getchar_eq_iff (by decide) m.input).mp heq)
  unfold mainTurn
  dsimp only
  rw [if_neg hq]
  split
  · exact ⟨_, rfl⟩
  · exact command_fine _ _

end User

namespace Spthread

open Pthread

variable {inp : Pthread.Input} {m m' : Main}

theorem turn_exits_iff (s : State) (inp : Pthread.Input) :
    turn s inp = .exits ↔ inp.ch = some 'q' := by
  constructor
  · intro h
    unfold turn at h
    split at h
    · split at h
      · exact absurd h (by simp)
      · split at h <;> exact absurd h (by simp)
    · split at h
      · exact absurd h (by simp)
      · split at h <;> exact absurd h (by simp)
    · next hch => exact hch
    · exact absurd h (by simp)
  · intro h
    unfold turn
    rw [h]
    rfl

theorem exits_iff : turn m.state { inp with ch := m.input.head?.map charOf } = .exits ↔
    m.input.head? = some quit := by
  rw [turn_exits_iff]
  have hq : some 'q' = (some quit).map charOf := rfl
  rw [hq]
  exact (Option.map_injective charOf_injective).eq_iff

theorem keeps_mainTurn (h : mainTurn inp m = some m') :
    m.input.head? ≠ some quit ∧ Keeps m.input.tail m'.input := by
  unfold mainTurn at h
  split at h
  · next s hturn =>
    obtain rfl := Option.some.inj h
    refine ⟨fun hhead => ?_, Keeps.refl _⟩
    rw [exits_iff.mpr hhead] at hturn
    exact absurd hturn (by simp)
  · exact absurd h (by simp)
  · exact absurd h (by simp)

/-- Where no thread is created, only a `q` ends the loop. -/
theorem mainTurn_goes (hm : Exact m.state) (hinp : inp.createOk = false)
    (hhead : m.input.head? ≠ some quit) : ∃ m', mainTurn inp m = some m' ∧ Exact m'.state := by
  unfold mainTurn
  split
  · next s hturn =>
    refine ⟨_, rfl, exact_step hm ⟨hturn, fun hok => ?_⟩⟩
    exact absurd (hinp.symm.trans hok) (by decide)
  · next hturn => exact absurd (exits_iff.mp hturn) hhead
  · next hturn => exact absurd hturn (hm.in_range _)

end Spthread

namespace MemoryUse

variable {malloced : Bool} {m m' : Main}

/-- A turn that goes on, and the block that it allocates. -/
theorem mainTurn_eq_some : mainTurn malloced m = some m' ↔
    m.input.head? ≠ some quit ∧ malloced = true ∧ m' = ⟨m.input.tail, m.i + 1⟩ := by
  have hq : toChar (getchar m.input).1 = code 'q' ↔ m.input.head? = some quit :=
    toChar_getchar_eq_iff (b := quit) (by decide) m.input
  unfold mainTurn
  simp only [hq, getchar_snd]
  split
  · next h => simp [h]
  · next h =>
    split
    · next hok => simp [h, hok, eq_comm]
    · next hok => simp [hok]

theorem keeps_mainTurn (h : mainTurn malloced m = some m') :
    m.input.head? ≠ some quit ∧ Keeps m.input.tail m'.input := by
  obtain ⟨hhead, -, rfl⟩ := mainTurn_eq_some.mp h
  exact ⟨hhead, Keeps.refl _⟩

end MemoryUse

/-! ## Whole runs -/

section
variable {σ O : Type} (turn : O → σ → Option σ) (inputOf : σ → List UInt8)
  (hkeeps : ∀ o s s', turn o s = some s' →
    (inputOf s).head? ≠ some quit ∧ Keeps (inputOf s).tail (inputOf s'))
include hkeeps

/-- A turn leaves less of the input, and the `q`. -/
theorem turn_variant {o : O} {s s' : σ} (hquit : quit ∈ inputOf s) (h : turn o s = some s') :
    quit ∈ inputOf s' ∧ (inputOf s').length < (inputOf s).length := by
  obtain ⟨hhead, hkeep⟩ := hkeeps o s s' h
  have hpos := List.length_pos_of_mem hquit
  have hle := hkeep.suffix.length_le
  rw [List.length_tail] at hle
  exact ⟨((keeps_tail hhead).trans hkeep).quit_mem hquit, by omega⟩

/-- On an input with a `q` there are at most as many turns as characters. -/
theorem ends_of_quit {s : σ} (hquit : quit ∈ inputOf s) (outs : Nat → O) :
    Ends (fun n => turn (outs n)) s :=
  ⟨_, before_none (I := fun s => quit ∈ inputOf s) (m := fun s => (inputOf s).length)
    (fun _ _ _ hq h => turn_variant turn inputOf hkeeps hq h) hquit⟩

/-- Without a `q` nothing ends the turns, where one outcome of the calls lets each go on. -/
theorem not_ends_of_not_quit {o : O} {I : σ → Prop}
    (hgoes : ∀ s, I s → (inputOf s).head? ≠ some quit → ∃ s', turn o s = some s' ∧ I s') {s : σ}
    (hI : I s) (hquit : quit ∉ inputOf s) : ¬ Ends (fun _ => turn o) s := by
  apply not_ends (I := fun s => I s ∧ quit ∉ inputOf s)
  · intro n s hs
    have hhead : (inputOf s).head? ≠ some quit := fun heq => hs.2 (List.mem_of_head? heq)
    obtain ⟨s', hturn, hI'⟩ := hgoes s hs.1 hhead
    have hsuffix := ((keeps_tail hhead).trans (hkeeps o s s' hturn).2).suffix
    exact ⟨s', hturn, hI', fun hmem => hs.2 (hsuffix.subset hmem)⟩
  · exact ⟨hI, hquit⟩

/-- Whatever the calls do, the loop ends: on the inputs with a `q`, and on no other. -/
theorem ends_iff_quit {o : O} {I : σ → Prop}
    (hgoes : ∀ s, I s → (inputOf s).head? ≠ some quit → ∃ s', turn o s = some s' ∧ I s') {s : σ}
    (hI : I s) : (∀ outs : Nat → O, Ends (fun n => turn (outs n)) s) ↔ quit ∈ inputOf s := by
  constructor
  · intro h
    by_contra hquit
    exact not_ends_of_not_quit turn inputOf hkeeps hgoes hI hquit (h fun _ => o)
  · intro hquit
    exact ends_of_quit turn inputOf hkeeps hquit

end

/-- The thread tool ends on an input, whatever its calls do. -/
def Spthread.EndsOn (input : List UInt8) : Prop :=
  ∀ inps : Nat → Pthread.Input,
    Ends (fun n => Spthread.mainTurn (inps n)) ⟨input, Pthread.start⟩

def User.EndsOn (input : List UInt8) : Prop :=
  ∀ outs : Nat → User.Outside, Ends (fun n => User.mainTurn (outs n)) ⟨input, 0⟩

def MemoryUse.EndsOn (input : List UInt8) : Prop :=
  ∀ malloced : Nat → Bool, Ends (fun n => MemoryUse.mainTurn (malloced n)) ⟨input, 0⟩

/-- At no time are there more blocks than characters. -/
def MemoryUse.Bounded (input : List UInt8) : Prop :=
  ∀ (malloced : Nat → Bool) (n : Nat) (m : MemoryUse.Main),
    before (fun n => MemoryUse.mainTurn (malloced n)) ⟨input, 0⟩ n = some m → m.i ≤ input.length

theorem Spthread.endsOn_iff (input : List UInt8) : Spthread.EndsOn input ↔ quit ∈ input :=
  ends_iff_quit Spthread.mainTurn Spthread.Main.input (fun _ _ _ => Spthread.keeps_mainTurn)
    (o := ⟨none, false, 0, true⟩) (I := fun m => Pthread.Exact m.state)
    (fun _ hm => Spthread.mainTurn_goes hm rfl) Pthread.exact_start

theorem User.endsOn_iff (input : List UInt8) : User.EndsOn input ↔ quit ∈ input := by
  have hgoes : ∀ m : User.Main, True → m.input.head? ≠ some quit →
      ∃ m', User.mainTurn User.fine m = some m' ∧ True := by
    intro m _ hhead
    obtain ⟨m', hturn⟩ := User.mainTurn_fine hhead
    exact ⟨m', hturn, trivial⟩
  exact ends_iff_quit User.mainTurn User.Main.input (fun _ _ _ => User.keeps_mainTurn) hgoes trivial

theorem MemoryUse.endsOn_iff (input : List UInt8) : MemoryUse.EndsOn input ↔ quit ∈ input := by
  have hgoes : ∀ m : MemoryUse.Main, True → m.input.head? ≠ some quit →
      ∃ m', MemoryUse.mainTurn true m = some m' ∧ True := by
    intro m _ hhead
    exact ⟨_, MemoryUse.mainTurn_eq_some.mpr ⟨hhead, rfl, rfl⟩, trivial⟩
  exact ends_iff_quit MemoryUse.mainTurn MemoryUse.Main.input
    (fun _ _ _ => MemoryUse.keeps_mainTurn) hgoes trivial

/-- A turn makes a block of a character. -/
theorem MemoryUse.turn_block {n : Nat} {malloced : Bool} {m m' : MemoryUse.Main}
    (hm : quit ∈ m.input ∧ m.i + m.input.length ≤ n)
    (h : MemoryUse.mainTurn malloced m = some m') :
    (quit ∈ m'.input ∧ m'.i + m'.input.length ≤ n) ∧ m'.input.length < m.input.length := by
  obtain ⟨hhead, -, rfl⟩ := MemoryUse.mainTurn_eq_some.mp h
  have hmem := (keeps_tail hhead).quit_mem hm.1
  have hpos := List.length_pos_of_mem hm.1
  have hle := hm.2
  refine ⟨⟨hmem, ?_⟩, ?_⟩
  · rw [List.length_tail]
    dsimp only
    omega
  · rw [List.length_tail]
    omega

theorem MemoryUse.bounded_of_quit {input : List UInt8} (hquit : quit ∈ input) :
    MemoryUse.Bounded input := by
  intro malloced n m hm
  have hinv := (before_variant (I := fun m => quit ∈ m.input ∧ m.i + m.input.length ≤ input.length)
    (m := fun m => m.input.length) (fun _ _ _ hI h => MemoryUse.turn_block hI h)
    ⟨hquit, by simp⟩ n m hm).1.2
  omega

/-- All three loops end on the input, and the blocks are no more than its characters. -/
def EndsWithInput (input : List UInt8) : Prop :=
  Spthread.EndsOn input ∧ User.EndsOn input ∧ MemoryUse.EndsOn input ∧ MemoryUse.Bounded input

/-- The loops end with the input exactly where it has a `q`. -/
theorem endsWithInput_iff (input : List UInt8) : EndsWithInput input ↔ quit ∈ input := by
  constructor
  · intro h
    exact (Spthread.endsOn_iff input).mp h.1
  · intro hquit
    exact ⟨(Spthread.endsOn_iff input).mpr hquit, (User.endsOn_iff input).mpr hquit,
      (MemoryUse.endsOn_iff input).mpr hquit, MemoryUse.bounded_of_quit hquit⟩

/-- On the empty input no loop ends, and `memory_use` has two blocks behind its second turn. -/
theorem endsWithInput_empty : ¬ Spthread.EndsOn [] ∧ ¬ User.EndsOn [] ∧ ¬ MemoryUse.EndsOn [] ∧
    ¬ MemoryUse.Bounded [] := by
  have hquit : quit ∉ ([] : List UInt8) := by simp
  refine ⟨fun h => hquit ((Spthread.endsOn_iff []).mp h),
    fun h => hquit ((User.endsOn_iff []).mp h), fun h => hquit ((MemoryUse.endsOn_iff []).mp h), ?_⟩
  intro h
  have hbounded := h (fun _ => true) 2 ⟨[], 2⟩ rfl
  exact absurd hbounded (by decide)

end LinuxSummary.Input
