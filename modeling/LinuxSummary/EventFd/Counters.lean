/-
  The threads of `eventfd/foo.c`: one writer for each eventfd, and one reader over epoll.

  `step` is one step of one thread, so a run is any interleaving of the writers with the reader.
  A call that would block has no step, unless a signal ends it with an error; the kernel side is
  `eventfdWrite` and `eventfdRead`.

  The invariant is `Sound`. What the reader printed for an eventfd and what its counter still
  holds are together what its writer wrote; and each event of a batch that is not read yet has a
  counter that is not 0, since the reader alone takes from the counters and the descriptors of a
  batch are distinct. `sound_step` has one case for each label.
-/
import LinuxSummary.Library.Machine

namespace LinuxSummary.EventFd

open Machine

def MAX_EVENTS : Nat := 10
def ULLONG_MAX : Nat := 2 ^ 64 - 1

/-! ## The eventfd -/

inductive WriteRet
  | wrote (counter : Nat)
  | blocks
  | einval

/-- `write` of eight bytes; the counter stays under `ULLONG_MAX`. -/
def eventfdWrite (counter value : Nat) : WriteRet :=
  if value = ULLONG_MAX then .einval
  else if counter + value < ULLONG_MAX then .wrote (counter + value)
  else .blocks

/-- `read` of eight bytes: what is read and what is left, none where it blocks. -/
def eventfdRead (counter : Nat) : Option (Nat × Nat) :=
  if counter = 0 then none else some (counter, 0)

/-! ## The threads -/

/-- What `main` hands to the threads. The fields of `WRITE_PARAM` are the same for each writer, but
    for its eventfd and the length of its sleep. -/
structure Params where
  efds : List Nat
  writeNum : Nat

/-- `thread_write`: at the turn `i` of its loop, or behind the loop. -/
structure Writer where
  i : Nat
  ended : Bool

inductive End
  | tooMany
  | timeout
  | failed
deriving DecidableEq

/-- `thread_read`; `batch` is what is left of `events`. -/
inductive Reader
  | adding (todo : List Nat)
  | waiting
  | reading (batch : List Nat)
  | ended (why : End)
deriving DecidableEq

structure State where
  counter : Nat → Nat
  writer : Nat → Writer
  reader : Reader
  /-- the descriptors that `epoll_ctl` has added -/
  interest : List Nat
  /-- the lines of the reader: the descriptor and the count -/
  printed : List (Nat × Nat)

def start (p : Params) : State where
  counter _ := 0
  writer _ := ⟨0, false⟩
  reader := if MAX_EVENTS < p.efds.length then .ended .tooMany else .adding p.efds
  interest := []
  printed := []

inductive Label
  | write (fd : Nat)
  | writerEnds (fd : Nat)
  /-- a signal ends a `write` that blocks -/
  | writeInterrupted (fd : Nat)
  /-- `epoll_create1` fails, with nothing added -/
  | createFails
  | add
  | addFails
  | wait (batch : List Nat)
  | timeout
  | waitFails
  | read
  /-- a signal ends a `read` that blocks -/
  | readInterrupted

/-- What `epoll_wait` can put into `events`. -/
def Batch (s : State) (batch : List Nat) : Prop :=
  batch ≠ [] ∧ batch.length ≤ MAX_EVENTS ∧ batch.Nodup ∧
    ∀ fd ∈ batch, fd ∈ s.interest ∧ 0 < s.counter fd

instance (s : State) (batch : List Nat) : Decidable (Batch s batch) :=
  inferInstanceAs (Decidable (_ ∧ _ ∧ _ ∧ _))

/-- The writer of `fd` is at its `write`. -/
def Writing (p : Params) (s : State) (fd : Nat) : Prop :=
  fd ∈ p.efds ∧ (s.writer fd).ended = false ∧ (s.writer fd).i < p.writeNum

instance (p : Params) (s : State) (fd : Nat) : Decidable (Writing p s fd) :=
  inferInstanceAs (Decidable (_ ∧ _ ∧ _))

def State.endWriter (s : State) (fd : Nat) : State :=
  { s with writer := Function.update s.writer fd ⟨(s.writer fd).i, true⟩ }

/-- `count` is the number of the descriptor. -/
def writeStep (p : Params) (s : State) (fd : Nat) : Option State :=
  if Writing p s fd then
    match eventfdWrite (s.counter fd) fd with
    | .wrote counter =>
      some { s with
        counter := Function.update s.counter fd counter
        writer := Function.update s.writer fd ⟨(s.writer fd).i + 1, false⟩ }
    | .blocks => none
    | .einval => some (s.endWriter fd)
  else none

def readStep (s : State) : Option State :=
  match s.reader with
  | .reading (fd :: rest) =>
    match eventfdRead (s.counter fd) with
    | some (count, left) =>
      some { s with
        counter := Function.update s.counter fd left
        reader := if rest = [] then .waiting else .reading rest
        printed := s.printed ++ [(fd, count)] }
    | none => none
  | _ => none

def step (p : Params) (s : State) : Label → Option State
  | .write fd => writeStep p s fd
  | .writerEnds fd =>
    if fd ∈ p.efds ∧ (s.writer fd).ended = false ∧ (s.writer fd).i = p.writeNum then
      some (s.endWriter fd)
    else none
  | .writeInterrupted fd =>
    if Writing p s fd ∧ ULLONG_MAX ≤ s.counter fd + fd then some (s.endWriter fd) else none
  | .createFails =>
    if s.reader = .adding p.efds ∧ s.interest = [] then
      some { s with reader := .ended .failed }
    else none
  | .add =>
    match s.reader with
    | .adding (fd :: todo) =>
      some { s with reader := .adding todo, interest := s.interest ++ [fd] }
    | .adding [] => some { s with reader := .waiting }
    | _ => none
  | .addFails =>
    match s.reader with
    | .adding (_ :: _) => some { s with reader := .ended .failed }
    | _ => none
  | .wait batch =>
    if s.reader = .waiting ∧ Batch s batch then some { s with reader := .reading batch } else none
  | .timeout =>
    if s.reader = .waiting ∧ ∀ fd ∈ s.interest, s.counter fd = 0 then
      some { s with reader := .ended .timeout }
    else none
  | .waitFails => if s.reader = .waiting then some { s with reader := .ended .failed } else none
  | .read => readStep s
  | .readInterrupted =>
    match s.reader with
    | .reading (fd :: _) =>
      if s.counter fd = 0 then some { s with reader := .ended .failed } else none
    | _ => none

/-- Any interleaving of the threads. -/
abbrev Runs (p : Params) (s : State) (ls : List Label) (s' : State) : Prop :=
  Run (fun s l s' => step p s l = some s') s ls s'

/-! ## One step -/

/-- What the printed counts of `fd` come to. -/
def total (printed : List (Nat × Nat)) (fd : Nat) : Nat :=
  ((printed.filter (·.1 = fd)).map (·.2)).sum

theorem total_append (printed : List (Nat × Nat)) (fd count fd' : Nat) :
    total (printed ++ [(fd, count)]) fd' = total printed fd' + if fd = fd' then count else 0 := by
  by_cases h : fd = fd' <;> simp [total, h]

/-- What is left to add. -/
def Reader.todo : Reader → List Nat
  | .adding todo => todo
  | _ => []

structure Sound (p : Params) (s : State) : Prop where
  /-- nothing is lost and nothing is read twice -/
  balance : ∀ fd, total s.printed fd + s.counter fd = fd * (s.writer fd).i
  bounded : ∀ fd, (s.writer fd).i ≤ p.writeNum
  batch : ∀ batch, s.reader = .reading batch →
    batch ≠ [] ∧ batch.Nodup ∧ ∀ fd ∈ batch, 0 < s.counter fd
  added : (∀ why, s.reader ≠ .ended why) → s.interest ++ s.reader.todo = p.efds

theorem sound_start (p : Params) : Sound p (start p) := by
  refine ⟨fun fd => rfl, fun fd => Nat.zero_le _, fun batch h => ?_, fun h => ?_⟩
  · simp only [start] at h
    split at h <;> cases h
  · simp only [start] at h ⊢
    split at h
    · exact absurd rfl (h _)
    · rw [if_neg ‹_›]
      rfl

theorem writeStep_eq_some {p : Params} {s s' : State} {fd : Nat}
    (h : writeStep p s fd = some s') :
    Writing p s fd ∧
      (s' = { s with
        counter := Function.update s.counter fd (s.counter fd + fd)
        writer := Function.update s.writer fd ⟨(s.writer fd).i + 1, false⟩ } ∨
      s' = s.endWriter fd) := by
  unfold writeStep at h
  split at h
  · next hwriting =>
    refine ⟨hwriting, ?_⟩
    unfold eventfdWrite at h
    split_ifs at h
    · exact .inr (Option.some.inj h).symm
    · exact .inl (Option.some.inj h).symm
  · cases h

theorem readStep_eq_some {s s' : State} (h : readStep s = some s') :
    ∃ fd rest, s.reader = .reading (fd :: rest) ∧ 0 < s.counter fd ∧
      s' = { s with
        counter := Function.update s.counter fd 0
        reader := if rest = [] then .waiting else .reading rest
        printed := s.printed ++ [(fd, s.counter fd)] } := by
  unfold readStep at h
  split at h
  · next fd rest hreader =>
    refine ⟨fd, rest, hreader, ?_⟩
    unfold eventfdRead at h
    by_cases hzero : s.counter fd = 0
    · simp [hzero] at h
    · rw [if_neg hzero] at h
      exact ⟨Nat.pos_of_ne_zero hzero, (Option.some.inj h).symm⟩
  · cases h

def Label.ofReader : Label → Bool
  | .write _ | .writerEnds _ | .writeInterrupted _ => false
  | _ => true

/-- The reader leaves the writers alone. -/
theorem step_writer {p : Params} {s s' : State} {l : Label} (h : step p s l = some s')
    (hl : l.ofReader = true) : s'.writer = s.writer := by
  cases l with
  | write fd => cases hl
  | writerEnds fd => cases hl
  | writeInterrupted fd => cases hl
  | read =>
    obtain ⟨fd, rest, -, -, rfl⟩ := readStep_eq_some h
    rfl
  | _ =>
    simp only [step] at h
    split at h <;> first | cases h; rfl | (split at h <;> cases h; rfl) | cases h

/-- A writer adds its number, and its counter is not 0 where it was not. -/
theorem Sound.write {p : Params} {s : State} {fd : Nat} (hs : Sound p s)
    (hwriting : Writing p s fd) :
    Sound p { s with
      counter := Function.update s.counter fd (s.counter fd + fd)
      writer := Function.update s.writer fd ⟨(s.writer fd).i + 1, false⟩ } := by
  refine ⟨fun fd' => ?_, fun fd' => ?_, fun batch hbatch => ?_, hs.added⟩
  · rcases eq_or_ne fd' fd with rfl | hne
    · simp only [Function.update_self, Nat.mul_add, Nat.mul_one, ← hs.balance]
      omega
    · simp only [Function.update_of_ne hne]
      exact hs.balance fd'
  · rcases eq_or_ne fd' fd with rfl | hne
    · simp only [Function.update_self]
      exact hwriting.2.2
    · simp only [Function.update_of_ne hne]
      exact hs.bounded fd'
  · obtain ⟨hne, hnodup, hpos⟩ := hs.batch batch hbatch
    refine ⟨hne, hnodup, fun fd' hfd' => ?_⟩
    have := hpos fd' hfd'
    rcases eq_or_ne fd' fd with rfl | hne
    · simp only [Function.update_self]
      omega
    · simpa only [Function.update_of_ne hne]

theorem Sound.endWriter {p : Params} {s : State} (hs : Sound p s) (fd : Nat) :
    Sound p (s.endWriter fd) := by
  have hi (fd' : Nat) : ((s.endWriter fd).writer fd').i = (s.writer fd').i := by
    rcases eq_or_ne fd' fd with rfl | hne
    · simp [State.endWriter]
    · simp [State.endWriter, hne]
  refine ⟨fun fd' => ?_, fun fd' => ?_, hs.batch, hs.added⟩
  · rw [hi]
    exact hs.balance fd'
  · rw [hi]
    exact hs.bounded fd'

theorem Sound.endReader {p : Params} {s : State} (hs : Sound p s) (why : End) :
    Sound p { s with reader := .ended why } :=
  ⟨hs.balance, hs.bounded, fun _ h => Reader.noConfusion h, fun hno => absurd rfl (hno why)⟩

/-- What is read is printed, and the rest of the batch is for other counters. -/
theorem Sound.read {p : Params} {s : State} {fd : Nat} {rest : List Nat} (hs : Sound p s)
    (hreader : s.reader = .reading (fd :: rest)) :
    Sound p { s with
      counter := Function.update s.counter fd 0
      reader := if rest = [] then .waiting else .reading rest
      printed := s.printed ++ [(fd, s.counter fd)] } := by
  obtain ⟨-, hnodup, hpos⟩ := hs.batch _ hreader
  obtain ⟨hfd, hrest⟩ := List.nodup_cons.mp hnodup
  refine ⟨fun fd' => ?_, hs.bounded, fun batch hbatch => ?_, fun _ => ?_⟩
  · rw [total_append, ← hs.balance]
    rcases eq_or_ne fd' fd with rfl | hne
    · simp
    · simp [hne, hne.symm]
  · by_cases hnil : rest = []
    · simp [hnil] at hbatch
    · obtain rfl : rest = batch := by simpa [hnil] using hbatch
      refine ⟨hnil, hrest, fun fd' hfd' => ?_⟩
      have hne : fd' ≠ fd := ne_of_mem_of_not_mem hfd' hfd
      simpa only [Function.update_of_ne hne] using hpos fd' (List.mem_cons_of_mem _ hfd')
  · have hadded := hs.added (by simp [hreader])
    rw [hreader] at hadded
    by_cases hnil : rest = [] <;> simpa [hnil, Reader.todo] using hadded

theorem sound_step {p : Params} {s s' : State} {l : Label} (hs : Sound p s)
    (h : step p s l = some s') : Sound p s' := by
  cases l with
  | write fd =>
    obtain ⟨hwriting, rfl | rfl⟩ := writeStep_eq_some h
    · exact hs.write hwriting
    · exact hs.endWriter fd
  | writerEnds fd =>
    simp only [step, Option.ite_none_right_eq_some, Option.some.injEq] at h
    exact h.2 ▸ hs.endWriter fd
  | writeInterrupted fd =>
    simp only [step, Option.ite_none_right_eq_some, Option.some.injEq] at h
    exact h.2 ▸ hs.endWriter fd
  | read =>
    obtain ⟨fd, rest, hreader, -, rfl⟩ := readStep_eq_some h
    exact hs.read hreader
  | createFails =>
    simp only [step, Option.ite_none_right_eq_some, Option.some.injEq] at h
    obtain ⟨-, rfl⟩ := h
    exact hs.endReader _
  | add =>
    have hadded := hs.added
    simp only [step] at h
    split at h
    · next fd todo hreader =>
      cases h
      refine ⟨hs.balance, hs.bounded, fun batch hb => (by cases hb), fun _ => ?_⟩
      simpa [hreader, Reader.todo] using hadded
    · next hreader =>
      cases h
      refine ⟨hs.balance, hs.bounded, fun batch hb => (by cases hb), fun _ => ?_⟩
      simpa [hreader, Reader.todo] using hadded
    · cases h
  | addFails =>
    simp only [step] at h
    split at h
    · cases h
      exact hs.endReader _
    · cases h
  | wait batch =>
    simp only [step, Option.ite_none_right_eq_some, Option.some.injEq] at h
    obtain ⟨⟨hreader, hne, -, hnodup, hpos⟩, rfl⟩ := h
    refine ⟨hs.balance, hs.bounded, fun batch' hb => ?_, fun _ => ?_⟩
    · cases hb
      exact ⟨hne, hnodup, fun fd hfd => (hpos fd hfd).2⟩
    · simpa [hreader, Reader.todo] using hs.added
  | timeout =>
    simp only [step, Option.ite_none_right_eq_some, Option.some.injEq] at h
    obtain ⟨-, rfl⟩ := h
    exact hs.endReader _
  | waitFails =>
    simp only [step, Option.ite_none_right_eq_some, Option.some.injEq] at h
    obtain ⟨-, rfl⟩ := h
    exact hs.endReader _
  | readInterrupted =>
    simp only [step] at h
    split at h
    · simp only [Option.ite_none_right_eq_some, Option.some.injEq] at h
      obtain ⟨-, rfl⟩ := h
      exact hs.endReader _
    · cases h

theorem sound_of_run {p : Params} {s : State} {ls : List Label} (h : Runs p (start p) ls s) :
    Sound p s :=
  h.invariant (I := Sound p) (fun _ _ _ => sound_step) (sound_start p)

/-! ## No call blocks -/

/-- The numbers are `int`s. -/
structure Params.Ints (p : Params) : Prop where
  efds : ∀ fd ∈ p.efds, fd < 2 ^ 31
  writeNum : p.writeNum < 2 ^ 31

/-- The counter has room for all that its writer will write. -/
theorem Sound.room {p : Params} {s : State} {fd : Nat} (hp : p.Ints) (hs : Sound p s)
    (hwriting : Writing p s fd) :
    eventfdWrite (s.counter fd) fd = .wrote (s.counter fd + fd) := by
  have hfd := hp.efds fd hwriting.1
  have hsum : s.counter fd + fd ≤ fd * p.writeNum :=
    calc s.counter fd + fd ≤ fd * (s.writer fd).i + fd :=
          Nat.add_le_add_right (hs.balance fd ▸ Nat.le_add_left _ _) _
      _ = fd * ((s.writer fd).i + 1) := rfl
      _ ≤ fd * p.writeNum := Nat.mul_le_mul_left _ hwriting.2.2
  have hmul : fd * p.writeNum < 2 ^ 31 * 2 ^ 31 := Nat.mul_lt_mul'' hfd hp.writeNum
  have hmax : 2 ^ 31 * 2 ^ 31 < ULLONG_MAX := by decide
  rw [eventfdWrite, if_neg (by omega), if_pos (by omega)]

theorem Sound.not_interrupted {p : Params} {s : State} {fd : Nat} (hp : p.Ints) (hs : Sound p s)
    (hwriting : Writing p s fd) : ¬ ULLONG_MAX ≤ s.counter fd + fd := by
  intro hfull
  have hroom := hs.room hp hwriting
  unfold eventfdWrite at hroom
  split_ifs at hroom
  exact absurd hfull (by omega)

/-- **No call of a thread blocks or fails, however the threads are interleaved.** A `read` of the
    reader returns, a `write` of a writer returns and takes it to its next turn, and there is no
    blocked call that a signal could end. -/
theorem never_blocks (p : Params) (hp : p.Ints) (ls : List Label) (s : State)
    (hrun : Runs p (start p) ls s) :
    (∀ fd rest, s.reader = .reading (fd :: rest) → ∃ s', step p s .read = some s') ∧
      (∀ fd, Writing p s fd →
        ∃ s', step p s (.write fd) = some s' ∧ (s'.writer fd).i = (s.writer fd).i + 1) ∧
      step p s .readInterrupted = none ∧ ∀ fd, step p s (.writeInterrupted fd) = none := by
  have hs := sound_of_run hrun
  refine ⟨fun fd rest hreader => ?_, fun fd hwriting => ?_, ?_, fun fd => ?_⟩
  · have hpos := (hs.batch _ hreader).2.2 fd (List.mem_cons_self ..)
    simp [step, readStep, hreader, eventfdRead, hpos.ne']
  · simp [step, writeStep, hwriting, hs.room hp hwriting]
  · simp only [step]
    split
    · next fd rest hreader =>
      exact if_neg ((hs.batch _ hreader).2.2 fd (List.mem_cons_self ..)).ne'
    · rfl
  · exact if_neg fun h => hs.not_interrupted hp h.1 h.2

/-- Two writers, the first in the middle of its loop, and a batch that is half read. -/
theorem never_blocks_twoWriters :
    ∃ s, Runs ⟨[3, 4], 2⟩ (start ⟨[3, 4], 2⟩)
        [.add, .write 4, .add, .write 3, .add, .wait [4, 3], .read] s ∧
      ∃ s', step ⟨[3, 4], 2⟩ s .read = some s' := by
  have hrun : Runs ⟨[3, 4], 2⟩ (start ⟨[3, 4], 2⟩)
      [.add, .write 4, .add, .write 3, .add, .wait [4, 3], .read] _ := Run.of_foldlM rfl
  exact ⟨_, hrun, (never_blocks ⟨[3, 4], 2⟩ ⟨by decide, by decide⟩ _ _ hrun).1 3 [] rfl⟩

/-! ## What the reader has printed when it ends -/

/-- Nothing is printed once the reader has ended. -/
theorem printed_of_ended {p : Params} {s s' : State} {ls : List Label} {why : End}
    (hrun : Runs p s ls s') (hended : s.reader = .ended why) :
    s'.reader = .ended why ∧ s'.printed = s.printed := by
  refine hrun.invariant (I := fun t => t.reader = .ended why ∧ t.printed = s.printed)
    (fun t l t' ht h => ?_) ⟨hended, rfl⟩
  obtain ⟨hreader, hprinted⟩ := ht
  cases l with
  | write fd =>
    obtain ⟨-, rfl | rfl⟩ := writeStep_eq_some h
    · exact ⟨hreader, hprinted⟩
    · exact ⟨hreader, hprinted⟩
  | writerEnds fd =>
    simp only [step, Option.ite_none_right_eq_some, Option.some.injEq] at h
    exact h.2 ▸ ⟨hreader, hprinted⟩
  | writeInterrupted fd =>
    simp only [step, Option.ite_none_right_eq_some, Option.some.injEq] at h
    exact h.2 ▸ ⟨hreader, hprinted⟩
  | _ => simp [step, readStep, hreader] at h

/-- A writer that is behind its loop has been round `write_num` times. -/
theorem ended_of_run {p : Params} (hp : p.Ints) {s : State} {ls : List Label}
    (hrun : Runs p (start p) ls s) {fd : Nat} (hended : (s.writer fd).ended = true) :
    (s.writer fd).i = p.writeNum := by
  refine (hrun.invariant
    (I := fun t => Sound p t ∧ ((t.writer fd).ended = true → (t.writer fd).i = p.writeNum))
    (fun t l t' ht h => ⟨sound_step ht.1 h, ?_⟩) ⟨sound_start p, fun h => by cases h⟩).2 hended
  obtain ⟨hs, hdone⟩ := ht
  cases l with
  | write fd' =>
    obtain ⟨hwriting, -⟩ := writeStep_eq_some h
    simp only [step, writeStep, if_pos hwriting, hs.room hp hwriting, Option.some.injEq] at h
    subst h
    rcases eq_or_ne fd fd' with rfl | hne
    · simp
    · simpa [hne] using hdone
  | writerEnds fd' =>
    simp only [step, Option.ite_none_right_eq_some, Option.some.injEq] at h
    obtain ⟨⟨-, -, hnum⟩, rfl⟩ := h
    rcases eq_or_ne fd fd' with rfl | hne
    · simpa [State.endWriter] using hnum
    · simpa [State.endWriter, hne] using hdone
  | writeInterrupted fd' =>
    simp only [step, Option.ite_none_right_eq_some, Option.some.injEq] at h
    exact absurd h.1.2 (hs.not_interrupted hp h.1.1)
  | _ => exact step_writer h rfl ▸ hdone

/-- **What the reader prints, when a timeout ends it, comes to all that was written before.** -/
theorem printed_of_timeout (p : Params) (hp : p.Ints) (ls ls' : List Label) (s s' s'' : State)
    (hrun : Runs p (start p) ls s) (htimeout : step p s .timeout = some s')
    (hrest : Runs p s' ls' s'') (fd : Nat) (hfd : fd ∈ p.efds) :
    total s''.printed fd = fd * (s.writer fd).i ∧
      ((s.writer fd).ended = true → total s''.printed fd = fd * p.writeNum) := by
  have hs := sound_of_run hrun
  simp only [step, Option.ite_none_right_eq_some, Option.some.injEq] at htimeout
  obtain ⟨⟨hwaiting, hempty⟩, rfl⟩ := htimeout
  obtain ⟨-, hprinted⟩ := printed_of_ended hrest rfl
  have hadded := hs.added (by simp [hwaiting])
  simp only [hwaiting, Reader.todo, List.append_nil] at hadded
  have htotal : total s''.printed fd = fd * (s.writer fd).i := by
    rw [hprinted, ← hs.balance fd, hempty fd (hadded ▸ hfd)]
    rfl
  exact ⟨htotal, fun hended => by rw [htotal, ended_of_run hp hrun hended]⟩

/-- The second write of the second writer comes too late: it is in the counter when the reader
    has ended. -/
theorem printed_of_timeout_twoWriters :
    ∃ s s' s'', Runs ⟨[3, 4], 2⟩ (start ⟨[3, 4], 2⟩)
        [.add, .write 3, .add, .write 4, .add, .write 3, .wait [4, 3], .read, .writerEnds 3, .read]
        s ∧
      step ⟨[3, 4], 2⟩ s .timeout = some s' ∧ Runs ⟨[3, 4], 2⟩ s' [.write 4] s'' ∧
      total s''.printed 3 = 3 * 2 := by
  have hrun : Runs ⟨[3, 4], 2⟩ (start ⟨[3, 4], 2⟩)
      [.add, .write 3, .add, .write 4, .add, .write 3, .wait [4, 3], .read, .writerEnds 3, .read]
      _ := Run.of_foldlM rfl
  refine ⟨_, _, _, hrun, rfl, Run.of_foldlM rfl, ?_⟩
  exact (printed_of_timeout ⟨[3, 4], 2⟩ ⟨by decide, by decide⟩ _ [.write 4] _ _ _ hrun rfl
    (Run.of_foldlM rfl) 3 (by decide)).2 rfl

end LinuxSummary.EventFd
