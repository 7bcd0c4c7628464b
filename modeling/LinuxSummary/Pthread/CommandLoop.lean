/-
  The command loop of `spthread.c`: threads on a stack of slots.

  `turn` is one turn of `while(1)`, with the outcomes of `pthread_create` and `pthread_join`
  as its input. `Lib` is what the thread library knows, with each thread under the serial
  number of its creation and with the slot whose address the thread was given. The one
  promise of the library is in `Step`: a new thread gets an id that no thread has that is
  still to be joined.

  The invariant is `Exact`. It says that the slots below `current_nums` are the slots of the
  threads that were created and not joined, one each and in order. `turn_cases` is the
  inversion of a turn, `exact_step` the step lemma, `threads_kept` the result over all runs.
-/
import LinuxSummary.Library.Machine

namespace LinuxSummary.Pthread

open Machine

def MAX_THREAD : Int := 10

/-- `thread_arg` -/
structure ThreadArg where
  running : Int
  tid : Nat
deriving DecidableEq

/-! ## The array -/

/-- `args[i]`, none where `i` is no index of the array. -/
def arg? (args : List ThreadArg) (i : Int) : Option ThreadArg :=
  if 0 ≤ i then args[i.toNat]? else none

/-- A store into `args[i]`, none where `i` is no index of the array. -/
def store? (args : List ThreadArg) (i : Int) (f : ThreadArg → ThreadArg) :
    Option (List ThreadArg) :=
  if 0 ≤ i ∧ i.toNat < args.length then some (args.modify i.toNat f) else none

theorem arg?_isSome {args : List ThreadArg} {i : Int} (h1 : 0 ≤ i) (h2 : i < args.length) :
    ∃ a, arg? args i = some a := by
  have hi : i.toNat < args.length := by omega
  exact ⟨args[i.toNat], by rw [arg?, if_pos h1, List.getElem?_eq_getElem hi]⟩

theorem store?_eq_some {args args' : List ThreadArg} {i : Int} {f : ThreadArg → ThreadArg} :
    store? args i f = some args' ↔
      (0 ≤ i ∧ i.toNat < args.length) ∧ args' = args.modify i.toNat f := by
  unfold store?
  split
  · next h => simp [h, eq_comm]
  · next h => simp [h]

theorem arg?_modify {args : List ThreadArg} {i j : Int} (f : ThreadArg → ThreadArg) (hi : 0 ≤ i) :
    arg? (args.modify i.toNat f) j = if j = i then (arg? args j).map f else arg? args j := by
  unfold arg?
  by_cases hj : 0 ≤ j
  · rw [if_pos hj, if_pos hj, List.getElem?_modify]
    by_cases hij : j = i
    · rw [hij, if_pos rfl]
      cases args[i.toNat]? <;> simp
    · rw [if_neg hij]
      have hne : ¬ i.toNat = j.toNat := by omega
      cases args[j.toNat]? <;> simp [hne]
  · rw [if_neg hj, if_neg hj]
    split <;> rfl

/-! ## The thread library -/

/-- A thread that was created and not joined. -/
structure Thread where
  serial : Nat
  tid : Nat
  /-- the slot whose address `thread_func` was given -/
  slot : Int
deriving DecidableEq

structure Lib where
  created : Nat
  unjoined : List Thread
  /-- the serial numbers of the threads that were joined, in order -/
  joined : List Nat

/-- `pthread_create`; on failure no thread is made. -/
def Lib.create (lib : Lib) (ok : Bool) (tid : Nat) (slot : Int) : Lib :=
  if ok then ⟨lib.created + 1, lib.unjoined ++ [⟨lib.created, tid, slot⟩], lib.joined⟩ else lib

/-- `pthread_join` of the thread that has the id. -/
def Lib.join (lib : Lib) (ok : Bool) (tid : Nat) : Lib :=
  if ok then
    match lib.unjoined.find? (·.tid = tid) with
    | some t => ⟨lib.created, lib.unjoined.erase t, lib.joined ++ [t.serial]⟩
    | none => lib
  else lib

/-! ## One turn of the loop -/

structure State where
  currentNums : Int
  args : List ThreadArg
  lib : Lib

/-- What `getchar` returns, and the outcomes of the calls that the turn may make. `tid` is what
    `pthread_create` leaves in `*thread`, also where it fails. -/
structure Input where
  ch : Option Char
  createOk : Bool
  tid : Nat
  joinOk : Bool

inductive Turn
  | goes (s : State)
  | exits
  | outOfRange

def turn (s : State) (inp : Input) : Turn :=
  match inp.ch with
  | some 'c' =>
    if s.currentNums ≥ MAX_THREAD then .goes s
    else
      match store? s.args s.currentNums fun _ => ⟨1, inp.tid⟩ with
      | none => .outOfRange
      | some args =>
        .goes ⟨if inp.createOk then s.currentNums + 1 else s.currentNums, args,
          s.lib.create inp.createOk inp.tid s.currentNums⟩
  | some 'k' =>
    if s.currentNums ≤ 0 then .goes s
    else
      match store? s.args (s.currentNums - 1) ({ · with running := 0 }),
          arg? s.args (s.currentNums - 1) with
      | some args, some a =>
        .goes ⟨if inp.joinOk then s.currentNums - 1 else s.currentNums, args,
          s.lib.join inp.joinOk a.tid⟩
      | _, _ => .outOfRange
  | some 'q' => .exits
  | _ => .goes s

/-- One turn that goes on. The id of a new thread is not the id of one still to be joined. -/
def Step (s : State) (inp : Input) (s' : State) : Prop :=
  turn s inp = .goes s' ∧ (inp.createOk = true → ∀ t ∈ s.lib.unjoined, t.tid ≠ inp.tid)

/-- `main` before the loop. -/
def start : State := ⟨0, List.replicate 10 ⟨0, 0⟩, ⟨0, [], []⟩⟩

/-! ## The invariant -/

/-- The threads to be joined are on the slots `0 .. current_nums - 1`, in order, each under its
    own id; and every thread that was created is to be joined or was joined, once. -/
structure Exact (s : State) : Prop where
  nums_nonneg : 0 ≤ s.currentNums
  nums_le : s.currentNums ≤ MAX_THREAD
  length_args : (s.args.length : Int) = MAX_THREAD
  slots : s.lib.unjoined.map (·.slot) = (List.range s.currentNums.toNat).map Int.ofNat
  slot_tid : ∀ t ∈ s.lib.unjoined, (arg? s.args t.slot).map (·.tid) = some t.tid
  tids : (s.lib.unjoined.map (·.tid)).Nodup
  serials : (s.lib.unjoined.map (·.serial) ++ s.lib.joined).Perm (List.range s.lib.created)

theorem exact_start : Exact start where
  nums_nonneg := by decide
  nums_le := by decide
  length_args := by decide
  slots := rfl
  slot_tid := fun t ht => absurd ht (by simp [start])
  tids := List.nodup_nil
  serials := List.Perm.refl _

section
variable {s s' : State} {inp : Input}

theorem Exact.slot_lt (h : Exact s) {t : Thread} (ht : t ∈ s.lib.unjoined) :
    0 ≤ t.slot ∧ t.slot < s.currentNums := by
  have hm : t.slot ∈ s.lib.unjoined.map (·.slot) := List.mem_map_of_mem ht
  rw [h.slots] at hm
  obtain ⟨n, hn, hslot⟩ := List.mem_map.mp hm
  rw [List.mem_range] at hn
  have : (n : Int) = t.slot := hslot
  omega

/-- The thread on the last slot. -/
theorem Exact.last (h : Exact s) (hpos : 0 < s.currentNums) :
    ∃ front t, s.lib.unjoined = front ++ [t] ∧ t.slot = s.currentNums - 1 ∧
      front.map (·.slot) = (List.range (s.currentNums - 1).toNat).map Int.ofNat := by
  have hn : s.currentNums.toNat = (s.currentNums - 1).toNat + 1 := by omega
  have hslots := h.slots
  rw [hn, List.range_succ, List.map_append] at hslots
  have hne : s.lib.unjoined ≠ [] := by
    intro hnil
    rw [hnil] at hslots
    simp at hslots
  obtain ⟨front, t, hlast⟩ : ∃ front t, s.lib.unjoined = front ++ [t] :=
    ⟨_, _, (List.dropLast_append_getLast hne).symm⟩
  rw [hlast, List.map_append] at hslots
  obtain ⟨hfront, hslot⟩ := List.append_inj' hslots rfl
  refine ⟨front, t, hlast, ?_, hfront⟩
  have hval : t.slot = ((s.currentNums - 1).toNat : Int) := by simpa using hslot
  omega

/-- What a turn that goes on can do. -/
theorem turn_cases (h : turn s inp = .goes s') :
    s' = s ∨
    (inp.ch = some 'c' ∧ s.currentNums < MAX_THREAD ∧
      ∃ args, store? s.args s.currentNums (fun _ => ⟨1, inp.tid⟩) = some args ∧
        s' = ⟨if inp.createOk then s.currentNums + 1 else s.currentNums, args,
          s.lib.create inp.createOk inp.tid s.currentNums⟩) ∨
    (inp.ch = some 'k' ∧ 0 < s.currentNums ∧
      ∃ args a, store? s.args (s.currentNums - 1) ({ · with running := 0 }) = some args ∧
        arg? s.args (s.currentNums - 1) = some a ∧
        s' = ⟨if inp.joinOk then s.currentNums - 1 else s.currentNums, args,
          s.lib.join inp.joinOk a.tid⟩) := by
  unfold turn at h
  split at h
  · next hch =>
    split at h
    · exact .inl (Turn.goes.inj h).symm
    · next hlt =>
      split at h
      · exact absurd h (by simp)
      · next args hargs =>
        exact .inr (.inl ⟨hch, by omega, args, hargs, (Turn.goes.inj h).symm⟩)
  · next hch =>
    split at h
    · exact .inl (Turn.goes.inj h).symm
    · next hpos =>
      split at h
      · next args a hargs ha =>
        exact .inr (.inr ⟨hch, by omega, args, a, hargs, ha, (Turn.goes.inj h).symm⟩)
      · exact absurd h (by simp)
  · exact absurd h (by simp)
  · exact .inl (Turn.goes.inj h).symm

/-- Under the invariant every index is one of the array. -/
theorem Exact.in_range (h : Exact s) (inp : Input) : turn s inp ≠ .outOfRange := by
  have hlen := h.length_args
  have h0 := h.nums_nonneg
  have h10 := h.nums_le
  unfold turn
  split
  · split
    · simp
    · next hlt =>
      have hst : store? s.args s.currentNums (fun _ => ⟨1, inp.tid⟩) = some _ :=
        store?_eq_some.mpr ⟨⟨h0, by omega⟩, rfl⟩
      rw [hst]
      simp
  · split
    · simp
    · next hpos =>
      have hst : store? s.args (s.currentNums - 1) ({ · with running := 0 }) = some _ :=
        store?_eq_some.mpr ⟨⟨by omega, by omega⟩, rfl⟩
      obtain ⟨a, ha⟩ : ∃ a, arg? s.args (s.currentNums - 1) = some a :=
        arg?_isSome (by omega) (by omega)
      rw [hst, ha]
      simp
  · simp
  · simp

/-- `c`: the new thread takes the slot behind the others. -/
theorem exact_create (h : Exact s) {args : List ThreadArg} (hlt : s.currentNums < MAX_THREAD)
    (hst : store? s.args s.currentNums (fun _ => ⟨1, inp.tid⟩) = some args)
    (hfresh : inp.createOk = true → ∀ t ∈ s.lib.unjoined, t.tid ≠ inp.tid) :
    Exact ⟨if inp.createOk then s.currentNums + 1 else s.currentNums, args,
      s.lib.create inp.createOk inp.tid s.currentNums⟩ := by
  obtain ⟨-, rfl⟩ := store?_eq_some.mp hst
  have h0 := h.nums_nonneg
  have hkeep : ∀ t ∈ s.lib.unjoined,
      arg? (s.args.modify s.currentNums.toNat fun _ => ⟨1, inp.tid⟩) t.slot =
        arg? s.args t.slot := by
    intro t ht
    have := h.slot_lt ht
    rw [arg?_modify _ h0, if_neg (by omega)]
  have hlen : ((s.args.modify s.currentNums.toNat fun _ => ⟨1, inp.tid⟩).length : Int) =
      MAX_THREAD := by
    rw [List.length_modify]
    exact h.length_args
  cases hok : inp.createOk with
  | false =>
    refine ⟨h0, h.nums_le, hlen, h.slots, fun t ht => ?_, h.tids, h.serials⟩
    rw [hkeep t ht]
    exact h.slot_tid t ht
  | true =>
    simp only [Lib.create, if_true]
    have hn : (s.currentNums + 1).toNat = s.currentNums.toNat + 1 := by omega
    have hge : 0 ≤ s.currentNums + 1 := by omega
    have hle : s.currentNums + 1 ≤ MAX_THREAD := by omega
    refine ⟨hge, hle, hlen, ?_, fun t ht => ?_, ?_, ?_⟩
    · rw [hn, List.range_succ, List.map_append, List.map_append, h.slots]
      simp [h0]
    · rcases List.mem_append.mp ht with ht | ht
      · rw [hkeep t ht]
        exact h.slot_tid t ht
      · obtain rfl := List.mem_singleton.mp ht
        obtain ⟨a, ha⟩ : ∃ a, arg? s.args s.currentNums = some a :=
          arg?_isSome h0 (by have := h.length_args; omega)
        rw [arg?_modify _ h0, if_pos rfl, ha]
        rfl
    · rw [List.map_append, List.nodup_append]
      refine ⟨h.tids, by simp, ?_⟩
      intro a ha b hb
      obtain ⟨t, ht, rfl⟩ := List.mem_map.mp ha
      obtain rfl : b = inp.tid := by simpa using hb
      exact hfresh hok t ht
    · have hswap : ∀ (xs ys : List Nat) (n : Nat), (xs ++ [n] ++ ys).Perm (xs ++ ys ++ [n]) := by
        intro xs ys n
        rw [List.append_assoc, List.append_assoc]
        exact List.perm_append_comm.append_left xs
      rw [List.range_succ, List.map_append]
      exact (hswap _ _ _).trans (h.serials.append_right _)

/-- `k`: the thread on the last slot is told to stop, and leaves the stack once it is joined. -/
theorem exact_join (h : Exact s) {args : List ThreadArg} {a : ThreadArg} (hpos : 0 < s.currentNums)
    (hst : store? s.args (s.currentNums - 1) ({ · with running := 0 }) = some args)
    (ha : arg? s.args (s.currentNums - 1) = some a) (ok : Bool) :
    Exact ⟨if ok then s.currentNums - 1 else s.currentNums, args, s.lib.join ok a.tid⟩ := by
  obtain ⟨-, rfl⟩ := store?_eq_some.mp hst
  have hle := h.nums_le
  have hkeep : ∀ t ∈ s.lib.unjoined,
      (arg? (s.args.modify (s.currentNums - 1).toNat ({ · with running := 0 })) t.slot).map
        (·.tid) = some t.tid := by
    intro t ht
    rw [arg?_modify _ (by omega), ← h.slot_tid t ht]
    split
    · rw [Option.map_map]
      rfl
    · rfl
  have hlen : ((s.args.modify (s.currentNums - 1).toNat ({ · with running := 0 })).length : Int) =
      MAX_THREAD := by
    rw [List.length_modify]
    exact h.length_args
  cases ok with
  | false => exact ⟨h.nums_nonneg, hle, hlen, h.slots, hkeep, h.tids, h.serials⟩
  | true =>
    obtain ⟨front, t, hlast, hslot, hfront⟩ := h.last hpos
    have htid : a.tid = t.tid := by
      have := h.slot_tid t (by rw [hlast]; simp)
      rw [hslot, ha] at this
      exact Option.some.inj this
    have htids := h.tids
    rw [hlast, List.map_append, List.nodup_append] at htids
    -- the id names the thread on the last slot and no other
    have hfind : s.lib.unjoined.find? (·.tid = a.tid) = some t := by
      rw [hlast, List.find?_append, List.find?_eq_none.mpr, htid]
      · simp
      · intro u hu
        have := htids.2.2 u.tid (List.mem_map_of_mem hu) t.tid (by simp)
        simpa [htid] using this
    have hnot : t ∉ front := by
      intro hm
      exact htids.2.2 t.tid (List.mem_map_of_mem hm) t.tid (by simp) rfl
    have herase : s.lib.unjoined.erase t = front := by
      rw [hlast, List.erase_append_right _ hnot]
      simp
    have hjoin : s.lib.join true a.tid =
        ⟨s.lib.created, front, s.lib.joined ++ [t.serial]⟩ := by
      simp only [Lib.join, if_true, hfind, herase]
    rw [hjoin]
    refine ⟨by simp; omega, by simp; omega, hlen, hfront, fun u hu => ?_, htids.1, ?_⟩
    · exact hkeep u (by rw [hlast]; exact List.mem_append_left _ hu)
    · have hser := h.serials
      rw [hlast, List.map_append, List.append_assoc] at hser
      exact (List.perm_append_comm.append_left _).trans hser

theorem exact_step (h : Exact s) (hstep : Step s inp s') : Exact s' := by
  obtain ⟨hturn, hfresh⟩ := hstep
  rcases turn_cases hturn with rfl | ⟨-, hlt, args, hst, rfl⟩ | ⟨-, hpos, args, a, hst, ha, rfl⟩
  · exact h
  · exact exact_create h hlt hst hfresh
  · exact exact_join h hpos hst ha inp.joinOk

/-- `c` writes no slot of a thread that is still to be joined. -/
theorem create_keeps_slots (h : Exact s) (hch : inp.ch = some 'c') (hturn : turn s inp = .goes s')
    {t : Thread} (ht : t ∈ s.lib.unjoined) : arg? s'.args t.slot = arg? s.args t.slot := by
  rcases turn_cases hturn with rfl | ⟨-, hlt, args, hst, rfl⟩ | ⟨hk, -⟩
  · rfl
  · obtain ⟨-, rfl⟩ := store?_eq_some.mp hst
    have := h.slot_lt ht
    exact (arg?_modify _ h.nums_nonneg).trans (if_neg (by omega))
  · rw [hch] at hk
    exact absurd hk (by decide)

end

/-- **No thread is lost, overwritten or joined twice**, whatever is typed and however the calls
    of the library end. -/
theorem threads_kept {inputs : List Input} {s : State} (h : Run Step start inputs s) :
    Exact s ∧ s.lib.joined.Nodup ∧ (∀ inp, turn s inp ≠ .outOfRange) ∧
      ∀ inp s', inp.ch = some 'c' → turn s inp = .goes s' →
        ∀ t ∈ s.lib.unjoined, arg? s'.args t.slot = arg? s.args t.slot := by
  have hex : Exact s := h.invariant (fun _ _ _ h hs => exact_step h hs) exact_start
  refine ⟨hex, ?_, hex.in_range, fun inp s' hch hturn t ht => create_keeps_slots hex hch hturn ht⟩
  have hnodup := hex.serials.nodup_iff.mpr List.nodup_range
  exact (List.nodup_append.mp hnodup).2.1

/-- Two threads, and a join that fails at first. -/
theorem threads_kept_two : ∃ s : State, s.currentNums = 1 ∧ s.lib.joined = [1] ∧ Exact s := by
  have h : Run Step start [⟨some 'c', true, 70, false⟩, ⟨some 'c', true, 71, false⟩,
      ⟨some 'k', false, 0, false⟩, ⟨some 'k', false, 0, true⟩]
      ⟨1, ⟨1, 70⟩ :: ⟨0, 71⟩ :: List.replicate 8 ⟨0, 0⟩, ⟨2, [⟨0, 70, 0⟩], [1]⟩⟩ := by
    refine .cons ⟨rfl, ?_⟩ (.cons ⟨rfl, ?_⟩ (.cons ⟨rfl, ?_⟩ (.cons ⟨rfl, ?_⟩ (.nil _))))
    all_goals decide
  exact ⟨_, rfl, rfl, (threads_kept h).1⟩

end LinuxSummary.Pthread
