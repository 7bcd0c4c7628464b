/-
  The write functions of `zproc.c` and `cpu_affinity.c`.

  Three copies of one function: the text goes into a buffer of 32 bytes that was zeroed, is
  handed to `kstrtol`, and the number goes into a static variable of the module. `beyond` is
  the stack memory behind the buffer, which `kstrtol` goes on to read where the buffer has no
  NUL.

  `proc_write_iff`: a write is honest (it succeeds exactly for a number, which is stored)
  exactly when the copy faults, or the text is a number of at most 31 characters.
-/
import LinuxSummary.Library.Strtol

namespace LinuxSummary.Zproc

open Strtol

/-- `MSG_LEN` of `zproc.c`, `MSGLEN` of `cpu_affinity.c`. -/
def MSG_LEN : Nat := 32

def EFAULT : Int := 14

/-- What a write returns and what the variable has behind it; and the buffer as it was handed
    to `kstrtol`, if it was. -/
structure Written where
  ret : Int
  stored : Int
  msg : Option Text

/-- `msg` behind the copy. -/
def msgOf (buf : Text) : Text :=
  let len := if MSG_LEN > buf.length then buf.length else MSG_LEN
  buf.take len ++ List.replicate (MSG_LEN - len) NUL

/-- The body of the three functions. `copied` says whether `copy_from_user` succeeds. -/
def procWrite (base : Nat) (old : Int) (beyond : Text) (copied : Bool) (buf : Text) : Written :=
  let msg := msgOf buf
  if copied then
    match kstrtol (cstring (msg ++ beyond)) base with
    | .ok n => ⟨buf.length, n, some msg⟩
    | .error _ => ⟨buf.length, old, some msg⟩
  else ⟨-EFAULT, old, none⟩

def mminfoWrite (pid : Int) : Text → Bool → Text → Written := procWrite 10 pid

def physValueWrite (phys : Int) : Text → Bool → Text → Written := procWrite 16 phys

/-- of `cpu_affinity.c` -/
def procGetWrite (pid : Int) : Text → Bool → Text → Written := procWrite 10 pid

/-- The files that can be written. -/
inductive ProcFile
  | mminfo
  | physvalue
  | cpuAffinityGet

def ProcFile.base : ProcFile → Nat
  | .mminfo => 10
  | .physvalue => 16
  | .cpuAffinityGet => 10

def ProcFile.write : ProcFile → Int → Text → Bool → Text → Written
  | .mminfo => mminfoWrite
  | .physvalue => physValueWrite
  | .cpuAffinityGet => procGetWrite

theorem ProcFile.write_eq (f : ProcFile) : f.write = procWrite f.base := by
  cases f <;> rfl

/-- The whole text is the number `n`. -/
def Numeric (base : Nat) (buf : Text) (n : Int) : Prop := NUL ∉ buf ∧ kstrtol buf base = .ok n

/-- A write that reports success has stored the number that was written; a text that is no
    number is an error and changes nothing; `kstrtol` finds the end of its string in the
    buffer. -/
def Honest (base : Nat) (old : Int) (buf : Text) (w : Written) : Prop :=
  (w.ret = buf.length → ∃ n, Numeric base buf n ∧ w.stored = n) ∧
    ((¬ ∃ n, Numeric base buf n) → w.ret < 0 ∧ w.stored = old) ∧
    ∀ msg, w.msg = some msg → msg.length = MSG_LEN ∧ NUL ∈ msg

/-- A text that leaves room for a NUL is handed on as it is. -/
theorem procWrite_short (base : Nat) (old : Int) (beyond : Text) {buf : Text}
    (hlen : buf.length < MSG_LEN) (hnul : NUL ∉ buf) :
    ∃ msg, msg.length = MSG_LEN ∧ NUL ∈ msg ∧ procWrite base old beyond true buf =
      match kstrtol buf base with
      | .ok n => ⟨buf.length, n, some msg⟩
      | .error _ => ⟨buf.length, old, some msg⟩ := by
  obtain ⟨k, hk⟩ : ∃ k, MSG_LEN - buf.length = k + 1 := ⟨MSG_LEN - buf.length - 1, by omega⟩
  have hmsg : buf.take buf.length ++ List.replicate (MSG_LEN - buf.length) NUL =
      buf ++ NUL :: List.replicate k NUL := by
    rw [List.take_length, hk, List.replicate_succ]
  have hstring : cstring (buf ++ NUL :: List.replicate k NUL ++ beyond) = buf := by
    rw [List.append_assoc, List.cons_append, cstring_of_not_mem hnul]
  refine ⟨buf ++ NUL :: List.replicate k NUL, ?_, by simp, ?_⟩
  · rw [List.length_append, List.length_cons, List.length_replicate]
    omega
  · unfold procWrite msgOf
    dsimp only
    rw [if_pos hlen, hmsg, hstring, if_pos rfl]

/-- A text that fills the buffer leaves no NUL in it that it does not have itself. -/
theorem procWrite_long (base : Nat) (old : Int) (beyond : Text) {buf : Text}
    (hlen : MSG_LEN ≤ buf.length) :
    (procWrite base old beyond true buf).msg = some (buf.take MSG_LEN) := by
  unfold procWrite msgOf
  dsimp only
  have hlt : ¬ MSG_LEN > buf.length := by omega
  rw [if_neg hlt, Nat.sub_self, List.replicate_zero, List.append_nil, if_pos rfl]
  split <;> rfl

/-- The number that is written, if `kstrtol` takes the text. -/
def written? (base : Nat) (beyond buf : Text) : Option Int :=
  (kstrtol (cstring (msgOf buf ++ beyond)) base).toOption

theorem procWrite_stored (base : Nat) (old : Int) (beyond buf : Text) :
    (procWrite base old beyond true buf).stored = (written? base beyond buf).getD old := by
  unfold procWrite written?
  dsimp only
  rw [if_pos rfl]
  cases kstrtol (cstring (msgOf buf ++ beyond)) base <;> rfl

theorem procWrite_ret (base : Nat) (old : Int) (beyond buf : Text) :
    (procWrite base old beyond true buf).ret = buf.length := by
  unfold procWrite
  dsimp only
  rw [if_pos rfl]
  split <;> rfl

/-- **A write is honest exactly for a fault and for a number that fits with its NUL.** -/
theorem proc_write_iff (f : ProcFile) (old : Int) (beyond : Text) (copied : Bool) (buf : Text) :
    Honest f.base old buf (f.write old beyond copied buf) ↔
      copied = false ∨ (buf.length < MSG_LEN ∧ ∃ n, Numeric f.base buf n) := by
  rw [f.write_eq]
  cases copied with
  | false =>
    have hw : procWrite f.base old beyond false buf = ⟨-EFAULT, old, none⟩ := rfl
    rw [hw]
    refine iff_of_true ⟨fun h => ?_, fun _ => ⟨?_, rfl⟩, fun msg h => ?_⟩ (.inl rfl)
    · have hret : -EFAULT = (buf.length : Int) := h
      unfold EFAULT at hret
      omega
    · show -EFAULT < 0
      decide
    · exact absurd h (by simp)
  | true =>
    constructor
    · intro h
      obtain ⟨hok, -, hnul⟩ := h
      obtain ⟨n, hn, -⟩ := hok (procWrite_ret _ _ _ _)
      refine .inr ⟨?_, n, hn⟩
      by_contra hlen
      have hmsg := (hnul _ (procWrite_long f.base old beyond (by omega))).2
      exact hn.1 (List.mem_of_mem_take hmsg)
    · intro h
      rcases h with hc | ⟨hlen, n, hn⟩
      · exact absurd hc (by simp)
      · obtain ⟨msg, hmlen, hmnul, hw⟩ := procWrite_short f.base old beyond hlen hn.1
        rw [hw, hn.2]
        refine ⟨fun _ => ⟨n, hn, rfl⟩, fun hno => absurd ⟨n, hn⟩ hno, fun m hm => ?_⟩
        obtain rfl := Option.some.inj hm
        exact ⟨hmlen, hmnul⟩

/-- Garbage is written to `mminfo`: the write succeeds, though nothing is stored. -/
theorem not_honest_garbage :
    ¬ Honest 10 7 ['a', 'b', 'c'] (mminfoWrite 7 [] true ['a', 'b', 'c']) := by
  intro h
  obtain ⟨n, hn, -⟩ := h.1 (procWrite_ret 10 7 [] _)
  have hgarbage : kstrtol ['a', 'b', 'c'] 10 = .error .EINVAL := rfl
  exact absurd (hgarbage.symm.trans hn.2) (by simp)

end LinuxSummary.Zproc
