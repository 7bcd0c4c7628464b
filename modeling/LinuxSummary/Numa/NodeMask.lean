/-
  `numaset.c` and `numaget.c`: the block for the node mask, and what the kernel reads and writes.

  Of a mask of `maxnode` the kernel takes the bits `0 .. maxnode - 2`, in whole words of 64 bits
  (`wordsOf`). Both programs round `maxnode` itself up to a multiple of 8 and take this for a
  number of bytes (`maskBytes`). That is enough for the words from `maxnode = 1` on
  (`words_le_maskBytes`), but `numaset` stores only the first of them.
-/
import LinuxSummary.Library.Strtol

namespace LinuxSummary.Numa

open CInt Strtol

/-- `sizeof(unsigned long)` -/
def perlength : UInt64 := 8

/-- `((maxnode + perlength - 1) / perlength) * perlength` -/
def maskBytes (maxnode : UInt64) : UInt64 := (maxnode + perlength - 1) / perlength * perlength

/-- The words of a mask of `maxnode`. -/
def wordsOf (maxnode : UInt64) : Nat := (maxnode.toNat - 1 + 63) / 64

/-- The words of the memory from the start of a block on. -/
abbrev Mem := Nat → UInt64

/-- The bit of a node. -/
def nodeBit (mask : Mem) (node : Nat) : Bool := (mask (node / 64)).toNat.testBit (node % 64)

/-- What `%x` and `%d` print of an `unsigned long`. -/
def hexArg (n : UInt64) : Text := Printf.hex (u32 n.toNat)
def decArg (n : UInt64) : Text := Printf.dec (int32 n.toNat)

/-- How a program ends: by a store through a null pointer, or with a status. -/
inductive Ended
  | segv
  | exited (status : Nat)
deriving DecidableEq

/-! ## `numaset.c` -/

namespace Numaset

structure Args where
  mode : Int
  mask0 : UInt64
  maxnode : UInt64

/-- The arguments behind the name of the program. -/
def args (argv : List Text) : Args where
  mode := (argv[0]?).elim 2 atoi
  mask0 := (argv[1]?).elim 1 fun s => UInt64.ofInt (atoi s)
  maxnode := (argv[2]?).elim 1025 fun s => UInt64.ofInt (atoi s)

/-- What a run meets: whether `malloc` returns a block, what this memory held before, the value
    of `set_mempolicy`, and the process. -/
structure Env where
  malloc : UInt64 → Bool
  content : Mem
  ret : Int
  pid : Int

/-- The call of `set_mempolicy`, with the block that the mask is in. -/
structure Call where
  mode : Int
  mask : Mem
  maxnode : UInt64
  size : UInt64

structure Run where
  call : Option Call
  stdout : List Text
  perror : Option Text
  ended : Ended

/-- `"mode:%d mask:0x%x maxnode:%d\n"` -/
def banner (a : Args) : Text :=
  "mode:".toList ++ Printf.dec a.mode ++ " mask:0x".toList ++ hexArg a.mask0 ++
    " maxnode:".toList ++ decArg a.maxnode ++ "\n".toList

def run (env : Env) (a : Args) : Run :=
  let size := maskBytes a.maxnode
  if env.malloc size then
    let mask := Function.update env.content 0 a.mask0
    ⟨some ⟨a.mode, mask, a.maxnode, size⟩,
      [banner a, "pid:".toList ++ Printf.dec env.pid ++ "\n".toList],
      if env.ret = -1 then some "set_mempolicy\n".toList else none, .exited 0⟩
  else ⟨none, [banner a], none, .segv⟩

def main (env : Env) (argv : List Text) : Run := run env (args argv)

/-- The store and the words that are read lie in the block, and the nodes are those of `mask0`
    below the limit. -/
structure Call.Exact (c : Call) (mask0 : UInt64) : Prop where
  store : 8 ≤ c.size.toNat
  words : 8 * wordsOf c.maxnode ≤ c.size.toNat
  nodes : ∀ node < c.maxnode.toNat - 1, nodeBit c.mask node = mask0.toNat.testBit node

/-- The program dies, or passes the kernel the requested nodes. -/
def Run.Passes (r : Run) (mask0 : UInt64) : Prop :=
  r.ended = .segv ∨ ∃ c, r.call = some c ∧ c.Exact mask0

end Numaset

/-! ## The size -/

theorem toNat_maskBytes (maxnode : UInt64) :
    (maskBytes maxnode).toNat = (maxnode.toNat + 7) % 2 ^ 64 / 8 * 8 := by
  have hadd : maxnode + perlength - 1 = maxnode + 7 := by
    rw [UInt64.sub_eq_add_neg, UInt64.add_assoc]
    rfl
  have hlt := maxnode.toNat_lt
  have h8 : perlength.toNat = 8 := rfl
  have h7 : (7 : UInt64).toNat = 7 := rfl
  rw [maskBytes, hadd, UInt64.toNat_mul, UInt64.toNat_div, UInt64.toNat_add, h8, h7]
  omega

/-- No room for the first word. -/
theorem maskBytes_lt_iff (maxnode : UInt64) : (maskBytes maxnode).toNat < 8 ↔
    maxnode = 0 ∨ 2 ^ 64 - 7 ≤ maxnode.toNat := by
  have hlt := maxnode.toNat_lt
  rw [toNat_maskBytes, ← UInt64.toNat_inj, UInt64.toNat_zero]
  omega

/-- Where there is room for a word, there is room for all. -/
theorem words_le_maskBytes {maxnode : UInt64} (h : 8 ≤ (maskBytes maxnode).toNat) :
    8 * wordsOf maxnode ≤ (maskBytes maxnode).toNat := by
  have hlt := maxnode.toNat_lt
  rw [toNat_maskBytes] at *
  unfold wordsOf
  omega

/-! ## What `numaset` passes -/

namespace Numaset

theorem nodeBit_update (content : Mem) (mask0 : UInt64) (node : Nat) :
    nodeBit (Function.update content 0 mask0) node =
      if node < 64 then mask0.toNat.testBit node else nodeBit content node := by
  unfold nodeBit
  split
  · next h => rw [Nat.div_eq_of_lt h, Nat.mod_eq_of_lt h, Function.update_self]
  · next h => rw [Function.update_of_ne (by omega)]

/-- A word has no bit from 64 on. -/
theorem testBit_toNat (w : UInt64) {node : Nat} (h : 64 ≤ node) : w.toNat.testBit node = false :=
  Nat.testBit_lt_two_pow (w.toNat_lt.trans_le (Nat.pow_le_pow_right (by decide) h))

/-- Memory that has all bits set. -/
def ones : Mem := fun _ => UInt64.ofInt (-1)

theorem nodeBit_ones (node : Nat) : nodeBit ones node = true := by
  have h : (2 ^ 64 - 1).testBit (node % 64) = true := by
    rw [Nat.testBit_two_pow_sub_one, decide_eq_true_eq]
    exact Nat.mod_lt _ (by decide)
  exact h

theorem call_exact_iff (env : Env) (a : Args) :
    Call.Exact ⟨a.mode, Function.update env.content 0 a.mask0, a.maxnode, maskBytes a.maxnode⟩
        a.mask0 ↔
      8 ≤ (maskBytes a.maxnode).toNat ∧
        ∀ node < a.maxnode.toNat - 1, 64 ≤ node → nodeBit env.content node = false := by
  constructor
  · intro h
    refine ⟨h.store, fun node hnode hbig => ?_⟩
    have := h.nodes node hnode
    rwa [nodeBit_update, if_neg (by omega), testBit_toNat _ hbig] at this
  · intro h
    refine ⟨h.1, words_le_maskBytes h.1, fun node hnode => ?_⟩
    dsimp only
    rw [nodeBit_update]
    split
    · rfl
    · next hbig => rw [h.2 node hnode (by omega), testBit_toNat _ (by omega)]

theorem run_passes_iff (env : Env) (a : Args) : (run env a).Passes a.mask0 ↔
    env.malloc (maskBytes a.maxnode) = false ∨ 8 ≤ (maskBytes a.maxnode).toNat ∧
      ∀ node < a.maxnode.toNat - 1, 64 ≤ node → nodeBit env.content node = false := by
  rw [← call_exact_iff env a]
  unfold run Run.Passes
  dsimp only
  split
  · next hblock => simp [hblock]
  · next hblock => simp [hblock]

/-- `numaset` passes the requested nodes, whatever the block held before, exactly where it gets
    no block, or where one word is the whole mask. -/
theorem main_passes_iff (malloc : UInt64 → Bool) (ret pid : Int) (argv : List Text) :
    (∀ content, (main ⟨malloc, content, ret, pid⟩ argv).Passes (args argv).mask0) ↔
      malloc (maskBytes (args argv).maxnode) = false ∨
        1 ≤ (args argv).maxnode.toNat ∧ (args argv).maxnode.toNat ≤ 65 := by
  simp only [main, run_passes_iff]
  generalize (args argv).maxnode = maxnode
  have hlt := maxnode.toNat_lt
  have hsize := maskBytes_lt_iff maxnode
  rw [← UInt64.toNat_inj, UInt64.toNat_zero] at hsize
  constructor
  · intro h
    rcases h ones with hnull | ⟨hstore, hnodes⟩
    · exact .inl hnull
    · right
      by_contra hno
      -- the first node of the second word
      have := hnodes 64 (by omega) le_rfl
      rw [nodeBit_ones] at this
      exact absurd this (by decide)
  · intro h content
    rcases h with hnull | ⟨h1, h65⟩
    · exact .inl hnull
    · refine .inr ⟨by omega, fun node hnode hbig => ?_⟩
      omega

/-- `numaset` without arguments: 16 words are read, and one is stored. -/
theorem main_passes_default : ¬ ∀ (malloc : UInt64 → Bool) (content : Mem) (ret pid : Int)
    (argv : List Text), (main ⟨malloc, content, ret, pid⟩ argv).Passes (args argv).mask0 := by
  intro h
  have hpasses := h (fun _ => true) ones 0 1 []
  rw [main, run_passes_iff] at hpasses
  rcases hpasses with hnull | ⟨-, hnodes⟩
  · exact absurd hnull (by decide)
  · have := hnodes 64 (by decide) le_rfl
    rw [nodeBit_ones] at this
    exact absurd this (by decide)

end Numaset

/-! ## `numaget.c` -/

namespace Numaget

/-- What a run meets: the values and the modes of the two calls of `get_mempolicy`, the block,
    and the words that the second call has for the mask. -/
structure Env where
  ret1 : Int
  mode1 : Int
  malloc : UInt64 → Bool
  content : Mem
  ret2 : Int
  mode2 : Int
  nodes : Mem

structure Run where
  stdout : List Text
  perror : Option Text
  ended : Ended

/-- The block behind the second call. -/
def written (env : Env) (maxnode : UInt64) : Mem := fun i =>
  if i < wordsOf maxnode then env.nodes i else env.content i

def maxnodeLine (maxnode : UInt64) : Text :=
  "maxnode:".toList ++ decArg maxnode ++ "\n".toList

def modeLine (mode : Int) : Text := "mode:".toList ++ Printf.dec mode ++ "\n".toList

def maskLine (mode : Int) (word : UInt64) : Text :=
  "mode:".toList ++ Printf.dec mode ++ " mask:0x".toList ++ hexArg word ++ "\n".toList

def maxnodeOf (argv : List Text) : UInt64 :=
  (argv[0]?).elim 1025 fun s => UInt64.ofInt (atoi s)

def main (env : Env) (argv : List Text) : Run :=
  let maxnode := maxnodeOf argv
  let shown := if argv = [] then [] else [maxnodeLine maxnode]
  if env.ret1 = -1 then ⟨shown, some "get_mempolicy".toList, .exited 1⟩
  else
    let shown := shown ++ [modeLine env.mode1]
    if env.ret2 = -1 then ⟨shown, some "get_mempolicy".toList, .exited 1⟩
    else if env.malloc (maskBytes maxnode) then
      ⟨shown ++ [maskLine env.mode2 (written env maxnode 0)], none, .exited 0⟩
    else ⟨shown, none, .segv⟩

/-- The block holds the words that the kernel writes and the word that is printed, and this word
    is one of the kernel's. -/
structure Shows (maxnode : UInt64) : Prop where
  words : 8 * wordsOf maxnode ≤ (maskBytes maxnode).toNat
  read : 8 ≤ (maskBytes maxnode).toNat
  first : 0 < wordsOf maxnode

theorem shows_range_iff (maxnode : UInt64) :
    Shows maxnode ↔ 2 ≤ maxnode.toNat ∧ maxnode.toNat < 2 ^ 64 - 7 := by
  have hlt := maxnode.toNat_lt
  have hsize := maskBytes_lt_iff maxnode
  rw [← UInt64.toNat_inj, UInt64.toNat_zero] at hsize
  have hfirst : 0 < wordsOf maxnode ↔ 2 ≤ maxnode.toNat := by
    unfold wordsOf
    omega
  constructor
  · intro h
    have h1 := h.read
    have h2 := hfirst.mp h.first
    omega
  · intro h
    have hread : 8 ≤ (maskBytes maxnode).toNat := by omega
    exact ⟨words_le_maskBytes hread, hread, hfirst.mpr h.1⟩

/-- Where the block is right, the old content of it is not seen. -/
theorem main_content (env : Env) (content : Mem) {argv : List Text}
    (h : Shows (maxnodeOf argv)) : main { env with content } argv = main env argv := by
  have hword : written { env with content } (maxnodeOf argv) 0 =
      written env (maxnodeOf argv) 0 := by
    rw [written, written, if_pos h.first, if_pos h.first]
  simp only [main, hword]

end Numaget

end LinuxSummary.Numa
