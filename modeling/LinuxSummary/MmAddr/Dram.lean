/-
  `dram.c`: a character device that hands out the physical memory.

  The machine is its number of pages, which page numbers have one to them, and what stands there.
  A read ends at the latest with the page it begins in, so that a program has to ask again and
  again; `my_llseek` keeps the position below the number of bytes. The page number is an `int`,
  and the device takes the pages to be numbered from 0 on without a hole: `exact_iff` says that it
  hands out the memory at its position in every run exactly where they are, and at most `2 ^ 31`.
  `serves` is the device as a source of bytes for the programs that read it.
-/
import LinuxSummary.Library.ByteSource
import LinuxSummary.Library.CInt
import LinuxSummary.Library.Machine

namespace LinuxSummary.MmAddr

open CInt ByteSource Machine

def PAGE_SHIFT : Nat := 12
def PAGE_SIZE : Nat := 4096
def EFAULT : Int := 14
def EINVAL : Int := 22

/-! ## The machine and the device -/

/-- The physical memory. The number of pages leaves an address of a byte 52 bits. -/
structure Memory where
  /-- `get_num_physpages()` -/
  pages : Nat
  /-- the page numbers that have a page to them -/
  there : Nat → Bool
  byte : Nat → UInt8
  pages_pos : 0 < pages
  pages_lt : pages < 2 ^ 40

def Memory.dramSize (m : Memory) : Int := int64 (m.pages <<< PAGE_SHIFT : Nat)

/-- The number of bytes. -/
def Memory.size (m : Memory) : Nat := m.pages * PAGE_SIZE

/-- The pages are numbered one after the other. -/
def Memory.NoHole (m : Memory) : Prop := ∀ page < m.pages, m.there page = true

/-- `kmap(pfn_to_page(page_number))`: the bytes from there on, where there is such a page. -/
def Memory.kmap (m : Memory) (pageNumber : Int) : Option (Nat → UInt8) :=
  if 0 ≤ pageNumber ∧ m.there pageNumber.toNat = true then
    some fun i => m.byte (pageNumber.toNat * PAGE_SIZE + i)
  else none

/-- How `copy_to_user` ends: how many of the bytes it was to copy are left over. -/
structure Copy where
  more : Nat → Nat
  le : ∀ n, more n ≤ n

def Copy.whole : Copy := ⟨fun _ => 0, fun n => Nat.zero_le n⟩

/-- What a read comes to: the value returned, what was copied, and `*pos`. -/
inductive Read
  | oops
  | done (ret : Int) (bytes : List UInt8) (pos : Int)

def myRead (m : Memory) (c : Copy) (count : Nat) (pos : Int) : Read :=
  if m.dramSize ≤ pos then .done 0 [] pos
  else
    let pageNumber := int32 (u64 pos / PAGE_SIZE : Nat)
    let pageIndent := int32 (u64 pos % PAGE_SIZE : Nat)
    match m.kmap pageNumber with
    | none => .oops
    | some page =>
      let count := if PAGE_SIZE < u64 (pageIndent + count) then PAGE_SIZE - u64 pageIndent
        else count
      let more := c.more count
      let copied := window page (u64 pageIndent) (count - more)
      if more ≠ 0 then .done (-EFAULT) copied pos
      else .done (int64 count) copied (int64 (pos + count))

/-- The value returned, and `file->f_pos`. -/
def myLlseek (m : Memory) (f_pos offset whence : Int) : Int × Int :=
  let newpos :=
    if whence = 0 then offset
    else if whence = 1 then int64 (f_pos + offset)
    else if whence = 2 then int64 (m.dramSize + offset)
    else -1
  if newpos < 0 ∨ m.dramSize < newpos then (-EINVAL, f_pos) else (newpos, newpos)

/-! ## Runs -/

/-- The most that the kernel asks of a driver in one read. -/
def MAX_RW_COUNT : Nat := 2 ^ 31 - PAGE_SIZE

inductive Call
  | read (count : Nat) (c : Copy)
  | llseek (offset whence : Int)

/-- A system call on the open device; a read that goes wrong takes the kernel with it. -/
inductive Step (m : Memory) : Int → Call → Int → Prop
  | read {f_pos pos ret : Int} {bytes : List UInt8} {count : Nat} {c : Copy}
      (h : myRead m c (min count MAX_RW_COUNT) f_pos = .done ret bytes pos) :
      Step m f_pos (.read count c) pos
  | llseek {f_pos : Int} (offset whence : Int) :
      Step m f_pos (.llseek offset whence) (myLlseek m f_pos offset whence).2

/-- How many bytes a read gets: no more than asked for, to the end of the page at most, and none
    behind the end of the memory. -/
def Memory.share (m : Memory) (count : Nat) (pos : Nat) : Nat :=
  min count (min (PAGE_SIZE - pos % PAGE_SIZE) (m.size - pos))

/-- The read copies the memory at the position and moves on by what it copied; where the copy
    fails the position stays. -/
def ReadsMemory (m : Memory) (pos : Nat) : Prop :=
  ∀ (count : Nat) (c : Copy), myRead m c (min count MAX_RW_COUNT) pos =
    let n := m.share (min count MAX_RW_COUNT) pos
    if c.more n = 0 then .done n (window m.byte pos n) (pos + n : Nat)
    else .done (-EFAULT) (window m.byte pos (n - c.more n)) pos

/-- In every run from the beginning of the file the position is inside the memory, and the next
    read gets what stands there. -/
def Exact (m : Memory) : Prop :=
  ∀ calls f_pos, Run (Step m) 0 calls f_pos →
    ∃ pos : Nat, f_pos = pos ∧ pos ≤ m.size ∧ ReadsMemory m pos

/-! ## One call -/

theorem dramSize_eq (m : Memory) : m.dramSize = m.size := by
  have hlt := m.pages_lt
  have hshift : m.pages <<< PAGE_SHIFT = m.size := Nat.shiftLeft_eq _ _
  unfold Memory.dramSize
  rw [hshift]
  unfold Memory.size PAGE_SIZE
  apply int64_of_range <;> omega

theorem llseek_inside (m : Memory) {f_pos : Int} (offset whence : Int)
    (h : 0 ≤ f_pos ∧ f_pos ≤ m.dramSize) :
    0 ≤ (myLlseek m f_pos offset whence).2 ∧
      (myLlseek m f_pos offset whence).2 ≤ m.dramSize := by
  unfold myLlseek
  extract_lets newpos
  split
  · exact h
  · next hin => exact ⟨by omega, by omega⟩

theorem llseek_set (m : Memory) (f_pos : Int) {offset : Int} (h0 : 0 ≤ offset)
    (h1 : offset ≤ m.dramSize) : myLlseek m f_pos offset 0 = (offset, offset) := by
  unfold myLlseek
  rw [if_pos rfl, if_neg (by omega)]

theorem llseek_end (m : Memory) (f_pos : Int) :
    myLlseek m f_pos 0 2 = (m.dramSize, m.dramSize) := by
  have hsize := dramSize_eq m
  have hlt := m.pages_lt
  have hround : int64 (m.dramSize + 0) = m.dramSize := by
    rw [Int.add_zero, hsize]
    unfold Memory.size PAGE_SIZE
    apply int64_of_range <;> omega
  have hcur : ¬ (2 : Int) = 1 := by decide
  unfold myLlseek
  rw [if_neg (two_ne_zero (α := Int)), if_neg hcur, if_pos rfl, hround, if_neg (by omega)]

theorem share_le_count (m : Memory) (count pos : Nat) : m.share count pos ≤ count :=
  min_le_left _ _

theorem share_end (m : Memory) (count : Nat) : m.share count m.size = 0 := by
  unfold Memory.share
  rw [Nat.sub_self, Nat.min_zero, Nat.min_zero]

theorem share_le (m : Memory) (count : Nat) {pos : Nat} (h : pos ≤ m.size) :
    pos + m.share count pos ≤ m.size := by
  have hle : m.share count pos ≤ m.size - pos :=
    (min_le_right _ _).trans (min_le_right _ _)
  omega

theorem int64_small {n : Nat} (h : n ≤ MAX_RW_COUNT) : int64 n = n := by
  unfold MAX_RW_COUNT PAGE_SIZE at h
  apply int64_of_range <;> omega

/-- The position does not overflow. -/
theorem int64_advance {m : Memory} {pos n : Nat} (h : pos ≤ m.size)
    (hn : n ≤ MAX_RW_COUNT) : int64 ((pos : Int) + n) = (pos + n : Nat) := by
  have hlt := m.pages_lt
  unfold MAX_RW_COUNT PAGE_SIZE at hn
  unfold Memory.size PAGE_SIZE at h
  rw [Nat.cast_add]
  apply int64_of_range <;> omega

theorem page_lt {m : Memory} {pos : Nat} (h : pos < m.size) : pos / PAGE_SIZE < m.pages :=
  Nat.div_lt_of_lt_mul (by rwa [Nat.mul_comm])

theorem kmap_page {m : Memory} {page : Nat} (h : m.there page = true) :
    m.kmap page = some fun i => m.byte (page * PAGE_SIZE + i) := by
  unfold Memory.kmap
  rw [Int.toNat_natCast, if_pos ⟨Int.natCast_nonneg _, h⟩]

theorem window_page (m : Memory) (pos n : Nat) :
    window (fun i => m.byte (pos / PAGE_SIZE * PAGE_SIZE + i)) (pos % PAGE_SIZE) n =
      window m.byte pos n := by
  unfold window
  apply List.map_congr_left
  intro i _
  have hplace : pos / PAGE_SIZE * PAGE_SIZE + (pos % PAGE_SIZE + i) = pos + i := by
    rw [← Nat.add_assoc, Nat.div_add_mod']
  exact congrArg m.byte hplace

/-- The memory ends with a page: a read is cut off there or not at all. -/
theorem share_inside (m : Memory) (count : Nat) {pos : Nat} (h : pos < m.size) :
    m.share count pos =
      if PAGE_SIZE < pos % PAGE_SIZE + count then PAGE_SIZE - pos % PAGE_SIZE else count := by
  unfold Memory.share
  unfold Memory.size PAGE_SIZE at *
  split <;> omega

theorem mod_page_lt (pos : Nat) : pos % PAGE_SIZE < 2 ^ 12 := Nat.mod_lt _ (by decide)

theorem u64_inside {m : Memory} {pos : Nat} (h : pos < m.size) :
    u64 (pos : Int) = pos := by
  have hlt := m.pages_lt
  unfold Memory.size PAGE_SIZE at h
  exact u64_of_nat (by omega)

theorem u64_asked (pos : Nat) {count : Nat} (h : count ≤ MAX_RW_COUNT) :
    u64 ((pos % PAGE_SIZE : Nat) + (count : Int)) = pos % PAGE_SIZE + count := by
  have hmod := mod_page_lt pos
  unfold MAX_RW_COUNT PAGE_SIZE at h
  rw [← Nat.cast_add]
  exact u64_of_nat (by omega)

/-- A read inside the memory, where the page number fits into an `int` and has a page to it. -/
theorem myRead_inside (m : Memory) {pos : Nat} (h : pos / PAGE_SIZE < 2 ^ 31)
    (hthere : m.there (pos / PAGE_SIZE) = true) (hin : pos < m.size) (c : Copy) {count : Nat}
    (hcount : count ≤ MAX_RW_COUNT) :
    myRead m c count pos =
      let n := m.share count pos
      if c.more n = 0 then .done n (window m.byte pos n) (pos + n : Nat)
      else .done (-EFAULT) (window m.byte pos (n - c.more n)) pos := by
  have hmod := mod_page_lt pos
  have hnot : ¬ m.dramSize ≤ pos := by
    rw [dramSize_eq, not_le]
    exact Int.ofNat_lt.mpr hin
  have hnumber : int32 (pos / PAGE_SIZE : Nat) = (pos / PAGE_SIZE : Nat) := int32_of_nat h
  have hindent : int32 (pos % PAGE_SIZE : Nat) = (pos % PAGE_SIZE : Nat) :=
    int32_of_nat (hmod.trans (by decide))
  have huindent : u64 (pos % PAGE_SIZE : Nat) = pos % PAGE_SIZE :=
    u64_of_nat (hmod.trans (by decide))
  have hle := (share_le_count m count pos).trans hcount
  unfold myRead
  rw [if_neg hnot, u64_inside hin, hnumber, hindent]
  dsimp only
  rw [kmap_page hthere, u64_asked pos hcount, huindent]
  dsimp only
  rw [← share_inside m count hin, window_page]
  by_cases hzero : c.more (m.share count pos) = 0
  · rw [if_pos hzero, if_neg (not_not.mpr hzero), int64_small hle, int64_advance hin.le hle, hzero,
      Nat.sub_zero]
  · rw [if_neg hzero, if_pos hzero]

/-- At the end of the memory there is nothing more. -/
theorem myRead_end (m : Memory) (c : Copy) (count : Nat) :
    myRead m c count m.size = .done 0 [] m.size := by
  unfold myRead
  rw [if_pos (le_of_eq (dramSize_eq m))]

/-- With no more than `2 ^ 31` pages and no hole every read inside the memory gets what stands
    there. -/
theorem readsMemory {m : Memory} (hpages : m.pages ≤ 2 ^ 31) (hhole : m.NoHole) {pos : Nat}
    (h : pos ≤ m.size) : ReadsMemory m pos := by
  intro count c
  rcases Nat.lt_or_eq_of_le h with hin | rfl
  · have hpage := page_lt hin
    exact myRead_inside m (by omega) (hhole _ hpage) hin c (min_le_right _ _)
  · have hzero : c.more 0 = 0 := Nat.le_zero.mp (c.le 0)
    rw [myRead_end, share_end]
    dsimp only
    rw [if_pos hzero, window_zero, Nat.add_zero, Nat.cast_zero]

/-! ## The whole run -/

theorem step_inside {m : Memory} (hpages : m.pages ≤ 2 ^ 31) (hhole : m.NoHole)
    {f_pos f_pos' : Int} {call : Call} (hin : 0 ≤ f_pos ∧ f_pos ≤ m.dramSize)
    (h : Step m f_pos call f_pos') : 0 ≤ f_pos' ∧ f_pos' ≤ m.dramSize := by
  cases h with
  | llseek offset whence => exact llseek_inside m offset whence hin
  | read h =>
    obtain ⟨pos, rfl⟩ := Int.eq_ofNat_of_zero_le hin.1
    rw [dramSize_eq] at hin ⊢
    have hle : pos ≤ m.size := Int.ofNat_le.mp hin.2
    rw [readsMemory hpages hhole hle] at h
    dsimp only at h
    split at h
    · obtain ⟨-, -, rfl⟩ := Read.done.inj h
      exact ⟨Int.natCast_nonneg _, Int.ofNat_le.mpr (share_le m _ hle)⟩
    · obtain ⟨-, -, rfl⟩ := Read.done.inj h
      exact hin

theorem exact_of_pages {m : Memory} (hpages : m.pages ≤ 2 ^ 31) (hhole : m.NoHole) :
    Exact m := by
  intro calls f_pos hrun
  have hstart : 0 ≤ (0 : Int) ∧ (0 : Int) ≤ m.dramSize := by
    rw [dramSize_eq]
    exact ⟨le_rfl, Int.natCast_nonneg _⟩
  have hin := hrun.invariant (I := fun p => 0 ≤ p ∧ p ≤ m.dramSize)
    (fun _ _ _ hs hstep => step_inside hpages hhole hs hstep) hstart
  obtain ⟨pos, rfl⟩ := Int.eq_ofNat_of_zero_le hin.1
  have hle : pos ≤ m.size := Int.ofNat_le.mp (dramSize_eq m ▸ hin.2)
  exact ⟨pos, rfl, hle, readsMemory hpages hhole hle⟩

/-- Where the page number comes to no page, a read takes the kernel with it. -/
theorem myRead_oops {m : Memory} {pos : Nat} (hin : pos < m.size)
    (hnone : m.kmap (int32 (pos / PAGE_SIZE : Nat)) = none) (c : Copy) (count : Nat) :
    myRead m c count pos = .oops := by
  have hlt : ¬ m.dramSize ≤ pos := by
    rw [dramSize_eq, not_le]
    exact Int.ofNat_lt.mpr hin
  simp only [myRead, if_neg hlt, u64_inside hin, hnone]

theorem not_readsMemory {m : Memory} {pos : Nat} (hin : pos < m.size)
    (hnone : m.kmap (int32 (pos / PAGE_SIZE : Nat)) = none) : ¬ ReadsMemory m pos := by
  intro hreads
  have hdone := hreads 1 .whole
  rw [myRead_oops hin hnone] at hdone
  dsimp only at hdone
  split at hdone
  · exact absurd hdone (by simp)
  · exact absurd hdone (by simp)

/-- Every place can be sought. -/
theorem readsMemory_of_exact {m : Memory} (h : Exact m) {pos : Nat} (hpos : pos ≤ m.size) :
    ReadsMemory m pos := by
  have hle : (pos : Int) ≤ m.dramSize := by
    rw [dramSize_eq]
    exact Int.ofNat_le.mpr hpos
  have hseek : Step m 0 (.llseek pos 0) pos := by
    have hstep : Step m 0 (.llseek pos 0) (myLlseek m 0 pos 0).2 := .llseek _ 0
    rwa [llseek_set m 0 (Int.natCast_nonneg _) hle] at hstep
  obtain ⟨pos', heq, -, hreads⟩ := h _ _ (.cons hseek (.nil _))
  obtain rfl : pos = pos' := Int.ofNat_inj.mp heq
  exact hreads

theorem kmap_of_exact {m : Memory} (h : Exact m) {page : Nat} (hpage : page < m.pages) :
    m.kmap (int32 page) ≠ none := by
  intro hnone
  have hin : page * PAGE_SIZE < m.size := by
    unfold Memory.size
    exact Nat.mul_lt_mul_of_pos_right hpage (by decide)
  refine not_readsMemory hin ?_ (readsMemory_of_exact h hin.le)
  rw [Nat.mul_div_cancel page (by decide)]
  exact hnone

/-- **The device hands out the memory exactly where the page numbers fit into an `int`** and have
    no hole. -/
theorem exact_iff (m : Memory) : Exact m ↔ m.pages ≤ 2 ^ 31 ∧ m.NoHole := by
  refine ⟨fun hexact => ?_, fun h => exact_of_pages h.1 h.2⟩
  have hpages : m.pages ≤ 2 ^ 31 := by
    by_contra hmany
    -- the first page whose number is taken for a negative one
    have hnone := kmap_of_exact hexact (Nat.lt_of_not_le hmany)
    refine hnone ?_
    have hnumber : int32 (2 ^ 31 : Nat) = -2 ^ 31 := by decide
    unfold Memory.kmap
    rw [hnumber, if_neg (by omega)]
  refine ⟨hpages, fun page hpage => ?_⟩
  by_contra hgone
  refine kmap_of_exact hexact hpage ?_
  unfold Memory.kmap
  rw [int32_of_nat (by omega), Int.toNat_natCast, if_neg fun h => hgone h.2]

/-! ## The device as a source of bytes -/

/-- What a program gets from `read`; an empty piece stands for 0 and for an error. -/
def readPiece (m : Memory) (f_pos : Int) (n : Nat) : List UInt8 × Int :=
  match myRead m .whole (min n MAX_RW_COUNT) f_pos with
  | .oops => ([], f_pos)
  | .done ret bytes pos => (if ret ≤ 0 then [] else bytes, pos)

def Memory.Inside (m : Memory) (f_pos : Int) : Prop := 0 ≤ f_pos ∧ f_pos ≤ m.dramSize

theorem Memory.Inside.nat {m : Memory} {f_pos : Int} (h : m.Inside f_pos) :
    f_pos = f_pos.toNat ∧ f_pos.toNat ≤ m.size := by
  have hnat := (Int.toNat_of_nonneg h.1).symm
  have hle := h.2
  rw [hnat, dramSize_eq] at hle
  exact ⟨hnat, Int.ofNat_le.mp hle⟩

theorem readPiece_eq {m : Memory} (hpages : m.pages ≤ 2 ^ 31) (hhole : m.NoHole) {pos : Nat}
    (h : pos ≤ m.size) (n : Nat) :
    readPiece m pos n = (window m.byte pos (m.share (min n MAX_RW_COUNT) pos),
      ((pos + m.share (min n MAX_RW_COUNT) pos : Nat) : Int)) := by
  have hread := readsMemory hpages hhole h n .whole
  have hwhole : ∀ k, Copy.whole.more k = 0 := fun _ => rfl
  rw [readPiece, hread]
  generalize m.share (min n MAX_RW_COUNT) pos = k
  dsimp only
  rw [if_pos (hwhole k)]
  dsimp only
  by_cases hk : k = 0
  · rw [if_pos (by omega), hk, window_zero]
  · rw [if_neg (by omega)]

theorem serves {m : Memory} (hpages : m.pages ≤ 2 ^ 31) (hhole : m.NoHole) :
    Serves (readPiece m) Int.toNat m.byte m.size m.Inside := by
  have hread : ∀ s n, m.Inside s → readPiece m s n =
      (window m.byte s.toNat (m.share (min n MAX_RW_COUNT) s.toNat),
        ((s.toNat + m.share (min n MAX_RW_COUNT) s.toNat : Nat) : Int)) := by
    intro s n hs
    rw [← readPiece_eq hpages hhole hs.nat.2, ← hs.nat.1]
  refine ⟨fun s hs => hs.nat.2, fun s n hs => ?_, fun s n hs => ?_, fun s n hs => ?_,
    fun s n hs => ?_, fun s n hs hn hpos => ?_⟩
  · rw [hread s n hs]
    refine ⟨Int.natCast_nonneg _, ?_⟩
    rw [dramSize_eq]
    exact Int.ofNat_le.mpr (share_le m _ hs.nat.2)
  · rw [hread s n hs, length_window]
  · rw [hread s n hs, length_window, Int.toNat_natCast]
  · rw [hread s n hs, length_window]
    exact (share_le_count m _ _).trans (min_le_left _ _)
  · have hmod := mod_page_lt s.toNat
    have hmost : 0 < min n MAX_RW_COUNT := lt_min hn (by decide)
    rw [hread s n hs, length_window]
    refine lt_min hmost (lt_min ?_ (by omega))
    exact Nat.sub_pos_of_lt hmod

end LinuxSummary.MmAddr
