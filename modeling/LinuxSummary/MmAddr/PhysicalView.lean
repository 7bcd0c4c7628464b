/-
  `fileview.c` on the device of `dram.c`: the viewer shows the physical memory.

  The memory ends with a page, so the last page of the viewer ends with the memory. `dram_shown`:
  whatever keys are pressed, each line on the screen is sixteen bytes of the memory under their own
  address, and has room in the buffer that it is printed to.
-/
import LinuxSummary.MmAddr.Dram
import LinuxSummary.MmAddr.FileView

namespace LinuxSummary.MmAddr

open CInt ByteSource

/-- The device as the viewer uses it. -/
def dram (m : Memory) : Device Int where
  lseek := myLlseek m
  read := readPiece m

theorem dram_lseek (m : Memory) : (dram m).lseek = myLlseek m := rfl

theorem inside_zero (m : Memory) : m.Inside 0 := by
  refine ⟨le_rfl, ?_⟩
  rw [dramSize_eq]
  exact Int.natCast_nonneg _

theorem inside_end (m : Memory) : m.Inside m.dramSize :=
  ⟨(inside_zero m).2, le_refl m.dramSize⟩

theorem dram_isFile {m : Memory} (hpages : m.pages ≤ 2 ^ 31) (hhole : m.NoHole) :
    IsFile (dram m) Int.toNat m.byte m.size m.Inside where
  size_lt := by
    unfold Memory.size PAGE_SIZE
    omega
  serves := serves hpages hhole
  seek_set fd p _ hp := by
    have hle : (p : Int) ≤ m.dramSize := by
      rw [dramSize_eq]
      exact Int.ofNat_le.mpr hp
    rw [dram_lseek, llseek_set m fd (Int.natCast_nonneg p) hle]
    exact ⟨rfl, Int.toNat_natCast p, Int.natCast_nonneg p, hle⟩
  seek_end fd _ := by
    rw [dram_lseek, llseek_end]
    dsimp only
    rw [← dramSize_eq]
    exact ⟨rfl, inside_end m⟩

/-- The last page of the viewer ends with the memory. -/
theorem posmaxOf_dram (m : Memory) :
    posmaxOf m.size = m.size - 256 := by
  have hpos := m.pages_pos
  unfold posmaxOf posmin align Memory.size PAGE_SIZE
  dsimp only
  split <;> omega

theorem start_dram (m : Memory) (input : List Nat) : start (dram m) 0 input =
    some ((m.size : Int), ⟨⟨0, incmin, .byte⟩, m.dramSize, input⟩) := by
  unfold start
  rw [dram_lseek, llseek_end]
  dsimp only
  rw [dramSize_eq, if_neg (not_lt.mpr (Int.natCast_nonneg _))]

/-- **The viewer shows the memory, under its addresses, whatever keys are pressed.** -/
theorem dram_shown {m : Memory} (hpages : m.pages ≤ 2 ^ 31) (hhole : m.NoHole)
    (input : List Nat) :
    ∃ main, start (dram m) 0 input = some ((m.size : Int), main) ∧
      ∀ n main', reached (dram m) m.size main n = some main' →
        ∃ p : Nat, main'.view.position = p ∧ p + BUFSIZE ≤ m.size ∧
          screen (dram m) main' = (List.range BUFHIGH).map (fun i =>
            outline main'.view.format (p + i * BUFWIDE : Nat)
              (window m.byte (p + i * BUFWIDE) BUFWIDE)) ∧
          ∀ line ∈ screen (dram m) main', line.length + 1 ≤ OUTLINE := by
  have hstart := start_dram m input
  have hfile := dram_isFile hpages hhole
  refine ⟨_, hstart, fun n main' hn => ?_⟩
  obtain ⟨hin, hopen⟩ := file_of_run hfile (inside_zero m) hstart hn
  obtain ⟨p, hp⟩ := Int.eq_ofNat_of_zero_le hin.nonneg
  have hle := hin.le
  rw [posmaxOf_dram, hp] at hle
  have hlast : p + BUFSIZE ≤ m.size := by
    unfold BUFSIZE
    omega
  have hdraw : screen (dram m) main' = (List.range BUFHIGH).map (fun i =>
      outline main'.view.format (p + i * BUFWIDE : Nat)
        (window m.byte (p + i * BUFWIDE) BUFWIDE)) := by
    unfold screen
    rw [(draw_eq hfile hopen hp (by omega)).1]
    refine List.map_congr_left fun i hi => ?_
    have hrow : window (padded m.byte m.size) (p + i * BUFWIDE) BUFWIDE =
        window m.byte (p + i * BUFWIDE) BUFWIDE := by
      apply window_congr
      intro a _ ha
      have := List.mem_range.mp hi
      unfold padded
      unfold BUFHIGH BUFWIDE BUFSIZE at *
      rw [if_pos (by omega)]
    rw [hrow]
  refine ⟨p, hp, hlast, hdraw, fun line hline => ?_⟩
  rw [hdraw] at hline
  obtain ⟨i, hi, rfl⟩ := List.mem_map.mp hline
  rw [outline_fits_iff _ _ (length_window _ _ _), u64_of_nat] <;>
  · have := List.mem_range.mp hi
    have := hfile.size_lt
    unfold Memory.size PAGE_SIZE at hlast
    unfold BUFHIGH BUFWIDE BUFSIZE at *
    omega

/-- A machine with one page, in which each byte is the low byte of its address. -/
def onePage : Memory := ⟨1, fun page => page == 0, fun a => UInt8.ofNat a, by decide, by decide⟩

/-- One page of memory, and the keys for the end and for the format in words. -/
theorem dram_shown_onePage :
    ∃ main, start (dram onePage) 0 [0x65, 0x77] = some ((onePage.size : Int), main) ∧
      ∀ n main', reached (dram onePage) onePage.size main n = some main' →
        ∃ p : Nat, main'.view.position = p ∧ p + BUFSIZE ≤ onePage.size ∧
          screen (dram onePage) main' = (List.range BUFHIGH).map (fun i =>
            outline main'.view.format (p + i * BUFWIDE : Nat)
              (window onePage.byte (p + i * BUFWIDE) BUFWIDE)) ∧
          ∀ line ∈ screen (dram onePage) main', line.length + 1 ≤ OUTLINE :=
  dram_shown (by decide) (by unfold Memory.NoHole; decide) _

end LinuxSummary.MmAddr
