/-
  `zudp.c`: the sockets of the UDP hash table.

  `zudp_init` goes through the slots and, in each that counts a socket, through its chain. The
  table has `mask + 1` slots; the loop stops before `mask`. Its counter is an `int`, compared as
  an `unsigned int`.

  `UdpTable` is a table with its chains and counts in order. `lists_all_iff`: every socket is
  printed once exactly when the last slot is empty.
-/
import LinuxSummary.Library.Walk

namespace LinuxSummary.Udp

open Walk CInt
open ForLoop (Loop)

abbrev Ptr := Nat

/-- The fields of `struct sock` that are printed. -/
structure Sock where
  skDport : Nat
  skNum : Nat
  skDaddr : Nat
  skRcvSaddr : Nat

/-- `struct udp_hslot`; a null head is the mark that ends a chain. -/
structure Hslot where
  head : Option Ptr
  count : Int

/-- `udp_table`, and the sockets in memory. `chains` are the sockets of each slot. -/
structure UdpTable where
  hash : Nat → Hslot
  mask : Nat
  log : Nat
  sock : Ptr → Sock
  next : Ptr → Option Ptr
  chains : Nat → List Ptr
  log_le : log ≤ 32
  mask_eq : mask = 2 ^ log - 1
  chain : ∀ i ≤ mask, Chain (fun node => node.bind next) (hash i).head ((chains i).map some) none
  count : ∀ i ≤ mask, (hash i).count = (chains i).length
  nodup : ((List.range (mask + 1)).flatMap chains).Nodup

/-- What `pr_info` prints. -/
inductive Line
  | table (mask log : Nat)
  | hslot (i count : Int)
  | sock (p : Ptr) (sk : Sock)

section
variable (t : UdpTable) (fuel : Nat)

/-- `&udp_table.hash[i]` -/
def UdpTable.slot? (i : Int) : Option Hslot :=
  if 0 ≤ i ∧ i ≤ t.mask then some (t.hash i.toNat) else none

/-- The body of `sk_nulls_for_each_rcu`. -/
def printSock : Option Ptr → List Line → Loop (List Line)
  | some p, out => .ended (out ++ [.sock p (t.sock p)])
  | none, out => .fault out

/-- The body of the loop over the slots. -/
def printSlot (i : Int) (out : List Line) : Loop (List Line) :=
  match t.slot? i with
  | none => .fault out
  | some hslot =>
    if hslot.count > 0 then
      walk (fun node => node.isNone) (fun node => node.bind t.next) (printSock t) fuel hslot.head
        (out ++ [.hslot i hslot.count])
    else .ended out

/-- `i < udp_table.mask` does not hold: the `int` is compared as an `unsigned int`. -/
def UdpTable.atEnd (i : Int) : Bool := !decide (u32 i < t.mask)

/-- What is printed; the function returns 0. -/
def zudpInit : Loop (List Line) :=
  walk t.atEnd (fun i => int32 (i + 1)) (printSlot t fuel) fuel 0
    [.table t.mask t.log]

end

/-! ## What is listed -/

/-- The sockets that were printed. -/
def listed (out : List Line) : List Ptr :=
  out.filterMap fun line => match line with
    | .sock p _ => some p
    | _ => none

/-- The sockets of the slots before `n`. -/
def UdpTable.below (t : UdpTable) (n : Nat) : List Ptr := (List.range n).flatMap t.chains

/-- The listing ends, with every socket of the table in it once. -/
def ListsAll (t : UdpTable) : Prop :=
  ∃ fuel out, zudpInit t fuel = .ended out ∧ (listed out).Nodup ∧
    ∀ p, p ∈ listed out ↔ p ∈ t.below (t.mask + 1)

/-! ## One slot -/

/-- The lines of slot `i`. -/
def UdpTable.slotLines (t : UdpTable) (i : Nat) : List Line :=
  if t.chains i = [] then [] else
    .hslot i (t.hash i).count :: (t.chains i).map fun p => .sock p (t.sock p)

section
variable {t : UdpTable}

theorem UdpTable.slot_of_le {i : Nat} (h : i ≤ t.mask) : t.slot? i = some (t.hash i) := by
  unfold UdpTable.slot?
  rw [if_pos ⟨Int.natCast_nonneg i, Int.ofNat_le.mpr h⟩, Int.toNat_natCast]

theorem UdpTable.count_pos_iff {i : Nat} (h : i ≤ t.mask) :
    (t.hash i).count > 0 ↔ t.chains i ≠ [] := by
  rw [t.count i h, gt_iff_lt, Int.natCast_pos]
  exact List.length_pos_iff

theorem runAll_printSock (l : List Ptr) (out : List Line) :
    runAll (printSock t) (l.map some) out =
      .ended (out ++ l.map fun p => .sock p (t.sock p)) := by
  induction l generalizing out with
  | nil => rw [List.map_nil, List.map_nil, List.append_nil]; rfl
  | cons p l ih =>
    have htail := ih (out ++ [.sock p (t.sock p)])
    rw [List.append_assoc] at htail
    exact htail

/-- A slot is printed with its chain. -/
theorem printSlot_iff {i : Nat} (h : i ≤ t.mask) {fuel : Nat} {out out' : List Line} :
    printSlot t fuel i out = .ended out' ↔
      (t.chains i).length ≤ fuel ∧ out' = out ++ t.slotLines i := by
  unfold printSlot UdpTable.slotLines
  rw [UdpTable.slot_of_le h]
  dsimp only
  by_cases hempty : t.chains i = []
  · rw [if_neg (mt (UdpTable.count_pos_iff h).mp (not_not.mpr hempty)), if_pos hempty, hempty,
      List.append_nil]
    constructor
    · intro hrun
      exact ⟨Nat.zero_le fuel, (Loop.ended.inj hrun).symm⟩
    · intro hrun
      rw [hrun.2]
  · rw [if_pos ((UdpTable.count_pos_iff h).mpr hempty), if_neg hempty]
    rw [walk_ended_iff (t.chain i h) not_isNone rfl, List.length_map, runAll_printSock,
      List.append_assoc]
    constructor
    · intro hrun
      exact ⟨hrun.1, (Loop.ended.inj hrun.2).symm⟩
    · intro hrun
      exact ⟨hrun.1, congrArg Loop.ended hrun.2.symm⟩

theorem listed_slotLines (i : Nat) : listed (t.slotLines i) = t.chains i := by
  unfold UdpTable.slotLines
  split
  · next hempty => exact hempty.symm
  · unfold listed
    rw [List.filterMap_cons, List.filterMap_map]
    exact List.filterMap_some

/-- The lines of the slots before `n`. -/
def UdpTable.lines (t : UdpTable) (n : Nat) : List Line :=
  .table t.mask t.log :: (List.range n).flatMap t.slotLines

theorem listed_lines (n : Nat) : listed (t.lines n) = t.below n := by
  show listed ((List.range n).flatMap t.slotLines) = t.below n
  unfold listed UdpTable.below
  rw [List.filterMap_flatMap]
  congr 1
  funext i
  exact listed_slotLines i

theorem UdpTable.below_succ (n : Nat) : t.below (n + 1) = t.below n ++ t.chains n := by
  unfold UdpTable.below
  rw [List.range_succ, List.flatMap_append, List.flatMap_singleton]

end

/-! ## The slots -/

/-- The counters of the first `n` turns. -/
def counters (n : Nat) : List Int := (List.range n).map fun k : Nat => int32 k

theorem counters_eq {n : Nat} (h : n ≤ 2 ^ 31) :
    counters n = (List.range n).map fun k : Nat => (k : Int) := by
  unfold counters
  apply List.map_congr_left
  intro k hk
  have hlt := List.mem_range.mp hk
  exact int32_of_range (by omega) (by omega)

section
variable {t : UdpTable}

/-- The loop goes on before `mask`. -/
theorem goes_on {n : Nat} (hn : n ≤ t.mask) (hmask : t.mask < 2 ^ 32) {i : Int}
    (hi : i ∈ counters n) : t.atEnd i = false := by
  obtain ⟨k, hk, rfl⟩ := List.mem_map.mp hi
  have hlt := List.mem_range.mp hk
  have hless : k < t.mask := by omega
  unfold UdpTable.atEnd
  rw [u32_int32, u32_of_nat (by omega), decide_eq_true hless]
  rfl

theorem UdpTable.mask_lt (t : UdpTable) : t.mask < 2 ^ 32 := by
  have hpow : 2 ^ t.log ≤ 2 ^ 32 := Nat.pow_le_pow_right (by decide) t.log_le
  have hmask := t.mask_eq
  omega

theorem runAll_printSlot {n fuel : Nat} (hn : n ≤ t.mask) (hint : n ≤ 2 ^ 31)
    {out : List Line} :
    runAll (printSlot t fuel) (counters n) [.table t.mask t.log] = .ended out ↔
      (∀ i < n, (t.chains i).length ≤ fuel) ∧ out = t.lines n := by
  rw [counters_eq hint]
  clear hint
  unfold UdpTable.lines
  induction n generalizing out with
  | zero =>
    constructor
    · intro hrun
      exact ⟨fun i hi => absurd hi (Nat.not_lt_zero i), (Loop.ended.inj hrun).symm⟩
    · intro hrun
      rw [hrun.2]
      rfl
  | succ n ih =>
    have hle : n ≤ t.mask := by omega
    rw [List.range_succ, List.map_append, runAll_append, List.flatMap_append,
      List.flatMap_singleton]
    constructor
    · intro hrun
      obtain ⟨before, hbefore, hlast⟩ := andThen_ended hrun
      obtain ⟨hshort, rfl⟩ := (ih hle).mp hbefore
      obtain ⟨after, hslot, hend⟩ := andThen_ended hlast
      obtain ⟨hlen, rfl⟩ := (printSlot_iff (by omega)).mp hslot
      refine ⟨fun i hi => ?_, ?_⟩
      · rcases Nat.lt_succ_iff_lt_or_eq.mp hi with hlt | rfl
        · exact hshort i hlt
        · exact hlen
      · exact (Loop.ended.inj hend).symm
    · intro hrun
      obtain ⟨hlen, rfl⟩ := hrun
      have hbefore := (ih hle).mpr ⟨fun i hi => hlen i (Nat.lt_succ_of_lt hi), rfl⟩
      have hslot : printSlot t fuel n (t.lines n) = .ended (t.lines n ++ t.slotLines n) :=
        (printSlot_iff hle).mpr ⟨hlen n n.lt_succ_self, rfl⟩
      rw [hbefore]
      show andThen (printSlot t fuel n _) _ = _
      unfold UdpTable.lines at hslot
      rw [hslot]
      rfl

/-- **With an `int` for every slot the listing ends, short of the last slot.** -/
theorem zudpInit_iff (hlog : t.log ≤ 31) {fuel : Nat} {out : List Line} :
    zudpInit t fuel = .ended out ↔
      t.mask ≤ fuel ∧ (∀ i < t.mask, (t.chains i).length ≤ fuel) ∧ out = t.lines t.mask := by
  have hpow : 2 ^ t.log ≤ 2 ^ 31 := Nat.pow_le_pow_right (by decide) hlog
  have hmask := t.mask_eq
  have hend : t.atEnd (int32 (t.mask : Nat)) = true := by
    unfold UdpTable.atEnd
    rw [u32_int32, u32_of_nat t.mask_lt, decide_eq_false (Nat.lt_irrefl t.mask)]
    rfl
  unfold zudpInit
  rw [walk_ended_iff (chain_counter t.mask)
    (fun i hi => goes_on (Nat.le_refl t.mask) t.mask_lt hi) hend, List.length_map,
    List.length_range, and_congr_right_iff]
  intro _
  exact runAll_printSlot (Nat.le_refl t.mask) (by omega)

theorem printSlot_of_no_slot {i : Int} (h : t.slot? i = none) (fuel : Nat)
    (out out' : List Line) : printSlot t fuel i out ≠ .ended out' := by
  intro hbody
  unfold printSlot at hbody
  rw [h] at hbody
  exact absurd hbody (by simp)

/-- A turn without a slot: the listing does not end. -/
theorem not_ended_of_no_slot {n : Nat} (hn : n ≤ t.mask) (hgo : t.atEnd (int32 n) = false)
    (hslot : t.slot? (int32 n) = none) (fuel : Nat) (out : List Line) :
    zudpInit t fuel ≠ .ended out := by
  have hturns : ∀ i ∈ counters n, t.atEnd i = false := fun i hi => goes_on hn t.mask_lt hi
  intro hrun
  unfold zudpInit at hrun
  have hfuel := length_le_of_walk (chain_counter n) hturns hrun
  obtain ⟨more, rfl⟩ := Nat.exists_eq_add_of_le hfuel
  rw [walk_append (chain_counter n) hturns] at hrun
  obtain ⟨before, -, hrest⟩ := andThen_ended hrun
  exact not_ended_of_body hgo (printSlot_of_no_slot hslot _) more before out hrest

/-- A table of `2 ^ 32` slots: the counter turns negative. -/
theorem not_ended_of_log (hlog : t.log = 32) (fuel : Nat) (out : List Line) :
    zudpInit t fuel ≠ .ended out := by
  have hmask : t.mask = 2 ^ 32 - 1 := by rw [t.mask_eq, hlog]
  obtain ⟨n, hn⟩ : ∃ n, n = 2 ^ 31 := exists_eq
  have hgo : t.atEnd (int32 n) = false := by
    have hless : n < t.mask := by omega
    unfold UdpTable.atEnd
    rw [u32_int32, u32_of_nat (by omega), decide_eq_true hless]
    rfl
  have hneg : int32 n < 0 := by
    rw [int32_neg_iff, u32_of_nat (by omega)]
    omega
  have hslot : t.slot? (int32 n) = none := if_neg fun h => absurd h.1 (by omega)
  exact not_ended_of_no_slot (by omega) hgo hslot fuel out

end

/-- **Every socket is listed once exactly when the last slot is empty**, and the slots can be
counted with an `int`. -/
theorem lists_all_iff (t : UdpTable) : ListsAll t ↔ t.chains t.mask = [] ∧ t.log ≤ 31 := by
  have hall := t.nodup
  change (t.below (t.mask + 1)).Nodup at hall
  rw [UdpTable.below_succ] at hall
  constructor
  · intro h
    obtain ⟨fuel, out, hrun, -, hmem⟩ := h
    have hlog : t.log ≤ 31 := by
      by_contra hlog
      have hle := t.log_le
      exact not_ended_of_log (by omega) fuel out hrun
    obtain ⟨-, -, rfl⟩ := (zudpInit_iff hlog).mp hrun
    refine ⟨List.eq_nil_iff_forall_not_mem.mpr fun p hp => ?_, hlog⟩
    have hlisted := (hmem p).mpr
    rw [listed_lines, UdpTable.below_succ, List.mem_append] at hlisted
    exact List.disjoint_of_nodup_append hall (hlisted (.inr hp)) hp
  · intro h
    obtain ⟨hempty, hlog⟩ := h
    have hlast : t.below (t.mask + 1) = t.below t.mask := by
      rw [UdpTable.below_succ, hempty, List.append_nil]
    rw [hempty, List.append_nil] at hall
    refine ⟨t.mask + (t.below t.mask).length, t.lines t.mask, ?_, ?_, fun p => ?_⟩
    · refine (zudpInit_iff hlog).mpr ⟨Nat.le_add_right _ _, fun i hi => ?_, rfl⟩
      have hpart := List.sublist_flatten_of_mem
        (List.mem_map_of_mem (f := t.chains) (List.mem_range.mpr hi))
      exact Nat.le_add_left_of_le hpart.length_le
    · rw [listed_lines]
      exact hall
    · rw [listed_lines, hlast]

/-- Two slots; the only socket is in the last one. -/
def lastSlot : UdpTable where
  hash i := if i = 1 then ⟨some 1, 1⟩ else ⟨none, 0⟩
  mask := 1
  log := 1
  sock _ := ⟨0, 5353, 0, 0⟩
  next _ := none
  chains i := if i = 1 then [1] else []
  log_le := by decide
  mask_eq := rfl
  chain i hi := by
    have hi : i = 0 ∨ i = 1 := by omega
    rcases hi with rfl | rfl
    · exact .nil none
    · exact .cons (.nil none)
  count i hi := by
    have hi : i = 0 ∨ i = 1 := by omega
    rcases hi with rfl | rfl
    · rfl
    · rfl
  nodup := by decide

/-- Nothing is listed of that table. -/
theorem not_listsAll_lastSlot : ¬ ListsAll lastSlot := by
  intro h
  obtain ⟨fuel, out, hrun, -, hmem⟩ := h
  obtain ⟨-, -, rfl⟩ := (zudpInit_iff (t := lastSlot) (by decide)).mp hrun
  have hlisted := (hmem 1).mpr (by decide)
  rw [listed_lines] at hlisted
  exact absurd hlisted (by decide)

end LinuxSummary.Udp
