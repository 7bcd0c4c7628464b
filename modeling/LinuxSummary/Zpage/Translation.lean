/-
  `walk_task_page` beside the translation of the processor.

  `translate` follows the tables as the processor does, with the large pages of 1 GiB and
  2 MiB. The walk takes an entry for a table when it is neither none nor bad, and the PTE as
  it stands: it tests the pointer to the PTE, not its present bit. `Entry.level_iff` is one
  level of the comparison, `walk_agrees_iff` the whole descent.
-/
import LinuxSummary.Zpage.Driver

namespace LinuxSummary.Zpage

/-! ## The processor -/

/-- One level: an entry is a large page, leads to a table, or ends the translation. -/
def Entry.translate {α : Type} (e : Entry α) (large : Nat → Option Nat) (next : α → Option Nat) :
    Option Nat :=
  match e with
  | .large frame => large frame
  | e => e.follow.bind next

def pteTranslate (addr : UInt64) (ptes : PteTable) : Option Nat :=
  if (ptes (pteIndex addr)).present then some (ptes (pteIndex addr)).frame else none

/-- A large page of the PMD has 2 MiB. -/
def pmdTranslate (addr : UInt64) (pmd : PmdTable) : Option Nat :=
  (pmd (pmdIndex addr)).translate (fun frame => some (frame + addr.toNat / 2 ^ 12 % 2 ^ 9))
    (pteTranslate addr)

/-- A large page of the PUD has 1 GiB. -/
def pudTranslate (addr : UInt64) (pud : PudTable) : Option Nat :=
  (pud (pudIndex addr)).translate (fun frame => some (frame + addr.toNat / 2 ^ 12 % 2 ^ 18))
    (pmdTranslate addr)

/-- The frame in which the processor finds the address; none where it faults. -/
def translate (mm : Mm) (addr : UInt64) : Option Nat :=
  if Canonical addr then
    (mm.pgd (pgdIndex addr)).translate (fun _ => none) (pudTranslate addr)
  else none

theorem Entry.translate_of_follow {α : Type} {e : Entry α} {large : Nat → Option Nat}
    {next next' : α → Option Nat} {frame : Nat} (h : e.follow.bind next' = some frame)
    (hnext : ∀ t, next' t = some frame → next t = some frame) :
    e.translate large next = some frame := by
  obtain ⟨t, ht, hframe⟩ := Option.bind_eq_some_iff.mp h
  have hstep : e.follow.bind next = some frame :=
    Option.bind_eq_some_iff.mpr ⟨t, ht, hnext t hframe⟩
  cases e with
  | large g => exact absurd ht (by simp [Entry.follow])
  | none => exact hstep
  | table t => exact hstep
  | odd next => exact hstep

/-- A page of 4 KiB is where `hardwareFrame` says. -/
theorem translate_of_hardwareFrame {mm : Mm} {addr : UInt64} {frame : Nat}
    (h : hardwareFrame mm addr = some frame) : translate mm addr = some frame := by
  unfold hardwareFrame at h
  unfold translate
  split at h
  · next hc =>
    rw [if_pos hc]
    refine Entry.translate_of_follow h fun pud hpud => ?_
    refine Entry.translate_of_follow hpud fun pmd hpmd => ?_
    exact Entry.translate_of_follow hpmd fun ptes hptes => hptes
  · exact absurd h (by simp)

/-! ## The comparison -/

/-- The walk and the processor see the same in the entry: where the walk gives up, the
    processor finds nothing. `large` says whether the level has large pages. -/
def Entry.Agrees {α : Type} (e : Entry α) (large : Bool) (next : α → Option Nat)
    (below : α → Prop) : Prop :=
  match e with
  | .none => True
  | .table t => below t
  | .large _ => large = false
  | .odd Option.none => True
  | .odd (some t) => next t = Option.none

theorem Entry.level_iff {α : Type} {large : Nat → Option Nat} {b : Bool}
    (hlarge : ∀ frame, large frame = Option.none ↔ b = false) (e : Entry α)
    (walk next : α → Option Nat) :
    e.offset.bind walk = e.translate large next ↔ e.Agrees b next fun t => walk t = next t := by
  cases e with
  | none => exact iff_of_true rfl trivial
  | table t => exact Iff.rfl
  | large frame => exact eq_comm.trans (hlarge frame)
  | odd behind =>
    cases behind with
    | none => exact iff_of_true rfl trivial
    | some t => exact eq_comm

theorem Entry.agrees_congr {α : Type} (e : Entry α) (b : Bool) (next : α → Option Nat)
    {below below' : α → Prop} (h : ∀ t, below t ↔ below' t) :
    e.Agrees b next below ↔ e.Agrees b next below' := by
  cases e with
  | none => exact Iff.rfl
  | table t => exact h t
  | large frame => exact Iff.rfl
  | odd behind => cases behind <;> exact Iff.rfl

/-- The tables at a canonical address: a large page, or a mapping behind an entry that is not a
    normal table, is lost; behind three normal tables the PTE has to be present. -/
def TablesAgree (mm : Mm) (addr : UInt64) : Prop :=
  (mm.pgd (pgdIndex addr)).Agrees false (pudTranslate addr) fun pud =>
  (pud (pudIndex addr)).Agrees true (pmdTranslate addr) fun pmd =>
  (pmd (pmdIndex addr)).Agrees true (pteTranslate addr) fun ptes =>
  (ptes (pteIndex addr)).present = true

/-- Three normal tables lead to the PTE. -/
def Leads (mm : Mm) (addr : UInt64) (pte : Pte) : Prop :=
  ∃ pud pmd ptes, mm.pgd (pgdIndex addr) = .table pud ∧ pud (pudIndex addr) = .table pmd ∧
    pmd (pmdIndex addr) = .table ptes ∧ ptes (pteIndex addr) = pte

theorem Entry.offset_eq_some {α : Type} {e : Entry α} {t : α} :
    e.offset = some t ↔ e = .table t := by
  cases e with
  | table t' => exact ⟨fun h => congrArg _ (Option.some.inj h), fun h => by rw [h]; rfl⟩
  | _ => exact iff_of_false (by simp [Entry.offset, Entry.isNone, Entry.isBad]) (by simp)

theorem walk_eq_some_iff {mm : Mm} {addr : UInt64} {frame : Nat} :
    walkTaskPage mm addr = some frame ↔ ∃ pte, Leads mm addr pte ∧ pte.frame = frame := by
  unfold walkTaskPage Leads
  simp only [Option.bind_eq_some_iff, Entry.offset_eq_some, Option.some.injEq]
  constructor
  · intro h
    obtain ⟨pud, h1, pmd, h2, ptes, h3, h4⟩ := h
    exact ⟨_, ⟨pud, pmd, ptes, h1, h2, h3, rfl⟩, h4⟩
  · intro h
    obtain ⟨pte, ⟨pud, pmd, ptes, h1, h2, h3, rfl⟩, h4⟩ := h
    exact ⟨pud, h1, pmd, h2, ptes, h3, h4⟩

/-- **`walk_task_page` finds what the processor finds exactly where the tables agree**, and at an
    address that is not canonical, where it does not get through. -/
theorem walk_agrees_iff (mm : Mm) (addr : UInt64) :
    walkTaskPage mm addr = translate mm addr ↔
      (Canonical addr → TablesAgree mm addr) ∧
        (¬ Canonical addr → ¬ ∃ pte, Leads mm addr pte) := by
  by_cases hc : Canonical addr
  · have htree : walkTaskPage mm addr = translate mm addr ↔ TablesAgree mm addr := by
      have hpte : ∀ ptes : PteTable, some (ptes (pteIndex addr)).frame = pteTranslate addr ptes ↔
          (ptes (pteIndex addr)).present = true := by
        intro ptes
        unfold pteTranslate
        split
        · next h => exact iff_of_true rfl h
        · next h => exact iff_of_false (by simp) h
      unfold walkTaskPage translate TablesAgree
      rw [if_pos hc, Entry.level_iff (b := false) (by simp)]
      refine Entry.agrees_congr _ _ _ fun pud => ?_
      unfold pudTranslate
      rw [Entry.level_iff (b := true) (by simp)]
      refine Entry.agrees_congr _ _ _ fun pmd => ?_
      unfold pmdTranslate
      rw [Entry.level_iff (b := true) (by simp)]
      exact Entry.agrees_congr _ _ _ hpte
    rw [htree]
    exact ⟨fun h => ⟨fun _ => h, fun hn => absurd hc hn⟩, fun h => h.1 hc⟩
  · have hnone : walkTaskPage mm addr = translate mm addr ↔ ¬ ∃ pte, Leads mm addr pte := by
      unfold translate
      rw [if_neg hc, Option.eq_none_iff_forall_ne_some]
      simp only [ne_eq, walk_eq_some_iff]
      exact ⟨fun h hp => h hp.choose.frame ⟨_, hp.choose_spec, rfl⟩,
        fun h frame hp => h ⟨hp.choose, hp.choose_spec.1⟩⟩
    rw [hnone]
    exact ⟨fun h => ⟨fun hcan => absurd hcan hc, fun _ => h⟩, fun h => h.2 hc⟩

/-- Tables that lead to empty PTEs: nothing was touched yet. -/
def untouchedPgd : PgdTable := fun _ => .table fun _ => .table fun _ => .table fun _ => ⟨false, 0⟩

/-- A page that is not there is taken for frame 0. -/
theorem not_walk_agrees_untouched : ¬ ∀ (mm : Mm) (addr : UInt64),
    walkTaskPage mm addr = translate mm addr := by
  intro h
  have hpage := h ⟨untouchedPgd, 0, 0, 0, 0, 0, 0, 0, 0, 0, []⟩ 0
  have hcanonical : Canonical 0 := by decide
  unfold translate at hpage
  rw [if_pos hcanonical] at hpage
  exact absurd hpage (Option.some_ne_none 0)

end LinuxSummary.Zpage
