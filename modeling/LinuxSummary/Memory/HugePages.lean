/-
  The script `pid_smaps_anonhugepage.py`: the huge pages in the `smaps` files of the processes.

  The script reads a file as a list of lines, finds the lines with `AnonHugePages`, and takes the
  line that stands ten lines before for the header of the mapping (`reportLine`). A `Vma` is a
  mapping as the kernel prints it: a header, and behind it the attributes, whose number and
  order differ from kernel to kernel. `placed` is each mapping with the index of its header.

  `reports_iff_behind`: the two reports are right exactly when no header has `AnonHugePages` in
  it, and each mapping with huge pages has its header ten lines before that line, or finds it
  behind the wrap of the negative index.
-/
import LinuxSummary.Library.Python

namespace LinuxSummary.Memory

open Python Python.Script

/-! ## The script -/

/-- A `smaps` file: its lines, and what `cmdline` beside it holds. -/
structure File where
  path : Text
  cmdline : Text
  lines : List Text

/-- What the lines are searched for. -/
def needle : Text := "AnonHugePages".toList

/-- `int(line.split()[1])` -/
def number (line : Text) : Script Text Int := do
  let word ← eval (getItem (words line) 1)
  eval (int 10 word)

def sumLine (sum : Int) (line : Text) : Script Text Int :=
  if Text.occursIn needle line then do
    let num ← number line
    pure (sum + num)
  else pure sum

def kB (sum : Int) : Text := Printf.dec sum ++ " kB".toList

def getSum (smapsList : List File) : Script Text Unit := do
  let sum ← smapsList.foldlM (fun sum f => f.lines.foldlM sumLine sum) 0
  emit (kB sum)

/-- A turn of the inner loop of `list_hugepages`, with a line and its index. -/
def reportLine (f : File) (sum : Int) (line : Text × Nat) : Script Text Int :=
  if Text.occursIn needle line.1 then do
    let num ← number line.1
    if num > 0 then do
      emit f.path
      emit f.cmdline
      let header ← eval (getItem f.lines (line.2 - 10))
      emit header
      emit line.1
      emit []
      pure (sum + num)
    else pure sum
  else pure sum

def listHugepages (smapsList : List File) : Script Text Unit := do
  let sum ← smapsList.foldlM (fun sum f => f.lines.zipIdx.foldlM (reportLine f) sum) 0
  emit ("Total ".toList ++ kB sum)

/-- With `-l` and without, on the files that `glob` finds. -/
def main (list : Bool) (smapsList : List File) : Script Text Unit :=
  if list then listHugepages smapsList else getSum smapsList

/-! ## Mappings -/

structure Perms where
  r : Bool
  w : Bool
  x : Bool
  shared : Bool

def Perms.text (p : Perms) : Text :=
  [if p.r then 'r' else '-', if p.w then 'w' else '-', if p.x then 'x' else '-',
    if p.shared then 's' else 'p']

/-- The name of an attribute begins with a capital letter. -/
structure IsAttribute (line : Text) : Prop where
  capital : line.head?.any Char.isUpper = true
  other : Text.occursIn needle line = false

/-- A mapping: the range, the permissions and what follows them in the header; the attributes
    before the line of the huge pages, this line, and those behind it. -/
structure Vma where
  start : Nat
  stop : Nat
  perms : Perms
  rest : Text
  before : List Text
  blanks : Nat
  anonHugePages : Nat
  after : List Text
  attributes : ∀ line ∈ before ++ after, IsAttribute line

def Vma.range (v : Vma) : Text :=
  Numeral.padLeft 8 (Printf.hex v.start) ++ '-' :: Numeral.padLeft 8 (Printf.hex v.stop)

def Vma.header (v : Vma) : Text := v.range ++ ' ' :: (v.perms.text ++ ' ' :: v.rest)

/-- `AnonHugePages:   <n> kB` -/
def Vma.hugeLine (v : Vma) : Text :=
  "AnonHugePages:".toList ++ ' ' :: (List.replicate v.blanks ' ' ++
    (Nat.toDigits 10 v.anonHugePages ++ ' ' :: "kB\n".toList))

def Vma.lines (v : Vma) : List Text := v.header :: (v.before ++ v.hugeLine :: v.after)

/-- How far the line of the huge pages is behind the header. -/
def Vma.distance (v : Vma) : Nat := v.before.length + 1

/-- The `smaps` file of a process; no two mappings start at one address. -/
structure Smaps where
  path : Text
  cmdline : Text
  vmas : List Vma
  starts : (vmas.map (·.start)).Nodup

def Smaps.file (s : Smaps) : File := ⟨s.path, s.cmdline, s.vmas.flatMap Vma.lines⟩

/-- The mappings with the index of their headers, from an index on. -/
def placed : Nat → List Vma → List (Vma × Nat)
  | _, [] => []
  | k, v :: vs => (v, k) :: placed (k + v.lines.length) vs

/-! ## What is printed -/

/-- The lines about a mapping. -/
def report (s : Smaps) (header hugeLine : Text) : List Text :=
  [s.path, s.cmdline, header, hugeLine, []]

def expectedVma (s : Smaps) (v : Vma) : List Text :=
  if 0 < v.anonHugePages then report s v.header v.hugeLine else []

def total (files : List Smaps) : Int :=
  (files.map fun s => (s.vmas.map fun v => (v.anonHugePages : Int)).sum).sum

/-- One report for each mapping with huge pages, in order and with its own header, and the total
    that is also the one of `get_sum`. -/
def Reports (files : List Smaps) : Prop :=
  listHugepages (files.map Smaps.file) =
    ⟨files.flatMap (fun s => s.vmas.flatMap (expectedVma s)) ++
      ["Total ".toList ++ kB (total files)], .ok ()⟩ ∧
  getSum (files.map Smaps.file) = ⟨[kB (total files)], .ok ()⟩

/-- The line ten lines before the one of the huge pages is the header: by the distance, or by the
    wrap of the index in a file that is short enough. -/
def Behind (s : Smaps) (v : Vma) (k : Nat) : Prop :=
  v.distance = 10 ∨ k + v.distance < 10 ∧ s.file.lines.length + v.distance = 10

/-! ## One line -/

theorem words_hugeLine (v : Vma) : words v.hugeLine =
    ["AnonHugePages:".toList, Nat.toDigits 10 v.anonHugePages, "kB".toList] := by
  have hspaces : ∀ c ∈ List.replicate v.blanks ' ', Strtol.isspace c = true := by
    intro c hc
    rw [List.eq_of_mem_replicate hc]
    decide
  have hdigits : ∀ c ∈ Nat.toDigits 10 v.anonHugePages, Strtol.isspace c = false := by
    intro c hc
    have := Strtol.le_toNat_of_isDigitOf (List.all_eq_true.mp
      (Numeral.toDigits_all (by decide) (by decide) v.anonHugePages) c hc)
    exact Strtol.not_isspace (by omega)
  have hname : ∀ c ∈ "AnonHugePages:".toList, Strtol.isspace c = false := by
    have hall : ("AnonHugePages:".toList).all (fun c => !Strtol.isspace c) = true := by decide
    intro c hc
    simpa using List.all_eq_true.mp hall c hc
  have hblank : Strtol.isspace ' ' = true := by decide
  have hunit : words "kB\n".toList = ["kB".toList] := by rfl
  have hname' : "AnonHugePages:".toList ≠ [] := List.cons_ne_nil _ _
  unfold Vma.hugeLine
  rw [words_append_space hname' hname hblank, words_spaces hspaces,
    words_append_space Nat.toDigits_ne_nil hdigits hblank, hunit]

theorem number_hugeLine (v : Vma) : number v.hugeLine = ⟨[], .ok v.anonHugePages⟩ := by
  rw [number, words_hugeLine]
  exact congrArg (Script.mk []) (int_toDigits (by decide) (by decide) v.anonHugePages)

theorem needle_hugeLine (v : Vma) : Text.occursIn needle v.hugeLine = true := by
  rw [Text.occursIn_iff]
  exact (List.prefix_append needle (':' :: ' ' :: _)).isInfix

/-- The permissions are no number. -/
theorem int_perms (p : Perms) : int 10 p.text = .error .valueError := by
  obtain ⟨r, w, x, shared⟩ := p
  cases r <;> cases w <;> cases x <;> cases shared <;> rfl

theorem mem_hexText {c : Char} {n : Nat} (hc : c ∈ Numeral.padLeft 8 (Printf.hex n)) :
    ∃ d < 16, c = Nat.digitChar d := by
  rcases List.mem_append.mp hc with hc | hc
  · exact ⟨0, by decide, List.eq_of_mem_replicate hc⟩
  · exact Numeral.mem_toDigits (by decide) hc

theorem hexText_ne_nil (n : Nat) : Numeral.padLeft 8 (Printf.hex n) ≠ [] :=
  List.append_ne_nil_of_right_ne_nil _ (Printf.hex_ne_nil n)

theorem digitChar_lower {d : Nat} (hd : d < 16) : (Nat.digitChar d).isUpper = false := by
  interval_cases d <;> rfl

theorem not_isspace_hexText {c : Char} {n : Nat} (hc : c ∈ Numeral.padLeft 8 (Printf.hex n)) :
    Strtol.isspace c = false := by
  obtain ⟨d, hd, rfl⟩ := mem_hexText hc
  have := Strtol.le_toNat_of_isDigitOf (Numeral.isDigitOf_digitChar (b := 16) le_rfl hd)
  exact Strtol.not_isspace (by omega)

/-- The second word of a header is the permissions. -/
theorem words_header (v : Vma) : words v.header = v.range :: v.perms.text :: words v.rest := by
  have hrange : ∀ c ∈ v.range, Strtol.isspace c = false := by
    intro c hc
    rcases List.mem_append.mp hc with hc | hc
    · exact not_isspace_hexText hc
    · rcases List.mem_cons.mp hc with rfl | hc
      · decide
      · exact not_isspace_hexText hc
  have hperms : ∀ c ∈ v.perms.text, Strtol.isspace c = false := by
    obtain ⟨r, w, x, shared⟩ := v.perms
    intro c hc
    have hall : (Perms.text ⟨r, w, x, shared⟩).all (fun c => !Strtol.isspace c) = true := by
      cases r <;> cases w <;> cases x <;> cases shared <;> rfl
    simpa using List.all_eq_true.mp hall c hc
  have hne : v.range ≠ [] := List.append_ne_nil_of_left_ne_nil (hexText_ne_nil _) _
  have hperms' : v.perms.text ≠ [] := List.cons_ne_nil _ _
  have hblank : Strtol.isspace ' ' = true := by decide
  unfold Vma.header
  rw [words_append_space hne hrange hblank, words_append_space hperms' hperms hblank]

theorem number_header (v : Vma) : number v.header = ⟨[], .error .valueError⟩ := by
  rw [number, words_header]
  exact congrArg (Script.mk []) (int_perms v.perms)

/-! ## Headers -/

theorem header_lower (v : Vma) : v.header.head?.any Char.isUpper = false := by
  obtain ⟨c, cs, hcs⟩ := List.exists_cons_of_ne_nil (hexText_ne_nil v.start)
  have hc : c ∈ Numeral.padLeft 8 (Printf.hex v.start) := by
    rw [hcs]
    exact List.mem_cons_self
  obtain ⟨d, hd, hcd⟩ := mem_hexText hc
  have hhead : v.header.head? = some c := by
    rw [Vma.header, Vma.range, hcs]
    rfl
  rw [hhead, Option.any_some, hcd]
  exact digitChar_lower hd

/-- The header shows where a mapping starts. -/
theorem start_of_header {v w : Vma} (h : v.header = w.header) : v.start = w.start := by
  have hno : ∀ n, '-' ∉ Numeral.padLeft 8 (Printf.hex n) := by
    intro n hmem
    obtain ⟨d, hd, heq⟩ := mem_hexText hmem
    have hdigit := Numeral.digitVal_digitChar hd
    rw [← heq] at hdigit
    exact absurd hdigit (by simp [show Numeral.digitVal '-' = none from rfl])
  unfold Vma.header Vma.range at h
  rw [List.append_assoc, List.append_assoc] at h
  have hpad := (Text.append_cons_inj (hno _) (hno _) h).1
  have hvalue := congrArg (Numeral.value 16) hpad
  rwa [Numeral.value_padLeft, Numeral.value_padLeft, Printf.hex, Printf.hex,
    Numeral.value_toDigits (by decide) (by decide),
    Numeral.value_toDigits (by decide) (by decide)] at hvalue

/-- Behind its header a mapping has no header. -/
theorem header_not_mem_tail (v w : Vma) : v.header ∉ w.before ++ w.hugeLine :: w.after := by
  intro hmem
  have hlower := header_lower v
  have hcapital : v.header.head?.any Char.isUpper = true := by
    rcases List.mem_append.mp hmem with hmem | hmem
    · exact (w.attributes _ (List.mem_append_left _ hmem)).capital
    · rcases List.mem_cons.mp hmem with heq | hmem
      · rw [heq]
        rfl
      · exact (w.attributes _ (List.mem_append_right _ hmem)).capital
  rw [hlower] at hcapital
  exact absurd hcapital (by decide)

theorem header_not_mem {v : Vma} {vs : List Vma} (h : v.start ∉ vs.map (·.start)) :
    v.header ∉ vs.flatMap Vma.lines := by
  intro hmem
  obtain ⟨w, hw, hline⟩ := List.mem_flatMap.mp hmem
  rcases List.mem_cons.mp hline with heq | htail
  · exact h (List.mem_map.mpr ⟨w, hw, (start_of_header heq).symm⟩)
  · exact header_not_mem_tail v w htail

theorem placed_split {v : Vma} {k i : Nat} {vs : List Vma} (h : (v, k) ∈ placed i vs) :
    ∃ front back, vs = front ++ v :: back ∧ k = i + (front.flatMap Vma.lines).length := by
  induction vs generalizing i with
  | nil => exact absurd h (by simp [placed])
  | cons w vs ih =>
    rcases List.mem_cons.mp h with heq | h
    · obtain ⟨rfl, rfl⟩ := Prod.mk.inj heq
      exact ⟨[], vs, rfl, rfl⟩
    · obtain ⟨front, back, rfl, rfl⟩ := ih h
      refine ⟨w :: front, back, rfl, ?_⟩
      rw [List.flatMap_cons, List.length_append]
      omega

/-- What stands once in a list has one index. -/
theorem getElem?_eq_some_iff_index {α : Type} {a : α} {front back : List α} (h1 : a ∉ front)
    (h2 : a ∉ back) (m : Nat) : (front ++ a :: back)[m]? = some a ↔ m = front.length := by
  constructor
  · intro h
    rcases Nat.lt_trichotomy m front.length with hlt | heq | hgt
    · rw [List.getElem?_append_left hlt] at h
      exact absurd (List.mem_of_getElem? h) h1
    · exact heq
    · obtain ⟨r, rfl⟩ := Nat.exists_eq_add_of_lt hgt
      rw [List.getElem?_append_right (by omega),
        show front.length + r + 1 - front.length = r + 1 by omega, List.getElem?_cons_succ] at h
      exact absurd (List.mem_of_getElem? h) h2
  · intro h
    rw [h, List.getElem?_append_right le_rfl, Nat.sub_self, List.getElem?_cons_zero]

/-- The header of a mapping is the line at its place, and no other. -/
theorem getElem?_header_iff (s : Smaps) {v : Vma} {k : Nat} (h : (v, k) ∈ placed 0 s.vmas)
    (m : Nat) : s.file.lines[m]? = some v.header ↔ m = k := by
  obtain ⟨front, back, hvmas, rfl⟩ := placed_split h
  have hstarts := s.starts
  rw [hvmas, List.map_append, List.map_cons] at hstarts
  have hfront : v.header ∉ front.flatMap Vma.lines := by
    apply header_not_mem
    intro hmem
    exact List.disjoint_of_nodup_append hstarts hmem List.mem_cons_self
  have hback : v.header ∉ back.flatMap Vma.lines :=
    header_not_mem (List.nodup_cons.mp (List.Nodup.of_append_right hstarts)).1
  have hlines : s.file.lines = front.flatMap Vma.lines ++
      v.header :: ((v.before ++ v.hugeLine :: v.after) ++ back.flatMap Vma.lines) := by
    rw [Smaps.file, hvmas, List.flatMap_append, List.flatMap_cons]
    rfl
  rw [hlines, getElem?_eq_some_iff_index hfront, Nat.zero_add]
  rw [List.mem_append, not_or]
  exact ⟨header_not_mem_tail v v, hback⟩

/-- Ten lines before its line of the huge pages a mapping has its header, or it has not. -/
theorem getItem_header_iff (s : Smaps) {v : Vma} {k : Nat} (h : (v, k) ∈ placed 0 s.vmas) :
    getItem s.file.lines ((k + v.distance : Nat) - 10) = .ok v.header ↔ Behind s v k := by
  have hk : s.file.lines[k]? = some v.header := (getElem?_header_iff s h k).mpr rfl
  have hlt : k < s.file.lines.length := by
    by_contra hge
    rw [List.getElem?_eq_none (by omega)] at hk
    exact absurd hk (by simp)
  have hpos : 0 < v.distance := Nat.succ_pos _
  rw [getItem_eq_ok_iff]
  unfold Behind index
  constructor
  · intro hex
    obtain ⟨j, hj, hindex⟩ := hex
    obtain rfl := (getElem?_header_iff s h j).mp hj
    split at hindex <;> omega
  · intro hbehind
    refine ⟨k, hk, ?_⟩
    split <;> omega

/-! ## A mapping -/

/-- The lines of a mapping, from an index on. -/
def turnVma (s : Smaps) (sum : Int) (p : Vma × Nat) : Script Text Int :=
  (p.1.lines.zipIdx p.2).foldlM (reportLine s.file) sum

theorem zipIdx_lines (k : Nat) (vs : List Vma) : (vs.flatMap Vma.lines).zipIdx k =
    (placed k vs).flatMap fun p => p.1.lines.zipIdx p.2 := by
  induction vs generalizing k with
  | nil => rfl
  | cons v vs ih =>
    rw [List.flatMap_cons, List.zipIdx_append, ih, placed, List.flatMap_cons]

/-- A file is gone through mapping by mapping. -/
theorem foldlM_file (s : Smaps) (sum : Int) :
    s.file.lines.zipIdx.foldlM (reportLine s.file) sum =
      (placed 0 s.vmas).foldlM (turnVma s) sum := by
  have hlines : s.file.lines.zipIdx =
      (placed 0 s.vmas).flatMap fun p => p.1.lines.zipIdx p.2 := zipIdx_lines 0 s.vmas
  rw [hlines, foldlM_flatMap]
  rfl

theorem reportLine_skip {f : File} {line : Text × Nat}
    (h : Text.occursIn needle line.1 = false) (sum : Int) : reportLine f sum line = pure sum := by
  rw [reportLine, h]
  rfl

theorem sumLine_skip {line : Text} (h : Text.occursIn needle line = false) (sum : Int) :
    sumLine sum line = pure sum := by
  rw [sumLine, h]
  rfl

/-- Around the line of the huge pages nothing counts, the header included if it is clean. -/
theorem Vma.skipped {v : Vma} (hv : Text.occursIn needle v.header = false) :
    (∀ line ∈ v.header :: v.before, Text.occursIn needle line = false) ∧
      ∀ line ∈ v.after, Text.occursIn needle line = false := by
  constructor
  · intro line hline
    rcases List.mem_cons.mp hline with rfl | hline
    · exact hv
    · exact (v.attributes line (List.mem_append_left _ hline)).other
  · intro line hline
    exact (v.attributes line (List.mem_append_right _ hline)).other

/-- The lines with their indices, split at the line of the huge pages. -/
theorem zipIdx_vma (v : Vma) (k : Nat) : v.lines.zipIdx k = (v.header :: v.before).zipIdx k ++
    (v.hugeLine, k + v.distance) :: v.after.zipIdx (k + v.distance + 1) := by
  have hlines : v.lines = (v.header :: v.before) ++ v.hugeLine :: v.after := rfl
  rw [hlines, List.zipIdx_append, List.zipIdx_cons]
  rfl

theorem skip_zipIdx {f : File} {lines : List Text}
    (h : ∀ line ∈ lines, Text.occursIn needle line = false) (k : Nat) :
    ∀ line ∈ lines.zipIdx k, ∀ sum, reportLine f sum line = pure sum := by
  intro line hline
  obtain ⟨-, -, hmem⟩ := List.mem_zipIdx hline
  exact reportLine_skip (h line.1 (hmem ▸ List.getElem_mem _))

section
variable (s : Smaps) {v : Vma} (sum : Int)

/-- Of a mapping with a clean header only the line of the huge pages counts. -/
theorem turnVma_clean (hv : Text.occursIn needle v.header = false) (k : Nat) :
    turnVma s sum (v, k) = reportLine s.file sum (v.hugeLine, k + v.distance) := by
  obtain ⟨hbefore, hafter⟩ := Vma.skipped hv
  rw [turnVma, zipIdx_vma]
  exact foldlM_one _ (skip_zipIdx hbefore k) (skip_zipIdx hafter _) sum

/-- A header that has the needle in it ends the script. -/
theorem turnVma_dirty (hv : Text.occursIn needle v.header = true) (k : Nat) :
    turnVma s sum (v, k) = raise .valueError := by
  have hheader : reportLine s.file sum (v.header, k) = raise .valueError := by
    rw [reportLine, hv, if_pos rfl, number_header]
    rfl
  rw [turnVma, Vma.lines, List.zipIdx_cons, List.foldlM_cons, hheader, raise_bind]

theorem reportLine_zero (h0 : v.anonHugePages = 0) (i : Nat) :
    reportLine s.file sum (v.hugeLine, i) = ⟨[], .ok sum⟩ := by
  rw [reportLine, needle_hugeLine, if_pos rfl, number_hugeLine, h0]
  rfl

theorem reportLine_ok (hpos : 0 < v.anonHugePages) {i : Nat} {header : Text}
    (hi : getItem s.file.lines ((i : Int) - 10) = .ok header) :
    reportLine s.file sum (v.hugeLine, i) =
      ⟨report s header v.hugeLine, .ok (sum + v.anonHugePages)⟩ := by
  have hnum : (v.anonHugePages : Int) > 0 := by omega
  rw [reportLine, needle_hugeLine, if_pos rfl, number_hugeLine, ok_bind, if_pos hnum, hi]
  rfl

theorem reportLine_error (hpos : 0 < v.anonHugePages) {i : Nat} {e : Exn}
    (hi : getItem s.file.lines ((i : Int) - 10) = .error e) :
    (reportLine s.file sum (v.hugeLine, i)).result = .error e := by
  have hnum : (v.anonHugePages : Int) > 0 := by omega
  rw [reportLine, needle_hugeLine, if_pos rfl, number_hugeLine, ok_bind, if_pos hnum, hi]
  rfl

end

/-! ## All files -/

/-- The line that is taken for the header. -/
def found (s : Smaps) (p : Vma × Nat) : Except Exn Text :=
  getItem s.file.lines ((p.2 + p.1.distance : Nat) - 10)

/-- No header has the needle in it. -/
def Clean (files : List Smaps) : Prop :=
  ∀ s ∈ files, ∀ v ∈ s.vmas, Text.occursIn needle v.header = false

theorem mem_of_placed {v : Vma} {k i : Nat} {vs : List Vma} (h : (v, k) ∈ placed i vs) :
    v ∈ vs := by
  obtain ⟨front, back, rfl, -⟩ := placed_split h
  simp

theorem map_placed (k : Nat) (vs : List Vma) : (placed k vs).map Prod.fst = vs := by
  induction vs generalizing k with
  | nil => rfl
  | cons v vs ih => rw [placed, List.map_cons, ih]

/-- What a mapping prints, with the headers that are taken. -/
def printedVma (s : Smaps) (header : Vma × Nat → Text) (p : Vma × Nat) : List Text :=
  if 0 < p.1.anonHugePages then report s (header p) p.1.hugeLine else []

/-- Where each header is found, the loop goes through all files. -/
theorem listHugepages_eq {files : List Smaps} {header : Smaps → Vma × Nat → Text}
    (hclean : Clean files) (hfound : ∀ s ∈ files, ∀ p ∈ placed 0 s.vmas,
      0 < p.1.anonHugePages → found s p = .ok (header s p)) :
    listHugepages (files.map Smaps.file) =
      ⟨files.flatMap (fun s => (placed 0 s.vmas).flatMap (printedVma s (header s))) ++
        ["Total ".toList ++ kB (total files)], .ok ()⟩ := by
  have hvma : ∀ s ∈ files, ∀ p ∈ placed 0 s.vmas, ∀ sum, turnVma s sum p =
      ⟨printedVma s (header s) p, .ok (sum + p.1.anonHugePages)⟩ := by
    intro s hs p hp sum
    rw [turnVma_clean s sum (hclean s hs p.1 (mem_of_placed hp)), printedVma]
    split
    · next hpos => exact reportLine_ok s sum hpos (hfound s hs p hp hpos)
    · next h0 =>
      have h0 : p.1.anonHugePages = 0 := by omega
      rw [reportLine_zero s sum h0, h0]
      simp
  have hfile : ∀ s ∈ files, ∀ sum, s.file.lines.zipIdx.foldlM (reportLine s.file) sum =
      ⟨(placed 0 s.vmas).flatMap (printedVma s (header s)),
        .ok (sum + (s.vmas.map fun v => (v.anonHugePages : Int)).sum)⟩ := by
    intro s hs sum
    rw [foldlM_file, foldlM_ok (hvma s hs), ← map_placed 0 s.vmas, List.map_map, map_placed]
    rfl
  rw [listHugepages, List.foldlM_map, foldlM_ok hfile, ok_bind, Int.zero_add]
  rfl

/-- A mapping that raises an exception ends the script with one. -/
theorem listHugepages_error {files : List Smaps} {s : Smaps} (hs : s ∈ files) {p : Vma × Nat}
    (hp : p ∈ placed 0 s.vmas) (h : ∀ sum, ∃ e, (turnVma s sum p).result = .error e) :
    ∃ e, (listHugepages (files.map Smaps.file)).result = .error e := by
  have hfile : ∀ sum, ∃ e, (s.file.lines.zipIdx.foldlM (reportLine s.file) sum).result =
      .error e := by
    intro sum
    rw [foldlM_file]
    exact foldlM_error hp h sum
  obtain ⟨e, he⟩ := foldlM_error
    (g := fun sum (s : Smaps) => s.file.lines.zipIdx.foldlM (reportLine s.file) sum) hs hfile 0
  rw [listHugepages, List.foldlM_map]
  exact ⟨e, bind_result_error he _⟩

theorem sumLine_vma {v : Vma} (hv : Text.occursIn needle v.header = false) (sum : Int) :
    v.lines.foldlM sumLine sum = ⟨[], .ok (sum + v.anonHugePages)⟩ := by
  obtain ⟨hbefore, hafter⟩ := Vma.skipped hv
  have hlines : v.lines = (v.header :: v.before) ++ v.hugeLine :: v.after := rfl
  rw [hlines, foldlM_one v.hugeLine (fun line hline => sumLine_skip (hbefore line hline))
    (fun line hline => sumLine_skip (hafter line hline)), sumLine, needle_hugeLine, if_pos rfl,
    number_hugeLine]
  rfl

/-- `get_sum` adds up the mappings. -/
theorem getSum_eq {files : List Smaps} (hclean : Clean files) :
    getSum (files.map Smaps.file) = ⟨[kB (total files)], .ok ()⟩ := by
  have hfile : ∀ s ∈ files, ∀ sum, s.file.lines.foldlM sumLine sum =
      ⟨[], .ok (sum + (s.vmas.map fun v => (v.anonHugePages : Int)).sum)⟩ := by
    intro s hs sum
    rw [Smaps.file, foldlM_flatMap, foldlM_ok (t := fun _ => [])
      (fun v hv sum => sumLine_vma (hclean s hs v hv) sum)]
    simp
  rw [getSum, List.foldlM_map, foldlM_ok hfile, ok_bind, Int.zero_add]
  simp [total, emit]

/-! ## When the reports are right -/

/-- Texts of fixed lengths are known by what they make together. -/
theorem eq_of_flatMap_eq {α β : Type} {f g : α → List β} {xs : List α}
    (hlen : ∀ x ∈ xs, (f x).length = (g x).length) (h : xs.flatMap f = xs.flatMap g) :
    ∀ x ∈ xs, f x = g x := by
  induction xs with
  | nil => simp
  | cons y xs ih =>
    rw [List.flatMap_cons, List.flatMap_cons] at h
    obtain ⟨hy, hrest⟩ := List.append_inj h (hlen y List.mem_cons_self)
    intro x hx
    rcases List.mem_cons.mp hx with rfl | hx
    · exact hy
    · exact ih (fun z hz => hlen z (List.mem_cons_of_mem y hz)) hrest x hx

theorem flatMap_expectedVma (s : Smaps) : s.vmas.flatMap (expectedVma s) =
    (placed 0 s.vmas).flatMap (printedVma s fun p => p.1.header) := by
  rw [← map_placed 0 s.vmas, List.flatMap_map, map_placed]
  rfl

theorem length_printedVma (s : Smaps) (header header' : Vma × Nat → Text) (p : Vma × Nat) :
    (printedVma s header p).length = (printedVma s header' p).length := by
  unfold printedVma
  split <;> rfl

/-- The header that is printed, where one is found. -/
def foundHeader (s : Smaps) (p : Vma × Nat) : Text := (found s p).toOption.getD []

/-- Without an exception no header has the needle in it. -/
theorem clean_of_ok {files : List Smaps}
    (hok : ∀ e, (listHugepages (files.map Smaps.file)).result ≠ .error e) : Clean files := by
  intro s hs v hv
  by_contra hdirty
  rw [Bool.not_eq_false] at hdirty
  rw [← map_placed 0 s.vmas] at hv
  obtain ⟨⟨w, k⟩, hp, rfl⟩ := List.mem_map.mp hv
  have hraise : ∀ sum, ∃ e, (turnVma s sum (w, k)).result = .error e := fun sum =>
    ⟨.valueError, by rw [turnVma_dirty s sum hdirty]; rfl⟩
  obtain ⟨e, he⟩ := listHugepages_error hs hp hraise
  exact hok e he

/-- Without an exception there is a line ten lines before. -/
theorem found_of_ok {files : List Smaps} (hclean : Clean files)
    (hok : ∀ e, (listHugepages (files.map Smaps.file)).result ≠ .error e) :
    ∀ s ∈ files, ∀ p ∈ placed 0 s.vmas, 0 < p.1.anonHugePages →
      found s p = .ok (foundHeader s p) := by
  intro s hs p hp hpos
  unfold foundHeader
  cases hfound : found s p with
  | ok header => rfl
  | error e =>
    have hraise : ∀ sum, ∃ e, (turnVma s sum p).result = .error e := by
      intro sum
      rw [turnVma_clean s sum (hclean s hs p.1 (mem_of_placed hp))]
      exact ⟨e, reportLine_error s sum hpos hfound⟩
    obtain ⟨e', he'⟩ := listHugepages_error hs hp hraise
    exact absurd he' (hok e')

/-- What right reports say about the files. -/
theorem Reports.behind {files : List Smaps} (h : Reports files) :
    Clean files ∧ ∀ s ∈ files, ∀ v k, (v, k) ∈ placed 0 s.vmas →
      0 < v.anonHugePages → Behind s v k := by
  have hok : ∀ e, (listHugepages (files.map Smaps.file)).result ≠ .error e := by
    intro e he
    rw [h.1] at he
    exact absurd he (by simp)
  have hclean := clean_of_ok hok
  have hfound := found_of_ok hclean hok
  refine ⟨hclean, fun s hs v k hp hpos => ?_⟩
  have htrace := h.1
  rw [listHugepages_eq hclean hfound] at htrace
  have hprinted := List.append_cancel_right (congrArg Script.trace htrace)
  simp only [flatMap_expectedVma] at hprinted
  -- file by file, and in a file mapping by mapping
  have hfile := eq_of_flatMap_eq (fun s _ => by
    simp only [List.length_flatMap, length_printedVma s (foundHeader s) fun p => p.1.header])
    hprinted s hs
  have hvma := eq_of_flatMap_eq (fun p _ => length_printedVma s _ _ p) hfile (v, k) hp
  unfold printedVma report at hvma
  rw [if_pos hpos, if_pos hpos, List.cons.injEq, List.cons.injEq, List.cons.injEq] at hvma
  have hheader : foundHeader s (v, k) = v.header := hvma.2.2.1
  rw [← getItem_header_iff s hp, ← hheader]
  exact hfound s hs (v, k) hp hpos

theorem reports_of_behind {files : List Smaps} (hclean : Clean files)
    (hbehind : ∀ s ∈ files, ∀ v k, (v, k) ∈ placed 0 s.vmas →
      0 < v.anonHugePages → Behind s v k) : Reports files := by
  refine ⟨?_, getSum_eq hclean⟩
  have hfound : ∀ s ∈ files, ∀ p ∈ placed 0 s.vmas, 0 < p.1.anonHugePages →
      found s p = .ok ((fun _ p => p.1.header : Smaps → Vma × Nat → Text) s p) := by
    intro s hs p hp hpos
    exact (getItem_header_iff s hp).mpr (hbehind s hs p.1 p.2 hp hpos)
  rw [listHugepages_eq hclean hfound]
  simp only [flatMap_expectedVma]

/-- The reports are right exactly where no header has the needle in it, and each mapping with huge
    pages has its header ten lines before. -/
theorem reports_iff_behind (files : List Smaps) : Reports files ↔
    (∀ s ∈ files, ∀ v ∈ s.vmas, Text.occursIn needle v.header = false) ∧
      ∀ s ∈ files, ∀ v k, (v, k) ∈ placed 0 s.vmas → 0 < v.anonHugePages → Behind s v k :=
  ⟨Reports.behind, fun h => reports_of_behind h.1 h.2⟩

/-- The attributes that stand before the huge pages since `LazyFree` is one of them. -/
def lazyFreeAttributes : List Text :=
  ["Size:", "KernelPageSize:", "MMUPageSize:", "Rss:", "Pss:", "Shared_Clean:", "Shared_Dirty:",
    "Private_Clean:", "Private_Dirty:", "Referenced:", "Anonymous:", "LazyFree:"].map
      fun name => name.toList ++ " 2048 kB\n".toList

theorem lazyFreeAttributes_ok : ∀ line ∈ lazyFreeAttributes ++ [], IsAttribute line := by
  have hall : (lazyFreeAttributes ++ []).all (fun line =>
      line.head?.any Char.isUpper && !Text.occursIn needle line) = true := by decide
  intro line hline
  have := List.all_eq_true.mp hall line hline
  rw [Bool.and_eq_true, Bool.not_eq_true'] at this
  exact ⟨this.1, this.2⟩

def heapVma : Vma where
  start := 0x7f0000000000
  stop := 0x7f0000200000
  perms := ⟨true, true, false, false⟩
  rest := "00000000 00:00 0 \n".toList
  before := lazyFreeAttributes
  blanks := 6
  anonHugePages := 2048
  after := []
  attributes := lazyFreeAttributes_ok

def heapSmaps : Smaps := ⟨"/proc/1/smaps".toList, "init".toList, [heapVma], List.nodup_singleton _⟩

/-- With twelve attributes before the huge pages the header is out of reach. -/
theorem reports_lazyFree : ¬ ∀ files, Reports files := by
  intro h
  have hbehind := (h [heapSmaps]).behind.2 heapSmaps List.mem_cons_self heapVma 0
    List.mem_cons_self (by decide)
  rcases hbehind with hten | ⟨hlt, -⟩
  · exact absurd hten (by decide)
  · exact absurd hlt (by decide)

end LinuxSummary.Memory
