/-
  What the tool `user.c` shows of a task's memory.

  The tool asks the driver and prints from the mapped page: `a` the arguments as a string, `d`
  each byte of the data segment as `0x%x` of a `char`, `b` and `B` each byte of a region,
  its last one included, as `0x%x ` or as it is.

  `shows_iff`: what is printed is the task's memory exactly when the bytes that lie physically
  behind the first page are those that the task has behind it, and for `d` none of them is
  negative as a `char`. `a` shows a byte too many.
-/
import LinuxSummary.Zpage.Errors

namespace LinuxSummary.Zpage

open CInt ForLoop

/-! ## The tool -/

/-- The commands of `main` that show memory of a task. -/
inductive ToolCommand
  | a (pid : Int)
  | d (pid : Int)
  | b (addrRegion : AddrRegion)
  | B (addrRegion : AddrRegion)

/-- What one `fprintf` prints: `%s`, `0x%x` or `%c`. -/
inductive Printed
  | str (bytes : List UInt8)
  | hex (text : Text)
  | chr (byte : UInt8)
deriving DecidableEq

/-- The request of a command; the pid is passed as `(long)pid`. -/
def ToolCommand.request : ToolCommand → Request
  | .a pid => .ZPAGE_GET_PID_ARGS (UInt64.ofInt pid)
  | .d pid => .ZPAGE_GET_PID_DATA (UInt64.ofInt pid)
  | .b addrRegion => .ZPAGE_GET_ADDR_REGION (some addrRegion)
  | .B addrRegion => .ZPAGE_GET_ADDR_REGION (some addrRegion)

/-- The `unsigned int` that `%x` prints for a `char`. -/
def charAsUnsigned (b : UInt8) : Nat := if b.toNat < 128 then b.toNat else 2 ^ 32 - 256 + b.toNat

/-- The first bytes of the buffer. -/
def onPage (k : Kern) (n : Nat) : List UInt8 := (List.range n).map fun i : Nat => k.buf i

/-- The string at the start of the mapped page. -/
def pageString (k : Kern) : List UInt8 := (onPage k MMAP_LEN).takeWhile (· ≠ 0)

/-- What a command prints behind a call that returned `ret`, the last newline aside. -/
def ToolCommand.print (ret : Int) (k : Kern) : ToolCommand → List Printed
  | .a _ => [.str (pageString k)]
  | .d _ => (onPage k ret.toNat).map fun b =>
      .hex ("0x".toList ++ Printf.hex (charAsUnsigned b))
  | .b _ => (onPage k (ret + 1).toNat).map fun b => .hex (argText b)
  | .B _ => (onPage k (ret + 1).toNat).map .chr

/-- A command of the tool: the returned count and what is printed, unless it ends with an error
    or does not come back. -/
def runTool (fuel : Nat) (tasks : Tasks) (ram : Int → Option UInt8) (buf : Int → UInt8)
    (c : ToolCommand) : Option (Int × List Printed) :=
  match myIoctl fuel tasks ram buf c.request with
  | (.ret r, k) => if -4095 ≤ r ∧ r < 0 then none else some (r, c.print r k)
  | _ => none

/-! ## The task's own memory -/

/-- The byte that the task has at an address. -/
def virtualByte (mm : Mm) (ram : Int → Option UInt8) (addr : UInt64) : Option UInt8 :=
  (hardwareFrame mm addr).bind fun frame => ram (physical frame addr)

/-- The task that a command is about. -/
def ToolCommand.nr : ToolCommand → Nat
  | .a pid => (UInt64.ofInt pid).toNat
  | .d pid => (UInt64.ofInt pid).toNat
  | .b addrRegion => addrRegion.pid.toNat
  | .B addrRegion => addrRegion.pid.toNat

/-- The first address of what a command shows. -/
def ToolCommand.start (mm : Mm) : ToolCommand → UInt64
  | .a _ => mm.argStart
  | .d _ => mm.startData
  | .b addrRegion => addrRegion.startAddr
  | .B addrRegion => addrRegion.startAddr

/-- The address where what a command shows ends: excluded by `a` and `d`, included by `b` and
    `B`. -/
def ToolCommand.stop (mm : Mm) : ToolCommand → UInt64
  | .a _ => mm.argEnd
  | .d _ => mm.endData
  | .b addrRegion => addrRegion.endAddr
  | .B addrRegion => addrRegion.endAddr

/-- How many bytes a command is to show. -/
def ToolCommand.count (mm : Mm) (c : ToolCommand) : Nat :=
  let length := (c.stop mm - c.start mm).toNat
  match c with
  | .a _ => length
  | .d _ => length
  | .b _ => length + 1
  | .B _ => length + 1

/-- The task's bytes in the way the command shows bytes. -/
def ToolCommand.expected (mm : Mm) (v : Nat → UInt8) (c : ToolCommand) : List Printed :=
  let bytes := (List.range (c.count mm)).map v
  match c with
  | .a _ => [.str (ascii (bytes.map argText).flatten)]
  | .d _ => bytes.map fun b => .hex ("0x".toList ++ Printf.hex b.toNat)
  | .b _ => bytes.map fun b => .hex (argText b)
  | .B _ => bytes.map .chr

/-- What is to be shown fits into the buffer. -/
def ToolCommand.Fits (mm : Mm) (v : Nat → UInt8) (c : ToolCommand) : Prop :=
  match c with
  | .a _ => totalLength (((List.range (c.count mm)).map v).map argText) < MMAP_LEN
  | _ => c.count mm ≤ MMAP_LEN

/-- The returned count is the number of characters of the string, the number of the bytes, or
    the index of the last byte. -/
def ToolCommand.CountAgrees (ret : Int) (printed : List Printed) : ToolCommand → Prop
  | .a _ => ∃ bytes, printed = [.str bytes] ∧ ret = bytes.length
  | .d _ => ret = printed.length
  | .b _ => ret + 1 = printed.length
  | .B _ => ret + 1 = printed.length

/-- The command comes back, shows the task's bytes, and got the right count. -/
def Shows (tasks : Tasks) (ram : Int → Option UInt8) (buf : Int → UInt8) (mm : Mm)
    (v : Nat → UInt8) (c : ToolCommand) : Prop :=
  ∃ fuel ret printed, runTool fuel tasks ram buf c = some (ret, printed) ∧
    printed = c.expected mm v ∧ c.CountAgrees ret printed

/-- The bytes that lie physically behind the first one are those that the task has behind it. -/
def Contiguous (ram : Int → Option UInt8) (mm : Mm) (v : Nat → UInt8) (c : ToolCommand) : Prop :=
  ∃ page, walkTaskPage mm (c.start mm) = some page ∧
    ∀ i : Nat, i < c.count mm → ram (physical page (c.start mm) + i) = some (v i)

/-- Byte `i` of what a command is to show, as the task has it. -/
def ToolCommand.byte? (ram : Int → Option UInt8) (mm : Mm) (c : ToolCommand) (i : Nat) :
    Option UInt8 :=
  virtualByte mm ram (c.start mm + UInt64.ofNat i)

def ToolCommand.byte (ram : Int → Option UInt8) (mm : Mm) (c : ToolCommand) (i : Nat) : UInt8 :=
  (c.byte? ram mm i).getD 0

/-- The walk finds the first page, and physically behind the first byte are the bytes that the
    task has behind it. -/
def FramesAgree (ram : Int → Option UInt8) (mm : Mm) (c : ToolCommand) : Prop :=
  ∃ page, walkTaskPage mm (c.start mm) = some page ∧
    ∀ i : Nat, i < c.count mm → ram (physical page (c.start mm) + i) = c.byte? ram mm i

/-- The condition under which a command shows the task's memory. -/
def Faithful (ram : Int → Option UInt8) (mm : Mm) (c : ToolCommand) : Prop :=
  match c with
  | .a _ => False
  | .d _ => FramesAgree ram mm c ∧ ∀ i : Nat, i < c.count mm → (c.byte ram mm i).toNat < 128
  | .b _ => FramesAgree ram mm c
  | .B _ => FramesAgree ram mm c

/-! ## The copied bytes -/

theorem buf_copied (ram : Int → Option UInt8) (p : Int) (k : Kern) {n i : Nat} (hn : n ≤ MMAP_LEN)
    (hi : i < n) : (copied ram p k n).buf i = byteAt ram p i := by
  have hmmap : MMAP_LEN = 4096 := rfl
  induction n with
  | zero => exact absurd hi (Nat.not_lt_zero i)
  | succ n ih =>
    have hint : int32 n = n := int32_of_range (by omega) (by omega)
    unfold copied Kern.store
    dsimp only
    rw [hint]
    by_cases heq : i = n
    · rw [heq, Function.update_self]
    · rw [Function.update_of_ne (by omega)]
      exact ih (by omega) (by omega)

theorem onPage_copied (ram : Int → Option UInt8) (p : Int) (k : Kern) {n : Nat}
    (hn : n ≤ MMAP_LEN) :
    onPage (copied ram p k n) n = (List.range n).map (byteAt ram p) := by
  unfold onPage
  exact List.map_congr_left fun i hi => buf_copied ram p k hn (List.mem_range.mp hi)

/-- A loop for a known number of bytes returns exactly when they are all there, and has copied
    them. -/
theorem copyLoop_returns_iff {cond : Int → Bool} {p r : Int} {k : Kern} {n : Nat}
    (hn : n ≤ MMAP_LEN) (hcond : ∀ j : Nat, cond j = decide (j < n)) (r' : Int) (k' : Kern) :
    (∃ fuel, copyLoop cond p r fuel k = (.ret r', k')) ↔
      r' = r ∧ k' = copied k.ram p k n ∧ ∀ j : Nat, j < n → (k.ram (p + j)).isSome := by
  have hmmap : MMAP_LEN = 4096 := rfl
  have hint : ∀ j : Nat, j ≤ n → int32 j = j := fun j hj => int32_of_range (by omega) (by omega)
  constructor
  · intro h
    obtain ⟨fuel, hret⟩ := h
    have hstands := copyLoop_stands cond p fuel k
    unfold copyLoop at hret
    cases hl : forLoop cond (copyBody k.ram p) fuel k with
    | ended s =>
      rw [hl] at hret hstands
      obtain ⟨m, ⟨rfl, hturns⟩, hlast⟩ := hstands
      obtain ⟨hr, rfl⟩ := Prod.mk.inj hret
      have hreads := (turns_copy k m).mp hturns
      have hle : m ≤ n := by
        by_contra hgt
        have hgo := (hreads n (by omega)).1
        rw [hint n le_rfl, hcond] at hgo
        exact absurd (of_decide_eq_true hgo) (lt_irrefl n)
      rw [hint m hle, hcond] at hlast
      have hge := of_decide_eq_false hlast
      obtain rfl : m = n := by omega
      refine ⟨(Outcome.ret.inj hr).symm, rfl, fun j hj => ?_⟩
      have := (hreads j hj).2
      rwa [hint j hj.le] at this
    | fault s =>
      rw [hl] at hret
      exact absurd hret (by simp)
    | running s =>
      rw [hl] at hret
      exact absurd hret (by simp)
  · intro h
    obtain ⟨rfl, rfl, hall⟩ := h
    have hreads : Reads cond k.ram p n := by
      intro j hj
      rw [hint j hj.le, hcond]
      exact ⟨decide_eq_true hj, hall j hj⟩
    have hlast : cond (int32 n) = false := by
      rw [hint n le_rfl, hcond]
      exact decide_eq_false (lt_irrefl n)
    refine ⟨n + 0, ?_⟩
    unfold copyLoop
    have hloop := forLoop_ends ((turns_copy k n).mpr hreads) hlast 0
    rw [copied] at hloop
    rw [hloop]

theorem runTool_eq_some {fuel : Nat} {tasks : Tasks} {ram : Int → Option UInt8}
    {buf : Int → UInt8} {c : ToolCommand} {ret : Int} {printed : List Printed} :
    runTool fuel tasks ram buf c = some (ret, printed) ↔
      ∃ k, myIoctl fuel tasks ram buf c.request = (.ret ret, k) ∧ ¬ (-4095 ≤ ret ∧ ret < 0) ∧
        printed = c.print ret k := by
  unfold runTool
  split
  · next r k hret =>
    rw [hret]
    constructor
    · intro h
      split at h
      · exact absurd h (by simp)
      · next hok =>
        obtain ⟨rfl, rfl⟩ := Prod.mk.inj (Option.some.inj h)
        exact ⟨k, rfl, hok, rfl⟩
    · intro h
      obtain ⟨k', h, hok, rfl⟩ := h
      obtain ⟨hr, rfl⟩ := Prod.mk.inj h
      obtain rfl := Outcome.ret.inj hr
      rw [if_neg hok]
  · next hno =>
    refine iff_of_false (by simp) ?_
    intro h
    obtain ⟨k, hret, -⟩ := h
    exact hno ret k hret

section
variable {tasks : Tasks} {ram : Int → Option UInt8} {buf : Int → UInt8} {mm : Mm}
  {v : Nat → UInt8} {c : ToolCommand}

/-- A command that is served by a copy loop. -/
theorem shows_copy {cond : Int → Bool} {p r : Int} {n : Nat}
    (hio : ∀ fuel, myIoctl fuel tasks ram buf c.request = copyLoop cond p r fuel (idle ram buf))
    (hn : n ≤ MMAP_LEN) (hcond : ∀ j : Nat, cond j = decide (j < n)) (hr : 0 ≤ r) :
    Shows tasks ram buf mm v c ↔
      (∀ j : Nat, j < n → (ram (p + j)).isSome) ∧
        c.print r (copied ram p (idle ram buf) n) = c.expected mm v ∧
        c.CountAgrees r (c.expected mm v) := by
  have hreturns := copyLoop_returns_iff (p := p) (r := r) (k := idle ram buf) hn hcond
  unfold Shows
  constructor
  · intro h
    obtain ⟨fuel, ret, printed, hrun, rfl, hcount⟩ := h
    obtain ⟨k, hret, -, hprint⟩ := runTool_eq_some.mp hrun
    rw [hio] at hret
    obtain ⟨rfl, rfl, hall⟩ := (hreturns ret k).mp ⟨fuel, hret⟩
    exact ⟨hall, hprint.symm, hcount⟩
  · intro h
    obtain ⟨hall, hprint, hcount⟩ := h
    obtain ⟨fuel, hret⟩ := (hreturns r _).mpr ⟨rfl, rfl, hall⟩
    refine ⟨fuel, r, _, runTool_eq_some.mpr ⟨_, (hio fuel).trans hret, by omega, rfl⟩, hprint, ?_⟩
    show c.CountAgrees r (c.print r (copied ram p (idle ram buf) n))
    rw [hprint]
    exact hcount

/-- The bytes of the loop and those of the task, shown byte by byte. -/
theorem shown_eq_iff {p : Int} {n : Nat} (hn : n ≤ MMAP_LEN) {k : Kern} (f g : UInt8 → Printed) :
    ((∀ j : Nat, j < n → (ram (p + j)).isSome) ∧
      (onPage (copied ram p k n) n).map f = ((List.range n).map v).map g) ↔
      ∀ j : Nat, j < n → ∃ b, ram (p + j) = some b ∧ f b = g (v j) := by
  have hmmap : MMAP_LEN = 4096 := rfl
  have hbyte : ∀ {j : Nat} {b : UInt8}, j < n → ram (p + j) = some b → byteAt ram p j = b := by
    intro j b hj hb
    unfold byteAt
    rw [int32_of_range (by omega) (by omega), hb, Option.getD_some]
  rw [onPage_copied ram p k hn, List.map_map, List.map_map, List.map_inj_left]
  simp only [List.mem_range, Function.comp_apply]
  constructor
  · rintro ⟨hall, heq⟩ j hj
    obtain ⟨b, hb⟩ := Option.isSome_iff_exists.mp (hall j hj)
    exact ⟨b, hb, by rw [← heq j hj, hbyte hj hb]⟩
  · intro h
    refine ⟨fun j hj => ?_, fun j hj => ?_⟩
    · obtain ⟨b, hb, -⟩ := h j hj
      rw [hb]
      rfl
    · obtain ⟨b, hb, heq⟩ := h j hj
      rw [hbyte hj hb, heq]

/-! ## What a byte looks like -/

theorem hex_injective : Function.Injective Printf.hex :=
  Numeral.toDigits_injective (by decide) (by decide)

theorem argText_injective : Function.Injective argText := by
  intro b b' h
  unfold argText at h
  have hhex := List.append_cancel_left (List.append_cancel_right h)
  exact UInt8.toNat_inj.mp (hex_injective hhex)

/-- A `char` is shown as the byte it is exactly when it is not negative. -/
theorem hex_char_eq_iff (b b' : UInt8) :
    Printed.hex ("0x".toList ++ Printf.hex (charAsUnsigned b)) =
      .hex ("0x".toList ++ Printf.hex b'.toNat) ↔ b = b' ∧ b'.toNat < 128 := by
  have hlt := b'.toNat_lt
  constructor
  · intro h
    have hnum := hex_injective (List.append_cancel_left (Printed.hex.inj h))
    unfold charAsUnsigned at hnum
    split at hnum
    · next hpos =>
      obtain rfl := UInt8.toNat_inj.mp hnum
      exact ⟨rfl, hpos⟩
    · omega
  · intro h
    obtain ⟨rfl, hpos⟩ := h
    unfold charAsUnsigned
    rw [if_pos hpos]

/-! ## The text of the arguments -/

theorem onPage_succ (k : Kern) (n : Nat) : onPage k (n + 1) = onPage k n ++ [k.buf n] := by
  unfold onPage
  rw [List.range_succ, List.map_append, List.map_singleton]

theorem onPage_store (k : Kern) (n : Nat) (b : UInt8) :
    onPage (k.store n b) (n + 1) = onPage k n ++ [b] := by
  have hself : (k.store n b).buf n = b := Function.update_self _ _ _
  have hrest : onPage (k.store n b) n = onPage k n := by
    unfold onPage Kern.store
    refine List.map_congr_left fun i hi => Function.update_of_ne ?_ _ _
    have := List.mem_range.mp hi
    omega
  rw [onPage_succ, hself, hrest]

theorem onPage_storeAll (k : Kern) (n : Nat) (bs : List UInt8) :
    onPage (k.storeAll n bs) (n + bs.length) = onPage k n ++ bs := by
  induction bs generalizing k n with
  | nil => exact (List.append_nil _).symm
  | cons b bs ih =>
    have hnext := ih (k.store n b) (n + 1)
    rw [onPage_store, List.append_assoc, Nat.add_assoc, Nat.add_comm 1] at hnext
    exact hnext

theorem onPage_take {m n : Nat} (h : m ≤ n) (k : Kern) : (onPage k n).take m = onPage k m := by
  unfold onPage
  rw [← List.map_take, List.take_range, min_eq_left h]

/-- A text that fits is put behind what the page has. -/
theorem onPage_printOn {total : Nat} {st : Kern × Int} (h : Acc total st) {text : Text}
    (hfit : total + text.length < MMAP_LEN) :
    onPage (printOn st text).1 (total + text.length) = onPage st.1 total ++ ascii text := by
  have hmmap : MMAP_LEN = 4096 := rfl
  have hr := h.fits (by omega)
  have hsize : u64 (int32 (MMAP_LEN - st.2)) = MMAP_LEN - total := by
    rw [int32_of_range (by omega) (by omega), hr]
    unfold u64
    omega
  have hwhole : text.take (MMAP_LEN - total - 1) = text := List.take_of_length_le (by omega)
  have hdone : (printOn st text).1 = st.1.storeAll total (ascii text ++ [0]) := by
    unfold printOn snprintf
    dsimp only
    rw [hsize, if_neg (by unfold INT_MAX; omega), if_neg (by omega), hwhole, hr]
  have hlen : (ascii text).length = text.length := List.length_map _
  have hall := onPage_storeAll st.1 total (ascii text ++ [0])
  rw [List.length_append, hlen, List.length_singleton] at hall
  rw [hdone, ← onPage_take (show total + text.length ≤ total + (text.length + 1) by omega), hall,
    ← List.append_assoc, List.take_left']
  rw [List.length_append, hlen, onPage, List.length_map, List.length_range]

theorem ascii_append (s t : Text) : ascii (s ++ t) = ascii s ++ ascii t := List.map_append

/-- The texts stand one behind the other, as long as they fit. -/
theorem onPage_foldl {total : Nat} {st : Kern × Int} (h : Acc total st) {texts : List Text}
    (hlen : ∀ text ∈ texts, text.length ≤ LINE_MAX) (hfit : total + totalLength texts < MMAP_LEN) :
    onPage (texts.foldl printOn st).1 (total + totalLength texts) =
      onPage st.1 total ++ ascii texts.flatten := by
  induction texts generalizing total st with
  | nil => exact (List.append_nil _).symm
  | cons text texts ih =>
    have hsum : totalLength (text :: texts) = text.length + totalLength texts := rfl
    rw [hsum] at hfit ⊢
    have hacc := acc_printOn h (hlen text List.mem_cons_self)
    have hrest := ih hacc (fun t ht => hlen t (List.mem_cons_of_mem _ ht)) (by omega)
    rw [onPage_printOn h (by omega), Nat.add_assoc] at hrest
    rw [List.foldl_cons, hrest, List.flatten_cons, ascii_append, List.append_assoc]

/-- The string on the page, once it is terminated. -/
theorem pageString_of {k : Kern} {bytes : List UInt8} (h0 : (0 : UInt8) ∉ bytes)
    (hlen : bytes.length < MMAP_LEN) (hpage : onPage k (bytes.length + 1) = bytes ++ [0]) :
    pageString k = bytes := by
  have hsplit := List.take_append_drop (bytes.length + 1) (onPage k MMAP_LEN)
  rw [onPage_take (by omega), hpage] at hsplit
  unfold pageString
  rw [← hsplit, List.append_assoc, List.takeWhile_append_of_pos, List.singleton_append,
    List.takeWhile_cons_of_neg (by simp), List.append_nil]
  intro b hb
  exact decide_eq_true fun heq => h0 (heq ▸ hb)

/-- The bytes of a digit. -/
theorem byte_digit {n : Nat} {c : Char} (hc : c ∈ Printf.hex n) :
    UInt8.ofNat c.toNat ≠ 0 ∧ UInt8.ofNat c.toNat ≠ 32 := by
  obtain ⟨d, hd⟩ := Printf.digit_of_mem_hex hc
  have hrange := Numeral.digitVal_range hd
  have hval : (UInt8.ofNat c.toNat).toNat = c.toNat :=
    UInt8.toNat_ofNat_of_lt' (show c.toNat < 256 by omega)
  constructor
  · intro heq
    rw [heq] at hval
    have : (0 : UInt8).toNat = 0 := rfl
    omega
  · intro heq
    rw [heq] at hval
    have : (32 : UInt8).toNat = 32 := rfl
    omega

theorem ascii_argText (b : UInt8) :
    ascii (argText b) = [48, 120] ++ ascii (Printf.hex b.toNat) ++ [32] := by
  unfold argText
  rw [ascii_append, ascii_append]
  rfl

/-- The text of a byte has one blank and no NUL. -/
theorem argText_blank (b : UInt8) :
    (ascii (argText b)).count 32 = 1 ∧ (0 : UInt8) ∉ ascii (argText b) := by
  have hdigits : ∀ x ∈ ascii (Printf.hex b.toNat), x ≠ 0 ∧ x ≠ 32 := by
    intro x hx
    obtain ⟨c, hc, rfl⟩ := List.mem_map.mp hx
    exact byte_digit hc
  rw [ascii_argText]
  constructor
  · rw [List.count_append, List.count_append,
      List.count_eq_zero.mpr fun hmem => (hdigits 32 hmem).2 rfl]
    rfl
  · rw [List.mem_append, List.mem_append]
    intro h
    rcases h with (h | h) | h
    · exact absurd h (by decide)
    · exact (hdigits 0 h).1 rfl
    · exact absurd h (by decide)

theorem texts_blanks (bytes : List UInt8) :
    (ascii (bytes.map argText).flatten).count 32 = bytes.length ∧
      (0 : UInt8) ∉ ascii (bytes.map argText).flatten := by
  induction bytes with
  | nil => exact ⟨rfl, List.not_mem_nil⟩
  | cons b bytes ih =>
    obtain ⟨hone, hno⟩ := argText_blank b
    rw [List.map_cons, List.flatten_cons, ascii_append, List.count_append, hone, ih.1,
      List.length_cons, List.mem_append]
    exact ⟨Nat.add_comm _ _, fun h => h.elim hno ih.2⟩

/-! ## The data segment and the regions -/

theorem not_shows_oops (h : ∀ fuel, ∃ k, myIoctl fuel tasks ram buf c.request = (.oops, k)) :
    ¬ Shows tasks ram buf mm v c := by
  intro h
  obtain ⟨fuel, ret, printed, hrun, -⟩ := h
  obtain ⟨k, hret, -⟩ := runTool_eq_some.mp hrun
  obtain ⟨k', hoops⟩ := h fuel
  exact absurd (hoops.symm.trans hret) (by simp)

/-- A command that prints each copied byte by `f`, where `g` is expected. -/
theorem shows_bytes {cond : Int → Bool} {p r : Int} {f g : UInt8 → Printed}
    (hio : ∀ fuel, myIoctl fuel tasks ram buf c.request = copyLoop cond p r fuel (idle ram buf))
    (hn : c.count mm ≤ MMAP_LEN) (hcond : ∀ j : Nat, cond j = decide (j < c.count mm))
    (hr : 0 ≤ r) (hprint : ∀ k, c.print r k = (onPage k (c.count mm)).map f)
    (hexp : c.expected mm v = ((List.range (c.count mm)).map v).map g)
    (hcount : ∀ l : List Printed, l.length = c.count mm → c.CountAgrees r l) :
    Shows tasks ram buf mm v c ↔
      ∀ j : Nat, j < c.count mm → ∃ b, ram (p + j) = some b ∧ f b = g (v j) := by
  rw [shows_copy hio hn hcond hr, hprint, hexp, ← shown_eq_iff hn f g]
  have hlen := hcount (((List.range (c.count mm)).map v).map g) (by simp)
  rw [and_iff_left hlen]

theorem contiguous_iff {page : Nat} (hpage : walkTaskPage mm (c.start mm) = some page) :
    Contiguous ram mm v c ↔
      ∀ j : Nat, j < c.count mm → ram (physical page (c.start mm) + j) = some (v j) := by
  unfold Contiguous
  rw [hpage]
  simp only [Option.some.injEq, exists_eq_left']

theorem not_contiguous (hpage : walkTaskPage mm (c.start mm) = none) :
    ¬ Contiguous ram mm v c := by
  intro h
  obtain ⟨page, hsome, -⟩ := h
  exact absurd (hpage.symm.trans hsome) (by simp)

theorem shows_d_iff {pid : Int} (hmm : mmOf tasks (UInt64.ofInt pid).toNat = some mm)
    (hfit : (ToolCommand.d pid).Fits mm v) :
    Shows tasks ram buf mm v (.d pid) ↔ Contiguous ram mm v (.d pid) ∧
      ∀ i : Nat, i < (ToolCommand.d pid).count mm → (v i).toNat < 128 := by
  have hn : (ToolCommand.d pid).count mm ≤ MMAP_LEN := hfit
  have hmmap : MMAP_LEN = 4096 := rfl
  have hr : int32 (mm.endData - mm.startData).toNat = (ToolCommand.d pid).count mm :=
    int32_of_range (by omega) (by show ((ToolCommand.d pid).count mm : Int) < _; omega)
  have hio : ∀ fuel, myIoctl fuel tasks ram buf (ToolCommand.d pid).request =
      taskGetData fuel mm (idle ram buf) := by
    intro fuel
    show withMm _ _ _ = _
    rw [withMm_pidTask, hmm]
  unfold taskGetData at hio
  cases hpage : walkTaskPage mm mm.startData with
  | none =>
    simp only [hpage] at hio
    have hnone : walkTaskPage mm ((ToolCommand.d pid).start mm) = none := hpage
    refine iff_of_false (not_shows_oops fun fuel => ⟨_, hio fuel⟩) fun h => ?_
    exact not_contiguous hnone h.1
  | some page =>
    simp only [hpage, hr] at hio
    have hcount : ∀ l : List Printed, l.length = (ToolCommand.d pid).count mm →
        (ToolCommand.d pid).CountAgrees ((ToolCommand.d pid).count mm) l :=
      fun l hl => congrArg Nat.cast hl.symm
    rw [shows_bytes (f := fun b => .hex ("0x".toList ++ Printf.hex (charAsUnsigned b)))
      (g := fun b => .hex ("0x".toList ++ Printf.hex b.toNat)) hio hn
      (fun j => decide_eq_decide.mpr Int.ofNat_lt) (Int.natCast_nonneg _) (fun _ => rfl) rfl hcount]
    have hcont : Contiguous ram mm v (.d pid) ↔ _ := contiguous_iff hpage
    rw [hcont, ← forall₂_and]
    refine forall₂_congr fun j _ => ?_
    simp only [hex_char_eq_iff]
    constructor
    · intro h
      obtain ⟨b, hb, rfl, hpos⟩ := h
      exact ⟨hb, hpos⟩
    · intro h
      obtain ⟨hb, hpos⟩ := h
      exact ⟨v j, hb, rfl, hpos⟩

/-- A command that shows each byte of a region by `f`. -/
theorem shows_region_iff {r : AddrRegion} {f : UInt8 → Printed} (hinj : Function.Injective f)
    (hmm : mmOf tasks r.pid.toNat = some mm) (hn : c.count mm ≤ MMAP_LEN)
    (hreq : c.request = .ZPAGE_GET_ADDR_REGION (some r)) (hstart : c.start mm = r.startAddr)
    (hlen : c.count mm = (r.endAddr - r.startAddr).toNat + 1)
    (hprint : ∀ ret k, c.print ret k = (onPage k (ret + 1).toNat).map f)
    (hexp : c.expected mm v = ((List.range (c.count mm)).map v).map f)
    (hcount : ∀ ret l, c.CountAgrees ret l ↔ ret + 1 = (l.length : Int)) :
    Shows tasks ram buf mm v c ↔ Contiguous ram mm v c := by
  have hmmap : MMAP_LEN = 4096 := rfl
  have hr : int32 (r.endAddr - r.startAddr).toNat = (r.endAddr - r.startAddr).toNat :=
    int32_of_range (by omega) (by omega)
  have hio : ∀ fuel, myIoctl fuel tasks ram buf c.request =
      taskGetAddrRegion fuel mm r.startAddr r.endAddr (idle ram buf) := by
    intro fuel
    rw [hreq]
    show withMm _ _ _ = _
    rw [withMm_pidTask, hmm]
  unfold taskGetAddrRegion at hio
  cases hpage : walkTaskPage mm r.startAddr with
  | none =>
    simp only [hpage] at hio
    rw [← hstart] at hpage
    exact iff_of_false (not_shows_oops fun fuel => ⟨_, hio fuel⟩) (not_contiguous hpage)
  | some page =>
    simp only [hpage, hr] at hio
    have hcond : ∀ j : Nat, decide ((j : Int) ≤ ((r.endAddr - r.startAddr).toNat : Nat)) =
        decide (j < c.count mm) := fun j => decide_eq_decide.mpr (by omega)
    have hto : (((r.endAddr - r.startAddr).toNat : Int) + 1).toNat = c.count mm := by omega
    rw [shows_bytes hio hn hcond (Int.natCast_nonneg _) (fun k => by rw [hprint, hto]) hexp
      (fun l hl => by rw [hcount, hl, hlen]; rfl)]
    rw [← hstart] at hpage
    rw [contiguous_iff hpage, hstart]
    refine forall₂_congr fun j _ => ?_
    constructor
    · intro h
      obtain ⟨b, hb, heq⟩ := h
      rw [hb, hinj heq]
    · intro hb
      exact ⟨v j, hb, rfl⟩

/-! ## The arguments -/

/-- The loop does not end before the byte behind the arguments. -/
theorem args_turns {n : Nat} (hfit : (mm.argEnd - mm.argStart).toNat < 2 ^ 31)
    (hlast : argsCond mm (int32 n) = false) : (mm.argEnd - mm.argStart).toNat < n := by
  by_contra hle
  have hint : int32 n = n := int32_of_range (by omega) (by omega)
  rw [argsCond, hint, u64_of_nat (by omega)] at hlast
  exact absurd (of_decide_eq_false hlast) (by omega)

theorem argTexts_eq (p : Int) (n : Nat) :
    argTexts ram p n = ((List.range n).map (byteAt ram p)).map argText := by
  rw [List.map_map]
  rfl

theorem length_ascii_flatten (texts : List Text) :
    (ascii texts.flatten).length = totalLength texts := by
  unfold ascii totalLength
  rw [List.length_map, List.length_flatten]

/-- What `a` prints, where the driver has come to the end of its loop. -/
theorem pageString_args {k : Kern} (hk : InBounds k) (p : Int) (n : Nat)
    (hfit : totalLength (argTexts k.ram p n) < MMAP_LEN) :
    pageString (terminate (argsState k.ram p k n)) =
      ascii (argTexts k.ram p n).flatten := by
  have hlen : ∀ text ∈ argTexts k.ram p n, text.length ≤ LINE_MAX := by
    intro text htext
    obtain ⟨j, -, rfl⟩ := List.mem_map.mp htext
    exact argText_le _
  have htext := onPage_foldl (acc_zero hk) hlen (by omega)
  have htotal := length_ascii_flatten (argTexts k.ram p n)
  have hr := (acc_args k.ram p hk n).fits hfit.le
  refine pageString_of ?_ (by omega) ?_
  · rw [argTexts_eq]
    exact (texts_blanks _).2
  · unfold terminate
    rw [hr, htotal, onPage_store]
    rw [Nat.zero_add] at htext
    exact congrArg (· ++ [0]) htext

/-- `a` shows at least one byte too many. -/
theorem not_shows_a {pid : Int} (hmm : mmOf tasks (UInt64.ofInt pid).toNat = some mm)
    (hfit : (ToolCommand.a pid).Fits mm v) : ¬ Shows tasks ram buf mm v (.a pid) := by
  have hmmap : MMAP_LEN = 4096 := rfl
  intro h
  obtain ⟨fuel, ret, printed, hrun, rfl, hcount⟩ := h
  obtain ⟨k', hret, -, hprint⟩ := runTool_eq_some.mp hrun
  -- the string that is expected, with a blank for each byte
  obtain ⟨bytes, hbytes⟩ : ∃ bytes, bytes = (List.range ((ToolCommand.a pid).count mm)).map v :=
    ⟨_, rfl⟩
  have hexp : (ToolCommand.a pid).expected mm v = [.str (ascii (bytes.map argText).flatten)] := by
    rw [hbytes]
    rfl
  have hroom : totalLength (bytes.map argText) < MMAP_LEN := by
    rw [hbytes]
    exact hfit
  have hblanks := (texts_blanks bytes).1
  have hlen := length_ascii_flatten (bytes.map argText)
  have hnum : bytes.length = (mm.argEnd - mm.argStart).toNat := by
    rw [hbytes, List.length_map, List.length_range]
    rfl
  have hsmall : bytes.length ≤ totalLength (bytes.map argText) := by
    rw [← hblanks, ← hlen]
    exact List.count_le_length
  rw [hexp] at hprint hcount
  obtain ⟨bytes', heq, hret'⟩ := hcount
  obtain rfl := Printed.str.inj (List.singleton_inj.mp heq)
  -- the driver has come to the end of its loop
  have hargs : taskGetArgs fuel mm (idle ram buf) = (.ret ret, k') := by
    rcases orFault_ret hret with hnone | ⟨mm', hmm', hargs⟩
    · exact absurd hmm (mmOf_ne_some hnone mm)
    · obtain rfl := Option.some.inj (hmm.symm.trans hmm')
      exact hargs
  obtain ⟨page, n, -, hlast, hr, rfl⟩ := args_ret hargs
  have hmore := args_turns (by omega) hlast
  have hacc := acc_args (idle ram buf).ram (physical page mm.argStart) (inBounds_idle ram buf) n
  have hall := acc_lt hacc (by omega)
  have hstring := pageString_args (inBounds_idle ram buf) (physical page mm.argStart) n hall
  have hsame := (Printed.str.inj (List.singleton_inj.mp hprint)).trans hstring
  have hcount := congrArg (List.count 32) hsame
  rw [hblanks, argTexts_eq, (texts_blanks _).1, List.length_map, List.length_range] at hcount
  omega

/-! ## The commands -/

theorem contiguous_byte_iff
    (hpresent : ∀ i : Nat, i < c.count mm → (c.byte? ram mm i).isSome) :
    Contiguous ram mm (c.byte ram mm) c ↔ FramesAgree ram mm c := by
  have hbyte : ∀ i : Nat, i < c.count mm → some (c.byte ram mm i) = c.byte? ram mm i := by
    intro i hi
    obtain ⟨b, hb⟩ := Option.isSome_iff_exists.mp (hpresent i hi)
    rw [ToolCommand.byte, hb, Option.getD_some]
  unfold Contiguous FramesAgree
  refine exists_congr fun page => and_congr_right fun _ => forall₂_congr fun i hi => ?_
  rw [hbyte i hi]

/-- Inside a page the frames agree. -/
theorem framesAgree_of_page {page : Nat} (hwalk : walkTaskPage mm (c.start mm) = some page)
    (hhw : hardwareFrame mm (c.start mm) = some page)
    (hin : offsetInPage (c.start mm) + c.count mm ≤ PAGE_SIZE) : FramesAgree ram mm c := by
  refine ⟨page, hwalk, fun i hi => ?_⟩
  unfold ToolCommand.byte?
  generalize c.start mm = start at hhw hin ⊢
  unfold offsetInPage PAGE_SIZE at hin
  have hlt := start.toNat_lt
  have hnat : (start + UInt64.ofNat i).toNat = start.toNat + i := toNat_add_ofNat (by omega)
  have hframe : hardwareFrame mm (start + UInt64.ofNat i) = hardwareFrame mm start := by
    have hcanon : Canonical (start + UInt64.ofNat i) ↔ Canonical start := by
      unfold Canonical
      rw [hnat]
      omega
    have h1 : pgdIndex (start + UInt64.ofNat i) = pgdIndex start := by
      unfold pgdIndex
      rw [hnat]
      omega
    have h2 : pudIndex (start + UInt64.ofNat i) = pudIndex start := by
      unfold pudIndex
      rw [hnat]
      omega
    have h3 : pmdIndex (start + UInt64.ofNat i) = pmdIndex start := by
      unfold pmdIndex
      rw [hnat]
      omega
    have h4 : pteIndex (start + UInt64.ofNat i) = pteIndex start := by
      unfold pteIndex
      rw [hnat]
      omega
    unfold hardwareFrame
    rw [h1, h2, h3, h4]
    exact if_congr hcanon rfl rfl
  have hphys : physical page (start + UInt64.ofNat i) = physical page start + i := by
    unfold physical offsetInPage PAGE_SIZE
    rw [hnat]
    omega
  rw [virtualByte, hframe, hhw, Option.bind_some, hphys]

/-- **The tool shows the task's memory exactly when the frames agree**, no byte is negative as
    a `char` where that matters, and the command is not `a`. -/
theorem shows_iff (hmm : mmOf tasks c.nr = some mm)
    (hpresent : ∀ i : Nat, i < c.count mm → (c.byte? ram mm i).isSome)
    (hfit : c.Fits mm (c.byte ram mm)) :
    Shows tasks ram buf mm (c.byte ram mm) c ↔ Faithful ram mm c := by
  cases c with
  | a pid => exact iff_of_false (not_shows_a hmm hfit) id
  | d pid =>
    rw [shows_d_iff hmm hfit, contiguous_byte_iff hpresent]
    rfl
  | b r =>
    have hinj : Function.Injective fun b => Printed.hex (argText b) := fun b b' h =>
      argText_injective (Printed.hex.inj h)
    rw [shows_region_iff hinj hmm hfit rfl rfl rfl (fun _ _ => rfl) rfl fun _ _ => Iff.rfl,
      contiguous_byte_iff hpresent]
    rfl
  | B r =>
    have hinj : Function.Injective Printed.chr := fun b b' h => Printed.chr.inj h
    rw [shows_region_iff hinj hmm hfit rfl rfl rfl (fun _ _ => rfl) rfl fun _ _ => Iff.rfl,
      contiguous_byte_iff hpresent]
    rfl

end

/-- The last two bytes of a page and the first two of the next. -/
def acrossPages : ToolCommand := .b ⟨1, 4094, 4097⟩

/-- With the pages behind each other, the bytes `0xfe 0xff 0x0 0x1` are shown. -/
theorem shows_iff_flat : Shows (fun _ => some ⟨some (flatMm 0 0 0 0)⟩) numbered (fun _ => 0)
    (flatMm 0 0 0 0) (acrossPages.byte numbered (flatMm 0 0 0 0)) acrossPages := by
  have hbyte : ∀ i : Nat, i < 4 → acrossPages.byte? numbered (flatMm 0 0 0 0) i =
      numbered (physical 0 4094 + i) := by
    intro i hi
    interval_cases i <;> rfl
  have hfit : acrossPages.Fits (flatMm 0 0 0 0) (acrossPages.byte numbered (flatMm 0 0 0 0)) :=
    show 4 ≤ MMAP_LEN by decide
  have hagree : Faithful numbered (flatMm 0 0 0 0) acrossPages :=
    ⟨0, rfl, fun i hi => (hbyte i hi).symm⟩
  refine (shows_iff rfl (fun i hi => ?_) hfit).mpr hagree
  rw [hbyte i hi]
  rfl

/-- Page tables that map pages next to each other to every other frame. -/
def sparsePgd : PgdTable := fun _ => .table fun _ => .table fun _ => .table fun i => ⟨true, 2 * i⟩

/-- Each byte of physical memory is the number of its frame. -/
def frameBytes (p : Int) : Option UInt8 := some (UInt8.ofNat (p / 4096).toNat)

def sparseMm : Mm := { flatMm 0 0 0 0 with pgd := sparsePgd }

/-- The last byte of a page and the first of the next. -/
def crossing : ToolCommand := .b ⟨1, 4095, 4096⟩

/-- The second byte that is shown is from the frame behind the first. -/
theorem not_shows_crossing :
    (∀ i : Nat, i < crossing.count sparseMm → (crossing.byte? frameBytes sparseMm i).isSome) ∧
      crossing.Fits sparseMm (crossing.byte frameBytes sparseMm) ∧
      ¬ Shows (fun _ => some ⟨some sparseMm⟩) frameBytes (fun _ => 0) sparseMm
        (crossing.byte frameBytes sparseMm) crossing := by
  have hpresent : ∀ i : Nat, i < 2 → (crossing.byte? frameBytes sparseMm i).isSome := by
    intro i hi
    interval_cases i <;> rfl
  have hfit : crossing.count sparseMm ≤ MMAP_LEN := show 2 ≤ MMAP_LEN by decide
  refine ⟨hpresent, hfit, fun h => ?_⟩
  have hinj : Function.Injective fun b => Printed.hex (argText b) := fun b b' h =>
    argText_injective (Printed.hex.inj h)
  have hagree := (shows_region_iff hinj rfl hfit rfl rfl rfl (fun _ _ => rfl) rfl
    fun _ _ => Iff.rfl).mp h
  obtain ⟨page, hpage, hbytes⟩ := hagree
  obtain rfl : 0 = page := Option.some.inj hpage
  have hsecond : frameBytes (physical 0 4095 + (1 : Nat)) = some 2 :=
    hbytes 1 (show 1 < 2 by decide)
  exact absurd hsecond (by decide)

end LinuxSummary.Zpage
