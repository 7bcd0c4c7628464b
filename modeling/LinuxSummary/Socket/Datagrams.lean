/-
  `udp_client.c` and `udp_server.c`.

  The server reads each datagram into one buffer of `BUF_LEN` bytes, which it neither fills before
  nor clears between two datagrams, and prints it with `%s`. So a datagram lies over what the ones
  before it have left (`lastWritten`), down to bytes that nobody has written. `in_bounds_iff` and
  `own_text_iff` say when the print stays in the buffer, and when it shows what was sent.
-/
import LinuxSummary.Library.Text

namespace LinuxSummary.Socket.Datagrams

abbrev Byte := UInt8

def BUF_LEN : Nat := 16

/-- `buf` of the server. -/
abbrev Buf := Fin BUF_LEN → Byte

/-- `recvfrom(sock, buf, BUF_LEN, …)`; what does not fit is dropped. -/
def recvfrom (buf : Buf) (datagram : List Byte) : Buf :=
  fun i => datagram.getD i (buf i)

/-- `%s`: up to the first NUL, none where there is none. -/
def text (bytes : List Byte) : Option (List Byte) :=
  if 0 ∈ bytes then some (bytes.takeWhile (· ≠ 0)) else none

def printed (buf : Buf) : Option (List Byte) := text (List.ofFn buf)

/-- The buffer behind some turns of `while (1)`. -/
def served (buf : Buf) (datagrams : List (List Byte)) : Buf := datagrams.foldl recvfrom buf

/-- What the turns print. -/
def shown (buf : Buf) : List (List Byte) → List (Option (List Byte))
  | [] => []
  | d :: ds => printed (recvfrom buf d) :: shown (recvfrom buf d) ds

/-- The last of the datagrams that reach so far has the byte. -/
def lastWritten (datagrams : List (List Byte)) (i : Nat) : Option Byte :=
  (datagrams.filterMap (·[i]?)).getLast?

theorem lastWritten_append (ds : List (List Byte)) (d : List Byte) (i : Nat) :
    lastWritten (ds ++ [d]) i = (d[i]?).or (lastWritten ds i) := by
  unfold lastWritten
  rw [List.filterMap_append, List.getLast?_append]
  cases h : d[i]? <;> simp [h]

/-- A byte of the buffer is the last one written there. -/
theorem served_eq (buf : Buf) (ds : List (List Byte)) (i : Fin BUF_LEN) :
    served buf ds i = (lastWritten ds i).getD (buf i) := by
  induction ds using List.reverseRecOn with
  | nil => rfl
  | append_singleton ds d ih =>
    rw [served, List.foldl_append, lastWritten_append]
    show recvfrom (served buf ds) d i = _
    rw [recvfrom, ih, List.getD_eq_getElem?_getD]
    cases d[i.val]? <;> simp

/-- The turn `k` prints the buffer that the datagrams up to its own have left. -/
theorem shown_getElem? (buf : Buf) (ds : List (List Byte)) (k : Nat) (hk : k < ds.length) :
    (shown buf ds)[k]? = some (printed (served buf (ds.take (k + 1)))) := by
  induction ds generalizing buf k with
  | nil => simp at hk
  | cons d ds ih =>
    cases k with
    | zero => simp [shown, served]
    | succ k =>
      simp only [shown, List.getElem?_cons_succ]
      rw [ih (recvfrom buf d) k (by simpa using hk), List.take_succ_cons]
      rfl

theorem printed_isSome_iff (buf : Buf) : (printed buf).isSome = true ↔ ∃ i, buf i = 0 := by
  rw [printed, text]
  split
  · next h => simpa [List.mem_ofFn] using h
  · next h => simpa [List.mem_ofFn] using h

/-- **The print stays in the buffer, whatever that held at first, exactly when a byte of it has
    been written last with NUL.** -/
theorem in_bounds_iff (ds : List (List Byte)) (k : Nat) (hk : k < ds.length) :
    (∀ buf, ∃ text, (shown buf ds)[k]? = some (some text)) ↔
      ∃ i < BUF_LEN, lastWritten (ds.take (k + 1)) i = some 0 := by
  have hturn (buf : Buf) : (∃ text, (shown buf ds)[k]? = some (some text)) ↔
      ∃ i : Fin BUF_LEN, (lastWritten (ds.take (k + 1)) i).getD (buf i) = 0 := by
    rw [shown_getElem? buf ds k hk]
    simp only [← served_eq, ← printed_isSome_iff, Option.isSome_iff_exists, Option.some.injEq]
  simp only [hturn]
  constructor
  · intro h
    obtain ⟨i, hi⟩ := h fun _ => 1
    cases hlast : lastWritten (ds.take (k + 1)) i with
    | none => simp [hlast] at hi
    | some b => exact ⟨i, i.isLt, by simpa [hlast] using hi⟩
  · rintro ⟨i, hi, hlast⟩ buf
    exact ⟨⟨i, hi⟩, by simp [hlast]⟩

/-- "Hi" without its NUL lies over the datagram of a client that sent one. -/
theorem in_bounds_iff_hi :
    (∀ buf, ∃ text, (shown buf [[72, 101, 121, 0], [72, 105]])[1]? = some (some text)) ↔
      ∃ i < BUF_LEN, lastWritten [[72, 101, 121, 0], [72, 105]] i = some 0 :=
  in_bounds_iff [[72, 101, 121, 0], [72, 105]] 1 (by decide)

/-! ## What was sent -/

theorem text_append_of_mem {a : List Byte} (h : 0 ∈ a) (b : List Byte) :
    text (a ++ b) = some (a.takeWhile (· ≠ 0)) := by
  have hmem : 0 ∈ a ++ b := List.mem_append_left _ h
  rw [text, if_pos hmem, List.takeWhile_append, if_neg]
  intro hlen
  have hall := List.takeWhile_eq_self_iff.mp (List.IsPrefix.eq_of_length
    (List.takeWhile_prefix _) hlen)
  simpa using hall 0 h

theorem text_append_of_not_mem {a : List Byte} (h : 0 ∉ a) (b : List Byte) :
    text (a ++ b) = (text b).map (a ++ ·) := by
  have hall : a.takeWhile (· ≠ 0) = a := by
    rw [List.takeWhile_eq_self_iff]
    intro c hc
    simpa using fun hzero : c = 0 => h (hzero ▸ hc)
  by_cases hb : 0 ∈ b
  · rw [text, text, if_pos hb, if_pos (List.mem_append_right _ hb), List.takeWhile_append,
      if_pos (by rw [hall])]
    rfl
  · rw [text, text, if_neg hb, if_neg (by simp [h, hb])]
    rfl

theorem text_eq_nil_iff (b : List Byte) : text b = some [] ↔ b.head? = some 0 := by
  cases b with
  | nil => simp [text]
  | cons c b =>
    by_cases hc : c = 0
    · simp [text, hc]
    · simp [text, hc]

theorem ofFn_recvfrom (buf : Buf) (d : List Byte) :
    List.ofFn (recvfrom buf d) = d.take BUF_LEN ++ (List.ofFn buf).drop d.length := by
  apply List.ext_getElem
  · simp only [List.length_ofFn, List.length_append, List.length_take, List.length_drop]
    omega
  · intro i hi _
    rw [List.length_ofFn] at hi
    rw [List.getElem_ofFn, recvfrom, List.getElem_append]
    by_cases hd : i < d.length
    · simp [hd, hi]
    · have hlen : d.take BUF_LEN = d := List.take_of_length_le (by omega)
      simp [hd, hlen, Nat.add_sub_cancel' (Nat.le_of_not_lt hd)]

/-- What the datagram itself says: up to its first NUL, and no more than is read of it. -/
def own (d : List Byte) : List Byte := (d.take BUF_LEN).takeWhile (· ≠ 0)

theorem printed_own_iff (buf : Buf) (d : List Byte) :
    printed (recvfrom buf d) = some (own d) ↔
      0 ∈ d.take BUF_LEN ∨ ∃ h : d.length < BUF_LEN, buf ⟨d.length, h⟩ = 0 := by
  rw [printed, ofFn_recvfrom]
  by_cases hmem : 0 ∈ d.take BUF_LEN
  · simp [text_append_of_mem hmem, own, hmem]
  · have hown : own d = d.take BUF_LEN := by
      rw [own, List.takeWhile_eq_self_iff]
      intro c hc
      simpa using fun hzero : c = 0 => hmem (hzero ▸ hc)
    rw [text_append_of_not_mem hmem, hown]
    have hnil : (text ((List.ofFn buf).drop d.length)).map (d.take BUF_LEN ++ ·) =
        some (d.take BUF_LEN) ↔ text ((List.ofFn buf).drop d.length) = some [] := by
      simp [Option.map_eq_some_iff]
    rw [hnil, text_eq_nil_iff, List.head?_drop]
    simp [hmem, List.getElem?_ofFn]

theorem shown_own_iff (buf : Buf) (ds : List (List Byte)) (d : List Byte) :
    (shown buf (ds ++ [d]))[ds.length]? = some (some (own d)) ↔
      0 ∈ d.take BUF_LEN ∨
        ∃ h : d.length < BUF_LEN, (lastWritten ds d.length).getD (buf ⟨d.length, h⟩) = 0 := by
  rw [shown_getElem? buf _ _ (by simp), Option.some.injEq, List.take_of_length_le (by simp),
    served, List.foldl_append]
  show printed (recvfrom (served buf ds) d) = _ ↔ _
  simp only [printed_own_iff, served_eq]

/-- **A datagram is shown as it was sent, whatever the buffer held at first, exactly when it brings
    a NUL with it, or lies in front of one that the datagrams before it have left.** -/
theorem own_text_iff (ds : List (List Byte)) (d : List Byte) :
    (∀ buf, (shown buf (ds ++ [d]))[ds.length]? = some (some (own d))) ↔
      0 ∈ d.take BUF_LEN ∨ d.length < BUF_LEN ∧ lastWritten ds d.length = some 0 := by
  simp only [shown_own_iff]
  constructor
  · intro h
    rcases h fun _ => 1 with hmem | ⟨hlen, hlast⟩
    · exact .inl hmem
    · cases hwritten : lastWritten ds d.length with
      | none => simp [hwritten] at hlast
      | some b => exact .inr ⟨hlen, by simpa [hwritten] using hlast⟩
  · rintro (hmem | ⟨hlen, hlast⟩) buf
    · exact .inl hmem
    · exact .inr ⟨hlen, by simp [hlast]⟩

/-- `buf` of the client: "Hello World", and zeros up to `BUF_LEN`. -/
def clientBuf : List Byte := [72, 101, 108, 108, 111, 32, 87, 111, 114, 108, 100, 0, 0, 0, 0, 0]

/-- The client is understood whatever came before it. -/
theorem shown_client (buf : Buf) (ds : List (List Byte)) :
    (shown buf (ds ++ [clientBuf]))[ds.length]? = some (some (clientBuf.take 11)) :=
  (shown_own_iff buf ds clientBuf).mpr (.inl (by decide))

end LinuxSummary.Socket.Datagrams
