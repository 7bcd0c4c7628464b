/-
  The numbers of `vsock_client.c` and `vsock_server.c`.

  `parse_cid` and `parse_port` return the `long` of `strtol` as an `int`, with -1 for a string
  that is no number. The callers take what is not negative and store it in an unsigned field.
  The calls into the kernel and the messages on stderr are the queries of the programs.

  `vsock_exact_iff`: which strings are parsed exactly.
-/
import LinuxSummary.Library.Strtol
import LinuxSummary.Library.Dialogue

namespace LinuxSummary.Socket.Vsock

open Prog CInt Strtol

/-- `struct sockaddr_vm`; its family is `AF_VSOCK`. -/
structure SockaddrVm where
  svmCid : Nat
  svmPort : Nat
deriving DecidableEq

/-- `-1U` -/
def VMADDR_CID_ANY : Nat := 2 ^ 32 - 1

/-- System calls, and what is written to stderr. -/
inductive Ask
  | socket
  | connect (fd : Int) (sa : SockaddrVm)
  | bind (fd : Int) (sa : SockaddrVm)
  | listen (fd backlog : Int)
  | accept (fd : Int)
  | close (fd : Int)
  | perror (s : Text)
  | stderr (text : Text)

/-- What a call returns; `accept` also the address of the peer. -/
abbrev Ask.Reply : Ask → Type
  | .accept _ => Int × SockaddrVm
  | _ => Int

/-- The address that a query names. -/
def Ask.address : Ask → Option SockaddrVm
  | .connect _ sa => some sa
  | .bind _ sa => some sa
  | _ => none

abbrev C (α : Type) := Prog Ask Ask.Reply Empty α

/-- `parse_cid` and `parse_port`: `what` is the message for a string that is no number. -/
def parse (what : Text) (str : Text) : C Int := do
  let read := strtol str 10
  if str ≠ read.2 ∧ read.2 = [] then
    return int32 read.1
  else
    let _ ← query (R := Ask.Reply) (.stderr (what ++ str ++ "\n".toList))
    return -1

def parseCid : Text → C Int := parse "invalid cid: ".toList

def parsePort : Text → C Int := parse "invalid port number: ".toList

/-- `vsock_connect` from `socket` on. -/
def connectTo (sa : SockaddrVm) : C Int := do
  let fd ← query (R := Ask.Reply) .socket
  if fd < 0 then
    let _ ← query (R := Ask.Reply) (.perror "socket".toList)
    return -1
  else
    let r ← query (R := Ask.Reply) (.connect fd sa)
    if r ≠ 0 then
      let _ ← query (R := Ask.Reply) (.perror "connect".toList)
      let _ ← query (R := Ask.Reply) (.close fd)
      return -1
    else
      return fd

def vsockConnect (cidStr portStr : Text) : C Int := do
  let cid ← parseCid cidStr
  if cid < 0 then
    return -1
  else
    let port ← parsePort portStr
    if port < 0 then
      return -1
    else
      connectTo ⟨u32 cid, u32 port⟩

/-- A call on the listening socket that fails. -/
def giveUp (call : Text) (listenFd : Int) : C Int := do
  let _ ← query (R := Ask.Reply) (.perror call)
  let _ ← query (R := Ask.Reply) (.close listenFd)
  return -1

/-- `"Connection from cid %u port %u...\n"` -/
def connectionText (sa : SockaddrVm) : Text :=
  "Connection from cid ".toList ++ Printf.udec sa.svmCid ++ " port ".toList ++
    Printf.udec sa.svmPort ++ "...\n".toList

/-- `vsock_listen` from `socket` on. -/
def listenOn (saListen : SockaddrVm) : C Int := do
  let listenFd ← query (R := Ask.Reply) .socket
  if listenFd < 0 then
    let _ ← query (R := Ask.Reply) (.perror "socket".toList)
    return -1
  else
    let bound ← query (R := Ask.Reply) (.bind listenFd saListen)
    if bound ≠ 0 then
      giveUp "bind".toList listenFd
    else
      let listening ← query (R := Ask.Reply) (.listen listenFd 1)
      if listening ≠ 0 then
        giveUp "listen".toList listenFd
      else
        let client ← query (R := Ask.Reply) (.accept listenFd)
        if client.1 < 0 then
          giveUp "accept".toList listenFd
        else
          let _ ← query (R := Ask.Reply) (.stderr (connectionText client.2))
          let _ ← query (R := Ask.Reply) (.close listenFd)
          return client.1

def vsockListen (portStr : Text) : C Int := do
  let port ← parsePort portStr
  if port < 0 then
    return -1
  else
    listenOn ⟨VMADDR_CID_ANY, u32 port⟩

/-! ## What is parsed -/

/-- What `parse` returns. -/
def parsed (str : Text) : Int :=
  if str ≠ (strtol str 10).2 ∧ (strtol str 10).2 = [] then int32 (strtol str 10).1 else -1

theorem parsed_decimal {s : Text} {v : Int} (h : IsDecimal s v) : parsed s = int32 (clamp v) := by
  unfold parsed
  rw [strtol_decimal h, if_pos ⟨h.ne_nil, rfl⟩]

theorem parsed_other {s : Text} (h : ¬ ∃ v, IsDecimal s v) : parsed s = -1 := by
  unfold parsed
  split
  · next hread =>
    have hne : s ≠ [] := by
      rw [hread.2] at hread
      exact hread.1
    obtain ⟨v, hv, -⟩ := isDecimal_of_strtol (Prod.ext rfl hread.2) hne
    exact absurd ⟨v, hv⟩ h
  · rfl

/-- The string is a number that an unsigned field of 32 bits holds. -/
def InRange (s : Text) (v : Int) : Prop := IsDecimal s v ∧ 0 ≤ v ∧ v ≤ 2 ^ 32 - 1

/-- A number for which an `int` does: below 2^31, or with bit 31 set as a `long`, and not below
    all `long`. -/
def FitsInt (v : Int) : Prop :=
  (0 ≤ v ∧ v < 2 ^ 31) ∨ (-2 ^ 63 ≤ v ∧ v < 0 ∧ 2 ^ 31 ≤ v % 2 ^ 32) ∨
    (2 ^ 32 ≤ v ∧ v < 2 ^ 63 ∧ 2 ^ 31 ≤ v % 2 ^ 32) ∨ 2 ^ 63 ≤ v

theorem fitsInt_iff (v : Int) :
    (0 ≤ int32 (clamp v) ↔ 0 ≤ v ∧ v ≤ 2 ^ 32 - 1) ↔ FitsInt v := by
  have hsign := int32_neg_iff (clamp v)
  unfold u32 at hsign
  unfold FitsInt
  unfold clamp at *
  omega

/-- The strings that are parsed exactly. -/
def Fits (s : Text) : Prop := ∀ v, IsDecimal s v → FitsInt v

/-- The sign check of the callers is the check of the number. -/
theorem parsed_iff (s : Text) : (0 ≤ parsed s ↔ ∃ v, InRange s v) ↔ Fits s := by
  by_cases h : ∃ v, IsDecimal s v
  · obtain ⟨v, hv⟩ := h
    have hrange : (∃ v, InRange s v) ↔ 0 ≤ v ∧ v ≤ 2 ^ 32 - 1 := by
      constructor
      · intro hr
        obtain ⟨v', hv', hr'⟩ := hr
        rw [hv.unique hv']
        exact hr'
      · exact fun hr => ⟨v, hv, hr⟩
    have hfits : Fits s ↔ FitsInt v :=
      ⟨fun hf => hf v hv, fun hf v' hv' => hv.unique hv' ▸ hf⟩
    rw [parsed_decimal hv, hrange, hfits, fitsInt_iff]
  · rw [parsed_other h]
    refine iff_of_true (iff_of_false (by decide) fun hr => ?_) fun v hv => absurd ⟨v, hv⟩ h
    obtain ⟨v, hv, -⟩ := hr
    exact h ⟨v, hv⟩

/-- The field holds a number in range. -/
theorem field_parsed {s : Text} {v : Int} (h : InRange s v) : (u32 (parsed s) : Int) = v := by
  obtain ⟨hv, h0, h1⟩ := h
  rw [parsed_decimal hv, u32_int32]
  unfold u32 clamp
  omega

/-! ## The programs -/

/-- A string that does not parse costs a message. -/
theorem parse_eq (what s : Text) : parse what s = .ret (parsed s) ∨
    parsed s = -1 ∧ parse what s =
      .ask (.stderr (what ++ s ++ "\n".toList)) fun _ => .ret (-1) := by
  unfold parse parsed
  dsimp only
  split
  · exact .inl rfl
  · exact .inr ⟨rfl, rfl⟩

section
variable {S : Type} (serve : (q : Ask) → S → q.Reply × S) (σ : S)

/-- The result passes the sign check. -/
def Passes (p : C Int) : Prop := ∃ r, (run serve p σ).1 = .ok r ∧ 0 ≤ r

/-- A socket is opened. -/
def Opens (p : C Int) : Prop := ∃ x ∈ trace serve p σ, x.1 = .socket

/-- The program returns -1, and has done nothing but write a message. -/
def Refuses (p : C Int) : Prop :=
  (run serve p σ).1 = .ok (-1) ∧ ∀ x ∈ trace serve p σ, ∃ text, x.1 = .stderr text

/-- `vsock_listen` takes exactly the ports, and listens there. -/
structure ListenExact (port : Text) : Prop where
  check : Passes serve σ (parsePort port) ↔ ∃ v, InRange port v
  opens : (∃ v, InRange port v) → Opens serve σ (vsockListen port)
  field : ∀ v, InRange port v → ∀ x ∈ trace serve (vsockListen port) σ,
    ∀ sa ∈ x.1.address, (sa.svmPort : Int) = v
  refused : (¬ ∃ v, InRange port v) → Refuses serve σ (vsockListen port)

/-- `vsock_connect` takes exactly the addresses, and connects there. -/
structure ConnectExact (cid port : Text) : Prop where
  cid_check : Passes serve σ (parseCid cid) ↔ ∃ v, InRange cid v
  port_check : Passes serve σ (parsePort port) ↔ ∃ v, InRange port v
  opens : (∃ v, InRange cid v) → (∃ v, InRange port v) → Opens serve σ (vsockConnect cid port)
  field : ∀ c v, InRange cid c → InRange port v → ∀ x ∈ trace serve (vsockConnect cid port) σ,
    ∀ sa ∈ x.1.address, (sa.svmCid : Int) = c ∧ (sa.svmPort : Int) = v
  refused : ¬ ((∃ v, InRange cid v) ∧ ∃ v, InRange port v) →
    Refuses serve σ (vsockConnect cid port)

theorem run_parse (what s : Text) : (run serve (parse what s) σ).1 = .ok (parsed s) := by
  rcases parse_eq what s with h | ⟨hneg, h⟩
  · rw [h]
    rfl
  · rw [h, hneg]
    rfl

theorem passes_parse_iff (what s : Text) : Passes serve σ (parse what s) ↔ 0 ≤ parsed s := by
  unfold Passes
  rw [run_parse]
  constructor
  · intro hpass
    obtain ⟨r, hok, hr⟩ := hpass
    rw [Except.ok.inj hok]
    exact hr
  · exact fun h => ⟨_, rfl, h⟩

/-- A program that stops at the sign check of a string. -/
theorem refuses_of_neg (what : Text) {s : Text} (h : parsed s < 0) {f : Int → C Int}
    (hf : ∀ r, r < 0 → f r = .ret (-1)) : Refuses serve σ (parse what s >>= f) := by
  rcases parse_eq what s with hp | ⟨-, hp⟩
  · rw [hp, ret_bind, hf _ h]
    exact ⟨rfl, fun x hx => absurd hx List.not_mem_nil⟩
  · rw [hp, ask_bind]
    unfold Refuses
    rw [run_ask, trace_ask, ret_bind, hf (-1) (by decide)]
    refine ⟨rfl, fun x hx => ?_⟩
    obtain rfl := List.mem_singleton.mp hx
    exact ⟨_, rfl⟩

/-- A program that goes on behind the sign check of a string. -/
theorem parse_bind {what s : Text} (h : 0 ≤ parsed s) (f : Int → C Int) :
    parse what s >>= f = f (parsed s) := by
  rcases parse_eq what s with hp | ⟨hneg, -⟩
  · rw [hp]
    rfl
  · omega

theorem vsockListen_neg {port : Text} (h : parsed port < 0) :
    Refuses serve σ (vsockListen port) :=
  refuses_of_neg serve σ _ h fun _ hr => if_pos hr

theorem vsockListen_pos {port : Text} (h : 0 ≤ parsed port) :
    vsockListen port = listenOn ⟨VMADDR_CID_ANY, u32 (parsed port)⟩ :=
  (parse_bind h _).trans (if_neg (by omega))

theorem vsockConnect_neg {cid port : Text} (h : parsed cid < 0 ∨ parsed port < 0) :
    Refuses serve σ (vsockConnect cid port) := by
  by_cases hcid : parsed cid < 0
  · exact refuses_of_neg serve σ _ hcid fun _ hr => if_pos hr
  · have hport : parsed port < 0 := h.resolve_left hcid
    unfold vsockConnect parseCid
    rw [parse_bind (by omega), if_neg hcid]
    exact refuses_of_neg serve σ _ hport fun _ hr => if_pos hr

theorem vsockConnect_pos {cid port : Text} (hcid : 0 ≤ parsed cid) (hport : 0 ≤ parsed port) :
    vsockConnect cid port = connectTo ⟨u32 (parsed cid), u32 (parsed port)⟩ := by
  unfold vsockConnect parseCid parsePort
  rw [parse_bind hcid, if_neg (by omega), parse_bind hport, if_neg (by omega)]

theorem opens_listenOn (sa : SockaddrVm) : Opens serve σ (listenOn sa) :=
  ⟨(.socket, σ), List.mem_cons_self, rfl⟩

theorem opens_connectTo (sa : SockaddrVm) : Opens serve σ (connectTo sa) :=
  ⟨(.socket, σ), List.mem_cons_self, rfl⟩

end

/-- No address but this is named. -/
def Names (sa : SockaddrVm) (q : Ask) : Prop := ∀ sa' ∈ q.address, sa' = sa

theorem names_of_none {sa : SockaddrVm} {q : Ask} (h : q.address = none) : Names sa q := by
  intro sa' hsa
  rw [h] at hsa
  exact absurd hsa (by simp)

theorem names_of_some {sa : SockaddrVm} {q : Ask} (h : q.address = some sa) : Names sa q := by
  intro sa' hsa
  rw [h] at hsa
  exact (Option.some.inj hsa).symm

section
variable {B : Empty → Prop} (sa : SockaddrVm)

theorem only_ask {q : Ask} {k : q.Reply → C Int} (hq : Names sa q)
    (hk : ∀ r, (k r).Only (Names sa) B) : (Prog.ask q k).Only (Names sa) B :=
  ⟨hq, hk⟩

theorem only_giveUp (call : Text) (fd : Int) : (giveUp call fd).Only (Names sa) B :=
  only_ask sa (names_of_none rfl) fun _ => only_ask sa (names_of_none rfl) fun _ => trivial

theorem only_connectTo : (connectTo sa).Only (Names sa) B := by
  unfold connectTo
  simp only [query_bind]
  refine only_ask sa (names_of_none rfl) fun fd => ?_
  split
  · exact only_ask sa (names_of_none rfl) fun _ => trivial
  · refine only_ask sa (names_of_some rfl) fun r => ?_
    split
    · exact only_ask sa (names_of_none rfl) fun _ =>
        only_ask sa (names_of_none rfl) fun _ => trivial
    · exact trivial

theorem only_listenOn : (listenOn sa).Only (Names sa) B := by
  unfold listenOn
  simp only [query_bind]
  refine only_ask sa (names_of_none rfl) fun fd => ?_
  split
  · exact only_ask sa (names_of_none rfl) fun _ => trivial
  refine only_ask sa (names_of_some rfl) fun bound => ?_
  split
  · exact only_giveUp sa _ fd
  refine only_ask sa (names_of_none rfl) fun listening => ?_
  split
  · exact only_giveUp sa _ fd
  refine only_ask sa (names_of_none rfl) fun client => ?_
  split
  · exact only_giveUp sa _ fd
  · exact only_ask sa (names_of_none rfl) fun _ =>
      only_ask sa (names_of_none rfl) fun _ => trivial

end

/-! ## Exactness -/

section
variable {S : Type} (serve : (q : Ask) → S → q.Reply × S) (σ : S)

/-- **`vsock_listen` is exact on the strings that fit.** -/
theorem listenExact_iff (port : Text) : ListenExact serve σ port ↔ Fits port := by
  rw [← parsed_iff]
  constructor
  · exact fun h => (passes_parse_iff serve σ _ port).symm.trans h.check
  · intro h
    refine ⟨(passes_parse_iff serve σ _ port).trans h, fun hr => ?_, fun v hv x hx sa hsa => ?_,
      fun hno => ?_⟩
    · rw [vsockListen_pos (h.mpr hr)]
      exact opens_listenOn serve σ _
    · rw [vsockListen_pos (h.mpr ⟨v, hv⟩)] at hx
      rw [(only_listenOn (B := fun _ => True) _).trace serve hx sa hsa]
      exact field_parsed hv
    · exact vsockListen_neg serve σ (not_le.mp fun hle => hno (h.mp hle))

/-- **`vsock_connect` is exact on two strings that fit.** -/
theorem connectExact_iff (cid port : Text) :
    ConnectExact serve σ cid port ↔ Fits cid ∧ Fits port := by
  rw [← parsed_iff, ← parsed_iff]
  constructor
  · exact fun h => ⟨(passes_parse_iff serve σ _ cid).symm.trans h.cid_check,
      (passes_parse_iff serve σ _ port).symm.trans h.port_check⟩
  · intro h
    obtain ⟨hcid, hport⟩ := h
    refine ⟨(passes_parse_iff serve σ _ cid).trans hcid,
      (passes_parse_iff serve σ _ port).trans hport, fun hc hp => ?_,
      fun c v hc hv x hx sa hsa => ?_, fun hno => ?_⟩
    · rw [vsockConnect_pos (hcid.mpr hc) (hport.mpr hp)]
      exact opens_connectTo serve σ _
    · rw [vsockConnect_pos (hcid.mpr ⟨c, hc⟩) (hport.mpr ⟨v, hv⟩)] at hx
      rw [(only_connectTo (B := fun _ => True) _).trace serve hx sa hsa]
      exact ⟨field_parsed hc, field_parsed hv⟩
    · apply vsockConnect_neg
      by_contra hpos
      rw [not_or, not_lt, not_lt] at hpos
      exact hno ⟨hcid.mp hpos.1, hport.mp hpos.2⟩

/-- **Which strings are parsed exactly**, at every kernel. -/
theorem vsock_exact_iff : (∀ port, ListenExact serve σ port ↔ Fits port) ∧
    ∀ cid port, ConnectExact serve σ cid port ↔ Fits cid ∧ Fits port :=
  ⟨listenExact_iff serve σ, connectExact_iff serve σ⟩

end

/-- A kernel without sockets. -/
def noSockets : (q : Ask) → Unit → q.Reply × Unit
  | .accept _, s => ((-1, ⟨0, 0⟩), s)
  | .socket, s => (-1, s)
  | .connect _ _, s => (-1, s)
  | .bind _ _, s => (-1, s)
  | .listen _ _, s => (-1, s)
  | .close _, s => (-1, s)
  | .perror _, s => (0, s)
  | .stderr _, s => (0, s)

theorem isDecimal_any : IsDecimal "4294967295".toList (2 ^ 32 - 1) := by
  refine ⟨[], [], "4294967295".toList, false, rfl, by simp, .inr ⟨by simp, rfl⟩, by decide, ?_, ?_⟩
  · decide
  · decide

/-- The port `VMADDR_PORT_ANY` is refused, by both programs. -/
theorem not_exact_any : ¬ ListenExact noSockets () "4294967295".toList ∧
    ¬ ConnectExact noSockets () "2".toList "4294967295".toList := by
  have hfits : ¬ Fits "4294967295".toList := by
    intro h
    have := h _ isDecimal_any
    unfold FitsInt at this
    omega
  refine ⟨fun h => ?_, fun h => ?_⟩
  · rw [listenExact_iff] at h
    exact hfits h
  · rw [connectExact_iff] at h
    exact hfits h.2

end LinuxSummary.Socket.Vsock
