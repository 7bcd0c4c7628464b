/-
  The transfer of `tcp_speed` and of `vsock`: a client that sends as much as it can, and a server
  that counts what arrives.

  `step` is one step of the client, of the server or of the network, so a run is any interleaving,
  with `send` and `recv` that take less than they are asked for, fail, or, for `send`, end the
  client by SIGPIPE. The counters are `unsigned long long` and printed by `%lld`. `Balanced` is the
  invariant, and `totals_agree` the result: an end of file tells the server that it has counted all
  that the client did.
-/
import LinuxSummary.Library.CInt
import LinuxSummary.Library.Machine

namespace LinuxSummary.Socket.Transfer

open Machine

def DATAS : Nat := 1000000
def MAXLEN : Nat := 65536

inductive Client
  | sending
  /-- closed, with the total that it printed -/
  | closed (total : Int)
  | killed
deriving DecidableEq

inductive Server
  | receiving
  /-- with the total that it printed; `eof`: `recv` returned 0 -/
  | ended (datas : Int) (eof : Bool)
deriving DecidableEq

structure State where
  client : Client
  /-- `n` and `num` of the client -/
  n : Nat
  sent : Nat
  inFlight : Nat
  server : Server
  /-- `num` of the server -/
  received : Nat
deriving DecidableEq

def start : State := ⟨.sending, 0, 0, 0, .receiving, 0⟩

/-- `num += ret` -/
def plus (num ret : Nat) : Nat := (num + ret) % 2 ^ 64

inductive Label
  /-- `send` returns so much -/
  | send (ret : Nat)
  /-- `send` returns 0 or less, and the loop is left -/
  | sendFails
  /-- the loop is over -/
  | sendEnds
  | sigpipe
  | recv (ret : Nat)
  | recvEof
  | recvFails

/-- `fprintf(stdout, "total send %lld …", num, …)` and `close` -/
def State.close (s : State) : State := { s with client := .closed (CInt.int64 s.sent) }

/-- `fprintf(stdout, "recv datas:%lld\\n", num)` and `exit` -/
def State.exit (s : State) (eof : Bool) : State :=
  { s with server := .ended (CInt.int64 s.received) eof }

def step (s : State) : Label → Option State
  | .send ret =>
    if s.client = .sending ∧ s.n < DATAS ∧ 0 < ret ∧ ret ≤ MAXLEN then
      some { s with n := s.n + 1, sent := plus s.sent ret, inFlight := s.inFlight + ret }
    else none
  | .sendFails => if s.client = .sending ∧ s.n < DATAS then some s.close else none
  | .sendEnds => if s.client = .sending ∧ s.n = DATAS then some s.close else none
  | .sigpipe =>
    if s.client = .sending ∧ s.n < DATAS ∧ s.server ≠ .receiving then
      some { s with client := .killed }
    else none
  | .recv ret =>
    if s.server = .receiving ∧ 0 < ret ∧ ret ≤ MAXLEN ∧ ret ≤ s.inFlight then
      some { s with inFlight := s.inFlight - ret, received := plus s.received ret }
    else none
  | .recvEof =>
    if s.server = .receiving ∧ s.client ≠ .sending ∧ s.inFlight = 0 then some (s.exit true)
    else none
  | .recvFails => if s.server = .receiving then some (s.exit false) else none

abbrev Runs (ls : List Label) (s : State) : Prop :=
  Run (fun s l s' => step s l = some s') start ls s

/-- What is counted on one side and not on the other is in flight, and no counter has wrapped. -/
structure Balanced (s : State) : Prop where
  turns : s.n ≤ DATAS
  bytes : s.sent ≤ s.n * MAXLEN
  flight : s.received + s.inFlight = s.sent
  client : ∀ total, s.client = .closed total → total = s.sent
  server : ∀ datas eof, s.server = .ended datas eof → datas = s.received
  eof : ∀ datas, s.server = .ended datas true → s.client ≠ .sending ∧ s.inFlight = 0

theorem Balanced.fits {s : State} (hs : Balanced s) : s.sent ≤ DATAS * MAXLEN :=
  hs.bytes.trans (Nat.mul_le_mul_right _ hs.turns)

theorem int64_total {num : Nat} (h : num ≤ DATAS * MAXLEN) : CInt.int64 num = num := by
  have hmax : DATAS * MAXLEN < 2 ^ 63 := by decide
  exact CInt.int64_of_range (by omega) (by omega)

theorem Balanced.close {s : State} (hs : Balanced s) (hclient : s.client = .sending) :
    Balanced s.close := by
  refine ⟨hs.turns, hs.bytes, hs.flight, fun total htotal => ?_, hs.server, fun datas hend => ?_⟩
  · exact (Client.closed.inj htotal).symm.trans (int64_total hs.fits)
  · exact absurd hclient (hs.eof datas hend).1

theorem Balanced.exit {s : State} (hs : Balanced s) (eof : Bool)
    (heof : eof = true → s.client ≠ .sending ∧ s.inFlight = 0) : Balanced (s.exit eof) := by
  have hle : s.received ≤ DATAS * MAXLEN := by
    have hflight := hs.flight
    have hfits := hs.fits
    omega
  refine ⟨hs.turns, hs.bytes, hs.flight, hs.client, fun datas eof' hend => ?_,
    fun datas hend => heof ?_⟩
  · exact (Server.ended.inj hend).1.symm.trans (int64_total hle)
  · exact (Server.ended.inj hend).2

theorem balanced_step {s s' : State} {l : Label} (hs : Balanced s) (h : step s l = some s') :
    Balanced s' := by
  have hfits := hs.fits
  have hmax : DATAS * MAXLEN + MAXLEN < 2 ^ 63 := by decide
  have hflight := hs.flight
  cases l with
  | send ret =>
    obtain ⟨⟨hclient, hn, hpos, hret⟩, rfl⟩ := by
      simpa only [step, Option.ite_none_right_eq_some, Option.some.injEq] using h
    have hplus : plus s.sent ret = s.sent + ret := Nat.mod_eq_of_lt (by omega)
    refine ⟨hn, ?_, ?_, ?_, hs.server, ?_⟩
    · have := hs.bytes
      show plus s.sent ret ≤ (s.n + 1) * MAXLEN
      rw [hplus, Nat.add_mul, Nat.one_mul]
      omega
    · show s.received + (s.inFlight + ret) = plus s.sent ret
      omega
    · intro total htotal
      exact absurd (hclient.symm.trans htotal) (by simp)
    · intro datas hend
      exact absurd hclient (hs.eof datas hend).1
  | sendFails =>
    obtain ⟨⟨hclient, -⟩, rfl⟩ := by
      simpa only [step, Option.ite_none_right_eq_some, Option.some.injEq] using h
    exact hs.close hclient
  | sendEnds =>
    obtain ⟨⟨hclient, -⟩, rfl⟩ := by
      simpa only [step, Option.ite_none_right_eq_some, Option.some.injEq] using h
    exact hs.close hclient
  | sigpipe =>
    obtain ⟨⟨hclient, -, -⟩, rfl⟩ := by
      simpa only [step, Option.ite_none_right_eq_some, Option.some.injEq] using h
    exact ⟨hs.turns, hs.bytes, hs.flight, fun _ hc => (by cases hc), hs.server,
      fun datas hend => absurd hclient (hs.eof datas hend).1⟩
  | recv ret =>
    obtain ⟨⟨hserver, hpos, hret, hle⟩, rfl⟩ := by
      simpa only [step, Option.ite_none_right_eq_some, Option.some.injEq] using h
    have hplus : plus s.received ret = s.received + ret := Nat.mod_eq_of_lt (by omega)
    refine ⟨hs.turns, hs.bytes, ?_, hs.client, ?_, ?_⟩
    · show plus s.received ret + (s.inFlight - ret) = s.sent
      omega
    · intro datas eof hend
      exact absurd (hserver.symm.trans hend) (by simp)
    · intro datas hend
      exact absurd (hserver.symm.trans hend) (by simp)
  | recvEof =>
    obtain ⟨⟨-, hclosed, hempty⟩, rfl⟩ := by
      simpa only [step, Option.ite_none_right_eq_some, Option.some.injEq] using h
    exact hs.exit true fun _ => ⟨hclosed, hempty⟩
  | recvFails =>
    obtain ⟨-, rfl⟩ := by
      simpa only [step, Option.ite_none_right_eq_some, Option.some.injEq] using h
    exact hs.exit false fun hfalse => by cases hfalse

theorem balanced_of_run {ls : List Label} {s : State} (hrun : Runs ls s) : Balanced s := by
  refine hrun.invariant (I := Balanced) (fun _ _ _ => balanced_step) ?_
  exact ⟨Nat.zero_le _, Nat.zero_le _, rfl, fun _ h => (by cases h), fun _ _ h => (by cases h),
    fun _ h => (by cases h)⟩

/-- **Both ends print what they moved**: they differ by what was still in flight when the server
    gave up, and not at all where it saw the end of file. -/
theorem totals_agree (ls : List Label) (s : State) (hrun : Runs ls s) (total datas : Int)
    (eof : Bool) (hclient : s.client = .closed total) (hserver : s.server = .ended datas eof) :
    datas + s.inFlight = total ∧ total ≤ DATAS * MAXLEN ∧ (eof = true → datas = total) := by
  have hs := balanced_of_run hrun
  have htotal := hs.client total hclient
  have hdatas := hs.server datas eof hserver
  have hflight := hs.flight
  have hfits := hs.fits
  refine ⟨by omega, by omega, fun heof => ?_⟩
  subst heof
  have := (hs.eof datas hserver).2
  omega

/-- Two sends, the second one short; the server gives up behind the first of its pieces. -/
theorem totals_agree_gaveUp :
    ∃ s, Runs [.send 65536, .recv 40000, .send 100, .recvFails, .sendFails] s ∧
      (40000 : Int) + s.inFlight = 65636 := by
  have hrun : Runs [.send 65536, .recv 40000, .send 100, .recvFails, .sendFails]
      ⟨.closed 65636, 2, 65636, 25636, .ended 40000 false, 40000⟩ :=
    Run.of_foldlM (by decide +kernel)
  exact ⟨_, hrun, (totals_agree _ _ hrun 65636 40000 false rfl rfl).1⟩

end LinuxSummary.Socket.Transfer
