/-
  The epoll loop of `tcp_server.c`.

  The kernel side is the table of open descriptors and the interest set of the epoll
  instance; `accept` returns the lowest free number, so numbers come back. A batch is drawn
  from the interest set by `epoll_wait` and then worked off one event a step, while the table
  changes. Each event has, as a ghost, the socket it was reported for, and each call on a
  descriptor is logged with what the descriptor stood for at that moment (`Call`).

  The invariant is `Exact`: the interest set is the sockets of the table, each event that is
  still pending is for a descriptor that still stands for the same socket, and no call went
  elsewhere. A number that is freed inside a batch is not among the pending ones, since the
  descriptors of a batch are distinct; so a number that `accept` reuses is not either.
-/
import LinuxSummary.Library.Machine

namespace LinuxSummary.Socket

open Machine

def MAX_EVENTS : Nat := 10

/-- The listening socket, or the connection of the n-th `accept`. -/
inductive Sock
  | listening
  | conn (n : Nat)
deriving DecidableEq

/-- What an open descriptor stands for. -/
inductive File
  | sock (s : Sock)
  | other
deriving DecidableEq

/-- The descriptor table of the process. -/
abbrev FdTable := AList fun _ : Nat => File

/-- `events[n].data.fd`, and the socket it was reported for. -/
structure Event where
  fd : Nat
  sock : Sock
deriving DecidableEq

inductive Op
  | recv
  | del
  | close
deriving DecidableEq

/-- A call on the descriptor of an event, and what the descriptor stood for. -/
structure Call where
  op : Op
  event : Event
  owner : Option File

structure State where
  listenSock : Nat
  fds : FdTable
  interest : AList fun _ : Nat => Sock
  accepted : Nat
  /-- `events[n ..]` -/
  pending : List Event
  calls : List Call

theorem exists_free (t : FdTable) : ∃ n, n ∉ t.keys := by
  obtain ⟨n, hn⟩ := Infinite.exists_notMem_finset t.keys.toFinset
  exact ⟨n, fun h => hn (List.mem_toFinset.mpr h)⟩

/-- The lowest number that is not open. -/
def lowestFree (t : FdTable) : Nat := Nat.find (exists_free t)

/-- How the calls for one event end: `accept`, `epoll_ctl` ADD, and what `recv` returns. -/
structure Outcome where
  acceptOk : Bool
  addOk : Bool
  n : Int

inductive Label
  | wait (batch : List Event)
  | waitFails
  | event (o : Outcome)

inductive Turn
  | goes (s : State)
  | exits
  /-- not what the loop does next -/
  | blocked

/-- One event of the batch. -/
def useEvent (s : State) (e : Event) (rest : List Event) (o : Outcome) : Turn :=
  if e.fd = s.listenSock then
    if !o.acceptOk then .exits
    else
      let connSock := lowestFree s.fds
      if !o.addOk then .exits
      else
        .goes { s with
          fds := s.fds.insert connSock (.sock (.conn s.accepted))
          interest := s.interest.insert connSock (.conn s.accepted)
          accepted := s.accepted + 1
          pending := rest }
  else
    let owner := s.fds.lookup e.fd
    if o.n = 0 then
      .goes { s with
        fds := s.fds.erase e.fd
        interest := s.interest.erase e.fd
        pending := rest
        calls := s.calls ++ [⟨.recv, e, owner⟩, ⟨.del, e, owner⟩, ⟨.close, e, owner⟩] }
    else
      .goes { s with
        pending := rest
        calls := s.calls ++ [⟨.recv, e, owner⟩] }

/-- `for (;;)`: the next batch once the last one is worked off, else the next event. -/
def turn (s : State) (l : Label) : Turn :=
  match l, s.pending with
  | .wait batch, [] => .goes { s with pending := batch }
  | .waitFails, [] => .exits
  | .event o, e :: rest => useEvent s e rest o
  | _, _ => .blocked

/-- What `epoll_wait` can report: descriptors of the interest set, each at most once. -/
def Reported (s : State) (batch : List Event) : Prop :=
  batch.length ≤ MAX_EVENTS ∧ (batch.map (·.fd)).Nodup ∧
    ∀ e ∈ batch, s.interest.lookup e.fd = some e.sock

def Step (s : State) (l : Label) (s' : State) : Prop :=
  turn s l = .goes s' ∧ ∀ batch, l = .wait batch → Reported s batch

/-- `main` before the loop: the listening socket is registered, the process may have other
    descriptors open. -/
structure Started (s : State) : Prop where
  interest : ∀ fd k, s.interest.lookup fd = some k ↔ fd = s.listenSock ∧ k = .listening
  listening : ∀ fd k, s.fds.lookup fd = some (.sock k) ↔ fd = s.listenSock ∧ k = .listening
  pending : s.pending = []
  calls : s.calls = []

/-- The call went to an open descriptor, to the connection it was meant for. -/
def Call.Meant (c : Call) : Prop :=
  c.owner = some (.sock c.event.sock) ∧ c.event.sock ≠ .listening

/-- The interest set is the open sockets, the listening one among them; the pending events and
    the calls made so far are for the sockets that their descriptors stand for. -/
structure Exact (s : State) : Prop where
  registered : ∀ fd k, s.interest.lookup fd = some k ↔ s.fds.lookup fd = some (.sock k)
  listening : ∀ fd, s.fds.lookup fd = some (.sock .listening) ↔ fd = s.listenSock
  numbered : ∀ fd n, s.fds.lookup fd = some (.sock (.conn n)) → n < s.accepted
  once : ∀ fd fd' k, s.fds.lookup fd = some (.sock k) → s.fds.lookup fd' = some (.sock k) →
    fd = fd'
  distinct : (s.pending.map (·.fd)).Nodup
  current : ∀ e ∈ s.pending, s.fds.lookup e.fd = some (.sock e.sock)
  meant : ∀ c ∈ s.calls, c.Meant

theorem Started.exact {s : State} (h : Started s) : Exact s where
  registered := fun fd k => (h.interest fd k).trans (h.listening fd k).symm
  listening := fun fd => (h.listening fd _).trans (and_iff_left rfl)
  numbered := by
    intro fd n hfd
    have := ((h.listening fd _).mp hfd).2
    exact absurd this (by simp)
  once := by
    intro fd fd' k hfd hfd'
    rw [((h.listening fd k).mp hfd).1, ((h.listening fd' k).mp hfd').1]
  distinct := by rw [h.pending]; exact List.nodup_nil
  current := by rw [h.pending]; exact fun e he => absurd he (by simp)
  meant := by rw [h.calls]; exact fun c hc => absurd hc (by simp)

section
variable {s s' : State}

theorem lookup_lowestFree (t : FdTable) : t.lookup (lowestFree t) = none :=
  AList.lookup_eq_none.mpr fun h => Nat.find_spec (exists_free t) (AList.mem_keys.mp h)

theorem lowestFree_eq {t : FdTable} {n : Nat} (hfree : n ∉ t.keys) (hlow : ∀ m < n, m ∈ t.keys) :
    lowestFree t = n :=
  (Nat.find_eq_iff _).mpr ⟨hfree, fun m hm => not_not.mpr (hlow m hm)⟩

/-- What a turn that goes on can do: take a batch, accept, close, or read. -/
theorem turn_cases {l : Label} (h : turn s l = .goes s') :
    (∃ batch, l = .wait batch ∧ s' = { s with pending := batch }) ∨
    ∃ e rest, s.pending = e :: rest ∧
      ((e.fd = s.listenSock ∧
        s' = { s with
          fds := s.fds.insert (lowestFree s.fds) (.sock (.conn s.accepted))
          interest := s.interest.insert (lowestFree s.fds) (.conn s.accepted)
          accepted := s.accepted + 1
          pending := rest }) ∨
      (e.fd ≠ s.listenSock ∧
        s' = { s with
          fds := s.fds.erase e.fd
          interest := s.interest.erase e.fd
          pending := rest
          calls := s.calls ++ [⟨.recv, e, s.fds.lookup e.fd⟩, ⟨.del, e, s.fds.lookup e.fd⟩,
            ⟨.close, e, s.fds.lookup e.fd⟩] }) ∨
      (e.fd ≠ s.listenSock ∧
        s' = { s with
          pending := rest
          calls := s.calls ++ [⟨.recv, e, s.fds.lookup e.fd⟩] })) := by
  unfold turn at h
  split at h
  · next batch _ => exact .inl ⟨batch, rfl, (Turn.goes.inj h).symm⟩
  · exact absurd h (by simp)
  · next o e rest hpending =>
    refine .inr ⟨e, rest, hpending, ?_⟩
    unfold useEvent at h
    split at h
    · next hlisten =>
      split at h
      · exact absurd h (by simp)
      · dsimp only at h
        split at h
        · exact absurd h (by simp)
        · exact .inl ⟨hlisten, (Turn.goes.inj h).symm⟩
    · next hconn =>
      dsimp only at h
      split at h
      · exact .inr (.inl ⟨hconn, (Turn.goes.inj h).symm⟩)
      · exact .inr (.inr ⟨hconn, (Turn.goes.inj h).symm⟩)
  · exact absurd h (by simp)

/-- The event that is next: it is for a connection that is open under its descriptor. -/
theorem Exact.head (h : Exact s) {e : Event} {rest : List Event} (hp : s.pending = e :: rest) :
    s.fds.lookup e.fd = some (.sock e.sock) ∧ (rest.map (·.fd)).Nodup ∧
      ∀ e' ∈ rest, e'.fd ≠ e.fd ∧ s.fds.lookup e'.fd = some (.sock e'.sock) := by
  have hdist := h.distinct
  rw [hp, List.map_cons, List.nodup_cons] at hdist
  refine ⟨h.current e (by rw [hp]; simp), hdist.2, fun e' he' => ⟨?_, ?_⟩⟩
  · intro heq
    exact hdist.1 (List.mem_map.mpr ⟨e', he', heq⟩)
  · exact h.current e' (by rw [hp]; simp [he'])

theorem Exact.meant_call (h : Exact s) {e : Event} {rest : List Event}
    (hp : s.pending = e :: rest) (hne : e.fd ≠ s.listenSock) (op : Op) :
    (Call.mk op e (s.fds.lookup e.fd)).Meant := by
  have hown := (h.head hp).1
  refine ⟨hown, fun hl => hne ?_⟩
  have hl' : e.sock = .listening := hl
  rw [hl'] at hown
  exact (h.listening e.fd).mp hown

theorem exact_wait (h : Exact s) {batch : List Event} (hb : Reported s batch) :
    Exact { s with pending := batch } where
  registered := h.registered
  listening := h.listening
  numbered := h.numbered
  once := h.once
  distinct := hb.2.1
  current := fun e he => (h.registered e.fd e.sock).mp (hb.2.2 e he)
  meant := h.meant

/-- `accept`: the number is open nowhere, so it is no pending one. -/
theorem exact_accept (h : Exact s) {e : Event} {rest : List Event} (hp : s.pending = e :: rest) :
    Exact { s with
      fds := s.fds.insert (lowestFree s.fds) (.sock (.conn s.accepted))
      interest := s.interest.insert (lowestFree s.fds) (.conn s.accepted)
      accepted := s.accepted + 1
      pending := rest } := by
  obtain ⟨-, hdist, hrest⟩ := h.head hp
  have hfree := lookup_lowestFree s.fds
  have hother : ∀ {fd f}, s.fds.lookup fd = some f → fd ≠ lowestFree s.fds := by
    intro fd f hfd heq
    rw [heq, hfree] at hfd
    exact absurd hfd (by simp)
  have hins : ∀ fd, (s.fds.insert (lowestFree s.fds) (.sock (.conn s.accepted))).lookup fd =
      if fd = lowestFree s.fds then some (.sock (.conn s.accepted)) else s.fds.lookup fd := by
    intro fd
    split
    · next heq => rw [heq, AList.lookup_insert]
    · next hne => rw [AList.lookup_insert_ne hne]
  have hnew : ∀ fd, s.fds.lookup fd ≠ some (.sock (.conn s.accepted)) := fun fd hfd =>
    Nat.lt_irrefl _ (h.numbered fd _ hfd)
  refine ⟨fun fd k => ?_, fun fd => ?_, fun fd n => ?_, fun fd fd' k => ?_, hdist,
    fun e' he' => ?_, h.meant⟩
  · dsimp only
    rw [hins]
    by_cases heq : fd = lowestFree s.fds
    · rw [heq, AList.lookup_insert, if_pos rfl, Option.some.injEq, Option.some.injEq,
        File.sock.injEq]
    · rw [AList.lookup_insert_ne heq, if_neg heq]
      exact h.registered fd k
  · dsimp only
    rw [hins]
    split
    · next heq =>
      have hne : fd ≠ s.listenSock := fun hl => hother ((h.listening fd).mpr hl) heq
      simp [hne]
    · exact h.listening fd
  · dsimp only
    rw [hins]
    split
    · intro hn
      have : s.accepted = n := by simpa using hn
      omega
    · intro hn
      have := h.numbered fd n hn
      omega
  · dsimp only
    rw [hins, hins]
    intro hfd hfd'
    split at hfd
    · next heq =>
      split at hfd'
      · next heq' => rw [heq, heq']
      · exact absurd (hfd'.trans hfd.symm) (hnew fd')
    · split at hfd'
      · exact absurd (hfd.trans hfd'.symm) (hnew fd)
      · exact h.once fd fd' k hfd hfd'
  · dsimp only
    obtain ⟨-, hcur⟩ := hrest e' he'
    rw [hins, if_neg (hother hcur)]
    exact hcur

/-- The end of a connection: its number is free, and no pending event has it. -/
theorem exact_close (h : Exact s) {e : Event} {rest : List Event} (hp : s.pending = e :: rest)
    (hne : e.fd ≠ s.listenSock) :
    Exact { s with
      fds := s.fds.erase e.fd
      interest := s.interest.erase e.fd
      pending := rest
      calls := s.calls ++ [⟨.recv, e, s.fds.lookup e.fd⟩, ⟨.del, e, s.fds.lookup e.fd⟩,
        ⟨.close, e, s.fds.lookup e.fd⟩] } := by
  obtain ⟨-, hdist, hrest⟩ := h.head hp
  have hera : ∀ fd f, (s.fds.erase e.fd).lookup fd = some f ↔
      fd ≠ e.fd ∧ s.fds.lookup fd = some f := by
    intro fd f
    by_cases heq : fd = e.fd
    · rw [heq, AList.lookup_erase]
      simp
    · rw [AList.lookup_erase_ne heq]
      simp [heq]
  refine ⟨fun fd k => ?_, fun fd => ?_, fun fd n => ?_, fun fd fd' k => ?_, hdist,
    fun e' he' => ?_, fun c hc => ?_⟩
  · dsimp only
    rw [hera, ← h.registered]
    by_cases heq : fd = e.fd
    · rw [heq, AList.lookup_erase]
      simp
    · rw [AList.lookup_erase_ne heq]
      simp [heq]
  · dsimp only
    rw [hera, h.listening]
    constructor
    · exact fun hfd => hfd.2
    · intro hfd
      exact ⟨fun heq => hne (heq.symm.trans hfd), hfd⟩
  · exact fun hfd => h.numbered fd n ((hera fd _).mp hfd).2
  · exact fun hfd hfd' => h.once fd fd' k ((hera fd _).mp hfd).2 ((hera fd' _).mp hfd').2
  · exact (hera e'.fd _).mpr (hrest e' he')
  · rcases List.mem_append.mp hc with hc | hc
    · exact h.meant c hc
    · simp only [List.mem_cons, List.not_mem_nil, or_false] at hc
      rcases hc with rfl | rfl | rfl
      · exact h.meant_call hp hne .recv
      · exact h.meant_call hp hne .del
      · exact h.meant_call hp hne .close

theorem exact_read (h : Exact s) {e : Event} {rest : List Event} (hp : s.pending = e :: rest)
    (hne : e.fd ≠ s.listenSock) :
    Exact { s with
      pending := rest
      calls := s.calls ++ [⟨.recv, e, s.fds.lookup e.fd⟩] } := by
  obtain ⟨-, hdist, hrest⟩ := h.head hp
  refine ⟨h.registered, h.listening, h.numbered, h.once, hdist, fun e' he' => (hrest e' he').2,
    fun c hc => ?_⟩
  rcases List.mem_append.mp hc with hc | hc
  · exact h.meant c hc
  · obtain rfl := List.mem_singleton.mp hc
    exact h.meant_call hp hne .recv

theorem exact_step {l : Label} (h : Exact s) (hstep : Step s l s') : Exact s' := by
  obtain ⟨hturn, hbatch⟩ := hstep
  rcases turn_cases hturn with ⟨batch, hl, rfl⟩ | ⟨e, rest, hp, ⟨-, rfl⟩ | ⟨hne, rfl⟩ | ⟨hne, rfl⟩⟩
  · exact exact_wait h (hbatch batch hl)
  · exact exact_accept h hp
  · exact exact_close h hp hne
  · exact exact_read h hp hne

end

/-- **The registration table stays exact** over every run: whatever the batches, their order,
    and the results of `accept` and `recv`. -/
theorem epoll_exact {s0 s : State} {labels : List Label} (hstart : Started s0)
    (h : Run Step s0 labels s) :
    (∀ fd k, s.interest.lookup fd = some k ↔ s.fds.lookup fd = some (.sock k)) ∧
      s.interest.lookup s.listenSock = some .listening ∧
      (∀ fd fd' k, s.interest.lookup fd = some k → s.interest.lookup fd' = some k → fd = fd') ∧
      (∀ c ∈ s.calls, c.Meant) ∧ s.fds.lookup s.listenSock = some (.sock .listening) := by
  have hex : Exact s := h.invariant (fun _ _ _ h hs => exact_step h hs) hstart.exact
  refine ⟨hex.registered, (hex.registered _ _).mpr ((hex.listening _).mpr rfl), ?_, hex.meant,
    (hex.listening _).mpr rfl⟩
  intro fd fd' k hfd hfd'
  exact hex.once fd fd' k ((hex.registered fd k).mp hfd) ((hex.registered fd' k).mp hfd')

/-- The server with the listening socket on 4, the epoll instance on 3. -/
def bootServer : State where
  listenSock := 4
  fds := AList.insert 4 (.sock .listening) (AList.insert 3 .other ∅)
  interest := AList.insert 4 .listening ∅
  accepted := 0
  pending := []
  calls := []

theorem started_boot : Started bootServer := by
  refine ⟨fun fd k => ?_, fun fd k => ?_, rfl, rfl⟩
  · show (AList.insert 4 Sock.listening (∅ : AList fun _ : Nat => Sock)).lookup fd = some k ↔
      fd = 4 ∧ _
    by_cases h : fd = 4
    · rw [h, AList.lookup_insert, Option.some.injEq, eq_comm]
      exact (and_iff_right rfl).symm
    · rw [AList.lookup_insert_ne h, AList.lookup_empty]
      simp [h]
  · show (AList.insert 4 (File.sock .listening) (AList.insert 3 .other (∅ : FdTable))).lookup fd =
      some (.sock k) ↔ fd = 4 ∧ _
    by_cases h : fd = 4
    · rw [h, AList.lookup_insert, Option.some.injEq, File.sock.injEq, eq_comm]
      exact (and_iff_right rfl).symm
    · rw [AList.lookup_insert_ne h]
      by_cases h3 : fd = 3
      · rw [h3, AList.lookup_insert]
        simp
      · rw [AList.lookup_insert_ne h3, AList.lookup_empty]
        simp [h]

/-- The server with one client, on 0. -/
def oneClient : State :=
  { bootServer with
    fds := bootServer.fds.insert 0 (.sock (.conn 0))
    interest := bootServer.interest.insert 0 (.conn 0)
    accepted := 1 }

/-- The number 0 stands for another client. -/
def reused : State :=
  { oneClient with
    fds := (oneClient.fds.erase 0).insert 0 (.sock (.conn 1))
    interest := (oneClient.interest.erase 0).insert 0 (.conn 1)
    accepted := 2
    calls := [.recv, .del, .close].map fun op => ⟨op, ⟨0, .conn 0⟩, some (.sock (.conn 0))⟩ }

theorem step_wait (s : State) (batch : List Event) (hp : s.pending = [])
    (h : Reported s batch) : Step s (.wait batch) { s with pending := batch } := by
  refine ⟨by simp [turn, hp], fun batch' hb => ?_⟩
  obtain rfl := Label.wait.inj hb
  exact h

theorem step_accept {s : State} {e : Event} {rest : List Event} {n : Int} {connSock : Nat}
    (hp : s.pending = e :: rest) (he : e.fd = s.listenSock)
    (hfree : lowestFree s.fds = connSock) :
    Step s (.event ⟨true, true, n⟩) { s with
      fds := s.fds.insert connSock (.sock (.conn s.accepted))
      interest := s.interest.insert connSock (.conn s.accepted)
      accepted := s.accepted + 1
      pending := rest } := by
  refine ⟨?_, by simp⟩
  simp [turn, hp, useEvent, he, hfree]

theorem run_oneClient :
    Run Step bootServer [.wait [⟨4, .listening⟩], .event ⟨true, true, 0⟩] oneClient := by
  have hwait := step_wait bootServer [⟨4, .listening⟩] rfl ⟨by decide, by decide, by decide⟩
  have hfree : lowestFree bootServer.fds = 0 := lowestFree_eq (by decide) (by simp)
  exact .cons hwait (.cons (step_accept rfl rfl hfree) (.nil _))

/-- One batch ends the client on 0, and then accepts another one under its number. -/
theorem run_reused :
    Run Step oneClient [.wait [⟨0, .conn 0⟩, ⟨4, .listening⟩], .event ⟨true, true, 0⟩,
      .event ⟨true, true, 0⟩] reused := by
  have hwait := step_wait oneClient [⟨0, .conn 0⟩, ⟨4, .listening⟩] rfl
    ⟨by decide, by decide, by decide⟩
  have hfree : lowestFree (oneClient.fds.erase 0) = 0 := lowestFree_eq (by decide) (by simp)
  exact .cons hwait (.cons ⟨rfl, by simp⟩ (.cons (step_accept rfl rfl hfree) (.nil _)))

/-- The other client is read from under the number of the first. -/
theorem epoll_exact_boot :
    ∃ s : State, s.calls.map (fun c => (c.op, c.event.sock)) =
        [(.recv, .conn 0), (.del, .conn 0), (.close, .conn 0), (.recv, .conn 1)] ∧
      s.fds.lookup 0 = some (.sock (.conn 1)) ∧ ∀ c ∈ s.calls, c.Meant := by
  have hwait := step_wait reused [⟨0, .conn 1⟩] rfl ⟨by decide, by decide, by decide⟩
  have hread : Run Step reused [.wait [⟨0, .conn 1⟩], .event ⟨true, true, 5⟩] _ :=
    .cons hwait (.cons ⟨rfl, by simp⟩ (.nil _))
  obtain ⟨-, -, -, hmeant, -⟩ :=
    epoll_exact started_boot ((run_oneClient.append run_reused).append hread)
  exact ⟨_, rfl, rfl, hmeant⟩

end LinuxSummary.Socket
