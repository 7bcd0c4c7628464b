/-
  `block_rq_issue.stp` and `scsi_dispatch.stp`: `list_request_queue`, the same in both.

  The function goes through the requests of a queue and, in each, through its bios up to
  `biotail`. The operation and the flags are read once for a request, from its first bio, before
  the pointer is tested; `bio_nums` is set to 0 once for the whole queue. `bi_bdev` of a bio may be
  a null pointer, for which the probes of both files look, and the function does not.

  `Queue` is a queue with its requests and their bios in order. `reports_iff`: the report is
  right exactly for a queue of at most one request, with bios that all have a device and one
  `bi_opf`.
-/
import LinuxSummary.Library.Walk

namespace LinuxSummary.Systemtap

open Walk CInt
open ForLoop (Loop)

abbrev Ptr := Nat

/-- The fields of `struct bio` that are used; of `bi_bdev`, where there is one, its `bd_dev`. -/
structure Bio where
  biNext : Option Ptr
  biOpf : UInt32
  biBdev : Option UInt32
  biSector : Nat
  biSize : Nat

/-- The fields of `struct request`. -/
structure Request where
  sector : Nat
  dataLen : Nat
  bio : Option Ptr
  biotail : Option Ptr

def MAJOR (dev : UInt32) : UInt32 := dev >>> 20

def MINOR (dev : UInt32) : UInt32 := dev &&& 0xfffff

def op (opf : UInt32) : UInt32 := opf >>> 29

def flags (opf : UInt32) : UInt32 := opf &&& 0x1fffffff

/-- The bio behind another one; the loop breaks at `biotail`. -/
def nextBio (bio : Ptr → Bio) (biotail : Option Ptr) : Option Ptr → Option Ptr
  | none => none
  | some b => if some b = biotail then none else (bio b).biNext

/-- `struct request_queue`, and what it points to. `bios` are the bios of each request. -/
structure Queue where
  queueHead : Ptr
  next : Ptr → Ptr
  prev : Ptr → Ptr
  req : Ptr → Request
  bio : Ptr → Bio
  requests : List Ptr
  bios : Ptr → List Ptr
  ring : Ring next prev queueHead requests
  chain : ∀ r ∈ requests,
    Chain (nextBio bio (req r).biotail) (req r).bio ((bios r).map some) none

/-- What `STAP_PRINTF` prints. -/
inductive Line
  | request (r : Ptr) (sector dataLen : Nat) (bio biotail : Option Ptr)
  | bio (b : Ptr) (dev : Option (UInt32 × UInt32)) (sector size : Nat) (operation flag : UInt32)
  | nums (r : Ptr) (bioNums : Int)

structure State where
  out : List Line
  bioNums : Int
  STAP_RETVALUE : Int

section
variable (q : Queue) (fuel : Nat)

/-- The line of a bio, with the numbers of its device if there is one. -/
def Queue.bioLine (reqOp flag : UInt32) (b : Ptr) : Line :=
  .bio b ((q.bio b).biBdev.map fun dev => (MAJOR dev, MINOR dev)) (q.bio b).biSector
    (q.bio b).biSize reqOp flag

/-- The first line of a request. -/
def Queue.requestLine (r : Ptr) : Line :=
  .request r (q.req r).sector (q.req r).dataLen (q.req r).bio (q.req r).biotail

/-- The body of `while (bio)`. -/
def printBio (reqOp flag : UInt32) : Option Ptr → State → Loop State
  | none, s => .fault s
  | some b, s =>
    match (q.bio b).biBdev with
    -- `bio->bi_bdev->bd_dev` of a null pointer
    | none => .fault s
    | some _ =>
      .ended { s with
        out := s.out ++ [q.bioLine reqOp flag b]
        bioNums := int32 (s.bioNums + 1) }

/-- The body of `list_for_each_entry`. -/
def printRequest (r : Ptr) (s : State) : Loop State :=
  let s := { s with
    STAP_RETVALUE := int64 (s.STAP_RETVALUE + 1)
    out := s.out ++ [q.requestLine r] }
  match (q.req r).bio with
  -- `bio->bi_opf` of a null pointer
  | none => .fault s
  | some b =>
    andThen
      (walk (fun node => node.isNone) (nextBio q.bio (q.req r).biotail)
        (printBio q (op (q.bio b).biOpf) (flags (q.bio b).biOpf)) fuel (some b) s)
      fun s => .ended { s with out := s.out ++ [.nums r s.bioNums] }

def listRequestQueue : Loop State :=
  walk (fun r => r == q.queueHead) q.next (printRequest q fuel) fuel (q.next q.queueHead)
    ⟨[], 0, 0⟩

end

/-! ## The report -/

section
variable (q : Queue)

/-- The lines of a request, each bio with its own operation and flags. -/
def Queue.reportOf (r : Ptr) : List Line :=
  q.requestLine r ::
    (q.bios r).map (fun b => q.bioLine (op (q.bio b).biOpf) (flags (q.bio b).biOpf) b) ++
    [.nums r (q.bios r).length]

/-- The function ends, with the lines of every request and their number. -/
def Reports : Prop :=
  ∃ fuel s, listRequestQueue q fuel = .ended s ∧ s.out = q.requests.flatMap q.reportOf ∧
    s.STAP_RETVALUE = q.requests.length

/-- Each bio of the request has its device. -/
def HasDevices (r : Ptr) : Prop := ∀ b ∈ q.bios r, (q.bio b).biBdev.isSome = true

/-- At most one request, with bios that have devices, and one `bi_opf` for all of them. -/
def Uniform : Prop :=
  q.requests.length ≤ 1 ∧ ∀ r ∈ q.requests,
    q.bios r ≠ [] ∧ (q.bios r).length < 2 ^ 31 ∧ HasDevices q r ∧
      ∀ b ∈ q.bios r, ∀ c ∈ q.bios r, (q.bio b).biOpf = (q.bio c).biOpf

end

/-! ## One request -/

theorem toNat_op (opf : UInt32) : (op opf).toNat = opf.toNat / 2 ^ 29 := by
  unfold op
  rw [UInt32.toNat_shiftRight, Nat.shiftRight_eq_div_pow]
  rfl

theorem toNat_flags (opf : UInt32) : (flags opf).toNat = opf.toNat % 2 ^ 29 := by
  unfold flags
  rw [UInt32.toNat_and]
  exact Nat.and_two_pow_sub_one_eq_mod opf.toNat 29

/-- The operation and the flags are all of `bi_opf`. -/
theorem opf_eq {a b : UInt32} (hop : op a = op b) (hflags : flags a = flags b) : a = b := by
  have hhigh := congrArg UInt32.toNat hop
  have hlow := congrArg UInt32.toNat hflags
  rw [toNat_op, toNat_op] at hhigh
  rw [toNat_flags, toNat_flags] at hlow
  apply UInt32.toNat_inj.mp
  rw [← Nat.div_add_mod a.toNat (2 ^ 29), hhigh, hlow, Nat.div_add_mod]

section
variable {q : Queue}

/-- The lines of a request, with the operation and the flags of the bio `b`. -/
def Queue.printed (q : Queue) (r b : Ptr) (nums : Int) : List Line :=
  q.requestLine r ::
    (q.bios r).map (q.bioLine (op (q.bio b).biOpf) (flags (q.bio b).biOpf)) ++ [.nums r nums]

theorem printed_eq_iff {r b : Ptr} {nums : Int} :
    q.printed r b nums = q.reportOf r ↔
      nums = (q.bios r).length ∧ ∀ c ∈ q.bios r, (q.bio b).biOpf = (q.bio c).biOpf := by
  unfold Queue.printed Queue.reportOf
  constructor
  · intro heq
    obtain ⟨hbios, hnums⟩ := List.append_inj' heq rfl
    have hmap := List.map_inj_left.mp (List.cons.inj hbios).2
    refine ⟨(Line.nums.inj (List.cons.inj hnums).1).2, fun c hc => ?_⟩
    obtain ⟨-, -, -, -, hop, hflags⟩ := Line.bio.inj (hmap c hc)
    exact opf_eq hop hflags
  · intro h
    obtain ⟨rfl, hsame⟩ := h
    congr 2
    apply List.map_congr_left
    intro c hc
    rw [hsame c hc]

/-- The bios are printed as far as each has its device. -/
theorem runAll_printBio (reqOp flag : UInt32) (l : List Ptr) (out : List Line) (n : Nat)
    (ret : Int) {s : State} :
    runAll (printBio q reqOp flag) (l.map some) ⟨out, int32 n, ret⟩ = .ended s ↔
      (∀ b ∈ l, (q.bio b).biBdev.isSome = true) ∧
        s = ⟨out ++ l.map (q.bioLine reqOp flag), int32 ((n + l.length : Nat) : Int), ret⟩ := by
  induction l generalizing out n with
  | nil =>
    rw [List.map_nil, List.map_nil, List.append_nil, runAll, Loop.ended.injEq]
    exact ⟨fun h => ⟨fun b hb => absurd hb List.not_mem_nil, h.symm⟩, fun h => h.2.symm⟩
  | cons b l ih =>
    have hcount : n + 1 + l.length = n + (b :: l).length := by rw [List.length_cons]; omega
    rw [List.map_cons, List.forall_mem_cons]
    cases hdev : (q.bio b).biBdev with
    | none =>
      have hhere : printBio q reqOp flag (some b) ⟨out, int32 n, ret⟩ =
          .fault ⟨out, int32 n, ret⟩ := by
        simp only [printBio, hdev]
      rw [runAll, hhere]
      exact iff_of_false (by simp [andThen]) fun h => absurd h.1.1 (by simp)
    | some dev =>
      have hhere : printBio q reqOp flag (some b) ⟨out, int32 n, ret⟩ =
          .ended ⟨out ++ [q.bioLine reqOp flag b], int32 (int32 n + 1), ret⟩ := by
        simp only [printBio, hdev]
      rw [runAll_cons hhere, ForLoop.int32_succ, ih, hcount, List.append_assoc,
        Option.isSome_some, eq_self, true_and]
      rfl

/-- `req->bio` is the first bio. -/
theorem Queue.bio_eq_head {r : Ptr} (h : r ∈ q.requests) : (q.req r).bio = (q.bios r).head? := by
  have hchain := q.chain r h
  generalize (q.req r).bio = bio at hchain ⊢
  cases hbios : q.bios r with
  | nil =>
    rw [hbios] at hchain
    cases hchain
    rfl
  | cons b l =>
    rw [hbios] at hchain
    cases hchain
    rfl

/-- **A request is printed if it has a bio and each bio its device, and then with what the first
    bio says.** -/
theorem printRequest_iff {r : Ptr} (h : r ∈ q.requests) {fuel n : Nat} {out : List Line}
    {ret : Int} {s : State} :
    printRequest q fuel r ⟨out, int32 n, ret⟩ = .ended s ↔
      ∃ b l, q.bios r = b :: l ∧ (q.bios r).length ≤ fuel ∧ HasDevices q r ∧
        s = ⟨out ++ q.printed r b (int32 ((n + (q.bios r).length : Nat) : Int)),
          int32 ((n + (q.bios r).length : Nat) : Int), int64 (ret + 1)⟩ := by
  have hchain := q.chain r h
  have hhead := q.bio_eq_head h
  unfold printRequest
  dsimp only
  cases hbios : q.bios r with
  | nil =>
    rw [hbios, List.head?_nil] at hhead
    rw [hhead]
    constructor
    · intro hrun
      exact absurd hrun (by simp)
    · intro hrun
      obtain ⟨b, l, hcons, -⟩ := hrun
      exact absurd hcons (by simp)
  | cons b l =>
    rw [hbios, List.head?_cons] at hhead
    rw [hhead] at hchain ⊢
    dsimp only
    constructor
    · intro hrun
      obtain ⟨t, hwalk, hend⟩ := andThen_ended hrun
      obtain ⟨hfuel, hall⟩ := (walk_ended_iff hchain not_isNone rfl).mp hwalk
      obtain ⟨hdevs, rfl⟩ := (runAll_printBio _ _ _ _ _ _).mp hall
      rw [List.length_map] at hfuel
      refine ⟨b, l, rfl, hbios ▸ hfuel, fun c hc => hdevs c (hbios ▸ hc), ?_⟩
      rw [← Loop.ended.inj hend, ← hbios]
      unfold Queue.printed
      simp
    · intro hrun
      obtain ⟨b', l', hcons, hfuel, hdevs, rfl⟩ := hrun
      obtain ⟨rfl, rfl⟩ := List.cons.inj hcons
      rw [← hbios] at hfuel ⊢
      rw [walk_chain hchain not_isNone rfl (by rw [List.length_map]; exact hfuel),
        (runAll_printBio _ _ _ _ _ _).mpr ⟨hdevs, rfl⟩]
      unfold Queue.printed
      simp [andThen]

end

/-! ## The queue -/

section
variable {q : Queue}

/-- What was printed stays. -/
theorem out_of_run {fuel n : Nat} {l : List Ptr} {out : List Line} {ret : Int} {s : State}
    (hl : ∀ r ∈ l, r ∈ q.requests)
    (hrun : runAll (printRequest q fuel) l ⟨out, int32 n, ret⟩ = .ended s) :
    ∃ more, s.out = out ++ more := by
  induction l generalizing out n ret with
  | nil =>
    rw [← Loop.ended.inj hrun]
    exact ⟨[], (List.append_nil out).symm⟩
  | cons r l ih =>
    obtain ⟨t, hhere, hrest⟩ := andThen_ended hrun
    obtain ⟨b, bs, -, -, -, rfl⟩ := (printRequest_iff (hl r List.mem_cons_self)).mp hhere
    obtain ⟨more, hmore⟩ := ih (fun c hc => hl c (List.mem_cons_of_mem r hc)) hrest
    exact ⟨_ ++ more, hmore.trans (List.append_assoc _ _ _)⟩

/-- A right report begins with the right lines of the first request, and goes on with those of
the others. -/
theorem right_of_run {fuel n : Nat} {r : Ptr} {l : List Ptr} {out : List Line} {ret : Int}
    {s : State} (hl : ∀ c ∈ r :: l, c ∈ q.requests)
    (hrun : runAll (printRequest q fuel) (r :: l) ⟨out, int32 n, ret⟩ = .ended s)
    (hout : s.out = out ++ (r :: l).flatMap q.reportOf) :
    q.bios r ≠ [] ∧ int32 ((n + (q.bios r).length : Nat) : Int) = (q.bios r).length ∧
      HasDevices q r ∧ (∀ b ∈ q.bios r, ∀ c ∈ q.bios r, (q.bio b).biOpf = (q.bio c).biOpf) ∧
      runAll (printRequest q fuel) l ⟨out ++ q.reportOf r,
        int32 ((n + (q.bios r).length : Nat) : Int), int64 (ret + 1)⟩ = .ended s := by
  obtain ⟨t, hhere, hrest⟩ := andThen_ended hrun
  obtain ⟨b, bs, hcons, -, hdevs, rfl⟩ := (printRequest_iff (hl r List.mem_cons_self)).mp hhere
  have hprefix := out_of_run (fun c hc => hl c (List.mem_cons_of_mem r hc)) hrest
  obtain ⟨more, hmore⟩ := hprefix
  rw [List.flatMap_cons, hmore, List.append_assoc] at hout
  have hlength : ∀ nums, (q.printed r b nums).length = (q.reportOf r).length := by
    intro nums
    unfold Queue.printed Queue.reportOf
    simp
  have hlines := (List.append_inj (List.append_cancel_left hout) (hlength _)).1
  obtain ⟨hnums, hsame⟩ := printed_eq_iff.mp hlines
  rw [hlines] at hrest
  refine ⟨?_, hnums, hdevs, fun c hc d hd => (hsame c hc).symm.trans (hsame d hd), hrest⟩
  rw [hcons]
  exact List.cons_ne_nil b bs

/-- The counter of the queue is right for one request only. -/
theorem counter_once {m n : Nat} (hm : m ≠ 0) (hfirst : int32 (m : Nat) = m)
    (hnext : int32 ((m + n : Nat) : Int) = n) : False := by
  have hrange := (int32_range (m : Nat)).2
  unfold int32 at hfirst hnext hrange
  rw [Int.bmod_def] at hfirst hnext hrange
  omega

theorem listRequestQueue_iff {fuel : Nat} {s : State} :
    listRequestQueue q fuel = .ended s ↔ q.requests.length ≤ fuel ∧
      runAll (printRequest q fuel) q.requests ⟨[], 0, 0⟩ = .ended s := by
  unfold listRequestQueue
  exact walk_ended_iff q.ring.chain q.ring.ne_head (beq_self_eq_true q.queueHead)

theorem uniform_of_reports (h : Reports q) : Uniform q := by
  obtain ⟨fuel, s, hrun, hout, -⟩ := h
  have hall := (listRequestQueue_iff.mp hrun).2
  unfold Uniform
  generalize hreq : q.requests = l at hall hout ⊢
  have hl : ∀ r ∈ l, r ∈ q.requests := fun r hr => hreq ▸ hr
  cases l with
  | nil => exact ⟨Nat.zero_le 1, fun r hr => absurd hr List.not_mem_nil⟩
  | cons r l =>
    obtain ⟨hne, hnums, hdevs, hsame, hrest⟩ := right_of_run (n := 0) hl hall hout
    rw [Nat.zero_add] at hnums hrest
    have hint := (int32_range ((q.bios r).length : Nat)).2
    rw [hnums] at hint
    cases l with
    | nil =>
      refine ⟨Nat.le_refl 1, fun c hc => ?_⟩
      rw [List.mem_singleton.mp hc]
      exact ⟨hne, by omega, hdevs, hsame⟩
    | cons r' l =>
      rw [List.flatMap_cons] at hout
      obtain ⟨-, hnext, -⟩ :=
        right_of_run (fun c hc => hl c (List.mem_cons_of_mem r hc)) hrest hout
      exact absurd hnext fun hnext => counter_once (mt List.length_eq_zero_iff.mp hne) hnums hnext

theorem reports_of_uniform (h : Uniform q) : Reports q := by
  obtain ⟨hone, hall⟩ := h
  unfold Reports
  generalize hreq : q.requests = l at hone hall ⊢
  cases l with
  | nil =>
    refine ⟨0, ⟨[], 0, 0⟩, listRequestQueue_iff.mpr ?_, rfl, rfl⟩
    rw [hreq]
    exact ⟨Nat.le_refl 0, rfl⟩
  | cons r l =>
    obtain rfl : l = [] :=
      List.eq_nil_of_length_eq_zero (Nat.le_zero.mp (Nat.le_of_succ_le_succ hone))
    obtain ⟨hne, hint, hdevs, hsame⟩ := hall r List.mem_cons_self
    obtain ⟨b, bs, hcons⟩ := List.exists_cons_of_ne_nil hne
    have hmem : r ∈ q.requests := hreq ▸ List.mem_cons_self
    have hb : b ∈ q.bios r := hcons ▸ List.mem_cons_self
    have hnums : int32 ((0 + (q.bios r).length : Nat) : Int) = (q.bios r).length := by
      rw [Nat.zero_add]
      exact int32_of_range (by omega) (by omega)
    have hlines : q.printed r b (q.bios r).length = q.reportOf r :=
      printed_eq_iff.mpr ⟨rfl, hsame b hb⟩
    have hbody : printRequest q (1 + (q.bios r).length) r ⟨[], int32 (0 : Nat), 0⟩ =
        .ended ⟨[] ++ q.printed r b _, _, _⟩ :=
      (printRequest_iff hmem).mpr ⟨b, bs, hcons, Nat.le_add_left _ _, hdevs, rfl⟩
    rw [hnums, hlines] at hbody
    have hrun : listRequestQueue q (1 + (q.bios r).length) =
        .ended ⟨[] ++ q.reportOf r, (q.bios r).length, int64 (0 + 1)⟩ := by
      refine listRequestQueue_iff.mpr ⟨?_, ?_⟩
      · rw [hreq]
        exact Nat.le_add_right 1 _
      · rw [hreq]
        exact runAll_cons hbody []
    refine ⟨_, _, hrun, ?_, rfl⟩
    rw [List.flatMap_singleton]
    exact List.nil_append _

end

/-- **The report is right exactly for at most one request whose bios have their devices and one
    `bi_opf`.** -/
theorem reports_iff (q : Queue) : Reports q ↔ Uniform q :=
  ⟨uniform_of_reports, reports_of_uniform⟩

/-- Two requests of one bio each. -/
def twoRequests : Queue where
  queueHead := 0
  next r := if r = 2 then 0 else r + 1
  prev r := if r = 0 then 2 else r - 1
  req r := ⟨8 * r, 4096, some r, some r⟩
  bio _ := ⟨none, 0x20000000, some 0x800010, 0, 4096⟩
  requests := [1, 2]
  bios r := [r]
  ring := ⟨.cons (.cons (.nil 0)), by decide, by decide⟩
  chain r _ := .cons (by
    show Chain _ (if some r = some r then none else none) [] none
    rw [if_pos rfl]
    exact .nil none)

/-- The second one is said to have two bios. -/
theorem not_reports_twoRequests : ¬ Reports twoRequests :=
  fun h => absurd (uniform_of_reports h).1 (by decide)

end LinuxSummary.Systemtap
