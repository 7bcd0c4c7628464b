/-
  Several clients of `get_pid_va.py` at one module.

  The clients share the two variables. Beside them it is recorded, for each file, whose write
  was the last to be accepted (`kstrtol` takes the text).

  `ends_as_alone`: in every run in which no other client's write to a file is accepted between
  a client's last accepted write to it and a read of the client, each client ends as it does
  alone. Nothing in the module sees to that: `not_ends_as_alone`.
-/
import LinuxSummary.Zproc.Translate

namespace LinuxSummary.Zproc

open Prog
open Relation (ReflTransGen)

variable {ι : Type}

/-- The variables of the module, and who wrote to each file last, as far as that was accepted. -/
structure Shared (ι : Type) where
  vars : Vars
  pidBy : Option ι
  physBy : Option ι

/-- The last accepted writer, behind a write of `i` that `n` comes of. -/
def writer (i : ι) (n : Option Int) (before : Option ι) : Option ι :=
  if n.isSome then some i else before

/-- A request of client `i`. -/
def serveFor (k : Kernel) (i : ι) (q : Ask) (s : Shared ι) : q.Reply × Shared ι :=
  ((serve k q s.vars).1,
    { vars := (serve k q s.vars).2
      pidBy := match q with
        | .writeMminfo buf => writer i (written? 10 k.beyond buf) s.pidBy
        | _ => s.pidBy
      physBy := match q with
        | .writePhysvalue buf => writer i (written? 16 k.beyond buf) s.physBy
        | _ => s.physBy })

/-- The last accepted write was the client's own, or there was none. -/
def OwnLast (i : ι) (last : Option ι) : Prop := last = none ∨ last = some i

/-- No other client's write to the file was accepted behind the client's own last one. -/
def Undisturbed (i : ι) (q : Ask) (s : Shared ι) : Prop :=
  match q with
  | .readMminfo => OwnLast i s.pidBy
  | .readPhysvalue => OwnLast i s.physBy
  | _ => True

/-- No request has to wait, as in the module. -/
def AnyTime (_ : ι) (_ : Ask) (_ : Shared ι) : Prop := True

/-- The module before any request, and the clients before their first. -/
def start (v : Vars) (input : ι → Int × Int) : Shared ι × (ι → Py Report) :=
  (⟨v, none, none⟩, fun i => main (input i).1 (input i).2)

/-! ## One variable -/

/-- A variable has the value `own` unless another client wrote it last. -/
def HasOwn (i : ι) (last : Option ι) (value own : Int) : Prop := OwnLast i last → value = own

/-- What a client writes, it also writes when it is alone. -/
theorem HasOwn.write {i : ι} {last : Option ι} {value own : Int} (h : HasOwn i last value own)
    (n : Option Int) : HasOwn i (writer i n last) (n.getD value) (n.getD own) := by
  cases n with
  | none => exact h
  | some m => exact fun _ => rfl

theorem OwnLast.writer {i : ι} {last : Option ι} (h : OwnLast i last) (n : Option Int) :
    OwnLast i (writer i n last) := by
  cases n with
  | none => exact h
  | some m => exact .inr rfl

/-- What another one writes is refused, or shows. -/
theorem HasOwn.other {i j : ι} (hj : j ≠ i) {last : Option ι} {value own : Int}
    (h : HasOwn i last value own) (n : Option Int) :
    HasOwn i (writer j n last) (n.getD value) own := by
  cases n with
  | none => exact h
  | some m =>
    rintro (hlast | hlast)
    · exact absurd hlast (by simp [writer])
    · exact absurd (Option.some.inj hlast) hj

/-! ## The clients -/

/-- What the client would find alone it finds, where it wrote last. -/
structure AsAlone (i : ι) (s : Shared ι) (own : Vars) : Prop where
  pid : HasOwn i s.pidBy s.vars.pid own.pid
  phys : HasOwn i s.physBy s.vars.phys own.phys

theorem serve_writeMminfo (k : Kernel) (buf : Text) (v : Vars) :
    (serve k (.writeMminfo buf) v).2 =
      { v with pid := (written? 10 k.beyond buf).getD v.pid } := by
  rw [← procWrite_stored]
  rfl

theorem serve_writePhysvalue (k : Kernel) (buf : Text) (v : Vars) :
    (serve k (.writePhysvalue buf) v).2 =
      { v with phys := (written? 16 k.beyond buf).getD v.phys } := by
  rw [← procWrite_stored]
  rfl

/-- Whatever another client asks for. -/
theorem AsAlone.other {k : Kernel} {i j : ι} (hj : j ≠ i) {s : Shared ι} {own : Vars}
    (h : AsAlone i s own) (q : Ask) : AsAlone i (serveFor k j q s).2 own := by
  cases q with
  | readMminfo => exact h
  | readPhysvalue => exact h
  | writeMminfo buf =>
    refine ⟨?_, h.phys⟩
    show HasOwn i (writer j _ s.pidBy) (serve k (.writeMminfo buf) s.vars).2.pid own.pid
    rw [serve_writeMminfo]
    exact h.pid.other hj _
  | writePhysvalue buf =>
    refine ⟨h.pid, ?_⟩
    show HasOwn i (writer j _ s.physBy) (serve k (.writePhysvalue buf) s.vars).2.phys own.phys
    rw [serve_writePhysvalue]
    exact h.phys.other hj _

/-- A request of the client: a refused write leaves both variables, an accepted one sets both,
    and an undisturbed read finds the same. -/
theorem AsAlone.own {k : Kernel} {i : ι} {s : Shared ι} {own : Vars} (h : AsAlone i s own)
    {q : Ask} (hq : Undisturbed i q s) :
    (serveFor k i q s).1 = (serve k q own).1 ∧
      AsAlone i (serveFor k i q s).2 (serve k q own).2 := by
  cases q with
  | readMminfo => exact ⟨congrArg (mminfoShow k) (h.pid hq), h⟩
  | readPhysvalue => exact ⟨congrArg (physValueShow k) (h.phys hq), h⟩
  | writeMminfo buf =>
    refine ⟨rfl, ?_, h.phys⟩
    show HasOwn i (writer i _ s.pidBy) (serve k (.writeMminfo buf) s.vars).2.pid
      (serve k (.writeMminfo buf) own).2.pid
    rw [serve_writeMminfo, serve_writeMminfo]
    exact h.pid.write _
  | writePhysvalue buf =>
    refine ⟨rfl, h.pid, ?_⟩
    show HasOwn i (writer i _ s.physBy) (serve k (.writePhysvalue buf) s.vars).2.phys
      (serve k (.writePhysvalue buf) own).2.phys
    rw [serve_writePhysvalue, serve_writePhysvalue]
    exact h.phys.write _

/-- **Undisturbed clients end as alone**, with the same `cr3`, entries, address and word. -/
theorem ends_as_alone [DecidableEq ι] {k : Kernel} {v : Vars} {input : ι → Int × Int}
    {c : Shared ι × (ι → Py Report)}
    (hrun : ReflTransGen (PoolStep (serveFor k) Undisturbed) (start v input) c) (i : ι)
    {r : Except Exn Report} (hend : c.2 i = ended r) :
    r = (run (serve k) (main (input i).1 (input i).2) v).1 := by
  have hstart : AsAlone i (start v input).1 v := ⟨fun _ => rfl, fun _ => rfl⟩
  have hsat : Sat (serveFor k i) (others (serveFor k) Undisturbed i) (Undisturbed i)
      (fun r _ => r = (run (serve k) (main (input i).1 (input i).2) v).1)
      (main (input i).1 (input i).2) (start v input).1 := by
    have hrely : ∀ s s' own, AsAlone i s own → others (serveFor k) Undisturbed i s s' →
        AsAlone i s' own := by
      intro s s' own hs hother
      obtain ⟨j, hj, q, -, rfl⟩ := hother
      exact hs.other hj q
    have hown : ∀ q s own, AsAlone i s own → Undisturbed i q s →
        (serveFor k i q s).1 = (serve k q own).1 ∧
          AsAlone i (serveFor k i q s).2 (serve k q own).2 := fun q s own hs hq => hs.own hq
    exact sat_of_simulation hrely hown _ hstart
  have hproj := PoolStep.project hrun i
  rw [hend] at hproj
  have hfinal := Sat.run hsat hproj
  cases r with
  | ok report => exact hfinal _ ReflTransGen.refl
  | error e => exact hfinal _ ReflTransGen.refl

/-- One client asks for the task that there is, the other for one that there is not. -/
def twoPids (i : Bool) : Int × Int := if i then (1, 0) else (2, 0)

def oneTask : Kernel := bootKernel 0x2001 0x3001 0x4001 0x5001

/-- A client writes its pid. -/
theorem writes_pid {guard : Bool → Ask → Shared Bool → Prop} {i : Bool} {s : Shared Bool}
    {ps : Bool → Py Report} (hp : ps i = main (twoPids i).1 0)
    (hg : guard i (.writeMminfo (Printf.dec (twoPids i).1)) s) :
    PoolStep (serveFor oneTask) guard (s, ps)
      ((serveFor oneTask i (.writeMminfo (Printf.dec (twoPids i).1)) s).2,
        Function.update ps i (.ask .readMminfo (fromMminfo 0))) :=
  PoolStep.ask hp hg

/-- The other client has been told that its task is not there, and goes on from the address 0,
    when the first begins. -/
theorem ends_as_alone_oneTask : ∃ c : Shared Bool × (Bool → Py Report),
    ReflTransGen (PoolStep (serveFor oneTask) Undisturbed) (start ⟨0, 0⟩ twoPids) c ∧
    c.2 false = walk 0 (getX86Pte 0) ∧
    ∃ r, c.2 true = ended r ∧ r = (run (serve oneTask) (main 1 0) ⟨0, 0⟩).1 := by
  obtain ⟨rest, hrest⟩ : ∃ rest : Py Report, rest = .ask .readMminfo (fromMminfo 0) := ⟨_, rfl⟩
  obtain ⟨s1, hs1⟩ : ∃ s1, s1 = (serveFor oneTask false (.writeMminfo (Printf.dec 2))
      (start ⟨0, 0⟩ twoPids).1).2 := ⟨_, rfl⟩
  obtain ⟨s2, hs2⟩ : ∃ s2, s2 = (serveFor oneTask true (.writeMminfo (Printf.dec 1)) s1).2 :=
    ⟨_, rfl⟩
  obtain ⟨ps1, hps1⟩ : ∃ ps1, ps1 = Function.update (start ⟨0, 0⟩ twoPids).2 false rest :=
    ⟨_, rfl⟩
  obtain ⟨ps2, hps2⟩ : ∃ ps2, ps2 = Function.update ps1 false (walk 0 (getX86Pte 0)) := ⟨_, rfl⟩
  obtain ⟨ps3, hps3⟩ : ∃ ps3, ps3 = Function.update ps2 true rest := ⟨_, rfl⟩
  have h1 : PoolStep (serveFor oneTask) Undisturbed (start ⟨0, 0⟩ twoPids) (s1, ps1) := by
    rw [hs1, hps1, hrest]
    exact writes_pid (i := false) rfl trivial
  have h2 : PoolStep (serveFor oneTask) Undisturbed (s1, ps1) (s1, ps2) := by
    have hturn : ps1 false = .ask .readMminfo (fromMminfo 0) := by
      rw [hps1, hrest]
      exact Function.update_self false _ _
    have hown : s1.pidBy = some false := by
      rw [hs1]
      decide +kernel
    have htold : fromMminfo 0 (serveFor oneTask false .readMminfo s1).1 =
        walk 0 (getX86Pte 0) := by
      have hreply : mminfoShow oneTask s1.vars.pid = some "pid:2 find task error\n".toList := by
        rw [hs1]
        decide +kernel
      have hcr3 : cr3Of "pid:2 find task error\n".toList = .ok 0 := by rfl
      show fromMminfo 0 (mminfoShow oneTask s1.vars.pid) = walk 0 (getX86Pte 0)
      rw [hreply, fromMminfo, hcr3]
    rw [hps2, ← htold]
    exact PoolStep.ask hturn (.inr hown)
  have h3 : PoolStep (serveFor oneTask) Undisturbed (s1, ps2) (s2, ps3) := by
    have hturn : ps2 true = main 1 0 := by
      rw [hps2, hps1]
      rfl
    rw [hs2, hps3, hrest]
    exact writes_pid (i := true) hturn trivial
  -- from here on the first client wrote last to both files
  have hguard : ∀ q (s : Shared Bool), OwnLast true s.pidBy ∧ OwnLast true s.physBy →
      Undisturbed true q s := by
    intro q s hs
    cases q with
    | writeMminfo buf => trivial
    | readMminfo => exact hs.1
    | writePhysvalue buf => trivial
    | readPhysvalue => exact hs.2
  have hkeep : ∀ q (s : Shared Bool), OwnLast true s.pidBy ∧ OwnLast true s.physBy →
      OwnLast true (serveFor oneTask true q s).2.pidBy ∧
        OwnLast true (serveFor oneTask true q s).2.physBy := by
    intro q s hs
    cases q with
    | writeMminfo buf => exact ⟨hs.1.writer _, hs.2⟩
    | readMminfo => exact hs
    | writePhysvalue buf => exact ⟨hs.1, hs.2.writer _⟩
    | readPhysvalue => exact hs
  have hlast : OwnLast true s2.pidBy ∧ OwnLast true s2.physBy := by
    rw [hs2, hs1]
    exact ⟨.inr (by decide +kernel), .inl rfl⟩
  have hrun := pool_of_run hguard hkeep rest hlast ps3
  have hsame : Function.update ps3 true rest = ps3 := by
    rw [hps3, Function.update_idem]
  rw [hsame] at hrun
  have hall := (ReflTransGen.single h1).trans
    ((ReflTransGen.single h2).trans ((ReflTransGen.single h3).trans hrun))
  have hend : Function.update ps3 true (ended (run (serveFor oneTask true) rest s2).1) true =
      ended _ := Function.update_self true _ _
  refine ⟨_, hall, ?_, _, hend, ends_as_alone hall true hend⟩
  rw [hps3, hps2]
  rfl

/-- The other client's pid comes between: the first client walks from the address 0. -/
theorem not_ends_as_alone : ∃ c : Shared Bool × (Bool → Py Report),
    ReflTransGen (PoolStep (serveFor oneTask) AnyTime) (start ⟨0, 0⟩ twoPids) c ∧
    ∃ r, c.2 true = ended r ∧ r ≠ (run (serve oneTask) (main 1 0) ⟨0, 0⟩).1 := by
  have hany : ∀ i q s, @AnyTime Bool i q s := fun _ _ _ => trivial
  -- both write their pid, and the first client runs on
  obtain ⟨rest, hrest⟩ : ∃ rest : Py Report, rest = .ask .readMminfo (fromMminfo 0) := ⟨_, rfl⟩
  obtain ⟨s1, hs1⟩ : ∃ s1, s1 = (serveFor oneTask true (.writeMminfo (Printf.dec 1))
      (start ⟨0, 0⟩ twoPids).1).2 := ⟨_, rfl⟩
  obtain ⟨s2, hs2⟩ : ∃ s2, s2 = (serveFor oneTask false (.writeMminfo (Printf.dec 2)) s1).2 :=
    ⟨_, rfl⟩
  obtain ⟨ps1, hps1⟩ : ∃ ps1, ps1 = Function.update (start ⟨0, 0⟩ twoPids).2 true rest := ⟨_, rfl⟩
  obtain ⟨ps2, hps2⟩ : ∃ ps2, ps2 = Function.update ps1 false rest := ⟨_, rfl⟩
  have h1 : PoolStep (serveFor oneTask) AnyTime (start ⟨0, 0⟩ twoPids) (s1, ps1) := by
    rw [hs1, hps1, hrest]
    exact writes_pid (i := true) rfl (hany _ _ _)
  have h2 : PoolStep (serveFor oneTask) AnyTime (s1, ps1) (s2, ps2) := by
    have hwaits : ps1 false = main 2 0 := by
      rw [hps1]
      exact Function.update_of_ne (by decide) _ _
    rw [hs2, hps2, hrest]
    exact writes_pid (i := false) hwaits (hany _ _ _)
  have hrun : ReflTransGen (PoolStep (serveFor oneTask) AnyTime)
      (s2, Function.update ps2 true rest) _ :=
    pool_of_run (I := fun _ => True) (fun q s _ => hany true q s) (fun _ _ _ => trivial) rest
      trivial ps2
  have hturn : Function.update ps2 true rest = ps2 := by
    rw [Function.update_eq_self_iff, hps2, hps1]
    rfl
  rw [hturn] at hrun
  refine ⟨_, (ReflTransGen.single h1).trans ((ReflTransGen.single h2).trans hrun), _,
    Function.update_self true _ ps2, ?_⟩
  rw [hrest, hs2, hs1]
  decide +kernel

end LinuxSummary.Zproc
