/-
  The two encodings of a class: the text written to `net_cls.classid` and the argument
  `classid <tc_major>:<hex(pid)>` of `tc class add`.

  The first glues the major and four or more hex digits of the pid, the second separates
  them. They designate one class for the pids that fit in 16 bits. For the others `tc` refuses
  the second in `tc_class_del`, before anything is written.

  `tag_is_class`: in every run of `net_cls_tc_create`, whatever is written as a tag and whatever
  class is asked for are one class, whose minor is the pid.
-/
import LinuxSummary.Cgroup.Shaping

namespace LinuxSummary.Cgroup

open Prog

/-- `net_cls.classid` as the kernel reads it: 32 bits, major and minor 16 each. -/
def readClassid (s : Text) : Option (Nat × Nat) :=
  (parseHex s).map fun n => (n % 2 ^ 32 / 2 ^ 16, n % 2 ^ 16)

/-- The number that the written text stands for. -/
theorem parseHex_classidText {m : Text} (hm : IsMajor m) (pid : Nat) :
    parseHex (classidText m pid) = some (Numeral.value 16 m *
      16 ^ (max 4 (Nat.toDigits 16 pid).length) + pid) := by
  have hpre : "0x".toList <+: classidText m pid := by
    rw [classidText, List.append_assoc]
    exact List.prefix_append _ _
  have hdrop : (classidText m pid).drop 2 = m ++ Numeral.padLeft 4 (Nat.toDigits 16 pid) := rfl
  have hall : (m ++ Numeral.padLeft 4 (Nat.toDigits 16 pid)).all (Numeral.isDigitOf 16) = true := by
    rw [List.all_append, Bool.and_eq_true]
    refine ⟨List.all_eq_true.mpr fun c hc => isDigitOf_of_isDec (hm.dec c hc), ?_⟩
    exact Numeral.padLeft_all (by decide) 4 (Numeral.toDigits_all (by decide) (by decide) pid)
  have hne : m ++ Numeral.padLeft 4 (Nat.toDigits 16 pid) ≠ [] := by simp [hm.ne]
  rw [parseHex, if_pos hpre, hdrop, Numeral.readDigits, if_pos ⟨hne, hall⟩, Numeral.value_append,
    Numeral.length_padLeft, Numeral.value_padLeft,
    Numeral.value_toDigits (by decide) (by decide)]

/-- A pid of 16 bits takes four digits, and major and minor stay apart. -/
theorem readClassid_small {m : Text} (hm : IsMajor m) {pid : Nat} (hp : pid < 65536) :
    readClassid (classidText m pid) = some (classOf m pid) := by
  have hlen : (Nat.toDigits 16 pid).length ≤ 4 :=
    (Nat.length_toDigits_le_iff (by decide) (by decide)).mpr hp
  have hlt := hm.lt
  rw [readClassid, parseHex_classidText hm, Nat.max_eq_left hlen, Option.map_some,
    Option.some.injEq, classOf, Prod.mk.injEq]
  omega

/-! ## What a run asks for -/

/-- The queries of a run of `net_cls_tc_create`, with the states they meet. -/
def tagSteps (sys : Sys) (fails : Cmd → Bool) (pid : Nat) (dev value : Text) (w : World) :
    List (Ask × World) :=
  trace (exec sys fails) (netClsTcCreate pid dev value) w

/-- `cgset -r net_cls.classid=<text> <name>` -/
def Tags (steps : List (Ask × World)) (text name : Text) : Prop :=
  ∃ w, (Ask.sh (.cgset netClsClassid text name), w) ∈ steps

/-- `tc class add dev <dev> parent <parent> classid <classid> ..` -/
def AddsClass (steps : List (Ask × World)) (dev classid : Text) : Prop :=
  ∃ parent value w, (Ask.sh (.tcClassAdd dev parent classid value), w) ∈ steps

/-- A query that neither tags a group nor adds a class. -/
def asksNeither (q : Ask) : Prop :=
  (∀ text name, q ≠ .sh (.cgset netClsClassid text name)) ∧
    ∀ dev parent classid value, q ≠ .sh (.tcClassAdd dev parent classid value)

/-- A query that tags and adds for one major and pid only. -/
def asksFor (m : Text) (pid : Nat) (dev : Text) (q : Ask) : Prop :=
  (∀ text name, q = .sh (.cgset netClsClassid text name) →
    text = classidText m pid ∧ name = getCgroupName pid) ∧
  ∀ d parent classid value, q = .sh (.tcClassAdd d parent classid value) →
    d = dev ∧ classid = m ++ ':' :: hexText pid

theorem asksFor_of_neither {m : Text} {pid : Nat} {dev : Text} {q : Ask} (h : asksNeither q) :
    asksFor m pid dev q :=
  ⟨fun text name hq => absurd hq (h.1 text name),
    fun d parent classid value hq => absurd hq (h.2 d parent classid value)⟩

theorem asks_checkOutput {c : Cmd} (hc : asksNeither (.sh c)) :
    (checkOutput c).Only asksNeither fun _ => True :=
  ⟨hc, fun _ => (only_require trivial).bind fun _ => trivial⟩

theorem asks_call {A : Ask → Prop} {c : Cmd} (hc : A (.sh c)) : (call c).Only A fun _ => True :=
  ⟨hc, fun _ => trivial⟩

theorem asks_tcQdiscAdd (dev : Text) : (tcQdiscAdd dev).Only asksNeither fun _ => True := by
  have hshow : (tcQdiscGetQdiscAndMajor dev).Only asksNeither fun _ => True := by
    refine (asks_checkOutput ⟨by simp, by simp⟩).bind fun out => ?_
    split <;> exact trivial
  refine hshow.bind fun found => ?_
  rcases found with ⟨qdisc, major⟩
  dsimp only
  split
  · exact (asks_call ⟨by simp, by simp⟩).bind fun _ => trivial
  · exact trivial

theorem asks_tcClassDel (pid : Nat) (dev m : Text) :
    (tcClassDel (.int pid) dev m).Only asksNeither fun _ => True := by
  refine (asks_checkOutput ⟨by simp, by simp⟩).bind fun out => ?_
  split
  · exact asks_call ⟨by simp, by simp⟩
  · exact trivial

theorem asks_tcFilterAdd (dev m : Text) :
    (tcFilterAdd dev m).Only asksNeither fun _ => True := by
  refine (asks_checkOutput ⟨by simp, by simp⟩).bind fun out => ?_
  split
  · exact trivial
  · exact asks_call ⟨by simp, by simp⟩

theorem asks_cgcreate (name : Text) :
    (cgcreate .netCls name).Only asksNeither fun _ => True := by
  have hcheck : (checkCgroupExist .netCls name).Only asksNeither fun _ => True :=
    (asks_checkOutput ⟨by simp, by simp⟩).bind fun _ => by exact trivial
  refine hcheck.bind fun b => ?_
  cases b with
  | true => exact (asks_call ⟨by simp, by simp⟩).bind fun _ => asks_call ⟨by simp, by simp⟩
  | false => exact asks_call ⟨by simp, by simp⟩

/-- What comes behind `tc_class_del`. -/
def tagging (pid : Nat) (dev value m : Text) : Py Unit := do
  call (.tcClassAdd dev (m ++ [':']) (m ++ ':' :: hexText pid) value)
  tcFilterAdd dev m
  cgcreate .netCls (getCgroupName pid)
  cgset netClsClassid (classidText m pid) (getCgroupName pid)
  cgclassify .netCls (getCgroupName pid) pid

theorem asks_tagging (pid : Nat) (dev value m : Text) :
    (tagging pid dev value m).Only (asksFor m pid dev) fun _ => True := by
  have hadd : asksFor m pid dev
      (.sh (.tcClassAdd dev (m ++ [':']) (m ++ ':' :: hexText pid) value)) := by
    refine ⟨by simp, fun d parent classid v h => ?_⟩
    simp only [Ask.sh.injEq, Cmd.tcClassAdd.injEq] at h
    exact ⟨h.1.symm, h.2.2.1.symm⟩
  refine (asks_call hadd).bind fun _ => ?_
  refine ((asks_tcFilterAdd dev m).mono fun _ => asksFor_of_neither).bind fun _ => ?_
  refine ((asks_cgcreate _).mono fun _ => asksFor_of_neither).bind fun _ => ?_
  have hget : (cggetKey netClsClassid (getCgroupName pid)).Only (asksFor m pid dev)
      fun _ => True :=
    ⟨⟨by simp, by simp⟩, fun _ => (only_require trivial).bind fun _ => trivial⟩
  have hset : (cgset netClsClassid (classidText m pid) (getCgroupName pid)).Only
      (asksFor m pid dev) fun _ => True :=
    hget.bind fun _ => asks_call ⟨by simp, by simp⟩
  exact hset.bind fun _ => asks_call ⟨by simp, by simp⟩

theorem netClsTcCreate_eq (pid : Nat) (dev value : Text) :
    netClsTcCreate pid dev value = tcQdiscAdd dev >>= fun m =>
      tcClassDel (.int pid) dev m >>= fun _ => tagging pid dev value m := by
  unfold netClsTcCreate tcQdiscClassFilterCreate tcClassAdd tagging
  simp only [bind_assoc]
  rfl

section
variable (sys : Sys) (fails : Cmd → Bool)

/-- `tc_class_del` ends normally for the pids of 16 bits only. -/
theorem small_of_classDel {m dev : Text} (hm : IsMajor m) {pid : Nat} {w w' : World}
    (h : run (exec sys fails) (tcClassDel (.int pid) dev m) w = (.ok (), w')) : pid < 65536 := by
  rw [run_tc sys fails (only_tcClassDel (.int pid) dev m),
    run_tcClassDel sys fails hm dev pid w.tc] at h
  by_contra hp
  rw [if_neg fun hok => hp hok.2] at h
  exact absurd (Prod.mk.inj h).1 (by simp)

/-- **What a run asks for is about one class**, and only for a pid of 16 bits. -/
theorem mem_tagSteps {pid : Nat} {dev value : Text} {w : World} {x : Ask × World}
    (hx : x ∈ tagSteps sys fails pid dev value w) :
    asksNeither x.1 ∨ ∃ m, w.tc.majorOf dev = some m ∧ IsMajor m ∧ pid < 65536 ∧
      asksFor m pid dev x.1 := by
  rw [tagSteps, netClsTcCreate_eq, trace_bind, List.mem_append] at hx
  rcases hx with hx | hx
  · exact .inl ((asks_tcQdiscAdd dev).trace _ hx)
  · split at hx
    · next m w' hadd =>
      obtain ⟨hmajor, hm⟩ := majorOf_of_run sys fails hadd
      rw [trace_bind, List.mem_append] at hx
      rcases hx with hx | hx
      · exact .inl ((asks_tcClassDel pid dev m).trace _ hx)
      · split at hx
        · next hdel =>
          exact .inr ⟨m, hmajor, hm, small_of_classDel sys fails hm hdel,
            (asks_tagging pid dev value m).trace _ hx⟩
        · exact absurd hx List.not_mem_nil
    · exact absurd hx List.not_mem_nil

/-- A run that ends normally has tagged the group and asked for the class. -/
theorem asks_of_ok {pid : Nat} {dev value : Text} {w w' : World}
    (h : run (exec sys fails) (netClsTcCreate pid dev value) w = (.ok (), w')) :
    (∃ text, Tags (tagSteps sys fails pid dev value w) text (getCgroupName pid)) ∧
      ∃ classid, AddsClass (tagSteps sys fails pid dev value w) dev classid := by
  unfold tagSteps
  rw [netClsTcCreate_eq] at h ⊢
  obtain ⟨m, w1, hqdisc, h⟩ := ok_of_bind _ h
  obtain ⟨_, w2, hdel, h⟩ := ok_of_bind _ h
  rw [trace_bind_ok _ hqdisc, trace_bind_ok _ hdel]
  refine ⟨⟨classidText m pid, ?_⟩, ⟨m ++ ':' :: hexText pid, m ++ [':'], value, w2, ?_⟩⟩
  · obtain ⟨_, w3, hadd, h⟩ := ok_of_bind _ h
    obtain ⟨_, w4, hfilter, h⟩ := ok_of_bind _ h
    obtain ⟨_, w5, hcreate, h⟩ := ok_of_bind _ h
    obtain ⟨_, w6, hset, -⟩ := ok_of_bind _ h
    obtain ⟨_, w7, hget, -⟩ := ok_of_bind _ hset
    refine ⟨w7, List.mem_append_right _ (List.mem_append_right _ ?_)⟩
    rw [tagging, trace_bind_ok _ hadd, trace_bind_ok _ hfilter, trace_bind_ok _ hcreate,
      cgset, bind_assoc, trace_bind_ok _ hget]
    refine List.mem_append_right _ (List.mem_append_right _ (List.mem_append_right _
      (List.mem_append_right _ ?_)))
    exact List.mem_cons_self
  · exact List.mem_append_right _ (List.mem_append_right _ List.mem_cons_self)

/-- What is tagged. -/
theorem of_tags {pid : Nat} {dev value : Text} {w : World} {text name : Text}
    (h : Tags (tagSteps sys fails pid dev value w) text name) :
    ∃ m, w.tc.majorOf dev = some m ∧ IsMajor m ∧ pid < 65536 ∧ text = classidText m pid ∧
      name = getCgroupName pid := by
  obtain ⟨w1, hmem⟩ := h
  rcases mem_tagSteps sys fails hmem with hneither | ⟨m, hmajor, hm, hp, hfor⟩
  · exact absurd rfl (hneither.1 text name)
  · exact ⟨m, hmajor, hm, hp, hfor.1 text name rfl⟩

/-- What class is asked for. -/
theorem of_addsClass {pid : Nat} {dev value : Text} {w : World} {d classid : Text}
    (h : AddsClass (tagSteps sys fails pid dev value w) d classid) :
    ∃ m, w.tc.majorOf dev = some m ∧ IsMajor m ∧ pid < 65536 ∧ d = dev ∧
      classid = m ++ ':' :: hexText pid := by
  obtain ⟨parent, v, w1, hmem⟩ := h
  rcases mem_tagSteps sys fails hmem with hneither | ⟨m, hmajor, hm, hp, hfor⟩
  · exact absurd rfl (hneither.2 d parent classid v)
  · exact ⟨m, hmajor, hm, hp, hfor.2 d parent classid v rfl⟩

/-- A run for a pid of more than 16 bits raises. -/
theorem raises_of_large {pid : Nat} (hlarge : 65536 ≤ pid) (dev value : Text) (w : World) :
    ∃ e, (run (exec sys fails) (netClsTcCreate pid dev value) w).1 = .error e := by
  rcases hrun : run (exec sys fails) (netClsTcCreate pid dev value) w with ⟨_ | _, w'⟩
  · exact ⟨_, rfl⟩
  · obtain ⟨⟨text, htags⟩, -⟩ := asks_of_ok sys fails hrun
    obtain ⟨m, -, -, hp, -⟩ := of_tags sys fails htags
    omega

/-- **Tag and class are one, in every run**: whatever text is written to `net_cls.classid`, for
    the group of the pid, and whatever class is asked for, on the interface, are the class of the
    major that `tc_qdisc_add` has returned and of the pid; so different pids are never tagged
    with one class. A run that ends normally has written the one and asked for the other; for a
    pid of more than 16 bits it raises, and does neither. -/
theorem tag_is_class (pid : Nat) (dev value : Text) (w : World) :
    (∀ text name d classid, Tags (tagSteps sys fails pid dev value w) text name →
      AddsClass (tagSteps sys fails pid dev value w) d classid →
        name = getCgroupName pid ∧ d = dev ∧ ∃ m, w.tc.majorOf dev = some m ∧
          readClassid text = some (classOf m pid) ∧ parseClassid classid = some (classOf m pid)) ∧
    (∀ pid' dev' value' w' text name text' name',
      Tags (tagSteps sys fails pid dev value w) text name →
        Tags (tagSteps sys fails pid' dev' value' w') text' name' →
          readClassid text = readClassid text' → pid = pid') ∧
    (∀ w', run (exec sys fails) (netClsTcCreate pid dev value) w = (.ok (), w') →
      (∃ text, Tags (tagSteps sys fails pid dev value w) text (getCgroupName pid)) ∧
        ∃ classid, AddsClass (tagSteps sys fails pid dev value w) dev classid) ∧
    (65536 ≤ pid →
      (∃ e, (run (exec sys fails) (netClsTcCreate pid dev value) w).1 = .error e) ∧
        (∀ text name, ¬ Tags (tagSteps sys fails pid dev value w) text name) ∧
          ∀ d classid, ¬ AddsClass (tagSteps sys fails pid dev value w) d classid) := by
  refine ⟨?_, ?_, fun w' h => asks_of_ok sys fails h,
    fun hlarge => ⟨raises_of_large sys fails hlarge dev value w, ?_, ?_⟩⟩
  · intro text name d classid htags hadds
    obtain ⟨m, hmajor, hm, hp, rfl, rfl⟩ := of_tags sys fails htags
    obtain ⟨m', hmajor', -, -, rfl, rfl⟩ := of_addsClass sys fails hadds
    obtain rfl := Option.some.inj (hmajor.symm.trans hmajor')
    exact ⟨rfl, rfl, m, hmajor, readClassid_small hm hp, by rw [hm.parseClassid, if_pos hp]; rfl⟩
  · intro pid' dev' value' w' text name text' name' htags htags' heq
    obtain ⟨m, -, hm, hp, rfl, -⟩ := of_tags sys fails htags
    obtain ⟨m', -, hm', hp', rfl, -⟩ := of_tags sys fails htags'
    rw [readClassid_small hm hp, readClassid_small hm' hp'] at heq
    exact congrArg Prod.snd (Option.some.inj heq)
  · intro text name htags
    obtain ⟨m, -, -, hp, -⟩ := of_tags sys fails htags
    omega
  · intro d classid hadds
    obtain ⟨m, -, -, hp, -⟩ := of_addsClass sys fails hadds
    omega

end

set_option maxRecDepth 20000 in
theorem run_tagging_boot : ∃ w', run (exec Sys.boot noFailure)
    (netClsTcCreate 7 "eth0".toList "10M".toList) World.boot = (.ok (), w') := by
  have hok : ((run (exec Sys.boot noFailure)
      (netClsTcCreate 7 "eth0".toList "10M".toList) World.boot).1.toOption).isSome = true := by
    decide +kernel
  rcases hrun : run (exec Sys.boot noFailure) (netClsTcCreate 7 "eth0".toList "10M".toList)
      World.boot with ⟨_ | _, w'⟩
  · rw [hrun] at hok
    exact absurd hok (by simp [Except.toOption])
  · exact ⟨w', rfl⟩

/-- The process 7 is tagged with the class that is made for it, and the first pid behind 16 bits
    is not tagged. -/
theorem tag_is_class_boot :
    (∃ text classid id,
      Tags (tagSteps Sys.boot noFailure 7 "eth0".toList "10M".toList World.boot) text
        (getCgroupName 7) ∧
      AddsClass (tagSteps Sys.boot noFailure 7 "eth0".toList "10M".toList World.boot) "eth0".toList
        classid ∧
      readClassid text = some id ∧ parseClassid classid = some id ∧ id.2 = 7) ∧
    ∃ e, (run (exec Sys.boot noFailure) (netClsTcCreate 65536 "eth0".toList "10M".toList)
      World.boot).1 = .error e := by
  obtain ⟨hone, -, hok, -⟩ :=
    tag_is_class Sys.boot noFailure 7 "eth0".toList "10M".toList World.boot
  obtain ⟨w', hrun⟩ := run_tagging_boot
  obtain ⟨⟨text, htags⟩, classid, hadds⟩ := hok w' hrun
  obtain ⟨-, -, m, -, hread, hparse⟩ := hone text _ _ classid htags hadds
  refine ⟨⟨text, classid, classOf m 7, htags, hadds, hread, hparse, rfl⟩, ?_⟩
  exact ((tag_is_class Sys.boot noFailure 65536 "eth0".toList "10M".toList World.boot).2.2.2
    (by decide)).1

end LinuxSummary.Cgroup
