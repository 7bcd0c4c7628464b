/-
  The functions of the script that shape traffic, one rule for each.

  `IsMajor` is what every major text of the script is: decimal digits whose value in base
  16 is a handle. With it the arguments of `tc` parse, and the classes, filters and roots
  that the functions leave have closed forms: `Tc.withRoot`, `addedClass`,
  `Tc.withFilter`. `majorOf_withRoot` and its companions say that the major of an
  interface stays what it was.
-/
import LinuxSummary.Cgroup.Requests
import LinuxSummary.Cgroup.Traffic

namespace LinuxSummary.Cgroup

open Prog Pattern Text

/-! ## Major texts -/

/-- A major as the script holds it. -/
structure IsMajor (m : Text) : Prop where
  ne : m ≠ []
  dec : ∀ c ∈ m, isDec c = true
  lt : Numeral.value 16 m < 65536

theorem isDigitOf_of_isDec {c : Char} (h : isDec c = true) : Numeral.isDigitOf 16 c = true := by
  simp only [isDec, Bool.and_eq_true, decide_eq_true_eq] at h
  have hle : c.toNat ≤ '9'.toNat := h.2
  have hval : Numeral.digitVal c = some (c.toNat - 48) := by
    simp [Numeral.digitVal, h.1, h.2]
  rw [Numeral.isDigitOf, hval]
  have h9 : '9'.toNat = 57 := rfl
  exact decide_eq_true (by omega)

theorem isMajor_368 : IsMajor "368".toList where
  ne := by decide
  dec := List.all_eq_true.mp (show "368".toList.all isDec = true from rfl)
  lt := by decide

theorem isMajor_handleText {q : Qdisc} (hdec : ∀ c ∈ handleText q.handle, isDec c = true) :
    IsMajor (handleText q.handle) where
  ne := Nat.toDigits_ne_nil
  dec := hdec
  lt := by
    rw [handleText, Numeral.value_toDigits (by decide) (by decide)]
    exact q.handle_lt

/-- **The root that is found is one of the qdiscs**, and its major a handle. -/
theorem rootOf_mem {tc : Tc} {dev : Text} {r : Text × Text} (h : tc.rootOf dev = some r) :
    ∃ q ∈ tc.qdiscs dev, r = (q.kind, handleText q.handle) ∧ IsMajor r.2 := by
  rw [Tc.rootOf] at h
  split at h
  · split at h
    · next hs =>
      obtain ⟨line, hline, hs⟩ := search_textOf hs
      obtain ⟨q, hq, rfl⟩ := List.mem_map.mp hline
      obtain ⟨state, hgs, hdec⟩ := search_line hs
      simp only [List.cons.injEq] at hgs
      rw [hgs.1, hgs.2.1] at h
      obtain rfl := Option.some.inj h
      exact ⟨q, hq, rfl, isMajor_handleText hdec⟩
    · exact absurd h (by simp)
  · exact absurd h (by simp)

theorem hasHtb_of_rootOf {tc : Tc} {dev : Text} {r : Text × Text} (h : tc.rootOf dev = some r)
    (hr : r.1 = "htb".toList) : tc.hasHtb dev (Numeral.value 16 r.2) = true := by
  obtain ⟨q, hq, rfl, -⟩ := rootOf_mem h
  refine List.any_eq_true.mpr ⟨q, hq, ?_⟩
  have hval : q.handle = Numeral.value 16 (handleText q.handle) :=
    (Numeral.value_toDigits (by decide) (by decide) q.handle).symm
  rw [Bool.and_eq_true]
  exact ⟨decide_eq_true hr, decide_eq_true hval⟩

theorem isMajor_pickMajor {tc : Tc} {dev : Text} {r : Text × Text} (h : tc.rootOf dev = some r) :
    IsMajor (pickMajor r) := by
  obtain ⟨q, -, -, hr⟩ := rootOf_mem h
  unfold pickMajor
  split
  · exact hr
  · exact isMajor_368

/-! ## Arguments that parse -/

/-- `hex(pid)` of a number. -/
def hexText (n : Nat) : Text := "0x".toList ++ Nat.toDigits 16 n

theorem parseHex_hexText (n : Nat) : parseHex (hexText n) = some n := by
  have hpre : "0x".toList <+: hexText n := List.prefix_append _ _
  rw [parseHex, if_pos hpre]
  exact Numeral.readDigits_toDigits (by decide) (by decide) n

section
variable {m : Text} (hm : IsMajor m)
include hm

theorem IsMajor.readDigits : Numeral.readDigits 16 m = some (Numeral.value 16 m) := by
  have hall : m.all (Numeral.isDigitOf 16) = true :=
    List.all_eq_true.mpr fun c hc => isDigitOf_of_isDec (hm.dec c hc)
  rw [Numeral.readDigits, if_pos ⟨hm.ne, hall⟩]

theorem IsMajor.parseHex : parseHex m = some (Numeral.value 16 m) := by
  have hx : ¬ "0x".toList <+: m := by
    intro h
    obtain ⟨t, rfl⟩ := h
    exact absurd (hm.dec 'x' (by simp)) (by decide)
  rw [LinuxSummary.Cgroup.parseHex, if_neg hx, hm.readDigits]

theorem IsMajor.colon_not_mem : ':' ∉ m := fun h => absurd (hm.dec ':' h) (by decide)

theorem IsMajor.parseMajor : parseMajor (m ++ [':']) = some (Numeral.value 16 m) := by
  obtain ⟨h1, -⟩ := takeWhile_colon (b := []) hm.colon_not_mem
  have h2 : (m ++ [':']).dropWhile (· ≠ ':') = [':'] := by
    rw [List.dropWhile_append_of_pos]
    · simp
    · intro c hc
      simp only [ne_eq, decide_eq_true_eq]
      intro heq
      obtain rfl := heq
      exact hm.colon_not_mem hc
  rw [LinuxSummary.Cgroup.parseMajor, h1, hm.parseHex]
  simp only [hm.lt, h2, and_self, if_true]

theorem IsMajor.parseClassid (pid : Nat) :
    parseClassid (m ++ ':' :: hexText pid) =
      if pid < 65536 then some (Numeral.value 16 m, pid) else none := by
  obtain ⟨h1, h2⟩ := takeWhile_colon (b := hexText pid) hm.colon_not_mem
  rw [LinuxSummary.Cgroup.parseClassid, h1, h2, hm.parseHex, parseHex_hexText]
  simp only [hm.lt, true_and]

end

/-! ## The root -/

section
variable (sys : Sys) (fails : Cmd → Bool)

theorem run_tcQdiscGetQdiscAndMajor (dev : Text) (tc : Tc) :
    (∃ r, tc.rootOf dev = some r ∧
      run (serveTc sys fails) (tcQdiscGetQdiscAndMajor dev) tc = (.ok r, tc)) ∨
    (tc.rootOf dev = none ∧
      ∃ e, run (serveTc sys fails) (tcQdiscGetQdiscAndMajor dev) tc = (.error e, tc)) := by
  have hshow : serveTc sys fails (.sh (.tcQdiscShow (some dev))) tc =
      (if dev ∈ tc.ifaces then (.ok (tc.qdiscLines dev), tc) else (.failed, tc)) := rfl
  unfold Tc.rootOf tcQdiscGetQdiscAndMajor tcQdiscShow
  by_cases hdev : dev ∈ tc.ifaces
  · rw [if_pos hdev] at hshow
    rw [if_pos hdev, run_bind_ok _ (run_checkOutput_ok _ hshow)]
    generalize search qdiscRe (textOf (tc.qdiscLines dev)) = found
    rcases found with _ | ⟨whole, _ | ⟨qdisc, _ | ⟨major, rest⟩⟩⟩
    · exact .inr ⟨rfl, .assertionBare, rfl⟩
    · exact .inr ⟨rfl, .assertionBare, rfl⟩
    · exact .inr ⟨rfl, .assertionBare, rfl⟩
    · exact .inl ⟨_, rfl, rfl⟩
  · rw [if_neg hdev] at hshow
    rw [if_neg hdev, run_bind_error _ (run_checkOutput_failed _ hshow)]
    exact .inr ⟨rfl, _, rfl⟩

/-- The root qdisc that the script makes: `htb` with the handle `368:`. -/
def htb368 : Qdisc := htbRoot 872 (by decide)

/-- What `tc_qdisc_add` leaves, when it finds the root `r`. -/
def Tc.withRoot (tc : Tc) (dev : Text) (r : Text × Text) : Tc :=
  if r.1 ≠ "htb".toList ∧ fails (.tcQdiscAdd dev "368".toList) = false ∧ tc.hasRoot dev = false then
    tc.setRoot dev htb368
  else tc

theorem run_tcQdiscAdd {dev : Text} {tc : Tc} {r : Text × Text} (h : tc.rootOf dev = some r) :
    run (serveTc sys fails) (tcQdiscAdd dev) tc =
      (.ok (pickMajor r), tc.withRoot fails dev r) := by
  have hdev := Tc.mem_ifaces_of_rootOf h
  have hget : run (serveTc sys fails) (tcQdiscGetQdiscAndMajor dev) tc = (.ok r, tc) := by
    rcases run_tcQdiscGetQdiscAndMajor sys fails dev tc with ⟨r', hr', hrun⟩ | ⟨hnone, -⟩
    · rw [h] at hr'
      obtain rfl := Option.some.inj hr'
      exact hrun
    · rw [h] at hnone
      exact absurd hnone (by simp)
  have hadd : (serveTc sys fails (.sh (.tcQdiscAdd dev "368".toList)) tc).2 =
      if fails (.tcQdiscAdd dev "368".toList) = false ∧ tc.hasRoot dev = false then
        tc.setRoot dev htb368 else tc := by
    have hparse : parseHex "368".toList = some 872 := by decide
    simp only [serveTc, Cmd.failable, Bool.true_and]
    cases hf : fails (.tcQdiscAdd dev "368".toList) with
    | true => simp
    | false =>
      simp only [Bool.false_eq_true, if_false, execTc, hparse, hdev, true_and]
      by_cases hr : tc.hasRoot dev = false
      · rw [dif_pos ⟨by decide, hr⟩, if_pos hr]
        rfl
      · rw [dif_neg (fun h => hr h.2), if_neg hr]
  rw [tcQdiscAdd, run_bind_ok _ hget]
  unfold Tc.withRoot pickMajor
  by_cases hq : r.1 = "htb".toList
  · simp only [hq, ne_eq, not_true_eq_false, if_false, if_true, false_and]
    rfl
  · simp only [hq, ne_eq, not_false_eq_true, if_true, if_false, true_and, ← hadd]
    exact run_bind_ok _ (run_call (serveTc sys fails) (.tcQdiscAdd dev "368".toList) tc) _

/-- The majors that `tc_qdisc_add` can return. -/
theorem majorOf_of_run {dev m : Text} {w w' : World}
    (h : run (exec sys fails) (tcQdiscAdd dev) w = (.ok m, w')) :
    w.tc.majorOf dev = some m ∧ IsMajor m := by
  rw [run_tc sys fails (only_tcQdiscAdd dev)] at h
  have hok := (Prod.mk.inj h).1
  rcases run_tcQdiscGetQdiscAndMajor sys fails dev w.tc with ⟨r, hr, -⟩ | ⟨-, e, he⟩
  · rw [run_tcQdiscAdd sys fails hr] at hok
    obtain rfl := Except.ok.inj hok
    exact ⟨by rw [Tc.majorOf, hr]; rfl, isMajor_pickMajor hr⟩
  · rw [tcQdiscAdd, run_bind_error _ he] at hok
    exact absurd hok (by simp)

/-! ## Classes and filters -/

theorem setClass_none_eq {tc : Tc} {dev : Text} {id : Nat × Nat} (h : tc.classes dev id = none) :
    tc.setClass dev id none = tc := by
  apply Tc.ext
  · rfl
  · rfl
  · show Function.update tc.classes dev (Function.update (tc.classes dev) id none) = tc.classes
    rw [← h, Function.update_eq_self, Function.update_eq_self]
  · rfl

theorem setClass_setClass (tc : Tc) (dev : Text) (id : Nat × Nat) (c c' : Option HtbParams) :
    (tc.setClass dev id c).setClass dev id c' = tc.setClass dev id c' := by
  apply Tc.ext
  · rfl
  · rfl
  · simp [Tc.setClass]
  · rfl

theorem setClass_classes (tc : Tc) (dev : Text) (id : Nat × Nat) (c : Option HtbParams)
    (d : Text) (i : Nat × Nat) :
    (tc.setClass dev id c).classes d i = if d = dev ∧ i = id then c else tc.classes d i := by
  by_cases hd : d = dev
  · subst hd
    by_cases hi : i = id
    · simp [Tc.setClass, hi]
    · simp [Tc.setClass, hi]
  · simp [Tc.setClass, hd]

variable {m : Text} (hm : IsMajor m) (dev : Text) (pid : Nat) (tc : Tc)

/-- The class that the script makes for `pid` below the major `m`. -/
def classOf (m : Text) (pid : Nat) : Nat × Nat := (Numeral.value 16 m, pid)

include hm

/-- Deleting the class of a pid: what does not fit in 16 bits makes `tc` fail. -/
theorem run_tcClassDel :
    run (serveTc sys fails) (tcClassDel (.int pid) dev m) tc =
      if dev ∈ tc.ifaces ∧ pid < 65536 then (.ok (), tc.setClass dev (classOf m pid) none)
      else (.error (.calledProcessError 1), tc) := by
  have hparse := hm.parseClassid pid
  have hshow : serveTc sys fails (.sh (.tcClassShow dev (m ++ ':' :: hexText pid))) tc =
      if dev ∈ tc.ifaces ∧ pid < 65536 then
        (.ok (if (tc.classes dev (classOf m pid)).isSome then
          ["class htb ".toList ++ (m ++ ':' :: hexText pid)] else []), tc)
      else (.failed, tc) := by
    simp only [serveTc, Cmd.failable, Bool.false_and, Bool.false_eq_true, if_false, execTc, hparse]
    by_cases hpid : pid < 65536
    · simp only [hpid, if_true, and_true]
      rfl
    · simp only [hpid, if_false, and_false]
  have hdel : (serveTc sys fails (.sh (.tcClassDel dev (m ++ ':' :: hexText pid))) tc).2 =
      if pid < 65536 ∧ (tc.classes dev (classOf m pid)).isSome then
        tc.setClass dev (classOf m pid) none else tc := by
    simp only [serveTc, Cmd.failable, Bool.false_and, Bool.false_eq_true, if_false, execTc, hparse]
    by_cases hpid : pid < 65536
    · simp only [hpid, if_true, true_and]
      rw [show (Numeral.value 16 m, pid) = classOf m pid from rfl]
      by_cases hc : (tc.classes dev (classOf m pid)).isSome = true
      · rw [if_pos hc, if_pos hc]
      · rw [if_neg hc, if_neg hc]
    · simp only [hpid, if_false, false_and]
  have hprog : tcClassDel (.int pid) dev m =
      checkOutput (.tcClassShow dev (m ++ ':' :: hexText pid)) >>= fun out =>
        if out.length > 0 then call (.tcClassDel dev (m ++ ':' :: hexText pid)) else return () :=
    rfl
  rw [hprog]
  by_cases hok : dev ∈ tc.ifaces ∧ pid < 65536
  · rw [if_pos hok] at hshow
    rw [if_pos hok, run_bind_ok _ (run_checkOutput_ok _ hshow)]
    by_cases hc : (tc.classes dev (classOf m pid)).isSome = true
    · rw [if_pos ⟨hok.2, hc⟩] at hdel
      rw [if_pos hc, if_pos (by simp), run_call, hdel]
    · have hnone : tc.classes dev (classOf m pid) = none := by simpa using hc
      rw [if_neg hc, if_neg (by simp), setClass_none_eq hnone]
      rfl
  · rw [if_neg hok] at hshow
    rw [if_neg hok, run_bind_error _ (run_checkOutput_failed _ hshow)]

/-- The class that `tc_class_add` leaves: a new one, or none if the command fails. -/
def addedClass (m dev : Text) (pid : Nat) (value : Text) (tc : Tc) : Option HtbParams :=
  if fails (.tcClassAdd dev (m ++ [':']) (m ++ ':' :: hexText pid) value) = false ∧
      tc.hasHtb dev (Numeral.value 16 m) = true then some (htbParams value)
  else none

theorem run_tcClassAdd (value : Text) :
    run (serveTc sys fails) (tcClassAdd (.int pid) dev value m) tc =
      if dev ∈ tc.ifaces ∧ pid < 65536 then
        (.ok (), tc.setClass dev (classOf m pid) (addedClass fails m dev pid value tc))
      else (.error (.calledProcessError 1), tc) := by
  have hdel := run_tcClassDel sys fails hm dev pid tc
  by_cases hok : dev ∈ tc.ifaces ∧ pid < 65536
  · rw [if_pos hok] at hdel
    have hadd : (serveTc sys fails
        (.sh (.tcClassAdd dev (m ++ [':']) (m ++ ':' :: hexText pid) value))
        (tc.setClass dev (classOf m pid) none)).2 =
        tc.setClass dev (classOf m pid) (addedClass fails m dev pid value tc) := by
      have hnone : (tc.setClass dev (classOf m pid) none).classes dev (classOf m pid) = none := by
        rw [setClass_classes, if_pos ⟨rfl, rfl⟩]
      have hhtb : (tc.setClass dev (classOf m pid) none).hasHtb dev (Numeral.value 16 m) =
          tc.hasHtb dev (Numeral.value 16 m) := rfl
      have hif : (tc.setClass dev (classOf m pid) none).ifaces = tc.ifaces := rfl
      simp only [serveTc, Cmd.failable, Bool.true_and, execTc, hm.parseMajor, hm.parseClassid pid,
        if_pos hok.2, hif, hok.1, hhtb, true_and, addedClass]
      cases fails (.tcClassAdd dev (m ++ [':']) (m ++ ':' :: hexText pid) value) with
      | true => simp
      | false =>
        simp only [Bool.false_eq_true, if_false, true_and]
        rw [show (Numeral.value 16 m, pid) = classOf m pid from rfl, hnone]
        by_cases hh : tc.hasHtb dev (Numeral.value 16 m) = true
        · simp [hh, setClass_setClass]
        · simp [hh]
    have hprog : tcClassAdd (.int pid) dev value m = tcClassDel (.int pid) dev m >>= fun _ =>
        call (.tcClassAdd dev (m ++ [':']) (m ++ ':' :: hexText pid) value) := rfl
    rw [if_pos hok, hprog, run_bind_ok _ hdel, run_call, hadd]
  · rw [if_neg hok] at hdel
    rw [if_neg hok, tcClassAdd, run_bind_error _ hdel]

/-- What `tc_filter_add` leaves. -/
def Tc.withFilter (tc : Tc) (dev m : Text) : Tc :=
  if occursIn "cgroup".toList (textOf ((tc.filters dev (Numeral.value 16 m)).map (·.line))) then tc
  else if fails (.tcFilterAdd dev (m ++ [':'])) = false ∧
      tc.hasQdisc dev (Numeral.value 16 m) = true then
    tc.addFilter dev (Numeral.value 16 m) cgroupFilter
  else tc

theorem run_tcFilterAdd (hdev : dev ∈ tc.ifaces) :
    run (serveTc sys fails) (tcFilterAdd dev m) tc = (.ok (), tc.withFilter fails dev m) := by
  have hshow : serveTc sys fails (.sh (.tcFilterShow dev (m ++ [':']))) tc =
      (.ok ((tc.filters dev (Numeral.value 16 m)).map (·.line)), tc) := by
    simp only [serveTc, Cmd.failable, Bool.false_and, Bool.false_eq_true, if_false, execTc,
      hm.parseMajor, if_pos hdev]
  have hadd : (serveTc sys fails (.sh (.tcFilterAdd dev (m ++ [':']))) tc).2 =
      if fails (.tcFilterAdd dev (m ++ [':'])) = false ∧
        tc.hasQdisc dev (Numeral.value 16 m) = true then
        tc.addFilter dev (Numeral.value 16 m) cgroupFilter else tc := by
    simp only [serveTc, Cmd.failable, Bool.true_and, execTc, hm.parseMajor, hdev, true_and]
    cases fails (.tcFilterAdd dev (m ++ [':'])) with
    | true => simp
    | false =>
      simp only [Bool.false_eq_true, if_false, true_and]
      split <;> rfl
  rw [tcFilterAdd, run_bind_ok _ (run_checkOutput_ok _ hshow), Tc.withFilter]
  split
  · rfl
  · rw [run_call, hadd]

omit hm

/-! ## The whole traffic control part -/

/-- What the script leaves of the traffic control state for a limit, when it finds the root
    `r` and the pid has 16 bits. -/
def Tc.shaped (tc : Tc) (dev : Text) (r : Text × Text) (pid : Nat) (value : Text) : Tc :=
  ((tc.withRoot fails dev r).setClass dev (classOf (pickMajor r) pid)
    (addedClass fails (pickMajor r) dev pid value (tc.withRoot fails dev r))).withFilter fails dev
      (pickMajor r)

@[simp] theorem withRoot_ifaces (r : Text × Text) :
    (tc.withRoot fails dev r).ifaces = tc.ifaces := by
  unfold Tc.withRoot
  split <;> rfl

@[simp] theorem withFilter_ifaces (m : Text) :
    (tc.withFilter fails dev m).ifaces = tc.ifaces := by
  unfold Tc.withFilter
  split
  · rfl
  · split <;> rfl

@[simp] theorem withFilter_qdiscs (m : Text) :
    (tc.withFilter fails dev m).qdiscs = tc.qdiscs := by
  unfold Tc.withFilter
  split
  · rfl
  · split <;> rfl

@[simp] theorem withFilter_classes (m : Text) :
    (tc.withFilter fails dev m).classes = tc.classes := by
  unfold Tc.withFilter
  split
  · rfl
  · split <;> rfl

theorem run_tcQdiscClassFilterCreate {r : Text × Text} (h : tc.rootOf dev = some r)
    (value : Text) :
    run (serveTc sys fails) (tcQdiscClassFilterCreate pid dev value) tc =
      if pid < 65536 then (.ok (pickMajor r), tc.shaped fails dev r pid value)
      else (.error (.calledProcessError 1), tc.withRoot fails dev r) := by
  have hm := isMajor_pickMajor h
  have hdev : dev ∈ (tc.withRoot fails dev r).ifaces := by
    rw [withRoot_ifaces]
    exact Tc.mem_ifaces_of_rootOf h
  have hclass := run_tcClassAdd sys fails hm dev pid (tc.withRoot fails dev r) value
  rw [tcQdiscClassFilterCreate, run_bind_ok _ (run_tcQdiscAdd sys fails h)]
  by_cases hpid : pid < 65536
  · rw [if_pos ⟨hdev, hpid⟩] at hclass
    rw [if_pos hpid, run_bind_ok _ hclass]
    have hfilter := run_tcFilterAdd sys fails hm dev
      ((tc.withRoot fails dev r).setClass dev (classOf (pickMajor r) pid)
        (addedClass fails (pickMajor r) dev pid value (tc.withRoot fails dev r))) hdev
    exact run_bind_ok _ hfilter _
  · rw [if_neg (fun hc => hpid hc.2)] at hclass
    rw [if_neg hpid, run_bind_error _ hclass]

/-! ### The major of an interface stays -/

theorem rootOf_congr {tc tc' : Tc} (hif : tc'.ifaces = tc.ifaces) {d : Text}
    (hq : tc'.qdiscs d = tc.qdiscs d) : tc'.rootOf d = tc.rootOf d := by
  simp only [Tc.rootOf, Tc.qdiscLines, hif, hq]

/-- Behind a new root, the script finds that root. -/
theorem rootOf_setRoot (hdev : dev ∈ tc.ifaces) :
    (tc.setRoot dev htb368).rootOf dev = some ("htb".toList, "368".toList) := by
  have hlines : ∃ lines, (tc.setRoot dev htb368).qdiscLines dev = htb368.line :: lines := by
    refine ⟨((tc.qdiscs dev).filter (·.isIngress)).map (·.line), ?_⟩
    simp [Tc.qdiscLines, Tc.setRoot]
  obtain ⟨lines, hlines⟩ := hlines
  have hsearch : search qdiscRe htb368.line =
      some ⟨"qdisc htb 368: root".toList, ["htb".toList, "368".toList, "root".toList]⟩ := rfl
  have htext : search qdiscRe (textOf (htb368.line :: lines)) =
      some ⟨"qdisc htb 368: root".toList, ["htb".toList, "368".toList, "root".toList]⟩ := by
    have hcons : textOf (htb368.line :: lines) = htb368.line ++ '\n' :: textOf lines := by
      simp only [textOf, List.flatMap_cons, List.append_assoc, List.cons_append, List.nil_append]
    rw [hcons, search_append_cons qdiscRe_avoids rfl, hsearch]
  rw [Tc.rootOf, if_pos (show dev ∈ (tc.setRoot dev htb368).ifaces from hdev), hlines, htext]

theorem rootOf_setRoot_of_ne (q : Qdisc) {d : Text} (hd : d ≠ dev) :
    (tc.setRoot dev q).rootOf d = tc.rootOf d := by
  have hif : (tc.setRoot dev q).ifaces = tc.ifaces := rfl
  have hq : (tc.setRoot dev q).qdiscs d = tc.qdiscs d := Function.update_of_ne hd _ _
  exact rootOf_congr hif hq

theorem majorOf_withRoot {r : Text × Text} (h : tc.rootOf dev = some r) (d : Text) :
    (tc.withRoot fails dev r).majorOf d = tc.majorOf d := by
  unfold Tc.withRoot Tc.majorOf
  split
  · next hset =>
    by_cases hd : d = dev
    · subst hd
      rw [rootOf_setRoot d tc (Tc.mem_ifaces_of_rootOf h), h]
      rw [Option.map_some, Option.map_some, pickMajor, pickMajor, if_pos rfl, if_neg hset.1]
    · rw [rootOf_setRoot_of_ne dev tc _ hd]
  · rfl

theorem majorOf_shaped {r : Text × Text} (h : tc.rootOf dev = some r) (value d : Text) :
    (tc.shaped fails dev r pid value).majorOf d = tc.majorOf d := by
  rw [← majorOf_withRoot fails dev tc h d]
  refine congrArg (Option.map pickMajor) (rootOf_congr ?_ ?_)
  · rw [Tc.shaped, withFilter_ifaces]
    rfl
  · rw [Tc.shaped, withFilter_qdiscs]
    rfl

/-! ## `do_cgroup_net` -/

variable {args : NetArgs} (hclear : args.clear = false) {speed : Text}
  (hspeed : args.speed = some speed) (hsize : isSize speed = true) (w : World)
include hclear hspeed hsize

/-- A limit for a pid of 16 bits is the core, on the shaped traffic control state. -/
theorem run_doCgroupNet {r : Text × Text} (h : w.tc.rootOf args.dev = some r)
    (hpid : args.pid < 65536) :
    run (exec sys fails) (doCgroupNet args) w =
      run (exec sys fails)
        (limitGroup .netCls args.pid (netSettings (pickMajor r) args.pid) [args.pid])
        { w with tc := w.tc.shaped fails args.dev r args.pid speed } := by
  have htc := run_tc sys fails (only_tcQdiscClassFilterCreate args.pid args.dev speed) w
  rw [run_tcQdiscClassFilterCreate sys fails args.dev args.pid w.tc h, if_pos hpid] at htc
  rw [doCgroupNet_limit hclear hspeed hsize, run_bind_ok _ htc]

/-- Otherwise the script raises. -/
theorem run_doCgroupNet_error (h : w.tc.rootOf args.dev = none ∨ 65536 ≤ args.pid) :
    ∃ e w', run (exec sys fails) (doCgroupNet args) w = (.error e, w') := by
  have htc := run_tc sys fails (only_tcQdiscClassFilterCreate args.pid args.dev speed) w
  have herr : ∃ e tc', run (serveTc sys fails)
      (tcQdiscClassFilterCreate args.pid args.dev speed) w.tc = (.error e, tc') := by
    rcases run_tcQdiscGetQdiscAndMajor sys fails args.dev w.tc with ⟨r, hr, -⟩ | ⟨-, e, he⟩
    · have hpid : ¬ args.pid < 65536 := by
        rcases h with h | h
        · rw [hr] at h
          exact absurd h (by simp)
        · omega
      have hrun := run_tcQdiscClassFilterCreate sys fails args.dev args.pid w.tc hr speed
      rw [if_neg hpid] at hrun
      exact ⟨_, _, hrun⟩
    · exact ⟨e, w.tc, by
        rw [tcQdiscClassFilterCreate, tcQdiscAdd, bind_assoc, run_bind_error _ he]⟩
  obtain ⟨e, tc', he⟩ := herr
  rw [he] at htc
  exact ⟨e, _, by rw [doCgroupNet_limit hclear hspeed hsize, run_bind_error _ htc]⟩

end

end LinuxSummary.Cgroup
