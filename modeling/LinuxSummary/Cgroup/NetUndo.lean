/-
  `net` commands and the two ways to clear behind them.

  `clear -p <P>` holds the pid as a text, so `hex(pid)` raises at the first htb qdisc that
  `tc_qdisc_do_del` recognises, and where it recognises none it deletes nothing: it never
  changes the traffic control state (`clearPid_tc`), and a class that `net` made stays.
  `clear -A` deletes a root exactly where a line of `tc qdisc show` is recognised as an
  htb qdisc with the handle `368:` of the interface (`run_clearAll`).
-/
import LinuxSummary.Cgroup.Clear
import LinuxSummary.Cgroup.Shaping

namespace LinuxSummary.Cgroup

open Prog Pattern Text

/-! ## External commands that succeed -/

def okReply : (q : Ask) → q.Reply → Prop
  | .sh _, out => out.status = 0
  | _, _ => True

/-- Every external command of the run succeeds. -/
def Succeeds (sys : Sys) {α : Type} (p : Py α) (w : World) : Prop :=
  Replies (exec sys noFailure) okReply p w

/-- `net -d <dev> -s <speed> -p <pid>` -/
def netLimit (pid : Nat) (dev speed : Text) : NetArgs := ⟨pid, false, dev, some speed⟩

section
variable (sys : Sys)

/-- Behind `tc_qdisc_add` the interface has an htb root of the returned major. -/
theorem rootOf_withRoot {tc : Tc} {dev : Text} {r : Text × Text} (h : tc.rootOf dev = some r)
    (hadd : r.1 ≠ "htb".toList → tc.hasRoot dev = false) :
    (tc.withRoot noFailure dev r).rootOf dev = some ("htb".toList, pickMajor r) := by
  unfold Tc.withRoot pickMajor
  by_cases hr : r.1 = "htb".toList
  · rw [if_neg (fun hc => hc.1 hr), if_pos hr, h, ← hr]
  · rw [if_pos ⟨hr, rfl, hadd hr⟩, if_neg hr, rootOf_setRoot dev tc (Tc.mem_ifaces_of_rootOf h)]

/-- What a `net` command that succeeds does: it finds a root, the pid has 16 bits, and the rest
    of the machine sees the shaped traffic control state. -/
theorem net_succeeds {pid : Nat} {dev speed : Text} (hsize : isSize speed = true) {w w' : World}
    (hrun : run (exec sys noFailure) (doCgroupNet (netLimit pid dev speed)) w = (.ok (), w'))
    (hsucc : Succeeds sys (doCgroupNet (netLimit pid dev speed)) w) :
    ∃ r, w.tc.rootOf dev = some r ∧ (r.1 ≠ "htb".toList → w.tc.hasRoot dev = false) ∧
      w'.tc = w.tc.shaped noFailure dev r pid speed := by
  have hclear : (netLimit pid dev speed).clear = false := rfl
  have hspeed : (netLimit pid dev speed).speed = some speed := rfl
  have hno : ¬ (w.tc.rootOf dev = none ∨ 65536 ≤ pid) := by
    intro h
    obtain ⟨e, w1, herr⟩ := run_doCgroupNet_error sys noFailure hclear hspeed hsize w h
    rw [herr] at hrun
    exact absurd (Prod.mk.inj hrun).1 (by simp)
  rw [not_or] at hno
  obtain ⟨r, hr⟩ := Option.ne_none_iff_exists'.mp hno.1
  refine ⟨r, hr, fun hq => ?_, ?_⟩
  · -- the command that makes the root is one of those that succeed
    have hget : run (exec sys noFailure) (tcQdiscGetQdiscAndMajor dev) w = (.ok r, w) := by
      rcases run_tcQdiscGetQdiscAndMajor sys noFailure dev w.tc with ⟨r', hr', hg⟩ | ⟨hnone, -⟩
      · obtain rfl := Option.some.inj (hr'.symm.trans hr)
        rw [run_tc sys noFailure (only_tcQdiscGetQdiscAndMajor dev), hg]
      · exact absurd hnone hno.1
    rw [Succeeds, doCgroupNet_limit hclear hspeed hsize] at hsucc
    have hadd := hsucc.left.left.right hget
    simp only [hq, ne_eq, not_false_eq_true, if_true] at hadd
    have hstatus := hadd.left _ (List.mem_singleton.mpr rfl)
    have hparse : parseHex "368".toList = some 872 := by decide
    simp only [okReply, exec, noFailure, Bool.and_false, Bool.false_eq_true, if_false, execCmd,
      Cmd.isTc, if_true, execTc, hparse] at hstatus
    by_contra hroot
    rw [dif_neg (fun hc => hroot hc.2.2)] at hstatus
    exact absurd hstatus (show Output.failed.status ≠ 0 by decide)
  · have hk : ∀ kv ∈ netSettings (pickMajor r) pid, kv.1.controller = .netCls := by
      simp [netSettings, netClsClassid]
    have hlim := run_limitGroup sys noFailure pid hk (by decide) rfl (fun _ _ => rfl) [pid]
      { w with tc := w.tc.shaped noFailure dev r pid speed }
    have hnet := run_doCgroupNet sys noFailure hclear hspeed hsize w hr (Nat.lt_of_not_le hno.2)
    rw [hnet] at hrun
    rw [← (Prod.mk.inj (hlim.symm.trans hrun)).2]
    rfl

/-- The class is there behind the command. -/
theorem classes_shaped {tc : Tc} {dev : Text} {r : Text × Text} (h : tc.rootOf dev = some r)
    (hadd : r.1 ≠ "htb".toList → tc.hasRoot dev = false) (pid : Nat) (speed : Text) :
    (tc.shaped noFailure dev r pid speed).rootOf dev = some ("htb".toList, pickMajor r) ∧
      (tc.shaped noFailure dev r pid speed).classes dev (classOf (pickMajor r) pid) =
        some (htbParams speed) := by
  have hroot := rootOf_withRoot h hadd
  have hhtb := hasHtb_of_rootOf hroot rfl
  constructor
  · rw [← hroot]
    refine rootOf_congr ?_ ?_
    · rw [Tc.shaped, withFilter_ifaces]
      rfl
    · rw [Tc.shaped, withFilter_qdiscs]
      rfl
  · rw [Tc.shaped, withFilter_classes, setClass_classes, if_pos ⟨rfl, rfl⟩, addedClass,
      if_pos ⟨rfl, hhtb⟩]

/-! ## `clear -p <P>` -/

/-- A query that leaves the traffic control state. -/
def keepsTc (q : Ask) : Prop := ∀ w, (exec sys noFailure q w).2.tc = w.tc

theorem keepsTc_cgdelete (name : Text) : keepsTc sys (.sh (.cgdelete name)) := by
  have hdel : ∀ (cs : List Text) (p : Path) (w : World),
      (w.deleteGroup sys (cs, p)).tc = w.tc := by
    intro cs p
    induction cs with
    | nil => exact fun _ => rfl
    | cons c cs ih =>
      intro w
      rw [World.deleteGroup, List.foldl_cons]
      refine (ih _).trans ?_
      dsimp only
      split <;> rfl
  exact fun w => hdel _ _ w

theorem keepsTc_qdiscShow : keepsTc sys (.sh (.tcQdiscShow none)) := fun _ => rfl

theorem only_deleteAll (names : List Text) :
    (deleteAll names).Only (keepsTc sys) fun _ => True :=
  only_forEach names fun n _ => ⟨keepsTc_cgdelete sys (clearName n), fun _ => trivial⟩

/-- **`clear -p <P>` never changes the traffic control state**, whether it raises or returns. -/
theorem clearPid_tc (pid : Nat) (w : World) :
    (run (exec sys noFailure) (doCgroupClear (clearPid pid)) w).2.tc = w.tc := by
  have hshow : (checkOutput (.tcQdiscShow none)).Only (keepsTc sys) fun _ => True :=
    ⟨keepsTc_qdiscShow sys, fun out => (only_require trivial).bind fun _ => trivial⟩
  have hdel : (tcQdiscDoDel (some (.str (Nat.toDigits 10 pid)))).Only (keepsTc sys)
      fun _ => True := by
    refine hshow.bind fun lines => only_forEach lines fun line _ => ?_
    simp only [tcQdiscDelLine]
    split
    · -- `hex` of a text raises before anything is asked
      split
      · exact trivial
      · exact trivial
    · exact trivial
  have hlist : (lscgroupFilter (some (clearPid pid).filterName)).Only (keepsTc sys)
      fun _ => True :=
    Only.bind (p := checkOutput .lscgroup)
      ⟨fun _ => rfl, fun out => (only_require trivial).bind fun _ => trivial⟩ fun _ => trivial
  have hne : Nat.toDigits 10 pid ≠ [] := Nat.toDigits_ne_nil
  have hprog : (doCgroupClear (clearPid pid)).Only (keepsTc sys) fun _ => True := by
    rw [doCgroupClear_eq rfl]
    refine hlist.bind fun names => (only_deleteAll sys names).bind fun _ => ?_
    simp only [clearTc, clearPid, Bool.false_eq_true, if_false, if_pos hne]
    exact hdel
  exact hprog.run_invariant (I := fun s => s.tc = w.tc) (exec sys noFailure)
    (fun q s hq hs => (hq s).trans hs) rfl

/-- `net` and then `clear -p` have undone the limit and touched nothing else. -/
def Undone (pid : Nat) (dev speed : Text) (w : World) : Prop :=
  ∃ w', run (exec sys noFailure) (doCgroupNet (netLimit pid dev speed) >>= fun _ =>
      doCgroupClear (clearPid pid)) w = (.ok (), w') ∧
    (∀ major, w'.tc.classes dev (major, pid) = none) ∧ w'.group sys .netCls pid = none ∧
    ∀ d id, d ≠ dev ∨ id.2 ≠ pid → w'.tc.classes d id = w.tc.classes d id

theorem not_undone {pid : Nat} {dev speed : Text} (hsize : isSize speed = true) {w : World}
    (hsucc : Succeeds sys (doCgroupNet (netLimit pid dev speed)) w) :
    ¬ Undone sys pid dev speed w := by
  intro h
  obtain ⟨w', hrun, hnone, -⟩ := h
  rcases hnet : run (exec sys noFailure) (doCgroupNet (netLimit pid dev speed)) w with
    ⟨e | a, w1⟩
  · rw [run_bind_error _ hnet] at hrun
    exact absurd (Prod.mk.inj hrun).1 (by simp)
  · obtain ⟨r, hr, hadd, htc⟩ := net_succeeds sys hsize hnet hsucc
    obtain ⟨-, hclass⟩ := classes_shaped hr hadd pid speed
    rw [run_bind_ok _ hnet] at hrun
    have hkeep := clearPid_tc sys pid w1
    rw [hrun] at hkeep
    have hleft := hnone (Numeral.value 16 (pickMajor r))
    rw [hkeep, htc] at hleft
    exact absurd (hclass.symm.trans hleft) (by simp)

/-! ## Sequences of `net` commands -/

/-- A `net` command for a limit, its speed valid. -/
structure NetReq where
  pid : Nat
  dev : Text
  speed : Text
  size_ok : isSize speed = true

def NetReq.prog (q : NetReq) : Py Unit := doCgroupNet (netLimit q.pid q.dev q.speed)

def netAll (reqs : List NetReq) : Py Unit := forEach reqs NetReq.prog

/-- The class of `pid` is there, below the htb root that the script finds on the interface. -/
def Tc.shapes (tc : Tc) (dev : Text) (pid : Nat) : Prop :=
  ∃ r, tc.rootOf dev = some r ∧ r.1 = "htb".toList ∧ tc.classes dev (classOf r.2 pid) ≠ none

theorem shapes_shaped {tc : Tc} {dev : Text} {r : Text × Text} (h : tc.rootOf dev = some r)
    (pid : Nat) (speed : Text) {d : Text} {p : Nat} (hs : tc.shapes d p) :
    (tc.shaped noFailure dev r pid speed).shapes d p := by
  obtain ⟨rd, hrd, hhtb, hclass⟩ := hs
  by_cases hd : d = dev
  · subst hd
    obtain rfl := Option.some.inj (h.symm.trans hrd)
    have hmajor : pickMajor r = r.2 := by rw [pickMajor, if_pos hhtb]
    obtain ⟨hroot, hown⟩ := classes_shaped h (fun hne => absurd hhtb hne) pid speed
    have hsame : tc.withRoot noFailure d r = tc := by
      rw [Tc.withRoot, if_neg (fun hc => hc.1 hhtb)]
    rw [hmajor] at hroot hown
    refine ⟨_, hroot, rfl, ?_⟩
    by_cases hp : p = pid
    · rw [hp, hown]
      simp
    · have hne : classOf r.2 p ≠ classOf r.2 pid := fun he => hp (Prod.mk.inj he).2
      rw [Tc.shaped, withFilter_classes, hmajor, setClass_classes, if_neg (fun hc => hne hc.2),
        hsame]
      exact hclass
  · refine ⟨rd, ?_, hhtb, ?_⟩
    · rw [← hrd]
      have hroot : (tc.withRoot noFailure dev r).rootOf d = tc.rootOf d := by
        unfold Tc.withRoot
        split
        · exact rootOf_setRoot_of_ne dev tc _ hd
        · rfl
      rw [← hroot]
      refine rootOf_congr ?_ ?_
      · rw [Tc.shaped, withFilter_ifaces]
        rfl
      · rw [Tc.shaped, withFilter_qdiscs]
        rfl
    · have hclasses : (tc.withRoot noFailure dev r).classes d = tc.classes d := by
        unfold Tc.withRoot
        split
        · exact Function.update_of_ne hd _ _
        · rfl
      rw [Tc.shaped, withFilter_classes, setClass_classes, if_neg (fun hc => hd hc.1), hclasses]
      exact hclass

/-- Behind a sequence the majors are as before and every class is there. -/
theorem netAll_shapes {reqs : List NetReq} {w w1 : World}
    (hrun : run (exec sys noFailure) (netAll reqs) w = (.ok (), w1))
    (hsucc : Succeeds sys (netAll reqs) w) :
    (∀ d, w1.tc.majorOf d = w.tc.majorOf d) ∧
      (∀ d p, w.tc.shapes d p → w1.tc.shapes d p) ∧ ∀ q ∈ reqs, w1.tc.shapes q.dev q.pid := by
  induction reqs generalizing w with
  | nil =>
    obtain ⟨-, rfl⟩ := Prod.mk.inj hrun
    exact ⟨fun _ => rfl, fun _ _ h => h, by simp⟩
  | cons q reqs ih =>
    rw [netAll, forEach_cons] at hrun
    rw [Succeeds, netAll, forEach_cons] at hsucc
    rcases hq : run (exec sys noFailure) q.prog w with ⟨e | a, w'⟩
    · rw [run_bind_error _ hq] at hrun
      exact absurd (Prod.mk.inj hrun).1 (by simp)
    · rw [run_bind_ok _ hq] at hrun
      obtain ⟨hmajor, hkeep, hthere⟩ := ih hrun (hsucc.right hq)
      obtain ⟨r, hr, hadd, htc⟩ := net_succeeds sys q.size_ok hq hsucc.left
      obtain ⟨hroot, hclass⟩ := classes_shaped hr hadd q.pid q.speed
      have hown : w'.tc.shapes q.dev q.pid := by
        rw [htc]
        exact ⟨_, hroot, rfl, by rw [hclass]; simp⟩
      refine ⟨fun d => ?_, fun d p hs => hkeep d p ?_, fun q' hq' => ?_⟩
      · rw [hmajor, htc, majorOf_shaped noFailure q.dev q.pid w.tc hr]
      · rw [htc]
        exact shapes_shaped hr q.pid q.speed hs
      · rcases List.mem_cons.mp hq' with rfl | hq'
        · exact hkeep _ _ hown
        · exact hthere q' hq'

/-! ## `clear -A` -/

/-- `clear -A` -/
def clearAll : ClearArgs := ⟨true, none⟩

/-- The interface whose root `tc_qdisc_do_del` deletes for a line. -/
def recognisedDev (line : Text) : Option Text :=
  match search qdiscDevRe line with
  | some ⟨_, qdisc :: major :: dev :: _⟩ =>
    if qdisc = "htb".toList ∧ major = "368".toList then some dev else none
  | _ => none

/-- The lines of `tc qdisc show`. -/
def Tc.showLines (tc : Tc) : List Text := tc.ifaces.flatMap fun d => (tc.qdiscs d).map (·.lineDev d)

/-- A line of `tc qdisc show` is recognised as an htb qdisc `368:` of the interface, and there
    is a root to delete. -/
def Tc.rootGoes (tc : Tc) (dev : Text) : Prop :=
  dev ∈ tc.ifaces ∧ tc.hasRoot dev = true ∧ ∃ line ∈ tc.showLines, recognisedDev line = some dev

/-- What the loop of `tc_qdisc_do_del` does for a line. -/
def delLine (tc : Tc) (line : Text) : Tc :=
  match recognisedDev line with
  | some dev =>
    if dev ∈ tc.ifaces ∧ tc.hasRoot dev = true then tc.setRoot dev sys.defaultQdisc else tc
  | none => tc

/-- A line without a root to delete. -/
theorem delLine_same {tc : Tc} {line : Text}
    (h : ∀ dev, recognisedDev line = some dev → ¬ (dev ∈ tc.ifaces ∧ tc.hasRoot dev = true)) :
    delLine sys tc line = tc := by
  unfold delLine
  split
  · next dev hrec => exact if_neg (h dev hrec)
  · rfl

theorem delLine_root {tc : Tc} {line dev : Text} (hrec : recognisedDev line = some dev)
    (hgo : dev ∈ tc.ifaces ∧ tc.hasRoot dev = true) :
    delLine sys tc line = tc.setRoot dev sys.defaultQdisc := by
  unfold delLine
  rw [hrec]
  exact if_pos hgo

theorem run_tcQdiscDelLine (line : Text) (tc : Tc) :
    run (serveTc sys noFailure) (tcQdiscDelLine none line) tc = (.ok (), delLine sys tc line) := by
  have hdel : ∀ dev, (serveTc sys noFailure (.sh (.tcQdiscDel dev)) tc).2 =
      if dev ∈ tc.ifaces ∧ tc.hasRoot dev = true then tc.setRoot dev sys.defaultQdisc else tc := by
    intro dev
    simp only [serveTc, Cmd.failable, Bool.false_and, Bool.false_eq_true, if_false, execTc]
    split <;> rfl
  unfold tcQdiscDelLine delLine recognisedDev
  generalize search qdiscDevRe line = found
  rcases found with _ | ⟨whole, _ | ⟨qdisc, _ | ⟨major, _ | ⟨dev, rest⟩⟩⟩⟩
  · rfl
  · rfl
  · rfl
  · rfl
  · by_cases hq : qdisc = "htb".toList ∧ major = "368".toList
    · simp only [hq, and_self, if_true, run_call, hdel]
    · simp only [hq, if_false]
      rfl

theorem run_tcQdiscDoDel (tc : Tc) :
    run (serveTc sys noFailure) (tcQdiscDoDel none) tc =
      (.ok (), tc.showLines.foldl (delLine sys) tc) := by
  have hshow : serveTc sys noFailure (.sh (.tcQdiscShow none)) tc = (.ok tc.showLines, tc) := rfl
  rw [tcQdiscDoDel, run_bind_ok _ (run_checkOutput_ok _ hshow)]
  exact run_forEach _ _ (fun line _ tc => run_tcQdiscDelLine sys line tc) tc

/-- The default root cannot be deleted once more. -/
theorem hasRoot_setRoot (tc : Tc) (dev : Text) :
    (tc.setRoot dev sys.defaultQdisc).hasRoot dev = false := by
  have hlist : (tc.setRoot dev sys.defaultQdisc).qdiscs dev =
      sys.defaultQdisc :: (tc.qdiscs dev).filter (·.isIngress) := by
    simp [Tc.setRoot]
  rw [Tc.hasRoot, hlist, List.any_eq_false]
  intro q hq
  rcases List.mem_cons.mp hq with rfl | hq
  · simp [sys.default_handle]
  · -- an ingress qdisc is no root
    have hin : "parent ffff:fff1".toList <+: q.tail :=
      List.isPrefixOf_iff_prefix.mp (List.mem_filter.mp hq).2
    have htail := q.tail_ok.1
    cases hr : q.isRoot with
    | false => simp
    | true =>
      rw [hr, if_pos rfl] at htail
      obtain ⟨t, ht⟩ := htail
      obtain ⟨t', ht'⟩ := hin
      exact absurd (List.cons.inj (ht.trans ht'.symm)).1 (by decide)

theorem foldl_delLine_classes (lines : List Text) (tc : Tc) (dev : Text) :
    (lines.foldl (delLine sys) tc).classes dev =
      if dev ∈ tc.ifaces ∧ tc.hasRoot dev = true ∧
          ∃ line ∈ lines, recognisedDev line = some dev then
        fun _ => none
      else tc.classes dev := by
  induction lines generalizing tc with
  | nil => simp
  | cons line lines ih =>
    rw [List.foldl_cons, ih]
    have hframe : ∀ tc' : Tc, tc'.ifaces = tc.ifaces → tc'.qdiscs dev = tc.qdiscs dev →
        tc'.classes dev = tc.classes dev → recognisedDev line ≠ some dev →
        (if dev ∈ tc'.ifaces ∧ tc'.hasRoot dev = true ∧ ∃ l ∈ lines, recognisedDev l = some dev
          then fun _ => none else tc'.classes dev) =
        if dev ∈ tc.ifaces ∧ tc.hasRoot dev = true ∧
            ∃ l ∈ line :: lines, recognisedDev l = some dev
          then fun _ => none else tc.classes dev := by
      intro tc' hif hq hc hline
      have hlater : (∃ l ∈ line :: lines, recognisedDev l = some dev) ↔
          ∃ l ∈ lines, recognisedDev l = some dev := by
        constructor
        · intro ⟨l, hl, hrec⟩
          rcases List.mem_cons.mp hl with rfl | hl
          · exact absurd hrec hline
          · exact ⟨l, hl, hrec⟩
        · intro ⟨l, hl, hrec⟩
          exact ⟨l, List.mem_cons_of_mem _ hl, hrec⟩
      simp only [Tc.hasRoot, hif, hq, hc, hlater]
    by_cases hgo : ∃ d, recognisedDev line = some d ∧ d ∈ tc.ifaces ∧ tc.hasRoot d = true
    · obtain ⟨d, hrec, hroot⟩ := hgo
      rw [delLine_root sys hrec hroot]
      by_cases hd : dev = d
      · subst hd
        rw [hasRoot_setRoot, if_neg (by simp),
          if_pos ⟨hroot.1, hroot.2, line, List.mem_cons_self, hrec⟩]
        simp [Tc.setRoot]
      · have hline : recognisedDev line ≠ some dev := by
          rw [hrec]
          exact fun he => hd (Option.some.inj he).symm
        exact hframe _ rfl (Function.update_of_ne hd _ _) (Function.update_of_ne hd _ _) hline
    · have hno : ∀ d, recognisedDev line = some d → ¬ (d ∈ tc.ifaces ∧ tc.hasRoot d = true) :=
        fun d hrec hroot => hgo ⟨d, hrec, hroot⟩
      rw [delLine_same sys hno]
      by_cases hline : recognisedDev line = some dev
      · have hnot := hno dev hline
        rw [if_neg fun hc => hnot ⟨hc.1, hc.2.1⟩, if_neg fun hc => hnot ⟨hc.1, hc.2.1⟩]
      · exact hframe tc rfl rfl rfl hline

/-! ### The groups -/

/-- `cgdelete` only takes groups away, and takes away what it is told. -/
theorem deleteGroup_attrs (cs : List Text) (p : Path) (w : World) (h : Hier) :
    (∀ q, (w.cg h).attrs q = none → ((w.deleteGroup sys (cs, p)).cg h).attrs q = none) ∧
      (p ≠ [] → (∃ n ∈ cs, (Controller.ofName n).bind sys.hierOf = some h) →
        ((w.deleteGroup sys (cs, p)).cg h).attrs p = none) := by
  induction cs generalizing w with
  | nil => exact ⟨fun q hq => hq, by simp⟩
  | cons c cs ih =>
    cases hc : (Controller.ofName c).bind sys.hierOf with
    | none =>
      have hcons : w.deleteGroup sys (c :: cs, p) = w.deleteGroup sys (cs, p) := by
        rw [World.deleteGroup, List.foldl_cons, hc]
        rfl
      rw [hcons]
      refine ⟨(ih w).1, fun hp hex => (ih w).2 hp ?_⟩
      obtain ⟨n, hn, hbind⟩ := hex
      rcases List.mem_cons.mp hn with rfl | hn
      · rw [hc] at hbind
        exact absurd hbind (by simp)
      · exact ⟨n, hn, hbind⟩
    | some k =>
      have hcons : w.deleteGroup sys (c :: cs, p) =
          (w.setTree k ((w.cg k).remove p)).deleteGroup sys (cs, p) := by
        rw [World.deleteGroup, List.foldl_cons, hc]
        rfl
      rw [hcons]
      have hrm : ∀ q, (w.cg h).attrs q = none →
          ((w.setTree k ((w.cg k).remove p)).cg h).attrs q = none := by
        intro q hq
        by_cases hk : h = k
        · subst hk
          rw [World.setTree_cg]
          exact GroupTree.remove_attrs_none _ p hq
        · rw [World.setTree_cg_of_ne w hk]
          exact hq
      obtain ⟨hmono, hgone⟩ := ih (w.setTree k ((w.cg k).remove p))
      refine ⟨fun q hq => hmono q (hrm q hq), fun hp hex => ?_⟩
      obtain ⟨n, hn, hbind⟩ := hex
      rcases List.mem_cons.mp hn with rfl | hn
      · obtain rfl : k = h := Option.some.inj (hc.symm.trans hbind)
        refine hmono p ?_
        rw [World.setTree_cg, GroupTree.remove_attrs_self _ hp]
      · exact hgone hp ⟨n, hn, hbind⟩

theorem deleteAll_attrs (names : List Text) (w : World) (h : Hier) {p : Path} (hp : p ≠ [])
    (hor : (w.cg h).attrs p = none ∨ ∃ n ∈ names, (h, p) ∈ designated sys (clearName n)) :
    ((run (exec sys noFailure) (deleteAll names) w).2.cg h).attrs p = none := by
  induction names generalizing w with
  | nil =>
    rcases hor with hnone | ⟨n, hn, -⟩
    · exact hnone
    · exact absurd hn (by simp)
  | cons n names ih =>
    rw [deleteAll, forEach_cons, cgdeleteName,
      run_bind_ok _ (run_call (exec sys noFailure) (.cgdelete (clearName n)) w)]
    obtain ⟨hmono, hgone⟩ := deleteGroup_attrs sys (parseGroup (clearName n)).1
      (parseGroup (clearName n)).2 w h
    refine ih _ ?_
    rcases hor with hnone | ⟨n', hn', hdes⟩
    · exact .inl (hmono p hnone)
    · rcases List.mem_cons.mp hn' with rfl | hn'
      · obtain ⟨hctrl, hpath⟩ := hdes
        have hpath' : p = (parseGroup (clearName n')).2 := hpath
        left
        rw [hpath'] at hp ⊢
        exact hgone hp hctrl
      · exact .inr ⟨n', hn', hdes⟩

/-- **What `clear -A` leaves**: it returns, no group of the tool is left, and an interface has lost
    its classes exactly where its root goes. -/
theorem run_clearAll (w : World) :
    ∃ w', run (exec sys noFailure) (doCgroupClear clearAll) w = (.ok (), w') ∧
      (∀ c ∈ toolControllers, ∀ pid, w'.group sys c pid = none) ∧
      (∀ dev, w.tc.rootGoes dev → ∀ id, w'.tc.classes dev id = none) ∧
      ∀ dev, ¬ w.tc.rootGoes dev → w'.tc.classes dev = w.tc.classes dev := by
  obtain ⟨names, hnames⟩ : ∃ names, names =
      ((sys.lscgroup w.cg).map listing).filter fun x => occursIn clearAll.filterName x := ⟨_, rfl⟩
  have hlist := run_lscgroupFilter sys noFailure clearAll.filterName w
  rw [← hnames] at hlist
  obtain ⟨⟨w1, hdel⟩, -⟩ := deleteAll_handed sys noFailure names w
  have htc1 : w1.tc = w.tc := by
    have := (only_deleteAll sys names).run_invariant (I := fun s => s.tc = w.tc)
      (exec sys noFailure) (fun q s hq hs => (hq s).trans hs) rfl
    rwa [hdel] at this
  have htc := run_tc sys noFailure (only_tcQdiscDoDel none) w1
  rw [run_tcQdiscDoDel, htc1] at htc
  have hclasses := foldl_delLine_classes sys w.tc.showLines w.tc
  refine ⟨{ w1 with tc := w.tc.showLines.foldl (delLine sys) w.tc }, ?_, ?_, ?_, ?_⟩
  · rw [doCgroupClear_eq rfl, run_bind_ok _ hlist, run_bind_ok _ hdel]
    exact htc
  · intro c hc pid
    -- the group was not there, or its line is one of those selected
    have hgone := deleteAll_attrs sys names w (sys.hier c) (groupPath_ne_nil pid)
    rw [hdel] at hgone
    refine hgone ?_
    by_cases hg : (w.cg (sys.hier c)).attrs (groupPath pid) = none
    · exact .inl hg
    · right
      have hh : sys.hier c ∈ sys.hiers := List.mem_of_find?_eq_some (sys.hierOf_tool hc)
      have hlisted : (sys.hier c, groupPath pid) ∈ sys.lscgroup w.cg :=
        (sys.lscgroup_mem _ _ _).mpr ⟨hh, Option.isSome_iff_ne_none.mpr hg⟩
      refine ⟨listing (sys.hier c, groupPath pid), ?_, ?_⟩
      · rw [hnames]
        refine List.mem_filter.mpr ⟨List.mem_map_of_mem hlisted, ?_⟩
        have hocc := (occursIn_iff _ _).mp (clearedPath_self (sys.hier c) pid).1
        have hpre : clearAll.filterName <+: getCgroupName pid := ⟨Nat.toDigits 10 pid, rfl⟩
        exact (occursIn_iff _ _).mpr (hpre.isInfix.trans hocc)
      · rw [designated_clearName sys hh, (clearedPath_self (sys.hier c) pid).2]
        rfl
  · intro dev hgo id
    exact congrFun ((hclasses dev).trans (if_pos hgo)) id
  · intro dev hgo
    exact (hclasses dev).trans (if_neg hgo)

/-- A name with another character is never recognised: its root stays. -/
theorem not_rootGoes_of_mem {tc : Tc} {dev : Text} {c : Char} (hc : c ∈ dev)
    (hno : (isLower c || isDec c) = false) : ¬ tc.rootGoes dev := by
  intro hgo
  obtain ⟨-, -, line, -, hrec⟩ := hgo
  unfold recognisedDev at hrec
  split at hrec
  · next whole qdisc major dev' rest hs =>
    split at hrec
    · obtain rfl := Option.some.inj hrec
      obtain ⟨pre, t, r, -, hm⟩ := search_some hs
      unfold qdiscDevRe at hm
      obtain ⟨t1, rfl, h1⟩ := matchHere_lit_some (w := "qdisc ".toList) hm
      obtain ⟨a, t2, gs, rfl, -, -, h2, hgs⟩ := matchHere_plus_some h1
      obtain ⟨t3, rfl, h3⟩ := matchHere_lit_some (w := " ".toList) h2
      obtain ⟨b, t4, gs', rfl, -, -, h4, hgs'⟩ := matchHere_plus_some h3
      obtain ⟨t5, rfl, h5⟩ := matchHere_lit_some (w := ": dev ".toList) h4
      obtain ⟨d, t6, gs'', rfl, -, hd, h6, hgs''⟩ := matchHere_plus_some h5
      have hg1 : gs = b :: gs' := hgs'
      have hg2 : gs' = d :: gs'' := hgs''
      have hlist : qdisc :: major :: dev' :: rest = a :: b :: d :: gs'' := by
        rw [← hg2, ← hg1]
        exact hgs
      obtain ⟨-, hl⟩ := List.cons.inj hlist
      obtain ⟨-, hl⟩ := List.cons.inj hl
      obtain ⟨rfl, -⟩ := List.cons.inj hl
      rw [hd c hc] at hno
      exact absurd hno (by decide)
    · exact absurd hrec (by simp)
  · exact absurd hrec (by simp)

/-- **Clearing behind `net`.** `clear -p` never undoes a limit. `clear -A` leaves no group, and
    no class of a sequence of `net` commands exactly when the root of each of their interfaces
    goes. -/
theorem net_clear :
    (∀ (q : NetReq) (w : World), Succeeds sys q.prog w → ¬ Undone sys q.pid q.dev q.speed w) ∧
    ∀ (reqs : List NetReq) (w w1 : World),
      run (exec sys noFailure) (netAll reqs) w = (.ok (), w1) → Succeeds sys (netAll reqs) w →
      ∃ w2, run (exec sys noFailure) (doCgroupClear clearAll) w1 = (.ok (), w2) ∧
        (∀ q ∈ reqs, w2.group sys .netCls q.pid = none) ∧
        ((∀ q ∈ reqs, ∀ m, w.tc.majorOf q.dev = some m →
            w2.tc.classes q.dev (classOf m q.pid) = none) ↔
          ∀ q ∈ reqs, w1.tc.rootGoes q.dev) := by
  refine ⟨fun q w hsucc => not_undone sys q.size_ok hsucc, fun reqs w w1 hrun hsucc => ?_⟩
  obtain ⟨hmajor, -, hthere⟩ := netAll_shapes sys hrun hsucc
  obtain ⟨w2, hclear, hgroups, hgo, hstay⟩ := run_clearAll sys w1
  refine ⟨w2, hclear, fun q _ => hgroups .netCls (by decide) q.pid, ?_, ?_⟩
  · intro hnone q hq
    by_contra hno
    obtain ⟨r, hr, hhtb, hclass⟩ := hthere q hq
    have hm : w.tc.majorOf q.dev = some r.2 := by
      rw [← hmajor, Tc.majorOf, hr, Option.map_some, pickMajor, if_pos hhtb]
    refine hclass ?_
    rw [← hstay q.dev hno]
    exact hnone q hq r.2 hm
  · intro hall q hq m _
    exact hgo q.dev (hall q hq) _

end

/-- A limit of 10M for the process 7 of the machine after boot. -/
def bootReq : NetReq := ⟨7, "eth0".toList, "10M".toList, by decide⟩

/-- The status of a command on the machine after boot. -/
noncomputable def bootOk : Ask → World → Bool
  | .sh c, w => (exec Sys.boot noFailure (.sh c) w).1.status = 0
  | _, _ => true

set_option maxRecDepth 20000 in
theorem succeeds_boot : Succeeds Sys.boot (netAll [bootReq]) World.boot := by
  have hall : ((trace (exec Sys.boot noFailure) (netAll [bootReq]) World.boot).all fun x =>
      bootOk x.1 x.2) = true := by decide +kernel
  intro x hx
  have hx' := List.all_eq_true.mp hall x hx
  rcases x with ⟨q, s⟩
  cases q with
  | sh c => exact of_decide_eq_true (p := (exec Sys.boot noFailure (.sh c) s).1.status = 0) hx'
  | _ => exact trivial

set_option maxRecDepth 20000 in
/-- `tc` prints the interface of the boot machine with letters and digits only. -/
theorem run_netAll_boot : ∃ w1,
    run (exec Sys.boot noFailure) (netAll [bootReq]) World.boot = (.ok (), w1) ∧
      w1.tc.rootGoes "eth0".toList := by
  have hok : (run (exec Sys.boot noFailure) (netAll [bootReq]) World.boot).1 = .ok () := by
    have h : ((run (exec Sys.boot noFailure) (netAll [bootReq]) World.boot).1.toOption).isSome =
        true := by decide +kernel
    rcases hr : (run (exec Sys.boot noFailure) (netAll [bootReq]) World.boot).1 with e | a
    · rw [hr] at h
      exact absurd h (by simp [Except.toOption])
    · rfl
  have hgo : (run (exec Sys.boot noFailure) (netAll [bootReq]) World.boot).2.tc.rootGoes
      "eth0".toList := by
    unfold Tc.rootGoes
    decide +kernel
  exact ⟨_, Prod.ext hok rfl, hgo⟩

theorem succeeds_bootReq : Succeeds Sys.boot bootReq.prog World.boot :=
  succeeds_boot.left

/-- The class of a limit behind which everything is cleared is gone. -/
theorem net_clear_boot : ¬ Undone Sys.boot 7 "eth0".toList "10M".toList World.boot ∧
    ∃ w2 : World, ∀ m, World.boot.tc.majorOf "eth0".toList = some m →
      w2.tc.classes "eth0".toList (classOf m 7) = none := by
  refine ⟨(net_clear Sys.boot).1 bootReq World.boot succeeds_bootReq, ?_⟩
  obtain ⟨w1, hrun, hgo⟩ := run_netAll_boot
  obtain ⟨w2, -, -, hiff⟩ := (net_clear Sys.boot).2 [bootReq] World.boot w1 hrun succeeds_boot
  refine ⟨w2, hiff.mpr (fun q hq => ?_) bootReq (List.mem_singleton.mpr rfl)⟩
  obtain rfl := List.mem_singleton.mp hq
  exact hgo

/-- `clear -p 7` behind a limit of the process 7. -/
theorem not_undone_boot : Succeeds Sys.boot bootReq.prog World.boot ∧
    ¬ Undone Sys.boot 7 "eth0".toList "10M".toList World.boot :=
  ⟨succeeds_bootReq, not_undone Sys.boot bootReq.size_ok succeeds_bootReq⟩

end LinuxSummary.Cgroup
