/-
  The whole of `get_diskname_by_volume_id.py`: from a domain and an image to the names that the
  guest has for the disks of the image.

  The first domain that has the name, or that has it for its number, is taken; each address that
  `getPCIByImageNameFromDomain` gives is looked up in the guest, one after another, and the first
  exception ends the script. `Calls` is what is then printed and logged, whatever the guest's
  processes do between two commands. As in `getPCIByImageNameFromDomain`, the names of the
  command line are texts: the byte strings that Python 2 has for non-ASCII ones are not modelled.

  `main_prints_iff`: the script ends with the names of all these disks exactly when all of them
  have a PCI address, each process was faster than its status, and each name is one word.
-/
import LinuxSummary.Library.Printf
import LinuxSummary.Libvirt.DomainXml

namespace LinuxSummary.Libvirt

open Prog
open Relation (ReflTransGen)

/-! ## The script -/

structure Domain where
  name : Text
  /-- -1 for a domain that does not run -/
  ID : Int
  xml : Document

inductive End
  | done
  /-- `print(line)`, then `exit(1)` -/
  | failed (line : Text)

def usage (argv0 : Text) : Text := "Usage ".toList ++ argv0 ++ " <domain> <imageName>".toList

def notFound (domName : Text) : Text := "Failed to find domain ".toList ++ domName

/-- The loop over `listAllDomains`. -/
def findDomain (domains : List Domain) (domName : Text) : Option Domain :=
  domains.find? fun domain => domName = domain.name ∨ domName = Printf.dec domain.ID

/-- `getDiskNameByPCI` of an item of `pcis`: `None` cannot be joined to a path. -/
def getDiskNameOf : Option Text → Py Unit
  | none => .throw .typeError
  | some pci => getDiskNameByPCI pci

/-- `__main__`; `map` of Python 2 calls at once. -/
def main (domains : List Domain) : List Text → Py End
  | _ :: domName :: imageName :: _ =>
    match findDomain domains domName with
    | none => .ret (.failed (notFound domName))
    | some dom =>
      match getPCIByImageNameFromDomain dom.xml imageName with
      | .error e => .throw e
      | .ok pcis => forEach pcis getDiskNameOf >>= fun _ => .ret .done
  | argv => .ret (.failed (usage (argv.headD [])))

/-! ## One call -/

/-- What `getDiskNameByPCI` has printed and logged at its end. -/
def Called (target : Bytes) (m0 : Machine) (r : Except Exn Unit) (m : Machine) : Prop :=
  match r with
  | .ok _ => m.answered = m0.answered ++ [true] ∧
      ∃ w, firstWord (lastComponent target ++ [10]) = some w ∧ m.stdout = m0.stdout ++ [w]
  | .error _ => m.stdout = m0.stdout ∧
      ∃ b, m.answered = m0.answered ++ [b] ∧ (b = true → ¬ IsWord (lastComponent target))

section
variable (links : Text → Option Bytes)

abbrev Satisfies {α : Type} (Post : Except Exn α → Machine → Prop) (p : Py α)
    (m : Machine) : Prop :=
  Sat serve (Finish links) (fun _ _ => True) Post p m

theorem called {pci : Text} {target : Bytes} (hlink : links (linkPath pci) = some target)
    (m : Machine) : Satisfies links (Called target m) (getDiskNameByPCI pci) m := by
  intro m0 hr0 _
  obtain ⟨hans0, hout0⟩ := finish_logs links hr0
  intro m1 hr1 _
  have hwait : Waiting pci target m0 m1 := by
    refine (waiting_stable links hlink m0).star ?_ hr1
    exact ⟨.inl (Function.update_self _ _ _), rfl, rfl⟩
  obtain ⟨hproc, hans1, hout1⟩ := hwait
  rcases hproc with hproc | hproc
  · -- the status comes too early
    simp only [serve, hproc, printName, diskName]
    intro m2 hr2
    obtain ⟨hans2, hout2⟩ := finish_logs links hr2
    refine ⟨hout2.trans (hout1.trans hout0), false, ?_, fun h => by cases h⟩
    rw [hans2, hans1, hans0]
  · have hne : target ++ [10] ≠ [] := by simp
    simp only [serve, hproc, if_neg hne, printName, diskName_exited]
    cases hword : firstWord (lastComponent target ++ [10]) with
    | none =>
      intro m2 hr2
      obtain ⟨hans2, hout2⟩ := finish_logs links hr2
      refine ⟨hout2.trans (hout1.trans hout0), true, ?_, fun _ h => ?_⟩
      · rw [hans2, hans1, hans0]
      · rw [(firstWord_newline _).mpr h] at hword
        cases hword
    | some w =>
      intro m2 hr2 _ m3 hr3
      obtain ⟨hans2, hout2⟩ := finish_logs links hr2
      obtain ⟨hans3, hout3⟩ := finish_logs links hr3
      refine ⟨?_, w, hword, ?_⟩
      · exact hans3.trans (hans2.trans (congrArg (· ++ [true]) (hans1.trans hans0)))
      · exact hout3.trans (congrArg (· ++ [w]) (hout2.trans (hout1.trans hout0)))

/-! ## The calls, one after another -/

/-- What the calls have printed and logged: all that were made ended well, but for the last if
    it raised an exception. -/
def Calls (targets : List Bytes) (m0 : Machine) (r : Except Exn Unit) (m : Machine) : Prop :=
  match r with
  | .ok _ => m.answered = m0.answered ++ List.replicate targets.length true ∧
      ∃ ws, m.stdout = m0.stdout ++ ws ∧
        List.Forall₂ (fun t w => firstWord (lastComponent t ++ [10]) = some w) targets ws
  | .error _ => ∃ i b,
      m.answered = m0.answered ++ (List.replicate i true ++ [b]) ∧
        (b = true → ∃ t ∈ targets, ¬ IsWord (lastComponent t))

theorem calls {target : Text → Bytes} {pcis : List Text}
    (hlinks : ∀ pci ∈ pcis, links (linkPath pci) = some (target pci)) (m : Machine) :
    Satisfies links (Calls (pcis.map target) m) (forEach (pcis.map some) getDiskNameOf) m := by
  induction pcis generalizing m with
  | nil =>
    intro m' hr
    obtain ⟨hans, hout⟩ := finish_logs links hr
    exact ⟨by simp [hans], [], by simp [hout], .nil⟩
  | cons pci pcis ih =>
    obtain ⟨hlink, hrest⟩ := List.forall_mem_cons.mp hlinks
    rw [List.map_cons, List.map_cons, forEach_cons]
    refine Sat.bind (Sat.mono (fun r m₁ hcalled => ?_) (called links hlink m))
    cases r with
    | error e =>
      obtain ⟨-, b, hans, hb⟩ := hcalled
      exact ⟨0, b, hans, fun h => ⟨target pci, by simp, hb h⟩⟩
    | ok u =>
      obtain ⟨hans, w, hw, hout⟩ := hcalled
      refine Sat.mono (fun r m' hcalls => ?_) (ih hrest m₁)
      cases r with
      | ok u =>
        obtain ⟨hans', ws, hout', hws⟩ := hcalls
        refine ⟨?_, w :: ws, by simp [hout', hout], .cons hw hws⟩
        simp [hans', hans, List.replicate_succ]
      | error e =>
        obtain ⟨i, b, hans', hb⟩ := hcalls
        refine ⟨i + 1, b, ?_, fun h => ?_⟩
        · simp [hans', hans, List.replicate_succ]
        · obtain ⟨t, ht, hword⟩ := hb h
          exact ⟨t, List.mem_cons_of_mem _ ht, hword⟩

/-- An item that is `None` ends the script. -/
theorem calls_none {pcis : List (Option Text)} (hnone : none ∈ pcis) (m : Machine) :
    Satisfies links (fun r _ => ∃ e, r = .error e) (forEach pcis getDiskNameOf) m := by
  induction pcis generalizing m with
  | nil => exact absurd hnone List.not_mem_nil
  | cons pci pcis ih =>
    rw [forEach_cons]
    cases pci with
    | none => exact fun _ _ => ⟨_, rfl⟩
    | some pci =>
      have hrest : none ∈ pcis := by simpa using hnone
      refine Sat.bind (Sat.mono (fun r m₁ _ => ?_)
        (meets_true (I := fun _ => True) (getDiskNameOf (some pci)) m trivial))
      cases r with
      | error e => exact ⟨e, rfl⟩
      | ok u => exact ih hrest m₁

/-- The words that were printed are the names exactly when the names are words. -/
theorem words_eq_iff {targets ws : List Bytes}
    (h : List.Forall₂ (fun t w => firstWord (lastComponent t ++ [10]) = some w) targets ws) :
    ws = targets.map lastComponent ↔ ∀ t ∈ targets, IsWord (lastComponent t) := by
  induction h with
  | nil => simp
  | @cons t w targets ws hw _ ih =>
    rw [List.map_cons, List.cons.injEq, ih, List.forall_mem_cons, ← firstWord_newline, hw,
      Option.some.injEq]

theorem replicate_of_error {i n : Nat} {b : Bool}
    (h : List.replicate i true ++ [b] = List.replicate n true) : b = true :=
  List.eq_of_mem_replicate (h ▸ List.mem_append_right _ (List.mem_singleton_self b))

theorem calls_iff {targets : List Bytes} {m0 m : Machine} {r : Except Exn Unit}
    (h : Calls targets m0 r m) :
    (r = .ok () ∧ m.stdout = m0.stdout ++ targets.map lastComponent) ↔
      m.answered = m0.answered ++ List.replicate targets.length true ∧
        ∀ t ∈ targets, IsWord (lastComponent t) := by
  cases r with
  | ok u =>
    obtain ⟨hans, ws, hout, hws⟩ := h
    rw [hout, List.append_cancel_left_eq, words_eq_iff hws]
    exact ⟨fun h => ⟨hans, h.2⟩, fun h => ⟨rfl, h.2⟩⟩
  | error e =>
    obtain ⟨i, b, hans, hb⟩ := h
    refine iff_of_false (fun h => by cases h.1) fun ⟨hall, hwords⟩ => ?_
    have hlast := replicate_of_error (List.append_cancel_left (hans.symm.trans hall))
    obtain ⟨t, ht, hword⟩ := hb hlast
    exact hword (hwords t ht)

/-! ## The script on a domain -/

variable {domains : List Domain} {domName imageName : Text} {dom : Domain}

/-- The disks of the image have PCI addresses. -/
def Addressed (xml : Document) (imageName : Text) : Prop :=
  ∀ disk ∈ xml.getElementsByTagName "disk", HasImage disk imageName →
    ∃ pci, disk.diskPci = some pci

theorem pcis_of_addressed {xml : Document} (h : Addressed xml imageName) :
    getPCIByImageNameFromDomain xml imageName = .ok ((imagePcis xml imageName).map some) := by
  have hall : ∀ disk ∈ (xml.getElementsByTagName "disk").filter (HasImage · imageName),
      ∃ pci, disk.diskPci = some pci := by
    intro disk hmem
    obtain ⟨hdisk, himage⟩ := List.mem_filter.mp hmem
    exact h disk hdisk (of_decide_eq_true himage)
  unfold imagePcis
  rw [lookup_eq, ← map_diskPci hall]
  apply mapM_of_ok
  intro disk hmem
  obtain ⟨pci, hpci⟩ := hall disk hmem
  rw [hpci]
  exact getPCIFromNode_of_pci hpci

/-- Without an address there is no list, or a `None` in it. -/
theorem none_of_not_addressed {xml : Document} (hxml : IsDomain xml)
    (h : ¬ Addressed xml imageName) {pcis : List (Option Text)}
    (hok : getPCIByImageNameFromDomain xml imageName = .ok pcis) : none ∈ pcis := by
  simp only [Addressed, not_forall] at h
  obtain ⟨disk, hdisk, himage, hno⟩ := h
  rw [lookup_eq] at hok
  have hmem : disk ∈ (xml.getElementsByTagName "disk").filter (HasImage · imageName) :=
    List.mem_filter.mpr ⟨hdisk, decide_eq_true himage⟩
  obtain ⟨result, hresult, hgiven⟩ := ok_of_mapM hok disk hmem
  cases result with
  | none => exact hresult
  | some pci => exact absurd ⟨pci, (getPCIFromNode_iff (hxml disk hdisk) pci).mp hgiven⟩ hno

theorem main_found (hdom : findDomain domains domName = some dom) (argv0 : Text)
    (rest : List Text) :
    main domains (argv0 :: domName :: imageName :: rest) =
      match getPCIByImageNameFromDomain dom.xml imageName with
      | .error e => .throw e
      | .ok pcis => forEach pcis getDiskNameOf >>= fun _ => .ret .done := by
  rw [main, hdom]

/-- The end of the script, told from the end of its calls. -/
def Ended (Post : Except Exn Unit → Machine → Prop) (r : Except Exn End) (m : Machine) : Prop :=
  ∃ r' : Except Exn Unit, r = r'.map (fun _ => .done) ∧ Post r' m

theorem ended {Post : Except Exn Unit → Machine → Prop} {p : Py Unit} {m : Machine}
    (h : Satisfies links Post p m) :
    Satisfies links (Ended Post) (p >>= fun _ => .ret .done) m := by
  refine Sat.bind (Sat.mono (fun r m' hpost => ?_) h.later)
  cases r with
  | ok u => exact fun m'' hr => ⟨.ok u, rfl, hpost m'' hr⟩
  | error e => exact ⟨.error e, rfl, hpost m' .refl⟩

/-- **The script ends with the guest's names of all disks of the image exactly when each of them
    has a PCI address, each process had exited when its status was answered, and each name is one
    word**, for every order of the steps of the script and of the guest. -/
theorem main_prints_iff (hdom : findDomain domains domName = some dom) (hxml : IsDomain dom.xml)
    {target : Text → Bytes}
    (hlinks : ∀ pci ∈ imagePcis dom.xml imageName, links (linkPath pci) = some (target pci))
    {argv0 : Text} {rest : List Text} {m m' : Machine} {r : Except Exn End} {p : Py End}
    (hend : p = match r with
      | .ok e => .ret e
      | .error e => .throw e)
    (hrun : ReflTransGen (Step serve (Finish links) fun _ _ => True)
      (m, main domains (argv0 :: domName :: imageName :: rest)) (m', p)) :
    (r = .ok .done ∧ m'.stdout =
        m.stdout ++ (imagePcis dom.xml imageName).map fun pci => lastComponent (target pci)) ↔
      Addressed dom.xml imageName ∧
        m'.answered = m.answered ++ List.replicate (imagePcis dom.xml imageName).length true ∧
        ∀ pci ∈ imagePcis dom.xml imageName, IsWord (lastComponent (target pci)) := by
  rw [main_found hdom] at hrun
  -- what holds at the end of the script, in whatever way it came there
  have htold {Post : Except Exn End → Machine → Prop} {q : Py End} (hsat : Satisfies links Post q m)
      (hq : ReflTransGen (Step serve (Finish links) fun _ _ => True) (m, q) (m', p)) :
      Post r m' := by
    have hlast := Sat.run (c := (m, q)) hsat hq
    subst hend
    cases r with
    | ok e => exact hlast m' .refl
    | error e => exact hlast m' .refl
  by_cases haddr : Addressed dom.xml imageName
  · rw [pcis_of_addressed haddr] at hrun
    obtain ⟨r', rfl, hcalls⟩ := htold (ended links (calls links hlinks m)) hrun
    have hiff := calls_iff hcalls
    rw [List.map_map, List.length_map, List.forall_mem_map] at hiff
    rw [and_iff_right haddr, ← hiff]
    refine and_congr_left fun _ => ?_
    cases r' with
    | ok u => exact iff_of_true rfl rfl
    | error e => exact iff_of_false (fun h => by cases h) fun h => by cases h
  · refine iff_of_false (fun h => ?_) fun h => haddr h.1
    cases hpcis : getPCIByImageNameFromDomain dom.xml imageName with
    | error e =>
      rw [hpcis] at hrun
      have hsat : Satisfies links (fun r _ => r = .error e) (.throw e : Py End) m := fun _ _ => rfl
      rw [htold hsat hrun] at h
      cases h.1
    | ok pcis =>
      rw [hpcis] at hrun
      have hnone := none_of_not_addressed hxml haddr hpcis
      obtain ⟨r', hr', e, rfl⟩ := htold (ended links (calls_none links hnone m)) hrun
      rw [hr'] at h
      cases h.1

end

/-- The domain of two disks, and a call for the image of the PCI disk. -/
def vm : Domain := ⟨"vm".toList, 3, twoDisks⟩

def vmArgs : List Text := ["get_diskname.py".toList, "vm".toList, "a.img".toList]

theorem addressed_vm : Addressed vm.xml "a.img".toList := by
  unfold Addressed
  rw [show vm.xml = twoDisks from rfl, disks_twoDisks]
  intro disk hdisk himage
  simp only [List.mem_cons, List.not_mem_nil, or_false] at hdisk
  rcases hdisk with rfl | rfl
  · exact ⟨_, diskPci_virtioDisk⟩
  · exact absurd himage (by decide)

theorem main_prints_iff_vm : ∃ m',
    ReflTransGen (Step serve (Finish vdaLink) fun _ _ => True) (idle, main [vm] vmArgs)
      (m', .ret .done) ∧ m'.stdout = [lastComponent vdaTarget] := by
  have hpcis : imagePcis vm.xml "a.img".toList = ["0000:00:07.0".toList] := by
    rw [imagePcis, show vm.xml = twoDisks from rfl, disks_twoDisks]
    rfl
  have hdom : findDomain [vm] "vm".toList = some vm := rfl
  have hlink : vdaLink (linkPath "0000:00:07.0".toList) = some vdaTarget := rfl
  obtain ⟨m', hcall, hans⟩ := run_fast vdaLink hlink isWord_vda idle
  have hmain : main [vm] vmArgs = getDiskNameByPCI "0000:00:07.0".toList >>= fun _ =>
      .ret .done := by
    rw [vmArgs, main_found hdom, pcis_of_addressed addressed_vm, hpcis]
    exact congrArg (· >>= _) (bind_ret_unit _)
  have hrun : ReflTransGen (Step serve (Finish vdaLink) fun _ _ => True) (idle, main [vm] vmArgs)
      (m', .ret .done) := hmain ▸ steps_bind hcall
  have hlinks : ∀ pci ∈ imagePcis vm.xml "a.img".toList,
      vdaLink (linkPath pci) = some vdaTarget := fun _ _ => rfl
  have hiff := main_prints_iff vdaLink hdom isDomain_twoDisks hlinks (r := .ok .done) rfl hrun
  rw [hpcis] at hiff
  have hout := (hiff.mpr ⟨addressed_vm, hans, fun _ _ => isWord_vda⟩).2
  exact ⟨m', hrun, hout⟩

end LinuxSummary.Libvirt
