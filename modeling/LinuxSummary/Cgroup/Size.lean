/-
  Sizes: the regular expression `^[0-9]+[kKmMgG]?$` of the script and `unit_to_bytes`.

  `isSize_iff` says which texts the expression lets pass: digits, at most one unit, and
  at most one line feed at the end (`$` matches before it). `unitToBytes_eq` is
  `unit_to_bytes` as a function, and `unit_to_bytes_iff` compares it with the grammar of
  sizes (`Denotes`).
-/
import LinuxSummary.Cgroup.Tool

namespace LinuxSummary.Cgroup

open Pattern

theorem isUnit_not_isDec {c : Char} (h : isUnit c = true) : isDec c = false := by
  simp only [isUnit, List.contains_iff_mem] at h
  have hall : "kKmMgG".toList.all (fun c => !isDec c) = true := rfl
  simpa using List.all_eq_true.mp hall c h

/-- After the digits: a unit or nothing, then the end. -/
theorem matchHere_unit_isSome (s : Text) :
    (matchHere [.opt isUnit, .eos] s).isSome ↔
      ∃ u nl, s = u ++ nl ∧ (u = [] ∨ ∃ c, isUnit c = true ∧ u = [c]) ∧
        (nl = [] ∨ nl = ['\n']) := by
  have heos : ∀ t : Text, (matchHere [.eos] t).isSome ↔ (t = [] ∨ t = ['\n']) := by
    intro t
    simp only [matchHere]
    split <;> simp_all
  have hopt : (matchHere [.opt isUnit, .eos] s).isSome ↔
      (one isUnit (matchHere [.eos]) s).isSome ∨ (matchHere [.eos] s).isSome := by
    rw [matchHere, Option.orElse_eq_orElse, Option.orElse_eq_or, Option.isSome_or, Bool.or_eq_true]
  rw [hopt, heos]
  constructor
  · intro h
    rcases h with h | h
    · cases s with
      | nil => exact absurd h (by simp [one])
      | cons c s =>
        simp only [one] at h
        split at h
        · next hc => exact ⟨[c], s, rfl, .inr ⟨c, hc, rfl⟩, (heos s).mp h⟩
        · exact absurd h (by simp)
    · exact ⟨[], s, rfl, .inl rfl, h⟩
  · intro h
    obtain ⟨u, nl, rfl, rfl | ⟨c, hc, rfl⟩, hnl⟩ := h
    · exact .inr hnl
    · left
      simp only [List.cons_append, List.nil_append, one, hc, if_true]
      exact (heos nl).mpr hnl

theorem matchHere_unit_reject (c : Char) (cs : Text) (h : isDec c = true) :
    matchHere [.opt isUnit, .eos] (c :: cs) = none := by
  have hu : isUnit c = false := by
    cases hu : isUnit c with
    | false => rfl
    | true => rw [isUnit_not_isDec hu] at h; exact absurd h (by decide)
  have hc : c ≠ '\n' := by rintro rfl; exact absurd h (by decide)
  simp [matchHere, one, hu, hc]

theorem head_behind_digits {u nl : Text} (hu : u = [] ∨ ∃ c, isUnit c = true ∧ u = [c])
    (hnl : nl = [] ∨ nl = ['\n']) (c : Char) (hc : (u ++ nl).head? = some c) :
    isDec c = false := by
  rcases hu with rfl | ⟨d, hd, rfl⟩
  · rcases hnl with rfl | rfl
    · exact absurd hc (by simp)
    · obtain rfl := Option.some.inj hc
      rfl
  · obtain rfl := Option.some.inj hc
    exact isUnit_not_isDec hd

/-- What the regular expression of the sizes lets pass. -/
theorem isSize_iff (data : Text) :
    isSize data = true ↔ ∃ ds u nl, data = ds ++ (u ++ nl) ∧ ds ≠ [] ∧
      (∀ c ∈ ds, isDec c = true) ∧ (u = [] ∨ ∃ c, isUnit c = true ∧ u = [c]) ∧
      (nl = [] ∨ nl = ['\n']) := by
  constructor
  · intro h
    obtain ⟨m, hm⟩ := Option.isSome_iff_exists.mp h
    obtain ⟨ds, rest, gs, rfl, hne, hds, hrest, -⟩ := matchHere_plus_some hm
    obtain ⟨u, nl, rfl, hu, hnl⟩ := (matchHere_unit_isSome rest).mp (by simp [hrest])
    exact ⟨ds, u, nl, rfl, hne, hds, hu, hnl⟩
  · intro h
    obtain ⟨ds, u, nl, rfl, hne, hds, hu, hnl⟩ := h
    have hrest := (matchHere_unit_isSome (u ++ nl)).mpr ⟨u, nl, rfl, hu, hnl⟩
    have hhead := head_behind_digits hu hnl
    rw [isSize, sizeRe, matchHere_plus matchHere_unit_reject hds hhead hne]
    simpa using hrest

/-- The number of bytes that a size text stands for. -/
def sizeBytes (data : Text) : Nat :=
  Numeral.value 10 (data.takeWhile isDec) *
    match (data.dropWhile isDec).head? with
    | some c => if isUnit c then us c else 1
    | none => 1

/-- Searching the unit finds the character behind the digits, if it is one. -/
theorem search_unit {ds u nl : Text} (hds : ∀ c ∈ ds, isDec c = true)
    (hu : u = [] ∨ ∃ c, isUnit c = true ∧ u = [c]) (hnl : nl = [] ∨ nl = ['\n']) :
    search [.chr isUnit] (ds ++ (u ++ nl)) = u.head?.map fun c => ⟨[c], []⟩ := by
  induction ds with
  | nil =>
    rcases hu with rfl | ⟨c, hc, rfl⟩
    · rcases hnl with rfl | rfl <;> rfl
    · simp [search, matchHere, one, hc]
  | cons d ds ih =>
    have hd : isUnit d = false := by
      cases h : isUnit d with
      | false => rfl
      | true =>
        have := hds d (by simp)
        rw [isUnit_not_isDec h] at this
        exact absurd this (by decide)
    rw [List.cons_append, search]
    simp only [matchHere, one, hd, Bool.false_eq_true, if_false]
    exact ih fun c hc => hds c (by simp [hc])

/-- `unit_to_bytes` as a function. -/
theorem unitToBytes_eq (data : Text) :
    unitToBytes data = if isSize data then .ret (sizeBytes data)
      else .throw (.assertionError "can use K,M,G") := by
  by_cases h : isSize data = true
  · obtain ⟨ds, u, nl, rfl, hne, hds, hu, hnl⟩ := (isSize_iff data).mp h
    have hhead := head_behind_digits hu hnl
    have hdigits := search_of_matchHere (matchHere_plus_last hds hhead hne)
    have hwhole : (ds ++ (u ++ nl)).take ((ds ++ (u ++ nl)).length - (u ++ nl).length) = ds := by
      rw [List.length_append, Nat.add_sub_cancel, List.take_left']
      rfl
    have hdrop : (ds ++ (u ++ nl)).dropWhile isDec = u ++ nl := by
      rw [List.dropWhile_append_of_pos hds]
      cases hun : u ++ nl with
      | nil => rfl
      | cons c cs => simp [hhead c (by rw [hun]; rfl)]
    rw [if_pos h, unitToBytes, h, hdigits, search_unit hds hu hnl, hwhole, sizeBytes,
      takeWhile_append_run hds hhead, hdrop]
    rcases hu with rfl | ⟨c, hc, rfl⟩
    · rcases hnl with rfl | rfl
      · simp [Prog.require]
      · simp [Prog.require, show isUnit '\n' = false from rfl]
    · simp [Prog.require, hc]
  · rw [if_neg h, unitToBytes, Bool.not_eq_true _ |>.mp h]
    rfl

/-! ## The grammar -/

/-- What a unit stands for, or none. -/
def factor : Option Char → Nat
  | none => 1
  | some c =>
    if c = 'k' ∨ c = 'K' then 1024
    else if c = 'm' ∨ c = 'M' then 1024 ^ 2
    else 1024 ^ 3

/-- The whole text is digits and at most one unit, and stands for the number. -/
def Denotes (data : Text) (n : Nat) : Prop :=
  ∃ (ds : Text) (u : Option Char), data = ds ++ u.toList ∧ ds ≠ [] ∧
    (∀ c ∈ ds, isDec c = true) ∧ (∀ c ∈ u, isUnit c = true) ∧
    n = Numeral.value 10 ds * factor u

/-- `unit_to_bytes` returns the number of a size, and refuses every other text. -/
def ReadsSize (data : Text) : Prop :=
  (∀ n, unitToBytes data = .ret n ↔ Denotes data n) ∧
    ((¬ ∃ n, Denotes data n) → unitToBytes data = .throw (.assertionError "can use K,M,G"))

theorem us_eq_factor (c : Char) : us c = factor (some c) := by
  unfold us factor
  norm_num

theorem isUnit_iff_toList {u : Text} :
    (u = [] ∨ ∃ c, isUnit c = true ∧ u = [c]) ↔
      ∃ o : Option Char, u = o.toList ∧ ∀ c ∈ o, isUnit c = true := by
  constructor
  · intro h
    rcases h with h | ⟨c, hc, h⟩
    · exact ⟨none, h, by simp⟩
    · exact ⟨some c, h, by simpa using hc⟩
  · intro h
    obtain ⟨o, rfl, ho⟩ := h
    cases o with
    | none => exact .inl rfl
    | some c => exact .inr ⟨c, ho c rfl, rfl⟩

/-- What lies before the line feed is a size. -/
theorem isSize_iff_denotes (data : Text) :
    isSize data = true ↔ ∃ t n nl, data = t ++ nl ∧ Denotes t n ∧ (nl = [] ∨ nl = ['\n']) := by
  rw [isSize_iff]
  constructor
  · intro h
    obtain ⟨ds, u, nl, rfl, hne, hds, hu, hnl⟩ := h
    obtain ⟨o, rfl, ho⟩ := isUnit_iff_toList.mp hu
    exact ⟨ds ++ o.toList, _, nl, (List.append_assoc _ _ _).symm, ⟨ds, o, rfl, hne, hds, ho, rfl⟩,
      hnl⟩
  · intro h
    obtain ⟨t, n, nl, rfl, ⟨ds, o, rfl, hne, hds, ho, -⟩, hnl⟩ := h
    exact ⟨ds, o.toList, nl, List.append_assoc _ _ _, hne, hds,
      isUnit_iff_toList.mpr ⟨o, rfl, ho⟩, hnl⟩

theorem sizeBytes_of_denotes {t nl : Text} {n : Nat} (h : Denotes t n)
    (hnl : nl = [] ∨ nl = ['\n']) : sizeBytes (t ++ nl) = n := by
  obtain ⟨ds, o, rfl, hne, hds, ho, rfl⟩ := h
  have hhead := head_behind_digits (isUnit_iff_toList.mpr ⟨o, rfl, ho⟩) hnl
  rw [List.append_assoc, sizeBytes, takeWhile_append_run hds hhead]
  have hdrop : (ds ++ (o.toList ++ nl)).dropWhile isDec = o.toList ++ nl := by
    have h := List.takeWhile_append_dropWhile (p := isDec) (l := ds ++ (o.toList ++ nl))
    rw [takeWhile_append_run hds hhead] at h
    exact List.append_cancel_left h
  rw [hdrop]
  congr 1
  cases o with
  | none =>
    rcases hnl with rfl | rfl
    · rfl
    · rfl
  | some c =>
    have hc : isUnit c = true := ho c rfl
    show (if isUnit c then us c else 1) = factor (some c)
    rw [if_pos hc, us_eq_factor]

/-- A size does not end in a line feed. -/
theorem not_denotes_newline (t : Text) (n : Nat) : ¬ Denotes (t ++ ['\n']) n := by
  intro h
  obtain ⟨ds, o, heq, hne, hds, ho, -⟩ := h
  have hmem : '\n' ∈ ds ++ o.toList := by
    rw [← heq]
    exact List.mem_append_right _ (List.mem_singleton.mpr rfl)
  rcases List.mem_append.mp hmem with hmem | hmem
  · exact absurd (hds _ hmem) (by decide)
  · exact absurd (ho _ (Option.mem_toList.mp hmem)) (by decide)

theorem unitToBytes_of_denotes {t nl : Text} {n : Nat} (h : Denotes t n)
    (hnl : nl = [] ∨ nl = ['\n']) : unitToBytes (t ++ nl) = .ret n := by
  rw [unitToBytes_eq, if_pos ((isSize_iff_denotes _).mpr ⟨t, n, nl, rfl, h, hnl⟩),
    sizeBytes_of_denotes h hnl]

/-- **`unit_to_bytes` reads exactly the sizes, but for a line feed behind one**: `$` lets it
    pass. -/
theorem unit_to_bytes_iff (data : Text) :
    ReadsSize data ↔ ¬ ∃ t n, Denotes t n ∧ data = t ++ ['\n'] := by
  constructor
  · intro h hnl
    obtain ⟨t, n, ht, rfl⟩ := hnl
    have hret := unitToBytes_of_denotes ht (.inr rfl)
    exact not_denotes_newline t n ((h.1 n).mp hret)
  · intro hno
    have hsize : isSize data = true ↔ ∃ n, Denotes data n := by
      rw [isSize_iff_denotes]
      constructor
      · intro h
        obtain ⟨t, n, nl, rfl, ht, rfl | rfl⟩ := h
        · exact ⟨n, by rwa [List.append_nil]⟩
        · exact absurd ⟨t, n, ht, rfl⟩ hno
      · intro h
        obtain ⟨n, hn⟩ := h
        exact ⟨data, n, [], (List.append_nil _).symm, hn, .inl rfl⟩
    have hret : ∀ n, Denotes data n → unitToBytes data = .ret n := fun n hn => by
      have h := unitToBytes_of_denotes hn (.inl rfl)
      rwa [List.append_nil] at h
    refine ⟨fun n => ⟨fun h => ?_, hret n⟩, fun h => ?_⟩
    · by_cases hs : isSize data = true
      · obtain ⟨m, hm⟩ := hsize.mp hs
        rw [hret m hm] at h
        obtain rfl := Prog.ret.inj h
        exact hm
      · rw [unitToBytes_eq, if_neg hs] at h
        exact absurd h (by simp)
    · rw [unitToBytes_eq, if_neg (fun hs => h (hsize.mp hs))]

theorem denotes_10M : Denotes "10M".toList (10 * 1024 ^ 2) :=
  ⟨"10".toList, some 'M', rfl, by decide, List.all_eq_true.mp (by decide), by simp; rfl, rfl⟩

/-- `10M` with a line feed behind it is read as `10M`. -/
theorem not_readsSize_newline : ¬ ReadsSize "10M\n".toList := by
  intro h
  have hret := unitToBytes_of_denotes denotes_10M (.inr rfl)
  exact not_denotes_newline "10M".toList _ ((h.1 _).mp hret)

end LinuxSummary.Cgroup
