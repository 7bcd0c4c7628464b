/-
  `getPCIByImageNameFromDomain` of `get_diskname_by_volume_id.py`: the PCI addresses of the disks
  of an image, from the XML of a domain.

  The parsed document is a tree. `filter` and `map` are those of Python 2: every disk that has
  the name is asked for its address. A disk without an address gives `None`, one with an address
  of another kind a `KeyError` for the whole call. Names are texts here; the name of an image that
  is not ASCII is a byte string in Python 2, and its failing comparison with the unicode of the
  document is not modelled.

  `image_lookup_iff`: the call returns the PCI addresses of the disks of the image exactly when
  all of these disks have one.
-/
import LinuxSummary.Library.Numeral
import LinuxSummary.Libvirt.GuestExec

namespace LinuxSummary.Libvirt

open Numeral (isDigitOf)

/-! ## The document -/

/-- A node; the attributes of an element have different names. -/
inductive Node
  | element (tagName : String) (attributes : List (String × Text)) (childNodes : List Node)
  | text (data : Text)
  | comment (data : Text)

def Node.nodeName : Node → String
  | .element tagName _ _ => tagName
  | .text _ => "#text"
  | .comment _ => "#comment"

def Node.tagName : Node → Option String
  | .element tagName _ _ => some tagName
  | .text _ => none
  | .comment _ => none

def Node.attributes : Node → List (String × Text)
  | .element _ attributes _ => attributes
  | .text _ => []
  | .comment _ => []

def Node.childNodes : Node → List Node
  | .element _ _ childNodes => childNodes
  | .text _ => []
  | .comment _ => []

structure Document where
  childNodes : List Node

mutual

/-- The elements of a name below a node, in document order. -/
def Node.getElementsByTagName (name : String) : Node → List Node
  | .element _ _ childNodes => elementsIn name childNodes
  | .text _ => []
  | .comment _ => []

/-- The elements of a name among some nodes and below them. -/
def elementsIn (name : String) : List Node → List Node
  | [] => []
  | node :: rest =>
    (if node.tagName = some name then [node] else []) ++
      (node.getElementsByTagName name ++ elementsIn name rest)

end

def Document.getElementsByTagName (xml : Document) (name : String) : List Node :=
  elementsIn name xml.childNodes

/-- `attributes[name].value` -/
def Node.value (node : Node) (name : String) : Except Exn Text :=
  match node.attributes.lookup name with
  | some value => .ok value
  | none => .error .keyError

/-! ## The script -/

def checkDiskName (diskType : Node) (diskname : Text) : Bool :=
  diskType.childNodes.any fun diskNode =>
    diskNode.nodeName == "source" &&
      diskNode.attributes.any fun attr => Text.occursIn diskname attr.2

/-- The first address decides; without one the function returns `None`. -/
def getPCIFromNode (diskType : Node) : Except Exn (Option Text) :=
  match diskType.childNodes.find? fun diskNode => diskNode.nodeName == "address" with
  | none => .ok none
  | some diskNode => do
    let domain ← diskNode.value "domain"
    let bus ← diskNode.value "bus"
    let slot ← diskNode.value "slot"
    let function ← diskNode.value "function"
    return some (domain.drop 2 ++ ':' :: (bus.drop 2 ++ ':' ::
      (slot.drop 2 ++ '.' :: function.drop 2)))

def getPCIByImageNameFromDomain (xml : Document) (imageName : Text) :
    Except Exn (List (Option Text)) :=
  ((xml.getElementsByTagName "disk").filter fun diskType =>
    checkDiskName diskType imageName).mapM getPCIFromNode

/-- The concatenation that `getDiskNameByPCI` begins with. -/
def linkArg : Option Text → Except Exn Text
  | none => .error .typeError
  | some pci => .ok (linkPath pci)

/-! ## What is asked for -/

/-- The digits of a hexadecimal number behind `0x`. -/
def hexDigits : Text → Option Text
  | '0' :: 'x' :: digits =>
    if digits ≠ [] ∧ digits.all (isDigitOf 16) then some digits else none
  | _ => none

def Node.digits (address : Node) (name : String) : Option Text :=
  (address.attributes.lookup name).bind hexDigits

/-- `dddd:bb:ss.f` of an address of type `pci`. -/
def Node.pci (address : Node) : Option Text :=
  if address.attributes.lookup "type" = some "pci".toList then
    (address.digits "domain").bind fun domain =>
    (address.digits "bus").bind fun bus =>
    (address.digits "slot").bind fun slot =>
    (address.digits "function").map fun function =>
      domain ++ ':' :: (bus ++ ':' :: (slot ++ '.' :: function))
  else none

def Node.addresses (disk : Node) : List Node :=
  disk.childNodes.filter fun node => node.nodeName == "address"

/-- The PCI address of a disk; there is at most one address. -/
def Node.diskPci (disk : Node) : Option Text := disk.addresses.head?.bind Node.pci

/-- A source of the disk contains the image name. -/
def HasImage (disk : Node) (imageName : Text) : Prop :=
  ∃ source ∈ disk.childNodes, source.nodeName = "source" ∧
    ∃ attr ∈ source.attributes, imageName <:+: attr.2

/-- An address is of type `pci` and complete, or of another type and not one of PCI. -/
def IsDisk (disk : Node) : Prop :=
  ∀ address ∈ disk.addresses, (∃ pci, address.pci = some pci) ∨
    address.attributes.lookup "type" ≠ some "pci".toList ∧
      ∃ name ∈ ["domain", "bus", "slot", "function"], address.attributes.lookup name = none

def IsDomain (xml : Document) : Prop := ∀ disk ∈ xml.getElementsByTagName "disk", IsDisk disk

instance decidableHasImage (disk : Node) (imageName : Text) : Decidable (HasImage disk imageName) :=
  inferInstanceAs (Decidable (∃ source ∈ disk.childNodes, source.nodeName = "source" ∧
    ∃ attr ∈ source.attributes, imageName <:+: attr.2))

/-- The PCI addresses of the disks of the image that have one, in document order. -/
def imagePcis (xml : Document) (imageName : Text) : List Text :=
  ((xml.getElementsByTagName "disk").filter (HasImage · imageName)).filterMap Node.diskPci

/-- The call returns these addresses, and each can be used as such. -/
def Exact (xml : Document) (imageName : Text) : Prop :=
  ∃ results, getPCIByImageNameFromDomain xml imageName = .ok results ∧
    results = (imagePcis xml imageName).map some ∧
    ∀ pci ∈ results, ∃ path, linkArg pci = .ok path

/-! ## The elements of the document -/

/-- A node among some nodes or below them. -/
inductive Within : Node → List Node → Prop
  | here {node : Node} {nodes : List Node} (h : node ∈ nodes) : Within node nodes
  | deeper {node parent : Node} {nodes : List Node} (h : parent ∈ nodes)
      (hnode : Within node parent.childNodes) : Within node nodes

theorem elementsIn_eq_flatMap (name : String) (nodes : List Node) :
    elementsIn name nodes = nodes.flatMap fun node =>
      (if node.tagName = some name then [node] else []) ++ node.getElementsByTagName name := by
  induction nodes with
  | nil => rfl
  | cons node rest ih => rw [elementsIn, ih, List.flatMap_cons, List.append_assoc]

theorem Node.getElementsByTagName_eq (name : String) (node : Node) :
    node.getElementsByTagName name = elementsIn name node.childNodes := by
  cases node with
  | element tagName attributes childNodes => rfl
  | text data => rfl
  | comment data => rfl

theorem Within.cons {node first : Node} {rest : List Node} (h : Within node rest) :
    Within node (first :: rest) := by
  cases h with
  | here h => exact .here (List.mem_cons_of_mem first h)
  | deeper h hnode => exact .deeper (List.mem_cons_of_mem first h) hnode

mutual

theorem within_of_mem_below {name : String} {found : Node} : (node : Node) →
    found ∈ node.getElementsByTagName name →
      Within found node.childNodes ∧ found.tagName = some name
  | .element _ _ childNodes => fun h => within_of_mem childNodes h
  | .text _ => fun h => absurd h List.not_mem_nil
  | .comment _ => fun h => absurd h List.not_mem_nil

theorem within_of_mem {name : String} {found : Node} : (nodes : List Node) →
    found ∈ elementsIn name nodes → Within found nodes ∧ found.tagName = some name
  | [] => fun h => absurd h List.not_mem_nil
  | node :: rest => fun h => by
    rw [elementsIn, List.mem_append, List.mem_append] at h
    rcases h with h | h | h
    · split at h
      · next htag =>
        rw [List.mem_singleton.mp h]
        exact ⟨.here List.mem_cons_self, htag⟩
      · exact absurd h List.not_mem_nil
    · obtain ⟨hbelow, htag⟩ := within_of_mem_below node h
      exact ⟨.deeper List.mem_cons_self hbelow, htag⟩
    · obtain ⟨hrest, htag⟩ := within_of_mem rest h
      exact ⟨hrest.cons, htag⟩

end

/-- **Exactly the elements of that name are found**, wherever they are in the document. -/
theorem mem_elementsIn_iff {name : String} {found : Node} {nodes : List Node} :
    found ∈ elementsIn name nodes ↔ Within found nodes ∧ found.tagName = some name := by
  constructor
  · exact within_of_mem nodes
  · intro h
    obtain ⟨hwithin, htag⟩ := h
    induction hwithin with
    | @here nodes h =>
      rw [elementsIn_eq_flatMap]
      refine List.mem_flatMap.mpr ⟨found, h, List.mem_append_left _ ?_⟩
      rw [if_pos htag]
      exact List.mem_cons_self
    | @deeper parent nodes h _ ih =>
      rw [elementsIn_eq_flatMap]
      refine List.mem_flatMap.mpr ⟨parent, h, List.mem_append_right _ ?_⟩
      rw [parent.getElementsByTagName_eq]
      exact ih

/-! ## Results -/

theorem bind_ok {α β : Type} {x : Except Exn α} {f : α → Except Exn β} {b : β}
    (h : (x >>= f) = .ok b) : ∃ a, x = .ok a ∧ f a = .ok b := by
  cases x with
  | error e => exact absurd h (by simp [bind, Except.bind])
  | ok a => exact ⟨a, rfl, h⟩

theorem mapM_of_ok {α β : Type} {f : α → Except Exn β} {g : α → β} {l : List α}
    (h : ∀ a ∈ l, f a = .ok (g a)) : l.mapM f = .ok (l.map g) := by
  induction l with
  | nil => rfl
  | cons a l ih =>
    rw [List.mapM_cons, h a List.mem_cons_self, ih fun b hb => h b (List.mem_cons_of_mem a hb)]
    rfl

theorem ok_of_mapM {α β : Type} {f : α → Except Exn β} {l : List α} {bs : List β}
    (h : l.mapM f = .ok bs) : ∀ a ∈ l, ∃ b ∈ bs, f a = .ok b := by
  induction l generalizing bs with
  | nil => exact fun a ha => absurd ha List.not_mem_nil
  | cons a l ih =>
    rw [List.mapM_cons] at h
    obtain ⟨b, hb, h⟩ := bind_ok h
    obtain ⟨rest, hrest, h⟩ := bind_ok h
    rw [← Except.ok.inj h]
    intro c hc
    rcases List.mem_cons.mp hc with rfl | hc
    · exact ⟨b, List.mem_cons_self, hb⟩
    · obtain ⟨d, hd, hcd⟩ := ih hrest c hc
      exact ⟨d, List.mem_cons_of_mem b hd, hcd⟩

/-! ## One disk -/

theorem checkDiskName_iff (disk : Node) (imageName : Text) :
    checkDiskName disk imageName = true ↔ HasImage disk imageName := by
  unfold checkDiskName HasImage
  rw [List.any_eq_true]
  apply exists_congr
  intro source
  apply and_congr_right
  intro _
  rw [Bool.and_eq_true, beq_iff_eq, List.any_eq_true]
  apply and_congr_right
  intro _
  apply exists_congr
  intro attr
  rw [Text.occursIn_iff]

theorem drop_of_hexDigits {value digits : Text} (h : hexDigits value = some digits) :
    value.drop 2 = digits := by
  unfold hexDigits at h
  split at h
  · split at h
    · exact Option.some.inj h
    · exact absurd h (by simp)
  · exact absurd h (by simp)

theorem value_of_digits {address : Node} {name : String} {digits : Text}
    (h : address.digits name = some digits) :
    ∃ value, address.value name = .ok value ∧ value.drop 2 = digits := by
  obtain ⟨value, hlookup, hdigits⟩ := Option.bind_eq_some_iff.mp h
  refine ⟨value, ?_, drop_of_hexDigits hdigits⟩
  unfold Node.value
  rw [hlookup]

theorem find_address (disk : Node) :
    (disk.childNodes.find? fun diskNode => diskNode.nodeName == "address") =
      disk.addresses.head? :=
  List.head?_filter.symm

/-- A disk with a PCI address gives it. -/
theorem getPCIFromNode_of_pci {disk : Node} {pci : Text} (h : disk.diskPci = some pci) :
    getPCIFromNode disk = .ok (some pci) := by
  obtain ⟨address, hfirst, hpci⟩ := Option.bind_eq_some_iff.mp h
  unfold Node.pci at hpci
  split at hpci
  · obtain ⟨domain, hdomain, hpci⟩ := Option.bind_eq_some_iff.mp hpci
    obtain ⟨bus, hbus, hpci⟩ := Option.bind_eq_some_iff.mp hpci
    obtain ⟨slot, hslot, hpci⟩ := Option.bind_eq_some_iff.mp hpci
    obtain ⟨function, hfunction, rfl⟩ := Option.map_eq_some_iff.mp hpci
    obtain ⟨v1, hv1, rfl⟩ := value_of_digits hdomain
    obtain ⟨v2, hv2, rfl⟩ := value_of_digits hbus
    obtain ⟨v3, hv3, rfl⟩ := value_of_digits hslot
    obtain ⟨v4, hv4, rfl⟩ := value_of_digits hfunction
    unfold getPCIFromNode
    rw [find_address, hfirst]
    dsimp only
    rw [hv1, hv2, hv3, hv4]
    rfl
  · exact absurd hpci (by simp)

theorem value_of_lookup_none {address : Node} {name : String}
    (h : address.attributes.lookup name = none) : address.value name = .error .keyError := by
  unfold Node.value
  rw [h]

/-- An address that is not one of PCI ends the call. -/
theorem getPCIFromNode_of_missing {disk address : Node}
    (hfirst : disk.addresses.head? = some address) {name : String}
    (hname : name ∈ ["domain", "bus", "slot", "function"])
    (h : address.attributes.lookup name = none) (pci : Option Text) :
    getPCIFromNode disk ≠ .ok pci := by
  have hmissing := value_of_lookup_none h
  unfold getPCIFromNode
  rw [find_address, hfirst]
  intro hok
  obtain ⟨v1, hv1, hok⟩ := bind_ok hok
  obtain ⟨v2, hv2, hok⟩ := bind_ok hok
  obtain ⟨v3, hv3, hok⟩ := bind_ok hok
  obtain ⟨v4, hv4, -⟩ := bind_ok hok
  simp only [List.mem_cons, List.not_mem_nil, or_false] at hname
  rcases hname with rfl | rfl | rfl | rfl
  · exact absurd (hmissing.symm.trans hv1) (by simp)
  · exact absurd (hmissing.symm.trans hv2) (by simp)
  · exact absurd (hmissing.symm.trans hv3) (by simp)
  · exact absurd (hmissing.symm.trans hv4) (by simp)

/-- **A disk gives an address exactly when it has a PCI address.** -/
theorem getPCIFromNode_iff {disk : Node} (h : IsDisk disk) (pci : Text) :
    getPCIFromNode disk = .ok (some pci) ↔ disk.diskPci = some pci := by
  refine ⟨fun hok => ?_, getPCIFromNode_of_pci⟩
  cases hfirst : disk.addresses.head? with
  | none =>
    unfold getPCIFromNode at hok
    rw [find_address, hfirst] at hok
    exact absurd hok (by simp)
  | some address =>
    rcases h address (List.mem_of_head? hfirst) with hpci | hother
    · obtain ⟨pci', hpci'⟩ := hpci
      have hdisk : disk.diskPci = some pci' := by
        unfold Node.diskPci
        rw [hfirst]
        exact hpci'
      have hsame := (getPCIFromNode_of_pci hdisk).symm.trans hok
      rw [hdisk]
      exact Except.ok.inj hsame
    · obtain ⟨-, name, hname, hnone⟩ := hother
      exact absurd hok (getPCIFromNode_of_missing hfirst hname hnone _)

/-! ## The lookup -/

theorem map_diskPci {l : List Node} (h : ∀ disk ∈ l, ∃ pci, disk.diskPci = some pci) :
    l.map Node.diskPci = (l.filterMap Node.diskPci).map some := by
  induction l with
  | nil => rfl
  | cons disk l ih =>
    obtain ⟨pci, hpci⟩ := h disk List.mem_cons_self
    rw [List.map_cons, List.filterMap_cons_some hpci, List.map_cons, hpci,
      ih fun d hd => h d (List.mem_cons_of_mem disk hd)]

/-- The disks that are asked for their address. -/
theorem lookup_eq (xml : Document) (imageName : Text) :
    getPCIByImageNameFromDomain xml imageName =
      ((xml.getElementsByTagName "disk").filter (HasImage · imageName)).mapM getPCIFromNode := by
  have hsame : (fun disk => checkDiskName disk imageName) =
      fun disk => decide (HasImage disk imageName) := by
    funext disk
    exact Bool.eq_iff_iff.mpr ((checkDiskName_iff disk imageName).trans decide_eq_true_iff.symm)
  unfold getPCIByImageNameFromDomain
  rw [hsame]

theorem pci_of_exact {xml : Document} (hxml : IsDomain xml) {imageName : Text}
    (h : Exact xml imageName) {disk : Node} (hdisk : disk ∈ xml.getElementsByTagName "disk")
    (himage : HasImage disk imageName) : ∃ pci, disk.diskPci = some pci := by
  obtain ⟨results, hok, hresults, -⟩ := h
  rw [lookup_eq] at hok
  have hmem : disk ∈ (xml.getElementsByTagName "disk").filter (HasImage · imageName) :=
    List.mem_filter.mpr ⟨hdisk, decide_eq_true himage⟩
  obtain ⟨result, hresult, hgiven⟩ := ok_of_mapM hok disk hmem
  rw [hresults] at hresult
  obtain ⟨pci, -, rfl⟩ := List.mem_map.mp hresult
  exact ⟨pci, (getPCIFromNode_iff (hxml disk hdisk) pci).mp hgiven⟩

/-- **The lookup is exact exactly when every disk of the image has a PCI address.** -/
theorem image_lookup_iff {xml : Document} (hxml : IsDomain xml) (imageName : Text) :
    Exact xml imageName ↔ ∀ disk ∈ xml.getElementsByTagName "disk",
      HasImage disk imageName → ∃ pci, disk.diskPci = some pci := by
  constructor
  · intro h disk hdisk himage
    exact pci_of_exact hxml h hdisk himage
  · intro h
    have hall : ∀ disk ∈ (xml.getElementsByTagName "disk").filter (HasImage · imageName),
        ∃ pci, disk.diskPci = some pci := by
      intro disk hmem
      obtain ⟨hdisk, himage⟩ := List.mem_filter.mp hmem
      exact h disk hdisk (of_decide_eq_true himage)
    refine ⟨(imagePcis xml imageName).map some, ?_, rfl, fun pci hpci => ?_⟩
    · unfold imagePcis
      rw [lookup_eq, ← map_diskPci hall]
      apply mapM_of_ok
      intro disk hmem
      obtain ⟨pci, hpci⟩ := hall disk hmem
      rw [hpci]
      exact getPCIFromNode_of_pci hpci
    · obtain ⟨pci, -, rfl⟩ := List.mem_map.mp hpci
      exact ⟨_, rfl⟩

/-! ## Two disks -/

/-- A disk on the PCI bus. -/
def virtioDisk : Node :=
  .element "disk" [("type", "file".toList)]
    [.text "\n".toList, .element "source" [("file", "a.img".toList)] [],
      .element "address" [("type", "pci".toList), ("domain", "0x0000".toList),
        ("bus", "0x00".toList), ("slot", "0x07".toList), ("function", "0x0".toList)] []]

/-- A disk on a SCSI bus. -/
def scsiDisk : Node :=
  .element "disk" [("type", "file".toList)]
    [.element "source" [("file", "b.img".toList)] [],
      .element "address" [("type", "drive".toList), ("controller", "0".toList),
        ("bus", "0".toList), ("target", "0".toList), ("unit", "0".toList)] []]

def twoDisks : Document := ⟨[.element "domain" [] [.element "devices" [] [virtioDisk, scsiDisk]]]⟩

theorem disks_twoDisks : twoDisks.getElementsByTagName "disk" = [virtioDisk, scsiDisk] := rfl

theorem diskPci_virtioDisk : virtioDisk.diskPci = some "0000:00:07.0".toList := rfl

theorem isDomain_twoDisks : IsDomain twoDisks := by
  unfold IsDomain
  rw [disks_twoDisks]
  intro disk hdisk
  simp only [List.mem_cons, List.not_mem_nil, or_false] at hdisk
  rcases hdisk with rfl | rfl
  · intro address haddress
    change address ∈ [_] at haddress
    rw [List.mem_singleton.mp haddress]
    exact .inl ⟨"0000:00:07.0".toList, rfl⟩
  · intro address haddress
    change address ∈ [_] at haddress
    rw [List.mem_singleton.mp haddress]
    exact .inr ⟨by decide, "domain", by decide, rfl⟩

/-- The image of the PCI disk is looked up. -/
theorem image_lookup_virtio : Exact twoDisks "a.img".toList := by
  refine (image_lookup_iff isDomain_twoDisks _).mpr ?_
  rw [disks_twoDisks]
  intro disk hdisk himage
  simp only [List.mem_cons, List.not_mem_nil, or_false] at hdisk
  rcases hdisk with rfl | rfl
  · exact ⟨_, diskPci_virtioDisk⟩
  · exact absurd himage (by decide)

/-- The image of the other disk is not: the address has no `domain`. -/
theorem not_exact_scsi : ¬ Exact twoDisks "b.img".toList := by
  intro h
  have hdisk : scsiDisk ∈ twoDisks.getElementsByTagName "disk" := by
    rw [disks_twoDisks]
    exact List.mem_cons_of_mem _ List.mem_cons_self
  obtain ⟨pci, hpci⟩ := pci_of_exact isDomain_twoDisks h hdisk (by decide)
  have hnone : scsiDisk.diskPci = none := rfl
  exact absurd (hnone.symm.trans hpci) (by simp)

end LinuxSummary.Libvirt
