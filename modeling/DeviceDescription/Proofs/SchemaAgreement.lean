import DeviceDescription.Proofs.OrderedChecks

/-!
# Elements that the schema cannot tell apart

Two elements agree if their texts are the same and, name by name, their children of the schema agree one by one. What
is read at elements that agree is the same, faults included.
-/
namespace DeviceDescription

open SchemaTree PathStep Traversal

/-- A relation under which elements agree, and which descends to their children of the schema. -/
structure SchemaAgreement (uri : Text) (r : XmlElement → XmlElement → Prop) : Prop where
  directText : ∀ {x y}, r x y → x.directText = y.directText
  named : ∀ {x y}, r x y → ∀ name, List.Forall₂ r (named uri name x.children) (named uri name y.children)

namespace SchemaAgreement

variable {uri : Text} {r : XmlElement → XmlElement → Prop} (hr : SchemaAgreement uri r) {x y : XmlElement}
include hr

theorem child?_cases (h : r x y) (name : Text) :
    (child? uri name x = none ∧ child? uri name y = none) ∨
    ∃ a b, child? uri name x = some a ∧ child? uri name y = some b ∧ r a b := by
  have hzero := getElem?_of_forall₂ (hr.named h name) 0
  rwa [← List.head?_eq_getElem?, ← List.head?_eq_getElem?] at hzero

theorem forall₂_items (h : r x y) (list item : Text) :
    List.Forall₂ r (items uri list item x) (items uri list item y) := by
  rw [items, items]
  obtain ⟨hx, hy⟩ | ⟨a, b, hx, hy, hab⟩ := hr.child?_cases h list
  · rw [hx, hy]
    exact .nil
  · rw [hx, hy]
    exact hr.named hab item

theorem text?_eq (h : r x y) (name : Text) : text? uri name x = text? uri name y := by
  rw [text?, text?]
  obtain ⟨hx, hy⟩ | ⟨a, b, hx, hy, hab⟩ := hr.child?_cases h name
  · rw [hx, hy]
  · rw [hx, hy, Option.map_some, Option.map_some, hr.directText hab]

theorem number?_eq (h : r x y) (bound : Nat) (name : Text) : number? uri bound name x = number? uri bound name y := by
  rw [number?, number?, hr.text?_eq h]

theorem url?_eq [InternationalNames] (h : r x y) (base : Url) (name : Text) :
    url? uri base name x = url? uri base name y := by
  rw [url?, url?, hr.text?_eq h]

theorem requiredText_eq (h : r x y) (name : Text) : requiredText uri name x = requiredText uri name y := by
  rw [requiredText, requiredText, hr.text?_eq h]

theorem requiredNumber_eq (h : r x y) (bound : Nat) (name : Text) :
    requiredNumber uri bound name x = requiredNumber uri bound name y := by
  rw [requiredNumber, requiredNumber, hr.number?_eq h]

theorem requiredUrl_eq [InternationalNames] (h : r x y) (base : Url) (name : Text) :
    requiredUrl uri base name x = requiredUrl uri base name y := by
  rw [requiredUrl, requiredUrl, hr.text?_eq h]

theorem versionNumber?_eq (h : r x y) (name : Text) : versionNumber? uri name x = versionNumber? uri name y := by
  rw [versionNumber?, versionNumber?]
  obtain ⟨hx, hy⟩ | ⟨a, b, hx, hy, hab⟩ := hr.child?_cases h "specVersion"
  · rw [hx, hy]
  · rw [hx, hy, Option.bind_some, Option.bind_some, hr.number?_eq hab]

theorem declaredBase?_eq [InternationalNames] (h : r x y) :
    SchemaTree.declaredBase? uri x = SchemaTree.declaredBase? uri y := by
  rw [SchemaTree.declaredBase?, SchemaTree.declaredBase?, hr.text?_eq h]

variable {ns : Namespaces} (hns : ns.uri? Namespaces.deviceQualifier = some uri)
include hns

theorem readInfo_eq [InternationalNames] (h : r x y) (base : Url) :
    DeviceInfo.read base ⟨.element x, ns⟩ = DeviceInfo.read base ⟨.element y, ns⟩ := by
  rw [DeviceInfo.read_eq hns, DeviceInfo.read_eq hns]
  simp only [hr.requiredText_eq h, hr.text?_eq h, hr.url?_eq h, hr.number?_eq h]

theorem readIcon_eq [InternationalNames] (h : r x y) (base : Url) :
    Icon.read base ⟨.element x, ns⟩ = Icon.read base ⟨.element y, ns⟩ := by
  rw [Icon.read_eq hns, Icon.read_eq hns]
  simp only [hr.requiredText_eq h, hr.requiredNumber_eq h, hr.text?_eq h]

theorem readService_eq [InternationalNames] (h : r x y) (base : Url) :
    Service.read base ⟨.element x, ns⟩ = Service.read base ⟨.element y, ns⟩ := by
  rw [Service.read_eq hns, Service.read_eq hns]
  simp only [hr.requiredText_eq h, hr.requiredUrl_eq h, hr.url?_eq h]

theorem readVersion_eq (h : r x y) : SpecVersion.read ⟨.element x, ns⟩ = SpecVersion.read ⟨.element y, ns⟩ := by
  rw [SpecVersion.read, SpecVersion.read]
  simp only [SpecVersion.part?_eq hns _ (show IsPlainName "major" by decide),
    SpecVersion.part?_eq hns _ (show IsPlainName "minor" by decide), hr.versionNumber?_eq h]

/-- By recursion over the first element: the devices in a list are smaller elements. -/
theorem readDevice_eq [InternationalNames] {x y : XmlElement} (h : r x y) (bases : Bases) :
    Device.read bases ⟨.element x, ns⟩ = Device.read bases ⟨.element y, ns⟩ := by
  have hicons := readItems_congr hns (show IsPlainName "iconList" by decide) (show IsPlainName "icon" by decide)
    (hr.forall₂_items h _ _) fun a _ b hab => hr.readIcon_eq hns hab bases.device
  have hservices := readItems_congr hns (show IsPlainName "serviceList" by decide)
    (show IsPlainName "service" by decide) (hr.forall₂_items h _ _)
    fun a _ b hab => hr.readService_eq hns hab bases.services
  have hdevices := readItems_congr hns (show IsPlainName "deviceList" by decide)
    (show IsPlainName "device" by decide) (hr.forall₂_items h _ _) fun a _ha b hab => readDevice_eq hab bases
  rw [Device.read, Device.read, hr.readInfo_eq hns h, hicons, hservices, hdevices]
termination_by sizeOf x
decreasing_by exact sizeOf_lt_of_mem_items uri _ha

omit hns in
theorem readDescription_eq [InternationalNames] {c d : DocumentContext}
    (hns : c.namespaces.uri? Namespaces.deviceQualifier = some uri) (hd : d.namespaces = c.namespaces)
    (h : List.Forall₂ r (SchemaTree.named uri "root" c.children) (SchemaTree.named uri "root" d.children))
    (location : Url) : Description.read location c = Description.read location d := by
  have hroot := getElem?_of_forall₂ h 0
  rw [← List.head?_eq_getElem?, ← List.head?_eq_getElem?] at hroot
  rw [Description.read_eq hns, Description.read_eq (hd ▸ hns)]
  obtain ⟨hx, hy⟩ | ⟨x, y, hx, hy, hxy⟩ := hroot
  · rw [hx, hy]
  · rw [hx, hy]
    simp only [hd, hr.readVersion_eq hns hxy, hr.declaredBase?_eq hxy]
    obtain ⟨ha, hb⟩ | ⟨a, b, ha, hb, hab⟩ := hr.child?_cases hxy "device"
    · rw [ha, hb]
    · simp only [ha, hb, hr.readDevice_eq hns hab]

end SchemaAgreement
end DeviceDescription
