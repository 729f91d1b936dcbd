import DeviceDescription.Proofs.FieldTables
import DeviceDescription.RootDevice

/-!
# Reading by paths finds the tree in the element

The reader counts the items of a list, writes a path for each position and follows it. What it returns is the
tree that recursion over the elements finds: every item of every list, once and in document order.
-/
namespace DeviceDescription

open SchemaTree Traversal

section AtElement
variable {ns : Namespaces} {uri : Text} {base : Url} {bases : Bases} {e : XmlElement}

theorem text?_of_required {name t : Text} (h : requiredText uri name e = .ok t) : text? uri name e = some t := by
  unfold requiredText at h
  split at h <;> simp_all

theorem number?_of_required {bound n : Nat} {name : Text} (h : requiredNumber uri bound name e = .ok n) :
    number? uri bound name e = some n := by
  unfold requiredNumber at h
  split at h <;> simp_all

variable [InternationalNames]

private theorem url?_of_required {name : Text} {u : Url} (h : requiredUrl uri base name e = .ok u) :
    url? uri base name e = some u := by
  unfold requiredUrl at h
  split at h
  · cases h
  · rename_i t ht
    split at h
    · rename_i v hv
      cases h
      simp [url?, ht, hv, Except.toOption]
    · cases h
    · cases h

private theorem url?_of_resolve {name : Text} {o : Option Url}
    (h : UrlReference.resolve (some base) (text? uri name e) = .ok o) : url? uri base name e = o := by
  cases ht : text? uri name e with
  | none =>
    rw [ht] at h
    cases h
    simp [url?, ht]
  | some t =>
    rw [ht] at h
    simp [url?, ht, h, Except.toOption]

variable (hns : ns.uri? Namespaces.deviceQualifier = some uri)
include hns

theorem icon?_of_read {i : Icon} (h : Icon.read base ⟨.element e, ns⟩ = .ok i) : icon? uri base e = some i := by
  rw [Icon.read_eq hns] at h
  obtain ⟨mimeType, hm, h⟩ := bind_eq_ok h
  obtain ⟨width, hw, h⟩ := bind_eq_ok h
  obtain ⟨height, hh, h⟩ := bind_eq_ok h
  obtain ⟨depth, hd, h⟩ := bind_eq_ok h
  obtain ⟨url, hu, h⟩ := bind_eq_ok h
  cases h
  rw [icon?, text?_of_required hm, number?_of_required hw, number?_of_required hh, number?_of_required hd,
    url?_of_resolve hu]
  rfl

theorem service?_of_read {s : Service} (h : Service.read base ⟨.element e, ns⟩ = .ok s) :
    service? uri base e = some s := by
  rw [Service.read_eq hns] at h
  obtain ⟨serviceType, ht, h⟩ := bind_eq_ok h
  obtain ⟨serviceId, hi, h⟩ := bind_eq_ok h
  obtain ⟨scpdUrl, hs, h⟩ := bind_eq_ok h
  obtain ⟨controlUrl, hc, h⟩ := bind_eq_ok h
  cases h
  rw [service?, text?_of_required ht, text?_of_required hi, url?_of_required hs, url?_of_required hc]
  rfl

theorem info?_of_read {i : DeviceInfo} (h : DeviceInfo.read base ⟨.element e, ns⟩ = .ok i) :
    info? uri base e = some i := by
  rw [DeviceInfo.read_eq hns] at h
  obtain ⟨deviceType, ht, h⟩ := bind_eq_ok h
  obtain ⟨friendlyName, hf, h⟩ := bind_eq_ok h
  obtain ⟨modelName, hm, h⟩ := bind_eq_ok h
  obtain ⟨udn, hu, h⟩ := bind_eq_ok h
  cases h
  rw [info?, text?_of_required ht, text?_of_required hf, text?_of_required hm, text?_of_required hu]
  rfl

theorem readings_of_read {d : Device} (h : Device.read bases ⟨.element e, ns⟩ = .ok d) :
    DeviceInfo.read bases.device ⟨.element e, ns⟩ = .ok d.info ∧
    ((items uri "iconList" "icon" e).mapM fun x => Icon.read bases.device ⟨.element x, ns⟩) = .ok d.icons ∧
    ((items uri "serviceList" "service" e).mapM fun x => Service.read bases.services ⟨.element x, ns⟩) =
      .ok d.services ∧
    ((items uri "deviceList" "device" e).mapM fun x => Device.read bases ⟨.element x, ns⟩) = .ok d.children := by
  rw [Device.read] at h
  obtain ⟨info, hi, h⟩ := bind_eq_ok h
  obtain ⟨icons, hic, h⟩ := bind_eq_ok h
  obtain ⟨services, hse, h⟩ := bind_eq_ok h
  obtain ⟨children, hch, h⟩ := bind_eq_ok h
  cases h
  exact ⟨hi, mapM_items_of_readItems hns (by decide) (by decide) hic,
    mapM_items_of_readItems hns (by decide) (by decide) hse,
    mapM_items_of_readItems hns (by decide) (by decide) hch⟩

/-- By recursion over the element: the devices in a list are smaller elements. -/
theorem device?_of_read {e : XmlElement} {d : Device} (h : Device.read bases ⟨.element e, ns⟩ = .ok d) :
    device? uri bases e = some d := by
  obtain ⟨hi, hic, hse, hch⟩ := readings_of_read hns h
  have icons := mapM_eq_some (fun x _ i hx => icon?_of_read hns hx) hic
  have services := mapM_eq_some (fun x _ s hx => service?_of_read hns hx) hse
  have children := mapM_eq_some (fun x hx d hd => device?_of_read hd) hch
  rw [device?_eq, info?_of_read hns hi, icons, services, children]
  cases d
  rfl
termination_by sizeOf e
decreasing_by exact sizeOf_lt_of_mem_items uri hx

end AtElement

namespace Description

variable {document : DocumentContext} {uri : Text} {location : Url} {r : Description}

variable [InternationalNames]

theorem declaredBase?_eq {ns : Namespaces} (hns : ns.uri? Namespaces.deviceQualifier = some uri) (root : XmlElement) :
    declaredBase? ⟨.element root, ns⟩ = SchemaTree.declaredBase? uri root := by
  rw [declaredBase?, optionalText_first hns (by decide), SchemaTree.declaredBase?]
  cases text? uri "URLBase" root with
  | none => rfl
  | some t =>
    simp only [Option.bind_some]
    cases Url.read t <;> rfl

theorem bases?_of_basesFor {root : XmlElement} {bases : Bases}
    (h : basesFor (SchemaTree.declaredBase? uri root) location = .ok bases) :
    bases? uri location root = some bases := by
  rw [bases?]
  cases hb : SchemaTree.declaredBase? uri root with
  | some base =>
    rw [hb] at h
    cases h
    rfl
  | none =>
    rw [hb] at h
    obtain ⟨directory, hd, h⟩ := bind_eq_ok h
    cases h
    rw [hd]
    rfl

/-- Where the names of the schema have no namespace, no document has a root. -/
theorem read_unbound {c : DocumentContext} (hns : c.namespaces.uri? Namespaces.deviceQualifier = none)
    (location : Url) : read location c = .error (.unsupportedDevice .noRoot) := by
  rw [read, DocumentContext.pointer_first_unbound hns (by decide)]
  rfl

theorem read_eq {c : DocumentContext} (hns : c.namespaces.uri? Namespaces.deviceQualifier = some uri)
    (location : Url) :
    read location c = (match (named uri "root" c.children).head? with
      | none => .error (.unsupportedDevice .noRoot)
      | some root => do
        let version ← SpecVersion.read ⟨.element root, c.namespaces⟩
        let bases ← basesFor (SchemaTree.declaredBase? uri root) location
        match child? uri "device" root with
        | none => .error (.schemaViolation "device")
        | some top => do
          let device ← Device.read bases ⟨.element top, c.namespaces⟩
          .ok ⟨version, SchemaTree.declaredBase? uri root, bases.device, device⟩) := by
  rw [read, DocumentContext.pointer_first hns (by decide)]
  cases (named uri "root" c.children).head? with
  | none => rfl
  | some root =>
    simp only [Except.mapError, ok_bind, DocumentContext.moveTo, declaredBase?_eq hns,
      pointer_first_element hns (show PathStep.IsPlainName "device" by decide)]
    cases child? uri "device" root <;> rfl

/-- The root element and the top device are the first of their names, and the bases come from the root
element and the location. -/
theorem readings_of_read (hns : document.namespaces.uri? Namespaces.deviceQualifier = some uri)
    (h : read location document = .ok r) :
    ∃ root top bases, (named uri "root" document.children).head? = some root ∧
      child? uri "device" root = some top ∧
      r.declaredBase = SchemaTree.declaredBase? uri root ∧
      basesFor (SchemaTree.declaredBase? uri root) location = .ok bases ∧ r.base = bases.device ∧
      Device.read bases ⟨.element top, document.namespaces⟩ = .ok r.device := by
  rw [read_eq hns] at h
  cases hroot : (named uri "root" document.children).head? with
  | none =>
    rw [hroot] at h
    cases h
  | some root =>
    simp only [hroot] at h
    obtain ⟨version, -, h⟩ := bind_eq_ok h
    obtain ⟨bases, hb, h⟩ := bind_eq_ok h
    cases htop : child? uri "device" root with
    | none =>
      rw [htop] at h
      cases h
    | some top =>
      simp only [htop] at h
      obtain ⟨device, hdevice, h⟩ := bind_eq_ok h
      cases h
      exact ⟨root, top, bases, rfl, htop, rfl, hb, rfl, hdevice⟩

end Description

namespace RootDevice

variable {a : Announcement} {now : Instant} {document : DocumentContext} {r : RootDevice}

variable [InternationalNames]

theorem readings_of_ofContext (h : ofContext a now document = .ok r) :
    a.readLocation = .ok r.location ∧ Description.read r.location document = .ok r.description := by
  unfold ofContext at h
  obtain ⟨location, hl, h⟩ := bind_eq_ok h
  obtain ⟨duration, -, h⟩ := bind_eq_ok h
  obtain ⟨description, hd, h⟩ := bind_eq_ok h
  cases h
  exact ⟨hl, hd⟩

/-- What is built is the tree in the first device of the root element, whatever else the document holds. -/
theorem device_eq_top {uri : Text} (hns : document.namespaces.uri? Namespaces.deviceQualifier = some uri)
    (h : ofContext a now document = .ok r) : top? uri r.location document.children = some r.device := by
  obtain ⟨-, hd⟩ := readings_of_ofContext h
  obtain ⟨root, top, bases, hroot, htop, -, hbases, -, hdevice⟩ := Description.readings_of_read hns hd
  rw [top?, hroot]
  exact (congrArg₂ (fun b t => b.bind fun bases => t.bind (device? uri bases))
    (Description.bases?_of_basesFor hbases) htop).trans (device?_of_read hns hdevice)

end RootDevice

namespace Sample

def uri : Text := "urn:devices"

def element (name : String) (content : List (XmlItem XmlElement)) : XmlItem XmlElement :=
  .child ⟨name, some uri, content⟩

def leaf (name text : String) : XmlItem XmlElement := element name [.text text]

def foreign (name : String) : XmlItem XmlElement := .child ⟨name, some "urn:other", [.text "no"]⟩

def icon (width : String) : XmlItem XmlElement :=
  element "icon" [leaf "mimetype" "image/png", leaf "width" width, leaf "height" "8", leaf "depth" "8",
    leaf "url" "i.png"]

def service (id : String) : XmlItem XmlElement :=
  element "service" [leaf "serviceType" "switch", leaf "serviceId" id, leaf "SCPDURL" "/scpd",
    leaf "controlURL" "//other/control", leaf "eventSubURL" ""]

def device (name : String) (lists : List (XmlItem XmlElement)) : XmlItem XmlElement :=
  element "device" ([foreign "friendlyName", leaf "deviceType" "lamp", leaf "friendlyName" name,
    leaf "friendlyName" "second", leaf "modelName" "m", leaf "UDN" "uuid:1"] ++ lists)

/-- Foreign elements stand between the items, a second list of icons follows the first one, and the embedded
devices look like the device that holds them. -/
def root : XmlElement :=
  ⟨"root", some uri, [
    element "specVersion" [leaf "major" " 1 "],
    foreign "device",
    device "top" [
      element "iconList" [icon "1", foreign "icon", .comment "two", icon "2"],
      element "iconList" [icon "3"],
      element "serviceList" [service "s"],
      element "deviceList" [
        foreign "device",
        device "left" [element "deviceList" [device "below" [element "serviceList" [service "t"]]]],
        .text " ",
        device "right" [element "iconList" [], element "serviceList" [icon "4"]]]]]⟩

def document : DocumentContext := .ofRoot root (Namespaces.ofDeviceUri uri)

def announcement : Announcement := { location := "http://host/dir/desc.xml" }

end Sample

open InternationalNames in
theorem RootDevice.device_eq_top_sample :
    Sample.document.namespaces.uri? Namespaces.deviceQualifier = some Sample.uri ∧
    ∃ r, ofContext Sample.announcement 0 Sample.document = .ok r ∧
      r.device.icons.map Icon.width = [1, 2] ∧
      r.device.devices.map (·.info.friendlyName) = (["top", "left", "below", "right"] : List Text) ∧
      top? Sample.uri r.location Sample.document.children = some r.device := by
  have hns : Sample.document.namespaces.uri? Namespaces.deviceQualifier = some Sample.uri := rfl
  have hshape : (ofContext Sample.announcement 0 Sample.document).toOption.map (fun r =>
      (r.device.icons.map Icon.width, r.device.devices.map (·.info.friendlyName))) =
      some ([1, 2], (["top", "left", "below", "right"] : List Text)) := by decide +kernel
  obtain ⟨r, hr, hr'⟩ := exists_ok_of_toOption_map hshape
  obtain ⟨hicons, hdevices⟩ := Prod.mk.inj hr'
  exact ⟨hns, r, hr, hicons, hdevices, device_eq_top hns hr⟩

end DeviceDescription
