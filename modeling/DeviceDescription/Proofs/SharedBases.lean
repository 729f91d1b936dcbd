import DeviceDescription.PlacedDevice
import DeviceDescription.Proofs.TreeRefinement

/-!
# One pair of bases for a whole tree

All references of a tree are resolved against one pair of bases, however deep they stand: a declared base in both
roles, or else the directory of the document for devices and the document itself for services.
-/
namespace DeviceDescription

open SchemaTree Traversal

/-- The URL that a text names from a base, if there is a text and it can be resolved. -/
def UrlReference.resolved? [InternationalNames] (base : Url) (text : Option Text) : Option Url :=
    (resolve (some base) text).toOption.join

section Elements
variable (uri : Text)

variable [InternationalNames]

/-- An icon without a URL is one without a reference: a reference that is there was resolved. -/
structure Icon.UsesBase (base : Url) (e : XmlElement) (i : Icon) : Prop where
  url : UrlReference.resolve (some base) (text? uri "url" e) = .ok i.url

structure Service.UsesBase (base : Url) (e : XmlElement) (s : Service) : Prop where
  scpdUrl : UrlReference.resolve (some base) (text? uri "SCPDURL" e) = .ok (some s.scpdUrl)
  controlUrl : UrlReference.resolve (some base) (text? uri "controlURL" e) = .ok (some s.controlUrl)
  eventSubUrl : s.eventSubUrl = UrlReference.resolved? base (text? uri "eventSubURL" e)

/-- What a device owns itself, without the devices embedded in it. The model URL is no reference. -/
structure Device.UsesBases (bases : Bases) (e : XmlElement) (d : Device) : Prop where
  manufacturerUrl : d.info.manufacturerUrl = UrlReference.resolved? bases.device (text? uri "manufacturerURL" e)
  presentationUrl : d.info.presentationUrl = UrlReference.resolved? bases.device (text? uri "presentationURL" e)
  modelUrl : d.info.modelUrl = text? uri "modelURL" e
  icons : List.Forall₂ (Icon.UsesBase uri bases.device) (items uri "iconList" "icon" e) d.icons
  services : List.Forall₂ (Service.UsesBase uri bases.services) (items uri "serviceList" "service" e) d.services

/-- The element of the device that a list of child indexes leads to. -/
def SchemaTree.descendant? : XmlElement → List Nat → Option XmlElement
  | e, [] => some e
  | e, i :: r => (items uri "deviceList" "device" e)[i]?.bind fun x => descendant? x r

end Elements

section Readings
variable {ns : Namespaces} {uri : Text} {base : Url} {bases : Bases} {e : XmlElement}

variable [InternationalNames]

theorem SchemaTree.url?_eq_resolved? (name : Text) :
    url? uri base name e = UrlReference.resolved? base (text? uri name e) := by
  rw [url?]
  cases text? uri name e with
  | none => rfl
  | some t => rfl

theorem resolve_of_requiredUrl {name : Text} {u : Url} (h : requiredUrl uri base name e = .ok u) :
    UrlReference.resolve (some base) (text? uri name e) = .ok (some u) := by
  unfold requiredUrl at h
  split at h
  · cases h
  · rename_i t ht
    rw [ht]
    split at h
    · rename_i v hv
      cases h
      exact hv
    · cases h
    · cases h

variable (hns : ns.uri? Namespaces.deviceQualifier = some uri)
include hns

theorem Icon.usesBase_of_read {i : Icon} (h : Icon.read base ⟨.element e, ns⟩ = .ok i) : i.UsesBase uri base e := by
  rw [Icon.read_eq hns] at h
  obtain ⟨mimeType, -, h⟩ := bind_eq_ok h
  obtain ⟨width, -, h⟩ := bind_eq_ok h
  obtain ⟨height, -, h⟩ := bind_eq_ok h
  obtain ⟨depth, -, h⟩ := bind_eq_ok h
  obtain ⟨url, hu, h⟩ := bind_eq_ok h
  cases h
  exact ⟨hu⟩

theorem Service.usesBase_of_read {s : Service} (h : Service.read base ⟨.element e, ns⟩ = .ok s) :
    s.UsesBase uri base e := by
  rw [Service.read_eq hns] at h
  obtain ⟨serviceType, -, h⟩ := bind_eq_ok h
  obtain ⟨serviceId, -, h⟩ := bind_eq_ok h
  obtain ⟨scpdUrl, hs, h⟩ := bind_eq_ok h
  obtain ⟨controlUrl, hc, h⟩ := bind_eq_ok h
  cases h
  exact ⟨resolve_of_requiredUrl hs, resolve_of_requiredUrl hc, url?_eq_resolved? "eventSubURL"⟩

theorem Device.usesBases_of_read {d : Device} (h : Device.read bases ⟨.element e, ns⟩ = .ok d) :
    d.UsesBases uri bases e := by
  obtain ⟨hinfo, hicons, hservices, -⟩ := readings_of_read hns h
  rw [DeviceInfo.read_eq hns] at hinfo
  obtain ⟨deviceType, -, hinfo⟩ := bind_eq_ok hinfo
  obtain ⟨friendlyName, -, hinfo⟩ := bind_eq_ok hinfo
  obtain ⟨modelName, -, hinfo⟩ := bind_eq_ok hinfo
  obtain ⟨udn, -, hinfo⟩ := bind_eq_ok hinfo
  have hi := Except.ok.inj hinfo
  refine ⟨?_, ?_, ?_, ?_, ?_⟩
  · rw [← hi]
    exact url?_eq_resolved? "manufacturerURL"
  · rw [← hi]
    exact url?_eq_resolved? "presentationURL"
  · rw [← hi]
  · exact (forall₂_of_mapM hicons).imp fun x i hx => Icon.usesBase_of_read hns hx
  · exact (forall₂_of_mapM hservices).imp fun x s hx => Service.usesBase_of_read hns hx

/-- By induction on the path: the reading of a device reads the devices in it with the same bases. -/
theorem PlacedDevice.read_of_descendant? {p q : PlacedDevice} {path : List Nat}
    (h : Device.read bases ⟨.element e, ns⟩ = .ok p.device) (hq : p.descendant? path = some q) :
    ∃ x, SchemaTree.descendant? uri e path = some x ∧ Device.read bases ⟨.element x, ns⟩ = .ok q.device := by
  induction path generalizing p e with
  | nil =>
    obtain rfl := Option.some.inj hq
    exact ⟨e, rfl, h⟩
  | cons i r ih =>
    obtain ⟨-, -, -, hchildren⟩ := readings_of_read hns h
    rw [PlacedDevice.descendant?, children, List.getElem?_map] at hq
    obtain ⟨child, hchild, hq⟩ := Option.bind_eq_some_iff.mp hq
    obtain ⟨d, hd, rfl⟩ := Option.map_eq_some_iff.mp hchild
    obtain ⟨x, hx, hread⟩ := exists_getElem?_of_forall₂ (forall₂_of_mapM hchildren) hd
    obtain ⟨y, hy, hyread⟩ := ih hread hq
    refine ⟨y, ?_, hyread⟩
    rw [SchemaTree.descendant?, hx, Option.bind_some, hy]

end Readings

namespace Description

variable {document : DocumentContext} {location : Url} {r : Description}

variable [InternationalNames]

/-- Where the names of the schema have no namespace, nothing is read. -/
theorem exists_uri_of_read (h : read location document = .ok r) :
    ∃ uri, document.namespaces.uri? Namespaces.deviceQualifier = some uri := by
  cases hns : document.namespaces.uri? Namespaces.deviceQualifier with
  | some uri => exact ⟨uri, rfl⟩
  | none =>
    rw [read_unbound hns] at h
    cases h

theorem read_of_declaredBase {base : Url} (h : read location document = .ok r) (hb : r.declaredBase = some base)
    (location' : Url) : read location' document = .ok r := by
  unfold read at h ⊢
  obtain ⟨root, hroot, h⟩ := bind_eq_ok h
  obtain ⟨version, hversion, h⟩ := bind_eq_ok h
  obtain ⟨bases, hbases, h⟩ := bind_eq_ok h
  obtain ⟨top, htop, h⟩ := bind_eq_ok h
  obtain ⟨device, hdevice, h⟩ := bind_eq_ok h
  cases h
  have hbases' : basesFor (declaredBase? root) location' = .ok bases := by
    change declaredBase? root = some base at hb
    rw [hb] at hbases ⊢
    exact hbases
  rw [hroot, ok_bind, hversion, ok_bind]
  dsimp only
  rw [hbases', ok_bind, htop, ok_bind, hdevice, ok_bind]

end Description

namespace RootDevice

variable {a : Announcement} {now : Instant} {document : DocumentContext} {r : RootDevice}

variable [InternationalNames]

private theorem exists_ofContext_of_read {location : Url} {duration : Duration} {description : Description}
    (hl : a.readLocation = .ok location) (hm : a.readMaxAge = .ok duration)
    (hd : Description.read location document = .ok description) (now : Instant) :
    ∃ r, ofContext a now document = .ok r ∧ r.description = description := by
  rw [ofContext, hl, ok_bind, hm, ok_bind, hd, ok_bind]
  exact ⟨_, rfl, rfl⟩

/-- A declared base serves all references of the tree, which is then the same wherever the document stands. Without
one, the directory of the document is the base of devices and the document itself that of services. -/
theorem usesBases_at_every_depth (h : ofContext a now document = .ok r) :
    a.readLocation = .ok r.location ∧
    ∃ uri root top bases, document.namespaces.uri? Namespaces.deviceQualifier = some uri ∧
      (named uri "root" document.children).head? = some root ∧ child? uri "device" root = some top ∧
      r.description.base = bases.device ∧
      (∀ t base, text? uri "URLBase" root = some t → Url.read t = .ok base →
        r.description.declaredBase = some base ∧ bases = ⟨base, base⟩ ∧
        ∀ a' now' location' duration', a'.readLocation = .ok location' → a'.readMaxAge = .ok duration' →
          ∃ r', ofContext a' now' document = .ok r' ∧ r'.device = r.device) ∧
      ((∀ t base, text? uri "URLBase" root = some t → Url.read t ≠ .ok base) →
        r.description.declaredBase = none ∧ r.location.directory = .ok bases.device ∧ bases.services = r.location) ∧
      ∀ path p, (PlacedDevice.top r.device).descendant? path = some p →
        ∃ e, SchemaTree.descendant? uri top path = some e ∧ p.device.UsesBases uri bases e := by
  obtain ⟨hlocation, hread⟩ := readings_of_ofContext h
  obtain ⟨uri, hns⟩ := Description.exists_uri_of_read hread
  obtain ⟨root, top, bases, hroot, htop, hdeclared, hbases, hbase, hdevice⟩ := Description.readings_of_read hns hread
  refine ⟨hlocation, uri, root, top, bases, hns, hroot, htop, hbase, ?_, ?_, ?_⟩
  · intro t base ht hb
    have hd : SchemaTree.declaredBase? uri root = some base := by
      rw [SchemaTree.declaredBase?, ht, Option.bind_some, hb]
      rfl
    rw [hd] at hbases hdeclared
    refine ⟨hdeclared, (Except.ok.inj hbases).symm, fun a' now' location' duration' hl hm => ?_⟩
    have hread' := Description.read_of_declaredBase hread hdeclared location'
    obtain ⟨r', hr', hdescription⟩ := exists_ofContext_of_read hl hm hread' now'
    exact ⟨r', hr', congrArg Description.device hdescription⟩
  · intro hnone
    have hd : SchemaTree.declaredBase? uri root = none := by
      rw [SchemaTree.declaredBase?]
      cases ht : text? uri "URLBase" root with
      | none => rfl
      | some t =>
        cases hb : Url.read t with
        | error x =>
          rw [Option.bind_some, hb]
          rfl
        | ok base => exact absurd hb (hnone t base ht)
    rw [hd] at hbases hdeclared
    obtain ⟨directory, hdirectory, hbases⟩ := bind_eq_ok hbases
    cases hbases
    exact ⟨hdeclared, hdirectory, rfl⟩
  · intro path p hp
    obtain ⟨e, he, hread⟩ := PlacedDevice.read_of_descendant? hns (p := .top r.device) hdevice hp
    exact ⟨e, he, Device.usesBases_of_read hns hread⟩

end RootDevice

namespace Sample

def relativeService : XmlItem XmlElement :=
  element "service" [leaf "serviceType" "switch", leaf "serviceId" "s", leaf "SCPDURL" "scpd",
    leaf "controlURL" "/control", leaf "eventSubURL" " "]

def relativeLists : List (XmlItem XmlElement) :=
  [leaf "presentationURL" "p", element "iconList" [icon "1"], element "serviceList" [relativeService]]

/-- Every level holds the same relative references, and none of them is a base for the level below. -/
def nestedRoot : XmlElement :=
  ⟨"root", some uri, [
    element "specVersion" [leaf "major" "1"],
    leaf "URLBase" "http://[",
    device "top" (relativeLists ++ [element "deviceList" [
      device "middle" (relativeLists ++ [element "deviceList" [device "below" relativeLists]])]])]⟩

def nested : DocumentContext := .ofRoot nestedRoot (Namespaces.ofDeviceUri uri)

end Sample

open InternationalNames in
/-- The declared base is no URL, so there are two bases. -/
theorem RootDevice.usesBases_at_every_depth_nested :
    ∃ r, ofContext Sample.announcement 0 Sample.nested = .ok r ∧
      ∃ top bases p e, r.location.directory = .ok bases.device ∧ bases.services = r.location ∧
        (PlacedDevice.top r.device).descendant? [0, 0] = some p ∧
        SchemaTree.descendant? Sample.uri top [0, 0] = some e ∧ p.device.UsesBases Sample.uri bases e ∧
        p.device.icons.map (fun i => i.url.elim [] Url.text) = (["http://host/dir/i.png"] : List Text) ∧
        p.device.services.map (fun s => s.scpdUrl.text) = (["http://host/dir/desc.xml/scpd"] : List Text) := by
  have hfacts : (ofContext Sample.announcement 0 Sample.nested).toOption.map (fun r =>
      ((PlacedDevice.top r.device).descendant? [0, 0]).map fun p =>
        (p.device.icons.map fun i => i.url.elim [] Url.text, p.device.services.map fun s => s.scpdUrl.text)) =
      some (some ((["http://host/dir/i.png"] : List Text), (["http://host/dir/desc.xml/scpd"] : List Text))) := by
    decide +kernel
  obtain ⟨r, hr, hp⟩ := exists_ok_of_toOption_map hfacts
  obtain ⟨p, hp, hurls⟩ := Option.map_eq_some_iff.mp hp
  obtain ⟨hicons, hservices⟩ := Prod.mk.inj hurls
  obtain ⟨-, uri, root, top, bases, hns, hroot, -, -, -, hundeclared, hall⟩ := usesBases_at_every_depth hr
  have huri : Sample.nested.namespaces.uri? Namespaces.deviceQualifier = some Sample.uri := rfl
  obtain rfl : Sample.uri = uri := Option.some.inj (huri.symm.trans hns)
  have hnested : (named Sample.uri "root" Sample.nested.children).head? = some Sample.nestedRoot := rfl
  obtain rfl : Sample.nestedRoot = root := Option.some.inj (hnested.symm.trans hroot)
  have hbase : (text? Sample.uri "URLBase" Sample.nestedRoot).map (fun t => (Url.read t).toOption) = some none := by
    decide +kernel
  obtain ⟨-, hdirectory, hlocation⟩ := hundeclared fun t base ht hb => by
    rw [ht, Option.map_some, hb] at hbase
    cases Option.some.inj hbase
  obtain ⟨e, he, huses⟩ := hall _ p hp
  exact ⟨r, hr, top, bases, p, e, hdirectory, hlocation, hp, he, huses, hicons, hservices⟩

end DeviceDescription
