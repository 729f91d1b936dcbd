import DeviceDescription.Proofs.SharedBases

/-!
# What is read leaves no field blank

Tables of fields start from a blank target. Where a reading succeeds, each required field holds a value of the
document in its place: a text without outer blanks, the number that an element writes, or the URL that one refers to.
-/
namespace DeviceDescription

open SchemaTree Traversal

structure Text.IsFilled (t : Text) : Prop extends Text.IsTrimmed t where
  ne_nil : t ≠ []

namespace SchemaTree

variable {uri name t : Text} {e : XmlElement}

theorem isFilled_of_text? (h : text? uri name e = some t) : t.IsFilled := by
  obtain ⟨hm, hn⟩ := Option.filter_eq_some_iff.mp h
  obtain ⟨x, -, rfl⟩ := Option.map_eq_some_iff.mp hm
  exact ⟨Text.isTrimmed_trim _, by simpa using hn⟩

theorem isFilled_of_required (h : requiredText uri name e = .ok t) : t.IsFilled :=
  isFilled_of_text? (text?_of_required h)

variable (uri)

/-- The first child of a name writes a number, and the number has 32 bits. -/
def WritesNumber (name : Text) (e : XmlElement) (n : Nat) : Prop :=
  n ≤ Numeral.maxWord32 ∧ ∃ x, child? uri name e = some x ∧ Numeral.Denotes (Text.trim x.directText) n

/-- The first child of a name refers to a URL. -/
def RefersTo [InternationalNames] (base : Url) (name : Text) (e : XmlElement) (u : Url) : Prop :=
  ∃ x, child? uri name e = some x ∧ UrlReference.resolve (some base) (some (Text.trim x.directText)) = .ok (some u)

variable {uri} {base : Url}

theorem exists_child?_of_text? (h : text? uri name e = some t) :
    ∃ x, child? uri name e = some x ∧ Text.trim x.directText = t :=
  Option.map_eq_some_iff.mp (Option.filter_eq_some_iff.mp h).1

theorem writesNumber_of_required {n : Nat} (h : requiredNumber uri Numeral.maxWord32 name e = .ok n) :
    WritesNumber uri name e n := by
  obtain ⟨t, ht, hn⟩ := Option.bind_eq_some_iff.mp (number?_of_required h)
  obtain ⟨x, hx, rfl⟩ := exists_child?_of_text? ht
  obtain ⟨hdenotes, hle⟩ := Numeral.denotes_of_read? hn
  exact ⟨hle, x, hx, hdenotes⟩

theorem refersTo_of_required [InternationalNames] {u : Url} (h : requiredUrl uri base name e = .ok u) :
    RefersTo uri base name e u := by
  have hr := resolve_of_requiredUrl h
  cases ht : text? uri name e with
  | none =>
    rw [ht] at hr
    cases hr
  | some t =>
    rw [ht] at hr
    obtain ⟨x, hx, rfl⟩ := exists_child?_of_text? ht
    exact ⟨x, hx, hr⟩

end SchemaTree

section Tables
variable {α : Type} {f : Field α} {c : DocumentContext} {base : Option Url}

variable [InternationalNames]

private theorem Field.extract_eq_value {v : FieldValue} (h : f.extract c base = .value v) : f.read c base = .ok v := by
  rw [extract] at h
  cases hr : f.read c base with
  | ok w =>
    rw [hr] at h
    exact congrArg Except.ok (Extraction.value.inj h)
  | error x =>
    rw [hr] at h
    cases hp : f.policy <;> rw [hp] at h <;> cases h

theorem Field.integer_of_extract {v : FieldValue} (hk : f.kind = .integer32) (h : f.extract c base = .value v) :
    ∃ n ≤ Numeral.maxWord32, v = .integer n := by
  have hr := extract_eq_value h
  rw [read] at hr
  split at hr
  · rename_i raw _
    simp only [hk, FieldKind.interpret] at hr
    split at hr
    · rename_i n hn
      cases hr
      exact ⟨n, (Numeral.denotes_of_read? hn).2, rfl⟩
    · cases hr
  · cases hr

private theorem Field.url_of_read {v : FieldValue} (hk : f.kind = .url) (h : f.read c base = .ok v) :
    ∃ u, v = .url u := by
  rw [read] at h
  split at h
  · simp only [hk, FieldKind.interpret] at h
    split at h
    · rename_i u _
      cases h
      exact ⟨u, rfl⟩
    · cases h
    · cases h
  · cases h

/-- A table goes on behind a field if that was assigned, or if it may be missing. -/
theorem populate_cons_eq_ok {table : List (Field α)} {target result : α}
    (h : (populate c base (f :: table) target).toExcept = .ok result) :
    (∃ v, f.read c base = .ok v ∧ (populate c base table (f.assign v target)).toExcept = .ok result) ∨
      (f.policy = .optional ∧ (populate c base table target).toExcept = .ok result) := by
  rw [populate, Field.extract] at h
  cases hr : f.read c base with
  | ok v =>
    rw [hr] at h
    exact .inl ⟨v, rfl, h⟩
  | error x =>
    rw [hr] at h
    cases hp : f.policy with
    | mandatory =>
      rw [hp] at h
      cases h
    | optional =>
      rw [hp] at h
      exact .inr ⟨rfl, h⟩

private theorem populate_mandatory_eq_ok {name : Text} {kind : FieldKind} {assign : FieldValue → α → α}
    {table : List (Field α)} {target result : α}
    (h : (populate c base (.mandatory name kind assign :: table) target).toExcept = .ok result) :
    ∃ v, (Field.mandatory name kind assign).read c base = .ok v ∧
      (populate c base table (assign v target)).toExcept = .ok result := by
  rcases populate_cons_eq_ok h with hassigned | ⟨hoptional, -⟩
  · exact hassigned
  · cases hoptional

end Tables

private theorem Service.exists_finish_of_populate [InternationalNames] {c : DocumentContext} {base : Option Url}
    {draft : Draft} (h : (populate c base fields Draft.blank).toExcept = .ok draft) : ∃ s, draft.finish = .ok s := by
  rw [fields] at h
  obtain ⟨serviceType, -, h⟩ := populate_mandatory_eq_ok h
  obtain ⟨serviceId, -, h⟩ := populate_mandatory_eq_ok h
  obtain ⟨scpd, hscpd, h⟩ := populate_mandatory_eq_ok h
  obtain ⟨control, hcontrol, h⟩ := populate_mandatory_eq_ok h
  obtain ⟨scpdUrl, rfl⟩ := Field.url_of_read rfl hscpd
  obtain ⟨controlUrl, rfl⟩ := Field.url_of_read rfl hcontrol
  rcases populate_cons_eq_ok h with ⟨event, -, h⟩ | ⟨-, h⟩
  all_goals
    cases h
    exact ⟨_, rfl⟩

structure DeviceInfo.Filled (i : DeviceInfo) : Prop where
  deviceType : i.deviceType.IsFilled
  friendlyName : i.friendlyName.IsFilled
  modelName : i.modelName.IsFilled
  udn : i.udn.IsFilled
  usn : i.usn = i.udn ++ "::" ++ i.deviceType
  manufacturer : ∀ t ∈ i.manufacturer, t.IsFilled
  modelDescription : ∀ t ∈ i.modelDescription, t.IsFilled
  modelNumber : ∀ t ∈ i.modelNumber, t.IsFilled
  modelUrl : ∀ t ∈ i.modelUrl, t.IsFilled
  serialNumber : ∀ t ∈ i.serialNumber, t.IsFilled

section Elements
variable (uri : Text)

structure Icon.Filled (e : XmlElement) (i : Icon) : Prop where
  mimeType : i.mimeType.IsFilled
  width : WritesNumber uri "width" e i.width
  height : WritesNumber uri "height" e i.height
  depth : WritesNumber uri "depth" e i.depth

variable [InternationalNames]

structure Service.Filled (base : Url) (e : XmlElement) (s : Service) : Prop where
  serviceType : s.serviceType.IsFilled
  serviceId : s.serviceId.IsFilled
  scpdUrl : RefersTo uri base "SCPDURL" e s.scpdUrl
  controlUrl : RefersTo uri base "controlURL" e s.controlUrl

structure Device.Filled (bases : Bases) (e : XmlElement) (d : Device) : Prop where
  info : d.info.Filled
  icons : List.Forall₂ (Icon.Filled uri) (items uri "iconList" "icon" e) d.icons
  services : List.Forall₂ (Service.Filled uri bases.services) (items uri "serviceList" "service" e) d.services

end Elements

section Readings
variable {ns : Namespaces} {uri : Text} {base : Url} {bases : Bases} {e : XmlElement}
variable [InternationalNames] (hns : ns.uri? Namespaces.deviceQualifier = some uri)
include hns

theorem DeviceInfo.filled_of_read {i : DeviceInfo} (h : DeviceInfo.read base ⟨.element e, ns⟩ = .ok i) : i.Filled := by
  rw [DeviceInfo.read_eq hns] at h
  obtain ⟨deviceType, htype, h⟩ := bind_eq_ok h
  obtain ⟨friendlyName, hfriendly, h⟩ := bind_eq_ok h
  obtain ⟨modelName, hmodel, h⟩ := bind_eq_ok h
  obtain ⟨udn, hudn, h⟩ := bind_eq_ok h
  cases h
  exact {
    deviceType := isFilled_of_required htype
    friendlyName := isFilled_of_required hfriendly
    modelName := isFilled_of_required hmodel
    udn := isFilled_of_required hudn
    usn := rfl
    manufacturer := fun _ => isFilled_of_text?
    modelDescription := fun _ => isFilled_of_text?
    modelNumber := fun _ => isFilled_of_text?
    modelUrl := fun _ => isFilled_of_text?
    serialNumber := fun _ => isFilled_of_text? }

theorem Icon.filled_of_read {i : Icon} (h : Icon.read base ⟨.element e, ns⟩ = .ok i) : i.Filled uri e := by
  rw [Icon.read_eq hns] at h
  obtain ⟨mimeType, hmime, h⟩ := bind_eq_ok h
  obtain ⟨width, hwidth, h⟩ := bind_eq_ok h
  obtain ⟨height, hheight, h⟩ := bind_eq_ok h
  obtain ⟨depth, hdepth, h⟩ := bind_eq_ok h
  obtain ⟨url, -, h⟩ := bind_eq_ok h
  cases h
  exact ⟨isFilled_of_required hmime, writesNumber_of_required hwidth, writesNumber_of_required hheight,
    writesNumber_of_required hdepth⟩

theorem Service.filled_of_read {s : Service} (h : Service.read base ⟨.element e, ns⟩ = .ok s) :
    s.Filled uri base e := by
  rw [Service.read_eq hns] at h
  obtain ⟨serviceType, htype, h⟩ := bind_eq_ok h
  obtain ⟨serviceId, hid, h⟩ := bind_eq_ok h
  obtain ⟨scpdUrl, hscpd, h⟩ := bind_eq_ok h
  obtain ⟨controlUrl, hcontrol, h⟩ := bind_eq_ok h
  cases h
  exact ⟨isFilled_of_required htype, isFilled_of_required hid, refersTo_of_required hscpd,
    refersTo_of_required hcontrol⟩

theorem Device.filled_of_read {d : Device} (h : Device.read bases ⟨.element e, ns⟩ = .ok d) :
    d.Filled uri bases e := by
  obtain ⟨hinfo, hicons, hservices, -⟩ := readings_of_read hns h
  exact ⟨DeviceInfo.filled_of_read hns hinfo,
    (forall₂_of_mapM hicons).imp fun x i hx => Icon.filled_of_read hns hx,
    (forall₂_of_mapM hservices).imp fun x s hx => Service.filled_of_read hns hx⟩

end Readings

namespace RootDevice

variable {a : Announcement} {now : Instant} {document : DocumentContext} {r : RootDevice}

/-- Where a root device is built, no field of its devices is left as the tables found it: not a text, a dimension
or a URL. The values that stand in for a missing dimension or a missing URL are never taken. -/
theorem filled_at_every_depth [InternationalNames] (h : ofContext a now document = .ok r) :
    (∃ uri root top bases, document.namespaces.uri? Namespaces.deviceQualifier = some uri ∧
      (named uri "root" document.children).head? = some root ∧ child? uri "device" root = some top ∧
      bases? uri r.location root = some bases ∧
      ∀ path p, (PlacedDevice.top r.device).descendant? path = some p →
        ∃ e, SchemaTree.descendant? uri top path = some e ∧ p.device.Filled uri bases e) ∧
    (∀ f ∈ Icon.fields, f.kind = .integer32 → ∀ c base v, f.extract c base = .value v →
      ∃ n ≤ Numeral.maxWord32, v.integer? = some n ∧ Icon.dimension v = n) ∧
    ∀ c base draft, (populate c base Service.fields Service.Draft.blank).toExcept = .ok draft →
      ∃ s, draft.finish = .ok s := by
  refine ⟨?_, ?_, fun c base draft hdraft => Service.exists_finish_of_populate hdraft⟩
  · obtain ⟨-, hread⟩ := readings_of_ofContext h
    obtain ⟨uri, hns⟩ := Description.exists_uri_of_read hread
    obtain ⟨root, top, bases, hroot, htop, -, hbases, -, hdevice⟩ := Description.readings_of_read hns hread
    refine ⟨uri, root, top, bases, hns, hroot, htop, Description.bases?_of_basesFor hbases, fun path p hp => ?_⟩
    obtain ⟨e, he, hp⟩ := PlacedDevice.read_of_descendant? hns (p := .top r.device) hdevice hp
    exact ⟨e, he, Device.filled_of_read hns hp⟩
  · intro f _ hk c base v hv
    obtain ⟨n, hn, rfl⟩ := Field.integer_of_extract hk hv
    exact ⟨n, hn, rfl, Icon.dimension_integer hn⟩

end RootDevice

namespace Sample

def paddedRoot : XmlElement :=
  ⟨"root", some uri, [
    element "specVersion" [leaf "major" "1"],
    device "top" [
      leaf "manufacturer" " ",
      element "deviceList" [
        device " below " [
          leaf "serialNumber" "\t7",
          element "iconList" [icon " +0016\n", icon "0"],
          element "serviceList" [service " s "]]]]]⟩

def padded : DocumentContext := .ofRoot paddedRoot (Namespaces.ofDeviceUri uri)

end Sample

open InternationalNames in
/-- A dimension of zero is one that is written. -/
theorem RootDevice.filled_at_every_depth_padded :
    ∃ r, ofContext Sample.announcement 0 Sample.padded = .ok r ∧
      ∃ top bases p e, (PlacedDevice.top r.device).descendant? [0] = some p ∧
        SchemaTree.descendant? Sample.uri top [0] = some e ∧ p.device.Filled Sample.uri bases e ∧
        [r.device.info.manufacturer, some p.device.info.friendlyName, p.device.info.serialNumber] =
          ([none, some "below".toList, some "7".toList] : List (Option Text)) ∧
        p.device.icons.map Icon.width = [16, 0] := by
  have hfacts : (ofContext Sample.announcement 0 Sample.padded).toOption.map (fun r =>
      ((PlacedDevice.top r.device).descendant? [0]).map fun p =>
        ([r.device.info.manufacturer, some p.device.info.friendlyName, p.device.info.serialNumber],
          p.device.icons.map Icon.width)) =
      some (some (([none, some "below".toList, some "7".toList] : List (Option Text)), [16, 0])) := by
    decide +kernel
  obtain ⟨r, hr, hp⟩ := exists_ok_of_toOption_map hfacts
  obtain ⟨p, hp, hvalues⟩ := Option.map_eq_some_iff.mp hp
  obtain ⟨htexts, hwidths⟩ := Prod.mk.inj hvalues
  obtain ⟨⟨uri, root, top, bases, hns, -, -, -, hall⟩, -, -⟩ := filled_at_every_depth hr
  have huri : Sample.padded.namespaces.uri? Namespaces.deviceQualifier = some Sample.uri := rfl
  obtain rfl : Sample.uri = uri := Option.some.inj (huri.symm.trans hns)
  obtain ⟨e, he, hfilled⟩ := hall _ p hp
  exact ⟨r, hr, top, bases, p, e, hp, he, hfilled, htexts, hwidths⟩

end DeviceDescription
