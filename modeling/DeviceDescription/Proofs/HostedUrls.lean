import DeviceDescription.Proofs.ReferenceResolution
import DeviceDescription.Proofs.TreeRefinement

/-!
# Which URLs of a tree name a server

Every URL of a tree is a reference of its document, resolved against one of two bases. It names a server if the
base does, unless it was composed from a file URL and a path that starts with a drive.
-/
namespace DeviceDescription

open SchemaTree Traversal

def Service.urls (s : Service) : List Url := s.scpdUrl :: s.controlUrl :: s.eventSubUrl.toList

namespace Device

def ownUrls (d : Device) : List Url :=
  d.info.manufacturerUrl.toList ++ d.info.presentationUrl.toList ++ d.icons.filterMap Icon.url ++
    d.services.flatMap Service.urls

def urls (d : Device) : List Url := d.preorder.flatMap ownUrls

private theorem preorders_eq_flatMap (ds : List Device) : preorders ds = ds.flatMap preorder := by
  induction ds with
  | nil => rfl
  | cons d ds ih => rw [preorders, List.flatMap_cons, ih]

theorem urls_eq (d : Device) : d.urls = d.ownUrls ++ d.children.flatMap urls := by
  rw [urls, preorder_eq, List.flatMap_cons, preorders_eq_flatMap, List.flatMap_assoc]
  rfl

end Device

/-- A text and the base that it is resolved against. -/
structure Reference where
  base : Url
  text : Text

namespace Reference

open UrlReference

variable [InternationalNames]

def url? (r : Reference) : Option Url := (resolve (some r.base) (some r.text)).toOption.join

/-- What is composed with a file URL loses its server if it leads to a drive. -/
def LosesServer (r : Reference) : Prop :=
  r.base.scheme = "file" ∧ absolute? (Text.trim r.text) = none ∧
    Url.opensDrive (extension r.base (withSlashes (Text.trim r.text))) = true

instance (r : Reference) : Decidable r.LosesServer := inferInstanceAs (Decidable (_ ∧ _ ∧ _))

theorem exists_url?_of_serves {r : Reference} {a : Authority} {h : Host} (hb : r.base.Serves a h)
    (ht : Text.trim r.text ≠ []) : ∃ u, r.url? = some u ∧ (u.hasHost = true ↔ ¬r.LosesServer) := by
  cases ha : absolute? (Text.trim r.text) with
  | some u =>
    have hres := resolve_of_absolute (some r.text) (some r.base) ha ht
    refine ⟨u, by rw [url?, hres]; rfl, ?_⟩
    simp [(read_of_absolute? ha).2, LosesServer, ha]
  | none =>
    have hres := resolve_of_relative (some r.text) (some r.base) ha ht
    rw [Option.getD_some] at hres
    by_cases hf : r.base.scheme = "file"
    · obtain ⟨u, hu, hhost⟩ := resolveRelative_of_file hb hf (Text.trim r.text)
      rw [hu] at hres
      refine ⟨u, by rw [url?, hres]; rfl, ?_⟩
      change u.host?.isSome = true ↔ _
      rw [hhost]
      simp [LosesServer, ha, hf]
    · obtain ⟨u, hu, -, hhost, -⟩ := resolveRelative_of_serves hb hf (Text.trim r.text)
      rw [hu] at hres
      refine ⟨u, by rw [url?, hres]; rfl, ?_⟩
      change u.host?.isSome = true ↔ _
      rw [hhost, Url.host?_of_serves hb]
      exact ⟨fun _ hl => hf hl.1, fun _ => rfl⟩

end Reference

namespace SchemaTree

variable (uri : Text)

def fieldReference? (base : Url) (name : Text) (e : XmlElement) : Option Reference :=
  (text? uri name e).map fun t => ⟨base, t⟩

def serviceReferences (base : Url) (e : XmlElement) : List Reference :=
  (["SCPDURL", "controlURL", "eventSubURL"] : List Text).filterMap fun name => fieldReference? uri base name e

def deviceReferences (bases : Bases) (e : XmlElement) : List Reference :=
  ((["manufacturerURL", "presentationURL"] : List Text).filterMap fun name =>
    fieldReference? uri bases.device name e) ++
  ((items uri "iconList" "icon" e).filterMap (fieldReference? uri bases.device "url") ++
    (items uri "serviceList" "service" e).flatMap (serviceReferences uri bases.services))

def treeReferences (bases : Bases) (e : XmlElement) : List Reference :=
  (devices uri e).flatMap (deviceReferences uri bases)

theorem treeReferences_eq (bases : Bases) (e : XmlElement) :
    treeReferences uri bases e =
      deviceReferences uri bases e ++ (items uri "deviceList" "device" e).flatMap (treeReferences uri bases) := by
  rw [treeReferences, devices_eq, List.flatMap_cons, List.flatMap_assoc]
  rfl

variable {uri} {base : Url} {bases : Bases} {e : XmlElement}

private theorem of_mem_fieldReference? {name : Text} {r : Reference} (h : fieldReference? uri base name e = some r) :
    r.base = base ∧ Text.trim r.text ≠ [] := by
  obtain ⟨t, ht, rfl⟩ := Option.map_eq_some_iff.mp h
  exact ⟨rfl, trim_ne_nil_of_text? uri ht⟩

/-- No reference is blank, and each has one of the two bases. -/
theorem of_mem_treeReferences {r : Reference} (h : r ∈ treeReferences uri bases e) :
    (r.base = bases.device ∨ r.base = bases.services) ∧ Text.trim r.text ≠ [] := by
  obtain ⟨x, -, hr⟩ := List.mem_flatMap.mp h
  rw [deviceReferences, List.mem_append, List.mem_append] at hr
  rcases hr with hr | hr | hr
  · obtain ⟨name, -, hf⟩ := List.mem_filterMap.mp hr
    obtain ⟨hb, ht⟩ := of_mem_fieldReference? hf
    exact ⟨.inl hb, ht⟩
  · obtain ⟨i, -, hf⟩ := List.mem_filterMap.mp hr
    obtain ⟨hb, ht⟩ := of_mem_fieldReference? hf
    exact ⟨.inl hb, ht⟩
  · obtain ⟨s, -, hs⟩ := List.mem_flatMap.mp hr
    obtain ⟨name, -, hf⟩ := List.mem_filterMap.mp hs
    obtain ⟨hb, ht⟩ := of_mem_fieldReference? hf
    exact ⟨.inr hb, ht⟩

variable [InternationalNames]

@[simp] theorem bind_fieldReference? (name : Text) :
    (fieldReference? uri base name e).bind Reference.url? = url? uri base name e := by
  rw [fieldReference?, url?, Option.bind_map]
  rfl

private theorem urls_of_service? {s : Service} (h : service? uri base e = some s) :
    s.urls = (serviceReferences uri base e).filterMap Reference.url? := by
  obtain ⟨serviceType, -, h⟩ := Option.bind_eq_some_iff.mp h
  obtain ⟨serviceId, -, h⟩ := Option.bind_eq_some_iff.mp h
  obtain ⟨scpdUrl, hs, h⟩ := Option.bind_eq_some_iff.mp h
  obtain ⟨controlUrl, hc, h⟩ := Option.bind_eq_some_iff.mp h
  cases h
  rw [serviceReferences, List.filterMap_filterMap]
  simp only [bind_fieldReference?, List.filterMap_cons, List.filterMap_nil, hs, hc, Service.urls]
  cases url? uri base "eventSubURL" e <;> rfl

private theorem url_of_icon? {i : Icon} (h : icon? uri base e = some i) :
    i.url = (fieldReference? uri base "url" e).bind Reference.url? := by
  obtain ⟨mimeType, -, h⟩ := Option.bind_eq_some_iff.mp h
  obtain ⟨width, -, h⟩ := Option.bind_eq_some_iff.mp h
  obtain ⟨height, -, h⟩ := Option.bind_eq_some_iff.mp h
  obtain ⟨depth, -, h⟩ := Option.bind_eq_some_iff.mp h
  cases h
  rw [bind_fieldReference?]

private theorem urls_of_info? {i : DeviceInfo} (h : info? uri base e = some i) :
    i.manufacturerUrl = url? uri base "manufacturerURL" e ∧ i.presentationUrl = url? uri base "presentationURL" e := by
  obtain ⟨deviceType, -, h⟩ := Option.bind_eq_some_iff.mp h
  obtain ⟨friendlyName, -, h⟩ := Option.bind_eq_some_iff.mp h
  obtain ⟨modelName, -, h⟩ := Option.bind_eq_some_iff.mp h
  obtain ⟨udn, -, h⟩ := Option.bind_eq_some_iff.mp h
  cases h
  exact ⟨rfl, rfl⟩

theorem ownUrls_of_parts {d : Device} (hi : info? uri bases.device e = some d.info)
    (hic : (items uri "iconList" "icon" e).mapM (icon? uri bases.device) = some d.icons)
    (hse : (items uri "serviceList" "service" e).mapM (service? uri bases.services) = some d.services) :
    d.ownUrls = (deviceReferences uri bases e).filterMap Reference.url? := by
  obtain ⟨hmanufacturer, hpresentation⟩ := urls_of_info? hi
  have hicons : d.icons.map Icon.url = (items uri "iconList" "icon" e).map fun x =>
      (fieldReference? uri bases.device "url" x).bind Reference.url? :=
    map_eq_map_of_mapM hic fun x _ i h => url_of_icon? h
  have hservices : d.services.map Service.urls = (items uri "serviceList" "service" e).map fun x =>
      (serviceReferences uri bases.services x).filterMap Reference.url? :=
    map_eq_map_of_mapM hse fun x _ s h => urls_of_service? h
  have hiconUrls : d.icons.filterMap Icon.url =
      ((items uri "iconList" "icon" e).filterMap
        (fieldReference? uri bases.device "url")).filterMap Reference.url? := by
    have h := congrArg (List.filterMap id) hicons
    rw [List.filterMap_map, List.filterMap_map] at h
    rw [List.filterMap_filterMap]
    exact h
  have hserviceUrls : d.services.flatMap Service.urls =
      ((items uri "serviceList" "service" e).flatMap
        (serviceReferences uri bases.services)).filterMap Reference.url? := by
    rw [List.flatMap_def, hservices, List.filterMap_flatMap, List.flatMap_def]
  have hinfoUrls : d.info.manufacturerUrl.toList ++ d.info.presentationUrl.toList =
      (((["manufacturerURL", "presentationURL"] : List Text).filterMap fun name =>
        fieldReference? uri bases.device name e)).filterMap Reference.url? := by
    rw [List.filterMap_filterMap]
    simp only [bind_fieldReference?, List.filterMap_cons, List.filterMap_nil, hmanufacturer, hpresentation]
    cases url? uri bases.device "manufacturerURL" e <;> cases url? uri bases.device "presentationURL" e <;> rfl
  rw [Device.ownUrls, deviceReferences, List.filterMap_append, List.filterMap_append, ← hinfoUrls, ← hiconUrls,
    ← hserviceUrls, List.append_assoc]

/-- The URLs of a tree are the references that its element holds, resolved. -/
theorem urls_of_device? {e : XmlElement} {d : Device} (h : device? uri bases e = some d) :
    d.urls = (treeReferences uri bases e).filterMap Reference.url? := by
  rw [device?_eq] at h
  obtain ⟨info, hi, h⟩ := Option.bind_eq_some_iff.mp h
  obtain ⟨icons, hic, h⟩ := Option.bind_eq_some_iff.mp h
  obtain ⟨services, hse, h⟩ := Option.bind_eq_some_iff.mp h
  obtain ⟨children, hch, h⟩ := Option.bind_eq_some_iff.mp h
  cases h
  have hchildren : children.map Device.urls = (items uri "deviceList" "device" e).map fun x =>
      (treeReferences uri bases x).filterMap Reference.url? :=
    map_eq_map_of_mapM hch fun x hx d hd => urls_of_device? hd
  rw [Device.urls_eq, ownUrls_of_parts hi hic hse, treeReferences_eq, List.filterMap_append, List.filterMap_flatMap,
    List.flatMap_def, hchildren, List.flatMap_def]
termination_by sizeOf e
decreasing_by exact sizeOf_lt_of_mem_items uri hx

def documentReferences (uri : Text) (location : Url) (es : List XmlElement) : List Reference :=
  (do
    let root ← (named uri "root" es).head?
    some (treeReferences uri (← bases? uri location root) (← child? uri "device" root))).getD []

end SchemaTree

/-- Against bases on servers, the URLs of a tree have hosts unless a reference loses its server. -/
theorem Device.urls_hosted_of_bases [InternationalNames] {uri : Text} {bases : Bases} {e : XmlElement} {d : Device}
    (hd : device? uri bases e = some d) (hdevice : ∃ a h, bases.device.Serves a h)
    (hservices : ∃ a h, bases.services.Serves a h) :
    (∀ u ∈ d.urls, u.hasHost = true) ↔ ∀ r ∈ treeReferences uri bases e, ¬r.LosesServer := by
  have hurl : ∀ r ∈ treeReferences uri bases e, ∃ u, r.url? = some u ∧ (u.hasHost = true ↔ ¬r.LosesServer) := by
    intro r hr
    obtain ⟨hbase, ht⟩ := of_mem_treeReferences hr
    have hserves : ∃ a h, r.base.Serves a h := by
      rcases hbase with hb | hb
      · exact hb ▸ hdevice
      · exact hb ▸ hservices
    obtain ⟨a, h, hb⟩ := hserves
    exact Reference.exists_url?_of_serves hb ht
  rw [urls_of_device? hd]
  constructor
  · intro hall r hr
    obtain ⟨u, hu, hiff⟩ := hurl r hr
    exact hiff.mp (hall u (List.mem_filterMap.mpr ⟨r, hr, hu⟩))
  · intro hall u hu
    obtain ⟨r, hr, hru⟩ := List.mem_filterMap.mp hu
    obtain ⟨v, hv, hiff⟩ := hurl r hr
    obtain rfl := Option.some.inj (hv.symm.trans hru)
    exact hiff.mpr (hall r hr)

/-- The directory of a file URL loses its server if it starts with a drive. -/
def Url.DirectoryLosesServer (u : Url) : Prop := u.scheme = "file" ∧ opensDrive u.directoryPath = true

instance (u : Url) : Decidable u.DirectoryLosesServer := inferInstanceAs (Decidable (_ ∧ _))

private theorem Url.directory_hosted [InternationalNames] {u d : Url} {a : Authority} {h : Host} (hu : u.Serves a h)
    (hd : u.directory = .ok d) :
    (∃ t, Url.read t = .ok d) ∧ (d.hasHost = true ↔ ¬u.DirectoryLosesServer) := by
  obtain ⟨d', t, hd', hr, hhost⟩ := Url.exists_directory_of_serves hu
  obtain rfl := Except.ok.inj (hd.symm.trans hd')
  refine ⟨⟨t, hr⟩, ?_⟩
  change d.host?.isSome = true ↔ _
  rw [hhost, DirectoryLosesServer]
  split <;> simp_all

namespace RootDevice

variable {a : Announcement} {now : Instant} {document : DocumentContext} {r : RootDevice} {uri : Text}

/-- The base and all URLs of a root device have hosts exactly if a declared base has one, a directory that stands
in for a declared base starts with no drive, and no reference loses its server. -/
theorem urls_hosted_iff [InternationalNames] (hns : document.namespaces.uri? Namespaces.deviceQualifier = some uri)
    (h : ofContext a now document = .ok r) :
    (r.description.base.hasHost = true ∧ ∀ u ∈ r.device.urls, u.hasHost = true) ↔
      (∀ base ∈ r.description.declaredBase, base.hasHost = true) ∧
      (r.description.declaredBase = none → ¬r.location.DirectoryLosesServer) ∧
      ∀ reference ∈ documentReferences uri r.location document.children, ¬reference.LosesServer := by
  obtain ⟨hloc, hread⟩ := readings_of_ofContext h
  obtain ⟨-, authority, host, hserves⟩ := Announcement.serves_of_readLocation hloc
  obtain ⟨root, top, bases, hroot, htop, hdeclared, hbases, hbase, hdevice⟩ := Description.readings_of_read hns hread
  have hrefs : documentReferences uri r.location document.children = treeReferences uri bases top := by
    rw [documentReferences, hroot]
    change ((bases? uri r.location root).bind fun b => (child? uri "device" root).bind fun t =>
      some (treeReferences uri b t)).getD [] = _
    rw [Description.bases?_of_basesFor hbases, htop]
    rfl
  rw [hrefs, hdeclared, hbase]
  have hurls := Device.urls_hosted_of_bases (device?_of_read hns hdevice)
  -- A declared base serves all references; else there are two bases, and only the first one can lack a host.
  cases hd : SchemaTree.declaredBase? uri root with
  | some base =>
    rw [hd] at hbases
    cases hbases
    obtain ⟨t, -, ht⟩ := Option.bind_eq_some_iff.mp hd
    have hr := eq_ok_of_toOption ht
    constructor
    · rintro ⟨hhost, hall⟩
      have hs := Url.serves_of_read hr hhost
      exact ⟨by simpa using hhost, by simp, (hurls hs hs).mp hall⟩
    · rintro ⟨hhost, -, hall⟩
      have hs := Url.serves_of_read hr (hhost base rfl)
      exact ⟨hhost base rfl, (hurls hs hs).mpr hall⟩
  | none =>
    rw [hd] at hbases
    obtain ⟨directory, hdir, hbases⟩ := bind_eq_ok hbases
    cases hbases
    obtain ⟨⟨t, hr⟩, hiff⟩ := Url.directory_hosted hserves hdir
    constructor
    · rintro ⟨hhost, hall⟩
      exact ⟨by simp, fun _ => hiff.mp hhost, (hurls (Url.serves_of_read hr hhost) ⟨_, _, hserves⟩).mp hall⟩
    · rintro ⟨-, hdrive, hall⟩
      have hhost := hiff.mpr (hdrive rfl)
      exact ⟨hhost, (hurls (Url.serves_of_read hr hhost) ⟨_, _, hserves⟩).mpr hall⟩

end RootDevice

namespace Sample

def fileAnnouncement : Announcement := { location := "file://server/c/desc.xml" }

def hostlessRoot : XmlElement :=
  ⟨"root", some uri, [
    element "specVersion" [leaf "major" "1"],
    leaf "URLBase" "localhost:8080/",
    device "top" [
      leaf "presentationURL" "http://host/p",
      element "deviceList" [device "below" [leaf "manufacturerURL" "m"]]]]⟩

def hostless : DocumentContext := .ofRoot hostlessRoot (Namespaces.ofDeviceUri uri)

end Sample

open InternationalNames in
theorem RootDevice.urls_hosted_iff_file :
    Sample.document.namespaces.uri? Namespaces.deviceQualifier = some Sample.uri ∧
    ∃ r, ofContext Sample.fileAnnouncement 0 Sample.document = .ok r ∧
      r.description.base.hasHost = true ∧ r.device.urls.length = 6 ∧ ∀ u ∈ r.device.urls, u.hasHost = true := by
  have hns : Sample.document.namespaces.uri? Namespaces.deviceQualifier = some Sample.uri := rfl
  have hfacts : (ofContext Sample.fileAnnouncement 0 Sample.document).toOption.map (fun (r : RootDevice) =>
      (r.description.declaredBase, r.device.urls.length, decide r.location.DirectoryLosesServer,
        decide (∀ x ∈ documentReferences Sample.uri r.location Sample.document.children, ¬x.LosesServer))) =
      some (none, 6, false, true) := by decide +kernel
  obtain ⟨r, hr, hr'⟩ := exists_ok_of_toOption_map hfacts
  simp only [Prod.mk.injEq, decide_eq_false_iff_not, decide_eq_true_eq] at hr'
  obtain ⟨hdeclared, hlength, hdirectory, hreferences⟩ := hr'
  obtain ⟨hbase, hurls⟩ := (urls_hosted_iff hns hr).mpr ⟨by simp [hdeclared], fun _ => hdirectory, hreferences⟩
  exact ⟨hns, r, hr, hbase, hlength, hurls⟩

open InternationalNames in
/-- A declared base without a host is taken as it is, and hands its lack on. -/
theorem RootDevice.not_urls_hosted :
    ¬∀ (a : Announcement) (now : Instant) (document : DocumentContext) (r : RootDevice),
      ofContext a now document = .ok r →
        r.description.base.hasHost = true ∧ ∀ u ∈ r.device.urls, u.hasHost = true := by
  intro hall
  have hfacts : (ofContext Sample.announcement 0 Sample.hostless).toOption.map (fun r =>
      (r.description.base.hasHost, r.device.urls.map Url.hasHost)) = some (false, [true, false]) := by decide +kernel
  obtain ⟨r, hr, hr'⟩ := exists_ok_of_toOption_map hfacts
  obtain ⟨hbase, -⟩ := Prod.mk.inj hr'
  rw [(hall _ _ _ _ hr).1] at hbase
  cases hbase

end DeviceDescription
