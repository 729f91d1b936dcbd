import DeviceDescription.Proofs.FieldTables
import DeviceDescription.Proofs.FirstFault
import DeviceDescription.Proofs.ReferenceResolution
import DeviceDescription.Proofs.TreeRefinement

/-!
# The checks of a description, in their order

A description is built exactly if all of the checks listed here pass, and else it is refused for the first one that
does not: the announcement before the document, the head of the document before its devices, each device before
those embedded in it, and in a device its own fields, then its icons, then its services.
-/
namespace DeviceDescription

open Traversal

namespace SchemaTree

open Check

variable (uri : Text)

def textCheck (name : Text) (e : XmlElement) : Check := present (.schemaViolation name) (text? uri name e)

def numberCheck (name : Text) (e : XmlElement) : Check :=
  present (.schemaViolation name) (number? uri Numeral.maxWord32 name e)

variable [InternationalNames]

def urlCheck (base : Url) (name : Text) (e : XmlElement) : Check :=
  (UrlReference.resolve (some base) (text? uri name e)).map fun _ => ()

def iconChecks (base : Url) (e : XmlElement) : List Check := [
  textCheck uri "mimetype" e,
  numberCheck uri "width" e,
  numberCheck uri "height" e,
  numberCheck uri "depth" e,
  urlCheck uri base "url" e]

def serviceChecks (base : Url) (e : XmlElement) : List Check := [
  textCheck uri "serviceType" e,
  textCheck uri "serviceId" e,
  textCheck uri "SCPDURL" e,
  urlCheck uri base "SCPDURL" e,
  textCheck uri "controlURL" e,
  urlCheck uri base "controlURL" e]

def infoChecks (e : XmlElement) : List Check := [
  textCheck uri "deviceType" e,
  textCheck uri "friendlyName" e,
  textCheck uri "modelName" e,
  textCheck uri "UDN" e]

/-- The checks of a device without those of the devices embedded in it. -/
def deviceChecks (bases : Bases) (e : XmlElement) : List Check :=
  infoChecks uri e ++ ((items uri "iconList" "icon" e).flatMap (iconChecks uri bases.device) ++
    (items uri "serviceList" "service" e).flatMap (serviceChecks uri bases.services))

def treeChecks (bases : Bases) (e : XmlElement) : List Check := (devices uri e).flatMap (deviceChecks uri bases)

theorem treeChecks_eq (bases : Bases) (e : XmlElement) :
    treeChecks uri bases e =
      deviceChecks uri bases e ++ (items uri "deviceList" "device" e).flatMap (treeChecks uri bases) := by
  rw [treeChecks, devices_eq, List.flatMap_cons, List.flatMap_assoc]
  rfl

end SchemaTree

open SchemaTree

section Reports
variable {uri name : Text} {e : XmlElement} {base : Url}

theorem map_requiredText : ((requiredText uri name e).map fun _ => ()) = textCheck uri name e := by
  rw [requiredText, textCheck]
  cases text? uri name e <;> rfl

private theorem map_requiredNumber :
    ((requiredNumber uri Numeral.maxWord32 name e).map fun _ => ()) = numberCheck uri name e := by
  rw [requiredNumber, numberCheck]
  cases number? uri Numeral.maxWord32 name e <;> rfl

variable [InternationalNames]

theorem resolve_ne_none {t : Text} (b : Option Url) (h : Text.trim t ≠ []) :
    UrlReference.resolve b (some t) ≠ .ok none := by
  intro hr
  cases ha : UrlReference.absolute? (Text.trim t) with
  | some u =>
    rw [UrlReference.resolve_of_absolute (some t) b ha h] at hr
    cases hr
  | none =>
    rw [UrlReference.resolve_of_relative (some t) b ha h] at hr
    obtain ⟨u, -, hu⟩ := exists_of_map_eq_ok hr
    cases hu

private theorem reports_requiredUrl :
    Check.Reports (requiredUrl uri base name e) [textCheck uri name e, urlCheck uri base name e] := by
  rw [Check.Reports, requiredUrl, textCheck, urlCheck]
  cases ht : text? uri name e with
  | none => rfl
  | some t =>
    have hne := resolve_ne_none (some base) (trim_ne_nil_of_text? uri ht)
    cases hr : UrlReference.resolve (some base) (some t) with
    | error x =>
      simp only [hr]
      rfl
    | ok o =>
      cases o with
      | none => exact absurd hr hne
      | some u =>
        simp only [hr]
        rfl

variable {ns : Namespaces} (hns : ns.uri? Namespaces.deviceQualifier = some uri)
include hns

theorem DeviceInfo.reports_read : Check.Reports (DeviceInfo.read base ⟨.element e, ns⟩) (infoChecks uri e) := by
  rw [DeviceInfo.read_eq hns]
  refine .cons map_requiredText fun _ _ => ?_
  refine .cons map_requiredText fun _ _ => ?_
  refine .cons map_requiredText fun _ _ => ?_
  refine .cons map_requiredText fun _ _ => ?_
  exact .ok _

theorem Icon.reports_read : Check.Reports (Icon.read base ⟨.element e, ns⟩) (iconChecks uri base e) := by
  rw [Icon.read_eq hns]
  refine .cons map_requiredText fun _ _ => ?_
  refine .cons map_requiredNumber fun _ _ => ?_
  refine .cons map_requiredNumber fun _ _ => ?_
  refine .cons map_requiredNumber fun _ _ => ?_
  refine .cons rfl fun _ _ => ?_
  exact .ok _

theorem Service.reports_read : Check.Reports (Service.read base ⟨.element e, ns⟩) (serviceChecks uri base e) := by
  rw [Service.read_eq hns]
  refine .cons map_requiredText fun _ _ => ?_
  refine .cons map_requiredText fun _ _ => ?_
  refine .bind reports_requiredUrl fun _ _ => ?_
  exact .bind_ok reports_requiredUrl _

end Reports

/-- A word counts the children of an element, and so on below. This holds of whatever fits into memory. -/
inductive XmlElement.Countable : XmlElement → Prop
  | intro {e : XmlElement} (length_le : e.children.length ≤ Numeral.maxWord64)
    (children : ∀ x ∈ e.children, x.Countable) : e.Countable

namespace SchemaTree

variable {uri name : Text} {e : XmlElement}

theorem countable_of_mem_named (he : e.Countable) {x : XmlElement} (hx : x ∈ named uri name e.children) :
    x.Countable := by
  obtain ⟨-, hc⟩ := he
  exact hc x (List.mem_filter.mp hx).1

private theorem length_named_le (he : e.Countable) : (named uri name e.children).length ≤ Numeral.maxWord64 := by
  obtain ⟨hl, -⟩ := he
  exact Nat.le_trans (List.length_filter_le _ _) hl

variable {list item : Text}

theorem length_items_le (he : e.Countable) : (items uri list item e).length ≤ Numeral.maxWord64 := by
  rw [items]
  cases hl : child? uri list e with
  | none => exact Nat.zero_le _
  | some l => exact length_named_le (countable_of_mem_named he (List.mem_of_head? hl))

theorem countable_of_mem_items (he : e.Countable) {x : XmlElement} (hx : x ∈ items uri list item e) :
    x.Countable := by
  rw [items] at hx
  cases hl : child? uri list e with
  | none =>
    rw [hl] at hx
    cases hx
  | some l =>
    rw [hl] at hx
    exact countable_of_mem_named (countable_of_mem_named he (List.mem_of_head? hl)) hx

end SchemaTree

/-- By recursion over the element, as the reader goes. -/
theorem Device.reports_read [InternationalNames] {ns : Namespaces} {uri : Text} {bases : Bases}
    (hns : ns.uri? Namespaces.deviceQualifier = some uri) {e : XmlElement} (he : e.Countable) :
    Check.Reports (Device.read bases ⟨.element e, ns⟩) (treeChecks uri bases e) := by
  have hread : Device.read bases ⟨.element e, ns⟩ = (do
      let info ← DeviceInfo.read bases.device ⟨.element e, ns⟩
      let icons ← (items uri "iconList" "icon" e).mapM fun x => Icon.read bases.device ⟨.element x, ns⟩
      let services ← (items uri "serviceList" "service" e).mapM fun x => Service.read bases.services ⟨.element x, ns⟩
      let children ← (items uri "deviceList" "device" e).mapM fun x => Device.read bases ⟨.element x, ns⟩
      .ok ⟨info, icons, services, children⟩) := by
    rw [Device.read, readItems_eq hns (by decide) (by decide) (length_items_le he),
      readItems_eq hns (by decide) (by decide) (length_items_le he),
      readItems_eq hns (by decide) (by decide) (length_items_le he)]
  rw [hread, treeChecks_eq, deviceChecks, List.append_assoc, List.append_assoc]
  refine .bind (DeviceInfo.reports_read hns) fun _ _ => ?_
  refine .bind (.mapM fun x _ => Icon.reports_read hns) fun _ _ => ?_
  refine .bind (.mapM fun x _ => Service.reports_read hns) fun _ _ => ?_
  refine .bind_ok (.mapM fun x hx => ?_) fun _ => _
  exact Device.reports_read hns (countable_of_mem_items he hx)
termination_by sizeOf e
decreasing_by exact sizeOf_lt_of_mem_items uri hx

namespace SchemaTree

def versionNumber? (uri name : Text) (root : XmlElement) : Option Nat :=
  (child? uri "specVersion" root).bind (number? uri Numeral.maxWord32 name)

def versionCheck (major : Option Nat) (minor : Nat) : Check :=
  match major with
  | some major => if major = 1 then .ok () else .error (.unsupportedDevice (.version major minor))
  | none => .ok ()

def rootChecks [InternationalNames] (uri : Text) (location : Url) (root : XmlElement) : List Check :=
  Check.present (.unsupportedDevice .noMajorVersion) (versionNumber? uri "major" root) ::
  versionCheck (versionNumber? uri "major" root) ((versionNumber? uri "minor" root).getD 0) ::
  Check.present (.schemaViolation "device") (child? uri "device" root) ::
  (do some (treeChecks uri (← bases? uri location root) (← child? uri "device" root))).getD []

end SchemaTree

section Root
variable {ns : Namespaces} {uri : Text} (hns : ns.uri? Namespaces.deviceQualifier = some uri) (root : XmlElement)
include hns

theorem SpecVersion.part?_eq {name : Text} (hn : PathStep.IsPlainName name) :
    part? ⟨.element root, ns⟩ name = versionNumber? uri name root := by
  rw [part?, value_under hns (by decide) hn, versionNumber?]
  cases child? uri "specVersion" root with
  | none => rfl
  | some v =>
    simp only [Option.bind_some, number?, text?]
    cases child? uri name v with
    | none => rfl
    | some x =>
      by_cases hx : Text.trim x.directText = []
      · simp [hx, Option.filter_some, Numeral.read?, Numeral.withoutSign, Numeral.isDigits]
      · simp [hx, Option.filter_some]

theorem SpecVersion.reports_read : Check.Reports (SpecVersion.read ⟨.element root, ns⟩) [
    .present (.unsupportedDevice .noMajorVersion) (versionNumber? uri "major" root),
    versionCheck (versionNumber? uri "major" root) ((versionNumber? uri "minor" root).getD 0)] := by
  rw [SpecVersion.read, part?_eq hns root (by decide), part?_eq hns root (by decide)]
  cases versionNumber? uri "major" root with
  | none => rfl
  | some major =>
    simp only
    by_cases hm : major = 1
    · rw [if_pos hm, versionCheck]
      simp only [hm, if_true]
      rfl
    · rw [if_neg hm, versionCheck]
      simp only [hm, if_false]
      rfl

end Root

namespace Description

variable {document : DocumentContext} {location : Url} {a : Authority} {h : Host}

variable [InternationalNames]

/-- The checks of a document at a location. Where the names of the schema have no namespace, no element bears
them. -/
def checks (location : Url) (document : DocumentContext) : List Check :=
  let uri := document.namespaces.uri? Namespaces.deviceQualifier
  let root := uri.bind fun uri => (named uri "root" document.children).head?
  .present (.unsupportedDevice .noRoot) root :: (do some (rootChecks (← uri) location (← root))).getD []

theorem exists_basesFor (hl : location.Serves a h) (declared : Option Url) :
    ∃ bases, basesFor declared location = .ok bases := by
  cases declared with
  | some base => exact ⟨⟨base, base⟩, rfl⟩
  | none =>
    obtain ⟨d, -, hd, -⟩ := Url.exists_directory_of_serves hl
    exact ⟨⟨d, location⟩, by rw [basesFor, hd, ok_bind]⟩

theorem reports_read (hl : location.Serves a h) (hc : ∀ e ∈ document.children, e.Countable) :
    Check.Reports (read location document) (checks location document) := by
  rw [read, checks]
  cases hns : document.namespaces.uri? Namespaces.deviceQualifier with
  | none =>
    rw [DocumentContext.pointer_first_unbound hns (by decide)]
    rfl
  | some uri =>
    rw [DocumentContext.pointer_first hns (by decide)]
    simp only [Option.bind_some]
    cases hroot : (named uri "root" document.children).head? with
    | none => rfl
    | some root =>
      change Check.Reports _ (.present (.unsupportedDevice .noRoot) (some root) :: rootChecks uri location root)
      refine .cons rfl fun c hc' => ?_
      cases hc'
      refine .bind (SpecVersion.reports_read hns root) fun version _ => ?_
      rw [DocumentContext.moveTo, declaredBase?_eq hns]
      obtain ⟨bases, hb⟩ := exists_basesFor hl (SchemaTree.declaredBase? uri root)
      rw [hb, ok_bind, bases?_of_basesFor hb, pointer_first_element hns (by decide)]
      cases htop : child? uri "device" root with
      | none => rfl
      | some top =>
        refine .cons rfl fun d hd => ?_
        cases hd
        refine .bind_ok (Device.reports_read hns ?_) _
        have hcr := hc root (List.mem_filter.mp (List.mem_of_head? hroot)).1
        exact countable_of_mem_named hcr (List.mem_of_head? htop)

end Description

namespace Announcement

def maxAgeCheck (a : Announcement) : Check :=
  match a.maxAge with
  | none => .ok ()
  | some t => .present (.invalidMaxAge t) (Numeral.read? Numeral.maxWord64 (Text.trim t))

private theorem map_readMaxAge (a : Announcement) : (a.readMaxAge.map fun _ => ()) = a.maxAgeCheck := by
  rw [readMaxAge, maxAgeCheck]
  cases a.maxAge with
  | none => rfl
  | some t =>
    simp only [Lease.readMaxAge]
    cases Numeral.read? Numeral.maxWord64 (Text.trim t) <;> rfl

variable [InternationalNames]

def locationCheck (a : Announcement) : Check :=
  match Url.read a.location with
  | .ok _ => .ok ()
  | .error e => .error (.malformedLocation a.location e)

def hostCheck (a : Announcement) : Check :=
  match Url.read a.location with
  | .ok u => if u.hasHost then .ok () else .error (.malformedLocation a.location .emptyHost)
  | .error _ => .ok ()

private theorem reports_readLocation (a : Announcement) :
    Check.Reports a.readLocation [a.locationCheck, a.hostCheck] := by
  rw [readLocation, locationCheck, hostCheck]
  cases Url.read a.location with
  | error e => rfl
  | ok u =>
    simp only
    cases u.hasHost <;> rfl

end Announcement

namespace RootDevice

variable [InternationalNames]

/-- All checks of what was announced and of its document. -/
def checks (a : Announcement) (document : DocumentContext) : List Check :=
  [a.locationCheck, a.hostCheck, a.maxAgeCheck] ++
    match Url.read a.location with
    | .ok location => Description.checks location document
    | .error _ => []

theorem reports_ofContext (a : Announcement) (now : Instant) {document : DocumentContext}
    (hc : ∀ e ∈ document.children, e.Countable) : Check.Reports (ofContext a now document) (checks a document) := by
  rw [ofContext, checks]
  change Check.Reports _ ([a.locationCheck, a.hostCheck] ++ a.maxAgeCheck :: _)
  refine .bind a.reports_readLocation fun location hl => ?_
  obtain ⟨hr, authority, host, hserves⟩ := Announcement.serves_of_readLocation hl
  refine .cons a.map_readMaxAge fun duration _ => ?_
  rw [hr]
  exact .bind_ok (Description.reports_read hserves hc) _

/-- A root device is built if and only if all checks pass, and else the first fault among them is what is said. -/
theorem built_iff_checks_pass (a : Announcement) (now : Instant) {document : DocumentContext}
    (hc : ∀ e ∈ document.children, e.Countable) :
    ((∃ r, ofContext a now document = .ok r) ↔ ∀ k ∈ checks a document, k = .ok ()) ∧
    ∀ x, ofContext a now document = .error x ↔
      ∃ before after, checks a document = before ++ .error x :: after ∧ ∀ k ∈ before, k = .ok () :=
  ⟨(reports_ofContext a now hc).isOk_iff, fun _ => (reports_ofContext a now hc).eq_error_iff⟩

end RootDevice

namespace Sample

/-- The service of the top device lacks a control URL. The device below stands before it in the document, has no UDN
and holds an icon without a width. -/
def faultyRoot : XmlElement :=
  ⟨"root", some uri, [
    element "specVersion" [leaf "minor" "x", leaf "major" "+01"],
    device "top" [
      element "deviceList" [
        element "device" [leaf "deviceType" "lamp", leaf "friendlyName" "below", leaf "modelName" "m",
          element "iconList" [icon "wide"]]],
      element "serviceList" [
        service "s",
        element "service" [leaf "serviceType" "switch", leaf "serviceId" "t", leaf "SCPDURL" "s"]],
      element "iconList" [icon "1"]]]⟩

def faulty : DocumentContext := .ofRoot faultyRoot (Namespaces.ofDeviceUri uri)

end Sample

theorem length_le_sizeOf {α : Type} [SizeOf α] (xs : List α) : xs.length ≤ sizeOf xs := by
  induction xs with
  | nil => simp
  | cons x xs ih => simp; omega

theorem XmlElement.countable_of_sizeOf_le {e : XmlElement} (h : sizeOf e ≤ Numeral.maxWord64) : e.Countable := by
  refine .intro ?_ fun x hx => ?_
  · obtain ⟨name, uri, content⟩ := e
    have hc : (content.filterMap XmlItem.child?).length ≤ content.length := List.length_filterMap_le _ _
    have hs := length_le_sizeOf content
    simp only [children, XmlElement.mk.sizeOf_spec] at h ⊢
    omega
  · have hlt := DocumentContext.sizeOf_lt_of_mem_children (c := ⟨.element e, .empty⟩) hx
    exact countable_of_sizeOf_le (Nat.le_trans (Nat.le_of_lt hlt) h)
termination_by sizeOf e
decreasing_by exact DocumentContext.sizeOf_lt_of_mem_children (c := ⟨.element e, .empty⟩) hx

open InternationalNames in
theorem RootDevice.built_iff_checks_pass_faulty :
    (∀ e ∈ Sample.faulty.children, e.Countable) ∧
    ofContext Sample.announcement 0 Sample.faulty = .error (.schemaViolation "controlURL") ∧
    (∃ k ∈ checks Sample.announcement Sample.faulty, k ≠ .ok ()) ∧
    ∃ before after, checks Sample.announcement Sample.faulty =
      before ++ .error (.schemaViolation "controlURL") :: after ∧ ∀ k ∈ before, k = .ok () := by
  have hc : ∀ e ∈ Sample.faulty.children, e.Countable := by
    intro e he
    obtain rfl := List.mem_singleton.mp he
    exact XmlElement.countable_of_sizeOf_le (by decide +kernel)
  have hfault : (ofContext Sample.announcement 0 Sample.faulty).map (fun _ => ()) =
      .error (.schemaViolation "controlURL") := by decide +kernel
  obtain ⟨hok, herror⟩ := built_iff_checks_pass Sample.announcement 0 hc
  cases hr : ofContext Sample.announcement 0 Sample.faulty with
  | ok r =>
    rw [hr] at hfault
    cases hfault
  | error x =>
    rw [hr] at hfault
    obtain rfl := Except.error.inj hfault
    refine ⟨hc, rfl, ?_, (herror _).mp hr⟩
    by_contra hall
    push Not at hall
    obtain ⟨r, hr'⟩ := hok.mpr hall
    rw [hr] at hr'
    cases hr'

end DeviceDescription
