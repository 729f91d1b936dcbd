import DeviceDescription.Proofs.PathAgreement
import DeviceDescription.Proofs.TreeRefinement
import Mathlib.Logic.Equiv.Basic

/-!
# Namespaces matter through equality alone

The URIs of namespaces can be exchanged for others, in a document and in the bindings of qualifiers at once, as long as
different ones stay different. All paths lead to the same places, and the same is built.
-/
namespace DeviceDescription

open Traversal

namespace XmlElement

-- What stands for each URI. An element without a namespace stays without one.
variable (f : Text → Text)

mutual

def renamed : XmlElement → XmlElement
  | ⟨name, namespaceUri, content⟩ => ⟨name, namespaceUri.map f, renamedItems content⟩

def renamedItems : List (XmlItem XmlElement) → List (XmlItem XmlElement)
  | [] => []
  | item :: r => renamedItem item :: renamedItems r

def renamedItem : XmlItem XmlElement → XmlItem XmlElement
  | .child e => .child (renamed e)
  | .text t => .text t
  | .comment t => .comment t
  | .instruction t => .instruction t

end

@[simp] theorem name_renamed (e : XmlElement) : (e.renamed f).name = e.name := by
  cases e
  rfl

@[simp] theorem namespaceUri_renamed (e : XmlElement) : (e.renamed f).namespaceUri = e.namespaceUri.map f := by
  cases e
  rfl

private theorem filterMap_child?_renamedItems (content : List (XmlItem XmlElement)) :
    (renamedItems f content).filterMap XmlItem.child? = (content.filterMap XmlItem.child?).map (renamed f) := by
  induction content with
  | nil => rfl
  | cons item r ih =>
    cases item with
    | child e => exact congrArg (e.renamed f :: ·) ih
    | text t => exact ih
    | comment t => exact ih
    | instruction t => exact ih

private theorem filterMap_text?_renamedItems (content : List (XmlItem XmlElement)) :
    (renamedItems f content).filterMap XmlItem.text? = content.filterMap XmlItem.text? := by
  induction content with
  | nil => rfl
  | cons item r ih =>
    cases item with
    | text t => exact congrArg (t :: ·) ih
    | child e => exact ih
    | comment t => exact ih
    | instruction t => exact ih

@[simp] theorem children_renamed (e : XmlElement) : (e.renamed f).children = e.children.map (renamed f) := by
  cases e
  exact filterMap_child?_renamedItems f _

@[simp] theorem directText_renamed (e : XmlElement) : (e.renamed f).directText = e.directText := by
  cases e
  exact congrArg List.flatten (filterMap_text?_renamedItems f _)

end XmlElement

namespace Namespaces

def renamed (f : Text → Text) (ns : Namespaces) : Namespaces := ⟨ns.bindings.map fun b => (b.1, f b.2)⟩

@[simp] theorem uri?_renamed (f : Text → Text) (ns : Namespaces) (q : Text) :
    (ns.renamed f).uri? q = (ns.uri? q).map f := by
  obtain ⟨bindings⟩ := ns
  simp only [renamed, uri?]
  induction bindings with
  | nil => rfl
  | cons b bindings ih =>
    rw [List.map_cons, List.lookup_cons, List.lookup_cons]
    split
    · rfl
    · exact ih

end Namespaces

namespace DocumentContext

def renamed (f : Text → Text) (c : DocumentContext) : DocumentContext where
  node := match c.node with
    | .document root => .document (root.renamed f)
    | .element e => .element (e.renamed f)
  namespaces := c.namespaces.renamed f

variable {f : Text → Text}

@[simp] theorem children_renamed (c : DocumentContext) :
    (c.renamed f).children = c.children.map (XmlElement.renamed f) := by
  obtain ⟨node, ns⟩ := c
  cases node with
  | document root => rfl
  | element e => exact e.children_renamed f

@[simp] theorem ownText_renamed (c : DocumentContext) : (c.renamed f).ownText = c.ownText := by
  obtain ⟨node, ns⟩ := c
  cases node with
  | document root => rfl
  | element e => exact congrArg Text.trim (e.directText_renamed f)

private theorem namespaceOf_renamed (c : DocumentContext) (s : PathStep) :
    (c.renamed f).namespaceOf s = (c.namespaceOf s).map (Option.map f) := by
  obtain ⟨qualifier, name, position⟩ := s
  cases qualifier with
  | none => rfl
  | some q =>
    simp only [namespaceOf, renamed, Namespaces.uri?_renamed]
    cases c.namespaces.uri? q <;> rfl

variable (hf : Function.Injective f)
include hf

/-- Names and namespaces are compared, and the comparisons come out the same. -/
theorem matching_renamed (c : DocumentContext) (s : PathStep) :
    (c.renamed f).matching s = (c.matching s).map (List.map (XmlElement.renamed f)) := by
  rw [matching, matching, namespaceOf_renamed]
  cases c.namespaceOf s with
  | error e => rfl
  | ok uri =>
    have hsame : (fun e : XmlElement => decide (e.name = s.name ∧ e.namespaceUri = uri.map f)) ∘ XmlElement.renamed f =
        fun e => decide (e.name = s.name ∧ e.namespaceUri = uri) := by
      funext e
      simp [(Option.map_injective hf).eq_iff]
    simp only [Except.map, children_renamed, List.filter_map, hsame]

private theorem follow_renamed (path : Text) (c : DocumentContext) (steps : List Text) :
    (c.renamed f).follow path steps = (c.follow path steps).map (renamed f) := by
  induction steps generalizing c with
  | nil => rfl
  | cons raw rest ih =>
    rw [follow, follow]
    cases PathStep.read raw with
    | error e => rfl
    | ok step =>
      rw [ok_bind, ok_bind, matching_renamed hf]
      cases c.matching step with
      | error e => rfl
      | ok es =>
        simp only [Except.map, ok_bind, List.getElem?_map]
        cases es[step.index]? with
        | none => rfl
        | some e => exact ih (c.moveTo e)

@[simp] theorem pointer_renamed (c : DocumentContext) (path : Text) :
    (c.renamed f).pointer path = (c.pointer path).map (renamed f) := follow_renamed hf path c _

@[simp] theorem value_renamed (c : DocumentContext) (path : Text) : (c.renamed f).value path = c.value path := by
  rw [value, value, pointer_renamed hf]
  cases c.pointer path with
  | error e => rfl
  | ok d => exact congrArg Except.ok d.ownText_renamed

private theorem countStep_renamed (c : DocumentContext) (raw : Text) :
    (c.renamed f).countStep raw = c.countStep raw := by
  rw [countStep, countStep]
  cases PathStep.read raw with
  | error e => rfl
  | ok step =>
    rw [ok_bind, ok_bind, matching_renamed hf]
    cases c.matching step with
    | error e => rfl
    | ok es => exact congrArg Except.ok (List.length_map _)

@[simp] theorem count_renamed (c : DocumentContext) (path : Text) : (c.renamed f).count path = c.count path := by
  rw [count, count]
  cases Text.cutLast '/' path with
  | none => exact countStep_renamed hf c path
  | some p =>
    simp only [pointer_renamed hf]
    cases c.pointer p.1 with
    | error e => rfl
    | ok d => exact countStep_renamed hf d p.2

theorem pathAgreement_renamed : PathAgreement fun c d => c = d.renamed f where
  value := by
    rintro c d rfl path
    exact value_renamed hf d path
  count := by
    rintro c d rfl path
    exact count_renamed hf d path
  pointer := by
    rintro c d rfl path
    rw [pointer_renamed hf]
    cases d.pointer path with
    | error e => exact .inl ⟨e, rfl, rfl⟩
    | ok x => exact .inr ⟨x.renamed f, x, rfl, rfl, rfl⟩

end DocumentContext

def Announcement.inNamespace (a : Announcement) (uri : Text) : Announcement :=
  { a with configuration := { a.configuration with deviceNamespace := uri } }

@[simp] theorem Announcement.readMaxAge_inNamespace (a : Announcement) (uri : Text) :
    (a.inNamespace uri).readMaxAge = a.readMaxAge := by
  unfold readMaxAge inNamespace
  cases a.maxAge <;> rfl

namespace RootDevice

variable [InternationalNames]

theorem ofXml_of_readText? (a : Announcement) (now : Instant) {xml : Text} {root : XmlElement}
    (h : XmlDocument.readText? xml = some root) :
    ofXml a now xml = ofContext (a.withText xml) now (.ofRoot root a.configuration.namespaces) := by
  rw [ofXml, h]

/-- The namespace of an announcement and the text of the document have no say in what is read in a document. -/
theorem ofContext_inNamespace (a : Announcement) (uri xml twin : Text) (now : Instant) {c d : DocumentContext}
    (h : ∀ location, Description.read location c = Description.read location d) :
    ofContext ((a.inNamespace uri).withText xml) now c =
      (ofContext (a.withText twin) now d).map fun r => { r with document := ⟨a.documentText.or (some xml), 0⟩ } := by
  have hage : ((a.inNamespace uri).withText xml).readMaxAge = (a.withText twin).readMaxAge :=
    a.readMaxAge_inNamespace uri
  have hlocation : ((a.inNamespace uri).withText xml).readLocation = (a.withText twin).readLocation := rfl
  rw [ofContext, ofContext, hage, hlocation]
  cases (a.withText twin).readLocation with
  | error e => rfl
  | ok location =>
    cases (a.withText twin).readMaxAge with
    | error e => rfl
    | ok duration =>
      simp only [ok_bind, h]
      cases Description.read location d <;> rfl

/-- Under a renaming of namespaces that keeps different ones apart, every path has the same value and the same count
and leads to the corresponding place or to the same fault, and the same is built from every place. So a text in a
namespace of choice, read with that namespace, builds what its twin in another namespace builds when it is read with
that one. Only the text that is kept is its own. -/
theorem ofContext_renamed {f : Text → Text} (hf : Function.Injective f) :
    (∀ (c : DocumentContext) (path : Text),
      (c.renamed f).value path = c.value path ∧ (c.renamed f).count path = c.count path ∧
      (c.renamed f).pointer path = (c.pointer path).map (DocumentContext.renamed f)) ∧
    (∀ (a : Announcement) (now : Instant) (c : DocumentContext), ofContext a now (c.renamed f) = ofContext a now c) ∧
    ∀ (a : Announcement) (now : Instant) (uri xml twin : Text) (root : XmlElement),
      XmlDocument.readText? xml = some root → XmlDocument.readText? twin = some (root.renamed f) →
      f uri = a.configuration.deviceNamespace →
      ofXml (a.inNamespace uri) now xml =
        (ofXml a now twin).map fun r => { r with document := ⟨a.documentText.or (some xml), 0⟩ } := by
  have hread : ∀ (c : DocumentContext) location,
      Description.read location (c.renamed f) = Description.read location c :=
    fun c => (DocumentContext.pathAgreement_renamed hf).readDescription_eq rfl
  refine ⟨fun c path => ⟨DocumentContext.value_renamed hf c path, DocumentContext.count_renamed hf c path,
    DocumentContext.pointer_renamed hf c path⟩, ?_, ?_⟩
  · intro a now c
    simp only [ofContext, hread]
  · intro a now uri xml twin root hxml htwin huri
    have hrenamed : DocumentContext.ofRoot (root.renamed f) a.configuration.namespaces =
        (DocumentContext.ofRoot root (a.inNamespace uri).configuration.namespaces).renamed f := by
      rw [Configuration.namespaces, ← huri]
      rfl
    rw [ofXml_of_readText? _ now hxml, ofXml_of_readText? _ now htwin, hrenamed]
    exact ofContext_inNamespace a uri xml twin now fun location => (hread _ location).symm

end RootDevice

namespace Sample

/-- In front of the device stands an element of the same name in the other namespace. -/
def lampText (uri other : Text) : Text :=
  "<root xmlns='" ++ uri ++ "'><specVersion><major>1</major></specVersion><v:device xmlns:v='" ++ other ++
    "'/><device><deviceType>lamp</deviceType><friendlyName>Lamp</friendlyName><modelName>m</modelName>" ++
    "<UDN>uuid:1</UDN></device></root>"

def ownLampRoot : XmlElement :=
  ⟨"root", some uri, [
    element "specVersion" [leaf "major" "1"],
    .child ⟨"device", some Namespaces.standardDeviceUri, []⟩,
    element "device" [leaf "deviceType" "lamp", leaf "friendlyName" "Lamp", leaf "modelName" "m",
      leaf "UDN" "uuid:1"]]⟩

def exchange : Text → Text := Equiv.swap uri Namespaces.standardDeviceUri

def ownLamp : Text := lampText uri Namespaces.standardDeviceUri

def lampTwin : Text := lampText Namespaces.standardDeviceUri uri

theorem readText?_ownLamp : XmlDocument.readText? ownLamp = some ownLampRoot := by
  rw [XmlDocument.readText?_of_undeclared (by decide +kernel) (by decide +kernel)]
  decide +kernel

theorem readText?_lampTwin : XmlDocument.readText? lampTwin = some (ownLampRoot.renamed exchange) := by
  rw [XmlDocument.readText?_of_undeclared (by decide +kernel) (by decide +kernel)]
  decide +kernel

end Sample

open InternationalNames in
theorem RootDevice.ofContext_renamed_twin :
    Function.Injective Sample.exchange ∧ XmlDocument.readText? Sample.ownLamp = some Sample.ownLampRoot ∧
    XmlDocument.readText? Sample.lampTwin = some (Sample.ownLampRoot.renamed Sample.exchange) ∧
    Sample.exchange Sample.uri = Configuration.standard.deviceNamespace ∧
    ∃ r s, ofXml (Sample.announcement.inNamespace Sample.uri) 0 Sample.ownLamp = .ok r ∧
      ofXml Sample.announcement 0 Sample.lampTwin = .ok s ∧
      r.description = s.description ∧ r.device.info.friendlyName = "Lamp" := by
  have hinjective : Function.Injective Sample.exchange := (Equiv.swap _ _).injective
  have huri : Sample.exchange Sample.uri = Configuration.standard.deviceNamespace := Equiv.swap_apply_left _ _
  have hname : (ofContext (Sample.announcement.withText Sample.lampTwin) 0
      (.ofRoot (Sample.ownLampRoot.renamed Sample.exchange) Namespaces.standard)).toOption.map
      (fun s => s.device.info.friendlyName) = some "Lamp".toList := by decide +kernel
  obtain ⟨s, hs, hlamp⟩ := exists_ok_of_toOption_map hname
  have htwin : ofXml Sample.announcement 0 Sample.lampTwin = .ok s :=
    (ofXml_of_readText? Sample.announcement 0 Sample.readText?_lampTwin).trans hs
  have hr := (ofContext_renamed hinjective).2.2 Sample.announcement 0 Sample.uri _ _ _ Sample.readText?_ownLamp
    Sample.readText?_lampTwin huri
  rw [htwin] at hr
  exact ⟨hinjective, Sample.readText?_ownLamp, Sample.readText?_lampTwin, huri, _, s, hr, htwin, rfl, hlamp⟩

end DeviceDescription
