import DeviceDescription.Proofs.SchemaAgreement
import Mathlib.Logic.Relation

/-!
# What documents may hold besides the description

Comments, processing instructions and elements of other namespaces may stand anywhere in a document, elements of
different names may stand in any order, and qualifiers may be chosen at will. None of this has a say in what is built.
-/
namespace DeviceDescription

open SchemaTree Traversal

/-- An element together with the qualifier that it is written with. -/
structure WrittenElement where
  qualifier : Option Text
  name : Text
  namespaceUri : Option Text
  content : List (XmlItem WrittenElement)

namespace WrittenElement

mutual

def resolved : WrittenElement → XmlElement
  | ⟨_, name, namespaceUri, content⟩ => ⟨name, namespaceUri, resolvedItems content⟩

def resolvedItems : List (XmlItem WrittenElement) → List (XmlItem XmlElement)
  | [] => []
  | item :: r => resolvedItem item :: resolvedItems r

def resolvedItem : XmlItem WrittenElement → XmlItem XmlElement
  | .child e => .child e.resolved
  | .text t => .text t
  | .comment t => .comment t
  | .instruction t => .instruction t

end

def childrenOf (content : List (XmlItem WrittenElement)) : List WrittenElement := content.filterMap XmlItem.child?

def textOf (content : List (XmlItem WrittenElement)) : Text := (content.filterMap XmlItem.text?).flatten

def named (uri name : Text) (es : List WrittenElement) : List WrittenElement :=
  es.filter fun e => e.name = name ∧ e.namespaceUri = some uri

/-- What may be put anywhere: all but text and elements of the schema. -/
def IsExtension (schema : Option Text) : XmlItem WrittenElement → Prop
  | .child e => ∀ uri, schema = some uri → e.namespaceUri ≠ some uri
  | .text _ => False
  | .comment _ => True
  | .instruction _ => True

/-- A change of a document that has nothing to do with the description. -/
inductive Edit (schema : Option Text) : WrittenElement → WrittenElement → Prop where
  | insert (q : Option Text) (n : Text) (u : Option Text) (before after : List (XmlItem WrittenElement))
      (item : XmlItem WrittenElement) (h : IsExtension schema item) :
      Edit schema ⟨q, n, u, before ++ after⟩ ⟨q, n, u, before ++ item :: after⟩
  /-- Elements of one local name keep their order, and the text stays the same as a whole. -/
  | rearrange (q : Option Text) (n : Text) (u : Option Text) (content content' : List (XmlItem WrittenElement))
      (horder : ∀ name, (childrenOf content).filter (·.name = name) = (childrenOf content').filter (·.name = name))
      (htext : textOf content = textOf content') :
      Edit schema ⟨q, n, u, content⟩ ⟨q, n, u, content'⟩
  | requalify (q q' : Option Text) (n : Text) (u : Option Text) (content : List (XmlItem WrittenElement)) :
      Edit schema ⟨q, n, u, content⟩ ⟨q', n, u, content⟩
  | inside (q : Option Text) (n : Text) (u : Option Text) (before after : List (XmlItem WrittenElement))
      {e e' : WrittenElement} (h : Edit schema e e') :
      Edit schema ⟨q, n, u, before ++ .child e :: after⟩ ⟨q, n, u, before ++ .child e' :: after⟩

/-- Documents that differ by edits and their reversals alone. -/
abbrev SameUpToEdits (schema : Option Text) : WrittenElement → WrittenElement → Prop := Relation.EqvGen (Edit schema)

variable {schema : Option Text} {uri : Text} {e e' v w : WrittenElement}

theorem Edit.swap (q : Option Text) (n : Text) (u : Option Text) (before after : List (XmlItem WrittenElement))
    (h : e.name ≠ e'.name) :
    Edit schema ⟨q, n, u, before ++ .child e :: .child e' :: after⟩
      ⟨q, n, u, before ++ .child e' :: .child e :: after⟩ := by
  apply Edit.rearrange
  · intro name
    by_cases he : e.name = name
    · have he' : e'.name ≠ name := fun hn => h (he.trans hn.symm)
      simp [childrenOf, XmlItem.child?, List.filter_cons, he']
    · simp [childrenOf, XmlItem.child?, List.filter_cons, he]
  · simp [textOf, XmlItem.text?, List.filterMap_cons]

private theorem name_eq_of_edit (h : Edit schema v w) : v.name = w.name := by cases h <;> rfl

private theorem namespaceUri_eq_of_edit (h : Edit schema v w) : v.namespaceUri = w.namespaceUri := by cases h <;> rfl

/-- What the schema sees of two elements: their names, their texts, and children that differ by edits in turn. -/
structure Alike (uri : Text) (v w : WrittenElement) : Prop where
  name : v.name = w.name
  namespaceUri : v.namespaceUri = w.namespaceUri
  text : textOf v.content = textOf w.content
  named : ∀ name, List.Forall₂ (SameUpToEdits (some uri)) (named uri name (childrenOf v.content))
    (WrittenElement.named uri name (childrenOf w.content))

private theorem named_append (uri name : Text) (a b : List (XmlItem WrittenElement)) :
    named uri name (childrenOf (a ++ b)) = named uri name (childrenOf a) ++ named uri name (childrenOf b) := by
  rw [childrenOf, List.filterMap_append, named, List.filter_append]
  rfl

private theorem named_cons (uri name : Text) (e : WrittenElement) (after : List (XmlItem WrittenElement)) :
    named uri name (childrenOf (.child e :: after)) = named uri name [e] ++ named uri name (childrenOf after) :=
  List.filter_append [e] (childrenOf after)

private theorem named_extension {item : XmlItem WrittenElement} (h : IsExtension (some uri) item) (name : Text)
    (after : List (XmlItem WrittenElement)) :
    named uri name (childrenOf (item :: after)) = named uri name (childrenOf after) := by
  cases item with
  | child e =>
    have hforeign : e.namespaceUri ≠ some uri := h uri rfl
    simp [childrenOf, XmlItem.child?, named, hforeign]
  | text t => exact h.elim
  | comment t => rfl
  | instruction t => rfl

private theorem textOf_extension {item : XmlItem WrittenElement} (h : IsExtension schema item)
    (before after : List (XmlItem WrittenElement)) : textOf (before ++ after) = textOf (before ++ item :: after) := by
  cases item with
  | text t => exact h.elim
  | _ => simp [textOf, XmlItem.text?, List.filterMap_cons]

private theorem forall₂_refl (es : List WrittenElement) : List.Forall₂ (SameUpToEdits schema) es es :=
  List.forall₂_same.mpr fun e _ => .refl e

/-- Elements of the same name are looked up together. -/
theorem forall₂_named_singleton (hname : v.name = w.name) (huri : v.namespaceUri = w.namespaceUri)
    (h : SameUpToEdits schema v w) (uri name : Text) :
    List.Forall₂ (SameUpToEdits schema) (named uri name [v]) (named uri name [w]) := by
  rw [named, named, List.filter_singleton, List.filter_singleton, hname, huri]
  cases decide (w.name = name ∧ w.namespaceUri = some uri) with
  | true => exact .cons h .nil
  | false => exact .nil

/-- One edit, by cases on its kind. -/
theorem alike_of_edit (h : Edit (some uri) v w) : Alike uri v w := by
  refine ⟨name_eq_of_edit h, namespaceUri_eq_of_edit h, ?_, ?_⟩
  · cases h with
    | insert q n u before after item hitem => exact textOf_extension hitem before after
    | rearrange q n u content content' horder htext => exact htext
    | requalify q q' n u content => rfl
    | inside q n u before after h => simp [textOf, XmlItem.text?, List.filterMap_cons]
  · intro name
    cases h with
    | insert q n u before after item hitem =>
      rw [named_append, named_append, named_extension hitem]
      exact forall₂_refl _
    | rearrange q n u content content' horder htext =>
      have hsame : named uri name (childrenOf content) = named uri name (childrenOf content') := by
        have hfilter := congrArg (List.filter fun e => decide (e.namespaceUri = some uri)) (horder name)
        simpa [List.filter_filter, named, Bool.and_comm] using hfilter
      rw [hsame]
      exact forall₂_refl _
    | requalify q q' n u content => exact forall₂_refl _
    | @inside q n u before after e e' h =>
      have hchild := forall₂_named_singleton (name_eq_of_edit h) (namespaceUri_eq_of_edit h) (.rel _ _ h) uri name
      rw [named_append, named_append, named_cons, named_cons]
      exact List.rel_append (forall₂_refl _) (List.rel_append hchild (forall₂_refl _))

theorem Alike.symm (h : Alike uri v w) : Alike uri w v := by
  refine ⟨h.name.symm, h.namespaceUri.symm, h.text.symm, fun name => ?_⟩
  exact List.Forall₂.flip ((h.named name).imp fun a b hab => .symm _ _ hab)

theorem Alike.trans {x : WrittenElement} (h : Alike uri v w) (h' : Alike uri w x) : Alike uri v x :=
  ⟨h.name.trans h'.name, h.namespaceUri.trans h'.namespaceUri, h.text.trans h'.text,
    fun name => forall₂_trans (fun _ _ _ _ => .trans _ _ _) (h.named name) (h'.named name)⟩

/-- A run of edits, in any direction. -/
theorem alike_of_sameUpToEdits (h : SameUpToEdits (some uri) v w) : Alike uri v w := by
  induction h with
  | rel v w h => exact alike_of_edit h
  | refl v => exact ⟨rfl, rfl, rfl, fun name => forall₂_refl _⟩
  | symm v w _ ih => exact ih.symm
  | trans v w x _ _ ih ih' => exact ih.trans ih'

private theorem filterMap_child?_resolvedItems (content : List (XmlItem WrittenElement)) :
    (resolvedItems content).filterMap XmlItem.child? = (childrenOf content).map resolved := by
  induction content with
  | nil => rfl
  | cons item r ih =>
    cases item with
    | child e => exact congrArg (e.resolved :: ·) ih
    | text t => exact ih
    | comment t => exact ih
    | instruction t => exact ih

private theorem filterMap_text?_resolvedItems (content : List (XmlItem WrittenElement)) :
    (resolvedItems content).filterMap XmlItem.text? = content.filterMap XmlItem.text? := by
  induction content with
  | nil => rfl
  | cons item r ih =>
    cases item with
    | text t => exact congrArg (t :: ·) ih
    | child e => exact ih
    | comment t => exact ih
    | instruction t => exact ih

@[simp]
private theorem children_resolved (e : WrittenElement) : e.resolved.children = (childrenOf e.content).map resolved := by
  cases e
  exact filterMap_child?_resolvedItems _

@[simp] private theorem directText_resolved (e : WrittenElement) : e.resolved.directText = textOf e.content := by
  cases e
  exact congrArg List.flatten (filterMap_text?_resolvedItems _)

private theorem named_resolved (uri name : Text) (es : List WrittenElement) :
    SchemaTree.named uri name (es.map resolved) = (named uri name es).map resolved := by
  have hcomp : (fun e : XmlElement => decide (e.name = name ∧ e.namespaceUri = some uri)) ∘ resolved =
      fun e : WrittenElement => decide (e.name = name ∧ e.namespaceUri = some uri) := by
    funext e
    cases e
    rfl
  rw [SchemaTree.named, List.filter_map, hcomp]
  rfl

/-- Elements that come from written ones that differ by edits alone. -/
def Resolves (schema : Option Text) (x y : XmlElement) : Prop :=
  ∃ v w, v.resolved = x ∧ w.resolved = y ∧ SameUpToEdits schema v w

private theorem forall₂_resolved {vs ws : List WrittenElement} (h : List.Forall₂ (SameUpToEdits schema) vs ws) :
    List.Forall₂ (Resolves schema) (vs.map resolved) (ws.map resolved) := by
  rw [List.forall₂_map_left_iff, List.forall₂_map_right_iff]
  exact h.imp fun v w hvw => ⟨v, w, rfl, rfl, hvw⟩

theorem schemaAgreement (uri : Text) : SchemaAgreement uri (Resolves (some uri)) := by
  constructor
  · rintro x y ⟨v, w, rfl, rfl, h⟩
    rw [directText_resolved, directText_resolved, (alike_of_sameUpToEdits h).text]
  · rintro x y ⟨v, w, rfl, rfl, h⟩ name
    rw [children_resolved, children_resolved, named_resolved, named_resolved]
    exact forall₂_resolved ((alike_of_sameUpToEdits h).named name)

private theorem forall₂_named_root (h : SameUpToEdits (some uri) v w) (name : Text) :
    List.Forall₂ (Resolves (some uri)) (SchemaTree.named uri name [v.resolved])
      (SchemaTree.named uri name [w.resolved]) := by
  have halike := alike_of_sameUpToEdits h
  have hroot := forall₂_resolved (forall₂_named_singleton halike.name halike.namespaceUri h uri name)
  rwa [← named_resolved, ← named_resolved] at hroot

end WrittenElement

/-- Whatever is built, it is built from the description alone. -/
theorem RootDevice.ofContext_eq_of_edits [InternationalNames] (a : Announcement) (now : Instant) (ns : Namespaces)
    {x y : WrittenElement} (h : WrittenElement.SameUpToEdits (ns.uri? Namespaces.deviceQualifier) x y) :
    ofContext a now (.ofRoot x.resolved ns) = ofContext a now (.ofRoot y.resolved ns) := by
  have hread : ∀ location, Description.read location (.ofRoot x.resolved ns) =
      Description.read location (.ofRoot y.resolved ns) := by
    intro location
    cases hns : ns.uri? Namespaces.deviceQualifier with
    | none =>
      -- Where the names of the schema have no namespace, no document has a root.
      rw [Description.read, Description.read, DocumentContext.pointer_first_unbound hns (by decide),
        DocumentContext.pointer_first_unbound hns (by decide)]
    | some uri =>
      rw [hns] at h
      exact (WrittenElement.schemaAgreement uri).readDescription_eq (c := .ofRoot x.resolved ns)
        (d := .ofRoot y.resolved ns) hns rfl (WrittenElement.forall₂_named_root h "root") location
  simp only [ofContext, hread]

namespace Sample

def writtenLeaf (name text : String) : XmlItem WrittenElement := .child ⟨none, name, some uri, [.text text]⟩

def versionElement : WrittenElement := ⟨none, "specVersion", some uri, [writtenLeaf "major" "1"]⟩

def lamp (extensions : List (XmlItem WrittenElement)) : WrittenElement :=
  ⟨none, "device", some uri, extensions ++ [writtenLeaf "deviceType" "lamp", writtenLeaf "friendlyName" "Lamp",
    writtenLeaf "modelName" "m", writtenLeaf "UDN" "uuid:1"]⟩

def vendorName : XmlItem WrittenElement := .child ⟨some "v", "friendlyName", some "urn:vendor", [.text "no"]⟩

def plainRoot : WrittenElement := ⟨none, "root", some uri, [.child versionElement, .child (lamp [])]⟩

/-- The extension stands before the field, the version stands last, and the root has a qualifier. -/
def extendedRoot : WrittenElement :=
  ⟨some "d", "root", some uri, [.child (lamp [vendorName]), .child versionElement]⟩

private theorem sameUpToEdits_extendedRoot : WrittenElement.SameUpToEdits (some uri) plainRoot extendedRoot := by
  have hforeign : WrittenElement.IsExtension (some uri) vendorName := by
    intro u hu h
    obtain rfl := Option.some.inj hu
    exact absurd h (by decide)
  have hlamp : WrittenElement.Edit (some uri) (lamp []) (lamp [vendorName]) := .insert none _ _ [] _ _ hforeign
  have hqualified : WrittenElement.Edit (some uri) plainRoot
      ⟨some "d", "root", some uri, [.child versionElement, .child (lamp [])]⟩ := .requalify _ _ _ _ _
  have hinserted : WrittenElement.Edit (some uri)
      ⟨some "d", "root", some uri, [.child versionElement, .child (lamp [])]⟩
      ⟨some "d", "root", some uri, [.child versionElement, .child (lamp [vendorName])]⟩ :=
    .inside _ _ _ [.child versionElement] [] hlamp
  have hswapped : WrittenElement.Edit (some uri)
      ⟨some "d", "root", some uri, [.child versionElement, .child (lamp [vendorName])]⟩ extendedRoot :=
    .swap _ _ _ [] [] (by decide)
  exact .trans _ _ _ (.rel _ _ hqualified) (.trans _ _ _ (.rel _ _ hinserted) (.rel _ _ hswapped))

end Sample

open InternationalNames in
theorem RootDevice.ofContext_eq_of_edits_extended :
    ∃ ns, WrittenElement.SameUpToEdits (ns.uri? Namespaces.deviceQualifier) Sample.plainRoot Sample.extendedRoot ∧
      ∃ r, ofContext Sample.announcement 0 (.ofRoot Sample.plainRoot.resolved ns) = .ok r ∧
        ofContext Sample.announcement 0 (.ofRoot Sample.extendedRoot.resolved ns) = .ok r ∧
        r.device.info.friendlyName = "Lamp" := by
  have hname : (ofContext Sample.announcement 0 (.ofRoot Sample.plainRoot.resolved
      (Namespaces.ofDeviceUri Sample.uri))).toOption.map (fun r => r.device.info.friendlyName) =
      some "Lamp".toList := by decide +kernel
  obtain ⟨r, hr, hlamp⟩ := exists_ok_of_toOption_map hname
  have hsame := ofContext_eq_of_edits Sample.announcement 0 (Namespaces.ofDeviceUri Sample.uri)
    Sample.sameUpToEdits_extendedRoot
  exact ⟨Namespaces.ofDeviceUri Sample.uri, Sample.sameUpToEdits_extendedRoot, r, hr, hsame ▸ hr, hlamp⟩

end DeviceDescription
