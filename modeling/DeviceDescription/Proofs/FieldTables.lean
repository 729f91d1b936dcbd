import DeviceDescription.Proofs.SchemaLookup

/-!
# What the tables of fields come to

At an element, a table reads the texts of the first children of its names. Each table is restated as the
sequence of its required fields; the optional ones have no say in success.
-/
namespace DeviceDescription

open SchemaTree PathStep Traversal

namespace SchemaTree

variable (uri : Text)

def requiredText (name : Text) (e : XmlElement) : Except DescriptionError Text :=
  match text? uri name e with
  | some t => .ok t
  | none => .error (.schemaViolation name)

def requiredNumber (bound : Nat) (name : Text) (e : XmlElement) : Except DescriptionError Nat :=
  match number? uri bound name e with
  | some n => .ok n
  | none => .error (.schemaViolation name)

theorem trim_ne_nil_of_text? {t name : Text} {e : XmlElement} (h : text? uri name e = some t) : Text.trim t ≠ [] := by
  obtain ⟨hm, hn⟩ := Option.filter_eq_some_iff.mp h
  obtain ⟨x, -, rfl⟩ := Option.map_eq_some_iff.mp hm
  rw [(Text.isTrimmed_trim _).trim_eq]
  simpa using hn

private theorem le_of_number? {bound n : Nat} {name : Text} {e : XmlElement} (h : number? uri bound name e = some n) :
    n ≤ bound := by
  obtain ⟨t, -, ht⟩ := Option.bind_eq_some_iff.mp h
  exact (Numeral.denotes_of_read? ht).2

end SchemaTree

theorem Icon.dimension_integer {n : Nat} (h : n ≤ Numeral.maxWord32) : dimension (.integer n) = n := by
  simp [dimension, FieldValue.integer?, Option.filter_some, h]

theorem bind_requiredNumber_congr {α : Type} {uri name : Text} {bound : Nat} {e : XmlElement}
    {f g : Nat → Except DescriptionError α} (h : ∀ n ≤ bound, f n = g n) :
    (requiredNumber uri bound name e >>= f) = (requiredNumber uri bound name e >>= g) := by
  unfold requiredNumber
  cases hn : number? uri bound name e with
  | none => rfl
  | some n => exact h n (le_of_number? uri hn)

variable [InternationalNames]

/-- A reference that is there has to be resolved. -/
def SchemaTree.requiredUrl (uri : Text) (base : Url) (name : Text) (e : XmlElement) : Except DescriptionError Url :=
  match text? uri name e with
  | none => .error (.schemaViolation name)
  | some t => match UrlReference.resolve (some base) (some t) with
    | .ok (some u) => .ok u
    | .ok none => .error (.schemaViolation name)
    | .error x => .error x

section AtElement
variable {ns : Namespaces} {uri name : Text} {α : Type} {assign : FieldValue → α → α}
variable (hns : ns.uri? Namespaces.deviceQualifier = some uri) (hn : IsPlainName name)
variable (e : XmlElement) (base : Url)
include hns hn

theorem read_field {f : Field α} (hf : f.path = SchemaPath.first name) (base : Option Url) :
    f.read ⟨.element e, ns⟩ base = match text? uri name e with
      | some t => f.kind.interpret f.name base t
      | none => .error (.schemaViolation f.name) := by
  have ht := optionalText_first hns hn e
  rw [← hf] at ht
  cases h : text? uri name e with
  | none =>
    rw [h] at ht
    simp only [Field.read, ht]
  | some t =>
    rw [h] at ht
    simp only [Field.read, ht]

theorem read_mandatoryText (base : Option Url) :
    (Field.mandatory name .text assign).read ⟨.element e, ns⟩ base = (requiredText uri name e).map .text := by
  rw [read_field hns hn e rfl, requiredText]
  cases text? uri name e <;> rfl

theorem read_mandatoryInteger32 (base : Option Url) :
    (Field.mandatory name .integer32 assign).read ⟨.element e, ns⟩ base =
      (requiredNumber uri Numeral.maxWord32 name e).map .integer := by
  rw [read_field hns hn e rfl, requiredNumber, number?]
  cases text? uri name e with
  | none => rfl
  | some t =>
    simp only [Option.bind_some, Field.mandatory, FieldKind.interpret]
    cases Numeral.read? Numeral.maxWord32 t <;> rfl

theorem read_mandatoryUrl :
    (Field.mandatory name .url assign).read ⟨.element e, ns⟩ (some base) = (requiredUrl uri base name e).map .url := by
  rw [read_field hns hn e rfl, requiredUrl]
  cases text? uri name e with
  | none => rfl
  | some t =>
    simp only [Field.mandatory, FieldKind.interpret]
    cases UrlReference.resolve (some base) (some t) with
    | error x => rfl
    | ok u => cases u <;> rfl

private theorem read_optionalText (base : Option Url) :
    ((Field.optional name .text assign).read ⟨.element e, ns⟩ base).toOption =
      (text? uri name e).map .text := by
  rw [read_field hns hn e rfl]
  cases text? uri name e <;> rfl

private theorem read_optionalUrl :
    ((Field.optional name .url assign).read ⟨.element e, ns⟩ (some base)).toOption =
      (url? uri base name e).map .url := by
  rw [read_field hns hn e rfl, url?]
  cases text? uri name e with
  | none => rfl
  | some t =>
    simp only [Option.bind_some, Field.optional, FieldKind.interpret]
    cases UrlReference.resolve (some base) (some t) with
    | error x => rfl
    | ok u => cases u <;> rfl

theorem read_optionalInteger (base : Option Url) :
    ((Field.optional name .integer assign).read ⟨.element e, ns⟩ base).toOption =
      (number? uri Numeral.maxWord64 name e).map .integer := by
  rw [read_field hns hn e rfl, number?]
  cases text? uri name e with
  | none => rfl
  | some t =>
    simp only [Option.bind_some, Field.optional, FieldKind.interpret]
    cases Numeral.read? Numeral.maxWord64 t <;> rfl

end AtElement

section Populate
variable {α β : Type} {c : DocumentContext} {base : Option Url} {name : Text} {kind : FieldKind}
variable {assign : FieldValue → α → α}

theorem populate_mandatory {value : β → FieldValue} {r : Except DescriptionError β}
    (hr : (Field.mandatory name kind assign).read c base = r.map value) (table : List (Field α)) (target : α) :
    (populate c base (.mandatory name kind assign :: table) target).toExcept =
      r >>= fun b => (populate c base table (assign (value b) target)).toExcept := by
  simp only [populate, Field.extract, hr]
  cases r <;> rfl

/-- `mk` is the target as a function of the part that the field fills. -/
theorem populate_optional {value : β → FieldValue} {o : Option β}
    (ho : ((Field.optional name kind assign).read c base).toOption = o.map value) (mk : Option β → α)
    (ha : ∀ b, assign (value b) (mk none) = mk (some b)) (table : List (Field α)) :
    (populate c base (.optional name kind assign :: table) (mk none)).toExcept =
      (populate c base table (mk o)).toExcept := by
  simp only [populate, Field.extract]
  cases hr : (Field.optional name kind assign).read c base with
  | error x =>
    rw [hr] at ho
    cases o with
    | none => rfl
    | some b => cases ho
  | ok v =>
    rw [hr] at ho
    cases o with
    | none => cases ho
    | some b =>
      cases Option.some.inj ho
      rw [← ha]
      rfl

/-- A table sees no more of a document than what its fields yield. -/
theorem populate_congr {d : DocumentContext} {table : List (Field α)}
    (h : ∀ f ∈ table, f.extract c base = f.extract d base) (target : α) :
    populate c base table target = populate d base table target := by
  induction table generalizing target with
  | nil => rfl
  | cons f table ih =>
    have htable := ih fun g hg => h g (List.mem_cons_of_mem _ hg)
    rw [populate, populate, h f List.mem_cons_self]
    cases f.extract d base with
    | value v => exact htable _
    | absent => exact htable _
    | violation e => rfl

end Populate

section Schema
variable {ns : Namespaces} {uri : Text} (hns : ns.uri? Namespaces.deviceQualifier = some uri)
variable (base : Url) (e : XmlElement)
include hns

theorem DeviceInfo.read_eq :
    DeviceInfo.read base ⟨.element e, ns⟩ = (do
      let deviceType ← requiredText uri "deviceType" e
      let friendlyName ← requiredText uri "friendlyName" e
      let modelName ← requiredText uri "modelName" e
      let udn ← requiredText uri "UDN" e
      .ok {
        deviceType, friendlyName, modelName, udn
        manufacturer := text? uri "manufacturer" e
        manufacturerUrl := url? uri base "manufacturerURL" e
        presentationUrl := url? uri base "presentationURL" e
        modelDescription := text? uri "modelDescription" e
        modelNumber := text? uri "modelNumber" e
        modelUrl := text? uri "modelURL" e
        serialNumber := text? uri "serialNumber" e
        upc := number? uri Numeral.maxWord64 "UPC" e }) := by
  rw [DeviceInfo.read, fields, populate_mandatory (read_mandatoryText hns (by decide) e _)]
  congr 1
  funext deviceType
  rw [populate_mandatory (read_mandatoryText hns (by decide) e _)]
  congr 1
  funext friendlyName
  rw [populate_mandatory (read_mandatoryText hns (by decide) e _)]
  congr 1
  funext modelName
  rw [populate_mandatory (read_mandatoryText hns (by decide) e _)]
  congr 1
  funext udn
  let manufacturer := text? uri "manufacturer" e
  let manufacturerUrl := url? uri base "manufacturerURL" e
  let presentationUrl := url? uri base "presentationURL" e
  let modelDescription := text? uri "modelDescription" e
  let modelNumber := text? uri "modelNumber" e
  let modelUrl := text? uri "modelURL" e
  let serialNumber := text? uri "serialNumber" e
  -- Each step fills one more part of what is known; `o` marks the part that the next field fills.
  refine Eq.trans (populate_optional (α := DeviceInfo) (read_optionalText hns (by decide) e _)
    (fun o => ⟨deviceType, friendlyName, modelName, udn, o, none, none, none, none, none, none, none⟩)
    (fun _ => rfl) _) ?_
  refine Eq.trans (populate_optional (α := DeviceInfo) (read_optionalUrl hns (by decide) e base)
    (fun o => ⟨deviceType, friendlyName, modelName, udn, manufacturer, o, none, none, none, none, none, none⟩)
    (fun _ => rfl) _) ?_
  refine Eq.trans (populate_optional (α := DeviceInfo) (read_optionalUrl hns (by decide) e base)
    (fun o => ⟨deviceType, friendlyName, modelName, udn, manufacturer, manufacturerUrl,
      o, none, none, none, none, none⟩)
    (fun _ => rfl) _) ?_
  refine Eq.trans (populate_optional (α := DeviceInfo) (read_optionalText hns (by decide) e _)
    (fun o => ⟨deviceType, friendlyName, modelName, udn, manufacturer, manufacturerUrl,
      presentationUrl, o, none, none, none, none⟩)
    (fun _ => rfl) _) ?_
  refine Eq.trans (populate_optional (α := DeviceInfo) (read_optionalText hns (by decide) e _)
    (fun o => ⟨deviceType, friendlyName, modelName, udn, manufacturer, manufacturerUrl,
      presentationUrl, modelDescription, o, none, none, none⟩)
    (fun _ => rfl) _) ?_
  refine Eq.trans (populate_optional (α := DeviceInfo) (read_optionalText hns (by decide) e _)
    (fun o => ⟨deviceType, friendlyName, modelName, udn, manufacturer, manufacturerUrl,
      presentationUrl, modelDescription, modelNumber, o, none, none⟩)
    (fun _ => rfl) _) ?_
  refine Eq.trans (populate_optional (α := DeviceInfo) (read_optionalText hns (by decide) e _)
    (fun o => ⟨deviceType, friendlyName, modelName, udn, manufacturer, manufacturerUrl,
      presentationUrl, modelDescription, modelNumber, modelUrl, o, none⟩)
    (fun _ => rfl) _) ?_
  refine Eq.trans (populate_optional (α := DeviceInfo) (read_optionalInteger hns (by decide) e _)
    (fun o => ⟨deviceType, friendlyName, modelName, udn, manufacturer, manufacturerUrl,
      presentationUrl, modelDescription, modelNumber, modelUrl, serialNumber, o⟩)
    (fun _ => rfl) _) ?_
  rfl

theorem Icon.read_eq :
    Icon.read base ⟨.element e, ns⟩ = (do
      let mimeType ← requiredText uri "mimetype" e
      let width ← requiredNumber uri Numeral.maxWord32 "width" e
      let height ← requiredNumber uri Numeral.maxWord32 "height" e
      let depth ← requiredNumber uri Numeral.maxWord32 "depth" e
      let url ← UrlReference.resolve (some base) (text? uri "url" e)
      .ok { mimeType, width, height, depth, url }) := by
  rw [Icon.read, fields, populate_mandatory (read_mandatoryText hns (by decide) e _),
    optionalText_first hns (by decide)]
  simp only [bind_assoc]
  congr 1
  funext mimeType
  rw [populate_mandatory (read_mandatoryInteger32 hns (by decide) e _), bind_assoc]
  refine bind_requiredNumber_congr fun width hwidth => ?_
  rw [populate_mandatory (read_mandatoryInteger32 hns (by decide) e _), bind_assoc]
  refine bind_requiredNumber_congr fun height hheight => ?_
  rw [populate_mandatory (read_mandatoryInteger32 hns (by decide) e _), bind_assoc]
  refine bind_requiredNumber_congr fun depth hdepth => ?_
  simp only [populate, Populated.toExcept, ok_bind, FieldValue.toText, dimension_integer hwidth,
    dimension_integer hheight, dimension_integer hdepth]

theorem Service.read_eq :
    Service.read base ⟨.element e, ns⟩ = (do
      let serviceType ← requiredText uri "serviceType" e
      let serviceId ← requiredText uri "serviceId" e
      let scpdUrl ← requiredUrl uri base "SCPDURL" e
      let controlUrl ← requiredUrl uri base "controlURL" e
      .ok { serviceType, serviceId, scpdUrl, controlUrl, eventSubUrl := url? uri base "eventSubURL" e }) := by
  rw [Service.read, fields, populate_mandatory (read_mandatoryText hns (by decide) e _), bind_assoc]
  congr 1
  funext serviceType
  rw [populate_mandatory (read_mandatoryText hns (by decide) e _), bind_assoc]
  congr 1
  funext serviceId
  rw [populate_mandatory (read_mandatoryUrl hns (by decide) e base), bind_assoc]
  congr 1
  funext scpdUrl
  rw [populate_mandatory (read_mandatoryUrl hns (by decide) e base), bind_assoc]
  congr 1
  funext controlUrl
  refine Eq.trans (congrArg (· >>= Draft.finish) (populate_optional (α := Draft)
    (read_optionalUrl hns (by decide) e base)
    (fun o => ⟨serviceType, serviceId, some scpdUrl, some controlUrl, o⟩)
    (fun _ => rfl) _)) ?_
  rfl

end Schema
end DeviceDescription
