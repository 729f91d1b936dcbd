import DeviceDescription.Proofs.EmptiedElements
import DeviceDescription.Proofs.FilledFields
import DeviceDescription.Proofs.OrderedChecks

/-!
# Faults that count as absence

An optional field without a usable value is absent, and a declared base that is no URL counts as not declared. Such
elements can be emptied, any number of them at once, and what is built stays the same, faults included.
-/
namespace DeviceDescription

open SchemaTree Traversal PathStep

namespace Field

variable {α : Type} {f : Field α} {c : DocumentContext} {base : Option Url}

variable [InternationalNames]

theorem policy_of_extract_absent (h : f.extract c base = .absent) : f.policy = .optional := by
  rw [extract] at h
  cases hp : f.policy with
  | optional => rfl
  | mandatory =>
    rw [hp] at h
    cases hr : f.read c base with
    | ok v =>
      rw [hr] at h
      cases h
    | error x =>
      rw [hr] at h
      cases h

theorem extract_absent_of_read {x : DescriptionError} (hp : f.policy = .optional) (hr : f.read c base = .error x) :
    f.extract c base = .absent := by
  rw [extract, hp, hr]
  rfl

end Field

/-- A table of the schema: a field stands in the first child of its name, and no two fields share a name. -/
structure IsSchemaTable {α : Type} (table : List (Field α)) : Prop where
  plain : ∀ f ∈ table, IsPlainName f.name
  path : ∀ f ∈ table, f.path = SchemaPath.first f.name
  nodup : (table.map Field.name).Nodup

theorem DeviceInfo.isSchemaTable_fields : IsSchemaTable fields where
  plain := by decide
  path := by simp [fields, Field.mandatory, Field.optional]
  nodup := by decide

theorem Service.isSchemaTable_fields : IsSchemaTable fields where
  plain := by decide
  path := by simp [fields, Field.mandatory, Field.optional]
  nodup := by decide

section Faults
variable (ns : Namespaces) (uri : Text)

variable [InternationalNames]

/-- The first element of a name, where the field of a table yields nothing. -/
inductive FieldFault {α : Type} (table : List (Field α)) (base : Url) (e : XmlElement) : List Nat → Prop where
  | mk {f : Field α} {i : Nat} {x : XmlElement} (hf : f ∈ table) (hx : IsFirst uri f.name e i x)
      (ha : f.extract ⟨.element e, ns⟩ (some base) = .absent) : FieldFault table base e [i]

/-- The places of such fields in a device, in its services and in the devices embedded in it. -/
inductive DeviceFault (bases : Bases) : XmlElement → List Nat → Prop where
  | field {e : XmlElement} {place : List Nat} (h : FieldFault ns uri DeviceInfo.fields bases.device e place) :
      DeviceFault bases e place
  | service {e list s : XmlElement} {i j : Nat} {place : List Nat} (hl : IsFirst uri "serviceList" e i list)
      (hs : IsNamed uri "service" list j s) (h : FieldFault ns uri Service.fields bases.services s place) :
      DeviceFault bases e (i :: j :: place)
  | embedded {e list d : XmlElement} {i j : Nat} {place : List Nat} (hl : IsFirst uri "deviceList" e i list)
      (hd : IsNamed uri "device" list j d) (h : DeviceFault bases d place) : DeviceFault bases e (i :: j :: place)

/-- A declared base that is no URL, or a place in the top device. -/
inductive RootFault (location : Url) (root : XmlElement) : List Nat → Prop where
  | base {i : Nat} {x : XmlElement} {error : UrlError} (hx : IsFirst uri "URLBase" root i x)
      (hr : Url.read (Text.trim x.directText) = .error error) : RootFault location root [i]
  | device {i : Nat} {top : XmlElement} {bases : Bases} {place : List Nat} (hx : IsFirst uri "device" root i top)
      (hb : bases? uri location root = some bases) (h : DeviceFault ns uri bases top place) :
      RootFault location root (i :: place)

end Faults

section Places
variable {ns : Namespaces} {uri : Text} {bases : Bases} {e l x : XmlElement} {i j : Nat} {place : List Nat}

variable [InternationalNames]

theorem DeviceFault.ne_nil (h : DeviceFault ns uri bases e place) : place ≠ [] := by
  cases h with
  | field h =>
    cases h
    exact List.cons_ne_nil _ _
  | service => exact List.cons_ne_nil _ _
  | embedded => exact List.cons_ne_nil _ _

theorem DeviceFault.field_of_singleton (h : DeviceFault ns uri bases e [i]) :
    FieldFault ns uri DeviceInfo.fields bases.device e [i] := by
  cases h with
  | field h => exact h

private theorem FieldFault.mem_of_isNamed {α : Type} {table : List (Field α)} {base : Url} {name : Text}
    (h : FieldFault ns uri table base e [i]) (hx : IsNamed uri name e i x) : name ∈ table.map Field.name := by
  cases h with
  | mk hf hf' =>
    obtain ⟨-, rfl⟩ := hx.unique hf'.toIsNamed
    exact List.mem_map_of_mem hf

theorem not_deviceFault_of_isNamed {list : Text} (hl : list ∉ DeviceInfo.fields.map Field.name)
    (hx : IsNamed uri list e i l) : ¬DeviceFault ns uri bases e [i] :=
  fun h => hl (h.field_of_singleton.mem_of_isNamed hx)

/-- Two levels down there are services and embedded devices. -/
theorem DeviceFault.cases_of_isNamed {list : Text} (h : DeviceFault ns uri bases e (i :: j :: place))
    (hl : IsNamed uri list e i l) :
    (list = "serviceList" ∧ ∃ s, IsNamed uri "service" l j s ∧
      FieldFault ns uri Service.fields bases.services s place) ∨
    (list = "deviceList" ∧ ∃ d, IsNamed uri "device" l j d ∧ DeviceFault ns uri bases d place) := by
  cases h with
  | field h => cases h
  | service hl' hs h =>
    obtain ⟨rfl, rfl⟩ := hl.unique hl'.toIsNamed
    exact .inl ⟨rfl, _, hs, h⟩
  | embedded hl' hd h =>
    obtain ⟨rfl, rfl⟩ := hl.unique hl'.toIsNamed
    exact .inr ⟨rfl, _, hd, h⟩

section Readings
variable {marked : List Nat → Bool} (hns : ns.uri? Namespaces.deviceQualifier = some uri)
include hns

private theorem extract_emptied {α : Type} {table : List (Field α)} (ht : IsSchemaTable table) {base : Url}
    (hroot : marked [] = false) (hm : ∀ i, marked [i] = true → FieldFault ns uri table base e [i])
    {f : Field α} (hf : f ∈ table) :
    f.extract ⟨.element (e.emptied marked), ns⟩ (some base) = f.extract ⟨.element e, ns⟩ (some base) := by
  have hread := fun e => read_field hns (ht.plain f hf) e (ht.path f hf) (some base)
  obtain htext | ⟨htext, i, x, hx, hi⟩ := text?_emptied uri f.name hroot e
  · rw [Field.extract, Field.extract, hread, hread, htext]
  · have hr := hread (e.emptied marked)
    rw [htext] at hr
    cases hm i hi with
    | @mk g _ y hg hy ha =>
      obtain ⟨-, hname⟩ := hy.unique hx
      obtain rfl := List.inj_on_of_nodup_map ht.nodup hf hg hname
      rw [ha, Field.extract_absent_of_read (Field.policy_of_extract_absent ha) hr]

theorem populate_emptied {α : Type} {table : List (Field α)} (ht : IsSchemaTable table) {base : Url}
    (hroot : marked [] = false) (hm : ∀ i, marked [i] = true → FieldFault ns uri table base e [i]) (target : α) :
    populate ⟨.element (e.emptied marked), ns⟩ (some base) table target =
      populate ⟨.element e, ns⟩ (some base) table target :=
  populate_congr (fun _ hf => extract_emptied hns ht hroot hm hf) target

theorem Service.read_emptied {base : Url}
    (hm : ∀ place, marked place = true → FieldFault ns uri Service.fields base e place) :
    Service.read base ⟨.element (e.emptied marked), ns⟩ = Service.read base ⟨.element e, ns⟩ := by
  have hroot : marked [] = false := by
    rw [Bool.eq_false_iff]
    intro h
    cases hm [] h
  rw [Service.read, Service.read, populate_emptied hns Service.isSchemaTable_fields hroot fun i => hm [i]]

omit [InternationalNames] in
/-- The items of a list are read as before if each of them is read as before below its marks. -/
theorem readItems_emptied {α : Type} {list item : Text} {f : DocumentContext → Except DescriptionError α}
    (hl : IsPlainName list) (hi : IsPlainName item) (hroot : marked [] = false)
    (hlist : ∀ i l, IsNamed uri list e i l → marked [i] = false)
    (hf : ∀ i l j, ∀ x ∈ items uri list item e, IsNamed uri list e i l → IsNamed uri item l j x →
      f ⟨.element (x.emptied (marksBelow (marksBelow marked i) j)), ns⟩ = f ⟨.element x, ns⟩) :
    SchemaPath.readItems ⟨.element (e.emptied marked), ns⟩ list item (fun d _ => f d) =
      SchemaPath.readItems ⟨.element e, ns⟩ list item fun d _ => f d := by
  refine (readItems_congr hns hl hi (forall₂_items_emptied uri list item hroot e hlist) ?_).symm
  rintro x hx y ⟨i, l, j, hxl, hxi, rfl⟩
  exact (hf i l j x hx hxl hxi).symm

/-- By recursion over the element: the devices in a list are smaller elements. -/
theorem Device.read_emptied {e : XmlElement} {marked : List Nat → Bool}
    (hm : ∀ place, marked place = true → DeviceFault ns uri bases e place) :
    Device.read bases ⟨.element (e.emptied marked), ns⟩ = Device.read bases ⟨.element e, ns⟩ := by
  have hroot : marked [] = false := by
    rw [Bool.eq_false_iff]
    exact fun h => (hm [] h).ne_nil rfl
  have hlist : ∀ list, list ∉ DeviceInfo.fields.map Field.name →
      ∀ i l, IsNamed uri list e i l → marked [i] = false := by
    intro list hl i l hx
    rw [Bool.eq_false_iff]
    exact fun h => not_deviceFault_of_isNamed hl hx (hm [i] h)
  have hinfo : DeviceInfo.read bases.device ⟨.element (e.emptied marked), ns⟩ =
      DeviceInfo.read bases.device ⟨.element e, ns⟩ := by
    rw [DeviceInfo.read, DeviceInfo.read,
      populate_emptied hns DeviceInfo.isSchemaTable_fields hroot fun i h => (hm [i] h).field_of_singleton]
  have hicons := readItems_emptied (f := Icon.read bases.device) hns (show IsPlainName "iconList" by decide)
    (show IsPlainName "icon" by decide) hroot (hlist _ (by decide)) fun i l j x _ hl hx => by
      have hnone : ∀ place, marksBelow (marksBelow marked i) j place = false := by
        intro place
        rw [Bool.eq_false_iff]
        intro h
        rcases (hm (i :: j :: place) h).cases_of_isNamed hl with ⟨hne, -⟩ | ⟨hne, -⟩
        · exact absurd hne (by decide)
        · exact absurd hne (by decide)
      rw [XmlElement.emptied_eq_self hnone]
  have hservices := readItems_emptied (f := Service.read bases.services) hns (show IsPlainName "serviceList" by decide)
    (show IsPlainName "service" by decide) hroot (hlist _ (by decide)) fun i l j x _ hl hx => by
      refine Service.read_emptied hns fun place h => ?_
      rcases (hm (i :: j :: place) h).cases_of_isNamed hl with ⟨-, s, hs, h⟩ | ⟨hne, -⟩
      · exact (hx.unique hs).1 ▸ h
      · exact absurd hne (by decide)
  have hdevices := readItems_emptied (f := Device.read bases) hns (show IsPlainName "deviceList" by decide)
    (show IsPlainName "device" by decide) hroot (hlist _ (by decide)) fun i l j x _hmem hl hx => by
      refine Device.read_emptied fun place h => ?_
      rcases (hm (i :: j :: place) h).cases_of_isNamed hl with ⟨hne, -⟩ | ⟨-, d, hd, h⟩
      · exact absurd hne (by decide)
      · exact (hx.unique hd).1 ▸ h
  rw [Device.read, Device.read, hinfo, hicons, hservices, hdevices]
termination_by sizeOf e
decreasing_by exact sizeOf_lt_of_mem_items uri _hmem

variable {location : Url} {root : XmlElement} (hm : ∀ place, marked place = true → RootFault ns uri location root place)
include hm

omit hns in
theorem not_marked_root : marked [] = false := by
  rw [Bool.eq_false_iff]
  intro h
  cases hm [] h

omit hns in
private theorem exists_base_of_marked {i : Nat} (h : marked [i] = true) :
    ∃ x error, IsFirst uri "URLBase" root i x ∧ Url.read (Text.trim x.directText) = .error error := by
  generalize hp : [i] = place at h
  cases hm place h with
  | base hx hr =>
    obtain rfl := (List.cons.inj hp).1
    exact ⟨_, _, hx, hr⟩
  | device hx hb hd => exact absurd (List.cons.inj hp).2.symm hd.ne_nil

theorem SpecVersion.read_emptied :
    SpecVersion.read ⟨.element (root.emptied marked), ns⟩ = SpecVersion.read ⟨.element root, ns⟩ := by
  have hroot := not_marked_root hm
  have hnumber : ∀ name, versionNumber? uri name (root.emptied marked) = versionNumber? uri name root := by
    intro name
    rw [versionNumber?, versionNumber?]
    obtain ⟨hx, hy⟩ | ⟨i, x, hi, hx, hy⟩ := child?_emptied uri "specVersion" hroot root
    · rw [hx, hy]
    · have hnone : ∀ place, marksBelow marked i place = false := by
        intro place
        rw [Bool.eq_false_iff]
        intro h
        cases hm (i :: place) h with
        | base hx' => exact absurd (hi.unique hx'.toIsNamed).2 (by decide)
        | device hx' => exact absurd (hi.unique hx'.toIsNamed).2 (by decide)
      rw [hx, hy, XmlElement.emptied_eq_self hnone]
  rw [SpecVersion.read, SpecVersion.read]
  simp only [SpecVersion.part?_eq hns _ (show IsPlainName "major" by decide),
    SpecVersion.part?_eq hns _ (show IsPlainName "minor" by decide), hnumber]

omit hns in
/-- What is no URL declares no base, and so does nothing. -/
theorem declaredBase?_emptied :
    SchemaTree.declaredBase? uri (root.emptied marked) = SchemaTree.declaredBase? uri root := by
  rw [SchemaTree.declaredBase?, SchemaTree.declaredBase?]
  obtain htext | ⟨htext, i, x, hx, hi⟩ := text?_emptied uri "URLBase" (not_marked_root hm) root
  · rw [htext]
  · obtain ⟨y, error, hy, hread⟩ := exists_base_of_marked hm hi
    rw [htext, text?, child?_eq_of_isFirst hy, Option.map_some, Option.filter_some]
    split
    · rw [Option.bind_some, hread]
      rfl
    · rfl

private theorem Device.read_emptied_top {i : Nat} {top : XmlElement} (hx : IsNamed uri "device" root i top)
    (hb : bases? uri location root = some bases) :
    Device.read bases ⟨.element (top.emptied (marksBelow marked i)), ns⟩ = Device.read bases ⟨.element top, ns⟩ := by
  refine Device.read_emptied hns fun place h => ?_
  cases hm (i :: place) h with
  | base hx' => exact absurd (hx.unique hx'.toIsNamed).2 (by decide)
  | device hx' hb' hd =>
    obtain ⟨rfl, -⟩ := hx.unique hx'.toIsNamed
    obtain rfl := Option.some.inj (hb.symm.trans hb')
    exact hd

theorem Description.read_emptied :
    Description.read location (.ofRoot (root.emptied marked) ns) = Description.read location (.ofRoot root ns) := by
  have hnamed : (named uri "root" [root.emptied marked]).head? =
      ((named uri "root" [root]).head?).map fun x => x.emptied marked := by
    rw [named, named, List.filter_singleton, List.filter_singleton, XmlElement.name_emptied,
      XmlElement.namespaceUri_emptied]
    cases decide (root.name = "root" ∧ root.namespaceUri = some uri) <;> rfl
  have hchildren : ∀ root ns, (DocumentContext.ofRoot root ns).children = [root] := fun _ _ => rfl
  rw [Description.read_eq (c := .ofRoot (root.emptied marked) ns) hns,
    Description.read_eq (c := .ofRoot root ns) hns, hchildren, hchildren, hnamed]
  cases hroot : (named uri "root" [root]).head? with
  | none => rfl
  | some x =>
    obtain rfl : x = root := List.mem_singleton.mp (List.mem_filter.mp (List.mem_of_head? hroot)).1
    simp only [Option.map_some, DocumentContext.ofRoot, SpecVersion.read_emptied hns hm, declaredBase?_emptied hm]
    refine bind_congr fun version => ?_
    cases hb : Description.basesFor (SchemaTree.declaredBase? uri x) location with
    | error error => rfl
    | ok bases =>
      obtain ⟨hx, hy⟩ | ⟨i, top, hi, hx, hy⟩ := child?_emptied uri "device" (not_marked_root hm) x
      · rw [hx, hy]
      · simp only [hx, hy, ok_bind, Device.read_emptied_top hns hm hi (Description.bases?_of_basesFor hb)]

end Readings

private theorem FieldFault.of_blank {α : Type} {table : List (Field α)} {base : Url} {f : Field α}
    (ht : IsSchemaTable table) (hns : ns.uri? Namespaces.deviceQualifier = some uri) (hf : f ∈ table)
    (hp : f.policy = .optional) (hx : IsFirst uri f.name e i x) (hb : Text.trim x.directText = []) :
    FieldFault ns uri table base e [i] := by
  have htext : text? uri f.name e = none := by
    rw [text?, child?_eq_of_isFirst hx, Option.map_some, hb]
    rfl
  have hr := read_field hns (ht.plain f hf) e (ht.path f hf) (some base)
  rw [htext] at hr
  exact .mk hf hx (Field.extract_absent_of_read hp hr)

private theorem DeviceFault.of_upc (hns : ns.uri? Namespaces.deviceQualifier = some uri) (hx : IsFirst uri "UPC" e i x)
    (hn : ∀ n ≤ Numeral.maxWord64, ¬Numeral.Denotes (Text.trim x.directText) n) : DeviceFault ns uri bases e [i] := by
  have hnumber : number? uri Numeral.maxWord64 "UPC" e = none := by
    rw [Option.eq_none_iff_forall_not_mem]
    intro n h
    obtain ⟨t, ht, hread⟩ := Option.bind_eq_some_iff.mp h
    obtain ⟨y, hy, rfl⟩ := exists_child?_of_text? ht
    obtain rfl := Option.some.inj (hy.symm.trans (child?_eq_of_isFirst hx))
    obtain ⟨hdenotes, hle⟩ := Numeral.denotes_of_read? hread
    exact hn n hle hdenotes
  let upc : Field DeviceInfo := .optional "UPC" .integer fun v i => { i with upc := v.integer? }
  have hupc : upc ∈ DeviceInfo.fields := by simp [upc, DeviceInfo.fields]
  have hoption : (upc.read ⟨.element e, ns⟩ (some bases.device)).toOption = none := by
    rw [read_optionalInteger hns (by decide) e, hnumber]
    rfl
  cases hr : upc.read ⟨.element e, ns⟩ (some bases.device) with
  | ok v =>
    rw [hr] at hoption
    cases hoption
  | error error => exact .field (.mk hupc hx (Field.extract_absent_of_read rfl hr))

end Places

namespace RootDevice

/-- Any set of tolerated faults can be emptied without a change of what is built or of the fault that is reported. A
product code that denotes no number of 64 bits is such a fault. -/
theorem ofContext_emptied [InternationalNames] (a : Announcement) (now : Instant) (ns : Namespaces)
    (root : XmlElement) :
    (∀ marked : List Nat → Bool,
      (∀ uri location, ns.uri? Namespaces.deviceQualifier = some uri → a.readLocation = .ok location →
        ∀ place, marked place = true → RootFault ns uri location root place) →
      ofContext a now (.ofRoot (root.emptied marked) ns) = ofContext a now (.ofRoot root ns)) ∧
    ∀ uri bases e i x, ns.uri? Namespaces.deviceQualifier = some uri → IsFirst uri "UPC" e i x →
      (∀ n ≤ Numeral.maxWord64, ¬Numeral.Denotes (Text.trim x.directText) n) →
      DeviceFault ns uri bases e [i] := by
  refine ⟨fun marked hm => ?_, fun uri bases e i x hns hx hn => .of_upc hns hx hn⟩
  cases hl : a.readLocation with
  | error error => rw [ofContext, ofContext, hl, error_bind, error_bind]
  | ok location =>
    have hread : Description.read location (.ofRoot (root.emptied marked) ns) =
        Description.read location (.ofRoot root ns) := by
      cases hns : ns.uri? Namespaces.deviceQualifier with
      | none =>
        have hunbound : ∀ e, Description.read location (.ofRoot e ns) = .error (.unsupportedDevice .noRoot) :=
          fun _ => Description.read_unbound hns location
        rw [hunbound, hunbound]
      | some uri => exact Description.read_emptied hns (hm uri location hns hl)
    rw [ofContext, ofContext, hl, ok_bind, ok_bind, hread]

end RootDevice

namespace Sample

def brokenRoot : XmlElement :=
  ⟨"root", some uri, [
    element "specVersion" [leaf "major" "1"],
    leaf "URLBase" "http://[",
    device "top" [
      leaf "UPC" "-5",
      leaf "UPC" "7",
      element "deviceList" [device "below" [
        leaf "UPC" "18446744073709551616",
        element "serviceList" [relativeService]]]]]⟩

def faultPlaces : List (List Nat) := [[1], [2, 6], [2, 8, 0, 6], [2, 8, 0, 7, 0, 4]]

private theorem not_denotes_negative (n : Nat) : ¬Numeral.Denotes "-5" n := by
  rintro ⟨digits, ht | ht, -, hdigits, -⟩
  · exact absurd (hdigits '-' (ht ▸ by decide)) (by decide)
  · exact absurd (List.cons.inj ht).1 (by decide)

private theorem not_denotes_large (n : Nat) (hn : n ≤ Numeral.maxWord64) :
    ¬Numeral.Denotes "18446744073709551616" n := by
  rintro ⟨digits, ht | ht, -, -, hvalue⟩
  · rw [← ht] at hvalue
    have hlarge : Nat.ofDigitChars 10 "18446744073709551616".toList 0 = 18446744073709551616 := by decide +kernel
    rw [hlarge] at hvalue
    exact absurd hn (hvalue ▸ by decide)
  · exact absurd (List.cons.inj ht).1 (by decide)

end Sample

open InternationalNames in
theorem RootDevice.ofContext_emptied_nested :
    ∃ r, ofContext Sample.announcement 0 (.ofRoot Sample.brokenRoot (Namespaces.ofDeviceUri Sample.uri)) = .ok r ∧
      ofContext Sample.announcement 0 (.ofRoot (Sample.brokenRoot.emptied fun place => place ∈ Sample.faultPlaces)
        (Namespaces.ofDeviceUri Sample.uri)) = .ok r ∧
      r.description.declaredBase = none ∧ r.device.info.upc = none ∧
      r.device.children.map (fun d => (d.info.upc, d.services.length)) = [(none, 1)] := by
  have hfacts : (ofContext Sample.announcement 0 (.ofRoot Sample.brokenRoot
      (Namespaces.ofDeviceUri Sample.uri))).toOption.map (fun r => (r.description.declaredBase, r.device.info.upc,
        r.device.children.map fun d => (d.info.upc, d.services.length))) = some (none, none, [(none, 1)]) := by
    decide +kernel
  obtain ⟨r, hr, hr'⟩ := exists_ok_of_toOption_map hfacts
  simp only [Prod.mk.injEq] at hr'
  obtain ⟨hdeclared, hupc, hchildren⟩ := hr'
  obtain ⟨hsame, hfault⟩ :=
    ofContext_emptied Sample.announcement 0 (Namespaces.ofDeviceUri Sample.uri) Sample.brokenRoot
  have hemptied := hsame (fun place => place ∈ Sample.faultPlaces) ?_
  · exact ⟨r, hr, hemptied.trans hr, hdeclared, hupc, hchildren⟩
  intro uri location hns hlocation place hplace
  obtain rfl : Sample.uri = uri := Option.some.inj hns
  obtain ⟨-, authority, host, hserves⟩ := Announcement.serves_of_readLocation hlocation
  obtain ⟨bases, hbases⟩ := Description.exists_basesFor hserves (SchemaTree.declaredBase? Sample.uri Sample.brokenRoot)
  have hb := Description.bases?_of_basesFor hbases
  have hurl : (Url.read "http://[").toOption = none := by decide +kernel
  simp only [Sample.faultPlaces, List.mem_cons, List.not_mem_nil, or_false, decide_eq_true_eq] at hplace
  rcases hplace with rfl | rfl | rfl | rfl
  · cases hr : Url.read "http://[" with
    | ok u =>
      rw [hr] at hurl
      cases hurl
    | error error => exact .base ⟨⟨rfl, rfl, rfl⟩, rfl⟩ hr
  · refine .device ⟨⟨rfl, rfl, rfl⟩, rfl⟩ hb ?_
    exact hfault _ bases _ 6 _ hns ⟨⟨rfl, rfl, rfl⟩, rfl⟩ fun n _ => Sample.not_denotes_negative n
  · refine .device ⟨⟨rfl, rfl, rfl⟩, rfl⟩ hb (.embedded ⟨⟨rfl, rfl, rfl⟩, rfl⟩ ⟨rfl, rfl, rfl⟩ ?_)
    exact hfault _ bases _ 6 _ hns ⟨⟨rfl, rfl, rfl⟩, rfl⟩ Sample.not_denotes_large
  · let eventSub : Field Service.Draft := .optional "eventSubURL" .url fun v s => { s with eventSubUrl := v.url? }
    have hmem : eventSub ∈ Service.fields := by simp [eventSub, Service.fields]
    refine .device ⟨⟨rfl, rfl, rfl⟩, rfl⟩ hb (.embedded ⟨⟨rfl, rfl, rfl⟩, rfl⟩ ⟨rfl, rfl, rfl⟩
      (.service ⟨⟨rfl, rfl, rfl⟩, rfl⟩ ⟨rfl, rfl, rfl⟩ ?_))
    exact .of_blank Service.isSchemaTable_fields hns hmem rfl ⟨⟨rfl, rfl, rfl⟩, rfl⟩ rfl

end DeviceDescription
