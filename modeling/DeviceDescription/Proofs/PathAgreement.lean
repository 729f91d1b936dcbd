import DeviceDescription.Proofs.FieldTables

/-!
# Readings look at documents through paths

What a description says is read through the values, the counts and the places of paths alone. At places where all
paths agree and lead to places that agree again, the same is read, faults included.
-/
namespace DeviceDescription

open Traversal

/-- Both fail alike, or they lead to related places. -/
def LeadAlike (r : DocumentContext → DocumentContext → Prop) (x y : Except PathError DocumentContext) : Prop :=
  (∃ e, x = .error e ∧ y = .error e) ∨ ∃ c d, x = .ok c ∧ y = .ok d ∧ r c d

/-- A relation between places under which no path tells them apart. -/
structure PathAgreement (r : DocumentContext → DocumentContext → Prop) : Prop where
  value : ∀ {c d}, r c d → ∀ path, c.value path = d.value path
  count : ∀ {c d}, r c d → ∀ path, c.count path = d.count path
  pointer : ∀ {c d}, r c d → ∀ path, LeadAlike r (c.pointer path) (d.pointer path)

namespace PathAgreement

variable {r : DocumentContext → DocumentContext → Prop} (hr : PathAgreement r) {c d : DocumentContext} (h : r c d)
include hr h

theorem optionalText_eq (path : Text) : optionalText c path = optionalText d path := by
  rw [optionalText, optionalText, hr.value h]

theorem extract_eq [InternationalNames] {α : Type} (f : Field α) (base : Option Url) :
    f.extract c base = f.extract d base := by
  rw [Field.extract, Field.extract, Field.read, Field.read, hr.optionalText_eq h]

theorem populate_eq [InternationalNames] {α : Type} (base : Option Url) (table : List (Field α)) (target : α) :
    populate c base table target = populate d base table target :=
  populate_congr (fun f _ => hr.extract_eq h f base) target

theorem readInfo_eq [InternationalNames] (base : Url) : DeviceInfo.read base c = DeviceInfo.read base d := by
  rw [DeviceInfo.read, DeviceInfo.read, hr.populate_eq h]

theorem readIcon_eq [InternationalNames] (base : Url) : Icon.read base c = Icon.read base d := by
  rw [Icon.read, Icon.read, hr.populate_eq h, hr.optionalText_eq h]

theorem readService_eq [InternationalNames] (base : Url) : Service.read base c = Service.read base d := by
  rw [Service.read, Service.read, hr.populate_eq h]

/-- What is made of a result is the same if it is the same at related places. -/
theorem match_pointer_eq {α : Type} {path : Text} {onError : PathError → α}
    {f : (x : DocumentContext) → c.pointer path = .ok x → α} {g : (y : DocumentContext) → d.pointer path = .ok y → α}
    (hfg : ∀ x hx y hy, r x y → f x hx = g y hy) :
    (match hx : c.pointer path with
      | .error e => onError e
      | .ok x => f x hx) =
    match hy : d.pointer path with
      | .error e => onError e
      | .ok y => g y hy := by
  have hp := hr.pointer h path
  generalize c.pointer path = x at hp f
  generalize d.pointer path = y at hp g
  obtain ⟨e, rfl, rfl⟩ | ⟨x, y, rfl, rfl, hxy⟩ := hp
  · rfl
  · exact hfg x rfl y rfl hxy

theorem readItems_eq {α : Type} (list item : Text)
    {f : (x : DocumentContext) → x.size < c.size → Except DescriptionError α}
    {g : (y : DocumentContext) → y.size < d.size → Except DescriptionError α}
    (hfg : ∀ x hx y hy, r x y → f x hx = g y hy) :
    SchemaPath.readItems c list item f = SchemaPath.readItems d list item g := by
  unfold SchemaPath.readItems
  refine hr.match_pointer_eq h fun l hl m hm hlm => ?_
  rw [hr.count hlm]
  congr 1
  funext n
  congr 1
  funext i
  exact hr.match_pointer_eq hlm fun x hx y hy hxy => hfg x _ y _ hxy

omit h in
/-- By recursion over the size of the place: the devices in a list stand at smaller places. -/
theorem readDevice_eq [InternationalNames] {c d : DocumentContext} (h : r c d) (bases : Bases) :
    Device.read bases c = Device.read bases d := by
  have hicons := hr.readItems_eq h "iconList" "icon"
    (f := fun x _ => Icon.read bases.device x) (g := fun y _ => Icon.read bases.device y)
    fun x _ y _ hxy => hr.readIcon_eq hxy bases.device
  have hservices := hr.readItems_eq h "serviceList" "service"
    (f := fun x _ => Service.read bases.services x) (g := fun y _ => Service.read bases.services y)
    fun x _ y _ hxy => hr.readService_eq hxy bases.services
  have hdevices := hr.readItems_eq h "deviceList" "device"
    (f := fun x _ => Device.read bases x) (g := fun y _ => Device.read bases y)
    fun x _hx y _ hxy => readDevice_eq hxy bases
  rw [Device.read, Device.read, hr.readInfo_eq h, hicons, hservices, hdevices]
termination_by c.size
decreasing_by exact _hx

theorem readVersion_eq : SpecVersion.read c = SpecVersion.read d := by
  have hpart : ∀ name, SpecVersion.part? c name = SpecVersion.part? d name := by
    intro name
    rw [SpecVersion.part?, SpecVersion.part?, hr.value h]
  rw [SpecVersion.read, SpecVersion.read, hpart, hpart]

theorem declaredBase?_eq [InternationalNames] : Description.declaredBase? c = Description.declaredBase? d := by
  rw [Description.declaredBase?, Description.declaredBase?, hr.optionalText_eq h]

theorem readDescription_eq [InternationalNames] (location : Url) :
    Description.read location c = Description.read location d := by
  rw [Description.read, Description.read]
  obtain ⟨e, hc, hd⟩ | ⟨x, y, hc, hd, hxy⟩ := hr.pointer h (SchemaPath.first "root")
  · rw [hc, hd]
  · rw [hc, hd]
    simp only [Except.mapError, ok_bind]
    rw [hr.readVersion_eq hxy, hr.declaredBase?_eq hxy]
    obtain ⟨e, hx, hy⟩ | ⟨u, v, hx, hy, huv⟩ := hr.pointer hxy (SchemaPath.first "device")
    · rw [hx, hy]
    · rw [hx, hy]
      simp only [ok_bind, hr.readDevice_eq huv]

end PathAgreement
end DeviceDescription
