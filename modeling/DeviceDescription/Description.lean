import DeviceDescription.Device

/-! # Descriptions: device trees and what holds for them as a whole -/
namespace DeviceDescription

variable [InternationalNames]

structure SpecVersion where
  major : Nat
  minor : Nat
  deriving DecidableEq, Repr

namespace SpecVersion

def text (v : SpecVersion) : Text := Numeral.write v.major ++ '.' :: Numeral.write v.minor

def part? (c : DocumentContext) (name : Text) : Option Nat :=
  match c.value (SchemaPath.under (SchemaPath.first "specVersion") (SchemaPath.first name)) with
  | .ok t => Numeral.read? Numeral.maxWord32 t
  | .error _ => none

/-- Reads the version below a root element. Only the first major version is supported, and a minor version
that cannot be read is zero. -/
def read (c : DocumentContext) : Except DescriptionError SpecVersion :=
  match part? c "major" with
  | none => .error (.unsupportedDevice .noMajorVersion)
  | some major =>
    let minor := (part? c "minor").getD 0
    if major = 1 then .ok ⟨major, minor⟩ else .error (.unsupportedDevice (.version major minor))

end SpecVersion

/-- The URLs that references are resolved against. They are the same at every depth of a tree. -/
structure Bases where
  /-- For devices and icons. -/
  device : Url
  /-- For services. -/
  services : Url
  deriving DecidableEq, Repr

namespace Device

def read (bases : Bases) (c : DocumentContext) : Except DescriptionError Device := do
  let info ← DeviceInfo.read bases.device c
  let icons ← SchemaPath.readItems c "iconList" "icon" fun d _ => Icon.read bases.device d
  let services ← SchemaPath.readItems c "serviceList" "service" fun d _ => Service.read bases.services d
  let children ← SchemaPath.readItems c "deviceList" "device" fun d _h => read bases d
  .ok ⟨info, icons, services, children⟩
termination_by c.size

end Device

structure Description where
  version : SpecVersion
  declaredBase : Option Url
  base : Url
  device : Device

namespace Description

/-- A declared base that is no URL counts as not declared. -/
def declaredBase? (c : DocumentContext) : Option Url :=
  match optionalText c (SchemaPath.first "URLBase") with
  | none => none
  | some t => match Url.read t with
    | .ok u => some u
    | .error _ => none

/-- Without a declared base, devices are resolved next to the document and services against it. -/
def basesFor (declared : Option Url) (location : Url) : Except DescriptionError Bases :=
  match declared with
  | some base => .ok ⟨base, base⟩
  | none => do .ok ⟨← location.directory, location⟩

/-- Reads the description in a document that stands at `location`. -/
def read (location : Url) (document : DocumentContext) : Except DescriptionError Description := do
  let root ← (document.pointer (SchemaPath.first "root")).mapError fun _ => .unsupportedDevice .noRoot
  let version ← SpecVersion.read root
  let declared := declaredBase? root
  let bases ← basesFor declared location
  let top ← (root.pointer (SchemaPath.first "device")).mapError fun _ => .schemaViolation "device"
  let device ← Device.read bases top
  .ok ⟨version, declared, bases.device, device⟩

end Description
end DeviceDescription
