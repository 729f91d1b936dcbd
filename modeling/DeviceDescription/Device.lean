import DeviceDescription.Icon
import DeviceDescription.Service

/-! # Devices: trees, their traversal and searches -/
namespace DeviceDescription

structure DeviceInfo where
  deviceType : Text
  friendlyName : Text
  modelName : Text
  udn : Text
  manufacturer : Option Text
  manufacturerUrl : Option Url
  presentationUrl : Option Url
  modelDescription : Option Text
  modelNumber : Option Text
  modelUrl : Option Text
  serialNumber : Option Text
  upc : Option Nat
  deriving DecidableEq, Repr

/-- A device owns its icons, its services and the devices embedded in it. -/
structure Device where
  info : DeviceInfo
  icons : List Icon
  services : List Service
  children : List Device

namespace DeviceInfo

/-- The unique name of a device in its role. -/
def usn (i : DeviceInfo) : Text := i.udn ++ "::" ++ i.deviceType

def summary (i : DeviceInfo) : Text := "Device(" ++ i.friendlyName ++ " " ++ i.usn ++ ")"

def blank : DeviceInfo := ⟨[], [], [], [], none, none, none, none, none, none, none, none⟩

/-- The fields of a device. The model URL is kept as it is written. -/
def fields : List (Field DeviceInfo) := [
  .mandatory "deviceType" .text fun v i => { i with deviceType := v.toText },
  .mandatory "friendlyName" .text fun v i => { i with friendlyName := v.toText },
  .mandatory "modelName" .text fun v i => { i with modelName := v.toText },
  .mandatory "UDN" .text fun v i => { i with udn := v.toText },
  .optional "manufacturer" .text fun v i => { i with manufacturer := some v.toText },
  .optional "manufacturerURL" .url fun v i => { i with manufacturerUrl := v.url? },
  .optional "presentationURL" .url fun v i => { i with presentationUrl := v.url? },
  .optional "modelDescription" .text fun v i => { i with modelDescription := some v.toText },
  .optional "modelNumber" .text fun v i => { i with modelNumber := some v.toText },
  .optional "modelURL" .text fun v i => { i with modelUrl := some v.toText },
  .optional "serialNumber" .text fun v i => { i with serialNumber := some v.toText },
  .optional "UPC" .integer fun v i => { i with upc := v.integer? }]

def read [InternationalNames] (base : Url) (c : DocumentContext) : Except DescriptionError DeviceInfo :=
  (populate c (some base) fields blank).toExcept

end DeviceInfo

namespace Device

mutual

/-- The device before all devices embedded in it. -/
def preorder : Device → List Device
  | ⟨info, icons, services, children⟩ => ⟨info, icons, services, children⟩ :: preorders children

def preorders : List Device → List Device
  | [] => []
  | d :: r => preorder d ++ preorders r

end

theorem preorder_eq (d : Device) : d.preorder = d :: preorders d.children := by
  cases d
  simp [preorder]

@[simp] theorem preorders_append (a b : List Device) : preorders (a ++ b) = preorders a ++ preorders b := by
  induction a with
  | nil => rfl
  | cons d r ih => simp [preorders, ih]

/-- One step of a traversal takes the last device of a stack and puts its children in its place, the first one last. -/
def next (stack : List Device) : Option (Device × List Device) :=
  stack.getLast?.map fun d => (d, stack.dropLast ++ d.children.reverse)

/-- The devices that a stack still leads to. -/
def pending (stack : List Device) : List Device := preorders stack.reverse

@[simp] theorem next_eq_none_iff {stack : List Device} : next stack = none ↔ stack = [] := by simp [next]

theorem pending_of_next {stack rest : List Device} {d : Device} (h : next stack = some (d, rest)) :
    pending stack = d :: pending rest := by
  obtain ⟨d', hlast, h⟩ := Option.map_eq_some_iff.mp h
  obtain ⟨rfl, rfl⟩ := Prod.mk.inj h
  obtain ⟨before, rfl⟩ := List.getLast?_eq_some_iff.mp hlast
  simp [pending, preorders, preorders_append, preorder_eq d']

def visit (stack : List Device) : List Device :=
  match _h : next stack with
  | none => []
  | some (d, rest) => d :: visit rest
termination_by (pending stack).length
decreasing_by simp [pending_of_next _h]

def devices (d : Device) : List Device := visit [d]

def findByUdn (d : Device) (udn : Text) : Option Device := d.devices.find? (·.info.udn = udn)

def findByType (d : Device) (deviceType : Text) : Option Device :=
  d.devices.find? (·.info.deviceType = deviceType)

def findService (d : Device) (serviceType : Text) : Option Service :=
  (d.devices.flatMap Device.services).find? (·.serviceType = serviceType)

end Device
end DeviceDescription
