import DeviceDescription.Device

/-! # Devices with the way up from them -/
namespace DeviceDescription

/-- A device at its place. A device that was taken out of its tree still counts as embedded, but there is
no way up from it any more. -/
inductive PlacedDevice where
  | top (device : Device)
  | embedded (parent : PlacedDevice) (device : Device)
  | detached (device : Device)

namespace PlacedDevice

def device : PlacedDevice → Device
  | .top d => d
  | .embedded _ d => d
  | .detached d => d

def parent? : PlacedDevice → Option PlacedDevice
  | .embedded p _ => some p
  | _ => none

def isRoot : PlacedDevice → Bool
  | .top _ => true
  | _ => false

def children (p : PlacedDevice) : List PlacedDevice := p.device.children.map (.embedded p)

def descendant? : PlacedDevice → List Nat → Option PlacedDevice
  | p, [] => some p
  | p, i :: r => p.children[i]?.bind fun child => child.descendant? r

/-- Gives up everything above. -/
def detach : PlacedDevice → PlacedDevice
  | .top d => .top d
  | .embedded _ d => .detached d
  | .detached d => .detached d

@[simp] theorem device_detach (p : PlacedDevice) : p.detach.device = p.device := by cases p <;> rfl

@[simp] theorem isRoot_detach (p : PlacedDevice) : p.detach.isRoot = p.isRoot := by cases p <;> rfl

@[simp] theorem parent?_detach (p : PlacedDevice) : p.detach.parent? = none := by cases p <;> rfl

theorem descendant?_append (p : PlacedDevice) (a b : List Nat) :
    p.descendant? (a ++ b) = (p.descendant? a).bind (·.descendant? b) := by
  induction a generalizing p with
  | nil => rfl
  | cons i r ih => simp [descendant?, Option.bind_assoc, ih]

end PlacedDevice
end DeviceDescription
