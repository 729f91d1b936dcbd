import DeviceDescription.PlacedDevice
import DeviceDescription.RootDevice

/-! # Trees of which only a part may still be owned -/
namespace DeviceDescription

/-- What is owned of a tree: a device with all that is below it, and the root device until it is released.
Devices and services do not own what they lead up to. -/
structure OwnedTree where
  root : Option RootDevice
  current : PlacedDevice

namespace OwnedTree

def ofRoot (root : RootDevice) : OwnedTree := ⟨some root, .top root.device⟩

/-- The device that child indexes lead to from the current device. -/
def device? (t : OwnedTree) (path : List Nat) : Option PlacedDevice := t.current.descendant? path

/-- Keeps one device and releases the root device and all else. -/
def detach? (t : OwnedTree) (path : List Nat) : Option OwnedTree :=
  (t.device? path).map fun p => ⟨none, p.detach⟩

def detachAll? : OwnedTree → List (List Nat) → Option OwnedTree
  | t, [] => some t
  | t, path :: r => (t.detach? path).bind (·.detachAll? r)

/-- Replaces the root device after a change that leaves its devices alone. -/
def withRoot (t : OwnedTree) (root : RootDevice) : OwnedTree := { t with root := some root }

end OwnedTree
end DeviceDescription
