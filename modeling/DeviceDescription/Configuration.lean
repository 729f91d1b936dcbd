import DeviceDescription.Lease
import DeviceDescription.Namespaces

/-! # Configurations -/
namespace DeviceDescription

structure Configuration where
  deviceNamespace : Text
  fetchTimeoutSecs : Nat
  defaultMaxAgeSecs : Nat
  deriving DecidableEq, Repr

namespace Configuration

def standard : Configuration := ⟨Namespaces.standardDeviceUri, 30, 1800⟩

/-- The meaning of the qualifiers that paths through descriptions use. -/
def namespaces (c : Configuration) : Namespaces := .ofDeviceUri c.deviceNamespace

/-- The lease of a description that came without one. -/
def defaultMaxAge (c : Configuration) : Duration := .ofSecs c.defaultMaxAgeSecs

end Configuration
end DeviceDescription
