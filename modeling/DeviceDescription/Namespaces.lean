import DeviceDescription.Text

/-! # What the qualifiers of paths stand for -/
namespace DeviceDescription

/-- Bindings of qualifiers to namespaces. The first binding of a qualifier counts. -/
structure Namespaces where
  bindings : List (Text × Text)
  deriving DecidableEq, Repr

namespace Namespaces

def empty : Namespaces := ⟨[]⟩

def bind (ns : Namespaces) (qualifier uri : Text) : Namespaces := ⟨(qualifier, uri) :: ns.bindings⟩

def uri? (ns : Namespaces) (qualifier : Text) : Option Text := ns.bindings.lookup qualifier

def deviceQualifier : Text := "upnp"

def standardDeviceUri : Text := "urn:schemas-upnp-org:device-1-0"

/-- The names of the device schema, in a namespace of choice. -/
def ofDeviceUri (uri : Text) : Namespaces := empty.bind deviceQualifier uri

def standard : Namespaces := ofDeviceUri standardDeviceUri

end Namespaces
end DeviceDescription
