import DeviceDescription.Configuration
import DeviceDescription.Description
import DeviceDescription.DocumentText
import DeviceDescription.XmlDocument

/-! # Root devices: descriptions with what discovery knows of them -/
namespace DeviceDescription

variable [InternationalNames]

/-- What is known of a device when its description arrives. -/
structure Announcement where
  location : Text
  maxAge : Option Text := none
  vendorFirmware : Option Text := none
  discoveryUsn : Option Text := none
  discoveryUdn : Option Text := none
  configuration : Configuration := .standard
  documentText : Option Text := none

structure RootDevice where
  description : Description
  location : Url
  lease : Lease
  vendorFirmware : Option Text
  discoveryUsn : Option Text
  discoveryUdn : Option Text
  document : DocumentText

namespace Announcement

/-- A location is the base of relative references, so it needs a host. -/
def readLocation (a : Announcement) : Except DescriptionError Url :=
  match Url.read a.location with
  | .error e => .error (.malformedLocation a.location e)
  | .ok u => if u.hasHost then .ok u else .error (.malformedLocation a.location .emptyHost)

def readMaxAge (a : Announcement) : Except DescriptionError Duration :=
  match a.maxAge with
  | none => .ok a.configuration.defaultMaxAge
  | some text => Lease.readMaxAge text

/-- The text of the document is known if it is announced. -/
def withText (a : Announcement) (xml : Text) : Announcement :=
  { a with documentText := a.documentText.or (some xml) }

end Announcement

namespace RootDevice

def ofContext (a : Announcement) (now : Instant) (document : DocumentContext) :
    Except DescriptionError RootDevice := do
  let location ← a.readLocation
  let duration ← a.readMaxAge
  let description ← Description.read location document
  .ok {
    description, location
    lease := ⟨duration, now⟩
    vendorFirmware := a.vendorFirmware
    discoveryUsn := a.discoveryUsn
    discoveryUdn := a.discoveryUdn
    document := ⟨a.documentText, 0⟩ }

/-- Reads the description in an XML text, which becomes the text of the document unless that is known. -/
def ofXml (a : Announcement) (now : Instant) (xml : Text) : Except DescriptionError RootDevice :=
  match XmlDocument.readText? xml with
  | none => .error .xml
  | some root => ofContext (a.withText xml) now (.ofRoot root a.configuration.namespaces)

def device (r : RootDevice) : Device := r.description.device

def summary (r : RootDevice) : Text :=
  "RootDevice(" ++ r.device.info.friendlyName ++ " @ " ++ r.location.text ++ ")"

def reset (r : RootDevice) (duration : Duration) (now : Instant) : RootDevice :=
  { r with lease := r.lease.reset duration now }

def resetMaxAge (r : RootDevice) (text : Text) (now : Instant) : Except DescriptionError RootDevice :=
  (r.lease.resetMaxAge text now).map fun lease => { r with lease }

def readText (r : RootDevice) (fetcher : Fetcher) : Except DescriptionError Text × RootDevice :=
  let (result, document) := r.document.read fetcher
  (result, { r with document })

end RootDevice
end DeviceDescription
