import DeviceDescription.HostAddress
import DeviceDescription.PathStep

/-! # Why a description is refused -/
namespace DeviceDescription

inductive FetchError where
  | http (reason : Text)
  | unsupportedScheme (scheme : Text)
  deriving DecidableEq, Repr

def FetchError.message : FetchError → Text
  | .http reason => "HTTP request failed: " ++ reason
  | .unsupportedScheme scheme => "Unsupported location scheme: " ++ scheme

inductive UnsupportedReason where
  | noRoot
  | noMajorVersion
  | version (major minor : Nat)
  deriving DecidableEq, Repr

def UnsupportedReason.message : UnsupportedReason → Text
  | .noRoot => "no 'upnp:root' element"
  | .noMajorVersion => "missing or invalid specVersion/major"
  | .version major minor =>
    "Unsupported device version (" ++ Numeral.write major ++ '.' :: Numeral.write minor ++ [')']

inductive DescriptionError where
  | malformedLocation (location : Text) (reason : UrlError)
  | unsupportedDevice (reason : UnsupportedReason)
  | schemaViolation (field : Text)
  | invalidUrl (url : Text)
  | invalidMaxAge (text : Text)
  | path (reason : PathError)
  | xml
  | fetch (reason : FetchError)
  deriving DecidableEq, Repr

/-- What is said about an error. The fault of a document that is no XML has no wording of its own. -/
def DescriptionError.message : DescriptionError → Text
  | .malformedLocation location reason =>
    "Malformed description location '" ++ location ++ "': " ++ reason.message
  | .unsupportedDevice reason => "Unsupported device: " ++ reason.message
  | .schemaViolation field => "Mandatory field " ++ field ++ " not provided, uncompliant UPnP device"
  | .invalidUrl url => "Invalid URL '" ++ url ++ "'"
  | .invalidMaxAge text => "Invalid max-age value '" ++ text ++ "'"
  | .path reason => "Description path error: " ++ reason.message
  | .xml => "XML parse error"
  | .fetch reason => "Failed to fetch description document: " ++ reason.message

end DeviceDescription
