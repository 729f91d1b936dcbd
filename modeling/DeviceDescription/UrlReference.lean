import DeviceDescription.DescriptionError
import DeviceDescription.Url

/-! # References to URLs and the bases they are resolved against -/
namespace DeviceDescription

variable [InternationalNames]

namespace Url

def host? (u : Url) : Option Host := u.authority.bind Authority.host

/-- The port in use: the written one, else the default port of the scheme. -/
def effectivePort (u : Url) : Option Nat := (u.authority.bind Authority.port).or (defaultPort u.scheme)

/-- Scheme, host and port, the port left out only if none is known. -/
def origin (u : Url) : Except DescriptionError Text :=
  match u.host? with
  | none => .error (.invalidUrl u.text)
  | some host => .ok (u.scheme ++ "://" ++ host.text ++
      u.effectivePort.elim [] fun p => ':' :: Numeral.write p)

def ofComposed (t : Text) : Except DescriptionError Url :=
  match read t with
  | .ok u => .ok u
  | .error _ => .error (.invalidUrl t)

def directoryPath (u : Url) : Text :=
  match Text.cutLast '/' u.path.text with
  | none => []
  | some (directory, _) => directory

def directory (u : Url) : Except DescriptionError Url := do
  let origin ← u.origin
  ofComposed (origin ++ u.directoryPath)

end Url

namespace UrlReference

/-- A reference that is a URL of its own. It needs a host: `localhost:80/x` is relative. -/
def absolute? (t : Text) : Option Url :=
  match Url.read t with
  | .ok u => if u.hasHost then some u else none
  | .error _ => none

/-- Devices also write backslashes. -/
def withSlashes (t : Text) : Text := t.map fun c => if c = '\\' then '/' else c

def withFinalSlash (t : Text) : Text := if t.getLast? = some '/' then t else t ++ ['/']

/-- A relative reference extends the origin of the base if it begins with a slash, else the whole base. -/
def compose (base : Url) (reference : Text) : Except DescriptionError Text :=
  match reference with
  | '/' :: _ => base.origin.map (· ++ reference)
  | _ => .ok (withFinalSlash base.text ++ reference)

def resolveRelative (base : Option Url) (reference : Text) : Except DescriptionError Url :=
  match base with
  | none => .error (.invalidUrl reference)
  | some base => do Url.ofComposed (← compose base (withSlashes reference))

/-- The URL that a reference means. A missing or blank reference means none. -/
def resolve (base : Option Url) (raw : Option Text) : Except DescriptionError (Option Url) :=
  let reference := Text.trim (raw.getD [])
  if reference = [] then .ok none
  else match absolute? reference with
    | some u => .ok (some u)
    | none => (resolveRelative base reference).map some

end UrlReference
end DeviceDescription
