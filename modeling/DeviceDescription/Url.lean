import DeviceDescription.HostAddress
import DeviceDescription.UrlPath

/-! # URLs: components, written form and reader -/
namespace DeviceDescription

open PercentEncoding

variable [InternationalNames]

/-- What stands between `//` and the path. An empty user name or password is as good as none. -/
structure Authority where
  username : Text
  password : Text
  host : Option Host
  port : Option Nat
  deriving DecidableEq, Repr

structure Url where
  scheme : Text
  authority : Option Authority
  path : UrlPath
  query : Option Text
  fragment : Option Text
  deriving DecidableEq, Repr

/-- How the hierarchical part of a scheme is read. -/
inductive SchemeKind where
  | file
  | special
  | other
  deriving DecidableEq, Repr

def SchemeKind.ofScheme (scheme : Text) : SchemeKind :=
  if scheme = "file" then .file
  else if scheme ∈ (["http", "https", "ws", "wss", "ftp"] : List Text) then .special
  else .other

def SchemeKind.isSpecial : SchemeKind → Bool
  | .other => false
  | _ => true

def defaultPort (scheme : Text) : Option Nat :=
  if scheme ∈ (["http", "ws"] : List Text) then some 80
  else if scheme ∈ (["https", "wss"] : List Text) then some 443
  else if scheme = "ftp" then some 21
  else none

namespace Authority

def credentials (a : Authority) : Text :=
  if a.username = [] ∧ a.password = [] then []
  else a.username ++ (if a.password = [] then [] else ':' :: a.password) ++ ['@']

def hostText (a : Authority) : Text := a.host.elim [] Host.text

def portText (a : Authority) : Text := a.port.elim [] fun p => ':' :: Numeral.write p

def text (a : Authority) : Text := a.credentials ++ a.hostText ++ a.portText

/-- User name, password and what follows the last at sign. -/
def splitCredentials (t : Text) : Text × Text × Text :=
  match Text.cutLast '@' t with
  | none => ([], [], t)
  | some (user, rest) => match Text.cut ':' user with
    | none => (user, [], rest)
    | some (name, password) => (name, password, rest)

/-- The host ends at the first colon outside brackets. -/
def spanHost (inBrackets : Bool) : Text → Text × Text
  | [] => ([], [])
  | c :: r =>
    if c = ':' ∧ inBrackets = false then ([], c :: r)
    else
      let (host, rest) := spanHost (if c = '[' then true else if c = ']' then false else inBrackets) r
      (c :: host, rest)

/-- The port after its colon. No digits mean no port, and so does the default port of the scheme. What
follows the digits belongs to the path if it starts with a backslash. -/
def readPort (scheme : Text) (t : Text) : Except UrlError (Option Nat × Text) :=
  let (digits, rest) := t.span Char.isDigit
  let port := Nat.ofDigitChars 10 digits 0
  if 65535 < port then .error .invalidPort
  else match rest with
    | [] | '\\' :: _ => .ok (if digits = [] ∨ defaultPort scheme = some port then none else some port, rest)
    | _ => .error .invalidPort

def readHost (special : Bool) (t : Text) : Except UrlError (Option Host) :=
  if special then
    if t = [] then .error .emptyHost else (Host.ofDomain t).map some
  else Host.ofUninterpreted t

/-- Reads an authority and gives back what belongs to the path. `isLast` tells that nothing follows in the URL. -/
def read (scheme : Text) (isLast : Bool) (t : Text) : Except UrlError (Authority × Text) := do
  let (user, password, rest) := splitCredentials t
  if t = "@" ∧ isLast = false then .error .emptyHost
  let username := encode inUserinfoSet user
  let password := encode inUserinfoSet password
  let (hostText, afterHost) := spanHost false rest
  let host ← readHost (SchemeKind.ofScheme scheme).isSpecial hostText
  match afterHost with
  | [] =>
    if host = none ∧ (username ≠ [] ∨ password ≠ []) then .error .emptyHost
    else .ok (⟨username, password, host, none⟩, [])
  | _ :: portText =>
    if host = none then .error .emptyHost
    let (port, rest) ← readPort scheme portText
    .ok (⟨username, password, host, port⟩, rest)

end Authority

namespace Url

def hasHost (u : Url) : Bool := (u.authority.bind Authority.host).isSome

/-- A rooted path that begins like an authority is kept apart from the scheme by a dot segment. -/
def pathGuard : Option Authority → UrlPath → Text
  | none, .rooted ([] :: _ :: _) => "/."
  | _, _ => []

def text (u : Url) : Text :=
  u.scheme ++ ':' :: (u.authority.elim [] fun a => '/' :: '/' :: a.text) ++
    pathGuard u.authority u.path ++ u.path.text ++
    u.query.elim [] ('?' :: ·) ++ u.fragment.elim [] ('#' :: ·)

def isSchemeChar (c : Char) : Bool := c.isAlphanum || c = '+' || c = '-' || c = '.'

def isScheme : Text → Bool
  | [] => false
  | c :: r => c.isAlpha && r.all isSchemeChar

def isControlOrSpace (c : Char) : Bool := c ≤ ' '

def isTabOrNewline (c : Char) : Bool := c = '\t' || c = '\n' || c = '\r'

/-- Outer control characters and spaces, and all tabs and line ends, mean nothing. -/
def cleaned (t : Text) : Text :=
  (Text.dropEndWhile isControlOrSpace (t.dropWhile isControlOrSpace)).filter (!isTabOrNewline ·)

/-- What stands before the first `d`, and what follows it if it occurs. -/
def splitTail (d : Char) (t : Text) : Text × Option Text :=
  match Text.cut d t with
  | none => (t, none)
  | some (a, b) => (a, some b)

def skipSlashes (t : Text) : Text := t.dropWhile (UrlPath.isSeparator true)

/-- Authority and path of a text that follows the two slashes. -/
def afterSlashes (scheme : Text) (isLast : Bool) (t : Text) : Except UrlError (Option Authority × UrlPath) := do
  let special := (SchemeKind.ofScheme scheme).isSpecial
  let (authority, path) := t.span (!UrlPath.isSeparator special ·)
  let (authority, rest) ← Authority.read scheme (isLast && path.isEmpty) authority
  .ok (some authority, UrlPath.afterAuthority special (rest ++ path))

/-- The authority of a file URL is a host alone, and `localhost` is no host. -/
def fileAuthority (host : Option Host) : Option Authority := some ⟨[], [], host, none⟩

def fileHost (t : Text) : Except UrlError (Option Host) :=
  if t = [] then .ok none
  else (Host.ofDomain t).map fun host => if host = .name "localhost" then none else some host

def fileHierarchy (t : Text) : Except UrlError (Option Authority × UrlPath) :=
  let (slashes, rest) := (t.takeWhile (UrlPath.isSeparator true), t.drop 2)
  if 2 ≤ slashes.length then do
    let (hostText, path) := rest.span (!UrlPath.isSeparator true ·)
    let (host, path) ← if UrlPath.isDriveLetter hostText then .ok (none, rest)
      else (fileHost hostText).map (·, path.drop 1)
    let (segments, drive) := UrlPath.readFileSegments path
    .ok (fileAuthority (if drive then none else host), .rooted segments)
  else .ok (fileAuthority none, .rooted (UrlPath.readFileSegments (t.drop slashes.length)).1)

def hierarchy (scheme : Text) (isLast : Bool) (t : Text) : Except UrlError (Option Authority × UrlPath) :=
  match SchemeKind.ofScheme scheme with
  | .file => fileHierarchy t
  | .special => afterSlashes scheme isLast (skipSlashes t)
  | .other => match t with
    | '/' :: '/' :: r => afterSlashes scheme isLast r
    | '/' :: r => .ok (none, .rooted (UrlPath.readSegments false r))
    | _ => .ok (none, .rootless (encode inControlSet t))

def querySet (scheme : Text) : Char → Bool :=
  if (SchemeKind.ofScheme scheme).isSpecial then inSpecialQuerySet else inQuerySet

def read (raw : Text) : Except UrlError Url := do
  match Text.cut ':' (cleaned raw) with
  | none => .error .relativeWithoutBase
  | some (scheme, rest) =>
    if !isScheme scheme then .error .relativeWithoutBase
    let scheme := scheme.map Char.toLower
    let (rest, fragment) := splitTail '#' rest
    let (rest, query) := splitTail '?' rest
    let (authority, path) ← hierarchy scheme (query.isNone && fragment.isNone) rest
    .ok ⟨scheme, authority, path, query.map (encode (querySet scheme)), fragment.map (encode inFragmentSet)⟩

end Url
end DeviceDescription
