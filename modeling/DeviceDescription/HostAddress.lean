import DeviceDescription.Numeral
import DeviceDescription.PercentEncoding

/-! # Hosts: names, IPv4 addresses and IPv6 addresses -/
namespace DeviceDescription

inductive UrlError where
  | relativeWithoutBase
  | emptyHost
  | invalidPort
  | invalidIpv4
  | invalidIpv6
  | invalidHostCharacter
  | invalidDomainName
  deriving DecidableEq, Repr

def UrlError.message : UrlError → Text
  | .relativeWithoutBase => "relative URL without a base"
  | .emptyHost => "empty host"
  | .invalidPort => "invalid port number"
  | .invalidIpv4 => "invalid IPv4 address"
  | .invalidIpv6 => "invalid IPv6 address"
  | .invalidHostCharacter => "invalid domain character"
  | .invalidDomainName => "invalid international domain name"

/-- The eight pieces of an IPv6 address. -/
structure Ipv6 where
  pieces : List UInt16
  length_pieces : pieces.length = 8
  deriving DecidableEq, Repr

inductive Host where
  | name (text : Text)
  | ipv4 (a b c d : UInt8)
  | ipv6 (address : Ipv6)
  deriving DecidableEq, Repr

namespace Host

def radixDigits (radix : Nat) : Text → Option Nat
  | t => t.foldl (fun n c => do
      let v ← PercentEncoding.hexValue? c
      if v < radix then some (radix * (← n) + v) else none) (some 0)

/-- A part of an IPv4 address: hexadecimal after `0x`, octal after `0`, else decimal. -/
def ipv4Part? : Text → Option Nat
  | [] => none
  | ['0'] => some 0
  | '0' :: 'x' :: r => radixDigits 16 r
  | '0' :: 'X' :: r => radixDigits 16 r
  | '0' :: r => radixDigits 8 r
  | t => radixDigits 10 t

/-- The parts of a dotted text; a final dot closes the last part. -/
def dotParts (t : Text) : List Text :=
  let parts := t.splitOn '.'
  if parts.getLast? = some [] then parts.dropLast else parts

/-- A name whose last part is a number can only be an IPv4 address. -/
def endsInNumber (t : Text) : Bool :=
  match (dotParts t).getLast? with
  | none => false
  | some last => (!last.isEmpty && last.all Char.isDigit) || (ipv4Part? last).isSome

/-- The last `k` bytes of a number, the most significant first. -/
def bytes : Nat → Nat → List Nat
  | 0, _ => []
  | k + 1, n => bytes k (n / 256) ++ [n % 256]

/-- Each part but the last is one byte; the last one fills the remaining bytes. -/
def ipv4Bytes? (numbers : List Nat) : Option (List Nat) :=
  match numbers.getLast? with
  | none => none
  | some last =>
    let first := numbers.dropLast
    if first.length < 4 ∧ first.all (· < 256) ∧ last < Nat.pow 256 (4 - first.length) then
      some (first ++ bytes (4 - first.length) last)
    else none

def ipv4? (t : Text) : Option Host := do
  let numbers ← (dotParts t).mapM ipv4Part?
  match ← ipv4Bytes? numbers with
  | [a, b, c, d] => some (.ipv4 (.ofNat a) (.ofNat b) (.ofNat c) (.ofNat d))
  | _ => none

def ipv4Text (a b c d : UInt8) : Text :=
  Numeral.write a.toNat ++ '.' :: Numeral.write b.toNat ++ '.' :: Numeral.write c.toNat ++
    '.' :: Numeral.write d.toNat

def hexPiece? (t : Text) : Option UInt16 :=
  if t.length ≤ 4 ∧ t ≠ [] then (radixDigits 16 t).map .ofNat else none

def byte? (t : Text) : Option Nat :=
  if t.all Char.isDigit ∧ t ≠ [] ∧ (t.head? = some '0' → t = ['0']) then Numeral.read? 255 t else none

/-- Four decimal bytes stand for the last two pieces. -/
def dottedPieces? (t : Text) : Option (List UInt16) := do
  match ← (t.splitOn '.').mapM byte? with
  | [a, b, c, d] => some [.ofNat (256 * a + b), .ofNat (256 * c + d)]
  | _ => none

/-- The pieces on one side of `::`; only the last piece of an address may be dotted. -/
def pieces? (mayEndDotted : Bool) (t : Text) : Option (List UInt16) :=
  if t = [] then some []
  else go (t.splitOn ':')
where
  go : List Text → Option (List UInt16)
    | [] => some []
    | [last] => match hexPiece? last with
      | some p => some [p]
      | none => if mayEndDotted then dottedPieces? last else none
    | t :: rest => do some ((← hexPiece? t) :: (← go rest))

def cutColons : Text → Option (Text × Text)
  | ':' :: ':' :: r => some ([], r)
  | [] => none
  | c :: r => (cutColons r).map fun (a, b) => (c :: a, b)

theorem length_filled {left right : List UInt16} (h : left.length + right.length < 8) :
    (left ++ List.replicate (8 - (left.length + right.length)) 0 ++ right).length = 8 := by
  simp only [List.length_append, List.length_replicate]
  omega

/-- An address of eight pieces; `::` stands for one or more zero pieces. -/
def ipv6? (t : Text) : Option Ipv6 :=
  match cutColons t with
  | none => do
    if t = [] then none
    let pieces ← pieces? true t
    if h : pieces.length = 8 then some ⟨pieces, h⟩ else none
  | some (l, r) => do
    let left ← pieces? false l
    let right ← pieces? true r
    if h : left.length + right.length < 8 then
      some ⟨left ++ List.replicate (8 - (left.length + right.length)) 0 ++ right, length_filled h⟩
    else none

/-- Start and length of the first longest run of zeros. -/
def longestZeros : List UInt16 → Nat × Nat
  | [] => (0, 0)
  | p :: r =>
    let here := ((p :: r).takeWhile (· = 0)).length
    let (start, length) := longestZeros r
    if length ≤ here then (0, here) else (start + 1, length)

def pieceText (p : UInt16) : Text := Nat.toDigits 16 p.toNat

def joinColons (pieces : List UInt16) : Text := List.intercalate [':'] (pieces.map pieceText)

/-- The first longest run of two or more zero pieces is written `::`. -/
def ipv6Text (address : Ipv6) : Text :=
  let (start, length) := longestZeros address.pieces
  if length < 2 then joinColons address.pieces
  else joinColons (address.pieces.take start) ++
    ':' :: ':' :: joinColons (address.pieces.drop (start + length))

def bracketed (t : Text) : Except UrlError Host :=
  match t.getLast? with
  | some ']' => match ipv6? t.dropLast with
    | some address => .ok (.ipv6 address)
    | none => .error .invalidIpv6
  | _ => .error .invalidIpv6

def isForbiddenInDomain (c : Char) : Bool :=
  c ≤ ' ' || '~' < c || c = '#' || c = '%' || c = '/' || c = ':' || c = '<' ||
  c = '>' || c = '?' || c = '@' || c = '[' || c = '\\' || c = ']' || c = '^' || c = '|'

/-- The characters that no host of a scheme without a domain rule holds. -/
def isForbiddenInHost (c : Char) : Bool :=
  c = '\x00' || c = '\t' || c = '\n' || c = '\r' || c = ' ' || c = '#' || c = '/' || c = ':' ||
  c = '<' || c = '>' || c = '?' || c = '@' || c = '[' || c = '\\' || c = ']' || c = '^' || c = '|'

/-- A domain in ASCII none of whose labels is the written form of an international one. -/
def isPlainDomain (t : Text) : Bool :=
  let domain := t.map Char.toLower
  domain.all (·.toNat < 128) && (domain.splitOn '.').all fun label => !"xn--".toList.isPrefixOf label

end Host

/-- A rule that writes international domain names in ASCII. Names are normalized and checked by tables of Unicode, which
are no part of this library: whatever holds of descriptions holds under each such rule. -/
class InternationalNames where
  /-- The form in ASCII of a domain that is not plain, or `none` if the domain is not valid. -/
  toAscii? : Text → Option Text
  /-- A form in ASCII can be the name of a host. -/
  permitted : ∀ {t domain : Text}, toAscii? t = some domain → ∀ c ∈ domain, Host.isForbiddenInDomain c = false
  lowerCase : ∀ {t domain : Text}, toAscii? t = some domain → domain.map Char.toLower = domain
  /-- A form in ASCII is the form of itself. -/
  fixed : ∀ {t domain : Text}, toAscii? t = some domain → Host.isPlainDomain domain = false →
    toAscii? domain = some domain

namespace InternationalNames

/-- Under this rule no domain is valid unless it is plain. -/
scoped instance plainOnly : InternationalNames where
  toAscii? _ := none
  permitted := nofun
  lowerCase := nofun
  fixed := nofun

end InternationalNames

namespace Host

variable [InternationalNames]

/-- A plain domain is written in lower case. -/
def asciiDomain? (t : Text) : Option Text :=
  if isPlainDomain t then
    let domain := t.map Char.toLower
    if domain.any isForbiddenInDomain then none else some domain
  else InternationalNames.toAscii? t

/-- The host of a special scheme: an address, or a domain name in ASCII. -/
def ofDomain (t : Text) : Except UrlError Host :=
  match t with
  | '[' :: r => bracketed r
  | _ => match (PercentEncoding.decode? t).bind asciiDomain? with
    | none => .error .invalidDomainName
    | some domain =>
      if domain = [] then .error .emptyHost
      else if endsInNumber domain then
        match ipv4? domain with
        | some host => .ok host
        | none => .error .invalidIpv4
      else .ok (.name domain)

/-- The host of any other scheme, which may be missing. -/
def ofUninterpreted (t : Text) : Except UrlError (Option Host) :=
  match t with
  | [] => .ok none
  | '[' :: r => (bracketed r).map some
  | _ =>
    if t.any isForbiddenInHost then .error .invalidHostCharacter
    else .ok (some (.name (PercentEncoding.encode PercentEncoding.inControlSet t)))

def text : Host → Text
  | .name t => t
  | .ipv4 a b c d => ipv4Text a b c d
  | .ipv6 address => '[' :: ipv6Text address ++ [']']

end Host
end DeviceDescription
