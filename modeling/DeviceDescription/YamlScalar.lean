import DeviceDescription.DoubleText
import DeviceDescription.PercentEncoding
import DeviceDescription.YamlValue

/-! # Values of YAML scalars -/
namespace DeviceDescription.YamlScalar

def isNull (t : Text) : Bool := t ∈ (["", "null", "Null", "NULL", "~"] : List Text)

def boolean? (t : Text) : Option Bool :=
  if t ∈ (["true", "True", "TRUE"] : List Text) then some true
  else if t ∈ (["false", "False", "FALSE"] : List Text) then some false
  else none

def digits? (radix : Nat) (t : Text) : Option Nat :=
  if t = [] then none
  else t.foldlM (fun n c => do
    let v ← PercentEncoding.hexValue? c
    if v < radix then some (radix * n + v) else none) 0

/-- Digits that begin with a zero are no number. -/
def hasLeadingZero (t : Text) : Bool :=
  let digits := match t with
    | '-' :: r | '+' :: r => r
    | r => r
  match digits with
  | '0' :: c :: r => (c :: r).all Char.isDigit
  | _ => false

/-- A whole number without its sign, in decimal or after `0x`, `0o` or `0b`. -/
def magnitude? : Text → Option Nat
  | '0' :: 'x' :: r => digits? 16 r
  | '0' :: 'o' :: r => digits? 8 r
  | '0' :: 'b' :: r => digits? 2 r
  | t => if hasLeadingZero t then none else digits? 10 t

def integer? : Text → Option Int
  | '+' :: r => (magnitude? r).map Int.ofNat
  | '-' :: r => (magnitude? r).map fun n => -n
  | r => (magnitude? r).map Int.ofNat

def float? (t : Text) : Option Text :=
  let unsigned := match t with
    | '+' :: r => r
    | r => r
  let dotInf : List Text := [".inf", ".Inf", ".INF"]
  if unsigned ∈ dotInf then some "inf"
  else if t ∈ dotInf.map ('-' :: ·) then some "-inf"
  else if t ∈ ([".nan", ".NaN", ".NAN"] : List Text) then some "NaN"
  else match t with
    | '+' :: '-' :: _ | '+' :: '+' :: _ => none
    | _ => DoubleText.read? t

/-- Whether a whole number has a value: numbers of up to 64 bits have one, and numbers beyond 128 bits are
no whole numbers. -/
inductive Width where
  | word
  | tooWide
  | beyond

def width (n : Int) : Width :=
  if -Int.pow 2 63 ≤ n ∧ n < Int.pow 2 64 then .word
  else if -Int.pow 2 127 ≤ n ∧ n < Int.pow 2 128 then .tooWide
  else .beyond

def ofFloatOrText (t : Text) : YamlValue :=
  if hasLeadingZero t then .string t else (float? t).elim (.string t) .float

def ofPlain? (t : Text) : Option YamlValue :=
  if isNull t then some .null
  else match boolean? t with
    | some b => some (.boolean b)
    | none => match integer? t with
      | none => some (ofFloatOrText t)
      | some n => match width n with
        | .word => some (.integer n)
        | .tooWide => none
        | .beyond => some (ofFloatOrText t)

def coreTag (name : Text) : Text := "tag:yaml.org,2002:" ++ name

/-- The value of a scalar with an optional tag of the core schema. -/
def ofScalar? (tag : Option Text) (isPlain : Bool) (t : Text) : Option YamlValue :=
  match tag with
  | none => if isPlain then ofPlain? t else some (.string t)
  | some tag =>
    if tag = coreTag "bool" then (boolean? t).map .boolean
    else if tag = coreTag "int" then do
      let n ← integer? t
      match width n with
      | .word => some (.integer n)
      | _ => none
    else if tag = coreTag "float" then (float? t).map .float
    else if tag = coreTag "null" then (if isNull t ∧ t ≠ [] then some .null else none)
    else some (.string t)

end DeviceDescription.YamlScalar
