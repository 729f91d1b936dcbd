import DeviceDescription.Numeral

/-! # Decimal texts of double-precision numbers -/
namespace DeviceDescription.DoubleText

/-- `num / den` times a power of two, as numerator and denominator. -/
def scale (num den : Nat) (power : Int) : Nat × Nat :=
  if 0 ≤ power then (num * Nat.pow 2 power.toNat, den) else (num, den * Nat.pow 2 (-power).toNat)

def roundHalfEven (num den : Nat) : Nat :=
  let q := num / den
  let twice := 2 * (num % den)
  if den < twice ∨ (twice = den ∧ q % 2 = 1) then q + 1 else q

def minExponent : Int := -1074

/-- Significand and exponent of the double nearest to a positive fraction, unless it is too large. -/
def nearest? (num den : Nat) : Option (Nat × Int) :=
  let guess := max ((Nat.log2 num : Int) - Nat.log2 den - 52) minExponent
  let (n, d) := scale num den (-guess)
  let exponent := if n / d < Nat.pow 2 52 ∧ minExponent < guess then guess - 1 else guess
  let (n, d) := scale num den (-exponent)
  let significand := roundHalfEven n d
  let (significand, exponent) :=
    if significand = Nat.pow 2 53 then (Nat.pow 2 52, exponent + 1) else (significand, exponent)
  if 971 < exponent then none else some (significand, exponent)

/-- The fewest digits on a power of ten that the double is still nearest to, tried from the power
`10 ^ power` downwards. -/
def shortest (significand : Nat) (exponent : Int) : Nat → Int → Nat × Int
  | 0, power => (0, power)
  | steps + 1, power =>
    let below := if significand = Nat.pow 2 52 ∧ minExponent < exponent then 1 else 2
    let (unit, den) := scale 1 1 (exponent - 2)
    let (grid, den) := if 0 ≤ power then (Nat.pow 10 power.toNat * den, den) else (den, den * Nat.pow 10 (-power).toNat)
    let unit := if 0 ≤ power then unit else unit * Nat.pow 10 (-power).toNat
    let (value, low, high) :=
      (4 * significand * unit, (4 * significand - below) * unit, (4 * significand + 2) * unit)
    let isEven := significand % 2 = 0
    let isInside (x : Nat) : Bool := den ≠ 0 && (if isEven then low ≤ x && x ≤ high else low < x && x < high)
    let floor := value / grid
    let isFloorInside := 0 < floor && isInside (floor * grid)
    let isCeilInside := isInside ((floor + 1) * grid)
    if isFloorInside && (!isCeilInside || 2 * (value - floor * grid) ≤ grid) then (floor, power)
    else if isCeilInside then (floor + 1, power)
    else shortest significand exponent steps (power - 1)

def zeros (n : Nat) : Text := List.replicate n '0'

def positional (digits : Nat) (power : Int) : Text :=
  let d := Numeral.write digits
  if 0 ≤ power then d ++ zeros power.toNat ++ ".0"
  else
    let places := (-power).toNat
    let d := zeros (places + 1 - d.length) ++ d
    d.take (d.length - places) ++ '.' :: d.drop (d.length - places)

/-- The text of the double nearest to `mantissa * 10 ^ power`, unless it is too large. -/
def ofDecimal? (mantissa : Nat) (power : Int) : Option Text :=
  let magnitude := (Numeral.write mantissa).length + power
  if mantissa = 0 ∨ magnitude < -330 then some "0.0"
  else if 310 < magnitude then none
  else do
    let (num, den) :=
      if 0 ≤ power then (mantissa * Nat.pow 10 power.toNat, 1) else (mantissa, Nat.pow 10 (-power).toNat)
    let (significand, exponent) ← nearest? num den
    if significand = 0 then some "0.0"
    else
      let (digits, power) := shortest significand exponent 660 310
      some (positional digits power)

def exponent? : Text → Option Int
  | [] => some 0
  | c :: r =>
    if c ≠ 'e' ∧ c ≠ 'E' then none
    else
      let (isNegative, digits) := match r with
        | '-' :: d => (true, d)
        | '+' :: d => (false, d)
        | d => (false, d)
      if Numeral.isDigits digits then
        let n := Nat.ofDigitChars 10 digits 0
        some (if isNegative then -n else n)
      else none

/-- Digits with an optional point among or around them, and an optional power of ten. -/
def unsigned? (t : Text) : Option Text := do
  let (whole, rest) := t.span Char.isDigit
  let (fraction, rest) := match rest with
    | '.' :: r => r.span Char.isDigit
    | r => ([], r)
  if whole = [] ∧ fraction = [] then none
  let power ← exponent? rest
  ofDecimal? (Nat.ofDigitChars 10 (whole ++ fraction) 0) (power - fraction.length)

/-- Reads a finite number and gives the shortest text of its double. -/
def read? : Text → Option Text
  | '-' :: t => (unsigned? t).map ('-' :: ·)
  | '+' :: t => unsigned? t
  | t => unsigned? t

end DeviceDescription.DoubleText
