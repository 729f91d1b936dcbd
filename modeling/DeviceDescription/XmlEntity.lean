import DeviceDescription.PercentEncoding
import DeviceDescription.XmlName

/-! # References to characters and entities -/
namespace DeviceDescription.XmlEntity

open XmlName

/-- Declared entities; the first declaration of a name counts. -/
abbrev Entities := List (Text × Text)

def digitsValue (radix : Nat) (t : Text) : Option Nat :=
  if t = [] then none
  else t.foldlM (fun n c => do
    let v ← PercentEncoding.hexValue? c
    if v < radix then some (radix * n + v) else none) 0

/-- The character that `#65` or `#x41` names. -/
def numericChar? (isVersion11 : Bool) (t : Text) : Option Char := do
  let n ← match t with
    | 'x' :: hex => digitsValue 16 hex
    | digits => digitsValue 10 digits
  if n.isValidChar ∧ isChar isVersion11 (Char.ofNat n) then some (Char.ofNat n) else none

def predefined : List (Text × Char) :=
  [("lt", '<'), ("gt", '>'), ("amp", '&'), ("apos", '\''), ("quot", '"')]

inductive Referent where
  | character (c : Char)
  | replacement (t : Text)

/-- What the name between `&` and `;` stands for. -/
def referent? (isVersion11 : Bool) (entities : Entities) (name : Text) : Option Referent :=
  match name with
  | '#' :: number => (numericChar? isVersion11 number).map .character
  | _ => match predefined.lookup name with
    | some c => some (.character c)
    | none => (entities.lookup name).map .replacement

/-- Whether `c` may continue a reference of which `name` has been read, the last character first. -/
def mayContinue (name : Text) (c : Char) : Bool :=
  if name = [] then isNameStart c || c = '#' else isNameChar c

/-- The text of an entity: character references and parameter entities are replaced when it is declared,
and the names of other entities are kept. -/
def entityText? (isVersion11 : Bool) (entities : Entities) (value : Text) : Option Text :=
  match value with
  | [] => some []
  | ['&'] => none
  | '&' :: '#' :: r =>
    match _h : Text.cut ';' r with
    | none => none
    | some (number, rest) => do
      let c ← numericChar? isVersion11 number
      some (c :: (← entityText? isVersion11 entities rest))
  | '%' :: r =>
    match _h : Text.cut ';' r with
    | none => none
    | some (name, rest) => do
      let t ← entities.lookup ('%' :: name)
      some (t ++ (← entityText? isVersion11 entities rest))
  | c :: r => do
    if !isChar isVersion11 c then none
    some (c :: (← entityText? isVersion11 entities r))
termination_by value.length
decreasing_by
  all_goals first
    | (have hl := congrArg List.length (Text.eq_append_of_cut _h).1
       simp only [List.length_append, List.length_cons] at hl ⊢
       omega)
    | simp

/-- The text after the name of an entity: a quoted value, or a public or system identifier, whose entity
stands for nothing. -/
def entityValue? (isVersion11 : Bool) (entities : Entities) (t : Text) : Option Text :=
  match t.dropWhile isSpace with
  | 'S' :: _ | 'P' :: _ => some []
  | q :: r => do
    if q ≠ '"' ∧ q ≠ '\'' then none
    let (value, _) ← Text.cut q r
    entityText? isVersion11 entities value
  | [] => none

def takeName? (t : Text) : Option (Text × Text) :=
  let (name, rest) := t.span isNameChar
  match name, rest with
  | c :: _, s :: _ => if isNameStart c && isSpace s then some (name, rest) else none
  | _, _ => none

/-- The entities after one more declaration, given as the text between `<!` and `>`. -/
def declare? (isVersion11 : Bool) (entities : Entities) (declaration : Text) : Option Entities := do
  let (keyword, rest) := declaration.span Char.isUpper
  if !rest.head?.any isSpace then none
  if keyword = "ENTITY" then
    let (name, rest) ← match rest.dropWhile isSpace with
      | '%' :: r => (takeName? (r.dropWhile isSpace)).map fun (n, t) => ('%' :: n, t)
      | r => takeName? r
    let value ← entityValue? isVersion11 entities rest
    some (entities ++ [(name, value)])
  else if keyword ∈ (["NOTATION", "ELEMENT", "ATTLIST"] : List Text) then some entities
  else none

end DeviceDescription.XmlEntity
