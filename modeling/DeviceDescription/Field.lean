import DeviceDescription.SchemaPath
import DeviceDescription.UrlReference

/-! # Fields: what they hold, and tables of them -/
namespace DeviceDescription

/-- Whether a description without a usable value is refused. -/
inductive FieldPolicy where
  | mandatory
  | optional
  deriving DecidableEq, Repr

inductive FieldKind where
  | text
  | integer
  | integer32
  | url
  deriving DecidableEq, Repr

inductive FieldValue where
  | text (t : Text)
  | integer (n : Nat)
  | url (u : Url)
  deriving DecidableEq, Repr

namespace FieldValue

def toText : FieldValue → Text
  | .text t => t
  | .integer n => Numeral.write n
  | .url u => u.text

def integer? : FieldValue → Option Nat
  | .integer n => some n
  | _ => none

def url? : FieldValue → Option Url
  | .url u => some u
  | _ => none

end FieldValue

def optionalText (c : DocumentContext) (path : Text) : Option Text :=
  match c.value path with
  | .ok t => if t = [] then none else some t
  | .error _ => none

def mandatoryText (c : DocumentContext) (path : Text) : Except DescriptionError Text :=
  match optionalText c path with
  | some t => .ok t
  | none => .error (.schemaViolation path)

/-- A field of an `α`: where it stands, what it holds, and where its value goes. -/
structure Field (α : Type) where
  name : Text
  path : Text
  policy : FieldPolicy
  kind : FieldKind
  assign : FieldValue → α → α

inductive Extraction where
  | value (v : FieldValue)
  | absent
  | violation (e : DescriptionError)
  deriving DecidableEq, Repr

variable [InternationalNames]

def FieldKind.interpret (kind : FieldKind) (name : Text) (base : Option Url) (raw : Text) :
    Except DescriptionError FieldValue :=
  let integer (bound : Nat) : Except DescriptionError FieldValue :=
    match Numeral.read? bound raw with
    | some n => .ok (.integer n)
    | none => .error (.schemaViolation name)
  match kind with
  | .text => .ok (.text raw)
  | .integer => integer Numeral.maxWord64
  | .integer32 => integer Numeral.maxWord32
  | .url => match UrlReference.resolve base (some raw) with
    | .ok (some u) => .ok (.url u)
    | .ok none => .error (.schemaViolation name)
    | .error e => .error e

/-- A fault of an optional field means no more than that the field is absent. -/
def FieldPolicy.judge : FieldPolicy → Except DescriptionError FieldValue → Extraction
  | _, .ok v => .value v
  | .mandatory, .error e => .violation e
  | .optional, .error _ => .absent

namespace Field

variable {α : Type}

def mandatory (name : Text) (kind : FieldKind) (assign : FieldValue → α → α) : Field α :=
  ⟨name, SchemaPath.first name, .mandatory, kind, assign⟩

def optional (name : Text) (kind : FieldKind) (assign : FieldValue → α → α) : Field α :=
  ⟨name, SchemaPath.first name, .optional, kind, assign⟩

def read (f : Field α) (c : DocumentContext) (base : Option Url) : Except DescriptionError FieldValue :=
  match optionalText c f.path with
  | some raw => f.kind.interpret f.name base raw
  | none => .error (.schemaViolation f.name)

def extract (f : Field α) (c : DocumentContext) (base : Option Url) : Extraction :=
  f.policy.judge (f.read c base)

end Field

/-- What a table has made of a target, and the violation that stopped it. -/
structure Populated (α : Type) where
  target : α
  violation : Option DescriptionError

def Populated.toExcept {α : Type} (p : Populated α) : Except DescriptionError α :=
  match p.violation with
  | none => .ok p.target
  | some e => .error e

/-- Assigns the values of all fields in turn, up to the first violation. -/
def populate {α : Type} (c : DocumentContext) (base : Option Url) : List (Field α) → α → Populated α
  | [], target => ⟨target, none⟩
  | f :: table, target => match f.extract c base with
    | .value v => populate c base table (f.assign v target)
    | .absent => populate c base table target
    | .violation e => ⟨target, some e⟩

end DeviceDescription
