import DeviceDescription.Numeral

/-! # Steps of paths: their grammar and their written form -/
namespace DeviceDescription

inductive PathError where
  | notFound (path : Text)
  | unboundQualifier (qualifier : Text)
  | invalidStep (step : Text)
  deriving DecidableEq, Repr

def PathError.message : PathError → Text
  | .notFound path => "No node matches path '" ++ path ++ "'"
  | .unboundQualifier qualifier => "Namespace prefix '" ++ qualifier ++ "' is not bound"
  | .invalidStep step => "Invalid path step '" ++ step ++ "'"

/-- A step goes to a child of some name. Positions start at one; a step without a position goes to the
first child. -/
structure PathStep where
  qualifier : Option Text
  name : Text
  position : Option Nat
  deriving DecidableEq, Repr

namespace PathStep

def index (s : PathStep) : Nat := s.position.getD 1 - 1

/-- A position stands in brackets and ends the step. -/
def splitPosition? (t : Text) : Option (Text × Option Nat) :=
  match Text.cut '[' t with
  | none => some (t, none)
  | some (name, rest) => do
    if rest.getLast? ≠ some ']' then none
    let position ← Numeral.read? Numeral.maxWord64 (Text.trim rest.dropLast)
    if position = 0 then none
    some (Text.trim name, some position)

def splitQualifier (t : Text) : Option Text × Text :=
  match Text.cut ':' t with
  | none => (none, t)
  | some (qualifier, name) => (some qualifier, name)

/-- Reads a step that has no blanks around it. -/
def ofTrimmed? (t : Text) : Option PathStep := do
  let (full, position) ← splitPosition? t
  let (qualifier, name) := splitQualifier full
  if name = [] ∨ qualifier = some [] then none
  some ⟨qualifier, name, position⟩

def read (raw : Text) : Except PathError PathStep :=
  match ofTrimmed? (Text.trim raw) with
  | some s => .ok s
  | none => .error (.invalidStep (Text.trim raw))

def text (s : PathStep) : Text :=
  s.qualifier.elim [] (· ++ [':']) ++ s.name ++
    s.position.elim [] fun n => '[' :: Numeral.write n ++ [']']

end PathStep
end DeviceDescription
