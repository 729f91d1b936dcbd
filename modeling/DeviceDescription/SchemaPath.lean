import DeviceDescription.DescriptionError
import DeviceDescription.DocumentContext

/-! # Paths to the elements of the device schema -/
namespace DeviceDescription.SchemaPath

def first (name : Text) : Text := PathStep.text ⟨some Namespaces.deviceQualifier, name, none⟩

def nth (name : Text) (position : Nat) : Text :=
  PathStep.text ⟨some Namespaces.deviceQualifier, name, some position⟩

def under (parent path : Text) : Text := parent ++ '/' :: path

/-- A path that ought to lead somewhere. -/
def required {α : Type} (r : Except PathError α) : Except DescriptionError α := r.mapError .path

/-- Reads all items of a list element, reached one by one by their positions. No list is an empty list. -/
def readItems {α : Type} (c : DocumentContext) (list item : Text)
    (read : (d : DocumentContext) → d.size < c.size → Except DescriptionError α) :
    Except DescriptionError (List α) :=
  match hl : c.pointer (first list) with
  | .error _ => .ok []
  | .ok l => do
    let n ← required (l.count (first item))
    (List.range n).mapM fun i =>
      match hd : l.pointer (nth item (i + 1)) with
      | .error e => .error (.path e)
      | .ok d => read d (Nat.lt_trans (DocumentContext.size_lt_of_pointer hd)
          (DocumentContext.size_lt_of_pointer hl))

end DeviceDescription.SchemaPath
