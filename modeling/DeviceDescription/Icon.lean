import DeviceDescription.Field

/-! # Icons of devices -/
namespace DeviceDescription

variable [InternationalNames]

structure Icon where
  mimeType : Text
  width : Nat
  height : Nat
  depth : Nat
  url : Option Url
  deriving DecidableEq, Repr

namespace Icon

def blank : Icon := ⟨[], 0, 0, 0, none⟩

def dimension (v : FieldValue) : Nat := (v.integer?.filter (· ≤ Numeral.maxWord32)).getD 0

def fields : List (Field Icon) := [
  .mandatory "mimetype" .text fun v i => { i with mimeType := v.toText },
  .mandatory "width" .integer32 fun v i => { i with width := dimension v },
  .mandatory "height" .integer32 fun v i => { i with height := dimension v },
  .mandatory "depth" .integer32 fun v i => { i with depth := dimension v }]

/-- Reads an icon. It may lack a URL, but a URL that cannot be resolved is a fault. -/
def read (base : Url) (c : DocumentContext) : Except DescriptionError Icon := do
  let icon ← (populate c (some base) fields blank).toExcept
  let url ← UrlReference.resolve (some base) (optionalText c (SchemaPath.first "url"))
  .ok { icon with url := url }

end Icon
end DeviceDescription
