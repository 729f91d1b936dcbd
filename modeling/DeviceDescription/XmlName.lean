import DeviceDescription.Text

/-! # Characters and qualified names of XML -/
namespace DeviceDescription.XmlName

def isSpace (c : Char) : Bool := c = ' ' || c = '\t' || c = '\n' || c = '\r'

def inRanges (ranges : List (Nat × Nat)) (c : Char) : Bool :=
  ranges.any fun (low, high) => low ≤ c.toNat && c.toNat ≤ high

def isNameStart (c : Char) : Bool :=
  inRanges [(0x3A, 0x3A), (0x41, 0x5A), (0x5F, 0x5F), (0x61, 0x7A), (0xC0, 0xD6), (0xD8, 0xF6), (0xF8, 0x2FF),
    (0x370, 0x37D), (0x37F, 0x1FFF), (0x200C, 0x200D), (0x2070, 0x218F), (0x2C00, 0x2FEF), (0x3001, 0xD7FF),
    (0xF900, 0xFDCF), (0xFDF0, 0xFFFD), (0x10000, 0xEFFFF)] c

def isNameChar (c : Char) : Bool :=
  isNameStart c ||
    inRanges [(0x2D, 0x2E), (0x30, 0x39), (0xB7, 0xB7), (0x300, 0x36F), (0x203F, 0x2040)] c

/-- Version 1.1 admits all characters but NUL and the last two of the first plane. -/
def isChar (isVersion11 : Bool) (c : Char) : Bool :=
  if isVersion11 then c ≠ '\x00' && c.toNat ≠ 0xFFFE && c.toNat ≠ 0xFFFF
  else inRanges [(0x9, 0xA), (0xD, 0xD), (0x20, 0xD7FF), (0xE000, 0xFFFD), (0x10000, 0x10FFFF)] c

/-- In version 1.1 most control characters must be written as references. -/
def isLiteralChar (isVersion11 : Bool) (c : Char) : Bool :=
  isChar isVersion11 c && !(isVersion11 &&
    inRanges [(0x1, 0x8), (0xB, 0xC), (0xE, 0x1F), (0x7F, 0x84), (0x86, 0x9F)] c)

/-- Text before the colon, which is empty without one, and local name. -/
structure QualifiedName where
  qualifier : Text
  localName : Text
  deriving DecidableEq

def read? (t : Text) : Option QualifiedName :=
  match t with
  | [] => none
  | c :: r =>
    if !(isNameStart c && r.all isNameChar) then none
    else match Text.cut ':' t with
      | none => some ⟨[], t⟩
      | some (qualifier, localName) =>
        if qualifier = [] ∨ localName = [] ∨ ':' ∈ localName then none else some ⟨qualifier, localName⟩

end DeviceDescription.XmlName
