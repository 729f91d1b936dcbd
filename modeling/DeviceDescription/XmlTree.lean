import DeviceDescription.Text

/-! # Element trees of XML documents -/
namespace DeviceDescription

inductive XmlItem (α : Type) where
  | child (element : α)
  | text (text : Text)
  | comment (text : Text)
  | instruction (text : Text)

/-- An element, named by its local name and its namespace. -/
structure XmlElement where
  name : Text
  namespaceUri : Option Text
  content : List (XmlItem XmlElement)

namespace XmlItem

def child? {α : Type} : XmlItem α → Option α
  | .child e => some e
  | _ => none

def text? {α : Type} : XmlItem α → Option Text
  | .text t => some t
  | _ => none

end XmlItem

namespace XmlElement

def children (e : XmlElement) : List XmlElement := e.content.filterMap XmlItem.child?

/-- The character data that stands directly in an element. -/
def directText (e : XmlElement) : Text := (e.content.filterMap XmlItem.text?).flatten

mutual

def decEq : (a b : XmlElement) → Decidable (a = b)
  | ⟨name, uri, content⟩, ⟨name', uri', content'⟩ =>
    have := decEqItems content content'
    decidable_of_iff (name = name' ∧ uri = uri' ∧ content = content') (by simp)

def decEqItems : (a b : List (XmlItem XmlElement)) → Decidable (a = b)
  | [], [] => isTrue rfl
  | [], _ :: _ | _ :: _, [] => isFalse (by simp)
  | x :: r, y :: s =>
    have := decEqItem x y
    have := decEqItems r s
    decidable_of_iff (x = y ∧ r = s) (by simp)

def decEqItem : (a b : XmlItem XmlElement) → Decidable (a = b)
  | .child x, .child y =>
    have := decEq x y
    decidable_of_iff (x = y) (by simp)
  | .text s, .text t | .comment s, .comment t | .instruction s, .instruction t => decidable_of_iff (s = t) (by simp)
  | .child _, .text _ | .child _, .comment _ | .child _, .instruction _
  | .text _, .child _ | .text _, .comment _ | .text _, .instruction _
  | .comment _, .child _ | .comment _, .text _ | .comment _, .instruction _
  | .instruction _, .child _ | .instruction _, .text _ | .instruction _, .comment _ => isFalse (by simp)

end

instance : DecidableEq XmlElement := decEq

end XmlElement
end DeviceDescription
