import DeviceDescription.Namespaces
import DeviceDescription.PathStep
import DeviceDescription.XmlTree

/-! # Places in a document and the paths that start from them -/
namespace DeviceDescription

/-- The document above its root element, or an element. -/
inductive DocumentNode where
  | document (root : XmlElement)
  | element (e : XmlElement)

/-- A place in a document, with the meaning of the qualifiers used from there. -/
structure DocumentContext where
  node : DocumentNode
  namespaces : Namespaces

namespace DocumentContext

def ofRoot (root : XmlElement) (namespaces : Namespaces) : DocumentContext := ⟨.document root, namespaces⟩

def element? (c : DocumentContext) : Option XmlElement :=
  match c.node with
  | .document _ => none
  | .element e => some e

def children (c : DocumentContext) : List XmlElement :=
  match c.node with
  | .document root => [root]
  | .element e => e.children

def moveTo (c : DocumentContext) (e : XmlElement) : DocumentContext := ⟨.element e, c.namespaces⟩

def namespaceOf (c : DocumentContext) (s : PathStep) : Except PathError (Option Text) :=
  match s.qualifier with
  | none => .ok none
  | some q => match c.namespaces.uri? q with
    | some uri => .ok (some uri)
    | none => .error (.unboundQualifier q)

/-- The children that bear the name of a step, whatever its position is. -/
def matching (c : DocumentContext) (s : PathStep) : Except PathError (List XmlElement) :=
  (c.namespaceOf s).map fun uri => c.children.filter fun e => e.name = s.name ∧ e.namespaceUri = uri

/-- Follows the steps of the path `path`. -/
def follow (path : Text) : DocumentContext → List Text → Except PathError DocumentContext
  | c, [] => .ok c
  | c, raw :: rest => do
    let step ← PathStep.read raw
    match (← c.matching step)[step.index]? with
    | some e => follow path (c.moveTo e) rest
    | none => .error (.notFound path)

def pointer (c : DocumentContext) (path : Text) : Except PathError DocumentContext :=
  c.follow path (path.splitOn '/')

def countStep (c : DocumentContext) (raw : Text) : Except PathError Nat := do
  let step ← PathStep.read raw
  (c.matching step).map List.length

/-- How many children of the parent bear the name of the last step. -/
def count (c : DocumentContext) (path : Text) : Except PathError Nat :=
  match Text.cutLast '/' path with
  | none => c.countStep path
  | some (parent, last) => do (← c.pointer parent).countStep last

/-- The trimmed text that stands directly at a place. -/
def ownText (c : DocumentContext) : Text := c.element?.elim [] fun e => Text.trim e.directText

def value (c : DocumentContext) (path : Text) : Except PathError Text := (c.pointer path).map ownText

noncomputable def size (c : DocumentContext) : Nat :=
  match c.node with
  | .document root => sizeOf root + 1
  | .element e => sizeOf e

theorem sizeOf_lt_of_mem_children {c : DocumentContext} {e : XmlElement} (h : e ∈ c.children) :
    sizeOf e < c.size := by
  obtain ⟨node, ns⟩ := c
  cases node with
  | document root =>
    simp only [children, List.mem_singleton] at h
    simp [size, h]
  | element parent =>
    obtain ⟨name, uri, content⟩ := parent
    simp only [children, XmlElement.children, List.mem_filterMap] at h
    obtain ⟨item, hi, he⟩ := h
    cases item with
    | child x =>
      simp only [XmlItem.child?, Option.some.injEq] at he
      have := List.sizeOf_lt_of_mem hi
      subst he
      simp only [size, XmlElement.mk.sizeOf_spec]
      simp only [XmlItem.child.sizeOf_spec] at this
      omega
    | _ => simp [XmlItem.child?] at he

theorem mem_children_of_matching {c : DocumentContext} {s : PathStep} {es : List XmlElement}
    (h : c.matching s = .ok es) {e : XmlElement} (he : e ∈ es) : e ∈ c.children := by
  unfold matching at h
  cases hn : c.namespaceOf s with
  | error x => simp [hn, Except.map] at h
  | ok uri =>
    simp only [hn, Except.map, Except.ok.injEq] at h
    subst h
    exact (List.mem_filter.1 he).1

theorem size_le_of_follow {path : Text} {steps : List Text} {c d : DocumentContext}
    (h : c.follow path steps = .ok d) : d.size ≤ c.size ∧ (steps ≠ [] → d.size < c.size) := by
  induction steps generalizing c with
  | nil =>
    simp only [follow, Except.ok.injEq] at h
    subst h
    simp
  | cons raw rest ih =>
    simp only [follow, bind, Except.bind] at h
    split at h
    · cases h
    · split at h
      · cases h
      · rename_i step _ _ es hm
        split at h
        · rename_i e he
          have h₁ := sizeOf_lt_of_mem_children (mem_children_of_matching hm (List.mem_of_getElem? he))
          have h₂ := (ih h).1
          simp only [moveTo, size] at h₂
          simp only [size] at h₁ ⊢
          exact ⟨by omega, fun _ => by omega⟩
        · cases h

theorem size_lt_of_pointer {c d : DocumentContext} {path : Text} (h : c.pointer path = .ok d) :
    d.size < c.size := (size_le_of_follow h).2 (List.splitOn_ne_nil _ _)

end DocumentContext
end DeviceDescription
