import DeviceDescription.XmlEntity

/-! # Tags and their attributes -/
namespace DeviceDescription.XmlTag

open XmlName XmlEntity

/-- The value of an attribute, with its references replaced. -/
def attributeValue? (isVersion11 : Bool) (entities : Entities) (t : Text) : Option Text :=
  match t with
  | [] => some []
  | '&' :: r =>
    match _h : Text.cut ';' r with
    | none => none
    | some (name, rest) => do
      let value ← match ← referent? isVersion11 entities name with
        | .character c => some [c]
        | .replacement v => some v
      some (value ++ (← attributeValue? isVersion11 entities rest))
  | c :: r => do
    if c = '<' || !isLiteralChar isVersion11 c then none
    some (c :: (← attributeValue? isVersion11 entities r))
termination_by t.length
decreasing_by
  all_goals first
    | (have hl := congrArg List.length (Text.eq_append_of_cut _h).1
       simp only [List.length_append, List.length_cons] at hl ⊢
       omega)
    | simp

/-- The quoted text after a name and an equals sign, and what follows it. -/
def takeQuoted? (t : Text) : Option (Text × Text) :=
  match t.dropWhile isSpace with
  | '=' :: r => match r.dropWhile isSpace with
    | q :: r => if q = '"' ∨ q = '\'' then Text.cut q r else none
    | [] => none
  | _ => none

theorem length_takeQuoted? {t value rest : Text} (h : takeQuoted? t = some (value, rest)) :
    rest.length < t.length := by
  unfold takeQuoted? at h
  have ht := List.IsSuffix.length_le (List.dropWhile_suffix (l := t) isSpace)
  split at h
  · rename_i r heq
    have hr := List.IsSuffix.length_le (List.dropWhile_suffix (l := r) isSpace)
    split at h
    · rename_i q s heq'
      split at h
      · have hc := congrArg List.length (Text.eq_append_of_cut h).1
        simp only [heq, heq', List.length_append, List.length_cons] at hc hr ht
        omega
      · simp at h
    · simp at h
  · simp at h

/-- Attributes, each after at least one space, in the order of the tag. -/
def attributes? (t : Text) : Option (List (Text × Text)) :=
  match _h : t.dropWhile isSpace with
  | [] => some []
  | c :: r =>
    if !t.head?.any isSpace then none
    else
      let name := (c :: r).takeWhile fun d => !isSpace d && d ≠ '='
      match _hq : takeQuoted? ((c :: r).drop name.length) with
      | none => none
      | some (value, rest) => (attributes? rest).map ((name, value) :: ·)
termination_by t.length
decreasing_by
  have h₁ := length_takeQuoted? _hq
  have h₂ := List.IsSuffix.length_le (List.dropWhile_suffix (l := t) isSpace)
  rw [_h] at h₂
  simp only [List.length_drop] at h₁
  omega

def xmlUri : Text := "http://www.w3.org/XML/1998/namespace"
def xmlnsUri : Text := "http://www.w3.org/2000/xmlns/"

/-- Namespaces in scope, innermost first; the empty name belongs to elements without a qualifier. -/
abbrev Scope := List (Text × Text)

def Scope.initial : Scope := [("xml", xmlUri), ("xmlns", xmlnsUri), ([], [])]

/-- The namespace of a bound qualifier, which is none if it is bound to the empty text. -/
def Scope.find? (s : Scope) (qualifier : Text) : Option (Option Text) :=
  (s.lookup qualifier).map fun uri => if uri = [] then none else some uri

/-- The binding that an attribute makes, if it is a declaration of a namespace. -/
inductive Attribute where
  | binding (qualifier uri : Text)
  | other (name : QualifiedName)

def Attribute.read? (name value : Text) : Option Attribute := do
  let name ← XmlName.read? name
  if name.qualifier = "xmlns" then
    if name.localName = "xmlns" ∨ value = [] ∨ (name.localName = "xml" ∧ value ≠ xmlUri) then none
    some (.binding name.localName value)
  else if name.qualifier = [] ∧ name.localName = "xmlns" then
    if value ∈ (["xmlns", "xml", xmlUri, xmlnsUri] : List Text) then none
    some (.binding [] value)
  else some (.other name)

def Attribute.binding? : Attribute → Option (Text × Text)
  | .binding q u => some (q, u)
  | .other _ => none

def Attribute.other? : Attribute → Option QualifiedName
  | .binding _ _ => none
  | .other n => some n

structure StartTag where
  writtenName : Text
  localName : Text
  namespaceUri : Option Text
  scope : Scope
  isClosed : Bool

/-- Reads the text between `<` and `>` of a start tag. -/
def readStart? (isVersion11 : Bool) (entities : Entities) (outer : Scope) (body : Text) : Option StartTag := do
  let isClosed := body.getLast? = some '/'
  let body := if isClosed then body.dropLast else body
  let (written, rest) := body.span (!isSpace ·)
  let name ← XmlName.read? written
  if name.qualifier = "xml" ∨ name.qualifier = "xmlns" then none
  let attributes ← (← attributes? rest).mapM fun (n, v) => do
    Attribute.read? n (← attributeValue? isVersion11 entities v)
  let others := attributes.filterMap Attribute.other?
  if ¬ others.Nodup then none
  let scope : Scope := attributes.filterMap Attribute.binding? ++ outer
  if others.any fun n => n.qualifier ≠ [] && (scope.find? n.qualifier).isNone then none
  let uri ← scope.find? name.qualifier
  some ⟨written, name.localName, uri, scope, isClosed⟩

def readEnd? (body : Text) : Option Text :=
  let (name, rest) := body.span (!isSpace ·)
  if rest.all isSpace then some name else none

structure Declaration where
  isVersion11 : Bool
  encoding : Option Text

/-- Reads what stands between `<?xml` and `?>`. -/
def readDeclaration? (t : Text) : Option Declaration := do
  let attributes : List (Text × Text) ←
    (← attributes? t).mapM fun (n, v) => (attributeValue? false [] v).map (n, ·)
  match attributes with
  | [] => none
  | (name, version) :: rest =>
    if name ≠ "version" ∨ (version ≠ "1.0" ∧ version ≠ "1.1") then none
    let (encoding, rest) := match rest with
      | (n, e) :: r => if n = "encoding" then (some e, r) else (none, rest)
      | [] => (none, rest)
    match rest with
    | [] => some ⟨version = "1.1", encoding⟩
    | [(n, v)] => if n = "standalone" ∧ (v = "yes" ∨ v = "no") then some ⟨version = "1.1", encoding⟩ else none
    | _ => none

end DeviceDescription.XmlTag
