import DeviceDescription.CharacterEncoding
import DeviceDescription.XmlTag
import DeviceDescription.XmlTree

/-!
# Reading XML documents

The reader takes one character at a time. The replacement text of an entity is fed to it in the same way, so
an entity may hold elements.
-/
namespace DeviceDescription.XmlDocument

open XmlName XmlEntity XmlTag

/-- Where the reader stands inside a document type. -/
inductive DoctypePart where
  | outside
  | quoted (quote : Char)
  | opening (head : Text)
  | comment (body : Text)
  | declaration (body : Text) (quote : Option Char)
  | parameter (name : Text)

/-- Where the reader stands. What has been collected stands with its last character first. -/
inductive Mode where
  | content (brackets : Nat)
  | reference (name : Text)
  | markup (head : Text)
  | comment (body : Text)
  | characterData (body : Text)
  | instruction (body : Text)
  | tag (body : Text) (quote : Option Char)
  | doctype (part : DoctypePart)

/-- An element whose end tag has not been read; its content stands with the last item first. -/
structure OpenElement where
  start : StartTag
  content : List (XmlItem XmlElement)

structure Reading where
  mode : Mode := .content 0
  isAtStart : Bool := true
  isVersion11 : Bool := false
  hasDoctype : Bool := false
  hasElement : Bool := false
  entities : Entities := []
  openElements : List OpenElement := []
  root : Option XmlElement := none
  /-- Character data since the last markup, the last character first. -/
  pending : Text := []
  /-- Whether `pending` may be dropped as layout. -/
  isLayout : Bool := true
  /-- Entities replaced since the last character of the document itself. -/
  replacements : Nat := 0

namespace Reading

def addItem (r : Reading) (item : XmlItem XmlElement) : Reading :=
  match r.openElements with
  | [] => r
  | e :: outer => { r with openElements := { e with content := item :: e.content } :: outer }

/-- Ends a run of character data at markup. A run of spaces alone is layout. -/
def flush (r : Reading) : Reading :=
  let kept := if r.pending = [] ∨ r.isLayout then r else r.addItem (.text r.pending.reverse)
  { kept with pending := [], isLayout := true }

def close? (r : Reading) : Option Reading :=
  match r.openElements with
  | [] => none
  | e :: outer =>
    let element : XmlElement := ⟨e.start.localName, e.start.namespaceUri, e.content.reverse⟩
    let r := { r with openElements := outer }
    if outer.isEmpty then some { r with root := r.root.or (some element) }
    else some (r.addItem (.child element))

def scope (r : Reading) : Scope :=
  match r.openElements with
  | [] => Scope.initial
  | e :: _ => e.start.scope

def tag? (r : Reading) (body : Text) : Option Reading :=
  let r := { r with mode := .content 0 }
  match body with
  | '/' :: name => do
    let written ← readEnd? name
    match r.openElements with
    | [] => none
    | e :: _ => if e.start.writtenName = written then r.close? else none
  | _ => do
    let start ← readStart? r.isVersion11 r.entities r.scope body
    let opened := { r with openElements := ⟨start, []⟩ :: r.openElements, hasElement := true }
    if start.isClosed then opened.close? else some opened

/-- Reads a whole processing instruction. The name `xml` belongs to the declaration, which stands first. -/
def instruction? (r : Reading) (body : Text) (isFirst : Bool) : Option Reading :=
  let (name, rest) := body.span (!isSpace ·)
  let r := { r with mode := .content 0 }
  if name = "xml" ∧ isFirst ∧ rest ≠ [] then do
    let declaration ← readDeclaration? rest
    some { r with isVersion11 := declaration.isVersion11 }
  else if name.map Char.toLower = "xml" then none
  else if name = [] then (if rest = [] then none else some (r.addItem (.instruction body)))
  else if (name.head?.any isNameStart && name.all isNameChar) && rest.all (isChar r.isVersion11) then
    some (r.addItem (.instruction body))
  else none

/-- One character of character data. Only spaces may stand outside of the elements. -/
def contentChar? (r : Reading) (brackets : Nat) (c : Char) : Option Reading :=
  if r.openElements.isEmpty then (if isSpace c then some { r with mode := .content 0 } else none)
  else if !isLiteralChar r.isVersion11 c ∨ (c = '>' ∧ 2 ≤ brackets) then none
  else some { r with
    mode := .content (if c = ']' then brackets + 1 else 0)
    pending := c :: r.pending
    isLayout := r.isLayout && isSpace c }

/-- Replaces the entity `name`, or the character that it names, in character data. -/
def reference? (r : Reading) (name : Text) (feed : Reading → Text → Option Reading) : Option Reading :=
  let r := { r with mode := .content 0 }
  match referent? r.isVersion11 r.entities name with
  | none => none
  | some (.character c) =>
    some { r with pending := c :: r.pending, isLayout := r.isLayout && isSpace c }
  | some (.replacement t) => feed r t

def markupChar? (r : Reading) (head : Text) (c : Char) : Option Reading :=
  match head with
  | [] =>
    if c = '?' then some { r with mode := .instruction [] }
    else if c = '!' then some { r with mode := .markup ['!'] }
    else if c = '/' ∨ isSpace c ∨ isNameChar c then some { r with mode := .tag [c] none }
    else none
  | _ =>
    let head := c :: head
    let written := head.reverse
    if written = "!--" then some { r with mode := .comment [] }
    else if written = "![CDATA[" then
      if r.openElements.isEmpty then none else some { r with mode := .characterData [] }
    else if written = "!DOCTYPE" then
      if r.hasDoctype ∨ r.hasElement then none
      else some { r with mode := .doctype .outside, hasDoctype := true }
    else if written.isPrefixOf "!--" ∨ written.isPrefixOf "![CDATA[" ∨ written.isPrefixOf "!DOCTYPE" then
      some { r with mode := .markup head }
    else none

def doctypeChar? (r : Reading) (feed : Reading → Text → Option Reading) (c : Char) :
    DoctypePart → Option Reading
  | .outside =>
    if c = '>' then some { r with mode := .content 0 }
    else if c = '"' ∨ c = '\'' then some { r with mode := .doctype (.quoted c) }
    else if c = '<' then some { r with mode := .doctype (.opening []) }
    else if c = '%' then some { r with mode := .doctype (.parameter ['%']) }
    else some { r with mode := .doctype .outside }
  | .quoted q => some { r with mode := .doctype (if c = q then .outside else .quoted q) }
  | .opening head =>
    let written := (c :: head).reverse
    if written = "!--" then some { r with mode := .doctype (.comment []) }
    else if written = "!" ∨ written = "!-" then some { r with mode := .doctype (.opening (c :: head)) }
    else if head = ['!'] ∧ c.isUpper then some { r with mode := .doctype (.declaration [c] none) }
    else none
  | .comment body =>
    if "--".toList.isPrefixOf body then
      if c = '>' then some { r with mode := .doctype .outside } else none
    else some { r with mode := .doctype (.comment (c :: body)) }
  | .declaration body quote =>
    if c = '>' ∧ quote = none then do
      let entities ← declare? r.isVersion11 r.entities body.reverse
      some { r with mode := .doctype .outside, entities := entities }
    else
      let quote := match quote with
        | some q => if c = q then none else some q
        | none => if c = '"' ∨ c = '\'' then some c else none
      some { r with mode := .doctype (.declaration (c :: body) quote) }
  | .parameter name =>
    if c = ';' then do
      let t ← r.entities.lookup name.reverse
      feed { r with mode := .doctype .outside } t
    else if isNameChar c then some { r with mode := .doctype (.parameter (c :: name)) }
    else none

def char? (feed : Reading → Text → Option Reading) (r : Reading) (c : Char) : Option Reading :=
  let isFirst := r.isAtStart
  let r := { r with isAtStart := false }
  match r.mode with
  | .content brackets =>
    if c = '<' then
      some { r.flush with mode := .markup [], isAtStart := isFirst }
    else if c = '&' then (if r.openElements.isEmpty then none else some { r with mode := .reference [] })
    else r.contentChar? brackets c
  | .reference name =>
    if c = ';' then (if name = [] then none else r.reference? name.reverse feed)
    else if mayContinue name c then some { r with mode := .reference (c :: name) }
    else none
  | .markup head => (r.markupChar? head c).map fun next =>
      match next.mode with
      | .instruction _ => { next with isAtStart := isFirst }
      | _ => next
  | .comment body =>
    if "--".toList.isPrefixOf body then
      if c = '>' then some ({ r with mode := .content 0 }.addItem (.comment (body.drop 2).reverse)) else none
    else if isChar r.isVersion11 c then some { r with mode := .comment (c :: body) }
    else none
  | .characterData body =>
    if c = '>' ∧ "]]".toList.isPrefixOf body then
      let data := body.drop 2
      some { r.addItem (.text data.reverse) with mode := .content 0, isLayout := data.all isSpace }
    else if isChar r.isVersion11 c then some { r with mode := .characterData (c :: body) }
    else none
  | .instruction body =>
    if c = '>' ∧ body.head? = some '?' then r.instruction? body.tail.reverse isFirst
    else some { r with mode := .instruction (c :: body), isAtStart := isFirst }
  | .tag body quote =>
    if c = '>' ∧ quote = none then r.tag? body.reverse
    else
      let quote := match quote with
        | some q => if c = q then none else some q
        | none => if c = '"' ∨ c = '\'' then some c else none
      some { r with mode := .tag (c :: body) quote }
  | .doctype part => r.doctypeChar? feed c part

/-- At most ten entities are replaced before the reader comes back to the document itself. -/
def maxReplacements : Nat := 10

/-- Feeds a replacement text, in which `depth` more levels of entities may be replaced. -/
def feed (depth : Nat) (r : Reading) (t : Text) : Option Reading :=
  if t = [] then some r
  else if r.replacements < maxReplacements then
    let r := { r with replacements := r.replacements + 1 }
    match depth with
    | 0 => none
    | depth + 1 => t.foldlM (char? (feed depth)) r
  else none

def feedDocument (r : Reading) (t : Text) : Option Reading :=
  t.foldlM (fun r c => char? (feed maxReplacements) { r with replacements := 0 } c) r

/-- The first root element of a document that is read to its end. -/
def finish? (r : Reading) : Option XmlElement :=
  match r.mode, r.openElements with
  | .content _, [] => r.root
  | _, _ => none

end Reading

def read? (t : Text) : Option XmlElement := do
  let r ← Reading.feedDocument { } t
  r.finish?

/-- The encoding that the declaration at the start of a text names, if there is one. A faulty declaration
is answered by `none`. -/
def declaredEncoding? (t : Text) : Option (Option Text) :=
  if "<?xml".toList.isPrefixOf t ∧ (t.drop 5).head?.any isSpace then
    (declarationBody? (t.drop 5)).bind fun body => (readDeclaration? body).map Declaration.encoding
  else some none
where
  declarationBody? : Text → Option Text
    | [] => none
    | '?' :: '>' :: _ => some []
    | c :: r => (declarationBody? r).map (c :: ·)

open CharacterEncoding

/-- The encoding of a document without a byte order mark. -/
def encodingNamed? : Option Text → Option CharacterEncoding
  | none => some .utf8
  | some name =>
    if hasLabel "utf-8" name ∨ hasLabel "utf8" name then some .utf8
    else if hasLabel "iso-8859-1" name ∨ hasLabel "latin1" name then some .latin1
    else if hasLabel "utf-16" name ∨ hasLabel "utf16" name then none
    else if hasLabel "ascii" name ∨ hasLabel "us-ascii" name then some .ascii
    else none

/-- Whether a declared encoding agrees with a byte order mark. -/
def agrees (encoding : CharacterEncoding) (name : Text) : Bool :=
  match encoding with
  | .utf8 => hasLabel "utf-8" name || hasLabel "utf8" name
  | .utf16 _ => hasLabel "utf-16" name || hasLabel "utf16" name
  | _ => false

def decodeDocument? (bytes : List UInt8) : Option Text :=
  match ofMark? bytes with
  | some (encoding, rest) => do
    let t ← encoding.decode? rest
    if (← declaredEncoding? t).all (agrees encoding) then some t else none
  | none => do
    let encoding ← encodingNamed? (← declaredEncoding? (decodeLatin1 bytes))
    encoding.decode? bytes

def readBytes? (bytes : List UInt8) : Option XmlElement := do read? (← decodeDocument? bytes)

/-- The root element of a document given as a text. A declared encoding other than UTF-8 counts all the same. -/
def readText? (t : Text) : Option XmlElement := readBytes? (encodeUtf8 t)

theorem readText?_of_undeclared {t : Text} (hmark : ofMark? (encodeUtf8 t) = none)
    (hdeclared : declaredEncoding? (decodeLatin1 (encodeUtf8 t)) = some none) : readText? t = read? t := by
  have hbytes : decodeDocument? (encodeUtf8 t) = some t := by
    rw [decodeDocument?, hmark, hdeclared]
    exact decodeUtf8?_encodeUtf8 t
  rw [readText?, readBytes?, hbytes]
  rfl

end DeviceDescription.XmlDocument
