import DeviceDescription.YamlScalar
import DeviceDescription.YamlToken

/-! # Values of YAML documents -/
namespace DeviceDescription.YamlDocument

/-- What is left after at least one token of `t`. -/
abbrev Shorter (t : List YamlToken) := { r : List YamlToken // r.length < t.length }

/-- What is left of `t`. -/
abbrev NotLonger (t : List YamlToken) := { r : List YamlToken // r.length ≤ t.length }

/-- What has been seen of a document so far. -/
structure Seen where
  /-- Anchored values with the references that they take, the last one first. A value cannot be referred to
  while it is being read. -/
  anchors : List (Text × Option (YamlValue × Nat)) := []
  /-- Scalars, references, and starts and ends of collections. -/
  events : Nat := 0
  /-- References followed, those inside of the values referred to included. -/
  jumps : Nat := 0

def Seen.count (s : Seen) (events : Nat) : Seen := { s with events := s.events + events }

def Seen.openAnchor (s : Seen) (anchor : Option Text) : Seen :=
  match anchor with
  | none => s
  | some a => { s with anchors := (a, none) :: s.anchors }

/-- Gives the last open anchor of a name its value. -/
def settle (name : Text) (value : YamlValue × Nat) :
    List (Text × Option (YamlValue × Nat)) → List (Text × Option (YamlValue × Nat))
  | [] => []
  | (n, v) :: r => if n = name ∧ v.isNone then (n, some value) :: r else (n, v) :: settle name value r

def Seen.closeAnchor (s : Seen) (anchor : Option Text) (value : YamlValue × Nat) : Seen :=
  match anchor with
  | none => s
  | some a => { s with anchors := settle a value s.anchors }

def Seen.jump? (s : Seen) (name : Text) : Option (YamlValue × Seen) :=
  match s.anchors.lookup name with
  | some (some (value, jumps)) => some (value, { s.count 1 with jumps := s.jumps + jumps + 1 })
  | _ => none

abbrev Handles := List (Text × Text)

def defaultHandles : Handles := [("!", "!"), ("!!", "tag:yaml.org,2002:")]

def expand? (handles : Handles) (handle suffix : Text) : Option Text :=
  if handle = [] then some suffix else (handles.lookup handle).map (· ++ suffix)

/-- Anchor and tag before the content of a node. -/
structure Properties where
  anchor : Option Text
  tag : Option (Text × Text)

def Properties.isEmpty (p : Properties) : Bool := p.anchor.isNone && p.tag.isNone

def properties : List YamlToken → Properties × List YamlToken
  | .anchor a :: .tag h s :: r => (⟨some a, some (h, s)⟩, r)
  | .tag h s :: .anchor a :: r => (⟨some a, some (h, s)⟩, r)
  | .anchor a :: r => (⟨some a, none⟩, r)
  | .tag h s :: r => (⟨none, some (h, s)⟩, r)
  | r => (⟨none, none⟩, r)

theorem length_properties (t : List YamlToken) : (properties t).2.length ≤ t.length := by
  unfold properties
  split <;> simp only [List.length_cons] <;> omega

theorem length_properties_lt {t : List YamlToken} (h : (properties t).1.isEmpty = false) :
    (properties t).2.length < t.length := by
  unfold properties at h ⊢
  split <;> first
    | (simp only [List.length_cons]; omega)
    | (split at h <;> simp_all [Properties.isEmpty])

/-- The name of a tag of one's own, without its mark. -/
def localTag? : Text → Option Text
  | ['!'] => some ['!']
  | '!' :: r => some r
  | _ => none

def scalar? (tag : Option Text) (text : Text) (isPlain : Bool) : Option YamlValue :=
  let tag := if tag = some ['!'] then none else tag
  match tag.bind localTag? with
  | some name => ((if isPlain then YamlScalar.ofPlain? text else some (.string text))).map (.tagged name)
  | none => YamlScalar.ofScalar? tag isPlain text

def collection (tag : Option Text) (value : YamlValue) : YamlValue :=
  match tag.bind localTag? with
  | some name => .tagged name value
  | none => value

/-- No two entries of a mapping have the same key. -/
def mapping? (entries : List (YamlValue × YamlValue)) : Option YamlValue :=
  if YamlValue.areDistinct (entries.map Prod.fst) then some (.mapping entries) else none

def isOneOf (tokens : List YamlToken) (t : List YamlToken) : Bool := t.head?.any (tokens.contains ·)

/-- An anchor or a tag alone stands for an empty scalar. -/
def empty? (tag : Option Text) (seen : Seen) (t : List YamlToken) :
    Option (YamlValue × Seen × Shorter t) :=
  if h : (properties t).1.isEmpty = false then do
    some (← scalar? tag [] true, seen.count 1, ⟨(properties t).2, length_properties_lt h⟩)
  else none

mutual

/-- A node. Some nodes may be block collections, and some may be sequences without an indentation of their own. -/
def node? (handles : Handles) (mayBeBlock mayBeIndentless : Bool) (seen : Seen) (t : List YamlToken) :
    Option (YamlValue × Seen × Shorter t) :=
  match t with
  | .alias name :: r => (seen.jump? name).map fun (v, seen) => (v, seen, ⟨r, by simp⟩)
  | t => do
    let p := properties t
    let tag ← match p.1.tag with
      | none => some none
      | some (h, s) => (expand? handles h s).map some
    let (value, next, rest) ← content? handles mayBeBlock mayBeIndentless tag (seen.openAnchor p.1.anchor) t
    some (value, next.closeAnchor p.1.anchor (value, next.jumps - seen.jumps), rest)
termination_by (t.length, 2)

def content? (handles : Handles) (mayBeBlock mayBeIndentless : Bool) (tag : Option Text) (seen : Seen)
    (t : List YamlToken) : Option (YamlValue × Seen × Shorter t) :=
  have hp := length_properties t
  match _h : (properties t).2 with
  | .scalar text isPlain :: r => do
    some (← scalar? tag text isPlain, seen.count 1, ⟨r, by simp only [_h, List.length_cons] at hp; omega⟩)
  | .flowSequenceStart :: r => do
    let (items, seen, rest) ← flowItems? handles true seen r
    some (collection tag (.sequence items), seen.count 2,
      ⟨rest.1, by have := rest.2; simp only [_h, List.length_cons] at hp; omega⟩)
  | .flowMappingStart :: r => do
    let (entries, seen, rest) ← flowEntries? handles true seen r
    some (collection tag (← mapping? entries), seen.count 2,
      ⟨rest.1, by have := rest.2; simp only [_h, List.length_cons] at hp; omega⟩)
  | .blockSequenceStart :: r =>
    if mayBeBlock then do
      let (items, seen, rest) ← blockItems? handles seen r
      some (collection tag (.sequence items), seen.count 2,
        ⟨rest.1, by have := rest.2; simp only [_h, List.length_cons] at hp; omega⟩)
    else none
  | .blockMappingStart :: r =>
    if mayBeBlock then do
      let (entries, seen, rest) ← blockEntries? handles seen r
      some (collection tag (← mapping? entries), seen.count 2,
        ⟨rest.1, by have := rest.2; simp only [_h, List.length_cons] at hp; omega⟩)
    else none
  | .blockEntry :: r =>
    if mayBeIndentless then do
      let (items, seen, rest) ← indentlessItems? handles seen r
      some (collection tag (.sequence items), seen.count 2,
        ⟨rest.1, by have := rest.2; simp only [_h, List.length_cons] at hp; omega⟩)
    else empty? tag seen t
  | _ => empty? tag seen t
termination_by (t.length, 1)
decreasing_by
  all_goals
    simp only [_h, List.length_cons] at hp
    apply Prod.Lex.left
    omega

/-- A node, or nothing before one of the given tokens. -/
def nodeUnless? (handles : Handles) (mayBeBlock mayBeIndentless : Bool) (ends : List YamlToken)
    (seen : Seen) (t : List YamlToken) : Option (YamlValue × Seen × NotLonger t) :=
  if isOneOf ends t then some (.null, seen.count 1, ⟨t, Nat.le_refl _⟩)
  else do
    let (value, seen, rest) ← node? handles mayBeBlock mayBeIndentless seen t
    some (value, seen, ⟨rest.1, Nat.le_of_lt rest.2⟩)
termination_by (t.length, 3)

/-- A value after its colon, or nothing. -/
def value? (handles : Handles) (mayBeBlock : Bool) (ends : List YamlToken) (seen : Seen)
    (t : List YamlToken) : Option (YamlValue × Seen × NotLonger t) :=
  match t with
  | .value :: r => do
    let (value, seen, rest) ← nodeUnless? handles mayBeBlock mayBeBlock ends seen r
    some (value, seen, ⟨rest.1, by have := rest.2; simp only [List.length_cons]; omega⟩)
  | t => some (.null, seen.count 1, ⟨t, Nat.le_refl _⟩)
termination_by (t.length, 0)

def blockItems? (handles : Handles) (seen : Seen) (t : List YamlToken) :
    Option (List YamlValue × Seen × Shorter t) :=
  match t with
  | .blockEntry :: r => do
    let (item, seen, rest) ← nodeUnless? handles true false [.blockEntry, .blockEnd] seen r
    have := rest.2
    let (items, seen, rest') ← blockItems? handles seen rest.1
    some (item :: items, seen, ⟨rest'.1, by have := rest'.2; simp only [List.length_cons]; omega⟩)
  | .blockEnd :: r => some ([], seen, ⟨r, by simp⟩)
  | _ => none
termination_by (t.length, 0)

/-- The items of a sequence without an indentation of its own, after the first dash. -/
def indentlessItems? (handles : Handles) (seen : Seen) (t : List YamlToken) :
    Option (List YamlValue × Seen × NotLonger t) := do
  let (item, seen, rest) ← nodeUnless? handles true false [.blockEntry, .key, .value, .blockEnd] seen t
  have := rest.2
  match _h : rest.1 with
  | .blockEntry :: r => do
    let (items, seen, rest') ← indentlessItems? handles seen r
    some (item :: items, seen,
      ⟨rest'.1, by have := rest'.2; simp only [_h, List.length_cons] at *; omega⟩)
  | r => some ([item], seen, ⟨r, by simp only [_h] at this; exact this⟩)
termination_by (t.length, 4)
decreasing_by
  · apply Prod.Lex.right; omega
  · apply Prod.Lex.left
    simp only [_h, List.length_cons] at this
    omega

def blockEntries? (handles : Handles) (seen : Seen) (t : List YamlToken) :
    Option (List (YamlValue × YamlValue) × Seen × Shorter t) :=
  match t with
  | .key :: r => do
    let (key, seen, rest) ← nodeUnless? handles true true [.key, .value, .blockEnd] seen r
    have := rest.2
    let (value, seen, rest') ← value? handles true [.key, .value, .blockEnd] seen rest.1
    have := rest'.2
    let (entries, seen, rest'') ← blockEntries? handles seen rest'.1
    some ((key, value) :: entries, seen,
      ⟨rest''.1, by have := rest''.2; simp only [List.length_cons]; omega⟩)
  | .blockEnd :: r => some ([], seen, ⟨r, by simp⟩)
  | _ => none
termination_by (t.length, 0)

/-- The items of a flow sequence. All but the first follow a comma, and a comma may end them. -/
def flowItems? (handles : Handles) (isFirst : Bool) (seen : Seen) (t : List YamlToken) :
    Option (List YamlValue × Seen × Shorter t) :=
  match t with
  | .flowSequenceEnd :: r => some ([], seen, ⟨r, by simp⟩)
  | .flowEntry :: .flowSequenceEnd :: r =>
    if isFirst then none else some ([], seen, ⟨r, by simp only [List.length_cons]; omega⟩)
  | .flowEntry :: r =>
    if isFirst then none
    else do
      let (item, seen, rest) ← flowItem? handles seen r
      have := rest.2
      let (items, seen, rest') ← flowItems? handles false seen rest.1
      some (item :: items, seen, ⟨rest'.1, by have := rest'.2; simp only [List.length_cons]; omega⟩)
  | t =>
    if isFirst then do
      let (item, seen, rest) ← flowItem? handles seen t
      have := rest.2
      let (items, seen, rest') ← flowItems? handles false seen rest.1
      some (item :: items, seen, ⟨rest'.1, by have := rest'.2; omega⟩)
    else none
termination_by (t.length, 4)

/-- An item of a flow sequence, which may be a mapping of one entry without braces. -/
def flowItem? (handles : Handles) (seen : Seen) (t : List YamlToken) :
    Option (YamlValue × Seen × Shorter t) :=
  match t with
  | .key :: r => do
    let (key, seen, rest) ← nodeUnless? handles false false [.value, .flowEntry, .flowSequenceEnd] seen r
    let ⟨left, _⟩ : NotLonger r :=
      if isOneOf [.value, .flowEntry, .flowSequenceEnd] r then ⟨r.drop 1, by simp⟩ else rest
    let (value, seen, rest') ← value? handles false [.flowEntry, .flowSequenceEnd] seen left
    some (.mapping [(key, value)], seen.count 2,
      ⟨rest'.1, by have := rest'.2; simp only [List.length_cons]; omega⟩)
  | t => node? handles false false seen t
termination_by (t.length, 3)

/-- The entries of a flow mapping. All but the first follow a comma, and a comma may end them. -/
def flowEntries? (handles : Handles) (isFirst : Bool) (seen : Seen) (t : List YamlToken) :
    Option (List (YamlValue × YamlValue) × Seen × Shorter t) :=
  match t with
  | .flowMappingEnd :: r => some ([], seen, ⟨r, by simp⟩)
  | .flowEntry :: .flowMappingEnd :: r =>
    if isFirst then none else some ([], seen, ⟨r, by simp only [List.length_cons]; omega⟩)
  | .flowEntry :: r =>
    if isFirst then none
    else do
      let (entry, seen, rest) ← flowMember? handles seen r
      have := rest.2
      let (entries, seen, rest') ← flowEntries? handles false seen rest.1
      some (entry :: entries, seen, ⟨rest'.1, by have := rest'.2; simp only [List.length_cons]; omega⟩)
  | t =>
    if isFirst then do
      let (entry, seen, rest) ← flowMember? handles seen t
      have := rest.2
      let (entries, seen, rest') ← flowEntries? handles false seen rest.1
      some (entry :: entries, seen, ⟨rest'.1, by have := rest'.2; omega⟩)
    else none
termination_by (t.length, 4)

/-- An entry of a flow mapping. A node without a colon is a key without a value. -/
def flowMember? (handles : Handles) (seen : Seen) (t : List YamlToken) :
    Option ((YamlValue × YamlValue) × Seen × Shorter t) :=
  match t with
  | .key :: r => do
    let (key, seen, rest) ← nodeUnless? handles false false [.value, .flowEntry, .flowMappingEnd] seen r
    have := rest.2
    let (value, seen, rest') ← value? handles false [.flowEntry, .flowMappingEnd] seen rest.1
    some ((key, value), seen, ⟨rest'.1, by have := rest'.2; simp only [List.length_cons]; omega⟩)
  | t => do
    let (key, seen, rest) ← node? handles false false seen t
    some ((key, .null), seen.count 1, rest)
termination_by (t.length, 3)

end

def isDirective : YamlToken → Bool
  | .version _ _ | .tagHandle _ _ => true
  | _ => false

/-- Takes the directives before a document: at most one version, and every handle once. -/
def handles? (directives : List YamlToken) : Option Handles := do
  let versions := directives.filterMap fun
    | .version major minor => some (major, minor)
    | _ => none
  let handles := directives.filterMap fun
    | .tagHandle handle expansion => some (handle, expansion)
    | _ => none
  if 1 < versions.length ∨ versions.any (fun v => v ≠ (1, 1) && v ≠ (1, 2)) then none
  if ¬ (handles.map Prod.fst).Nodup then none
  some (handles ++ defaultHandles)

def maxDepth : Nat := 128

/-- How many references may be followed for each event of a document. -/
def maxJumps : Nat := 100

def ofTokens? (t : List YamlToken) : Option YamlValue := do
  let directives := t.takeWhile isDirective
  let handles ← handles? directives
  let t := t.dropWhile isDirective
  let (value, seen, rest) ← match t with
    | [] => if directives = [] then some (YamlValue.null, {}, []) else none
    | .documentStart :: r =>
      if r = [] ∨ r.head?.any isDirective ∨ isOneOf [.documentStart, .documentEnd] r then some (.null, {}, r)
      else (node? handles true false {} r).map fun (v, seen, rest) => (v, seen, rest.1)
    | r =>
      if directives = [] then (node? handles true false {} r).map fun (v, seen, rest) => (v, seen, rest.1)
      else none
  if rest.all (· = .documentEnd) ∧ seen.jumps ≤ maxJumps * seen.events ∧ value.depth ≤ maxDepth then some value
  else none

def read? (t : Text) : Option YamlValue := do ofTokens? (← YamlToken.scan? t)

def readBytes? (bytes : List UInt8) : Option YamlValue := do read? (← CharacterEncoding.decodeUtf8? bytes)

end DeviceDescription.YamlDocument
