import DeviceDescription.YamlText
import DeviceDescription.CharacterEncoding

/-! # Tokens of YAML documents -/
namespace DeviceDescription

inductive YamlToken where
  | version (major minor : Nat)
  | tagHandle (handle expansion : Text)
  | documentStart
  | documentEnd
  | blockSequenceStart
  | blockMappingStart
  | blockEnd
  | flowSequenceStart
  | flowSequenceEnd
  | flowMappingStart
  | flowMappingEnd
  | blockEntry
  | flowEntry
  | key
  | value
  | alias (name : Text)
  | anchor (name : Text)
  | tag (handle suffix : Text)
  | scalar (text : Text) (isPlain : Bool)
  deriving DecidableEq

namespace YamlToken

open YamlText

def isAllowed (c : Char) : Bool :=
  c = '\t' || c = '\n' || c = '\r' || (' ' ≤ c && c ≤ '~') || c = '\u0085' ||
  ('\u00a0' ≤ c && c.toNat ≠ 0xFFFE && c.toNat ≠ 0xFFFF)

def isNameChar (c : Char) : Bool := c.isAlphanum || c = '_' || c = '-'

/-- The name of an anchor or alias, which an indicator or a gap must end. -/
def takeName? (t : Text) : Option (Text × Text) :=
  let (name, rest) := t.span isNameChar
  if name ≠ [] ∧ rest.head?.all (fun c => isGap c || "?:,]\x7d%@\x60".toList.contains c) then some (name, rest)
  else none

def isUriChar (inBrackets : Bool) (c : Char) : Bool :=
  isNameChar c || ";/?:@&=+$.!~*'()%".toList.contains c || (inBrackets && ",[]".toList.contains c)

/-- Replaces the escapes of a tag, which stand for the bytes of characters. -/
def unescape? (t : Text) : Option Text := do
  let bytes ← go t
  CharacterEncoding.decodeUtf8? bytes
where
  go : Text → Option (List UInt8)
    | [] => some []
    | '%' :: a :: b :: r => do
      some (.ofNat (16 * (← PercentEncoding.hexValue? a) + (← PercentEncoding.hexValue? b)) :: (← go r))
    | c :: r => if c = '%' then none else (go r).map (String.utf8EncodeChar c ++ ·)

def takeUri? (inBrackets : Bool) (t : Text) : Option (Text × Text) := do
  let (uri, rest) := t.span (isUriChar inBrackets)
  some (← unescape? uri, rest)

/-- A handle such as `!name!`, or the single mark that begins a plain tag. -/
def takeHandle (t : Text) : Text × Text :=
  let (name, rest) := t.span isNameChar
  match rest with
  | '!' :: r => ('!' :: name ++ ['!'], r)
  | _ => ('!' :: name, rest)

def takeTag? (inFlow : Bool) (t : Text) : Option (YamlToken × Text) := do
  let (token, rest) ← match t with
    | '<' :: r => do
      let (uri, rest) ← takeUri? true r
      match rest with
      | '>' :: rest => if uri = [] then none else some (YamlToken.tag [] uri, rest)
      | _ => none
    | _ =>
      let (handle, rest) := takeHandle t
      if 1 < handle.length ∧ handle.getLast? = some '!' then do
        let (suffix, rest) ← takeUri? false rest
        if suffix = [] then none
        some (YamlToken.tag handle suffix, rest)
      else do
        let (suffix, rest) ← takeUri? false rest
        let suffix := handle.drop 1 ++ suffix
        some (if suffix = [] then YamlToken.tag [] ['!'] else YamlToken.tag ['!'] suffix, rest)
  if atEnd rest ∨ (inFlow ∧ rest.head? = some ',') then some (token, rest) else none

def takeNumber? (t : Text) : Option (Nat × Text) :=
  let (digits, rest) := t.span Char.isDigit
  if digits = [] ∨ 9 < digits.length then none else some (Nat.ofDigitChars 10 digits 0, rest)

/-- A directive after its percent sign. -/
def takeDirective? (t : Text) : Option (YamlToken × Text) := do
  let (name, rest) := t.span isNameChar
  if !atEnd rest then none
  let rest := rest.dropWhile isSpace
  let (token, rest) ← if name = "YAML" then do
      let (major, rest) ← takeNumber? rest
      match rest with
      | '.' :: rest => do
        let (minor, rest) ← takeNumber? rest
        some (YamlToken.version major minor, rest)
      | _ => none
    else if name = "TAG" then do
      let (handle, rest) ← match rest with
        | '!' :: r => some (takeHandle r)
        | _ => none
      if handle ≠ ['!'] ∧ handle.getLast? ≠ some '!' then none
      if !rest.head?.any isSpace then none
      let (expansion, rest) ← takeUri? true (rest.dropWhile isSpace)
      if expansion = [] ∨ !atEnd rest then none
      some (YamlToken.tagHandle handle expansion, rest)
    else none
  let rest := rest.dropWhile isSpace
  let rest := if rest.head? = some '#' then rest.dropWhile (!isBreak ·) else rest
  if rest.head?.all isBreak then some (token, dropBreak rest) else none

structure Position where
  index : Nat := 0
  line : Nat := 0
  column : Nat := 0

def Position.advance (p : Position) : Text → Position
  | [] => p
  | '\r' :: '\n' :: r => Position.advance ⟨p.index + 2, p.line + 1, 0⟩ r
  | c :: r =>
    if isBreak c then Position.advance ⟨p.index + 1, p.line + 1, 0⟩ r
    else Position.advance ⟨p.index + 1, p.line, p.column + 1⟩ r

/-- Where a key without a question mark may have begun. -/
structure SimpleKey where
  tokenNumber : Nat
  position : Position
  isRequired : Bool

structure Scanner where
  rest : Text
  position : Position := {}
  tokens : List YamlToken := []
  /-- Possible keys, one for each open flow collection and one for the block around them. -/
  simpleKeys : List (Option SimpleKey) := [none]
  mayStartKey : Bool := true
  indent : Int := -1
  outerIndents : List Int := []

namespace Scanner

def flowLevel (s : Scanner) : Nat := s.simpleKeys.length - 1

def inFlow (s : Scanner) : Bool := 0 < s.flowLevel

/-- Moves on to `rest`, which ends the text that is left. -/
def moveTo (s : Scanner) (rest : Text) : Scanner :=
  { s with rest := rest, position := s.position.advance (s.rest.take (s.rest.length - rest.length)) }

def emit (s : Scanner) (token : YamlToken) : Scanner := { s with tokens := s.tokens ++ [token] }

/-- Spaces, comments and line breaks before a token. A line break lets a key start in block context. -/
def toToken (atLineStart inFlow mayStartKey : Bool) (t : Text) : Text × Bool :=
  let t₁ := if atLineStart ∧ t.head? = some '\ufeff' then t.drop 1 else t
  let t₂ := t₁.dropWhile fun c => c = ' ' || (c = '\t' && (inFlow || !mayStartKey))
  let t₃ := if t₂.head? = some '#' then t₂.dropWhile (!isBreak ·) else t₂
  match _h : t₃ with
  | [] => ([], mayStartKey)
  | c :: r =>
    if isBreak c then toToken true inFlow (mayStartKey || !inFlow) (dropBreak (c :: r))
    else (c :: r, mayStartKey)
termination_by t.length
decreasing_by
  have h₁ : t₁.length ≤ t.length := by simp only [t₁]; split <;> simp
  have h₂ : t₂.length ≤ t₁.length := length_dropWhile_le _ _
  have h₃ : t₃.length ≤ t₂.length := by
    simp only [t₃]; split
    · exact length_dropWhile_le _ _
    · exact Nat.le_refl _
  have h₄ := congrArg List.length _h
  have h₅ : (dropBreak (c :: r)).length ≤ r.length := by
    unfold dropBreak
    split
    · rename_i heq; cases heq; simp
    · rename_i heq; cases heq; simp [*]
    · simp
  simp only [List.length_cons] at h₄
  omega

/-- A simple key stands on one line and is at most 1024 characters long. -/
def dropStaleKeys? (s : Scanner) : Option Scanner := do
  let keys ← s.simpleKeys.mapM fun candidate => match candidate with
    | none => some none
    | some k =>
      if k.position.line < s.position.line ∨ k.position.index + 1024 < s.position.index then
        if k.isRequired then none else some none
      else some (some k)
  some { s with simpleKeys := keys }

def removeKey? (s : Scanner) : Option Scanner :=
  match s.simpleKeys with
  | [] => some s
  | k :: outer => if k.any (·.isRequired) then none else some { s with simpleKeys := none :: outer }

def saveKey? (s : Scanner) : Option Scanner :=
  if s.mayStartKey then do
    let isRequired := !s.inFlow && s.indent = s.position.column
    let s ← s.removeKey?
    some { s with simpleKeys := some ⟨s.tokens.length, s.position, isRequired⟩ :: s.simpleKeys.drop 1 }
  else some s

/-- Opens a block collection that is indented to `column`, before the token number `number`. -/
def openBlock (s : Scanner) (column : Nat) (number : Nat) (start : YamlToken) : Scanner :=
  if !s.inFlow ∧ s.indent < column then
    { s with indent := column, outerIndents := s.indent :: s.outerIndents,
             tokens := s.tokens.take number ++ start :: s.tokens.drop number }
  else s

/-- Closes the block collections that are indented further than `column`. -/
def closeBlocks (s : Scanner) (column : Int) : Scanner :=
  if s.inFlow then s
  else
    let (indent, outer, tokens) := go column s.indent s.outerIndents s.tokens
    { s with indent := indent, outerIndents := outer, tokens := tokens }
where
  go (column indent : Int) : List Int → List YamlToken → Int × List Int × List YamlToken
    | [], tokens => (indent, [], tokens)
    | i :: outer, tokens =>
      if column < indent then go column i outer (tokens ++ [.blockEnd]) else (indent, i :: outer, tokens)

def take (s : Scanner) (n : Nat) (token : YamlToken) : Scanner := (s.moveTo (s.rest.drop n)).emit token

def documentMark? (s : Scanner) (token : YamlToken) : Option Scanner := do
  let s ← (s.closeBlocks (-1)).removeKey?
  some ({ s with mayStartKey := false }.take 3 token)

def directive? (s : Scanner) : Option Scanner := do
  let s ← (s.closeBlocks (-1)).removeKey?
  let (token, rest) ← takeDirective? (s.rest.drop 1)
  some ({ s with mayStartKey := false }.moveTo rest |>.emit token)

def flowStart? (s : Scanner) (token : YamlToken) : Option Scanner := do
  let s ← s.saveKey?
  some ({ s with simpleKeys := none :: s.simpleKeys, mayStartKey := true }.take 1 token)

def flowEnd? (s : Scanner) (token : YamlToken) : Option Scanner := do
  let s ← s.removeKey?
  let keys := if s.inFlow then s.simpleKeys.drop 1 else s.simpleKeys
  some ({ s with simpleKeys := keys, mayStartKey := false }.take 1 token)

def flowEntry? (s : Scanner) : Option Scanner := do
  let s ← s.removeKey?
  some ({ s with mayStartKey := true }.take 1 .flowEntry)

def blockEntry? (s : Scanner) : Option Scanner := do
  if !s.inFlow ∧ !s.mayStartKey then none
  let s ← (s.openBlock s.position.column s.tokens.length .blockSequenceStart).removeKey?
  some ({ s with mayStartKey := true }.take 1 .blockEntry)

def key? (s : Scanner) : Option Scanner := do
  if !s.inFlow ∧ !s.mayStartKey then none
  let s ← (s.openBlock s.position.column s.tokens.length .blockMappingStart).removeKey?
  some ({ s with mayStartKey := !s.inFlow }.take 1 .key)

/-- A colon turns what follows the possible key into a key. -/
def value? (s : Scanner) : Option Scanner :=
  match s.simpleKeys with
  | some k :: outer =>
    let s := { s with simpleKeys := none :: outer, mayStartKey := false,
                      tokens := s.tokens.take k.tokenNumber ++ YamlToken.key :: s.tokens.drop k.tokenNumber }
    some ((s.openBlock k.position.column k.tokenNumber .blockMappingStart).take 1 .value)
  | _ =>
    if !s.inFlow ∧ !s.mayStartKey then none
    else
      let s := s.openBlock s.position.column s.tokens.length .blockMappingStart
      some ({ s with mayStartKey := !s.inFlow }.take 1 .value)

/-- A token of a node, which may begin a key. -/
def node? (s : Scanner) (token : YamlToken) (rest : Text) : Option Scanner := do
  let s ← s.saveKey?
  some ({ s with mayStartKey := false }.moveTo rest |>.emit token)

def named? (s : Scanner) (token : Text → YamlToken) : Option Scanner := do
  let (name, rest) ← takeName? (s.rest.drop 1)
  s.node? (token name) rest

def tag? (s : Scanner) : Option Scanner := do
  let (token, rest) ← takeTag? s.inFlow (s.rest.drop 1)
  s.node? token rest

def blockScalar? (s : Scanner) (isLiteral : Bool) : Option Scanner := do
  let s ← s.removeKey?
  let (text, rest) ← block? isLiteral s.indent (s.rest.drop 1)
  some ({ s with mayStartKey := true }.moveTo rest |>.emit (.scalar text false))

def quotedScalar? (s : Scanner) (isSingle : Bool) : Option Scanner := do
  let (text, rest) ← quoted? isSingle (s.rest.drop 1)
  s.node? (.scalar text false) rest

def plainScalar? (s : Scanner) : Option Scanner := do
  let p ← plain? s.inFlow (s.indent + 1).toNat s.rest
  let s ← s.node? (.scalar p.value true) p.rest
  some (if p.endsLine then { s with mayStartKey := true } else s)

/-- Whether a plain scalar may begin with `c` before `after`. -/
def startsPlain (inFlow : Bool) (c : Char) (after : Text) : Bool :=
  !(isGap c || "-?:,[]\x7b\x7d#&*!|>'\"%@\x60".toList.contains c) ||
  (c = '-' && !after.head?.any isSpace) ||
  (!inFlow && (c = '?' || c = ':') && !atEnd after)

/-- Scans the token that begins with `c`. -/
def token? (s : Scanner) (c : Char) (after : Text) : Option Scanner :=
  let atLineStart := s.position.column = 0
  if atLineStart ∧ c = '%' then s.directive?
  else if atLineStart ∧ isDocumentMark s.rest then
    s.documentMark? (if c = '-' then .documentStart else .documentEnd)
  else if c = '[' then s.flowStart? .flowSequenceStart
  else if c = '\x7b' then s.flowStart? .flowMappingStart
  else if c = ']' then s.flowEnd? .flowSequenceEnd
  else if c = '\x7d' then s.flowEnd? .flowMappingEnd
  else if c = ',' then s.flowEntry?
  else if c = '-' ∧ atEnd after then s.blockEntry?
  else if c = '?' ∧ (s.inFlow ∨ atEnd after) then s.key?
  else if c = ':' ∧ (s.inFlow ∨ atEnd after) then s.value?
  else if c = '*' then s.named? .alias
  else if c = '&' then s.named? .anchor
  else if c = '!' then s.tag?
  else if c = '|' ∧ !s.inFlow then s.blockScalar? true
  else if c = '>' ∧ !s.inFlow then s.blockScalar? false
  else if c = '\'' then s.quotedScalar? true
  else if c = '"' then s.quotedScalar? false
  else if startsPlain s.inFlow c after then s.plainScalar?
  else none

/-- Scans the rest of the text. Every token takes at least one character. -/
def run? (s : Scanner) : Option (List YamlToken) :=
  let (rest, mayStartKey) := toToken (s.position.column = 0) s.inFlow s.mayStartKey s.rest
  match { s.moveTo rest with mayStartKey := mayStartKey }.dropStaleKeys? with
  | none => none
  | some next =>
    let next := next.closeBlocks next.position.column
    match next.rest with
    | [] => (next.closeBlocks (-1)).removeKey?.map Scanner.tokens
    | c :: after =>
      match next.token? c after with
      | none => none
      | some t => if t.rest.length < s.rest.length then run? t else none
termination_by s.rest.length

end Scanner

def scan? (t : Text) : Option (List YamlToken) :=
  if t.all isAllowed then Scanner.run? { rest := t } else none

end YamlToken
end DeviceDescription
