import DeviceDescription.PercentEncoding

/-! # Scalars as they are written in YAML -/
namespace DeviceDescription.YamlText

def isBreak (c : Char) : Bool :=
  c = '\n' || c = '\r' || c = '\u0085' || c = '\u2028' || c = '\u2029'

def isSpace (c : Char) : Bool := c = ' ' || c = '\t'

def isGap (c : Char) : Bool := isSpace c || isBreak c

def atEnd (t : Text) : Bool := t.head?.all isGap

/-- The line breaks in a gap. All but two kinds are read as a line feed. -/
def breaks : Text → Text
  | [] => []
  | '\r' :: '\n' :: r => '\n' :: breaks r
  | c :: r =>
    if c = '\u2028' ∨ c = '\u2029' then c :: breaks r
    else if isBreak c then '\n' :: breaks r
    else breaks r

/-- What a gap between two words stands for: one line feed folds into a space. -/
def fold (gap : Text) : Text :=
  match breaks gap with
  | [] => gap
  | '\n' :: [] => [' ']
  | '\n' :: more => more
  | b => b

def lastLine (gap : Text) : Text := (gap.reverse.takeWhile (!isBreak ·)).reverse

def dropBreak : Text → Text
  | '\r' :: '\n' :: r => r
  | c :: r => if isBreak c then r else c :: r
  | [] => []

theorem length_dropBreak (t : Text) : (dropBreak t).length ≤ t.length := by
  unfold dropBreak
  split
  · simp only [List.length_cons]; omega
  · split <;> simp
  · simp

/-- A line that begins with three dashes or dots ends the document. -/
def isDocumentMark (t : Text) : Bool :=
  ("---".toList.isPrefixOf t || "...".toList.isPrefixOf t) && atEnd (t.drop 3)

theorem length_dropWhile_le (p : Char → Bool) (t : Text) : (t.dropWhile p).length ≤ t.length :=
  (List.dropWhile_suffix p).length_le

def isFlowIndicator (c : Char) : Bool := c = ',' || c = '[' || c = ']' || c = '\x7b' || c = '\x7d'

/-- The length of the word at the start of a text. In flow collections a colon before an indicator is an error. -/
def wordLength? (inFlow : Bool) : Text → Option Nat
  | [] => some 0
  | c :: r =>
    if isGap c then some 0
    else if c = ':' ∧ inFlow ∧ r.head?.any (fun d => isFlowIndicator d || d = '?') then none
    else if (c = ':' && atEnd r) || (inFlow && isFlowIndicator c) then some 0
    else (wordLength? inFlow r).map (· + 1)

/-- A tab must not stand for indentation after a line break of a gap. -/
def hasTabIndent (indent : Nat) (gap : Text) : Bool :=
  go none gap
where
  go (column : Option Nat) : Text → Bool
    | [] => false
    | c :: r =>
      if isBreak c then go (some 0) r
      else (c = '\t' && column.any (· < indent)) || go (column.map (· + 1)) r

structure Plain where
  value : Text
  rest : Text
  /-- Whether a line break stands before the rest. -/
  endsLine : Bool

/-- What follows the first word of a plain scalar, which must be indented by `indent` on further lines. -/
def plainTail? (inFlow : Bool) (indent : Nat) (t : Text) : Option Plain :=
  let gap := t.takeWhile isGap
  let rest := t.dropWhile isGap
  let broken := gap.any isBreak
  let column := (lastLine gap).length
  if _h : gap = [] then some ⟨[], t, false⟩
  else if hasTabIndent indent gap then none
  else if broken ∧ ¬ inFlow ∧ column < indent then some ⟨[], rest, true⟩
  else if rest.head? = some '#' ∨ (broken ∧ column = 0 ∧ isDocumentMark rest) then some ⟨[], rest, broken⟩
  else
    match wordLength? inFlow rest with
    | none => none
    | some 0 => some ⟨[], rest, broken⟩
    | some (n + 1) => (plainTail? inFlow indent (rest.drop (n + 1))).map fun p =>
        { p with value := fold gap ++ rest.take (n + 1) ++ p.value }
termination_by t.length
decreasing_by
  have hs : (t.takeWhile isGap).length + (t.dropWhile isGap).length = t.length := by
    rw [← List.length_append, List.takeWhile_append_dropWhile]
  have hg : 0 < (t.takeWhile isGap).length := List.length_pos_iff.2 _h
  simp only [List.length_drop]
  omega

def plain? (inFlow : Bool) (indent : Nat) (t : Text) : Option Plain := do
  let n ← wordLength? inFlow t
  let tail ← plainTail? inFlow indent (t.drop n)
  some { tail with value := t.take n ++ tail.value }

/-- The characters that one letter after a backslash stands for. -/
def escapes : List (Char × Char) :=
  [('0', '\x00'), ('a', '\x07'), ('b', '\x08'), ('t', '\t'), ('\t', '\t'), ('n', '\n'), ('v', '\x0b'),
    ('f', '\x0c'), ('r', '\r'), ('e', '\x1b'), (' ', ' '), ('"', '"'), ('/', '/'), ('\\', '\\'),
    ('N', '\u0085'), ('_', '\u00a0'), ('L', '\u2028'), ('P', '\u2029')]

/-- How many hexadecimal digits follow a letter after a backslash. -/
def codeLengths : List (Char × Nat) := [('x', 2), ('u', 4), ('U', 8)]

/-- The character that an escape of `n` hexadecimal digits at the start of a text names. -/
def codeChar? (n : Nat) (t : Text) : Option Char := do
  if t.length < n then none
  let digits ← (t.take n).mapM PercentEncoding.hexValue?
  let code := digits.foldl (fun m d => 16 * m + d) 0
  if code.isValidChar then some (Char.ofNat code) else none

def quoted? (isSingle : Bool) (t : Text) : Option (Text × Text) :=
  match t with
  | [] => none
  | c :: r =>
    if isGap c then
      let gap := c :: r.takeWhile isGap
      let rest := r.dropWhile isGap
      if gap.getLast?.any isBreak && isDocumentMark rest then none
      else (quoted? isSingle rest).map fun (v, e) => (fold gap ++ v, e)
    else if isSingle then
      if c = '\'' then
        match r with
        | '\'' :: r => (quoted? true r).map fun (v, e) => ('\'' :: v, e)
        | _ => some ([], r)
      else (quoted? true r).map fun (v, e) => (c :: v, e)
    else if c = '"' then some ([], r)
    else if c = '\\' then
      match r with
      | [] => none
      | d :: s =>
        if isBreak d then
          let gap := (dropBreak (d :: s)).takeWhile isGap
          let rest := (dropBreak (d :: s)).dropWhile isGap
          if (gap = [] || gap.getLast?.any isBreak) && isDocumentMark rest then none
          else (quoted? false rest).map fun (v, e) => (breaks gap ++ v, e)
        else match escapes.lookup d with
          | some x => (quoted? false s).map fun (v, e) => (x :: v, e)
          | none => match codeLengths.lookup d with
            | none => none
            | some n => match codeChar? n s with
              | none => none
              | some x => (quoted? false (s.drop n)).map fun (v, e) => (x :: v, e)
    else (quoted? false r).map fun (v, e) => (c :: v, e)
termination_by t.length
decreasing_by
  all_goals simp_wf
  all_goals first
    | omega
    | (have h := length_dropWhile_le isGap r; omega)
    | (have h₁ := length_dropWhile_le isGap (dropBreak (d :: s))
       have h₂ := length_dropBreak (d :: s)
       simp only [List.length_cons] at h₂
       omega)

inductive Chomping where
  | strip
  | clip
  | keep

structure BlockHeader where
  chomping : Chomping
  increment : Option Nat

def increment? (c : Char) : Option Nat := if '1' ≤ c ∧ c ≤ '9' then some (c.toNat - 48) else none

def chomping? (c : Char) : Option Chomping :=
  if c = '+' then some .keep else if c = '-' then some .strip else none

/-- Chomping and indentation in either order, a comment, and the end of the line. -/
def blockHeader? (t : Text) : Option (BlockHeader × Text) :=
  let (header, rest) : BlockHeader × Text := match t with
    | [] => (⟨.clip, none⟩, [])
    | a :: r => match chomping? a, increment? a with
      | some c, _ => match r with
        | b :: s => if (increment? b).isSome then (⟨c, increment? b⟩, s) else (⟨c, none⟩, r)
        | [] => (⟨c, none⟩, [])
      | none, some i => match r with
        | b :: s => match chomping? b with
          | some c => (⟨c, some i⟩, s)
          | none => (⟨.clip, some i⟩, r)
        | [] => (⟨.clip, some i⟩, [])
      | none, none => (⟨.clip, none⟩, t)
  let rest := rest.dropWhile isSpace
  let rest := if rest.head? = some '#' then rest.dropWhile (!isBreak ·) else rest
  if rest.head?.all isBreak then some (header, dropBreak rest) else none

/-- Blank lines at the start of a text: their line breaks, the text of the next line after its indentation,
and the column where it begins. Without an indentation the widest line seen gives one. -/
structure Blanks where
  lineBreaks : Text
  rest : Text
  column : Nat
  widest : Nat

def spaces : Text → Nat
  | ' ' :: r => spaces r + 1
  | _ => 0

def blanks? (indent : Option Nat) (widest : Nat) (t : Text) : Option Blanks :=
  let column := indent.elim (spaces t) (min (spaces t))
  let widest := max widest column
  match _h : t.drop column with
  | [] => some ⟨[], [], column, widest⟩
  | c :: r =>
    if c = '\t' ∧ indent.all (column < ·) then none
    else if isBreak c then
      (blanks? indent widest (dropBreak (c :: r))).map fun b =>
        { b with lineBreaks := breaks [c] ++ b.lineBreaks }
    else some ⟨[], c :: r, column, widest⟩
termination_by t.length
decreasing_by
  have h₁ := congrArg List.length _h
  simp only [List.length_drop, List.length_cons] at h₁
  have h₂ : (dropBreak (c :: r)).length ≤ r.length := by
    unfold dropBreak
    split
    · rename_i heq; cases heq; simp
    · rename_i heq; cases heq; simp [*]
    · simp
  omega

theorem length_blanks? {indent : Option Nat} {widest : Nat} {t : Text} {b : Blanks}
    (h : blanks? indent widest t = some b) : b.rest.length ≤ t.length := by
  fun_induction blanks? indent widest t generalizing b with
  | case1 => cases h; simp
  | case2 => simp at h
  | case3 =>
    rename_i c r hc _ _ ih
    obtain ⟨b', hb', rfl⟩ := Option.map_eq_some_iff.1 h
    have h₁ := ih hb'
    have h₂ := length_dropBreak (c :: r)
    have h₃ := congrArg List.length hc
    simp only [List.length_drop] at h₃
    simp only
    omega
  | case4 =>
    cases h
    rename_i c r hc _ _
    have h₃ := congrArg List.length hc
    simp only [List.length_drop] at h₃
    simp only
    omega

/-- The lines of a block scalar. `lineBreak` and `moreBreaks` stand before the next line, and `wasSpaced` tells
whether the last line began with a space. -/
def blockLines? (isLiteral : Bool) (indent : Nat) (wasSpaced : Bool) (lineBreak moreBreaks : Text) (column : Nat)
    (t : Text) : Option (Text × Text × Text × Text) :=
  match t with
  | [] => some ([], lineBreak, moreBreaks, [])
  | c :: r =>
    if column ≠ indent then some ([], lineBreak, moreBreaks, c :: r)
    else
      let join :=
        if !isLiteral && lineBreak = ['\n'] && !wasSpaced && !isSpace c then
          (if moreBreaks = [] then [' '] else moreBreaks)
        else lineBreak ++ moreBreaks
      let line := c :: r.takeWhile (!isBreak ·)
      let after := r.dropWhile (!isBreak ·)
      match _h : blanks? (some indent) 0 (dropBreak after) with
      | none => none
      | some b =>
        (blockLines? isLiteral indent (isSpace c) (breaks (after.take 1)) b.lineBreaks b.column b.rest).map
          fun (v, rest) => (join ++ line ++ v, rest)
termination_by t.length
decreasing_by
  have h₁ := length_blanks? _h
  have h₂ := length_dropBreak after
  have h₃ : after.length ≤ r.length := length_dropWhile_le _ r
  simp only [List.length_cons]
  omega

/-- A block scalar after its indicator. The indentation counts from that of the collection around it. -/
def block? (isLiteral : Bool) (outer : Int) (t : Text) : Option (Text × Text) := do
  let (header, body) ← blockHeader? t
  let given := header.increment.map fun i => (max outer 0).toNat + i
  let b ← blanks? given 0 body
  let indent := given.getD (max b.widest (max (outer + 1).toNat 1))
  let (value, lineBreak, moreBreaks, rest) ←
    blockLines? isLiteral indent false [] b.lineBreaks b.column b.rest
  some (match header.chomping with
    | .strip => (value, rest)
    | .clip => (value ++ lineBreak, rest)
    | .keep => (value ++ lineBreak ++ moreBreaks, rest))

end DeviceDescription.YamlText
