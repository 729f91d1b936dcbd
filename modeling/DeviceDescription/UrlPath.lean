import DeviceDescription.PercentEncoding

/-! # Paths of URLs -/
namespace DeviceDescription

/-- A rooted path is a list of segments, each written after a slash; any other path is one text. -/
inductive UrlPath where
  | rootless (text : Text)
  | rooted (segments : List Text)
  deriving DecidableEq, Repr

namespace UrlPath

def text : UrlPath → Text
  | .rootless t => t
  | .rooted segments => segments.flatMap ('/' :: ·)

theorem mem_head?_text_rooted {segments : List Text} : ∀ c ∈ (rooted segments).text.head?, c = '/' := by
  intro c hc
  rw [text] at hc
  cases segments with
  | nil => cases hc
  | cons s r =>
    rw [List.flatMap_cons] at hc
    exact (Option.some.inj hc).symm

def lowerAscii (t : Text) : Text := t.map Char.toLower

def isSingleDot (t : Text) : Bool := lowerAscii t ∈ ([".", "%2e"] : List Text)

def isDoubleDot (t : Text) : Bool := lowerAscii t ∈ (["..", ".%2e", "%2e.", "%2e%2e"] : List Text)

/-- A letter followed by a colon or a bar. -/
def isDriveLetter : Text → Bool
  | [a, b] => a.isAlpha && (b = ':' || b = '|')
  | _ => false

/-- A double dot removes the segment before it, unless that names a drive. -/
def parent : List Text → List Text
  | [] => []
  | s :: r => if isDriveLetter s then s :: r else r

/-- Resolves dot segments. The segments already read stand in `done`, the last one first; a dot segment
at the end leaves an empty segment. -/
def resolveDots (done : List Text) : List Text → List Text
  | [] => done.reverse
  | s :: rest =>
    if isDoubleDot s then resolveDots (if rest = [] then [] :: parent done else parent done) rest
    else if isSingleDot s then resolveDots (if rest = [] then [] :: done else done) rest
    else resolveDots (s :: done) rest

def isSeparator (special : Bool) (c : Char) : Bool := c = '/' || (special && c = '\\')

def splitSegments (special : Bool) (t : Text) : List Text := t.splitOnP (isSeparator special)

def readSegments (special : Bool) (t : Text) : List Text :=
  resolveDots [] ((splitSegments special t).map (PercentEncoding.encode PercentEncoding.inPathSet))

/-- The path after an authority. A special scheme always has a first slash. -/
def afterAuthority (special : Bool) : Text → UrlPath
  | [] => .rooted (if special then [[]] else [])
  | c :: r => .rooted (readSegments special (if isSeparator special c then r else c :: r))

/-- What follows a drive letter and its colon in one segment. -/
def afterDrive? : Text → Option Text
  | a :: ':' :: c :: r => if a.isAlpha then some (c :: r) else none
  | _ => none

/-- Like `resolveDots`, with a drive letter that comes first normalized and made a segment of its own. The
flag tells whether a first segment was a drive letter. -/
def resolveFileDots (done : List Text) (drive : Bool) : List Text → List Text × Bool
  | [] => (done.reverse, drive)
  | s :: rest =>
    if isDoubleDot s then resolveFileDots (if rest = [] then [] :: parent done else parent done) drive rest
    else if isSingleDot s then resolveFileDots (if rest = [] then [] :: done else done) drive rest
    else if done = [] ∧ isDriveLetter s then resolveFileDots [s.take 1 ++ [':']] true rest
    else match done, afterDrive? s with
      | [], some r => resolveFileDots [r, s.take 2] drive rest
      | _, _ => resolveFileDots (s :: done) drive rest

/-- Leading empty segments of a file path mean nothing. -/
def dropLeadingEmpty (segments : List Text) : List Text :=
  match segments.dropWhile (· = []) with
  | [] => [[]]
  | s => s

def readFileSegments (t : Text) : List Text × Bool :=
  let (segments, drive) :=
    resolveFileDots [] false ((splitSegments true t).map (PercentEncoding.encode PercentEncoding.inPathSet))
  (dropLeadingEmpty segments, drive)

end UrlPath
end DeviceDescription
