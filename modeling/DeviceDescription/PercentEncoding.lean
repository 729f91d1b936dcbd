import DeviceDescription.CharacterEncoding

/-! # Percent-encoding of characters -/
namespace DeviceDescription.PercentEncoding

def hexDigit (n : Nat) : Char := if n < 10 then Char.ofNat (48 + n) else Char.ofNat (55 + n)

def hexValue? (c : Char) : Option Nat :=
  if '0' ≤ c ∧ c ≤ '9' then some (c.toNat - 48)
  else if 'A' ≤ c ∧ c ≤ 'F' then some (c.toNat - 55)
  else if 'a' ≤ c ∧ c ≤ 'f' then some (c.toNat - 87)
  else none

def escapeByte (b : UInt8) : Text := ['%', hexDigit (b.toNat / 16), hexDigit (b.toNat % 16)]

/-- The bytes of a character in UTF-8, each written with two hexadecimal digits. -/
def escape (c : Char) : Text := (String.utf8EncodeChar c).flatMap escapeByte

def encode (set : Char → Bool) (t : Text) : Text :=
  t.flatMap fun c => if set c then escape c else [c]

def inControlSet (c : Char) : Bool := c < ' ' || '~' < c

def inFragmentSet (c : Char) : Bool :=
  inControlSet c || c = ' ' || c = '"' || c = '<' || c = '>' || c = '\x60'

def inPathSet (c : Char) : Bool :=
  inFragmentSet c || c = '#' || c = '?' || c = '\x7b' || c = '\x7d'

def inUserinfoSet (c : Char) : Bool :=
  inPathSet c || c = '/' || c = ':' || c = ';' || c = '=' || c = '@' || c = '[' || c = '\\' ||
  c = ']' || c = '^' || c = '|'

def inQuerySet (c : Char) : Bool :=
  inControlSet c || c = ' ' || c = '"' || c = '#' || c = '<' || c = '>'

def inSpecialQuerySet (c : Char) : Bool := inQuerySet c || c = '\''

/-- The bytes of a text. An escape stands for one byte, and any other character for its own. -/
def decodeBytes : Text → List UInt8
  | [] => []
  | '%' :: a :: b :: r =>
    match hexValue? a, hexValue? b with
    | some x, some y => .ofNat (16 * x + y) :: decodeBytes r
    | _, _ => String.utf8EncodeChar '%' ++ decodeBytes (a :: b :: r)
  | c :: r => String.utf8EncodeChar c ++ decodeBytes r

def decode? (t : Text) : Option Text := CharacterEncoding.decodeUtf8? (decodeBytes t)

theorem decodeBytes_of_notMem {t : Text} (h : '%' ∉ t) : decodeBytes t = CharacterEncoding.encodeUtf8 t := by
  induction t with
  | nil => rfl
  | cons c r ih =>
    rw [List.mem_cons, not_or] at h
    rw [decodeBytes, ih h.2]
    · rfl
    · intro _ _ _ e
      exact absurd e.symm h.1

theorem decode?_of_notMem {t : Text} (h : '%' ∉ t) : decode? t = some t := by
  rw [decode?, decodeBytes_of_notMem h, CharacterEncoding.decodeUtf8?_encodeUtf8]

theorem encode_eq_self {set : Char → Bool} {t : Text} (h : ∀ c ∈ t, set c = false) :
    encode set t = t := by
  induction t with
  | nil => rfl
  | cons c r ih =>
    have hr := ih fun d hd => h d (List.mem_cons_of_mem _ hd)
    simp only [encode] at hr
    simp [encode, h c List.mem_cons_self, hr]

end DeviceDescription.PercentEncoding
