import DeviceDescription.InvisibleCharacter
import DeviceDescription.PercentEncoding

/-! # Texts in quotes, as messages show them -/
namespace DeviceDescription.QuotedText

/-- A quote, a backslash and a character that cannot be seen are shown by escapes. -/
def escape (c : Char) : Text :=
  if c = '\x00' then "\\0"
  else if c = '\t' then "\\t"
  else if c = '\n' then "\\n"
  else if c = '\r' then "\\r"
  else if c = '"' then "\\\""
  else if c = '\\' then "\\\\"
  else if InvisibleCharacter.isInvisible c then
    '\\' :: 'u' :: '\x7b' :: Nat.toDigits 16 c.toNat ++ ['\x7d']
  else [c]

def write (t : Text) : Text := '"' :: t.flatMap escape ++ ['"']

end DeviceDescription.QuotedText
