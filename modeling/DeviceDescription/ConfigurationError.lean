import DeviceDescription.Numeral
import DeviceDescription.QuotedText
import DeviceDescription.YamlValue

/-! # Why a configuration is refused -/
namespace DeviceDescription

inductive SettingKind where
  | settings
  | name
  | wholeNumber
  | text
  deriving DecidableEq, Repr

def SettingKind.label : SettingKind → Text
  | .settings => "struct DescriptionConfig"
  | .name => "field identifier"
  | .wholeNumber => "u64"
  | .text => "a string"

inductive ConfigurationError where
  | unreadable
  | invalidType (found : YamlValue) (expected : SettingKind)
  | invalidValue (found : Int) (expected : SettingKind)
  | duplicate (setting : Text)
  deriving DecidableEq, Repr

namespace ConfigurationError

def inMarks (t : Text) : Text := '\x60' :: t ++ ['\x60']

def integerText (n : Int) : Text :=
  "integer " ++ inMarks (if n < 0 then '-' :: Numeral.write n.natAbs else Numeral.write n.natAbs)

/-- What kind of value was found, below all tags. -/
def describe : YamlValue → Text
  | .null => "unit value"
  | .boolean b => "boolean " ++ inMarks (if b then "true" else "false")
  | .integer n => integerText n
  | .float t => "floating point " ++ inMarks t
  | .string t => "string " ++ QuotedText.write t
  | .sequence _ => "sequence"
  | .mapping _ => "map"
  | .tagged _ v => describe v

/-- What is said about an error. The fault of a text that is no document has no wording of its own. -/
def message : ConfigurationError → Text
  | .unreadable => "unreadable configuration"
  | .invalidType found expected => "invalid type: " ++ describe found ++ ", expected " ++ expected.label
  | .invalidValue found expected => "invalid value: " ++ integerText found ++ ", expected " ++ expected.label
  | .duplicate setting => "duplicate field " ++ inMarks setting

end ConfigurationError
end DeviceDescription
