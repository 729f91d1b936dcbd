import DeviceDescription.YamlDocument

/-! # Layers of configuration: defaults, documents and overrides -/
namespace DeviceDescription.ConfigurationLayer

open YamlValue

/-- The section of a document that holds the configuration. -/
def settings? (entries : List (YamlValue × YamlValue)) : Option YamlValue :=
  find? (.string "description") entries

def putSettings (value : YamlValue) (entries : List (YamlValue × YamlValue)) : List (YamlValue × YamlValue) :=
  put (.string "description") value entries

def defaults : YamlValue :=
  .mapping [(.string "description", .mapping [
    (.string "device_namespace", .string "urn:schemas-upnp-org:device-1-0"),
    (.string "fetch_timeout_secs", .integer 30),
    (.string "default_max_age_secs", .integer 1800)])]

/-- Letters of ASCII in lower case. All others stay, as none of them has a lower case that occurs in a name that is
read. So a layer differs from one in full lower case at most in keys that nothing reads. -/
def lowerText (t : Text) : Text := t.map Char.toLower

def lowerKey : YamlValue → YamlValue
  | .string t => .string (lowerText t)
  | k => k

/-- A mapping of entries with their keys in order of appearance. The last entry of a key counts. -/
def collect (entries : List (YamlValue × YamlValue)) : List (YamlValue × YamlValue) :=
  entries.foldl (fun m e => put e.1 e.2 m) []

mutual

/-- The keys of mappings in lower case, down to the first sequence or tag. -/
def lowerKeys : YamlValue → YamlValue
  | .mapping entries => .mapping (collect (lowerEntries entries))
  | v => v

def lowerEntries : List (YamlValue × YamlValue) → List (YamlValue × YamlValue)
  | [] => []
  | (k, v) :: r => (lowerKey k, lowerKeys v) :: lowerEntries r

end

mutual

/-- Lays the second value over the first. Mappings are merged; anything else is replaced. -/
def merge : YamlValue → YamlValue → YamlValue
  | .mapping base, .mapping entries => .mapping (mergeEntries base entries)
  | _, v => v

def mergeEntries (base : List (YamlValue × YamlValue)) :
    List (YamlValue × YamlValue) → List (YamlValue × YamlValue)
  | [] => base
  | (k, v) :: r =>
    mergeEntries (put k (match find? k base with
      | some old => merge old v
      | none => v) base) r

end

def withDocument (document : YamlValue) : YamlValue := merge defaults (lowerKeys document)

/-- What begins the names of variables that override settings. -/
def variableMark : Text := "PMODESCRIPTION_CONFIG__"

/-- The value of a variable is a document, or else a plain text. -/
def variableValue (t : Text) : YamlValue := (YamlDocument.read? t).getD (.string t)

/-- Puts a setting into the section of a layer that has a mapping for it. -/
def putSetting (name : Text) (value : YamlValue) : YamlValue → YamlValue
  | .mapping entries => .mapping (match settings? entries with
    | none => putSettings (.mapping [(.string name, value)]) entries
    | some (.mapping settings) => putSettings (.mapping (put (.string name) value settings)) entries
    | some _ => entries)
  | v => v

def override (layer : YamlValue) (name value : Text) : YamlValue :=
  match variableMark.isPrefixOf? name with
  | none => layer
  | some setting => putSetting (lowerText setting) (variableValue value) layer

def withEnvironment (environment : List (Text × Text)) (layer : YamlValue) : YamlValue :=
  environment.foldl (fun l v => override l v.1 v.2) layer

end DeviceDescription.ConfigurationLayer
