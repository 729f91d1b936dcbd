import DeviceDescription.Configuration
import DeviceDescription.ConfigurationError
import DeviceDescription.ConfigurationLayer

/-! # Reading configurations from layers -/
namespace DeviceDescription.Configuration

open ConfigurationLayer

def readText (v : YamlValue) : Except ConfigurationError Text :=
  match v.untagged with
  | .string t => .ok t
  | other => .error (.invalidType other .text)

def readWholeNumber (v : YamlValue) : Except ConfigurationError Nat :=
  match v.untagged with
  | .integer n => if n < 0 then .error (.invalidValue n .wholeNumber) else .ok n.toNat
  | other => .error (.invalidType other .wholeNumber)

structure Draft where
  deviceNamespace : Option Text := none
  fetchTimeoutSecs : Option Nat := none
  defaultMaxAgeSecs : Option Nat := none

namespace Draft

def once {α : Type} (old : Option α) (name : Text) (read : Except ConfigurationError α) :
    Except ConfigurationError (Option α) :=
  match old with
  | some _ => .error (.duplicate name)
  | none => read.map some

/-- Reads an entry of the section. Unknown settings mean nothing. -/
def readEntry (d : Draft) (k v : YamlValue) : Except ConfigurationError Draft :=
  match k.untagged with
  | .string name =>
    if name = "device_namespace" then
      (once d.deviceNamespace name (readText v)).map fun t => { d with deviceNamespace := t }
    else if name = "fetch_timeout_secs" then
      (once d.fetchTimeoutSecs name (readWholeNumber v)).map fun n => { d with fetchTimeoutSecs := n }
    else if name = "default_max_age_secs" then
      (once d.defaultMaxAgeSecs name (readWholeNumber v)).map fun n => { d with defaultMaxAgeSecs := n }
    else .ok d
  | other => .error (.invalidType other .name)

def readEntries : Draft → List (YamlValue × YamlValue) → Except ConfigurationError Draft
  | d, [] => .ok d
  | d, (k, v) :: r => do readEntries (← d.readEntry k v) r

/-- Settings that are not given have their standard values. -/
def finish (d : Draft) : Configuration where
  deviceNamespace := d.deviceNamespace.getD standard.deviceNamespace
  fetchTimeoutSecs := d.fetchTimeoutSecs.getD standard.fetchTimeoutSecs
  defaultMaxAgeSecs := d.defaultMaxAgeSecs.getD standard.defaultMaxAgeSecs

end Draft

def ofSettings (settings : YamlValue) : Except ConfigurationError Configuration :=
  match settings.untagged with
  | .null => .ok standard
  | .mapping settings => (Draft.readEntries {} settings).map Draft.finish
  | other => .error (.invalidType other .settings)

/-- Reads the section of a layer. Without a section all settings have their standard values. -/
def ofLayer (layer : YamlValue) : Except ConfigurationError Configuration :=
  match layer.untagged with
  | .mapping entries => match settings? entries with
    | some s => ofSettings s
    | none => .ok standard
  | _ => .ok standard

def readDocument (document : Option YamlValue) : Except ConfigurationError YamlValue :=
  match document with
  | some v => .ok v
  | none => .error .unreadable

def ofYaml (text : Text) : Except ConfigurationError Configuration := do
  ofLayer (withDocument (← readDocument (YamlDocument.read? text)))

/-- Reads a configuration from a file, if there is one, and from variables. -/
def load (file : Option (List UInt8)) (environment : List (Text × Text)) :
    Except ConfigurationError Configuration := do
  let layer ← match file with
    | none => .ok defaults
    | some bytes => (readDocument (YamlDocument.readBytes? bytes)).map withDocument
  ofLayer (withEnvironment environment layer)

end DeviceDescription.Configuration
