import DeviceDescription.DescriptionError
import DeviceDescription.Url

/-! # Texts of documents, fetched when they are asked for -/
namespace DeviceDescription

/-- What each call that fetches a text comes to, counted from zero. -/
abbrev Fetcher := Nat → Except FetchError Text

/-- Fetches over the network, which knows two schemes. -/
def Fetcher.forLocation (location : Url) (network : Fetcher) : Fetcher := fun call =>
  if location.scheme ∈ (["http", "https"] : List Text) then network call
  else .error (.unsupportedScheme location.scheme)

/-- The text of a document, if it is known, and how often it has been fetched. -/
structure DocumentText where
  known : Option Text
  calls : Nat := 0
  deriving DecidableEq, Repr

/-- A text is fetched until a call succeeds, and then kept. -/
def DocumentText.read (d : DocumentText) (fetcher : Fetcher) : Except DescriptionError Text × DocumentText :=
  match d.known with
  | some t => (.ok t, d)
  | none => match fetcher d.calls with
    | .ok t => (.ok t, ⟨some t, d.calls + 1⟩)
    | .error e => (.error (.fetch e), ⟨none, d.calls + 1⟩)

end DeviceDescription
