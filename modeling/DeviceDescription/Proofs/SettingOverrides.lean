import DeviceDescription.ConfigurationReader
import DeviceDescription.Proofs.EntryLookup
import DeviceDescription.Proofs.Traversal
import Mathlib

/-!
# Which overrides of settings take effect

A variable that overrides a setting is written into the section of a layer. If the document has left a mapping there,
the variable decides the setting. If not, no variable has any effect at all.
-/
namespace DeviceDescription

open YamlValue Traversal

inductive Setting where
  | deviceNamespace
  | fetchTimeoutSecs
  | defaultMaxAgeSecs
  deriving DecidableEq

namespace Setting

open DeviceDescription.Configuration

def name : Setting → Text
  | deviceNamespace => "device_namespace"
  | fetchTimeoutSecs => "fetch_timeout_secs"
  | defaultMaxAgeSecs => "default_max_age_secs"

abbrev Value : Setting → Type
  | deviceNamespace => Text
  | fetchTimeoutSecs => Nat
  | defaultMaxAgeSecs => Nat

def read : (s : Setting) → YamlValue → Except ConfigurationError s.Value
  | deviceNamespace => readText
  | fetchTimeoutSecs => readWholeNumber
  | defaultMaxAgeSecs => readWholeNumber

def valueIn (c : Configuration) : (s : Setting) → s.Value
  | deviceNamespace => c.deviceNamespace
  | fetchTimeoutSecs => c.fetchTimeoutSecs
  | defaultMaxAgeSecs => c.defaultMaxAgeSecs

def draftIn (d : Draft) : (s : Setting) → Option s.Value
  | deviceNamespace => d.deviceNamespace
  | fetchTimeoutSecs => d.fetchTimeoutSecs
  | defaultMaxAgeSecs => d.defaultMaxAgeSecs

/-- The text of a variable that names a setting, in any letter case. -/
def override? (s : Setting) (v : Text × Text) : Option Text :=
  (ConfigurationLayer.variableMark.isPrefixOf? v.1).bind fun written =>
    if ConfigurationLayer.lowerText written = s.name then some v.2 else none

variable {d d' : Draft} {k v : YamlValue}

private theorem once_eq_ok {α : Type} {old : Option α} {n : Text} {r : Except ConfigurationError α} {o : Option α}
    (h : Draft.once old n r = .ok o) : ∃ x, r = .ok x ∧ o = some x := by
  cases old with
  | some y => cases h
  | none =>
    obtain ⟨x, hx, rfl⟩ := exists_of_map_eq_ok h
    exact ⟨x, hx, rfl⟩

private theorem eq_none_of_once_eq_ok {α : Type} {old : Option α} {n : Text} {r : Except ConfigurationError α}
    {o : Option α} (h : Draft.once old n r = .ok o) : old = none := by
  cases old with
  | some y => cases h
  | none => rfl

theorem draftIn_of_readEntry (s : Setting) (hk : k.untagged = .string s.name) (h : d.readEntry k v = .ok d') :
    ∃ x, s.read v = .ok x ∧ s.draftIn d' = some x := by
  simp only [Draft.readEntry, hk] at h
  cases s with
  | deviceNamespace =>
    obtain ⟨o, ho, rfl⟩ := exists_of_map_eq_ok h
    exact once_eq_ok ho
  | fetchTimeoutSecs =>
    obtain ⟨o, ho, rfl⟩ := exists_of_map_eq_ok h
    exact once_eq_ok ho
  | defaultMaxAgeSecs =>
    obtain ⟨o, ho, rfl⟩ := exists_of_map_eq_ok h
    exact once_eq_ok ho

private theorem draftIn_of_readEntry_of_ne (s : Setting) (hk : k.untagged ≠ .string s.name)
    (h : d.readEntry k v = .ok d') :
    s.draftIn d' = s.draftIn d := by
  unfold Draft.readEntry at h
  split at h
  · rename_i n hn
    rw [hn] at hk
    split_ifs at h with hdevice hfetch hmax
    · obtain ⟨o, -, rfl⟩ := exists_of_map_eq_ok h
      cases s with
      | deviceNamespace => exact absurd (congrArg YamlValue.string hdevice) hk
      | fetchTimeoutSecs => rfl
      | defaultMaxAgeSecs => rfl
    · obtain ⟨o, -, rfl⟩ := exists_of_map_eq_ok h
      cases s with
      | deviceNamespace => rfl
      | fetchTimeoutSecs => exact absurd (congrArg YamlValue.string hfetch) hk
      | defaultMaxAgeSecs => rfl
    · obtain ⟨o, -, rfl⟩ := exists_of_map_eq_ok h
      cases s with
      | deviceNamespace => rfl
      | fetchTimeoutSecs => rfl
      | defaultMaxAgeSecs => exact absurd (congrArg YamlValue.string hmax) hk
    · cases h
      rfl
  · cases h

private theorem draftIn_eq_none_of_readEntry (s : Setting) (hk : k.untagged = .string s.name)
    (h : d.readEntry k v = .ok d') :
    s.draftIn d = none := by
  simp only [Draft.readEntry, hk] at h
  cases s <;>
  · obtain ⟨o, ho, -⟩ := exists_of_map_eq_ok h
    exact eq_none_of_once_eq_ok ho

/-- What was read of a setting stays, since a second entry for it is a fault. -/
theorem draftIn_of_readEntries (s : Setting) {entries : List (YamlValue × YamlValue)} {x : s.Value}
    (hd : s.draftIn d = some x) (h : d.readEntries entries = .ok d') : s.draftIn d' = some x := by
  induction entries generalizing d with
  | nil =>
    cases h
    exact hd
  | cons e entries ih =>
    obtain ⟨k, v⟩ := e
    obtain ⟨d₁, h₁, h⟩ := bind_eq_ok h
    by_cases hk : k.untagged = .string s.name
    · rw [draftIn_eq_none_of_readEntry s hk h₁] at hd
      cases hd
    · exact ih ((draftIn_of_readEntry_of_ne s hk h₁).trans hd) h

/-- The entry that is found under the name of a setting is the one that counts. -/
theorem draftIn_of_find? (s : Setting) {entries : List (YamlValue × YamlValue)}
    (hf : find? (.string s.name) entries = some v) (h : d.readEntries entries = .ok d') :
    ∃ x, s.read v = .ok x ∧ s.draftIn d' = some x := by
  induction entries generalizing d with
  | nil => cases hf
  | cons e entries ih =>
    obtain ⟨k, w⟩ := e
    obtain ⟨d₁, h₁, h⟩ := bind_eq_ok h
    rw [find?] at hf
    split at hf
    · rename_i hk
      obtain rfl := Option.some.inj hf
      obtain ⟨x, hx, hd⟩ := draftIn_of_readEntry s (congrArg YamlValue.untagged (agree_string_right.mp hk)) h₁
      exact ⟨x, hx, draftIn_of_readEntries s hd h⟩
    · exact ih hf h

theorem valueIn_finish (s : Setting) {x : s.Value} (h : s.draftIn d = some x) : s.valueIn d.finish = x := by
  cases s <;>
  · simp only [draftIn] at h
    simp [valueIn, Draft.finish, h]

end Setting

namespace ConfigurationLayer

/-- The settings in the section of a layer, which is open to overrides unless something else than a mapping stands
there. -/
def openSection? : YamlValue → Option (List (YamlValue × YamlValue))
  | .mapping entries => match settings? entries with
    | none => some []
    | some (.mapping settings) => some settings
    | some _ => none
  | _ => none

@[simp] theorem openSection?_putSetting (name : Text) (value : YamlValue) (layer : YamlValue) :
    openSection? (putSetting name value layer) = (openSection? layer).map (put (.string name) value) := by
  cases layer with
  | mapping entries =>
    simp only [putSetting, openSection?]
    cases hs : settings? entries with
    | none => simp [settings?, putSettings, find?_put, put]
    | some found =>
      cases found with
      | mapping settings => simp [settings?, putSettings, find?_put]
      | _ => simp [hs]
  | _ => rfl

theorem putSetting_of_closed {layer : YamlValue} (h : openSection? layer = none) (name : Text) (value : YamlValue) :
    putSetting name value layer = layer := by
  cases layer with
  | mapping entries =>
    rw [openSection?] at h
    cases hs : settings? entries with
    | none =>
      rw [hs] at h
      cases h
    | some found =>
      cases found with
      | mapping settings =>
        rw [hs] at h
        cases h
      | _ => rw [putSetting, hs]
  | _ => rfl

theorem withEnvironment_eq_self {layer : YamlValue} {environment : List (Text × Text)}
    (h : ∀ v ∈ environment, override layer v.1 v.2 = layer) : withEnvironment environment layer = layer := by
  induction environment with
  | nil => rfl
  | cons v environment ih =>
    change withEnvironment environment (override layer v.1 v.2) = layer
    rw [h v List.mem_cons_self, ih fun w hw => h w (List.mem_cons_of_mem _ hw)]

theorem withEnvironment_of_closed {layer : YamlValue} (h : openSection? layer = none)
    (environment : List (Text × Text)) : withEnvironment environment layer = layer := by
  refine withEnvironment_eq_self fun v _ => ?_
  unfold override
  split
  · rfl
  · exact putSetting_of_closed h _ _

variable {layer : YamlValue} {settings : List (YamlValue × YamlValue)} (s : Setting)

private theorem find?_override (h : openSection? layer = some settings) (v : Text × Text) :
    ∃ settings', openSection? (override layer v.1 v.2) = some settings' ∧
      find? (.string s.name) settings' = ((s.override? v).map variableValue).or (find? (.string s.name) settings) := by
  unfold override Setting.override?
  cases variableMark.isPrefixOf? v.1 with
  | none => exact ⟨settings, h, rfl⟩
  | some written =>
    refine ⟨_, (openSection?_putSetting _ _ _).trans (congrArg _ h), ?_⟩
    by_cases hn : lowerText written = s.name <;> simp [find?_put, hn]

theorem find?_withEnvironment (h : openSection? layer = some settings) (environment : List (Text × Text)) :
    ∃ settings', openSection? (withEnvironment environment layer) = some settings' ∧
      find? (.string s.name) settings' =
        ((environment.filterMap s.override?).getLast?.map variableValue).or (find? (.string s.name) settings) := by
  induction environment generalizing layer settings with
  | nil => exact ⟨settings, h, rfl⟩
  | cons v environment ih =>
    obtain ⟨settings₁, h₁, hf₁⟩ := find?_override s h v
    obtain ⟨settings₂, h₂, hf₂⟩ := ih h₁
    refine ⟨settings₂, h₂, ?_⟩
    rw [hf₂, hf₁, List.filterMap_cons]
    cases s.override? v with
    | none => rfl
    | some t =>
      rw [List.getLast?_cons]
      cases (environment.filterMap s.override?).getLast? <;> rfl

theorem ofLayer_of_openSection (h : openSection? layer = some settings) :
    Configuration.ofLayer layer = (Configuration.Draft.readEntries {} settings).map Configuration.Draft.finish := by
  cases layer with
  | mapping entries =>
    simp only [openSection?] at h
    simp only [Configuration.ofLayer, untagged]
    split at h
    · rename_i hs
      cases h
      rw [hs]
      rfl
    · rename_i hs
      cases h
      rw [hs]
      rfl
    · cases h
  | _ => cases h

/-- The defaults have an open section, so a layer over them has one unless the document closes it. -/
theorem openSection?_withDocument_isSome (document : YamlValue) :
    (openSection? (withDocument document)).isSome = (openSection? (lowerKeys document)).isSome := by
  cases document with
  | mapping entries =>
    rw [withDocument, defaults, lowerKeys, merge, openSection?, openSection?, settings?, settings?,
      find?_mergeEntries (areDistinct_keys_collect _)]
    cases hf : find? (.string "description") (collect (lowerEntries entries)) with
    | none => rfl
    | some v => cases v <;> rfl
  | _ => rfl

end ConfigurationLayer

namespace Configuration

open ConfigurationLayer

/-- Whether a file, if there is one, leaves the section open. -/
def KeepsSection (file : Option (List UInt8)) : Prop :=
  ∀ bytes ∈ file, ∀ document ∈ YamlDocument.readBytes? bytes, (openSection? (lowerKeys document)).isSome = true

/-- What a file makes of the defaults. -/
def fileLayer (file : Option (List UInt8)) : Except ConfigurationError YamlValue :=
  match file with
  | none => .ok defaults
  | some bytes => (readDocument (YamlDocument.readBytes? bytes)).map withDocument

theorem load_eq (file : Option (List UInt8)) (environment : List (Text × Text)) :
    load file environment = fileLayer file >>= fun layer => ofLayer (withEnvironment environment layer) := by
  cases file <;> rfl

theorem keepsSection_iff {file : Option (List UInt8)} {layer : YamlValue} (h : fileLayer file = .ok layer) :
    KeepsSection file ↔ (openSection? layer).isSome = true := by
  cases file with
  | none =>
    cases h
    simp [KeepsSection, defaults, openSection?, settings?, find?]
  | some bytes =>
    obtain ⟨document, hd, rfl⟩ := exists_of_map_eq_ok h
    rw [openSection?_withDocument_isSome]
    cases hb : YamlDocument.readBytes? bytes with
    | none =>
      rw [hb] at hd
      cases hd
    | some document' =>
      rw [hb] at hd
      cases hd
      simp [KeepsSection, hb]

/-- A variable that alone names a setting, with a value that fits it, decides the setting of every configuration that
is loaded with a file that keeps the section open. With any other file, no variable has an effect. -/
theorem load_override_or_ignored (s : Setting) {file : Option (List UInt8)} {environment : List (Text × Text)}
    {t : Text} {x : s.Value} (hone : environment.filterMap s.override? = [t]) (hx : s.read (variableValue t) = .ok x) :
    (KeepsSection file → ∀ c, load file environment = .ok c → s.valueIn c = x) ∧
    (¬KeepsSection file → load file environment = load file []) := by
  constructor
  · intro hkeeps c hc
    rw [load_eq] at hc
    obtain ⟨layer, hlayer, hc⟩ := bind_eq_ok hc
    obtain ⟨settings, hs⟩ := Option.isSome_iff_exists.mp ((keepsSection_iff hlayer).mp hkeeps)
    obtain ⟨settings', hs', hf⟩ := find?_withEnvironment s hs environment
    rw [hone, List.getLast?_singleton, Option.map_some, Option.some_or] at hf
    rw [ofLayer_of_openSection hs'] at hc
    obtain ⟨d, hd, rfl⟩ := exists_of_map_eq_ok hc
    obtain ⟨y, hy, hdraft⟩ := s.draftIn_of_find? hf hd
    obtain rfl := Except.ok.inj (hx.symm.trans hy)
    exact s.valueIn_finish hdraft
  · intro hlost
    rw [load_eq, load_eq]
    cases hlayer : fileLayer file with
    | error e => rfl
    | ok layer =>
      rw [keepsSection_iff hlayer, Bool.not_eq_true, Option.isSome_eq_false_iff, Option.isNone_iff_eq_none] at hlost
      rw [ok_bind, ok_bind, withEnvironment_of_closed hlost, withEnvironment_of_closed hlost]

def sampleVariables : List (Text × Text) := [("HOME", "9"), ("PMODESCRIPTION_CONFIG__Fetch_Timeout_Secs", "5")]

private theorem override?_sampleVariables :
    sampleVariables.filterMap Setting.fetchTimeoutSecs.override? = [("5" : Text)] := by
  decide +kernel

private theorem variableValue_five : variableValue "5" = .integer 5 := by cbv

private theorem withEnvironment_sampleVariables (layer : YamlValue) :
    withEnvironment sampleVariables layer = putSetting "fetch_timeout_secs" (.integer 5) layer := by
  have hother : variableMark.isPrefixOf? ("HOME" : Text) = none := by decide +kernel
  have hmarked : (variableMark.isPrefixOf? ("PMODESCRIPTION_CONFIG__Fetch_Timeout_Secs" : Text)).map lowerText =
      some "fetch_timeout_secs".toList := by decide +kernel
  obtain ⟨written, hwritten, hname⟩ := Option.map_eq_some_iff.mp hmarked
  simp only [withEnvironment, sampleVariables, List.foldl_cons, List.foldl_nil, override, hother, hwritten, hname,
    variableValue_five]

private theorem read_five : Setting.fetchTimeoutSecs.read (variableValue "5") = .ok (5 : Nat) := by
  rw [variableValue_five]
  rfl

def sampleFile : List UInt8 := "Description: {FETCH_timeout_secs: 7}".toUTF8.toList

private theorem readBytes?_sampleFile : YamlDocument.readBytes? sampleFile =
    some (.mapping [(.string "Description", .mapping [(.string "FETCH_timeout_secs", .integer 7)])]) := by cbv

theorem load_override_or_ignored_sample :
    sampleVariables.filterMap Setting.fetchTimeoutSecs.override? = [("5" : Text)] ∧
    Setting.fetchTimeoutSecs.read (variableValue "5") = .ok (5 : Nat) ∧ KeepsSection (some sampleFile) ∧
    ∃ c, load (some sampleFile) sampleVariables = .ok c ∧ c.fetchTimeoutSecs = 5 := by
  have hkeeps : KeepsSection (some sampleFile) := by
    intro bytes hbytes document hdocument
    obtain rfl := Option.some.inj hbytes
    obtain rfl := Option.some.inj (readBytes?_sampleFile.symm.trans hdocument)
    decide +kernel
  have hload : (load (some sampleFile) sampleVariables).toOption.map defaultMaxAgeSecs = some 1800 := by
    simp only [load_eq, fileLayer, readBytes?_sampleFile, readDocument, Except.map, ok_bind,
      withEnvironment_sampleVariables]
    decide +kernel
  obtain ⟨c, hc, -⟩ := exists_ok_of_toOption_map hload
  have hfetch := (load_override_or_ignored _ override?_sampleVariables read_five).1 hkeeps c hc
  exact ⟨override?_sampleVariables, read_five, hkeeps, c, hc, hfetch⟩

/-- A section with nothing in it is null, and no variable gets past it. -/
theorem load_loses_override :
    ¬∀ (s : Setting) (file : Option (List UInt8)) (environment : List (Text × Text)) (t : Text) (x : s.Value),
      (∀ bytes ∈ file, (YamlDocument.readBytes? bytes).isSome = true) →
      environment.filterMap s.override? = [t] → s.read (variableValue t) = .ok x →
      ∀ c, load file environment = .ok c → s.valueIn c = x := by
  intro hall
  have hdocument : YamlDocument.readBytes? "description:".toUTF8.toList =
      some (.mapping [(.string "description", .null)]) := by cbv
  have hreadable : ∀ bytes ∈ some "description:".toUTF8.toList, (YamlDocument.readBytes? bytes).isSome = true := by
    intro bytes hbytes
    obtain rfl := Option.some.inj hbytes
    rw [hdocument]
    rfl
  have hload : load (some "description:".toUTF8.toList) sampleVariables = .ok standard := by
    rw [load_eq, fileLayer, hdocument]
    cbv
  have h : standard.fetchTimeoutSecs = 5 := hall _ _ _ _ _ hreadable override?_sampleVariables read_five _ hload
  exact absurd h (by decide)

end Configuration
end DeviceDescription
