import DeviceDescription.Proofs.ReadValues
import DeviceDescription.Proofs.SettingOverrides

/-!
# What a document gives each setting

A document is laid over the defaults. Each setting has the value of the last entry of the section under its name, in
any letter case, or else its standard value. The settings are read in the order of the defaults.
-/
namespace DeviceDescription

open YamlValue Traversal ConfigurationLayer

namespace ConfigurationLayer

/-- The value of the last entry whose key is a name in some letter case. -/
def lastNamed? (name : Text) (entries : List (YamlValue × YamlValue)) : Option YamlValue :=
  (entries.filterMap fun e => if lowerKey e.1 = .string name then some e.2 else none).getLast?

theorem mem_of_lastNamed? {name : Text} {entries : List (YamlValue × YamlValue)} {v : YamlValue}
    (h : lastNamed? name entries = some v) : ∃ k, (k, v) ∈ entries := by
  obtain ⟨⟨k, w⟩, he, hw⟩ := List.mem_filterMap.mp (List.mem_of_getLast? h)
  split at hw
  · cases hw
    exact ⟨k, he⟩
  · cases hw

theorem lowerEntries_eq_map (entries : List (YamlValue × YamlValue)) :
    lowerEntries entries = entries.map fun e => (lowerKey e.1, lowerKeys e.2) := by
  induction entries with
  | nil => rfl
  | cons e entries ih => rw [lowerEntries, ih, List.map_cons]

@[simp] theorem find?_lowered (name : Text) (entries : List (YamlValue × YamlValue)) :
    find? (.string name) (collect (lowerEntries entries)) = (lastNamed? name entries).map lowerKeys := by
  rw [find?_collect, lowerEntries_eq_map, lastNamed?, ← List.getLast?_map, List.filterMap_map, List.map_filterMap]
  congr 2
  funext e
  by_cases he : lowerKey e.1 = .string name <;> simp [he]

/-- What a full mapping of case makes of a character may be several characters. Outside ASCII it is `k`, or it is not
all ASCII. -/
def IsLowered (c : Char) (part : Text) : Prop :=
  if c.toNat < 128 then part = [c.toLower] else part = ['k'] ∨ ∃ d ∈ part, 128 ≤ d.toNat

private theorem toLower_of_not_ascii {c : Char} (h : ¬c.toNat < 128) : c.toLower = c := by
  have hupper : ¬(c.val ≥ 'A'.val ∧ c.val ≤ 'Z'.val) := by
    rintro ⟨-, hle⟩
    have : c.toNat ≤ 90 := hle
    omega
  rw [Char.toLower]
  exact dif_neg hupper

private theorem flatten_eq_iff_lowerText_eq {name t : Text} {parts : List Text}
    (hname : ∀ c ∈ name, c.toNat < 128 ∧ c ≠ 'k') (h : List.Forall₂ IsLowered t parts) :
    parts.flatten = name ↔ lowerText t = name := by
  induction h generalizing name with
  | nil => rfl
  | @cons c part t parts hc _ ih =>
    rw [IsLowered] at hc
    split at hc
    · subst hc
      cases name with
      | nil => simp [lowerText]
      | cons d name =>
        have hrest := ih fun c hc => hname c (List.mem_cons_of_mem _ hc)
        rw [lowerText] at hrest ⊢
        rw [List.flatten_cons, List.singleton_append, List.map_cons, List.cons.injEq, List.cons.injEq, hrest]
    · rename_i hascii
      constructor
      · rintro rfl
        rcases hc with rfl | ⟨d, hd, hlarge⟩
        · exact absurd rfl (hname 'k' (by simp)).2
        · exact absurd (hname d (by simp [hd])).1 (Nat.not_lt.mpr hlarge)
      · rintro rfl
        exact absurd (hname c (by simp [lowerText, toLower_of_not_ascii hascii])).1 hascii

/-- A document may have a section, which is a mapping of names to values without tags. -/
structure HasSettings (entries settings : List (YamlValue × YamlValue)) : Prop where
  /-- Without a section there are no settings. -/
  section_eq : lastNamed? "description" entries = some (.mapping settings) ∨
    lastNamed? "description" entries = none ∧ settings = []
  name : ∀ e ∈ settings, ∃ t, e.1 = .string t
  untagged : ∀ e ∈ settings, ∀ tag v, e.2 ≠ .tagged tag v

end ConfigurationLayer

namespace Setting

def order : List Setting := [deviceNamespace, fetchTimeoutSecs, defaultMaxAgeSecs]

/-- A text becomes a name that is read under a full mapping of case just if it does so under that of ASCII. -/
theorem flatten_eq_name_iff {name t : Text} {parts : List Text} (h : List.Forall₂ IsLowered t parts)
    (hname : name ∈ ("description" : Text) :: order.map Setting.name) : parts.flatten = name ↔ lowerText t = name := by
  have hplain : (("description" : Text) :: order.map Setting.name).all
      (·.all fun c => c.toNat < 128 && c ≠ 'k') = true := by
    decide +kernel
  exact flatten_eq_iff_lowerText_eq (by simpa using List.all_eq_true.mp hplain name hname) h

def standardValue : Setting → YamlValue
  | deviceNamespace => .string "urn:schemas-upnp-org:device-1-0"
  | fetchTimeoutSecs => .integer 30
  | defaultMaxAgeSecs => .integer 1800

def given? (s : Setting) (settings : List (YamlValue × YamlValue)) : Option YamlValue := lastNamed? s.name settings

/-- A value is a whole number, and a word holds it. -/
def IsWord (v : YamlValue) (n : Nat) : Prop := v = .integer n ∧ n ≤ Numeral.maxWord64

/-- What is given for a setting writes a value of it. -/
def Writes : (s : Setting) → YamlValue → s.Value → Prop
  | deviceNamespace => fun v t => v = .string t
  | fetchTimeoutSecs => IsWord
  | defaultMaxAgeSecs => IsWord

def wordFault : YamlValue → ConfigurationError
  | .integer n => .invalidValue n .wholeNumber
  | v => .invalidType (lowerKeys v) .wholeNumber

/-- What is wrong with a value that writes none of a setting. -/
def fault : Setting → YamlValue → ConfigurationError
  | deviceNamespace => fun v => .invalidType (lowerKeys v) .text
  | fetchTimeoutSecs => wordFault
  | defaultMaxAgeSecs => wordFault

section Readings
variable {v : YamlValue} (htag : ∀ tag w, v ≠ .tagged tag w)
include htag

private theorem readText_lowerKeys :
    (∃ t, v = .string t ∧ Configuration.readText (lowerKeys v) = .ok t) ∨
      (∀ t, v ≠ .string t) ∧ Configuration.readText (lowerKeys v) = .error (.invalidType (lowerKeys v) .text) := by
  cases v with
  | string t => exact .inl ⟨t, rfl, rfl⟩
  | tagged tag w => exact absurd rfl (htag tag w)
  | _ =>
    refine .inr ⟨?_, rfl⟩
    rintro _ ⟨⟩

private theorem readWholeNumber_lowerKeys (hwords : YamlDocument.HoldsWords v) :
    (∃ n, IsWord v n ∧ Configuration.readWholeNumber (lowerKeys v) = .ok n) ∨
      (∀ n, ¬ IsWord v n) ∧ Configuration.readWholeNumber (lowerKeys v) = .error (wordFault v) := by
  cases v with
  | integer n =>
    have hword := hwords n .self
    rcases lt_or_ge n 0 with hn | hn
    · refine .inr ⟨?_, if_pos hn⟩
      rintro m ⟨hm, -⟩
      cases hm
      exact absurd hn (by omega)
    · obtain ⟨m, rfl⟩ := Int.eq_ofNat_of_zero_le hn
      have hread : Configuration.readWholeNumber (.integer m) = .ok m := by
        simp [Configuration.readWholeNumber, untagged]
      refine .inl ⟨m, ⟨rfl, ?_⟩, hread⟩
      rw [Numeral.maxWord64]
      omega
  | tagged tag w => exact absurd rfl (htag tag w)
  | _ =>
    refine .inr ⟨?_, rfl⟩
    rintro _ ⟨⟨⟩, -⟩

/-- What is given is read as what it writes, or it is refused with its fault. -/
theorem read_lowerKeys (s : Setting) (hwords : YamlDocument.HoldsWords v) :
    (∃ x, s.Writes v x ∧ s.read (lowerKeys v) = .ok x) ∨
      (∀ x, ¬ s.Writes v x) ∧ s.read (lowerKeys v) = .error (s.fault v) :=
  match s with
  | deviceNamespace => readText_lowerKeys htag
  | fetchTimeoutSecs => readWholeNumber_lowerKeys htag hwords
  | defaultMaxAgeSecs => readWholeNumber_lowerKeys htag hwords

end Readings

section Given
variable (s : Setting) (settings : List (YamlValue × YamlValue))

def Fits : Prop := ∀ v, s.given? settings = some v → ∃ x, s.Writes v x

/-- The setting has what it is given, or its standard value. -/
def Takes (x : s.Value) : Prop :=
  match s.given? settings with
  | some v => s.Writes v x
  | none => x = s.valueIn .standard

/-- The value of a setting in the section, after the document has been laid over the defaults. -/
def layered : YamlValue := ((s.given? settings).map lowerKeys).getD s.standardValue

@[simp] private theorem read_standardValue : s.read s.standardValue = .ok (s.valueIn .standard) := by
  cases s <;> rfl

variable {entries : List (YamlValue × YamlValue)}

theorem read_layered (h : HasSettings entries settings) (hwords : YamlDocument.HoldsWords (.mapping settings)) :
    (∃ x, s.Takes settings x ∧ s.read (s.layered settings) = .ok x) ∨
      ∃ v, s.given? settings = some v ∧ (∀ x, ¬ s.Writes v x) ∧ s.read (s.layered settings) = .error (s.fault v) := by
  cases hg : s.given? settings with
  | none =>
    refine .inl ⟨s.valueIn .standard, ?_, ?_⟩
    · rw [Takes, hg]
    · rw [layered, hg]
      exact s.read_standardValue
  | some v =>
    obtain ⟨k, hk⟩ := mem_of_lastNamed? hg
    have hv : YamlDocument.HoldsWords v := fun n hn => hwords n (.value hk hn)
    have hlayered : s.layered settings = lowerKeys v := by
      rw [layered, hg]
      rfl
    rw [hlayered]
    rcases s.read_lowerKeys (h.untagged _ hk) hv with ⟨x, hx, hread⟩ | ⟨hnone, hread⟩
    · refine .inl ⟨x, ?_, hread⟩
      rw [Takes, hg]
      exact hx
    · exact .inr ⟨v, rfl, hnone, hread⟩

end Given

end Setting

namespace ConfigurationLayer

variable {entries settings : List (YamlValue × YamlValue)}

def standardSettings : List (YamlValue × YamlValue) :=
  Setting.order.map fun s => (.string s.name, s.standardValue)

theorem defaults_eq : defaults = .mapping [(.string "description", .mapping standardSettings)] := rfl

def layeredSettings (settings : List (YamlValue × YamlValue)) : List (YamlValue × YamlValue) :=
  mergeEntries standardSettings (collect (lowerEntries settings))

theorem openSection?_withDocument (h : HasSettings entries settings) :
    openSection? (withDocument (.mapping entries)) = some (layeredSettings settings) := by
  rw [withDocument, defaults_eq, lowerKeys, merge, openSection?, settings?,
    find?_mergeEntries (areDistinct_keys_collect _), find?_lowered]
  rcases h.section_eq with hs | ⟨hs, rfl⟩
  · rw [hs]
    rfl
  · rw [hs]
    rfl

private theorem exists_name_of_mem_lowered {k : YamlValue} (h : ∀ e ∈ settings, ∃ t, e.1 = .string t)
    (hk : k ∈ (collect (lowerEntries settings)).map Prod.fst) : ∃ t, k = .string t := by
  obtain ⟨e', he', rfl⟩ := List.mem_map.mp (mem_keys_of_collect hk)
  rw [lowerEntries_eq_map] at he'
  obtain ⟨e, he, rfl⟩ := List.mem_map.mp he'
  obtain ⟨t, ht⟩ := h e he
  exact ⟨lowerText t, by rw [ht]; rfl⟩

@[simp]
private theorem find?_standardSettings (s : Setting) :
    find? (.string s.name) standardSettings = some s.standardValue := by
  cases s <;> rfl

/-- No standard value is a mapping, so what is laid over it takes its place. -/
@[simp] theorem merge_standardValue (s : Setting) (v : YamlValue) : merge s.standardValue v = v := by
  cases s <;> cases v <;> rfl

@[simp] theorem find?_layeredSettings (s : Setting) :
    find? (.string s.name) (layeredSettings settings) = some (s.layered settings) := by
  rw [layeredSettings, find?_mergeEntries (areDistinct_keys_collect _), find?_lowered, Setting.layered, Setting.given?]
  cases lastNamed? s.name settings with
  | none => exact find?_standardSettings s
  | some v =>
    simp only [Option.map_some, Option.getD_some, overlay, find?_standardSettings, merge_standardValue]

/-- The settings stand in front in their order. Behind them stand other names. -/
theorem layeredSettings_eq (h : ∀ e ∈ settings, ∃ t, e.1 = .string t) :
    ∃ rest, layeredSettings settings = (Setting.order.map fun s => (.string s.name, s.layered settings)) ++ rest ∧
      ∀ e ∈ rest, ∃ t, e.1 = .string t ∧ ∀ s : Setting, t ≠ s.name := by
  have hkeys := keys_mergeEntries (areDistinct_keys_collect (lowerEntries settings)) standardSettings
  obtain ⟨front, rest, hsplit, hfront, hrest⟩ := List.map_eq_append_iff.mp hkeys
  refine ⟨rest, ?_, ?_⟩
  · -- The keys in front are the names of the settings, so the look-ups tell the values.
    have hfind (s : Setting) : find? (.string s.name) (front ++ rest) = some (s.layered settings) := by
      rw [← hsplit]
      exact find?_layeredSettings s
    obtain ⟨⟨_, a⟩, front₁, rfl, rfl, hfront₁⟩ := List.map_eq_cons_iff.mp hfront
    obtain ⟨⟨_, b⟩, front₂, rfl, rfl, hfront₂⟩ := List.map_eq_cons_iff.mp hfront₁
    obtain ⟨⟨_, c⟩, front₃, rfl, rfl, hfront₃⟩ := List.map_eq_cons_iff.mp hfront₂
    obtain rfl := List.map_eq_nil_iff.mp hfront₃
    obtain rfl : a = Setting.deviceNamespace.layered settings := Option.some.inj (hfind .deviceNamespace)
    obtain rfl : b = Setting.fetchTimeoutSecs.layered settings := Option.some.inj (hfind .fetchTimeoutSecs)
    obtain rfl : c = Setting.defaultMaxAgeSecs.layered settings := Option.some.inj (hfind .defaultMaxAgeSecs)
    exact hsplit
  · intro e he
    have hmem : e.1 ∈ rest.map Prod.fst := List.mem_map_of_mem he
    rw [hrest] at hmem
    obtain ⟨hcollected, hnew⟩ := List.mem_filter.mp hmem
    obtain ⟨t, ht⟩ := exists_name_of_mem_lowered h hcollected
    refine ⟨t, ht, fun s hs => ?_⟩
    have hold : (standardSettings.map Prod.fst).any (agree e.1) = true := by
      rw [ht, hs]
      cases s <;> decide
    rw [hold] at hnew
    cases hnew

end ConfigurationLayer

namespace Configuration

variable {entries settings : List (YamlValue × YamlValue)}

namespace Draft

theorem readEntries_append (d : Draft) (front rest : List (YamlValue × YamlValue)) :
    d.readEntries (front ++ rest) = d.readEntries front >>= fun d => d.readEntries rest := by
  induction front generalizing d with
  | nil => rfl
  | cons e front ih =>
    obtain ⟨k, v⟩ := e
    rw [List.cons_append, readEntries, readEntries]
    cases d.readEntry k v with
    | error x => rfl
    | ok next => exact ih next

theorem readEntry_string (d : Draft) (t : Text) (v : YamlValue) :
    d.readEntry (.string t) v =
      if t = Setting.deviceNamespace.name then
        (once d.deviceNamespace t (readText v)).map fun x => { d with deviceNamespace := x }
      else if t = Setting.fetchTimeoutSecs.name then
        (once d.fetchTimeoutSecs t (readWholeNumber v)).map fun x => { d with fetchTimeoutSecs := x }
      else if t = Setting.defaultMaxAgeSecs.name then
        (once d.defaultMaxAgeSecs t (readWholeNumber v)).map fun x => { d with defaultMaxAgeSecs := x }
      else .ok d := rfl

theorem readEntry_of_other (d : Draft) {t : Text} (ht : ∀ s : Setting, t ≠ s.name) (v : YamlValue) :
    d.readEntry (.string t) v = .ok d := by
  rw [readEntry_string, if_neg (ht .deviceNamespace), if_neg (ht .fetchTimeoutSecs), if_neg (ht .defaultMaxAgeSecs)]

private theorem readEntries_of_other (d : Draft) {rest : List (YamlValue × YamlValue)}
    (h : ∀ e ∈ rest, ∃ t, e.1 = .string t ∧ ∀ s : Setting, t ≠ s.name) : d.readEntries rest = .ok d := by
  induction rest with
  | nil => rfl
  | cons e rest ih =>
    obtain ⟨k, v⟩ := e
    obtain ⟨t, hk, ht⟩ := h (k, v) List.mem_cons_self
    obtain rfl : k = .string t := hk
    rw [readEntries, d.readEntry_of_other ht]
    exact ih fun x hx => h x (List.mem_cons_of_mem _ hx)

section Entries
variable {d : Draft} (v : YamlValue)

@[simp] theorem once_none {α : Type} (name : Text) (read : Except ConfigurationError α) :
    once none name read = read.map some := rfl

private theorem readEntry_deviceNamespace (hd : d.deviceNamespace = none) :
    d.readEntry (.string Setting.deviceNamespace.name) v =
      (readText v).map fun t => { d with deviceNamespace := some t } := by
  rw [readEntry_string, if_pos rfl, hd, once_none]
  cases readText v <;> rfl

private theorem readEntry_fetchTimeoutSecs (hd : d.fetchTimeoutSecs = none) :
    d.readEntry (.string Setting.fetchTimeoutSecs.name) v =
      (readWholeNumber v).map fun n => { d with fetchTimeoutSecs := some n } := by
  rw [readEntry_string, if_neg (by decide), if_pos rfl, hd, once_none]
  cases readWholeNumber v <;> rfl

private theorem readEntry_defaultMaxAgeSecs (hd : d.defaultMaxAgeSecs = none) :
    d.readEntry (.string Setting.defaultMaxAgeSecs.name) v =
      (readWholeNumber v).map fun n => { d with defaultMaxAgeSecs := some n } := by
  rw [readEntry_string, if_neg (by decide), if_neg (by decide), if_pos rfl, hd, once_none]
  cases readWholeNumber v <;> rfl

end Entries

theorem readEntries_order (f : Setting → YamlValue) :
    readEntries {} (Setting.order.map fun s => (.string s.name, f s)) = (do
      let t ← readText (f .deviceNamespace)
      let n ← readWholeNumber (f .fetchTimeoutSecs)
      let m ← readWholeNumber (f .defaultMaxAgeSecs)
      .ok ⟨some t, some n, some m⟩) := by
  rw [Setting.order, List.map_cons, readEntries, readEntry_deviceNamespace _ rfl]
  cases readText (f .deviceNamespace) with
  | error e => rfl
  | ok t =>
    rw [Except.map, ok_bind, ok_bind, List.map_cons, readEntries, readEntry_fetchTimeoutSecs _ rfl]
    cases readWholeNumber (f .fetchTimeoutSecs) with
    | error e => rfl
    | ok n =>
      rw [Except.map, ok_bind, ok_bind, List.map_cons, readEntries, readEntry_defaultMaxAgeSecs _ rfl]
      cases readWholeNumber (f .defaultMaxAgeSecs) <;> rfl

end Draft

theorem ofLayer_withDocument (h : HasSettings entries settings) :
    ofLayer (withDocument (.mapping entries)) = (do
      let t ← readText (Setting.deviceNamespace.layered settings)
      let n ← readWholeNumber (Setting.fetchTimeoutSecs.layered settings)
      let m ← readWholeNumber (Setting.defaultMaxAgeSecs.layered settings)
      .ok ⟨t, n, m⟩) := by
  obtain ⟨rest, heq, hrest⟩ := layeredSettings_eq h.name
  rw [ofLayer_of_openSection (openSection?_withDocument h), heq, Draft.readEntries_append, Draft.readEntries_order]
  cases readText (Setting.deviceNamespace.layered settings) with
  | error e => rfl
  | ok t =>
    cases readWholeNumber (Setting.fetchTimeoutSecs.layered settings) with
    | error e => rfl
    | ok n =>
      cases readWholeNumber (Setting.defaultMaxAgeSecs.layered settings) with
      | error e => rfl
      | ok m =>
        simp only [ok_bind, Draft.readEntries_of_other _ hrest]
        rfl

private theorem read_layered_of_ok (h : HasSettings entries settings) {c : Configuration}
    (hc : ofLayer (withDocument (.mapping entries)) = .ok c) (s : Setting) :
    s.read (s.layered settings) = .ok (s.valueIn c) := by
  rw [ofLayer_withDocument h] at hc
  obtain ⟨t, ht, hc⟩ := bind_eq_ok hc
  obtain ⟨n, hn, hc⟩ := bind_eq_ok hc
  obtain ⟨m, hm, hc⟩ := bind_eq_ok hc
  cases hc
  cases s with
  | deviceNamespace => exact ht
  | fetchTimeoutSecs => exact hn
  | defaultMaxAgeSecs => exact hm

/-- The first setting that cannot be read, in the order of the defaults, is the one that is reported. -/
theorem ofLayer_eq_error (h : HasSettings entries settings) {before after : List Setting} {s : Setting}
    {e : ConfigurationError} (horder : Setting.order = before ++ s :: after)
    (hbefore : ∀ r ∈ before, ∃ x, r.read (r.layered settings) = .ok x)
    (hs : s.read (s.layered settings) = .error e) : ofLayer (withDocument (.mapping entries)) = .error e := by
  rw [ofLayer_withDocument h]
  -- Up to two settings are read before the one that cannot be.
  rcases before with _ | ⟨a, _ | ⟨b, _ | ⟨c, before⟩⟩⟩
  · obtain rfl : Setting.deviceNamespace = s := (List.cons.inj horder).1
    rw [show readText _ = _ from hs, error_bind]
  · cases horder
    obtain ⟨t, ht⟩ := hbefore .deviceNamespace List.mem_cons_self
    rw [show readText _ = _ from ht, ok_bind, show readWholeNumber _ = _ from hs, error_bind]
  · cases horder
    obtain ⟨t, ht⟩ := hbefore .deviceNamespace List.mem_cons_self
    obtain ⟨n, hn⟩ := hbefore .fetchTimeoutSecs (by simp)
    rw [show readText _ = _ from ht, ok_bind, show readWholeNumber _ = _ from hn, ok_bind,
      show readWholeNumber _ = _ from hs, error_bind]
  · have hlength := congrArg List.length horder
    simp [Setting.order] at hlength

private theorem holdsWords_settings (h : HasSettings entries settings)
    (hwords : YamlDocument.HoldsWords (.mapping entries)) :
    YamlDocument.HoldsWords (.mapping settings) := by
  intro n hn
  rcases h.section_eq with hs | ⟨-, rfl⟩
  · obtain ⟨k, hk⟩ := mem_of_lastNamed? hs
    exact hwords n (.value hk hn)
  · cases hn with
    | key he => cases he
    | value he => cases he

theorem withEnvironment_of_unmarked {environment : List (Text × Text)}
    (h : ∀ v ∈ environment, variableMark.isPrefixOf? v.1 = none) (layer : YamlValue) :
    withEnvironment environment layer = layer :=
  withEnvironment_eq_self fun v hv => by rw [override, h v hv]

private theorem ofYaml_of_read {text : Text} {document : YamlValue} (h : YamlDocument.read? text = some document) :
    ofYaml text = ofLayer (withDocument document) := by
  rw [ofYaml, h]
  rfl

private theorem load_encodeUtf8 (text : Text) {environment : List (Text × Text)}
    (h : ∀ v ∈ environment, variableMark.isPrefixOf? v.1 = none) :
    load (some (CharacterEncoding.encodeUtf8 text)) environment = ofYaml text := by
  have hbytes : YamlDocument.readBytes? (CharacterEncoding.encodeUtf8 text) = YamlDocument.read? text := by
    rw [YamlDocument.readBytes?, CharacterEncoding.decodeUtf8?_encodeUtf8]
    rfl
  rw [load_eq, fileLayer, hbytes, ofYaml]
  cases YamlDocument.read? text with
  | none => rfl
  | some document => exact congrArg ofLayer (withEnvironment_of_unmarked h _)

theorem load_none {environment : List (Text × Text)}
    (h : ∀ v ∈ environment, variableMark.isPrefixOf? v.1 = none) : load none environment = ofYaml "{}" := by
  have hread : YamlDocument.read? "{}" = some (.mapping []) := by cbv
  rw [load_eq, fileLayer, ok_bind, withEnvironment_of_unmarked h, ofYaml_of_read hread]
  rfl

/-- A document that may have a section over the defaults is read setting by setting. It is accepted exactly if each
setting that the section gives, under the last key that names it in any letter case, fits. Then each setting has what
it is given, or its standard value. If not, the first setting that does not fit is reported, in the order of the
defaults. A file of the text, or no file, is loaded with the same outcome if no variable overrides a setting. -/
theorem ofYaml_setting_by_setting {text : Text} (hread : YamlDocument.read? text = some (.mapping entries))
    (h : HasSettings entries settings) :
    ((∃ c, ofYaml text = .ok c) ↔ ∀ s : Setting, s.Fits settings) ∧
    (∀ c, ofYaml text = .ok c → ∀ s : Setting, s.Takes settings (s.valueIn c)) ∧
    (∀ before s after v, Setting.order = before ++ s :: after → (∀ r ∈ before, r.Fits settings) →
      s.given? settings = some v → (∀ x, ¬ s.Writes v x) → ofYaml text = .error (s.fault v)) ∧
    ∀ environment : List (Text × Text), (∀ v ∈ environment, variableMark.isPrefixOf? v.1 = none) →
      load (some (CharacterEncoding.encodeUtf8 text)) environment = ofYaml text ∧
      load none environment = ofYaml "{}" := by
  have hwords := holdsWords_settings h (YamlDocument.isHereditary_holdsWords.of_read? hread)
  have hlayered (s : Setting) := s.read_layered settings h hwords
  have hfits (s : Setting) (hs : s.Fits settings) : ∃ x, s.read (s.layered settings) = .ok x := by
    rcases hlayered s with ⟨x, -, hx⟩ | ⟨v, hv, hnone, -⟩
    · exact ⟨x, hx⟩
    · obtain ⟨x, hx⟩ := hs v hv
      exact absurd hx (hnone x)
  have htakes (c : Configuration) (hc : ofYaml text = .ok c) (s : Setting) : s.Takes settings (s.valueIn c) := by
    rw [ofYaml_of_read hread] at hc
    have hs := read_layered_of_ok h hc s
    rcases hlayered s with ⟨x, hx, hread⟩ | ⟨v, -, -, hread⟩
    · obtain rfl := Except.ok.inj (hread.symm.trans hs)
      exact hx
    · cases hread.symm.trans hs
  refine ⟨⟨?_, ?_⟩, htakes, ?_, fun environment henv => ⟨load_encodeUtf8 text henv, load_none henv⟩⟩
  · rintro ⟨c, hc⟩ s v hv
    have hx := htakes c hc s
    rw [Setting.Takes, hv] at hx
    exact ⟨_, hx⟩
  · intro hall
    obtain ⟨t, ht⟩ := hfits _ (hall .deviceNamespace)
    obtain ⟨n, hn⟩ := hfits _ (hall .fetchTimeoutSecs)
    obtain ⟨m, hm⟩ := hfits _ (hall .defaultMaxAgeSecs)
    refine ⟨⟨t, n, m⟩, ?_⟩
    rw [ofYaml_of_read hread, ofLayer_withDocument h, show readText _ = _ from ht, ok_bind,
      show readWholeNumber _ = _ from hn, ok_bind, show readWholeNumber _ = _ from hm, ok_bind]
  · intro before s after v horder hbefore hv hnone
    rw [ofYaml_of_read hread]
    refine ofLayer_eq_error h horder (fun r hr => hfits r (hbefore r hr)) ?_
    rcases hlayered s with ⟨x, hx, -⟩ | ⟨w, hw, -, hread⟩
    · rw [Setting.Takes, hv] at hx
      exact absurd hx (hnone x)
    · obtain rfl := Option.some.inj (hv.symm.trans hw)
      exact hread

end Configuration

namespace Sample

def colliding : Text := "Description: {FETCH_TIMEOUT_SECS: x, Fetch_Timeout_Secs: 7}"

def collidingSettings : List (YamlValue × YamlValue) := [
  (.string "FETCH_TIMEOUT_SECS", .string "x"),
  (.string "Fetch_Timeout_Secs", .integer 7)]

private theorem read?_colliding :
    YamlDocument.read? colliding = some (.mapping [(.string "Description", .mapping collidingSettings)]) := by
  cbv

def twoFaults : Text := "description: {fetch_timeout_secs: -1, Device_Namespace: }"

def twoFaultsSettings : List (YamlValue × YamlValue) := [
  (.string "fetch_timeout_secs", .integer (-1)),
  (.string "Device_Namespace", .null)]

private theorem read?_twoFaults :
    YamlDocument.read? twoFaults = some (.mapping [(.string "description", .mapping twoFaultsSettings)]) := by
  cbv

end Sample

/-- The fault that stands first in the document is the second in the order of the defaults. -/
theorem Configuration.ofYaml_setting_by_setting_collisions :
    (∃ entries, YamlDocument.read? Sample.colliding = some (.mapping entries) ∧
      HasSettings entries Sample.collidingSettings) ∧
    (∃ c, ofYaml Sample.colliding = .ok c ∧ c.fetchTimeoutSecs = 7 ∧ c.defaultMaxAgeSecs = 1800) ∧
    ofYaml Sample.twoFaults = .error (.invalidType .null .text) := by
  have hcolliding : HasSettings [(.string "Description", .mapping Sample.collidingSettings)]
      Sample.collidingSettings :=
    ⟨.inl (by decide), by simp [Sample.collidingSettings], by simp [Sample.collidingSettings]⟩
  have hfaulty : HasSettings [(.string "description", .mapping Sample.twoFaultsSettings)] Sample.twoFaultsSettings :=
    ⟨.inl (by decide), by simp [Sample.twoFaultsSettings], by simp [Sample.twoFaultsSettings]⟩
  obtain ⟨hok, htakes, -⟩ := ofYaml_setting_by_setting Sample.read?_colliding hcolliding
  obtain ⟨-, -, herror, -⟩ := ofYaml_setting_by_setting Sample.read?_twoFaults hfaulty
  have hfits (s : Setting) : s.Fits Sample.collidingSettings := by
    intro v hv
    cases s with
    | deviceNamespace => cases hv
    | fetchTimeoutSecs =>
      cases hv
      exact ⟨(7 : Nat), rfl, by decide⟩
    | defaultMaxAgeSecs => cases hv
  obtain ⟨c, hc⟩ := hok.mpr hfits
  have hfetch : Setting.IsWord (.integer 7) c.fetchTimeoutSecs := htakes c hc .fetchTimeoutSecs
  have hage : c.defaultMaxAgeSecs = 1800 := htakes c hc .defaultMaxAgeSecs
  have hseven : c.fetchTimeoutSecs = 7 := by
    have heq := YamlValue.integer.inj hfetch.1
    omega
  exact ⟨⟨_, Sample.read?_colliding, hcolliding⟩, ⟨c, hc, hseven, hage⟩,
    herror [] .deviceNamespace _ .null rfl nofun (by decide) nofun⟩

end DeviceDescription
