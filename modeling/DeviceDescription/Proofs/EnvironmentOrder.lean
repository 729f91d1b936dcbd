import DeviceDescription.Proofs.LayeredSettings

/-!
# The order of the environment means nothing

Every layer whose section can be overridden has the settings in it. An override of a setting goes to its place, and an
override of anything else is skipped by the reading. So variables that do not name the same key may come in any order:
the outcome is the same, and so is the entry that a reading stops at.
-/
namespace DeviceDescription

open YamlValue ConfigurationLayer Traversal

namespace Configuration

def Draft.refused? : Draft → List (YamlValue × YamlValue) → Option YamlValue
  | _, [] => none
  | d, (k, v) :: r => match d.readEntry k v with
    | .ok next => next.refused? r
    | .error _ => some k

/-- The key of the section that a reading of a layer stops at. -/
def refusedKey? (layer : YamlValue) : Option YamlValue :=
  match layer.untagged with
  | .mapping entries => match (settings? entries).map untagged with
    | some (.mapping settings) => Draft.refused? {} settings
    | _ => none
  | _ => none

end Configuration

namespace ConfigurationLayer

open DeviceDescription.Configuration (Draft)

/-- Among texts only the names of settings are read. A key that is no text is refused. -/
def isRead : YamlValue → Bool
  | .string t => Setting.order.any fun s => s.name = t
  | _ => true

variable {entries : List (YamlValue × YamlValue)} {t : Text}

@[simp] theorem isRead_name (s : Setting) : isRead (.string s.name) = true := by cases s <;> decide

theorem isRead_string_iff : isRead (.string t) = true ↔ ∃ s : Setting, t = s.name := by
  constructor
  · intro h
    obtain ⟨s, -, hs⟩ := List.any_eq_true.mp h
    exact ⟨s, (of_decide_eq_true hs).symm⟩
  · rintro ⟨s, rfl⟩
    exact isRead_name s

private theorem readEntry_of_not_isRead (d : Draft) {k : YamlValue} (h : isRead k = false) (v : YamlValue) :
    d.readEntry k v = .ok d := by
  cases k with
  | string t =>
    refine d.readEntry_of_other (fun s hs => ?_) v
    rw [isRead_string_iff.mpr ⟨s, hs⟩] at h
    cases h
  | _ => cases h

def readPart (entries : List (YamlValue × YamlValue)) : List (YamlValue × YamlValue) :=
  entries.filter fun e => isRead e.1

theorem readPart_cons (k v : YamlValue) (entries : List (YamlValue × YamlValue)) :
    readPart ((k, v) :: entries) = if isRead k then (k, v) :: readPart entries else readPart entries :=
  List.filter_cons

theorem read_readPart (d : Draft) (entries : List (YamlValue × YamlValue)) :
    d.readEntries (readPart entries) = d.readEntries entries ∧ d.refused? (readPart entries) = d.refused? entries := by
  induction entries generalizing d with
  | nil => exact ⟨rfl, rfl⟩
  | cons e entries ih =>
    obtain ⟨k, v⟩ := e
    rw [readPart_cons, Draft.readEntries, Draft.refused?]
    cases hk : isRead k with
    | false =>
      rw [readEntry_of_not_isRead d hk]
      exact ih d
    | true =>
      rw [if_pos rfl, Draft.readEntries, Draft.refused?]
      cases d.readEntry k v with
      | error e => exact ⟨rfl, rfl⟩
      | ok next => exact ih next

private theorem isRead_congr {k l : YamlValue} (h : agree k l = true) : isRead k = isRead l := by
  cases k with
  | string t => rw [agree_string_left.mp h]
  | _ => cases l with
    | string t => cases agree_string_right.mp h
    | _ => rfl

private theorem readPart_put (k v : YamlValue) (entries : List (YamlValue × YamlValue)) :
    readPart (put k v entries) = if isRead k then put k v (readPart entries) else readPart entries := by
  induction entries with
  | nil => exact readPart_cons k v []
  | cons e entries ih =>
    obtain ⟨l, w⟩ := e
    by_cases hl : agree l k = true
    · cases h : isRead k <;> simp [put, readPart_cons, hl, isRead_congr hl, h]
    · rw [put, if_neg hl, readPart_cons, readPart_cons, ih]
      cases isRead k <;> cases isRead l <;> simp [put, hl]

def putAll (changes entries : List (YamlValue × YamlValue)) : List (YamlValue × YamlValue) :=
  changes.foldl (fun entries c => put c.1 c.2 entries) entries

variable {changes changes' : List (YamlValue × YamlValue)}

theorem readPart_putAll (changes entries : List (YamlValue × YamlValue)) :
    readPart (putAll changes entries) = putAll (readPart changes) (readPart entries) := by
  induction changes generalizing entries with
  | nil => rfl
  | cons c changes ih =>
    obtain ⟨k, v⟩ := c
    refine (ih (put k v entries)).trans ?_
    rw [readPart_put, readPart_cons]
    cases isRead k <;> rfl

/-- Two keys that are there already may change their values in either order. -/
theorem put_comm {k l : YamlValue} (hkl : agree k l = false) (hk : (entries.map Prod.fst).any (agree k) = true)
    (hl : (entries.map Prod.fst).any (agree l) = true) (v w : YamlValue) :
    put k v (put l w entries) = put l w (put k v entries) := by
  induction entries with
  | nil => cases hk
  | cons e entries ih =>
    obtain ⟨m, x⟩ := e
    by_cases hmk : agree m k = true
    · have hml : agree m l = false := by rwa [agree_comm, agree_congr hmk, agree_comm]
      simp [put, hmk, hml]
    · by_cases hml : agree m l = true
      · simp [put, hmk, hml]
      · have hkm : ¬agree k m = true := fun h => hmk (agree_symm h)
        have hlm : ¬agree l m = true := fun h => hml (agree_symm h)
        simp only [List.map_cons, List.any_cons, hkm, hlm, Bool.false_or] at hk hl
        simp [put, hmk, hml, ih hk hl]

/-- Changes of different keys that are all there may be made in any order. -/
theorem putAll_perm (h : changes.Perm changes') (hdistinct : (changes.map Prod.fst).Pairwise (agree · · = false))
    (hkeys : ∀ c ∈ changes, (entries.map Prod.fst).any (agree c.1) = true) :
    putAll changes entries = putAll changes' entries := by
  induction h generalizing entries with
  | nil => rfl
  | cons c _ ih =>
    refine ih (List.pairwise_cons.mp hdistinct).2 fun x hx => ?_
    rw [keys_put, if_pos (hkeys c List.mem_cons_self)]
    exact hkeys x (List.mem_cons_of_mem _ hx)
  | swap c d changes =>
    have hne : agree c.1 d.1 = false := by
      rw [agree_comm]
      exact (List.pairwise_cons.mp hdistinct).1 c.1 List.mem_cons_self
    have hc := hkeys c (List.mem_cons_of_mem _ List.mem_cons_self)
    have hd := hkeys d List.mem_cons_self
    exact congrArg (putAll changes) (put_comm hne hc hd c.2 d.2)
  | trans h₁ _ ih₁ ih₂ =>
    rw [ih₁ hdistinct hkeys]
    have hdistinct' := ((h₁.map Prod.fst).pairwise_iff fun h => agree_comm _ _ ▸ h).mp hdistinct
    exact ih₂ hdistinct' fun c hc => hkeys c (h₁.mem_iff.mpr hc)

/-- A name counts only if it begins with the mark, in exactly these letters. -/
def isMarked (v : Text × Text) : Bool := variableMark.isPrefixOf v.1

def overriddenKey? (v : Text × Text) : Option Text := (variableMark.isPrefixOf? v.1).map lowerText

def change? (v : Text × Text) : Option (YamlValue × YamlValue) :=
  (overriddenKey? v).map fun key => (.string key, variableValue v.2)

variable {environment environment' : List (Text × Text)}

theorem overriddenKey?_of_unmarked {v : Text × Text} (h : isMarked v = false) : overriddenKey? v = none := by
  rw [isMarked, ← List.isSome_isPrefixOf?_eq_isPrefixOf, Option.isSome_eq_false_iff, Option.isNone_iff_eq_none] at h
  rw [overriddenKey?, h]
  rfl

theorem override_eq (layer : YamlValue) (v : Text × Text) :
    override layer v.1 v.2 = (overriddenKey? v).elim layer fun key => putSetting key (variableValue v.2) layer := by
  rw [override, overriddenKey?]
  cases variableMark.isPrefixOf? v.1 <;> rfl

theorem openSection?_withEnvironment (environment : List (Text × Text)) (layer : YamlValue) :
    openSection? (withEnvironment environment layer) =
      (openSection? layer).map (putAll (environment.filterMap change?)) := by
  induction environment generalizing layer with
  | nil => exact Option.map_id'.symm
  | cons v environment ih =>
    change openSection? (withEnvironment environment (override layer v.1 v.2)) = _
    rw [ih, override_eq, List.filterMap_cons, change?]
    cases overriddenKey? v with
    | none => rfl
    | some key =>
      rw [Option.elim_some, openSection?_putSetting, Option.map_map]
      rfl

theorem withEnvironment_filter (environment : List (Text × Text)) (layer : YamlValue) :
    withEnvironment (environment.filter isMarked) layer = withEnvironment environment layer := by
  induction environment generalizing layer with
  | nil => rfl
  | cons v environment ih =>
    cases hv : isMarked v with
    | true =>
      rw [List.filter_cons_of_pos hv]
      exact ih (override layer v.1 v.2)
    | false =>
      rw [List.filter_cons_of_neg (by simp [hv]), ih]
      change _ = withEnvironment environment (override layer v.1 v.2)
      rw [override_eq, overriddenKey?_of_unmarked hv, Option.elim_none]

private theorem changes_perm (h : (environment.filter isMarked).Perm (environment'.filter isMarked)) :
    (environment.filterMap change?).Perm (environment'.filterMap change?) := by
  have hmarked (environment : List (Text × Text)) :
      (environment.filter isMarked).filterMap change? = environment.filterMap change? := by
    rw [List.filterMap_filter]
    refine List.filterMap_congr fun v _ => ?_
    cases hv : isMarked v with
    | true => rfl
    | false => rw [change?, overriddenKey?_of_unmarked hv]; rfl
  rw [← hmarked environment, ← hmarked environment']
  exact h.filterMap change?

private theorem keys_changes (environment : List (Text × Text)) :
    (environment.filterMap change?).map Prod.fst = (environment.filterMap overriddenKey?).map .string := by
  rw [List.map_filterMap, List.map_filterMap]
  refine List.filterMap_congr fun v _ => ?_
  rw [change?, Option.map_map]
  rfl

private theorem mem_keys_mergeEntries {base : List (YamlValue × YamlValue)} {k : YamlValue} (h : k ∈ base.map Prod.fst)
    (entries : List (YamlValue × YamlValue)) : k ∈ (mergeEntries base entries).map Prod.fst := by
  induction entries generalizing base with
  | nil => exact h
  | cons e entries ih =>
    refine ih ?_
    rw [keys_put]
    split
    · exact h
    · exact List.mem_append_left _ h

private theorem exists_merged_section {document : YamlValue} {settings : List (YamlValue × YamlValue)}
    (h : openSection? (withDocument document) = some settings) :
    ∃ upper, settings = mergeEntries standardSettings upper := by
  cases document with
  | mapping entries =>
    rw [withDocument, defaults_eq, lowerKeys, merge, openSection?, settings?,
      find?_mergeEntries (areDistinct_keys_collect _)] at h
    cases hf : find? (.string "description") (collect (lowerEntries entries)) with
    | none =>
      rw [hf] at h
      exact ⟨[], (Option.some.inj h).symm⟩
    | some v =>
      rw [hf] at h
      cases v with
      | mapping upper => exact ⟨upper, (Option.some.inj h).symm⟩
      | _ => cases h
  | _ => cases h

end ConfigurationLayer

namespace Configuration

variable {file : Option (List UInt8)} {layer layer' : YamlValue} {settings settings' : List (YamlValue × YamlValue)}

/-- Whatever the file holds, the settings are in the section if that is open. -/
theorem mem_section_of_fileLayer (hlayer : fileLayer file = .ok layer) (h : openSection? layer = some settings)
    (s : Setting) : .string s.name ∈ settings.map Prod.fst := by
  have hstandard : .string s.name ∈ standardSettings.map Prod.fst := by cases s <;> decide
  cases file with
  | none =>
    cases hlayer
    cases h
    exact hstandard
  | some bytes =>
    obtain ⟨document, -, rfl⟩ := exists_of_map_eq_ok hlayer
    obtain ⟨upper, rfl⟩ := exists_merged_section h
    exact mem_keys_mergeEntries hstandard upper

theorem refusedKey?_of_openSection (h : openSection? layer = some settings) :
    refusedKey? layer = Draft.refused? {} settings := by
  cases layer with
  | mapping entries =>
    simp only [openSection?] at h
    simp only [refusedKey?, untagged]
    split at h
    · rename_i hs
      cases h
      rw [hs]
      rfl
    · rename_i hs
      cases h
      rw [hs]
      rfl
    · cases h
  | _ => cases h

private theorem outcome_of_readPart (h : openSection? layer = some settings) (h' : openSection? layer' = some settings')
    (hsame : readPart settings = readPart settings') :
    ofLayer layer = ofLayer layer' ∧ refusedKey? layer = refusedKey? layer' := by
  obtain ⟨hread, hrefused⟩ := read_readPart {} settings
  obtain ⟨hread', hrefused'⟩ := read_readPart {} settings'
  constructor
  · rw [ofLayer_of_openSection h, ofLayer_of_openSection h', ← hread, hsame, hread']
  · rw [refusedKey?_of_openSection h, refusedKey?_of_openSection h', ← hrefused, hsame, hrefused']

variable {environment environment' : List (Text × Text)}

/-- The key that the reading of a file under some variables stops at. -/
def stopsAt? (file : Option (List UInt8)) (environment : List (Text × Text)) : Option YamlValue :=
  (fileLayer file).toOption.bind fun layer => refusedKey? (withEnvironment environment layer)

section Orders
variable (hperm : (environment.filter isMarked).Perm (environment'.filter isMarked))
  (hdistinct : (environment.filterMap overriddenKey?).Nodup)
include hperm hdistinct

/-- Only the changes of settings are read, and in any order they lead to the same section. -/
theorem outcome_of_perm (hlayer : fileLayer file = .ok layer) :
    ofLayer (withEnvironment environment layer) = ofLayer (withEnvironment environment' layer) ∧
      refusedKey? (withEnvironment environment layer) = refusedKey? (withEnvironment environment' layer) := by
  cases hopen : openSection? layer with
  | none =>
    rw [withEnvironment_of_closed hopen, withEnvironment_of_closed hopen]
    exact ⟨rfl, rfl⟩
  | some settings =>
    have hsection (environment : List (Text × Text)) : openSection? (withEnvironment environment layer) =
        some (putAll (environment.filterMap change?) settings) := by
      rw [openSection?_withEnvironment, hopen, Option.map_some]
    have hkeys : ((environment.filterMap change?).map Prod.fst).Pairwise (agree · · = false) := by
      rw [keys_changes, List.pairwise_map]
      exact hdistinct.imp fun hne => by simpa [← Bool.not_eq_true] using hne
    refine outcome_of_readPart (hsection environment) (hsection environment') ?_
    rw [readPart_putAll, readPart_putAll]
    refine putAll_perm ((changes_perm hperm).filter _) (hkeys.sublist (List.filter_sublist.map _)) fun c hc => ?_
    -- What is read of the changes names settings, and these are there.
    obtain ⟨hchange, hread⟩ := List.mem_filter.mp hc
    obtain ⟨v, -, hv⟩ := List.mem_filterMap.mp hchange
    obtain ⟨key, -, rfl⟩ := Option.map_eq_some_iff.mp hv
    obtain ⟨s, rfl⟩ := isRead_string_iff.mp hread
    obtain ⟨e, he, hes⟩ := List.mem_map.mp (mem_section_of_fileLayer hlayer hopen s)
    have hpart : e ∈ readPart settings := List.mem_filter.mpr ⟨he, by rw [hes]; exact isRead_name s⟩
    exact List.any_eq_true.mpr ⟨e.1, List.mem_map_of_mem hpart, by rw [hes]; exact agree_refl _⟩

/-- Variables whose marked names stand for different keys may come in any order, among any others. Whatever the file
holds, the configuration is the same, or the reading stops at the same key with the same error. The other variables
change no layer. -/
theorem load_in_any_order :
    (∀ file, load file environment = load file environment' ∧ stopsAt? file environment = stopsAt? file environment') ∧
      ∀ others layer, withEnvironment others layer = withEnvironment (others.filter isMarked) layer := by
  refine ⟨fun file => ?_, fun others layer => (withEnvironment_filter others layer).symm⟩
  rw [load_eq, load_eq, stopsAt?, stopsAt?]
  cases hlayer : fileLayer file with
  | error e => exact ⟨rfl, rfl⟩
  | ok layer => exact outcome_of_perm hperm hdistinct hlayer

end Orders
end Configuration

namespace Sample

def ageFirst : List (Text × Text) := [
  ("PMODESCRIPTION_CONFIG__DEFAULT_MAX_AGE_SECS", "x"),
  ("HOME", "1"),
  ("PMODESCRIPTION_CONFIG__Fetch_Timeout_Secs", "y")]

def timeoutFirst : List (Text × Text) := [
  ("PMODESCRIPTION_CONFIG__Fetch_Timeout_Secs", "y"),
  ("PMODESCRIPTION_CONFIG__DEFAULT_MAX_AGE_SECS", "x")]

private theorem changes_ageFirst : ageFirst.filterMap change? =
    [(.string "default_max_age_secs", .string "x"), (.string "fetch_timeout_secs", .string "y")] := by
  cbv

private theorem openSection?_ageFirst : openSection? (withEnvironment ageFirst defaults) = some [
    (.string "device_namespace", .string "urn:schemas-upnp-org:device-1-0"),
    (.string "fetch_timeout_secs", .string "y"),
    (.string "default_max_age_secs", .string "x")] := by
  rw [openSection?_withEnvironment, changes_ageFirst]
  rfl

end Sample

/-- The timeout stands before the age in the section, so it is the timeout that is refused. -/
theorem Configuration.load_in_any_order_two_faults :
    (Sample.ageFirst.filter isMarked).Perm (Sample.timeoutFirst.filter isMarked) ∧
    (Sample.ageFirst.filterMap overriddenKey?).Nodup ∧
    load none Sample.ageFirst = .error (.invalidType (.string "y") .wholeNumber) ∧
    load none Sample.timeoutFirst = .error (.invalidType (.string "y") .wholeNumber) ∧
    stopsAt? none Sample.timeoutFirst = some (.string "fetch_timeout_secs") := by
  have hperm : (Sample.ageFirst.filter isMarked).Perm (Sample.timeoutFirst.filter isMarked) := by decide +kernel
  have hdistinct : (Sample.ageFirst.filterMap overriddenKey?).Nodup := by decide +kernel
  have hload : load none Sample.ageFirst = .error (.invalidType (.string "y") .wholeNumber) := by
    rw [load_eq, fileLayer, ok_bind, ofLayer_of_openSection Sample.openSection?_ageFirst]
    rfl
  have hstop : stopsAt? none Sample.ageFirst = some (.string "fetch_timeout_secs") :=
    refusedKey?_of_openSection Sample.openSection?_ageFirst
  obtain ⟨hsame, -⟩ := load_in_any_order hperm hdistinct
  obtain ⟨hsameLoad, hsameStop⟩ := hsame none
  exact ⟨hperm, hdistinct, hload, hsameLoad ▸ hload, hsameStop ▸ hstop⟩

end DeviceDescription
