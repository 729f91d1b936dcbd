import DeviceDescription.Proofs.LayeredSettings

/-!
# What a merge holds at each path

A merge is told by what a path of keys leads to in it. Where the upper value has anything, that counts; where it leaves
off below a mapping that is merged, the lower value shows through; anywhere else there is nothing. A second merge of the
same value changes nothing.
-/
namespace DeviceDescription

open YamlValue ConfigurationLayer

namespace YamlValue

variable {d e v w : YamlValue} {k : YamlValue} {path rest : List YamlValue} {entries : List (YamlValue × YamlValue)}

/-- The value that a path of keys leads to, through mappings. -/
def valueAt? : List YamlValue → YamlValue → Option YamlValue
  | [], v => some v
  | k :: path, .mapping entries => (find? k entries).bind (valueAt? path)
  | _ :: _, _ => none

/-- No mapping that a path leads to has a key twice, however it is written. -/
def HasDistinctKeys (v : YamlValue) : Prop :=
  ∀ path entries, valueAt? path v = some (.mapping entries) → areDistinct (entries.map Prod.fst) = true

/-- What passes from the values of a mapping to the mapping holds of every value. -/
@[elab_as_elim]
theorem forall_of_entries {motive : YamlValue → Prop}
    (mapping : ∀ entries, (∀ e ∈ entries, motive e.2) → motive (.mapping entries))
    (other : ∀ v, (∀ entries, v ≠ .mapping entries) → motive v) (v : YamlValue) : motive v :=
  forall_of_parts (other _ nofun) (fun _ => other _ nofun) (fun _ => other _ nofun) (fun _ => other _ nofun)
    (fun _ => other _ nofun) (fun _ _ => other _ nofun) (fun entries h => mapping entries fun e he => (h e he).2)
    (fun _ _ _ => other _ nofun) v

theorem valueAt?_eq_none_of_other (h : ∀ entries, v ≠ .mapping entries) (k : YamlValue) (path : List YamlValue) :
    valueAt? (k :: path) v = none := by
  cases v with
  | mapping entries => exact absurd rfl (h entries)
  | _ => rfl

theorem valueAt?_append (path rest : List YamlValue) (v : YamlValue) :
    valueAt? (path ++ rest) v = (valueAt? path v).bind (valueAt? rest) := by
  induction path generalizing v with
  | nil => rfl
  | cons k path ih =>
    cases v with
    | mapping entries =>
      rw [List.cons_append, valueAt?, valueAt?, Option.bind_assoc]
      exact Option.bind_congr fun w _ => ih w
    | _ => rfl

theorem valueAt?_cons_eq_none (h : valueAt? [k] v = none) (rest : List YamlValue) : valueAt? (k :: rest) v = none := by
  rw [← List.singleton_append, valueAt?_append, h]
  rfl

theorem find?_of_mem (hdistinct : areDistinct (entries.map Prod.fst) = true) (h : (k, v) ∈ entries) :
    find? k entries = some v := by
  induction entries with
  | nil => cases h
  | cons e entries ih =>
    obtain ⟨l, w⟩ := e
    rw [List.map_cons, areDistinct, Bool.and_eq_true, Bool.not_eq_true'] at hdistinct
    rcases List.mem_cons.mp h with heq | hm
    · cases heq
      exact if_pos (agree_refl k)
    · have hl : ¬agree l k = true := List.any_eq_false.mp hdistinct.1 k (List.mem_map_of_mem hm)
      exact (if_neg hl).trans (ih hdistinct.2 hm)

theorem put_of_find? (h : find? k entries = some v) : put k v entries = entries := by
  induction entries with
  | nil => cases h
  | cons e entries ih =>
    obtain ⟨l, w⟩ := e
    rw [find?] at h
    rw [put]
    split
    · rename_i hl
      rw [if_pos hl] at h
      rw [Option.some.inj h]
    · rename_i hl
      rw [if_neg hl] at h
      rw [ih h]

theorem HasDistinctKeys.areDistinct (h : HasDistinctKeys (.mapping entries)) :
    areDistinct (entries.map Prod.fst) = true :=
  h [] entries rfl

theorem HasDistinctKeys.valueAt (h : v.HasDistinctKeys) (hw : valueAt? path v = some w) : w.HasDistinctKeys := by
  intro rest entries hrest
  refine h (path ++ rest) entries ?_
  rw [valueAt?_append, hw]
  exact hrest

theorem HasDistinctKeys.of_find? (h : HasDistinctKeys (.mapping entries)) (hv : find? k entries = some v) :
    v.HasDistinctKeys := by
  have hvalue : valueAt? [k] (.mapping entries) = some v := by
    rw [valueAt?, hv]
    rfl
  exact h.valueAt hvalue

theorem HasDistinctKeys.of_mem (h : HasDistinctKeys (.mapping entries)) (hm : (k, v) ∈ entries) : v.HasDistinctKeys :=
  h.of_find? (find?_of_mem h.areDistinct hm)

theorem hasDistinctKeys_of_entries (hdistinct : areDistinct (entries.map Prod.fst) = true)
    (h : ∀ k v, find? k entries = some v → v.HasDistinctKeys) : HasDistinctKeys (.mapping entries) := by
  intro path found hfound
  cases path with
  | nil =>
    cases hfound
    exact hdistinct
  | cons k path =>
    obtain ⟨v, hv, hfound⟩ := Option.bind_eq_some_iff.mp hfound
    exact h k v hv path found hfound

theorem hasDistinctKeys_of_other (h : ∀ entries, v ≠ .mapping entries) : v.HasDistinctKeys := by
  intro path entries hfound
  cases path with
  | nil => exact absurd (Option.some.inj hfound) (h entries)
  | cons k path =>
    rw [valueAt?_eq_none_of_other h] at hfound
    cases hfound

end YamlValue

namespace ConfigurationLayer

variable {d e v w : YamlValue} {k : YamlValue} {path : List YamlValue} {base entries : List (YamlValue × YamlValue)}

/-- Both values have a mapping at a path, which is where a merge goes on. -/
def BothMap (d e : YamlValue) (path : List YamlValue) : Prop :=
  ∃ old new, valueAt? path d = some (.mapping old) ∧ valueAt? path e = some (.mapping new)

/-- A value leads along a path, but not on by a key: it has no mapping there, or one without the key. -/
def StopsAt (e : YamlValue) (path : List YamlValue) (k : YamlValue) : Prop :=
  ∃ v, valueAt? path e = some v ∧ valueAt? [k] v = none

/-- What a value that was merged from two holds at each path. -/
structure IsMerged (d e merged : YamlValue) : Prop where
  /-- The upper value counts where it has anything, unless two mappings meet. -/
  upper : ∀ path v, valueAt? path e = some v → ¬BothMap d e path → valueAt? path merged = some v
  /-- The lower value counts below a key that the upper one of two mappings lacks. -/
  lower : ∀ path k rest, StopsAt e path k → BothMap d e path →
    valueAt? (path ++ k :: rest) merged = valueAt? (path ++ k :: rest) d
  /-- Where the upper value stops for another reason, there is nothing. -/
  nothing : ∀ path k rest, StopsAt e path k → ¬BothMap d e path → valueAt? (path ++ k :: rest) merged = none
  /-- Where two mappings meet, the old keys stay in their places, and the new ones follow. -/
  both : ∀ path old new, valueAt? path d = some (.mapping old) → valueAt? path e = some (.mapping new) →
    ∃ entries, valueAt? path merged = some (.mapping entries) ∧
      entries.map Prod.fst =
        old.map Prod.fst ++ ((new.map Prod.fst).filter fun k => !(old.map Prod.fst).any (agree k)) ∧
      areDistinct (entries.map Prod.fst) = true

theorem exists_stopsAt (h : valueAt? path e = none) :
    ∃ before k rest, path = before ++ k :: rest ∧ StopsAt e before k := by
  induction path generalizing e with
  | nil => cases h
  | cons k path ih =>
    cases hk : valueAt? [k] e with
    | none => exact ⟨[], k, path, rfl, e, rfl, hk⟩
    | some v =>
      rw [← List.singleton_append, valueAt?_append, hk, Option.bind_some] at h
      obtain ⟨before, l, rest, rfl, w, hw, hstop⟩ := ih h
      refine ⟨k :: before, l, rest, rfl, w, ?_, hstop⟩
      rw [← List.singleton_append, valueAt?_append, hk]
      exact hw

theorem merge_eq_upper (h : ¬∃ old new, d = .mapping old ∧ e = .mapping new) : merge d e = e := by
  unfold merge
  split
  · exact absurd ⟨_, _, rfl, rfl⟩ h
  · rfl

theorem merge_eq_upper_of_other (h : ∀ entries, e ≠ .mapping entries) (d : YamlValue) : merge d e = e := by
  refine merge_eq_upper ?_
  rintro ⟨_, new, -, hnew⟩
  exact h new hnew

/-- At a path that leads somewhere in the upper value, the merge holds the merge of what is there. -/
theorem valueAt?_merge (he : e.HasDistinctKeys) (hv : valueAt? path e = some v) :
    valueAt? path (merge d e) = some (match valueAt? path d with
      | some old => merge old v
      | none => v) := by
  induction path generalizing d e with
  | nil =>
    cases hv
    rfl
  | cons k path ih =>
    cases e with
    | mapping entries =>
      obtain ⟨w, hw, hv⟩ := Option.bind_eq_some_iff.mp hv
      cases d with
      | mapping base =>
        rw [merge, valueAt?, valueAt?, find?_mergeEntries he.areDistinct, hw, Option.bind_some, overlay]
        cases find? k base with
        | none => exact hv
        | some old => exact ih (he.of_find? hw) hv
      | _ => exact (congrArg (Option.bind · (valueAt? path)) hw).trans hv
    | _ => cases hv

section Law
variable (he : e.HasDistinctKeys)
include he

theorem valueAt?_merge_of_not_both (hv : valueAt? path e = some v) (hboth : ¬BothMap d e path) :
    valueAt? path (merge d e) = some v := by
  rw [valueAt?_merge he hv]
  cases hd : valueAt? path d with
  | none => rfl
  | some old =>
    refine congrArg some (merge_eq_upper ?_)
    rintro ⟨olds, news, rfl, rfl⟩
    exact hboth ⟨olds, news, hd, hv⟩

theorem valueAt?_merge_of_both {old new : List (YamlValue × YamlValue)} (hd : valueAt? path d = some (.mapping old))
    (hv : valueAt? path e = some (.mapping new)) :
    valueAt? path (merge d e) = some (.mapping (mergeEntries old new)) := by
  rw [valueAt?_merge he hv, hd]
  rfl

private theorem valueAt?_merge_of_stops {rest : List YamlValue} (hstop : StopsAt e path k) :
    (BothMap d e path → valueAt? (path ++ k :: rest) (merge d e) = valueAt? (path ++ k :: rest) d) ∧
      (¬BothMap d e path → valueAt? (path ++ k :: rest) (merge d e) = none) := by
  obtain ⟨v, hv, hk⟩ := hstop
  constructor
  · rintro ⟨old, new, hd, hnew⟩
    obtain rfl := Option.some.inj (hv.symm.trans hnew)
    have hlacks : find? k new = none := by simpa [valueAt?] using hk
    rw [valueAt?_append, valueAt?_append, valueAt?_merge_of_both he hd hv, hd, Option.bind_some, Option.bind_some,
      valueAt?, valueAt?, find?_mergeEntries (he.valueAt hv).areDistinct, hlacks]
  · intro hboth
    rw [valueAt?_append, valueAt?_merge_of_not_both he hv hboth, Option.bind_some, valueAt?_cons_eq_none hk]

end Law

private theorem areDistinct_keys_mergeEntries (hbase : areDistinct (base.map Prod.fst) = true)
    (hentries : areDistinct (entries.map Prod.fst) = true) :
    areDistinct ((mergeEntries base entries).map Prod.fst) = true := by
  rw [keys_mergeEntries hentries]
  rw [areDistinct_iff] at hbase hentries ⊢
  refine List.pairwise_append.mpr ⟨hbase, hentries.filter _, fun k hk l hl => ?_⟩
  have hnew : (base.map Prod.fst).any (agree l) = false := by
    simpa only [Bool.not_eq_true'] using (List.mem_filter.mp hl).2
  exact agree_eq_false_of_any hnew hk

theorem isMerged_merge (hd : d.HasDistinctKeys) (he : e.HasDistinctKeys) : IsMerged d e (merge d e) where
  upper _ _ := valueAt?_merge_of_not_both he
  lower _ _ _ hstop := (valueAt?_merge_of_stops he hstop).1
  nothing _ _ _ hstop := (valueAt?_merge_of_stops he hstop).2
  both path old new hold hnew := by
    have hkeys := (he.valueAt hnew).areDistinct
    exact ⟨_, valueAt?_merge_of_both he hold hnew, keys_mergeEntries hkeys old,
      areDistinct_keys_mergeEntries (hd.valueAt hold).areDistinct hkeys⟩

theorem hasDistinctKeys_merge (hd : d.HasDistinctKeys) (he : e.HasDistinctKeys) : (merge d e).HasDistinctKeys := by
  have hmerged := isMerged_merge hd he
  intro path entries hentries
  by_cases hboth : BothMap d e path
  · obtain ⟨old, new, hold, hnew⟩ := hboth
    obtain ⟨both, hfound, -, hdistinct⟩ := hmerged.both path old new hold hnew
    cases hentries.symm.trans hfound
    exact hdistinct
  · cases hv : valueAt? path e with
    | some v =>
      rw [hmerged.upper path v hv hboth] at hentries
      exact he path entries (hv.trans hentries)
    | none =>
      obtain ⟨before, k, rest, rfl, hstop⟩ := exists_stopsAt hv
      by_cases hbefore : BothMap d e before
      · rw [hmerged.lower before k rest hstop hbefore] at hentries
        exact hd _ _ hentries
      · rw [hmerged.nothing before k rest hstop hbefore] at hentries
        cases hentries

/-- Entries that leave the values under their keys as they are change nothing. -/
theorem mergeEntries_eq_self (h : ∀ x ∈ entries, ∃ w, find? x.1 base = some w ∧ merge w x.2 = w) :
    mergeEntries base entries = base := by
  induction entries with
  | nil => rfl
  | cons x entries ih =>
    obtain ⟨k, v⟩ := x
    obtain ⟨w, hw, hmerge⟩ := h (k, v) List.mem_cons_self
    simp only [mergeEntries, hw, hmerge]
    rw [put_of_find? hw]
    exact ih fun x hx => h x (List.mem_cons_of_mem _ hx)

theorem merge_self (he : e.HasDistinctKeys) : merge e e = e := by
  induction e using forall_of_entries with
  | mapping entries ih =>
    refine congrArg YamlValue.mapping (mergeEntries_eq_self fun x hx => ?_)
    exact ⟨x.2, find?_of_mem he.areDistinct hx, ih x hx (he.of_mem hx)⟩
  | other v hv => exact merge_eq_upper_of_other hv v

private theorem merge_merge (he : e.HasDistinctKeys) (d : YamlValue) : merge (merge d e) e = merge d e := by
  induction e using forall_of_entries generalizing d with
  | mapping entries ih =>
    cases d with
    | mapping base =>
      refine congrArg YamlValue.mapping (mergeEntries_eq_self fun x hx => ?_)
      refine ⟨overlay base x.1 x.2, ?_, ?_⟩
      · rw [find?_mergeEntries he.areDistinct, find?_of_mem he.areDistinct hx]
      · rw [overlay]
        cases find? x.1 base with
        | none => exact merge_self (he.of_mem hx)
        | some old => exact ih x hx (he.of_mem hx) old
    | _ => exact merge_self he
  | other v hv =>
    rw [merge_eq_upper_of_other hv, merge_eq_upper_of_other hv]

/-- At every path, a merge holds what the upper value has there, or what the lower one has where two mappings leave the
path to it, or nothing. Mappings that meet have their keys in order, and once each. Merging the same value again changes
nothing, nor does merging a value into itself. -/
theorem merge_at_every_path (hd : d.HasDistinctKeys) (he : e.HasDistinctKeys) :
    IsMerged d e (merge d e) ∧
    (∀ path, valueAt? path e = none → ∃ before k rest, path = before ++ k :: rest ∧ StopsAt e before k) ∧
    merge (merge d e) e = merge d e ∧ merge e e = e ∧ (merge d e).HasDistinctKeys :=
  ⟨isMerged_merge hd he, fun _ => exists_stopsAt, merge_merge he d, merge_self he, hasDistinctKeys_merge hd he⟩

private theorem exists_lowered_of_find? (h : find? k (collect (lowerEntries entries)) = some v) :
    ∃ x ∈ entries, lowerKeys x.2 = v := by
  rw [find?_collect, lowerEntries_eq_map] at h
  obtain ⟨y, hy, hv⟩ := List.mem_filterMap.mp (List.mem_of_getLast? h)
  obtain ⟨x, hx, rfl⟩ := List.mem_map.mp hy
  split at hv
  · exact ⟨x, hx, Option.some.inj hv⟩
  · cases hv

/-- Keys that are the same in lower case become one. -/
theorem hasDistinctKeys_lowerKeys (v : YamlValue) : (lowerKeys v).HasDistinctKeys := by
  induction v using forall_of_entries with
  | mapping entries ih =>
    refine hasDistinctKeys_of_entries (areDistinct_keys_collect _) fun k v hv => ?_
    obtain ⟨x, hx, rfl⟩ := exists_lowered_of_find? hv
    exact ih x hx
  | other v hv =>
    have hsame : lowerKeys v = v := by
      cases v with
      | mapping entries => exact absurd rfl (hv entries)
      | _ => rfl
    rw [hsame]
    exact hasDistinctKeys_of_other hv

end ConfigurationLayer

namespace Sample

def lowerLayer : YamlValue := .mapping [
  (.string "lamp", .mapping [(.string "watts", .integer 5), (.string "color", .string "red")]),
  (.string "fan", .mapping [(.string "speed", .integer 3)]),
  (.float "0.0", .string "ground")]

def upperLayer : YamlValue := .mapping [
  (.string "room", .boolean true),
  (.string "fan", .null),
  (.string "lamp", .mapping [(.string "color", .string "blue")]),
  (.float "-0.0", .string "cellar")]

end Sample

open Sample in
/-- The color is replaced, the watts show through, the speed is gone, and both zeros are one key. -/
theorem ConfigurationLayer.merge_at_every_path_lamps :
    lowerLayer.HasDistinctKeys ∧ upperLayer.HasDistinctKeys ∧
    valueAt? [.string "lamp", .string "color"] (merge lowerLayer upperLayer) = some (.string "blue") ∧
    valueAt? [.string "lamp", .string "watts"] (merge lowerLayer upperLayer) = some (.integer 5) ∧
    valueAt? [.string "fan", .string "speed"] (merge lowerLayer upperLayer) = none ∧
    valueAt? [.float "0.0"] (merge lowerLayer upperLayer) = some (.string "cellar") ∧
    merge (merge lowerLayer upperLayer) upperLayer = merge lowerLayer upperLayer := by
  have hlowered : lowerKeys lowerLayer = lowerLayer ∧ lowerKeys upperLayer = upperLayer := by decide
  have hlower : lowerLayer.HasDistinctKeys := hlowered.1 ▸ hasDistinctKeys_lowerKeys lowerLayer
  have hupper : upperLayer.HasDistinctKeys := hlowered.2 ▸ hasDistinctKeys_lowerKeys upperLayer
  obtain ⟨hmerged, -, hagain, -⟩ := merge_at_every_path hlower hupper
  have hcolor : ¬BothMap lowerLayer upperLayer [.string "lamp", .string "color"] := by
    rintro ⟨_, _, -, hnew⟩
    cases hnew
  have hfan : ¬BothMap lowerLayer upperLayer [.string "fan"] := by
    rintro ⟨_, _, -, hnew⟩
    cases hnew
  have hzero : ¬BothMap lowerLayer upperLayer [.float "0.0"] := by
    rintro ⟨_, _, -, hnew⟩
    cases hnew
  refine ⟨hlower, hupper, hmerged.upper _ _ rfl hcolor, ?_, ?_, hmerged.upper _ _ rfl hzero, hagain⟩
  · exact hmerged.lower [.string "lamp"] (.string "watts") [] ⟨_, rfl, rfl⟩ ⟨_, _, rfl, rfl⟩
  · exact hmerged.nothing [.string "fan"] (.string "speed") [] ⟨_, rfl, rfl⟩ hfan

end DeviceDescription
