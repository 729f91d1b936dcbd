import DeviceDescription.Proofs.FilledFields
import DeviceDescription.Proofs.PathComposition
import DeviceDescription.Proofs.StepGrammar

/-!
# Counts and positions

The last step of a path names some children of the place it is taken from. Without a position it counts them all, and
each position up to their number leads to one of them, in document order.
-/
namespace DeviceDescription

open Traversal

namespace PathStep

private theorem ofFullName?_eq_map (full : Text) (position : Option Nat) :
    ofFullName? full position = (ofFullName? full none).map fun s => { s with position } := by
  simp only [ofFullName?]
  split <;> rfl

variable {name numeral : Text} {i : Nat} (hbracket : '[' ∉ name)
include hbracket

private theorem ofTrimmed?_of_noPosition : ofTrimmed? (Text.trim name) = ofFullName? (Text.trim name) none := by
  have htrim : '[' ∉ Text.trim name := fun h => hbracket (Text.mem_of_mem_trim h)
  rw [ofTrimmed?_eq, splitPosition?_bare htrim]
  rfl

theorem position_of_read {s : PathStep} (h : read name = .ok s) : s.position = none := by
  rw [read, ofTrimmed?_of_noPosition hbracket] at h
  split at h
  · rename_i hs
    rw [← Except.ok.inj h]
    exact (ofFullName?_eq_some_iff.mp hs).1
  · cases h

variable (hi : Numeral.Denotes numeral i) (hpos : 1 ≤ i) (hword : i ≤ Numeral.maxWord64)
include hi hpos hword

private theorem ofTrimmed?_atPosition :
    ofTrimmed? (Text.trim (atPosition name numeral)) = ofFullName? (Text.trim name) (some i) := by
  have hopen : '[' ∉ name.dropWhile Text.isBlank := fun h => hbracket (List.dropWhile_subset _ h)
  have hinside : bracketed? numeral = some i := by
    rw [bracketed?_eq_some_iff, Numeral.trim_of_denotes hi]
    exact ⟨hi, hpos, hword⟩
  rw [trim_atPosition, ofTrimmed?_eq, splitPosition?_bracketed hopen, hinside, Option.map_some, Option.bind_some,
    Text.trim_dropWhile]

theorem read_atPosition :
    read (atPosition name numeral) = match read name with
      | .ok s => .ok { s with position := some i }
      | .error _ => .error (.invalidStep (Text.trim (atPosition name numeral))) := by
  rw [read, read, ofTrimmed?_atPosition hbracket hi hpos hword, ofTrimmed?_of_noPosition hbracket,
    ofFullName?_eq_map]
  cases ofFullName? (Text.trim name) none <;> rfl

omit hbracket hpos hword in
theorem slash_notMem_atPosition (hslash : '/' ∉ name) : '/' ∉ atPosition name numeral := by
  simp [atPosition, hslash, Numeral.slash_notMem_of_denotes hi]

end PathStep

/-- An element of some local name, in a namespace or in none. -/
def XmlElement.bears (name : Text) (uri : Option Text) (e : XmlElement) : Bool :=
  e.name = name ∧ e.namespaceUri = uri

namespace DocumentContext

variable {c d : DocumentContext} {parent : Option Text} {last : Text} {s : PathStep} {uri : Option Text}

/-- What the last step of a path asks for: a step from some place to the children of a name in a namespace. -/
structure LastStep (c : DocumentContext) (parent : Option Text) (last : Text) (d : DocumentContext) (s : PathStep)
    (uri : Option Text) : Prop where
  place : c.parentPlace parent = .ok d
  step : PathStep.read last = .ok s
  uri : c.namespaceOf s = .ok uri

theorem LastStep.matching (h : LastStep c parent last d s uri) :
    d.matching s = .ok (d.children.filter (XmlElement.bears s.name uri)) := by
  rw [DocumentContext.matching, namespaceOf_eq_of_parentPlace h.place, h.uri]
  rfl

theorem LastStep.count_eq (h : LastStep c parent last d s uri) (hlast : '/' ∉ last) :
    c.count (joined parent last) = .ok (d.children.countP (XmlElement.bears s.name uri)) := by
  rw [count_joined c parent hlast, h.place, ok_bind, countStep, h.step, ok_bind, h.matching,
    List.countP_eq_length_filter]
  rfl

theorem LastStep.pointer_eq (h : LastStep c parent last d s uri) (hlast : '/' ∉ last) :
    c.pointer (joined parent last) = match (d.children.filter (XmlElement.bears s.name uri))[s.index]? with
      | some e => .ok (d.moveTo e)
      | none => .error (.notFound (joined parent last)) := by
  rw [pointer_joined, h.place, ok_bind, pointer_of_read hlast h.step h.matching]
  cases (d.children.filter (XmlElement.bears s.name uri))[s.index]? <;> rfl

/-- Why no last step is taken: its parent is not found, it is malformed, or its qualifier stands for nothing. -/
inductive LastStepFails (c : DocumentContext) (parent : Option Text) (last : Text) : PathError → Prop
  | parent {e : PathError} (h : c.parentPlace parent = .error e) : LastStepFails c parent last e
  | malformed {d : DocumentContext} (hplace : c.parentPlace parent = .ok d) {e : PathError}
    (h : PathStep.read last = .error e) : LastStepFails c parent last e
  | unbound {d : DocumentContext} (hplace : c.parentPlace parent = .ok d) {s : PathStep} {q : Text}
    (h : PathStep.read last = .ok s) (hq : s.qualifier = some q) (hns : c.namespaces.uri? q = none) :
    LastStepFails c parent last (.unboundQualifier q)

theorem lastStep_or_fails (c : DocumentContext) (parent : Option Text) (last : Text) :
    (∃ d s uri, LastStep c parent last d s uri) ∨ ∃ e, LastStepFails c parent last e := by
  cases hplace : c.parentPlace parent with
  | error e => exact .inr ⟨e, .parent hplace⟩
  | ok d =>
    cases hstep : PathStep.read last with
    | error e => exact .inr ⟨e, .malformed hplace hstep⟩
    | ok s =>
      cases huri : c.namespaceOf s with
      | error e =>
        obtain ⟨q, hq, hns, -⟩ := namespaceOf_eq_error_iff.mp huri
        exact .inr ⟨_, .unbound hplace hstep hq hns⟩
      | ok uri => exact .inl ⟨d, s, uri, hplace, hstep, huri⟩

namespace LastStepFails

variable {e : PathError} (h : LastStepFails c parent last e) (hlast : '/' ∉ last)
include h hlast

theorem count_eq : c.count (joined parent last) = .error e := by
  rw [count_joined c parent hlast]
  cases h with
  | parent hplace => rw [hplace, error_bind]
  | malformed hplace hstep => rw [hplace, ok_bind, countStep, hstep, error_bind]
  | unbound hplace hstep hq hns =>
    have huri := namespaceOf_eq_error_iff.mpr ⟨_, hq, hns, rfl⟩
    rw [hplace, ok_bind, countStep, hstep, ok_bind, matching, namespaceOf_eq_of_parentPlace hplace, huri]
    rfl

theorem pointer_eq : c.pointer (joined parent last) = .error (e.forPath (joined parent last)) := by
  rw [pointer_joined]
  cases h with
  | parent hplace =>
    rw [hplace, error_bind]
    rfl
  | malformed hplace hstep =>
    rw [hplace, ok_bind, pointer_of_read_error hlast hstep]
    rfl
  | unbound hplace hstep hq hns =>
    have huri := namespaceOf_eq_error_iff.mpr ⟨_, hq, hns, rfl⟩
    rw [hplace, ok_bind, pointer, List.splitOn_eq_singleton hlast, follow, hstep, ok_bind, matching,
      namespaceOf_eq_of_parentPlace hplace, huri]
    rfl

end LastStepFails

private theorem counts_or_lastStepFails (c : DocumentContext) (parent : Option Text) (hlast : '/' ∉ last) :
    (∃ n, c.count (joined parent last) = .ok n) ∨ ∃ e, LastStepFails c parent last e := by
  obtain ⟨d, s, uri, h⟩ | h := lastStep_or_fails c parent last
  · exact .inl ⟨_, h.count_eq hlast⟩
  · exact .inr h

theorem count_eq_error_iff {e : PathError} (hlast : '/' ∉ last) :
    c.count (joined parent last) = .error e ↔ LastStepFails c parent last e :=
  eq_error_iff_of_total (fun _ h => h.count_eq hlast) (counts_or_lastStepFails c parent hlast)

theorem exists_lastStep_of_count {n : Nat} (hlast : '/' ∉ last) (hcount : c.count (joined parent last) = .ok n) :
    ∃ d s uri, LastStep c parent last d s uri := by
  obtain h | ⟨e, h⟩ := lastStep_or_fails c parent last
  · exact h
  · cases (h.count_eq hlast).symm.trans hcount

section Positions
variable {name numeral : Text} {i : Nat} (hbracket : '[' ∉ name) (hi : Numeral.Denotes numeral i) (hpos : 1 ≤ i)
  (hword : i ≤ Numeral.maxWord64)
include hbracket hi hpos hword

theorem LastStep.atPosition (h : LastStep c parent name d s uri) :
    LastStep c parent (PathStep.atPosition name numeral) d { s with position := some i } uri where
  place := h.place
  step := by rw [PathStep.read_atPosition hbracket hi hpos hword, h.step]
  uri := h.uri

theorem LastStepFails.atPosition {e : PathError} (h : LastStepFails c parent name e) :
    ∃ e', LastStepFails c parent (PathStep.atPosition name numeral) e' ∧
      (e' = e ∨ e = .invalidStep (Text.trim name) ∧
        e' = .invalidStep (Text.trim (PathStep.atPosition name numeral))) := by
  have hread := PathStep.read_atPosition hbracket hi hpos hword
  cases h with
  | parent hplace => exact ⟨e, .parent hplace, .inl rfl⟩
  | malformed hplace hstep =>
    rw [hstep] at hread
    exact ⟨_, .malformed hplace hread, .inr ⟨PathStep.eq_of_read_error hstep, rfl⟩⟩
  | unbound hplace hstep hq hns =>
    rw [hstep] at hread
    exact ⟨_, .unbound hplace hread hq hns, .inl rfl⟩

theorem LastStep.pointer_atPosition (h : LastStep c parent name d s uri) (hslash : '/' ∉ name) :
    c.pointer (joined parent (PathStep.atPosition name numeral)) =
      match (d.children.filter (XmlElement.bears s.name uri))[i - 1]? with
      | some e => .ok (d.moveTo e)
      | none => .error (.notFound (joined parent (PathStep.atPosition name numeral))) :=
  (h.atPosition hbracket hi hpos hword).pointer_eq (PathStep.slash_notMem_atPosition hi hslash)

end Positions

end DocumentContext

namespace Sample

/-- Two lamps that look alike, among lamps of another namespace and of none. -/
def house : XmlElement :=
  ⟨"house", some uri, [foreign "lamp", element "lamp" [], .text " ", .child ⟨"lamp", none, []⟩, element "lamp" [],
    element "door" []]⟩

def houseDocument : DocumentContext := .ofRoot house (Namespaces.ofDeviceUri uri)

end Sample

/-- The indexes of the elements that bear a name, in order. -/
structure XmlElement.IndexesOf (name : Text) (uri : Option Text) (es : List XmlElement) (indexes : List Nat) :
    Prop where
  increasing : indexes.Pairwise (· < ·)
  mem_iff (k : Nat) : k ∈ indexes ↔ ∃ e, es[k]? = some e ∧ e.name = name ∧ e.namespaceUri = uri

namespace XmlElement

variable {name : Text} {uri : Option Text} {es : List XmlElement}

private theorem bears_iff {e : XmlElement} : bears name uri e = true ↔ e.name = name ∧ e.namespaceUri = uri := by
  simp [bears]

private theorem indexesOf_findIdxs : IndexesOf name uri es (es.findIdxs (bears name uri)) where
  increasing := List.pairwise_findIdxs
  mem_iff k := by
    rw [List.mem_findIdxs_iff_exists_getElem_pos]
    constructor
    · rintro ⟨hk, hb⟩
      exact ⟨es[k], List.getElem?_eq_getElem hk, bears_iff.mp hb⟩
    · rintro ⟨e, he, hb⟩
      obtain ⟨hk, rfl⟩ := List.getElem?_eq_some_iff.mp he
      exact ⟨hk, bears_iff.mpr hb⟩

private theorem getElem?_filter_bears {j : Nat} (hj : j < es.countP (bears name uri)) :
    ∃ k e, (es.findIdxs (bears name uri))[j]? = some k ∧ es[k]? = some e ∧
      (es.filter (bears name uri))[j]? = some e := by
  have hfilter : j < (es.filter (bears name uri)).length := by rwa [← List.countP_eq_length_filter]
  have hindex : j < (es.findIdxs (bears name uri)).length := by rwa [List.length_findIdxs]
  have hk := List.getElem_filter_eq_getElem_getElem_findIdxs hfilter
  refine ⟨_, _, List.getElem?_eq_getElem hindex, ?_, List.getElem?_eq_getElem hfilter⟩
  rw [hk]
  exact List.getElem?_eq_getElem _

end XmlElement

namespace DocumentContext

variable {c d : DocumentContext} {parent : Option Text} {name numeral last : Text} {s : PathStep} {uri : Option Text}

/-- Two steps from one place lead to the same child, or fail alike, each with its own text. -/
inductive LeadAlike (c : DocumentContext) (parent : Option Text) (a b : Text) : Prop
  | same (h : c.pointer (joined parent a) = c.pointer (joined parent b)) : LeadAlike c parent a b
  | notFound (ha : c.pointer (joined parent a) = .error (.notFound (joined parent a)))
    (hb : c.pointer (joined parent b) = .error (.notFound (joined parent b))) : LeadAlike c parent a b
  | malformed (ha : c.pointer (joined parent a) = .error (.invalidStep (Text.trim a)))
    (hb : c.pointer (joined parent b) = .error (.invalidStep (Text.trim b))) : LeadAlike c parent a b

private theorem leadAlike_first (c : DocumentContext) (parent : Option Text) (hslash : '/' ∉ name)
    (hbracket : '[' ∉ name)
    (hi : Numeral.Denotes numeral 1) : LeadAlike c parent name (PathStep.atPosition name numeral) := by
  have hword : 1 ≤ Numeral.maxWord64 := by decide
  have hslash' := PathStep.slash_notMem_atPosition hi hslash
  obtain ⟨d, s, uri, h⟩ | ⟨e, h⟩ := lastStep_or_fails c parent name
  · have hindex : s.index = 0 := by rw [PathStep.index, PathStep.position_of_read hbracket h.step, Option.getD_none]
    have hfirst := h.pointer_eq hslash
    have hposition := h.pointer_atPosition hbracket hi (le_refl 1) hword hslash
    rw [hindex] at hfirst
    rw [Nat.sub_self] at hposition
    cases hes : (d.children.filter (XmlElement.bears s.name uri))[0]? with
    | none =>
      rw [hes] at hfirst hposition
      exact .notFound hfirst hposition
    | some e =>
      rw [hes] at hfirst hposition
      exact .same (hfirst.trans hposition.symm)
  · obtain ⟨e', h', rfl | ⟨rfl, rfl⟩⟩ := h.atPosition hbracket hi (le_refl 1) hword
    · have hfirst := h.pointer_eq hslash
      have hposition := h'.pointer_eq hslash'
      cases e' with
      | notFound path => exact .notFound hfirst hposition
      | _ => exact .same (hfirst.trans hposition.symm)
    · exact .malformed (h.pointer_eq hslash) (h'.pointer_eq hslash')

theorem LastStep.pointer_of_le {i : Nat} (h : LastStep c parent name d s uri) (hslash : '/' ∉ name)
    (hbracket : '[' ∉ name) (hi : Numeral.Denotes numeral i) (hpos : 1 ≤ i) (hword : i ≤ Numeral.maxWord64)
    (hle : i ≤ d.children.countP (XmlElement.bears s.name uri)) :
    ∃ k e, (d.children.findIdxs (XmlElement.bears s.name uri))[i - 1]? = some k ∧ d.children[k]? = some e ∧
      c.pointer (joined parent (PathStep.atPosition name numeral)) = .ok (d.moveTo e) := by
  have hindex : i - 1 < d.children.countP (XmlElement.bears s.name uri) := by omega
  obtain ⟨k, e, hk, he, hfilter⟩ := XmlElement.getElem?_filter_bears hindex
  refine ⟨k, e, hk, he, ?_⟩
  rw [h.pointer_atPosition hbracket hi hpos hword hslash, hfilter]

theorem LastStep.pointer_of_lt {i : Nat} (h : LastStep c parent name d s uri) (hslash : '/' ∉ name)
    (hbracket : '[' ∉ name) (hi : Numeral.Denotes numeral i) (hword : i ≤ Numeral.maxWord64)
    (hlt : d.children.countP (XmlElement.bears s.name uri) < i) :
    c.pointer (joined parent (PathStep.atPosition name numeral)) =
      .error (.notFound (joined parent (PathStep.atPosition name numeral))) := by
  have hnone : (d.children.filter (XmlElement.bears s.name uri))[i - 1]? = none := by
    rw [List.getElem?_eq_none_iff, ← List.countP_eq_length_filter]
    omega
  rw [h.pointer_atPosition hbracket hi (Nat.one_le_of_lt hlt) hword hslash, hnone]

/-- Children are counted and indexed alike: the children of the name that the last step asks for are counted, the
positions up to their number lead to them in document order, and later positions to nothing. No child is counted
exactly when no last step is taken. -/
theorem count_and_positions (c : DocumentContext) (parent : Option Text) (hslash : '/' ∉ name) (hbracket : '[' ∉ name) :
    (∀ n, c.count (joined parent name) = .ok n → ∃ d s uri indexes,
      LastStep c parent name d s uri ∧ XmlElement.IndexesOf s.name uri d.children indexes ∧ indexes.length = n ∧
      ∀ i numeral, Numeral.Denotes numeral i → 1 ≤ i → i ≤ Numeral.maxWord64 →
        (i ≤ n → ∃ k e, indexes[i - 1]? = some k ∧ d.children[k]? = some e ∧
          c.pointer (joined parent (PathStep.atPosition name numeral)) = .ok (d.moveTo e)) ∧
        (n < i → c.pointer (joined parent (PathStep.atPosition name numeral)) =
          .error (.notFound (joined parent (PathStep.atPosition name numeral))))) ∧
    (∀ numeral, Numeral.Denotes numeral 1 → LeadAlike c parent name (PathStep.atPosition name numeral)) ∧
    ∀ e, c.count (joined parent name) = .error e ↔ LastStepFails c parent name e := by
  refine ⟨fun n hn => ?_, fun numeral hi => leadAlike_first c parent hslash hbracket hi,
    fun e => count_eq_error_iff hslash⟩
  obtain ⟨d, s, uri, h⟩ := exists_lastStep_of_count hslash hn
  obtain rfl := Except.ok.inj ((h.count_eq hslash).symm.trans hn)
  refine ⟨d, s, uri, _, h, XmlElement.indexesOf_findIdxs, List.length_findIdxs, fun i numeral hi hpos hword => ?_⟩
  exact ⟨fun hle => h.pointer_of_le hslash hbracket hi hpos hword hle,
    fun hlt => h.pointer_of_lt hslash hbracket hi hword hlt⟩

open PathStep in
theorem count_and_positions_lamps :
    '/' ∉ (" upnp:lamp " : Text) ∧ '[' ∉ (" upnp:lamp " : Text) ∧
    Sample.houseDocument.count (joined (some "upnp:house") " upnp:lamp ") = .ok 2 ∧
    (∃ x, Sample.houseDocument.pointer (joined (some "upnp:house") (atPosition " upnp:lamp " "02")) = .ok x) ∧
    Sample.houseDocument.pointer (joined (some "upnp:house") (atPosition " upnp:lamp " "+3")) =
      .error (.notFound "upnp:house/ upnp:lamp [+3]") := by
  have hslash : '/' ∉ (" upnp:lamp " : Text) := by decide
  have hbracket : '[' ∉ (" upnp:lamp " : Text) := by decide
  have hcount : Sample.houseDocument.count (joined (some "upnp:house") " upnp:lamp ") = .ok 2 :=
    eq_ok_of_toOption (by decide +kernel)
  have hsecond : Numeral.Denotes "02" 2 := (Numeral.denotes_of_read? (show Numeral.read? 2 "02" = some 2 by decide)).1
  have hthird : Numeral.Denotes "+3" 3 := (Numeral.denotes_of_read? (show Numeral.read? 3 "+3" = some 3 by decide)).1
  obtain ⟨hpositions, -, -⟩ :=
    count_and_positions Sample.houseDocument (some "upnp:house") hslash hbracket
  obtain ⟨d, s, uri, indexes, -, -, -, hat⟩ := hpositions 2 hcount
  obtain ⟨k, e, -, -, hpointer⟩ := (hat 2 "02" hsecond (by decide) (by decide)).1 (by decide)
  exact ⟨hslash, hbracket, hcount, ⟨_, hpointer⟩, (hat 3 "+3" hthird (by decide) (by decide)).2 (by decide)⟩

/-- What designates nothing and what is malformed is reported as it is written, with or without the position. -/
theorem not_pointer_first_eq :
    (¬∀ (c : DocumentContext) (parent : Option Text) (name : Text) (n : Nat), '/' ∉ name → '[' ∉ name →
      c.count (joined parent name) = .ok n →
      c.pointer (joined parent name) = c.pointer (joined parent (PathStep.atPosition name "1"))) ∧
    ¬∀ (c : DocumentContext) (parent : Option Text) (name step : Text), '/' ∉ name → '[' ∉ name →
      c.count (joined parent name) = .error (.invalidStep step) →
      c.pointer (joined parent name) = c.pointer (joined parent (PathStep.atPosition name "1")) := by
  constructor
  · intro hall
    have hcount : Sample.houseDocument.count (joined none "upnp:lamp") = .ok 0 := eq_ok_of_toOption (by decide +kernel)
    have heq := hall Sample.houseDocument none "upnp:lamp" 0 (by decide) (by decide) hcount
    have hfirst : Sample.houseDocument.pointer (joined none "upnp:lamp") = .error (.notFound "upnp:lamp") := rfl
    have hposition : Sample.houseDocument.pointer (joined none (PathStep.atPosition "upnp:lamp" "1")) =
        .error (.notFound "upnp:lamp[1]") := rfl
    rw [hfirst, hposition] at heq
    injection heq with heq
    injection heq with heq
    exact absurd heq (by decide)
  · intro hall
    have heq := hall Sample.houseDocument none ":" ":" (by decide) (by decide) rfl
    have hfirst : Sample.houseDocument.pointer (joined none ":") = .error (.invalidStep ":") := rfl
    have hposition : Sample.houseDocument.pointer (joined none (PathStep.atPosition ":" "1")) =
        .error (.invalidStep ":[1]") := rfl
    rw [hfirst, hposition] at heq
    injection heq with heq
    injection heq with heq
    exact absurd heq (by decide)

end DocumentContext
end DeviceDescription
