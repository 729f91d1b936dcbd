import DeviceDescription.Proofs.FailingSteps
import DeviceDescription.Proofs.StepGrammar
import DeviceDescription.Proofs.StructuralFaults

/-!
# Fields under the two policies

What a field yields is decided by its text and its kind, and the same under both policies. The policy decides only what
becomes of a field without a usable value: one that may be missing is absent, and one that may not is a violation.
-/
namespace DeviceDescription

open Traversal

namespace DocumentContext

variable {c d : DocumentContext} {path t : Text} {steps : List Text}

theorem Leads.eq_or_exists_element (h : c.Leads steps d) : d = c ∧ steps = [] ∨ ∃ x, d.element? = some x := by
  induction h with
  | nil => exact .inl ⟨rfl, rfl⟩
  | cons hstep _ ih =>
    obtain ⟨rfl, -⟩ | hx := ih
    · cases hstep with
      | @child _ _ x _ _ => exact .inr ⟨x, rfl⟩
    · exact .inr hx

theorem exists_element_of_pointer (h : c.pointer path = .ok d) : ∃ x, d.element? = some x := by
  obtain ⟨-, hnil⟩ | hx := (follow_eq_ok_iff.mp h).eq_or_exists_element
  · exact absurd hnil (List.splitOn_ne_nil _ _)
  · exact hx

theorem value_eq_nil_iff : c.value path = .ok [] ↔
    ∃ d x, c.pointer path = .ok d ∧ d.element? = some x ∧ ∀ ch ∈ x.directText, Text.isBlank ch = true := by
  rw [value_eq_ok_iff]
  constructor
  · rintro ⟨d, hd, ht⟩
    obtain ⟨x, hx⟩ := exists_element_of_pointer hd
    rw [ownText, hx, Option.elim_some, Text.trim_eq_nil_iff] at ht
    exact ⟨d, x, hd, hx, ht⟩
  · rintro ⟨d, x, hd, hx, hblank⟩
    refine ⟨d, hd, ?_⟩
    rwa [ownText, hx, Option.elim_some, Text.trim_eq_nil_iff]

private theorem isTrimmed_of_value (h : c.value path = .ok t) : t.IsTrimmed := by
  obtain ⟨d, hd, rfl⟩ := value_eq_ok_iff.mp h
  obtain ⟨x, hx⟩ := exists_element_of_pointer hd
  rw [ownText, hx]
  exact Text.isTrimmed_trim _

end DocumentContext

def FieldKind.bound? : FieldKind → Option Nat
  | .integer => some Numeral.maxWord64
  | .integer32 => some Numeral.maxWord32
  | _ => none

namespace Field

variable {α : Type} {f : Field α} {c : DocumentContext} {base : Option Url} {t : Text} {v : FieldValue}
  {e : DescriptionError}

structure Holds (f : Field α) (c : DocumentContext) (t : Text) : Prop where
  value : c.value f.path = .ok t
  ne_nil : t ≠ []

theorem Holds.isFilled (h : f.Holds c t) : t.IsFilled := ⟨DocumentContext.isTrimmed_of_value h.value, h.ne_nil⟩

variable [InternationalNames]

inductive Yields (f : Field α) (c : DocumentContext) (base : Option Url) : FieldValue → Prop
  | text {t : Text} (h : f.Holds c t) (hkind : f.kind = .text) : Yields f c base (.text t)
  | number {t : Text} {bound n : Nat} (h : f.Holds c t) (hkind : f.kind.bound? = some bound)
    (hdenotes : Numeral.Denotes t n) (hle : n ≤ bound) : Yields f c base (.integer n)
  | url {t : Text} {u : Url} (h : f.Holds c t) (hkind : f.kind = .url)
    (hresolve : UrlReference.resolve base (some t) = .ok (some u)) : Yields f c base (.url u)

/-- Why a field has no usable value. Only a reference is reported for what it is, else the field is. -/
inductive Unusable (f : Field α) (c : DocumentContext) (base : Option Url) : DescriptionError → Prop
  | noPlace {reason : PathError} (h : c.pointer f.path = .error reason) : Unusable f c base (.schemaViolation f.name)
  | blank {d : DocumentContext} {x : XmlElement} (h : c.pointer f.path = .ok d) (hx : d.element? = some x)
    (hblank : ∀ ch ∈ x.directText, Text.isBlank ch = true) : Unusable f c base (.schemaViolation f.name)
  | noNumber {t : Text} {bound : Nat} (h : f.Holds c t) (hkind : f.kind.bound? = some bound)
    (hnone : ∀ n ≤ bound, ¬Numeral.Denotes t n) : Unusable f c base (.schemaViolation f.name)
  | unresolved {t s : Text} (h : f.Holds c t) (hkind : f.kind = .url)
    (hresolve : UrlReference.resolve base (some t) = .error (.invalidUrl s)) : Unusable f c base (.invalidUrl s)

theorem Holds.read_eq (h : f.Holds c t) (base : Option Url) : f.read c base = f.kind.interpret f.name base t := by
  have htext : optionalText c f.path = some t := by
    rw [optionalText, h.value]
    exact if_neg h.ne_nil
  rw [read, htext]

/-- The kinds of numbers differ in their bounds alone. -/
theorem interpret_of_bound {kind : FieldKind} {bound : Nat} (hkind : kind.bound? = some bound) (name : Text)
    (base : Option Url) (t : Text) :
    kind.interpret name base t = match Numeral.read? bound t with
      | some n => .ok (.integer n)
      | none => .error (.schemaViolation name) := by
  cases kind with
  | integer | integer32 =>
    cases hkind
    rfl
  | text | url => cases hkind

theorem Yields.read_eq (h : f.Yields c base v) : f.read c base = .ok v := by
  cases h with
  | text h hkind => rw [h.read_eq, hkind, FieldKind.interpret]
  | number h hkind hdenotes hle =>
    rw [h.read_eq, interpret_of_bound hkind, Numeral.read?_eq_some_iff.mpr ⟨hdenotes, hle⟩]
  | url h hkind hresolve => rw [h.read_eq, hkind, FieldKind.interpret, hresolve]

theorem Unusable.read_eq (h : f.Unusable c base e) : f.read c base = .error e := by
  cases h with
  | noPlace h => rw [read, optionalText, DocumentContext.value_eq_error_iff.mpr h]
  | blank h hx hblank =>
    rw [read, optionalText, DocumentContext.value_eq_nil_iff.mpr ⟨_, _, h, hx, hblank⟩]
    rfl
  | @noNumber t bound h hkind hnone =>
    have hread : Numeral.read? bound t = none := by
      rw [Option.eq_none_iff_forall_ne_some]
      intro n hn
      obtain ⟨hdenotes, hle⟩ := Numeral.denotes_of_read? hn
      exact hnone n hle hdenotes
    rw [h.read_eq, interpret_of_bound hkind, hread]
  | unresolved h hkind hresolve => rw [h.read_eq, hkind, FieldKind.interpret, hresolve]

theorem Holds.yields_or_unusable_of_bound (h : f.Holds c t) {bound : Nat} (hkind : f.kind.bound? = some bound)
    (base : Option Url) : (∃ v, f.Yields c base v) ∨ ∃ e, f.Unusable c base e := by
  cases hread : Numeral.read? bound t with
  | some n =>
    obtain ⟨hdenotes, hle⟩ := Numeral.denotes_of_read? hread
    exact .inl ⟨_, .number h hkind hdenotes hle⟩
  | none =>
    refine .inr ⟨_, .noNumber h hkind fun n hle hdenotes => ?_⟩
    cases hread.symm.trans (Numeral.read?_eq_some_iff.mpr ⟨hdenotes, hle⟩)

/-- A reference that is not blank means a URL or is an invalid one. -/
theorem Holds.yields_or_unusable_of_url (h : f.Holds c t) (hkind : f.kind = .url) (base : Option Url) :
    (∃ v, f.Yields c base v) ∨ ∃ e, f.Unusable c base e := by
  cases hresolve : UrlReference.resolve base (some t) with
  | error x =>
    obtain ⟨s, rfl⟩ := UrlReference.resolve_eq_error hresolve
    exact .inr ⟨_, .unresolved h hkind hresolve⟩
  | ok u =>
    cases u with
    | some u => exact .inl ⟨_, .url h hkind hresolve⟩
    | none =>
      have ht : Text.trim t ≠ [] := by
        rw [h.isFilled.trim_eq]
        exact h.ne_nil
      exact absurd hresolve (resolve_ne_none base ht)

theorem yields_or_unusable (f : Field α) (c : DocumentContext) (base : Option Url) :
    (∃ v, f.Yields c base v) ∨ ∃ e, f.Unusable c base e := by
  cases hvalue : c.value f.path with
  | error reason => exact .inr ⟨_, .noPlace (DocumentContext.value_eq_error_iff.mp hvalue)⟩
  | ok t =>
    by_cases ht : t = []
    · rw [ht, DocumentContext.value_eq_nil_iff] at hvalue
      obtain ⟨d, x, hd, hx, hblank⟩ := hvalue
      exact .inr ⟨_, .blank hd hx hblank⟩
    · have h : f.Holds c t := ⟨hvalue, ht⟩
      cases hkind : f.kind with
      | text => exact .inl ⟨_, .text h hkind⟩
      | integer => exact h.yields_or_unusable_of_bound (by rw [hkind, FieldKind.bound?]) base
      | integer32 => exact h.yields_or_unusable_of_bound (by rw [hkind, FieldKind.bound?]) base
      | url => exact h.yields_or_unusable_of_url hkind base

theorem read_eq_ok_iff : f.read c base = .ok v ↔ f.Yields c base v :=
  eq_ok_iff_of_total (fun _ => Yields.read_eq) <|
    (yields_or_unusable f c base).imp_right fun ⟨e, h⟩ => ⟨e, h.read_eq⟩

theorem read_eq_error_iff : f.read c base = .error e ↔ f.Unusable c base e :=
  eq_error_iff_of_total (fun _ => Unusable.read_eq) <|
    (yields_or_unusable f c base).imp_left fun ⟨v, h⟩ => ⟨v, h.read_eq⟩

def under (f : Field α) (policy : FieldPolicy) : Field α := { f with policy }

def ofKind (f : Field α) (kind : FieldKind) : Field α := { f with kind }

theorem extract_eq_value_iff : f.extract c base = .value v ↔ f.Yields c base v := by
  rw [← read_eq_ok_iff, extract]
  cases f.read c base with
  | ok w => simp [FieldPolicy.judge]
  | error x => cases f.policy <;> simp [FieldPolicy.judge]

@[simp] theorem read_under (policy : FieldPolicy) : (f.under policy).read c base = f.read c base := rfl

theorem extract_mandatory_eq_violation_iff :
    (f.under .mandatory).extract c base = .violation e ↔ f.Unusable c base e := by
  rw [← read_eq_error_iff, extract, read_under, under]
  cases f.read c base <;> simp [FieldPolicy.judge]

private theorem extract_mandatory_ne_absent : (f.under .mandatory).extract c base ≠ .absent := by
  rw [extract, read_under, under]
  cases f.read c base <;> simp [FieldPolicy.judge]

theorem extract_optional_eq_absent_iff :
    (f.under .optional).extract c base = .absent ↔ ∃ e, f.Unusable c base e := by
  simp only [← read_eq_error_iff]
  rw [extract, read_under, under]
  cases f.read c base <;> simp [FieldPolicy.judge]

private theorem extract_optional_ne_violation : (f.under .optional).extract c base ≠ .violation e := by
  rw [extract, read_under, under]
  cases f.read c base <;> simp [FieldPolicy.judge]

private theorem isFilled_of_extract (h : f.extract c base = .value (.text t)) : t.IsFilled := by
  cases extract_eq_value_iff.mp h with
  | text h _ => exact h.isFilled

/-- A field of numbers yields one if it denotes it within its bound. -/
theorem extract_eq_integer_iff {bound n : Nat} (hkind : f.kind.bound? = some bound) :
    f.extract c base = .value (.integer n) ↔ ∃ t, f.Holds c t ∧ Numeral.Denotes t n ∧ n ≤ bound := by
  rw [extract_eq_value_iff]
  constructor
  · intro h
    cases h with
    | @number t _ _ h hkind' hdenotes hle =>
      cases hkind.symm.trans hkind'
      exact ⟨t, h, hdenotes, hle⟩
  · rintro ⟨t, h, hdenotes, hle⟩
    exact .number h hkind hdenotes hle

private theorem extract_integer32_iff {n : Nat} :
    (f.ofKind .integer32).extract c base = .value (.integer n) ↔
      (f.ofKind .integer).extract c base = .value (.integer n) ∧ n ≤ Numeral.maxWord32 := by
  have hword : Numeral.maxWord32 ≤ Numeral.maxWord64 := by decide
  have hholds (t : Text) : (f.ofKind .integer32).Holds c t ↔ (f.ofKind .integer).Holds c t :=
    ⟨fun h => ⟨h.value, h.ne_nil⟩, fun h => ⟨h.value, h.ne_nil⟩⟩
  rw [extract_eq_integer_iff (f := f.ofKind .integer32) rfl, extract_eq_integer_iff (f := f.ofKind .integer) rfl]
  simp only [hholds]
  constructor
  · rintro ⟨t, h, hdenotes, hle⟩
    exact ⟨⟨t, h, hdenotes, hle.trans hword⟩, hle⟩
  · rintro ⟨⟨t, h, hdenotes, -⟩, hle⟩
    exact ⟨t, h, hdenotes, hle⟩

/-- Both policies read the same value. Where there is none, an optional field is absent exactly where a mandatory one is
a violation: of the field itself, or of the reference that it holds. -/
theorem extract_under_policies (f : Field α) (c : DocumentContext) (base : Option Url) :
    (∀ v, (f.under .mandatory).extract c base = .value v ↔ (f.under .optional).extract c base = .value v) ∧
    (∀ v, (f.under .optional).extract c base = .value v ↔ f.Yields c base v) ∧
    (f.under .mandatory).extract c base ≠ .absent ∧
    (∀ e, (f.under .optional).extract c base ≠ .violation e) ∧
    ((f.under .optional).extract c base = .absent ↔ ∃ e, (f.under .mandatory).extract c base = .violation e) ∧
    (∀ e, (f.under .mandatory).extract c base = .violation e ↔ f.Unusable c base e) ∧
    (∀ t, f.extract c base = .value (.text t) → t.IsFilled) ∧
    ∀ n, (f.ofKind .integer32).extract c base = .value (.integer n) ↔
      (f.ofKind .integer).extract c base = .value (.integer n) ∧ n ≤ Numeral.maxWord32 := by
  have hvalue (policy : FieldPolicy) (v : FieldValue) :
      (f.under policy).extract c base = .value v ↔ f.Yields c base v := by
    rw [extract_eq_value_iff, ← read_eq_ok_iff, ← read_eq_ok_iff, read_under]
  refine ⟨fun v => ?_, hvalue .optional, extract_mandatory_ne_absent, fun e => extract_optional_ne_violation, ?_,
    fun e => extract_mandatory_eq_violation_iff, fun t => isFilled_of_extract, fun n => extract_integer32_iff⟩
  · rw [hvalue .mandatory, hvalue .optional]
  · simp only [extract_optional_eq_absent_iff, extract_mandatory_eq_violation_iff]

end Field

namespace Sample

/-- A label that is one too large for 32 bits, and a link that no base completes. -/
def shelf : DocumentContext :=
  ⟨.element ⟨"shelf", some uri, [leaf "label" " 4294967296\n", leaf "link" "x/y"]⟩, Namespaces.ofDeviceUri uri⟩

def labelField : Field Text := .mandatory "label" .text fun v _ => v.toText

def linkField : Field Text := .mandatory "link" .url fun v _ => v.toText

end Sample

open Sample InternationalNames in
theorem Field.extract_under_policies_shelf :
    labelField.extract shelf none = .value (.text "4294967296") ∧ Text.IsFilled "4294967296" ∧
    (labelField.ofKind .integer).extract shelf none = .value (.integer 4294967296) ∧
    (labelField.ofKind .integer32).extract shelf none ≠ .value (.integer 4294967296) ∧
    (linkField.under .mandatory).extract shelf none = .violation (.invalidUrl "x/y") ∧
    (linkField.under .optional).extract shelf none = .absent := by
  have htext : labelField.extract shelf none = .value (.text "4294967296") := by decide +kernel
  have hnumber : (labelField.ofKind .integer).extract shelf none = .value (.integer 4294967296) := by decide +kernel
  have hlink : (linkField.under .mandatory).extract shelf none = .violation (.invalidUrl "x/y") := by decide +kernel
  obtain ⟨-, -, -, -, -, -, hfilled, hword⟩ := extract_under_policies labelField shelf none
  obtain ⟨-, -, -, -, habsent, -⟩ := extract_under_policies linkField shelf none
  refine ⟨htext, hfilled _ htext, hnumber, fun h => ?_, hlink, habsent.mpr ⟨_, hlink⟩⟩
  exact absurd ((hword _).mp h).2 (by decide)

end DeviceDescription
