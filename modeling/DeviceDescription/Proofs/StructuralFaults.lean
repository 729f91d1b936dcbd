import DeviceDescription.Proofs.OrderedChecks

/-!
# Faults that no description shows

The reader writes its paths itself, from names of the schema and from positions that it has counted. Once a list is
found, these paths lead somewhere. What a description is refused for is thus never a path, nor the text of a document.
-/
namespace DeviceDescription

open SchemaTree PathStep Traversal

/-- Faults of the way to a value, and not of a value. -/
def DescriptionError.IsStructural : DescriptionError → Prop
  | .path _ => True
  | .xml => True
  | .fetch _ => True
  | _ => False

section References
variable {x : DescriptionError} {t : Text} {b : Option Url} {base u : Url}

private theorem Url.ofComposed_eq_error [InternationalNames] (h : ofComposed t = .error x) : x = .invalidUrl t := by
  rw [ofComposed] at h
  split at h
  · cases h
  · exact (Except.error.inj h).symm

private theorem Url.origin_eq_error (h : u.origin = .error x) : x = .invalidUrl u.text := by
  rw [origin] at h
  split at h
  · exact (Except.error.inj h).symm
  · cases h

private theorem UrlReference.compose_eq_error (h : compose base t = .error x) : x = .invalidUrl base.text := by
  unfold compose at h
  split at h
  · cases ho : base.origin with
    | error y =>
      rw [ho] at h
      rw [← Except.error.inj h]
      exact Url.origin_eq_error ho
    | ok o =>
      rw [ho] at h
      cases h
  · cases h

private theorem UrlReference.resolveRelative_eq_error [InternationalNames] (h : resolveRelative b t = .error x) :
    ∃ s, x = .invalidUrl s := by
  cases b with
  | none => exact ⟨t, (Except.error.inj h).symm⟩
  | some base =>
    simp only [resolveRelative] at h
    cases hc : compose base (withSlashes t) with
    | error y =>
      rw [hc] at h
      cases h
      exact ⟨_, compose_eq_error hc⟩
    | ok s =>
      rw [hc] at h
      exact ⟨_, Url.ofComposed_eq_error h⟩

/-- A reference that cannot be resolved is an invalid URL, and no other fault. -/
theorem UrlReference.resolve_eq_error [InternationalNames] {raw : Option Text} (h : resolve b raw = .error x) :
    ∃ s, x = .invalidUrl s := by
  by_cases hn : Text.trim (raw.getD []) = []
  · rw [resolve_of_blank raw b hn] at h
    cases h
  · cases ha : absolute? (Text.trim (raw.getD [])) with
    | some u =>
      rw [resolve_of_absolute raw b ha hn] at h
      cases h
    | none =>
      rw [resolve_of_relative raw b ha hn] at h
      cases hr : resolveRelative b (Text.trim (raw.getD [])) with
      | error y =>
        rw [hr] at h
        cases h
        exact resolveRelative_eq_error hr
      | ok u =>
        rw [hr] at h
        cases h

end References

namespace Check

/-- Whatever the check refuses, it refuses a value. -/
def OfValue (k : Check) : Prop := ∀ x, k = .error x → ¬x.IsStructural

theorem ofValue_ok : OfValue (.ok ()) := by
  intro x h
  cases h

theorem ofValue_error {x : DescriptionError} (h : ¬x.IsStructural) : OfValue (.error x) := by
  intro y hy
  cases hy
  exact h

theorem ofValue_present {α : Type} {x : DescriptionError} (h : ¬x.IsStructural) (o : Option α) :
    OfValue (present x o) := by
  cases o with
  | none => exact ofValue_error h
  | some a => exact ofValue_ok

end Check

namespace SchemaTree

open Check

variable {uri : Text} {base location : Url} {bases : Bases} {e root : XmlElement}

private theorem ofValue_textCheck (name : Text) : (textCheck uri name e).OfValue := ofValue_present id _

private theorem ofValue_numberCheck (name : Text) : (numberCheck uri name e).OfValue := ofValue_present id _

private theorem ofValue_versionCheck (major : Option Nat) (minor : Nat) : (versionCheck major minor).OfValue := by
  unfold versionCheck
  split
  · split
    · exact ofValue_ok
    · exact ofValue_error id
  · exact ofValue_ok

variable [InternationalNames]

private theorem ofValue_urlCheck (name : Text) : (urlCheck uri base name e).OfValue := by
  intro x h
  rw [urlCheck] at h
  cases hr : UrlReference.resolve (some base) (text? uri name e) with
  | ok u =>
    rw [hr] at h
    cases h
  | error y =>
    rw [hr] at h
    cases h
    obtain ⟨s, rfl⟩ := UrlReference.resolve_eq_error hr
    exact id

private theorem ofValue_of_mem_deviceChecks {k : Check} (h : k ∈ deviceChecks uri bases e) : k.OfValue := by
  rw [deviceChecks, List.mem_append, List.mem_append, List.mem_flatMap, List.mem_flatMap] at h
  rcases h with h | ⟨i, -, h⟩ | ⟨s, -, h⟩
  · simp only [infoChecks, List.mem_cons, List.not_mem_nil, or_false] at h
    rcases h with rfl | rfl | rfl | rfl
    all_goals exact ofValue_textCheck _
  · simp only [iconChecks, List.mem_cons, List.not_mem_nil, or_false] at h
    rcases h with rfl | rfl | rfl | rfl | rfl
    · exact ofValue_textCheck _
    · exact ofValue_numberCheck _
    · exact ofValue_numberCheck _
    · exact ofValue_numberCheck _
    · exact ofValue_urlCheck _
  · simp only [serviceChecks, List.mem_cons, List.not_mem_nil, or_false] at h
    rcases h with rfl | rfl | rfl | rfl | rfl | rfl
    · exact ofValue_textCheck _
    · exact ofValue_textCheck _
    · exact ofValue_textCheck _
    · exact ofValue_urlCheck _
    · exact ofValue_textCheck _
    · exact ofValue_urlCheck _

private theorem ofValue_of_mem_rootChecks {k : Check} (h : k ∈ rootChecks uri location root) : k.OfValue := by
  simp only [rootChecks, List.mem_cons] at h
  rcases h with rfl | rfl | rfl | h
  · exact ofValue_present id _
  · exact ofValue_versionCheck _ _
  · exact ofValue_present id _
  · cases hb : bases? uri location root with
    | none =>
      rw [hb] at h
      cases h
    | some bases =>
      cases ht : child? uri "device" root with
      | none =>
        rw [hb, ht] at h
        cases h
      | some top =>
        rw [hb, ht] at h
        obtain ⟨x, -, hx⟩ := List.mem_flatMap.mp (show k ∈ treeChecks uri bases top from h)
        exact ofValue_of_mem_deviceChecks hx

end SchemaTree

open Check in
private theorem Description.ofValue_of_mem_checks [InternationalNames] {location : Url} {document : DocumentContext}
    {k : Check} (h : k ∈ checks location document) : k.OfValue := by
  simp only [checks, List.mem_cons] at h
  rcases h with rfl | h
  · exact ofValue_present id _
  · cases huri : document.namespaces.uri? Namespaces.deviceQualifier with
    | none =>
      rw [huri] at h
      cases h
    | some uri =>
      cases hroot : (named uri "root" document.children).head? with
      | none =>
        simp only [huri, hroot, Option.bind_some] at h
        cases h
      | some root =>
        simp only [huri, hroot, Option.bind_some] at h
        exact ofValue_of_mem_rootChecks h

namespace RootDevice

open Check

variable {a : Announcement} {now : Instant} {document : DocumentContext}

variable [InternationalNames]

private theorem ofValue_of_mem_checks {k : Check} (h : k ∈ checks a document) : k.OfValue := by
  rw [checks, List.mem_append] at h
  rcases h with h | h
  · simp only [List.mem_cons, List.not_mem_nil, or_false] at h
    rcases h with rfl | rfl | rfl
    · rw [Announcement.locationCheck]
      split
      · exact ofValue_ok
      · exact ofValue_error id
    · rw [Announcement.hostCheck]
      split
      · split
        · exact ofValue_ok
        · exact ofValue_error id
      · exact ofValue_ok
    · rw [Announcement.maxAgeCheck]
      split
      · exact ofValue_ok
      · exact ofValue_present id _
  · split at h
    · exact Description.ofValue_of_mem_checks h
    · cases h

private theorem not_isStructural_of_ofContext (hc : ∀ e ∈ document.children, e.Countable) {x : DescriptionError}
    (h : ofContext a now document = .error x) : ¬x.IsStructural := by
  obtain ⟨before, after, hchecks, -⟩ := (reports_ofContext a now hc).eq_error_iff.mp h
  have hmem : (.error x : Check) ∈ checks a document := by
    rw [hchecks]
    exact List.mem_append_right _ List.mem_cons_self
  exact ofValue_of_mem_checks hmem x rfl

end RootDevice

namespace XmlElement

theorem Countable.length_le {e : XmlElement} (h : e.Countable) : e.children.length ≤ Numeral.maxWord64 := by
  obtain ⟨hlength, -⟩ := h
  exact hlength

theorem Countable.of_mem_children {e x : XmlElement} (h : e.Countable) (hx : x ∈ e.children) : x.Countable := by
  obtain ⟨-, hchildren⟩ := h
  exact hchildren x hx

end XmlElement

namespace DocumentContext

variable {c d : DocumentContext}

private theorem countable_of_follow {path : Text} {steps : List Text} (hc : ∀ e ∈ c.children, e.Countable)
    (h : c.follow path steps = .ok d) : ∀ e ∈ d.children, e.Countable := by
  induction steps generalizing c with
  | nil =>
    cases h
    exact hc
  | cons raw rest ih =>
    obtain ⟨step, -, h⟩ := bind_eq_ok h
    obtain ⟨es, hes, h⟩ := bind_eq_ok h
    split at h
    · rename_i e he
      have hcountable := hc e (mem_children_of_matching hes (List.mem_of_getElem? he))
      exact ih (c := c.moveTo e) (fun x hx => hcountable.of_mem_children hx) h
    · cases h

/-- The places that a reading comes to, each one by a path from the place before. -/
inductive Reaches (c : DocumentContext) : DocumentContext → Prop
  | start : c.Reaches c
  | follow {d e : DocumentContext} {path : Text} (before : c.Reaches d) (step : d.pointer path = .ok e) : c.Reaches e

private theorem countable_of_reaches (hc : ∀ e ∈ c.children, e.Countable) (h : c.Reaches d) :
    ∀ e ∈ d.children, e.Countable := by
  induction h with
  | start => exact hc
  | follow _ step ih => exact countable_of_follow ih step

/-- A list that is found can be counted, and each position up to the count leads to an item. -/
theorem items_of_list (hc : ∀ e ∈ c.children, e.Countable) {list item : Text} (hl : IsPlainName list)
    (hi : IsPlainName item) (h : c.pointer (SchemaPath.first list) = .ok d) :
    ∃ n, d.count (SchemaPath.first item) = .ok n ∧
      ∀ i, 1 ≤ i → i ≤ n → ∃ x, d.pointer (SchemaPath.nth item i) = .ok x := by
  cases hns : c.namespaces.uri? Namespaces.deviceQualifier with
  | none =>
    rw [pointer_first_unbound hns hl] at h
    cases h
  | some uri =>
    rw [pointer_first hns hl] at h
    split at h
    · rename_i l hlist
      cases h
      have hcountable := hc l (List.mem_filter.mp (List.mem_of_head? hlist)).1
      have hd : (c.moveTo l).namespaces.uri? Namespaces.deviceQualifier = some uri := hns
      refine ⟨_, count_first hd hi, fun i hpos hle => ?_⟩
      obtain ⟨j, rfl⟩ := Nat.exists_eq_add_of_le' hpos
      have hj : j < (named uri item (c.moveTo l).children).length := hle
      have hword : j < Numeral.maxWord64 :=
        calc j < (named uri item (c.moveTo l).children).length := hj
          _ ≤ l.children.length := List.length_filter_le _ _
          _ ≤ Numeral.maxWord64 := hcountable.length_le
      exact ⟨_, pointer_nth hd hi hword (List.getElem?_eq_getElem hj)⟩
    · cases h

end DocumentContext

namespace RootDevice

/-- A root device is never refused for a path, nor for the text of its document. Wherever a list is found in the
document, its items are counted and reached by their positions. Where the names of the schema have no namespace, an
announcement that is in order meets a document without a root, and a location that is in order has a directory. -/
theorem not_refused_for_structure [InternationalNames] (a : Announcement) (now : Instant) {document : DocumentContext}
    (hc : ∀ e ∈ document.children, e.Countable) :
    ((∀ reason, ofContext a now document ≠ .error (.path reason)) ∧ ofContext a now document ≠ .error .xml ∧
      ∀ reason, ofContext a now document ≠ .error (.fetch reason)) ∧
    (∀ c, document.Reaches c → ∀ list item, IsPlainName list → IsPlainName item →
      ∀ d, c.pointer (SchemaPath.first list) = .ok d →
        ∃ n, d.count (SchemaPath.first item) = .ok n ∧
          ∀ i, 1 ≤ i → i ≤ n → ∃ x, d.pointer (SchemaPath.nth item i) = .ok x) ∧
    (document.namespaces.uri? Namespaces.deviceQualifier = none →
      ∀ location duration, a.readLocation = .ok location → a.readMaxAge = .ok duration →
        ofContext a now document = .error (.unsupportedDevice .noRoot)) ∧
    ∀ location, a.readLocation = .ok location → ∃ d, location.directory = .ok d := by
  refine ⟨⟨?_, ?_, ?_⟩, ?_, ?_, ?_⟩
  · exact fun reason h => not_isStructural_of_ofContext hc h trivial
  · exact fun h => not_isStructural_of_ofContext hc h trivial
  · exact fun reason h => not_isStructural_of_ofContext hc h trivial
  · intro c hreach list item hl hi d hd
    exact DocumentContext.items_of_list (DocumentContext.countable_of_reaches hc hreach) hl hi hd
  · intro hns location duration hl hm
    rw [ofContext, hl, ok_bind, hm, ok_bind, Description.read_unbound hns]
    rfl
  · intro location hl
    obtain ⟨-, authority, host, hserves⟩ := Announcement.serves_of_readLocation hl
    obtain ⟨d, -, hd, -⟩ := Url.exists_directory_of_serves hserves
    exact ⟨d, hd⟩

open InternationalNames in
/-- The document is refused for its second service, which is reached. Without a namespace for the schema, it is refused
before. -/
theorem not_refused_for_structure_faulty :
    (∀ e ∈ Sample.faulty.children, e.Countable) ∧
    (∃ x, ofContext Sample.announcement 0 Sample.faulty = .error x ∧ ∀ reason, x ≠ .path reason) ∧
    (∃ c d x, Sample.faulty.Reaches c ∧ c.pointer (SchemaPath.first "serviceList") = .ok d ∧
      d.count (SchemaPath.first "service") = .ok 2 ∧ d.pointer (SchemaPath.nth "service" 2) = .ok x) ∧
    ofContext Sample.announcement 0 (.ofRoot Sample.faultyRoot .empty) = .error (.unsupportedDevice .noRoot) := by
  have hc : ∀ e ∈ Sample.faulty.children, e.Countable := by
    intro e he
    obtain rfl := List.mem_singleton.mp he
    exact XmlElement.countable_of_sizeOf_le (by decide +kernel)
  have hrefused : (ofContext Sample.announcement 0 Sample.faulty).toOption.isNone = true := by decide +kernel
  have hplace : (Sample.faulty.pointer
      (SchemaPath.under (SchemaPath.first "root") (SchemaPath.first "device"))).toOption.map (fun c =>
        (c.pointer (SchemaPath.first "serviceList")).toOption.map fun d =>
          (d.count (SchemaPath.first "service")).toOption) = some (some (some 2)) := by decide +kernel
  have hannounced : (Sample.announcement.readLocation.toOption.isSome &&
      Sample.announcement.readMaxAge.toOption.isSome) = true := by decide +kernel
  obtain ⟨⟨hpath, -⟩, hlists, -⟩ := not_refused_for_structure Sample.announcement 0 hc
  refine ⟨hc, ?_, ?_, ?_⟩
  · cases hr : ofContext Sample.announcement 0 Sample.faulty with
    | ok r =>
      rw [hr] at hrefused
      cases hrefused
    | error x =>
      rw [hr] at hpath
      exact ⟨x, rfl, fun reason hx => hpath reason (hx ▸ rfl)⟩
  · obtain ⟨c, hcp, hd⟩ := exists_ok_of_toOption_map hplace
    obtain ⟨d, hdp, hn⟩ := exists_ok_of_toOption_map hd
    have hreach : Sample.faulty.Reaches c := .follow .start hcp
    obtain ⟨n, hcount, hitems⟩ := hlists c hreach "serviceList" "service" (by decide) (by decide) d hdp
    rw [hcount] at hn
    obtain rfl : n = 2 := Option.some.inj hn
    obtain ⟨x, hx⟩ := hitems 2 (by decide) (by decide)
    exact ⟨c, d, x, hreach, hdp, hcount, hx⟩
  · have hc' : ∀ e ∈ (DocumentContext.ofRoot Sample.faultyRoot .empty).children, e.Countable := hc
    obtain ⟨-, -, hunbound, -⟩ := not_refused_for_structure Sample.announcement 0 hc'
    obtain ⟨hlocation, hmaxAge⟩ := Bool.and_eq_true_iff.mp hannounced
    obtain ⟨location, hl⟩ := Option.isSome_iff_exists.mp hlocation
    obtain ⟨duration, hm⟩ := Option.isSome_iff_exists.mp hmaxAge
    exact hunbound rfl location duration (eq_ok_of_toOption hl) (eq_ok_of_toOption hm)

end RootDevice
end DeviceDescription
