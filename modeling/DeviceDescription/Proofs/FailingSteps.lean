import DeviceDescription.Proofs.CountedChildren

/-!
# The first step that fails

A path leads from place to place, one step after the other. It fails at the first step that leads nowhere, with the
fault of that step: the steps behind it have no say. So a path that goes on is followed from where its beginning leads.
-/
namespace DeviceDescription

open Traversal

namespace DocumentContext

variable {c d : DocumentContext} {raw path : Text} {steps : List Text} {e : PathError}

/-- What a step asks for: the children of a name, in a namespace or in none. -/
structure Asks (c : DocumentContext) (raw : Text) (s : PathStep) (uri : Option Text) : Prop where
  step : PathStep.read raw = .ok s
  uri : c.namespaceOf s = .ok uri

inductive StepsTo (c : DocumentContext) (raw : Text) : DocumentContext → Prop
  | child {s : PathStep} {uri : Option Text} {x : XmlElement} (h : c.Asks raw s uri)
    (hx : (c.children.filter (XmlElement.bears s.name uri))[s.index]? = some x) : StepsTo c raw (c.moveTo x)

/-- A step asks for nothing if it is malformed, or else if its qualifier stands for nothing. -/
inductive AsksNothing (c : DocumentContext) (raw : Text) : PathError → Prop
  | malformed (h : ∀ s, PathStep.read raw ≠ .ok s) : AsksNothing c raw (.invalidStep (Text.trim raw))
  | unbound {s : PathStep} {q : Text} (h : PathStep.read raw = .ok s) (hq : s.qualifier = some q)
    (hns : c.namespaces.uri? q = none) : AsksNothing c raw (.unboundQualifier q)

/-- A step of a path leads nowhere if it asks for nothing, or else if there are too few of the children it asks for. -/
inductive StepFails (path : Text) (c : DocumentContext) (raw : Text) : PathError → Prop
  | asksNothing {e : PathError} (h : c.AsksNothing raw e) : StepFails path c raw e
  | missing {s : PathStep} {uri : Option Text} (h : c.Asks raw s uri)
    (hfew : c.children.countP (XmlElement.bears s.name uri) ≤ s.index) : StepFails path c raw (.notFound path)

theorem asks_or_asksNothing (c : DocumentContext) (raw : Text) :
    (∃ s uri, c.Asks raw s uri) ∨ ∃ e, c.AsksNothing raw e := by
  cases hread : PathStep.read raw with
  | error e => exact .inr ⟨_, .malformed fun s hs => by cases hread.symm.trans hs⟩
  | ok s =>
    cases huri : c.namespaceOf s with
    | error e =>
      obtain ⟨q, hq, hns, -⟩ := namespaceOf_eq_error_iff.mp huri
      exact .inr ⟨_, .unbound hread hq hns⟩
    | ok uri => exact .inl ⟨s, uri, hread, huri⟩

private theorem stepsTo_or_fails (path : Text) (c : DocumentContext) (raw : Text) :
    (∃ d, c.StepsTo raw d) ∨ ∃ e, StepFails path c raw e := by
  obtain ⟨s, uri, h⟩ | ⟨e, h⟩ := asks_or_asksNothing c raw
  · cases hx : (c.children.filter (XmlElement.bears s.name uri))[s.index]? with
    | some x => exact .inl ⟨_, .child h hx⟩
    | none =>
      rw [List.getElem?_eq_none_iff, ← List.countP_eq_length_filter] at hx
      exact .inr ⟨_, .missing h hx⟩
  · exact .inr ⟨e, .asksNothing h⟩

theorem Asks.matching {s : PathStep} {uri : Option Text} (h : c.Asks raw s uri) :
    c.matching s = .ok (c.children.filter (XmlElement.bears s.name uri)) := by
  rw [DocumentContext.matching, h.uri]
  rfl

/-- The children are looked at only if the step is well-formed. -/
theorem AsksNothing.read_or_matching (h : c.AsksNothing raw e) :
    PathStep.read raw = .error e ∨ ∃ s, PathStep.read raw = .ok s ∧ c.matching s = .error e := by
  cases h with
  | malformed h =>
    cases hread : PathStep.read raw with
    | error x => exact .inl (congrArg Except.error (PathStep.eq_of_read_error hread))
    | ok s => exact absurd hread (h s)
  | @unbound s q hread hq hns =>
    refine .inr ⟨s, hread, ?_⟩
    rw [DocumentContext.matching, namespaceOf_eq_error_iff.mpr ⟨q, hq, hns, rfl⟩]
    rfl

theorem AsksNothing.countStep_eq (h : c.AsksNothing raw e) : c.countStep raw = .error e := by
  obtain hread | ⟨s, hread, hmatching⟩ := h.read_or_matching
  · rw [countStep, hread, error_bind]
  · rw [countStep, hread, ok_bind, hmatching]
    rfl

theorem Asks.countStep_eq {s : PathStep} {uri : Option Text} (h : c.Asks raw s uri) :
    c.countStep raw = .ok (c.children.countP (XmlElement.bears s.name uri)) := by
  rw [countStep, h.step, ok_bind, h.matching, List.countP_eq_length_filter]
  rfl

theorem StepsTo.follow_cons (h : c.StepsTo raw d) (path : Text) (rest : List Text) :
    c.follow path (raw :: rest) = d.follow path rest := by
  cases h with
  | child h hx => rw [follow, h.step, ok_bind, h.matching, ok_bind, hx]

/-- The steps behind a step that fails are not looked at. -/
theorem StepFails.follow_cons (h : StepFails path c raw e) (rest : List Text) :
    c.follow path (raw :: rest) = .error e := by
  rw [follow]
  cases h with
  | asksNothing h =>
    obtain hread | ⟨s, hread, hmatching⟩ := h.read_or_matching
    · rw [hread, error_bind]
    · rw [hread, ok_bind, hmatching, error_bind]
  | @missing s uri h hfew =>
    have hnone : (c.children.filter (XmlElement.bears s.name uri))[s.index]? = none := by
      rwa [List.getElem?_eq_none_iff, ← List.countP_eq_length_filter]
    rw [h.step, ok_bind, h.matching, ok_bind, hnone]

inductive Leads : DocumentContext → List Text → DocumentContext → Prop
  | nil (c : DocumentContext) : Leads c [] c
  | cons {c m d : DocumentContext} {raw : Text} {rest : List Text} (h : c.StepsTo raw m) (hrest : Leads m rest d) :
    Leads c (raw :: rest) d

def FirstFault (path : Text) (c : DocumentContext) (steps : List Text) (e : PathError) : Prop :=
  ∃ before raw after d, steps = before ++ raw :: after ∧ c.Leads before d ∧ StepFails path d raw e

theorem leads_or_firstFault (path : Text) (c : DocumentContext) (steps : List Text) :
    (∃ d, c.Leads steps d) ∨ ∃ e, FirstFault path c steps e := by
  induction steps generalizing c with
  | nil => exact .inl ⟨c, .nil c⟩
  | cons raw rest ih =>
    obtain ⟨m, hm⟩ | ⟨e, he⟩ := stepsTo_or_fails path c raw
    · obtain ⟨d, hd⟩ | ⟨e, before, x, after, d, rfl, hd, he⟩ := ih m
      · exact .inl ⟨d, .cons hm hd⟩
      · exact .inr ⟨e, raw :: before, x, after, d, rfl, .cons hm hd, he⟩
    · exact .inr ⟨e, [], raw, rest, c, rfl, .nil c, he⟩

theorem Leads.follow_append (h : c.Leads steps d) (path : Text) (rest : List Text) :
    c.follow path (steps ++ rest) = d.follow path rest := by
  induction h with
  | nil => rfl
  | cons hstep _ ih =>
    rw [List.cons_append, hstep.follow_cons]
    exact ih

theorem Leads.follow_eq (h : c.Leads steps d) (path : Text) : c.follow path steps = .ok d := by
  have happend := h.follow_append path []
  rwa [List.append_nil] at happend

theorem FirstFault.follow_eq (h : FirstFault path c steps e) : c.follow path steps = .error e := by
  obtain ⟨before, raw, after, d, rfl, hbefore, hfails⟩ := h
  rw [hbefore.follow_append, hfails.follow_cons]

theorem follow_eq_ok_iff : c.follow path steps = .ok d ↔ c.Leads steps d :=
  eq_ok_iff_of_total (fun _ h => h.follow_eq path) <|
    (leads_or_firstFault path c steps).imp_right fun ⟨e, h⟩ => ⟨e, h.follow_eq⟩

theorem follow_eq_error_iff : c.follow path steps = .error e ↔ FirstFault path c steps e :=
  eq_error_iff_of_total (fun _ h => h.follow_eq) <|
    (leads_or_firstFault path c steps).imp_left fun ⟨d, h⟩ => ⟨d, h.follow_eq path⟩

section Append
variable {p q : Text}

theorem pointer_append_eq_ok_iff :
    c.pointer (p ++ '/' :: q) = .ok d ↔ ∃ m, c.pointer p = .ok m ∧ m.pointer q = .ok d := by
  rw [pointer_append, mapError_eq_ok_iff, bind_eq_ok_iff]

theorem pointer_append_eq_error_iff :
    c.pointer (p ++ '/' :: q) = .error e ↔ FirstFault (p ++ '/' :: q) c (p.splitOn '/' ++ q.splitOn '/') e := by
  rw [pointer, List.splitOn_append_cons_self, follow_eq_error_iff]

theorem pointer_append_of_error (h : c.pointer p = .error e) (q : Text) :
    c.pointer (p ++ '/' :: q) = .error (e.forPath (p ++ '/' :: q)) := by
  rw [pointer_append, h, error_bind]
  rfl

theorem value_eq_ok_iff {t : Text} : c.value path = .ok t ↔ ∃ d, c.pointer path = .ok d ∧ d.ownText = t := by
  rw [value]
  cases c.pointer path <;> simp [Except.map]

theorem value_eq_error_iff : c.value path = .error e ↔ c.pointer path = .error e := by
  rw [value]
  cases c.pointer path <;> simp [Except.map]

theorem value_append_eq_ok_iff {t : Text} :
    c.value (p ++ '/' :: q) = .ok t ↔ ∃ m, c.pointer p = .ok m ∧ m.value q = .ok t := by
  simp only [value_eq_ok_iff, pointer_append_eq_ok_iff]
  constructor
  · rintro ⟨d, ⟨m, hp, hq⟩, ht⟩
    exact ⟨m, hp, d, hq, ht⟩
  · rintro ⟨m, hp, d, hq, ht⟩
    exact ⟨d, ⟨m, hp, hq⟩, ht⟩

end Append

/-- A count fails at its parent, for the path of the parent, or where the last step asks for nothing. -/
inductive CountFails (c : DocumentContext) (parent last : Text) : PathError → Prop
  | parent {e : PathError} (h : FirstFault parent c (parent.splitOn '/') e) : CountFails c parent last e
  | last {d : DocumentContext} {e : PathError} (h : c.Leads (parent.splitOn '/') d) (hlast : d.AsksNothing last e) :
    CountFails c parent last e

section LastStep
variable {parent last : Text} (hlast : '/' ∉ last)
include hlast

theorem Leads.count_eq (h : c.Leads (parent.splitOn '/') d) : c.count (parent ++ '/' :: last) = d.countStep last := by
  have hcount : c.count (parent ++ '/' :: last) = c.pointer parent >>= fun d => d.countStep last :=
    count_joined c (some parent) hlast
  rw [hcount, pointer, h.follow_eq, ok_bind]

theorem CountFails.count_eq (h : c.CountFails parent last e) : c.count (parent ++ '/' :: last) = .error e := by
  have hcount : c.count (parent ++ '/' :: last) = c.pointer parent >>= fun d => d.countStep last :=
    count_joined c (some parent) hlast
  cases h with
  | parent h => rw [hcount, pointer, h.follow_eq, error_bind]
  | last h hnothing => rw [h.count_eq hlast, hnothing.countStep_eq]

private theorem counts_or_countFails (c : DocumentContext) (parent : Text) :
    (∃ n, c.count (parent ++ '/' :: last) = .ok n) ∨ ∃ e, c.CountFails parent last e := by
  obtain ⟨d, h⟩ | ⟨e, h⟩ := leads_or_firstFault parent c (parent.splitOn '/')
  · obtain ⟨s, uri, hasks⟩ | ⟨e, hnothing⟩ := asks_or_asksNothing d last
    · exact .inl ⟨_, (h.count_eq hlast).trans hasks.countStep_eq⟩
    · exact .inr ⟨e, .last h hnothing⟩
  · exact .inr ⟨e, .parent h⟩

theorem count_eq_error_iff_countFails : c.count (parent ++ '/' :: last) = .error e ↔ c.CountFails parent last e :=
  eq_error_iff_of_total (fun _ h => h.count_eq hlast) (counts_or_countFails hlast c parent)

end LastStep

private theorem exists_last_step (p q : Text) : ∃ parent last, p ++ '/' :: q = parent ++ '/' :: last ∧ '/' ∉ last := by
  obtain ⟨parent, last, rfl, hlast⟩ := exists_eq_joined q
  cases parent with
  | none => exact ⟨p, last, rfl, hlast⟩
  | some r => exact ⟨p ++ '/' :: r, last, by simp [joined], hlast⟩

private theorem forPath_forPath (path path' : Text) (e : PathError) :
    (e.forPath path').forPath path = e.forPath path := by
  cases e <;> rfl

/-- The paths in the faults apart, what is counted is counted from where the beginning leads. -/
theorem mapError_count_append (path : Text) (c : DocumentContext) (p q : Text) :
    (c.count (p ++ '/' :: q)).mapError (PathError.forPath path) =
      (c.pointer p >>= fun m => m.count q).mapError (PathError.forPath path) := by
  obtain ⟨parent, last, rfl, hlast⟩ := exists_eq_joined q
  simp only [count_joined _ parent hlast]
  cases parent with
  | none => exact congrArg (Except.mapError _) (count_joined c (some p) hlast)
  | some r =>
    have hsplit : p ++ '/' :: joined (some r) last = joined (some (p ++ '/' :: r)) last := by simp [joined]
    rw [hsplit, count_joined c _ hlast, parentPlace, pointer_append]
    simp only [parentPlace]
    cases c.pointer p with
    | error e => exact congrArg Except.error (forPath_forPath path _ e)
    | ok m =>
      rw [ok_bind, ok_bind]
      cases m.pointer r with
      | error e => exact congrArg Except.error (forPath_forPath path _ e)
      | ok d => rfl

theorem count_append_eq_ok_iff {p q : Text} {n : Nat} :
    c.count (p ++ '/' :: q) = .ok n ↔ ∃ m, c.pointer p = .ok m ∧ m.count q = .ok n := by
  have hcount := mapError_count_append [] c p q
  rw [← mapError_eq_ok_iff, hcount, mapError_eq_ok_iff, bind_eq_ok_iff]

/-- A path that goes on leads on, is read and is counted from where its beginning leads. Otherwise it fails at its
first step that leads nowhere: a fault of the beginning stays the fault whatever follows, but for the path in it. -/
theorem composed_along_path (c : DocumentContext) (p q : Text) :
    ((∀ d, c.pointer (p ++ '/' :: q) = .ok d ↔ ∃ m, c.pointer p = .ok m ∧ m.pointer q = .ok d) ∧
      (∀ e, c.pointer (p ++ '/' :: q) = .error e ↔
        FirstFault (p ++ '/' :: q) c (p.splitOn '/' ++ q.splitOn '/') e) ∧
      ∀ e, c.pointer p = .error e → c.pointer (p ++ '/' :: q) = .error (e.forPath (p ++ '/' :: q))) ∧
    ((∀ t, c.value (p ++ '/' :: q) = .ok t ↔ ∃ m, c.pointer p = .ok m ∧ m.value q = .ok t) ∧
      ∀ e, c.value (p ++ '/' :: q) = .error e ↔
        FirstFault (p ++ '/' :: q) c (p.splitOn '/' ++ q.splitOn '/') e) ∧
    (∀ n, c.count (p ++ '/' :: q) = .ok n ↔ ∃ m, c.pointer p = .ok m ∧ m.count q = .ok n) ∧
    (∀ path, (c.count (p ++ '/' :: q)).mapError (PathError.forPath path) =
      (c.pointer p >>= fun m => m.count q).mapError (PathError.forPath path)) ∧
    ∃ parent last, p ++ '/' :: q = parent ++ '/' :: last ∧ '/' ∉ last ∧
      ∀ e, c.count (p ++ '/' :: q) = .error e ↔ c.CountFails parent last e := by
  obtain ⟨parent, last, hsplit, hlast⟩ := exists_last_step p q
  refine ⟨⟨fun d => pointer_append_eq_ok_iff, fun e => pointer_append_eq_error_iff,
    fun e h => pointer_append_of_error h q⟩, ⟨fun t => value_append_eq_ok_iff, fun e => ?_⟩,
    fun n => count_append_eq_ok_iff, fun path => mapError_count_append path c p q, parent, last, hsplit, hlast,
    fun e => ?_⟩
  · rw [value_eq_error_iff, pointer_append_eq_error_iff]
  · rw [hsplit, count_eq_error_iff_countFails hlast]

/-- There is no third lamp: neither the qualifier behind it nor the bracket behind that is reported. -/
theorem composed_along_path_lamps :
    (∃ d, Sample.houseDocument.pointer ("upnp:house" ++ '/' :: " upnp:lamp[2] ") = .ok d) ∧
    Sample.houseDocument.count ("upnp:house" ++ '/' :: " upnp:lamp[2] ") = .ok 2 ∧
    Sample.houseDocument.pointer ("upnp:house/upnp:lamp[3]" ++ '/' :: "other:bulb/[") =
      .error (.notFound "upnp:house/upnp:lamp[3]/other:bulb/[") ∧
    Sample.houseDocument.pointer ("upnp:house/other:lamp" ++ '/' :: "[") = .error (.unboundQualifier "other") := by
  obtain ⟨⟨hlamp, -, -⟩, -, hcount, -, -⟩ := composed_along_path Sample.houseDocument "upnp:house" " upnp:lamp[2] "
  obtain ⟨⟨-, -, hmissing⟩, -⟩ := composed_along_path Sample.houseDocument "upnp:house/upnp:lamp[3]" "other:bulb/["
  obtain ⟨⟨-, -, hunbound⟩, -⟩ := composed_along_path Sample.houseDocument "upnp:house/other:lamp" "["
  have hhouse : Sample.houseDocument.pointer "upnp:house" = .ok (Sample.houseDocument.moveTo Sample.house) := rfl
  have htwo : (Sample.houseDocument.moveTo Sample.house).count " upnp:lamp[2] " = .ok 2 :=
    eq_ok_of_toOption (by decide +kernel)
  exact ⟨⟨_, (hlamp _).mpr ⟨_, hhouse, rfl⟩⟩, (hcount 2).mpr ⟨_, hhouse, htwo⟩, hmissing _ rfl, hunbound _ rfl⟩

end DocumentContext
end DeviceDescription
