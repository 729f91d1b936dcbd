import DeviceDescription.DocumentContext
import DeviceDescription.Proofs.Traversal

/-!
# Paths are followed step by step

A path that goes on is followed from the place that its beginning designates; what is not found is reported for the
whole path. In particular the last step of a path is taken from the place of its parent, and counted there.
-/
namespace DeviceDescription

open Traversal

/-- What designates nothing is the given path. Other faults are those of one step. -/
def PathError.forPath (path : Text) : PathError → PathError
  | .notFound _ => .notFound path
  | e => e

theorem PathStep.eq_of_read_error {raw : Text} {e : PathError} (h : read raw = .error e) :
    e = .invalidStep (Text.trim raw) := by
  rw [read] at h
  split at h
  · cases h
  · exact (Except.error.inj h).symm

namespace DocumentContext

variable {c d : DocumentContext} {s : PathStep}

theorem namespaceOf_eq_error_iff {e : PathError} :
    c.namespaceOf s = .error e ↔ ∃ q, s.qualifier = some q ∧ c.namespaces.uri? q = none ∧ e = .unboundQualifier q := by
  rw [namespaceOf]
  cases s.qualifier with
  | none => simp
  | some q =>
    cases hq : c.namespaces.uri? q with
    | none => simp [hq, eq_comm]
    | some uri => simp [hq]

private theorem matching_eq_error {e : PathError} (h : c.matching s = .error e) : c.namespaceOf s = .error e := by
  rw [matching] at h
  cases hn : c.namespaceOf s with
  | error x =>
    rw [hn] at h
    exact congrArg Except.error (Except.error.inj h)
  | ok uri =>
    rw [hn] at h
    cases h

theorem follow_append (path : Text) (c : DocumentContext) (steps rest : List Text) :
    c.follow path (steps ++ rest) = c.follow path steps >>= fun d => d.follow path rest := by
  induction steps generalizing c with
  | nil => rfl
  | cons raw steps ih =>
    rw [List.cons_append, follow, follow]
    cases PathStep.read raw with
    | error e => rfl
    | ok step =>
      rw [ok_bind, ok_bind]
      cases c.matching step with
      | error e => rfl
      | ok es =>
        rw [ok_bind, ok_bind]
        cases es[step.index]? with
        | none => rfl
        | some e => exact ih (c.moveTo e)

/-- The path that is followed shows in faults alone. -/
theorem mapError_follow (path path' : Text) (c : DocumentContext) (steps : List Text) :
    (c.follow path' steps).mapError (PathError.forPath path) = c.follow path steps := by
  induction steps generalizing c with
  | nil => rfl
  | cons raw steps ih =>
    rw [follow, follow]
    cases hread : PathStep.read raw with
    | error e =>
      obtain rfl := PathStep.eq_of_read_error hread
      rfl
    | ok step =>
      rw [ok_bind, ok_bind]
      cases hmatching : c.matching step with
      | error e =>
        obtain ⟨q, -, -, rfl⟩ := namespaceOf_eq_error_iff.mp (matching_eq_error hmatching)
        rfl
      | ok es =>
        rw [ok_bind, ok_bind]
        cases es[step.index]? with
        | none => rfl
        | some e => exact ih (c.moveTo e)

theorem mapError_pointer (path path' : Text) (c : DocumentContext) :
    (c.pointer path').mapError (PathError.forPath path) = c.follow path (path'.splitOn '/') :=
  mapError_follow path path' c _

/-- A path goes on from where its beginning leads. -/
theorem pointer_append (c : DocumentContext) (p q : Text) :
    c.pointer (p ++ '/' :: q) =
      (c.pointer p >>= fun d => d.pointer q).mapError (PathError.forPath (p ++ '/' :: q)) := by
  rw [pointer, List.splitOn_append_cons_self, follow_append, ← mapError_pointer _ p]
  cases c.pointer p with
  | error e => rfl
  | ok d => exact (mapError_pointer _ q d).symm

/-- Qualifiers mean the same at every place. -/
theorem namespaces_of_follow {path : Text} {steps : List Text} (h : c.follow path steps = .ok d) :
    d.namespaces = c.namespaces := by
  induction steps generalizing c with
  | nil => rw [Except.ok.inj h]
  | cons raw steps ih =>
    rw [follow] at h
    obtain ⟨step, -, h⟩ := bind_eq_ok h
    obtain ⟨es, -, h⟩ := bind_eq_ok h
    split at h
    · have hns := ih h
      exact hns
    · cases h

def joined (parent : Option Text) (last : Text) : Text := parent.elim last (· ++ '/' :: last)

def parentPlace (c : DocumentContext) : Option Text → Except PathError DocumentContext
  | none => .ok c
  | some parent => c.pointer parent

theorem exists_eq_joined (path : Text) : ∃ parent last, path = joined parent last ∧ '/' ∉ last := by
  by_cases h : '/' ∈ path
  · obtain ⟨last, parent, hsplit, hlast⟩ := List.eq_append_cons_of_mem (List.mem_reverse.mpr h)
    refine ⟨some parent.reverse, last.reverse, ?_, by rwa [List.mem_reverse]⟩
    rw [← path.reverse_reverse, hsplit]
    simp [joined]
  · exact ⟨none, path, rfl, h⟩

theorem namespaceOf_eq_of_parentPlace {parent : Option Text} (h : c.parentPlace parent = .ok d) :
    d.namespaceOf s = c.namespaceOf s := by
  have hns : d.namespaces = c.namespaces := by
    cases parent with
    | none => rw [Except.ok.inj h]
    | some p => exact namespaces_of_follow h
  rw [namespaceOf, namespaceOf, hns]

theorem pointer_joined (c : DocumentContext) (parent : Option Text) (last : Text) :
    c.pointer (joined parent last) =
      (c.parentPlace parent >>= fun d => d.pointer last).mapError (PathError.forPath (joined parent last)) := by
  cases parent with
  | none => exact (mapError_pointer last last c).symm
  | some p => exact pointer_append c p last

theorem count_joined (c : DocumentContext) (parent : Option Text) {last : Text} (hlast : '/' ∉ last) :
    c.count (joined parent last) = c.parentPlace parent >>= fun d => d.countStep last := by
  cases parent with
  | none =>
    rw [count, joined, Option.elim_none, Text.cutLast_eq_none_iff.mpr hlast]
    rfl
  | some p =>
    rw [count, joined, Option.elim_some, Text.cutLast_append p hlast]
    rfl

end DocumentContext
end DeviceDescription
