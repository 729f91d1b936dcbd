import DeviceDescription.Proofs.FieldPolicies

/-!
# Tables stop at the first violation

A table makes the assignments of its fields in order, and stops at the first field that is a violation: the target has
then received what the fields before it yield. What a field yields has nothing to do with the target.
-/
namespace DeviceDescription

section Runs
variable [InternationalNames] {α β : Type} {c : DocumentContext} {base : Option Url} {f : Field α}
  {table before rest : List (Field α)} {target : α} {e : DescriptionError}

def Field.assignment? (c : DocumentContext) (base : Option Url) (f : Field α) : Option (α → α) :=
  match f.extract c base with
  | .value v => some (f.assign v)
  | _ => none

/-- The assignments of the fields that yield values, in the order of the table. -/
def assignAll (c : DocumentContext) (base : Option Url) (table : List (Field α)) (target : α) : α :=
  (table.filterMap (Field.assignment? c base)).foldl (fun x assign => assign x) target

def Passes (c : DocumentContext) (base : Option Url) (table : List (Field α)) : Prop :=
  ∀ f ∈ table, ∀ e, f.extract c base ≠ .violation e

/-- A table is gone on with from where another one has ended, unless that one was stopped. -/
def Populated.andThen (p : Populated α) (next : α → Populated α) : Populated α :=
  match p.violation with
  | none => next p.target
  | some _ => p

theorem passes_cons_iff :
    Passes c base (f :: table) ↔ (∀ e, f.extract c base ≠ .violation e) ∧ Passes c base table := List.forall_mem_cons

theorem passes_or_stops (c : DocumentContext) (base : Option Url) (table : List (Field α)) :
    Passes c base table ∨ ∃ before f after e, table = before ++ f :: after ∧ Passes c base before ∧
      f.extract c base = .violation e := by
  induction table with
  | nil => exact .inl fun f hf => absurd hf List.not_mem_nil
  | cons f table ih =>
    by_cases hf : ∃ e, f.extract c base = .violation e
    · obtain ⟨e, he⟩ := hf
      exact .inr ⟨[], f, table, e, rfl, fun g hg => absurd hg List.not_mem_nil, he⟩
    · have hpasses : ∀ e, f.extract c base ≠ .violation e := not_exists.mp hf
      obtain htable | ⟨before, g, after, e, rfl, hbefore, hg⟩ := ih
      · exact .inl (passes_cons_iff.mpr ⟨hpasses, htable⟩)
      · exact .inr ⟨f :: before, g, after, e, rfl, passes_cons_iff.mpr ⟨hpasses, hbefore⟩, hg⟩

private theorem populate_cons_of_violation (h : f.extract c base = .violation e) (rest : List (Field α)) (target : α) :
    populate c base (f :: rest) target = ⟨target, some e⟩ := by
  rw [populate, h]

/-- A field that is no violation is assigned or passed over. -/
theorem populate_cons_of_passes (h : ∀ e, f.extract c base ≠ .violation e) (rest : List (Field α)) (target : α) :
    populate c base (f :: rest) target = populate c base rest (assignAll c base [f] target) := by
  rw [populate]
  cases hf : f.extract c base with
  | value v => simp [assignAll, Field.assignment?, hf]
  | absent => simp [assignAll, Field.assignment?, hf]
  | violation e => exact absurd hf (h e)

theorem assignAll_append (c : DocumentContext) (base : Option Url) (before rest : List (Field α)) (target : α) :
    assignAll c base (before ++ rest) target = assignAll c base rest (assignAll c base before target) := by
  rw [assignAll, List.filterMap_append, List.foldl_append, ← assignAll, ← assignAll]

theorem populate_append_of_passes (h : Passes c base before) (rest : List (Field α)) (target : α) :
    populate c base (before ++ rest) target = populate c base rest (assignAll c base before target) := by
  induction before generalizing target with
  | nil => rfl
  | cons f before ih =>
    obtain ⟨hf, hbefore⟩ := passes_cons_iff.mp h
    rw [List.cons_append, populate_cons_of_passes hf, ih hbefore, ← assignAll_append, List.singleton_append]

private theorem populate_of_passes (h : Passes c base table) (target : α) :
    populate c base table target = ⟨assignAll c base table target, none⟩ := by
  have hnone := populate_append_of_passes h [] target
  rwa [List.append_nil] at hnone

private theorem populate_of_stops (hbefore : Passes c base before) (hf : f.extract c base = .violation e)
    (after : List (Field α)) (target : α) :
    populate c base (before ++ f :: after) target = ⟨assignAll c base before target, some e⟩ := by
  rw [populate_append_of_passes hbefore, populate_cons_of_violation hf]

theorem populate_append (c : DocumentContext) (base : Option Url) (table rest : List (Field α)) (target : α) :
    populate c base (table ++ rest) target = (populate c base table target).andThen (populate c base rest) := by
  obtain h | ⟨before, f, after, e, rfl, hbefore, hf⟩ := passes_or_stops c base table
  · rw [populate_append_of_passes h, populate_of_passes h, Populated.andThen]
  · rw [List.append_assoc, List.cons_append, populate_of_stops hbefore hf, populate_of_stops hbefore hf,
      Populated.andThen]

/-- Two fields that may assign to different targets are looked for and read in the same way. -/
structure Field.ReadsAlike (f : Field α) (g : Field β) : Prop where
  name : f.name = g.name
  path : f.path = g.path
  policy : f.policy = g.policy
  kind : f.kind = g.kind

theorem Field.ReadsAlike.extract_eq {g : Field β} (h : f.ReadsAlike g) (c : DocumentContext) (base : Option Url) :
    f.extract c base = g.extract c base := by
  rw [extract, extract, read, read, h.name, h.path, h.policy, h.kind]

private theorem violation_eq_of_readsAlike {table' : List (Field β)} (h : List.Forall₂ Field.ReadsAlike table table')
    (target : α) (target' : β) :
    (populate c base table target).violation = (populate c base table' target').violation := by
  induction h generalizing target target' with
  | nil => rfl
  | @cons f g table table' hfg _ ih =>
    rw [populate, populate, hfg.extract_eq]
    cases g.extract c base with
    | value v => exact ih _ _
    | absent => exact ih _ _
    | violation e => rfl

/-- A table comes to its end exactly if none of its fields is a violation. To the end, or up to the first violation, the
target receives the assignments of the fields that yield values, in order, and nothing else. Two tables one behind the
other are one table, and what stops a table depends on no target and no assignment. -/
theorem populate_stops_at_first (c : DocumentContext) (base : Option Url) (table : List (Field α)) (target : α) :
    ((populate c base table target).violation = none ↔ Passes c base table) ∧
    (Passes c base table → (populate c base table target).target = assignAll c base table target) ∧
    (∀ e, (populate c base table target).violation = some e → ∃ before f after, table = before ++ f :: after ∧
      Passes c base before ∧ f.extract c base = .violation e ∧
      (populate c base table target).target = assignAll c base before target) ∧
    (∀ rest, populate c base (table ++ rest) target = (populate c base table target).andThen (populate c base rest)) ∧
    ∀ (β : Type) (table' : List (Field β)) (target' : β), List.Forall₂ Field.ReadsAlike table table' →
      (populate c base table target).violation = (populate c base table' target').violation := by
  refine ⟨?_, fun h => by rw [populate_of_passes h], ?_, fun rest => populate_append c base table rest target,
    fun β table' target' h => violation_eq_of_readsAlike h target target'⟩
  · obtain h | ⟨before, f, after, e, rfl, hbefore, hf⟩ := passes_or_stops c base table
    · rw [populate_of_passes h]
      exact ⟨fun _ => h, fun _ => rfl⟩
    · rw [populate_of_stops hbefore hf]
      refine ⟨nofun, fun h => ?_⟩
      exact absurd hf (h f (List.mem_append_right _ List.mem_cons_self) e)
  · intro e he
    obtain h | ⟨before, f, after, x, rfl, hbefore, hf⟩ := passes_or_stops c base table
    · rw [populate_of_passes h] at he
      cases he
    · rw [populate_of_stops hbefore hf] at he ⊢
      cases he
      exact ⟨before, f, after, rfl, hbefore, hf, rfl⟩

end Runs

namespace Sample

def record (v : FieldValue) (seen : List FieldValue) : List FieldValue := seen ++ [v]

/-- There is no height. The link is a violation, so the last label is not read. -/
def shelfTable : List (Field (List FieldValue)) :=
  [.optional "label" .text record, .optional "height" .integer record, .mandatory "label" .integer record,
    .mandatory "link" .url record, .mandatory "label" .text record]

/-- A table of the same fields that counts their values. -/
def shelfCounts : List (Field Nat) :=
  shelfTable.map fun f => ⟨f.name, f.path, f.policy, f.kind, fun _ n => n + 1⟩

private theorem readsAlike_shelfCounts : List.Forall₂ Field.ReadsAlike shelfTable shelfCounts := by
  rw [shelfCounts, List.forall₂_map_right_iff, List.forall₂_same]
  exact fun f _ => ⟨rfl, rfl, rfl, rfl⟩

end Sample

open Sample InternationalNames in
theorem populate_stops_at_first_shelf :
    (populate shelf none shelfTable []).violation = some (.invalidUrl "x/y") ∧
    (populate shelf none shelfTable []).target = [.text "4294967296", .integer 4294967296] ∧
    (∃ before f after, shelfTable = before ++ f :: after ∧ Passes shelf none before ∧
      f.extract shelf none = .violation (.invalidUrl "x/y") ∧
      (populate shelf none shelfTable []).target = assignAll shelf none before []) ∧
    Passes shelf none (shelfTable.take 3) ∧
    (populate shelf none (shelfTable.take 3) []).target = assignAll shelf none (shelfTable.take 3) [] ∧
    List.Forall₂ Field.ReadsAlike shelfTable shelfCounts ∧
    (populate shelf none shelfCounts 0).violation = some (.invalidUrl "x/y") := by
  have hstopped : (populate shelf none shelfTable []).violation = some (.invalidUrl "x/y") := by decide +kernel
  have hseen : (populate shelf none shelfTable []).target = [.text "4294967296", .integer 4294967296] := by
    decide +kernel
  have hended : (populate shelf none (shelfTable.take 3) []).violation = none := by decide +kernel
  obtain ⟨-, -, hfirst, -, hcounts⟩ := populate_stops_at_first shelf none shelfTable []
  obtain ⟨hpasses, htarget, -⟩ := populate_stops_at_first shelf none (shelfTable.take 3) []
  refine ⟨hstopped, hseen, hfirst _ hstopped, hpasses.mp hended, htarget (hpasses.mp hended),
    readsAlike_shelfCounts, ?_⟩
  rw [← hcounts Nat shelfCounts 0 readsAlike_shelfCounts, hstopped]

end DeviceDescription
