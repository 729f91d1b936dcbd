import DeviceDescription.DescriptionError
import DeviceDescription.Proofs.Traversal

/-!
# Lists of checks and the first fault in them

A reading reports a list of checks if it succeeds when all of them pass and else fails as the first one that
does not pass. What reads one thing after another reports the checks of both.
-/
namespace DeviceDescription

/-- A check passes, or it names a fault. -/
abbrev Check := Except DescriptionError Unit

namespace Check

open Traversal

variable {α β : Type}

def present (fault : DescriptionError) : Option α → Check
  | some _ => .ok ()
  | none => .error fault

def firstFault : List Check → Check
  | [] => .ok ()
  | k :: rest => k >>= fun _ => firstFault rest

@[simp] theorem firstFault_append (ks ls : List Check) :
    firstFault (ks ++ ls) = (firstFault ks >>= fun _ => firstFault ls) := by
  induction ks with
  | nil => rfl
  | cons k ks ih =>
    rw [List.cons_append, firstFault, firstFault, bind_assoc]
    congr 1
    funext _
    exact ih

theorem firstFault_eq_ok_iff {ks : List Check} : firstFault ks = .ok () ↔ ∀ k ∈ ks, k = .ok () := by
  induction ks with
  | nil => simp [firstFault]
  | cons k ks ih =>
    cases k with
    | error x => simp [firstFault]
    | ok u => simp [firstFault, ih]

/-- A fault is reported exactly if every check before it passes. -/
theorem firstFault_eq_error_iff {ks : List Check} {x : DescriptionError} :
    firstFault ks = .error x ↔ ∃ before after, ks = before ++ .error x :: after ∧ ∀ k ∈ before, k = .ok () := by
  constructor
  · intro h
    induction ks with
    | nil => cases h
    | cons k ks ih =>
      cases k with
      | error y =>
        cases h
        exact ⟨[], ks, rfl, by simp⟩
      | ok u =>
        obtain ⟨before, after, rfl, hb⟩ := ih h
        refine ⟨.ok u :: before, after, rfl, ?_⟩
        intro k hk
        rcases List.mem_cons.mp hk with rfl | hk
        · rfl
        · exact hb k hk
  · rintro ⟨before, after, rfl, hb⟩
    rw [firstFault_append, firstFault_eq_ok_iff.mpr hb]
    rfl

def Reports (x : Except DescriptionError α) (ks : List Check) : Prop := (x.map fun _ => ()) = firstFault ks

namespace Reports

variable {x : Except DescriptionError α} {f : α → Except DescriptionError β} {ks ls : List Check}

theorem ok (a : α) : Reports (.ok a) [] := rfl

theorem single (x : Except DescriptionError α) : Reports x [x.map fun _ => ()] := by
  cases x <;> rfl

theorem bind (hx : Reports x ks) (hf : ∀ a, x = .ok a → Reports (f a) ls) : Reports (x >>= f) (ks ++ ls) := by
  rw [Reports, firstFault_append, ← hx]
  cases x with
  | error e => rfl
  | ok a => exact hf a rfl

theorem bind_ok (hx : Reports x ks) (f : α → β) : Reports (x >>= fun a => .ok (f a)) ks := by
  have h := bind hx fun a _ => ok (f a)
  rwa [List.append_nil] at h

theorem cons {k : Check} (hx : (x.map fun _ => ()) = k) (hf : ∀ a, x = .ok a → Reports (f a) ls) :
    Reports (x >>= f) (k :: ls) := by
  have hk : Reports x [k] := hx ▸ single x
  exact bind hk hf

theorem mapM {f : α → Except DescriptionError β} {g : α → List Check} {xs : List α}
    (h : ∀ a ∈ xs, Reports (f a) (g a)) : Reports (xs.mapM f) (xs.flatMap g) := by
  induction xs with
  | nil => exact ok _
  | cons a xs ih =>
    have hxs := ih fun b hb => h b (List.mem_cons_of_mem _ hb)
    rw [List.mapM_cons, List.flatMap_cons]
    exact bind (h a List.mem_cons_self) fun b _ => bind_ok hxs fun bs => b :: bs

theorem isOk_iff (h : Reports x ks) : (∃ a, x = .ok a) ↔ ∀ k ∈ ks, k = .ok () := by
  rw [← firstFault_eq_ok_iff, ← h]
  cases x with
  | error e => simp [Except.map]
  | ok a => simp [Except.map]

theorem eq_error_iff (h : Reports x ks) {e : DescriptionError} :
    x = .error e ↔ ∃ before after, ks = before ++ .error e :: after ∧ ∀ k ∈ before, k = .ok () := by
  rw [← firstFault_eq_error_iff, ← h]
  cases x with
  | error y => simp [Except.map]
  | ok a => simp [Except.map]

end Reports
end Check
end DeviceDescription
