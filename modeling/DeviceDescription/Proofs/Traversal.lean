import DeviceDescription.Text
import Mathlib.Data.List.Forall2

/-! # Traversals that stop at the first fault -/
namespace DeviceDescription.Traversal

variable {ε α β : Type}

@[simp] theorem ok_bind (a : α) (f : α → Except ε β) : (Except.ok a >>= f) = f a := rfl

@[simp] theorem error_bind (e : ε) (f : α → Except ε β) : (Except.error e >>= f) = .error e := rfl

theorem bind_eq_ok {x : Except ε α} {f : α → Except ε β} {b : β} (h : (x >>= f) = .ok b) :
    ∃ a, x = .ok a ∧ f a = .ok b := by
  cases x with
  | error e => simp at h
  | ok a => exact ⟨a, rfl, by simpa using h⟩

theorem bind_eq_ok_iff {x : Except ε α} {f : α → Except ε β} {b : β} :
    (x >>= f) = .ok b ↔ ∃ a, x = .ok a ∧ f a = .ok b := by
  refine ⟨bind_eq_ok, ?_⟩
  rintro ⟨a, rfl, hf⟩
  exact hf

@[simp] theorem mapError_eq_ok_iff {ε' : Type} {x : Except ε α} {f : ε → ε'} {a : α} :
    x.mapError f = .ok a ↔ x = .ok a := by
  cases x <;> simp [Except.mapError]

/-- Where each outcome is a described value or a fault, the description of the values is exact. -/
theorem eq_ok_iff_of_total {x : Except ε α} {p : α → Prop} (hp : ∀ a, p a → x = .ok a)
    (htotal : (∃ a, p a) ∨ ∃ e, x = .error e) {a : α} : x = .ok a ↔ p a := by
  refine ⟨?_, hp a⟩
  rintro rfl
  obtain ⟨b, hb⟩ | ⟨e, he⟩ := htotal
  · cases hp b hb
    exact hb
  · cases he

theorem eq_error_iff_of_total {x : Except ε α} {q : ε → Prop} (hq : ∀ e, q e → x = .error e)
    (htotal : (∃ a, x = .ok a) ∨ ∃ e, q e) {e : ε} : x = .error e ↔ q e := by
  refine ⟨?_, hq e⟩
  rintro rfl
  obtain ⟨a, ha⟩ | ⟨e', he'⟩ := htotal
  · cases ha
  · cases hq e' he'
    exact he'

theorem exists_of_map_eq_ok {x : Except ε α} {f : α → β} {b : β} (h : x.map f = .ok b) : ∃ a, x = .ok a ∧ f a = b := by
  cases x with
  | error e => cases h
  | ok a => exact ⟨a, rfl, Except.ok.inj h⟩

theorem eq_ok_of_toOption {x : Except ε α} {a : α} (h : x.toOption = some a) : x = .ok a := by
  cases x with
  | error e => cases h
  | ok b => exact congrArg Except.ok (Option.some.inj h)

theorem exists_ok_of_toOption_map {x : Except ε α} {f : α → β} {b : β} (h : x.toOption.map f = some b) :
    ∃ a, x = .ok a ∧ f a = b := by
  obtain ⟨a, ha, hf⟩ := Option.map_eq_some_iff.mp h
  exact ⟨a, eq_ok_of_toOption ha, hf⟩

theorem exists_ok_of_mapM {f : α → Except ε β} {xs : List α} {ys : List β} (h : xs.mapM f = .ok ys)
    {x : α} (hx : x ∈ xs) : ∃ y ∈ ys, f x = .ok y := by
  induction xs generalizing ys with
  | nil => cases hx
  | cons z zs ih =>
    rw [List.mapM_cons] at h
    obtain ⟨y, hy, h⟩ := bind_eq_ok h
    obtain ⟨rest, hrest, h⟩ := bind_eq_ok h
    cases h
    rcases List.mem_cons.mp hx with rfl | hx
    · exact ⟨y, List.mem_cons_self, hy⟩
    · obtain ⟨w, hw, hf⟩ := ih hrest hx
      exact ⟨w, List.mem_cons_of_mem _ hw, hf⟩

/-- A traversal that succeeds can be made without the faults. -/
theorem mapM_eq_some {f : α → Except ε β} {g : α → Option β} {xs : List α} {ys : List β}
    (hg : ∀ x ∈ xs, ∀ y, f x = .ok y → g x = some y) (h : xs.mapM f = .ok ys) : xs.mapM g = some ys := by
  induction xs generalizing ys with
  | nil =>
    cases h
    rfl
  | cons z zs ih =>
    rw [List.mapM_cons] at h
    obtain ⟨y, hy, h⟩ := bind_eq_ok h
    obtain ⟨rest, hrest, h⟩ := bind_eq_ok h
    cases h
    have hz := hg z List.mem_cons_self y hy
    have hzs := ih (fun x hx => hg x (List.mem_cons_of_mem _ hx)) hrest
    simp [hz, hzs]

/-- What is found in the results of a traversal can be found in its members. -/
theorem map_eq_map_of_mapM {γ : Type} {f : α → Option β} {g : β → γ} {k : α → γ} {xs : List α} {ys : List β}
    (h : xs.mapM f = some ys) (hg : ∀ x ∈ xs, ∀ y, f x = some y → g y = k x) : ys.map g = xs.map k := by
  induction xs generalizing ys with
  | nil =>
    cases h
    rfl
  | cons x xs ih =>
    rw [List.mapM_cons] at h
    obtain ⟨y, hy, h⟩ := Option.bind_eq_some_iff.mp h
    obtain ⟨rest, hrest, h⟩ := Option.bind_eq_some_iff.mp h
    cases h
    rw [List.map_cons, List.map_cons, hg x List.mem_cons_self y hy,
      ih hrest fun z hz => hg z (List.mem_cons_of_mem _ hz)]

/-- The results of a traversal stand in the order of its members. -/
theorem forall₂_of_mapM {f : α → Except ε β} {xs : List α} {ys : List β} (h : xs.mapM f = .ok ys) :
    List.Forall₂ (fun x y => f x = .ok y) xs ys := by
  induction xs generalizing ys with
  | nil =>
    cases h
    exact .nil
  | cons x xs ih =>
    rw [List.mapM_cons] at h
    obtain ⟨y, hy, h⟩ := bind_eq_ok h
    obtain ⟨rest, hrest, h⟩ := bind_eq_ok h
    cases h
    exact .cons hy (ih hrest)

theorem getElem?_of_forall₂ {r : α → β → Prop} {xs : List α} {ys : List β} (h : List.Forall₂ r xs ys) (i : Nat) :
    (xs[i]? = none ∧ ys[i]? = none) ∨ ∃ x y, xs[i]? = some x ∧ ys[i]? = some y ∧ r x y := by
  induction h generalizing i with
  | nil => exact .inl ⟨rfl, rfl⟩
  | @cons x y xs ys hr _ ih =>
    cases i with
    | zero => exact .inr ⟨x, y, rfl, rfl, hr⟩
    | succ i => exact ih i

theorem exists_getElem?_of_forall₂ {r : α → β → Prop} {xs : List α} {ys : List β} (h : List.Forall₂ r xs ys)
    {i : Nat} {y : β} (hy : ys[i]? = some y) : ∃ x, xs[i]? = some x ∧ r x y := by
  obtain ⟨-, hnone⟩ | ⟨x, z, hx, hz, hr⟩ := getElem?_of_forall₂ h i
  · rw [hnone] at hy
    cases hy
  · obtain rfl := Option.some.inj (hz.symm.trans hy)
    exact ⟨x, hx, hr⟩

theorem forall₂_trans {r : α → α → Prop} {xs ys zs : List α} (hr : ∀ x ∈ xs, ∀ y z, r x y → r y z → r x z)
    (h : List.Forall₂ r xs ys) (h' : List.Forall₂ r ys zs) : List.Forall₂ r xs zs := by
  induction h generalizing zs with
  | nil => exact h'
  | cons hxy _ ih =>
    cases h' with
    | cons hyz hrest =>
      have hbelow := ih (fun x hx => hr x (List.mem_cons_of_mem _ hx)) hrest
      exact .cons (hr _ List.mem_cons_self _ _ hxy hyz) hbelow

theorem mapM_range_length {f : Nat → Except ε β} {g : α → Except ε β} {xs : List α}
    (h : ∀ i x, xs[i]? = some x → f i = g x) : (List.range xs.length).mapM f = xs.mapM g := by
  induction xs generalizing f with
  | nil => rfl
  | cons x xs ih =>
    have hx := h 0 x (by simp)
    have hxs := ih (f := fun i => f (i + 1)) fun i y hy => h (i + 1) y (by simpa using hy)
    rw [List.length_cons, List.range_succ_eq_map, List.mapM_cons, List.mapM_cons, List.mapM_map, hx, ← hxs]
    rfl

end DeviceDescription.Traversal
