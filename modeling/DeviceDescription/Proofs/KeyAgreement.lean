import DeviceDescription.Proofs.Traversal
import DeviceDescription.YamlValue

/-!
# Keys that agree

Two values are the same key if they differ only in the order of entries and in the sign of zeros. This is an
equivalence, so a mapping has one entry for all the ways to write a key, and there is one way to write a text.
-/
namespace DeviceDescription.YamlValue

variable {a b c v : YamlValue}

/-- What passes from the parts of a value to the value holds of every value. -/
@[elab_as_elim]
theorem forall_of_parts {motive : YamlValue → Prop} (null : motive .null) (boolean : ∀ b, motive (.boolean b))
    (integer : ∀ n, motive (.integer n)) (float : ∀ t, motive (.float t)) (string : ∀ t, motive (.string t))
    (sequence : ∀ items, (∀ a ∈ items, motive a) → motive (.sequence items))
    (mapping : ∀ entries, (∀ e ∈ entries, motive e.1 ∧ motive e.2) → motive (.mapping entries))
    (tagged : ∀ t v, motive v → motive (.tagged t v)) (v : YamlValue) : motive v :=
  @YamlValue.rec motive (fun items => ∀ a ∈ items, motive a) (fun entries => ∀ e ∈ entries, motive e.1 ∧ motive e.2)
    (fun e => motive e.1 ∧ motive e.2) null boolean integer float string sequence mapping tagged
    (by simp) (fun _ _ ha hr => List.forall_mem_cons.mpr ⟨ha, hr⟩)
    (by simp) (fun _ _ he hr => List.forall_mem_cons.mpr ⟨he, hr⟩) (fun _ _ hk hv => ⟨hk, hv⟩) v

def EntriesMatch (e f : YamlValue × YamlValue) : Prop := agree e.1 f.1 = true ∧ agree e.2 f.2 = true

private theorem itemsAgree_iff {a b : List YamlValue} :
    itemsAgree a b = true ↔ List.Forall₂ (agree · · = true) a b := by
  induction a generalizing b with
  | nil => cases b <;> simp [itemsAgree]
  | cons x a ih => cases b <;> simp [itemsAgree, ih]

private theorem entriesAgree_iff {a b : List (YamlValue × YamlValue)} :
    entriesAgree a b = true ↔ ∀ e ∈ a, ∃ f ∈ b, EntriesMatch e f := by
  induction a with
  | nil => simp [entriesAgree]
  | cons e a ih =>
    obtain ⟨k, v⟩ := e
    rw [entriesAgree, Bool.and_eq_true, ih, List.forall_mem_cons, List.any_eq_true]
    simp [EntriesMatch]

private theorem hasLike_iff {a : List (YamlValue × YamlValue)} {f : YamlValue × YamlValue} :
    hasLike a f = true ↔ ∃ e ∈ a, EntriesMatch e f := by
  induction a with
  | nil => simp [hasLike]
  | cons e a ih =>
    obtain ⟨k, v⟩ := e
    rw [hasLike, Bool.or_eq_true, ih, List.exists_mem_cons_iff]
    simp [EntriesMatch]

theorem agree_float_iff {t : Text} : agree (.float t) v = true ↔
    ∃ s, v = .float s ∧ (t = s ∨ t ∈ (["0.0", "-0.0"] : List Text) ∧ s ∈ (["0.0", "-0.0"] : List Text)) := by
  cases v <;> simp [agree, floatsAgree]

theorem agree_sequence_iff {items : List YamlValue} :
    agree (.sequence items) v = true ↔
      ∃ others, v = .sequence others ∧ List.Forall₂ (agree · · = true) items others := by
  cases v <;> simp [agree, itemsAgree_iff]

theorem agree_mapping_iff {entries : List (YamlValue × YamlValue)} :
    agree (.mapping entries) v = true ↔ ∃ others, v = .mapping others ∧
      (∀ e ∈ entries, ∃ f ∈ others, EntriesMatch e f) ∧ ∀ f ∈ others, ∃ e ∈ entries, EntriesMatch e f := by
  cases v with
  | mapping others =>
    rw [agree, Bool.and_eq_true, entriesAgree_iff, List.all_eq_true]
    simp only [hasLike_iff, mapping.injEq, exists_eq_left']
  | _ => simp [agree]

theorem agree_tagged_iff {t : Text} : agree (.tagged t a) v = true ↔ ∃ b, v = .tagged t b ∧ agree a b = true := by
  cases v with
  | tagged s b =>
    simp only [agree, Bool.and_eq_true, decide_eq_true_eq, tagged.injEq]
    constructor
    · rintro ⟨rfl, hab⟩
      exact ⟨b, ⟨rfl, rfl⟩, hab⟩
    · rintro ⟨_, ⟨rfl, rfl⟩, hab⟩
      exact ⟨rfl, hab⟩
  | _ => simp [agree]

@[simp] theorem agree_refl (a : YamlValue) : agree a a = true := by
  induction a using forall_of_parts with
  | null | boolean | integer | string => simp only [agree, same_self]
  | float t => exact agree_float_iff.mpr ⟨t, rfl, .inl rfl⟩
  | sequence items ih => exact agree_sequence_iff.mpr ⟨items, rfl, List.forall₂_same.mpr ih⟩
  | mapping entries ih =>
    exact agree_mapping_iff.mpr ⟨entries, rfl, fun e he => ⟨e, he, ih e he⟩, fun e he => ⟨e, he, ih e he⟩⟩
  | tagged t v ih => exact agree_tagged_iff.mpr ⟨v, rfl, ih⟩

theorem agree_symm (h : agree a b = true) : agree b a = true := by
  induction a using forall_of_parts generalizing b with
  | null | boolean | integer | string =>
    simp only [agree] at h
    exact eq_of_same h ▸ agree_refl _
  | float t =>
    obtain ⟨s, rfl, hst⟩ := agree_float_iff.mp h
    exact agree_float_iff.mpr ⟨t, rfl, hst.imp Eq.symm And.symm⟩
  | sequence items ih =>
    obtain ⟨others, rfl, hitems⟩ := agree_sequence_iff.mp h
    have hsymm := ((List.forall₂_and_left _ _).mpr ⟨ih, hitems⟩).imp fun x y hxy => hxy.1 hxy.2
    exact agree_sequence_iff.mpr ⟨items, rfl, hsymm.flip⟩
  | mapping entries ih =>
    obtain ⟨others, rfl, hsub, hsup⟩ := agree_mapping_iff.mp h
    refine agree_mapping_iff.mpr ⟨entries, rfl, fun f hf => ?_, fun e he => ?_⟩
    · obtain ⟨e, he, hk, hv⟩ := hsup f hf
      exact ⟨e, he, (ih e he).1 hk, (ih e he).2 hv⟩
    · obtain ⟨f, hf, hk, hv⟩ := hsub e he
      exact ⟨f, hf, (ih e he).1 hk, (ih e he).2 hv⟩
  | tagged t v ih =>
    obtain ⟨w, rfl, hvw⟩ := agree_tagged_iff.mp h
    exact agree_tagged_iff.mpr ⟨v, rfl, ih hvw⟩

theorem agree_trans (hab : agree a b = true) (hbc : agree b c = true) : agree a c = true := by
  induction a using forall_of_parts generalizing b c with
  | null | boolean | integer | string =>
    simp only [agree] at hab
    exact eq_of_same hab ▸ hbc
  | float t =>
    obtain ⟨s, rfl, hts⟩ := agree_float_iff.mp hab
    obtain ⟨r, rfl, hsr⟩ := agree_float_iff.mp hbc
    refine agree_float_iff.mpr ⟨r, rfl, ?_⟩
    rcases hts with rfl | ⟨ht, hs⟩
    · exact hsr
    · rcases hsr with rfl | ⟨-, hr⟩
      · exact .inr ⟨ht, hs⟩
      · exact .inr ⟨ht, hr⟩
  | sequence items ih =>
    obtain ⟨others, rfl, hfirst⟩ := agree_sequence_iff.mp hab
    obtain ⟨others', rfl, hsecond⟩ := agree_sequence_iff.mp hbc
    exact agree_sequence_iff.mpr ⟨others', rfl, Traversal.forall₂_trans (fun a ha _ _ => ih a ha) hfirst hsecond⟩
  | mapping entries ih =>
    obtain ⟨others, rfl, hsub, hsup⟩ := agree_mapping_iff.mp hab
    obtain ⟨others', rfl, hsub', hsup'⟩ := agree_mapping_iff.mp hbc
    refine agree_mapping_iff.mpr ⟨others', rfl, fun e he => ?_, fun g hg => ?_⟩
    · obtain ⟨f, hf, hk, hv⟩ := hsub e he
      obtain ⟨g, hg, hk', hv'⟩ := hsub' f hf
      exact ⟨g, hg, (ih e he).1 hk hk', (ih e he).2 hv hv'⟩
    · obtain ⟨f, hf, hk', hv'⟩ := hsup' g hg
      obtain ⟨e, he, hk, hv⟩ := hsup f hf
      exact ⟨e, he, (ih e he).1 hk hk', (ih e he).2 hv hv'⟩
  | tagged t v ih =>
    obtain ⟨w, rfl, hvw⟩ := agree_tagged_iff.mp hab
    obtain ⟨x, rfl, hwx⟩ := agree_tagged_iff.mp hbc
    exact agree_tagged_iff.mpr ⟨x, rfl, ih hvw hwx⟩

theorem agree_comm (a b : YamlValue) : agree a b = agree b a :=
  Bool.eq_iff_iff.mpr ⟨agree_symm, agree_symm⟩

/-- What agrees with one of two ways to write a key agrees with the other. -/
theorem agree_congr (h : agree a b = true) (c : YamlValue) : agree c a = agree c b :=
  Bool.eq_iff_iff.mpr ⟨fun hca => agree_trans hca h, fun hcb => agree_trans hcb (agree_symm h)⟩

theorem agree_eq_false_of_any {k l : YamlValue} {keys : List YamlValue} (h : keys.any (agree k) = false)
    (hl : l ∈ keys) : agree l k = false := by
  rw [agree_comm]
  exact Bool.eq_false_iff.mpr (List.any_eq_false.mp h l hl)

@[simp] theorem agree_string_left {t : Text} : agree (.string t) v = true ↔ .string t = v := by
  constructor
  · intro h
    simp only [agree] at h
    exact eq_of_same h
  · rintro rfl
    exact agree_refl _

@[simp] theorem agree_string_right {t : Text} : agree v (.string t) = true ↔ v = .string t := by
  rw [agree_comm, agree_string_left, eq_comm]

theorem areDistinct_iff {keys : List YamlValue} :
    areDistinct keys = true ↔ keys.Pairwise fun k l => agree k l = false := by
  induction keys with
  | nil => simp [areDistinct]
  | cons k keys ih => simp [areDistinct, ih]

end DeviceDescription.YamlValue
