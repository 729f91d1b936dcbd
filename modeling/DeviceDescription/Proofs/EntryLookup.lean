import DeviceDescription.ConfigurationLayer
import DeviceDescription.Proofs.KeyAgreement

/-!
# What is found in a mapping

Entries that are put into a mapping, collected or merged are described by what is found under each key.
-/
namespace DeviceDescription

namespace YamlValue

variable {key k l v value : YamlValue} {entries : List (YamlValue × YamlValue)}

/-- However a key is written, the same is found. -/
theorem find?_congr (h : agree k l = true) (entries : List (YamlValue × YamlValue)) :
    find? k entries = find? l entries := by
  induction entries with
  | nil => rfl
  | cons e entries ih => rw [find?, find?, agree_congr h, ih]

/-- Of the entries of a mapping, only the one with the key changes. -/
@[simp] theorem find?_put (key k value : YamlValue) (entries : List (YamlValue × YamlValue)) :
    find? k (put key value entries) = if agree key k then some value else find? k entries := by
  induction entries with
  | nil => simp [put, find?]
  | cons e entries ih =>
    obtain ⟨l, w⟩ := e
    by_cases hl : agree l key = true
    · have hk : agree l k = agree key k := by rw [agree_comm l, agree_comm key, agree_congr hl]
      rw [put, if_pos hl, find?, find?, hk]
      split <;> rfl
    · rw [put, if_neg hl, find?, find?, ih]
      by_cases hk : agree key k = true
      · have hlk : ¬agree l k = true := fun h => hl (agree_trans h (agree_symm hk))
        simp [hk, hlk]
      · rw [if_neg hk, if_neg hk]

/-- A new key stands after all others. -/
theorem keys_put (key value : YamlValue) (entries : List (YamlValue × YamlValue)) :
    (put key value entries).map Prod.fst =
      if (entries.map Prod.fst).any (agree key) then entries.map Prod.fst else entries.map Prod.fst ++ [key] := by
  induction entries with
  | nil => simp [put]
  | cons e entries ih =>
    obtain ⟨l, w⟩ := e
    by_cases hl : agree l key = true
    · simp [put, hl, agree_symm hl]
    · have hl' : agree key l = false := by rwa [agree_comm, ← Bool.not_eq_true]
      simp only [put, if_neg hl, List.map_cons, ih, List.any_cons, hl', Bool.false_or]
      split <;> rfl

private theorem areDistinct_concat {keys : List YamlValue} (h : areDistinct keys = true)
    (hk : keys.any (agree k) = false) :
    areDistinct (keys ++ [k]) = true := by
  rw [areDistinct_iff] at h ⊢
  refine List.pairwise_append.mpr ⟨h, List.pairwise_singleton _ _, fun l hl k' hk' => ?_⟩
  obtain rfl := List.mem_singleton.mp hk'
  exact agree_eq_false_of_any hk hl

private theorem areDistinct_keys_put (h : areDistinct (entries.map Prod.fst) = true) :
    areDistinct ((put key value entries).map Prod.fst) = true := by
  rw [keys_put]
  split
  · exact h
  · rename_i hk
    exact areDistinct_concat h (Bool.not_eq_true _ ▸ hk)

theorem find?_eq_none_iff : find? k entries = none ↔ (entries.map Prod.fst).any (agree k) = false := by
  induction entries with
  | nil => simp [find?]
  | cons e entries ih =>
    obtain ⟨l, w⟩ := e
    rw [find?, agree_comm]
    by_cases hk : agree k l = true <;> simp [hk, ih]

end YamlValue

namespace ConfigurationLayer

open YamlValue

@[simp] theorem areDistinct_keys_collect (entries : List (YamlValue × YamlValue)) :
    areDistinct ((collect entries).map Prod.fst) = true := by
  have hfold : ∀ m : List (YamlValue × YamlValue), areDistinct (m.map Prod.fst) = true →
      areDistinct ((entries.foldl (fun m e => put e.1 e.2 m) m).map Prod.fst) = true := by
    induction entries with
    | nil => exact fun m hm => hm
    | cons e entries ih => exact fun m hm => ih _ (areDistinct_keys_put hm)
  exact hfold [] rfl

/-- Of the entries with a key, the last one counts. -/
theorem find?_collect (k : YamlValue) (entries : List (YamlValue × YamlValue)) :
    find? k (collect entries) = (entries.filterMap fun e => if agree e.1 k then some e.2 else none).getLast? := by
  have hfold : ∀ m : List (YamlValue × YamlValue), find? k (entries.foldl (fun m e => put e.1 e.2 m) m) =
      (entries.filterMap fun e => if agree e.1 k then some e.2 else none).getLast?.or (find? k m) := by
    induction entries with
    | nil => exact fun m => rfl
    | cons e entries ih =>
      intro m
      rw [List.foldl_cons, ih, find?_put, List.filterMap_cons]
      split
      · rw [List.getLast?_cons]
        cases (entries.filterMap fun e => if agree e.1 k then some e.2 else none).getLast? <;> rfl
      · rfl
  exact (hfold []).trans Option.or_none

theorem mem_keys_of_collect {k : YamlValue} {entries : List (YamlValue × YamlValue)}
    (h : k ∈ (collect entries).map Prod.fst) : k ∈ entries.map Prod.fst := by
  have hfold : ∀ m : List (YamlValue × YamlValue), k ∈ (entries.foldl (fun m e => put e.1 e.2 m) m).map Prod.fst →
      k ∈ m.map Prod.fst ∨ k ∈ entries.map Prod.fst := by
    clear h
    induction entries with
    | nil => exact fun m hm => .inl hm
    | cons e entries ih =>
      intro m hm
      rw [List.map_cons, List.mem_cons]
      rcases ih _ hm with hput | hrest
      · rw [keys_put] at hput
        split at hput
        · exact .inl hput
        · exact (List.mem_append.mp hput).imp_right fun he => .inl (List.mem_singleton.mp he)
      · exact .inr (.inr hrest)
  exact (hfold [] h).resolve_left (List.not_mem_nil)

/-- What the merge of an entry with a mapping puts in its place. -/
def overlay (base : List (YamlValue × YamlValue)) (key value : YamlValue) : YamlValue :=
  match find? key base with
  | some old => merge old value
  | none => value

/-- Under each key, a merge finds what the new entry makes of the old one. -/
theorem find?_mergeEntries {entries : List (YamlValue × YamlValue)} (h : areDistinct (entries.map Prod.fst) = true)
    (k : YamlValue) (base : List (YamlValue × YamlValue)) :
    find? k (mergeEntries base entries) = match find? k entries with
      | some v => some (overlay base k v)
      | none => find? k base := by
  induction entries generalizing base with
  | nil => rfl
  | cons e entries ih =>
    obtain ⟨l, w⟩ := e
    rw [List.map_cons, areDistinct, Bool.and_eq_true, Bool.not_eq_true'] at h
    obtain ⟨hl, hdistinct⟩ := h
    rw [mergeEntries]
    change find? k (mergeEntries (put l (overlay base l w) base) entries) = _
    rw [ih hdistinct, find?]
    by_cases hk : agree l k = true
    · -- The key does not come again, so its entry stays as it is.
      have hnone : find? k entries = none := (find?_congr hk entries).symm.trans (find?_eq_none_iff.mpr hl)
      have hoverlay : overlay base l w = overlay base k w := by
        unfold overlay
        rw [find?_congr hk]
      simp [hnone, hk, hoverlay]
    · rw [if_neg hk]
      cases find? k entries with
      | none => simp [hk]
      | some v => simp [overlay, hk]

/-- A merge keeps the keys of the base in their places. The new keys stand after them. -/
theorem keys_mergeEntries {entries : List (YamlValue × YamlValue)} (h : areDistinct (entries.map Prod.fst) = true)
    (base : List (YamlValue × YamlValue)) :
    (mergeEntries base entries).map Prod.fst =
      base.map Prod.fst ++ (entries.map Prod.fst).filter fun k => !(base.map Prod.fst).any (agree k) := by
  induction entries generalizing base with
  | nil => simp [mergeEntries]
  | cons e entries ih =>
    obtain ⟨l, w⟩ := e
    rw [List.map_cons, areDistinct, Bool.and_eq_true, Bool.not_eq_true'] at h
    obtain ⟨hl, hdistinct⟩ := h
    rw [mergeEntries, ih hdistinct, keys_put, List.map_cons]
    split
    · rename_i hold
      rw [List.filter_cons_of_neg (by simpa using hold)]
    · rename_i hnew
      have hrest : ((entries.map Prod.fst).filter fun k => !(base.map Prod.fst ++ [l]).any (agree k)) =
          (entries.map Prod.fst).filter fun k => !(base.map Prod.fst).any (agree k) := by
        apply List.filter_congr
        intro k hk
        have hkl : agree k l = false := agree_eq_false_of_any hl hk
        simp [hkl]
      rw [hrest, List.filter_cons_of_pos (by simpa using hnew), List.append_assoc, List.singleton_append]

end ConfigurationLayer
end DeviceDescription
