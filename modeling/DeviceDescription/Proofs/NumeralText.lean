import DeviceDescription.Numeral
import Mathlib

/-! # Trimmed texts and written numerals -/
namespace DeviceDescription

namespace Text

theorem eq_false_of_isAlphanum (p : Char → Bool)
    (hp : ∀ n < 128, (Char.ofNat n).isAlphanum = true → p (Char.ofNat n) = false) {c : Char}
    (h : c.isAlphanum = true) : p c = false := by
  have hlt : c.toNat < 128 := by
    simp only [Char.isAlphanum, Char.isAlpha, Char.isUpper, Char.isLower, Char.isDigit, UInt32.le_iff_toNat_le,
      decide_eq_true_eq, Bool.or_eq_true, Bool.and_eq_true] at h
    simp at h
    omega
  have hc := hp c.toNat hlt
  rw [Char.ofNat_toNat] at hc
  exact hc h

theorem isBlank_of_isAlphanum {c : Char} (h : c.isAlphanum = true) : isBlank c = false :=
  eq_false_of_isAlphanum isBlank (by decide) h

theorem ne_of_isAlphanum {c d : Char} (h : c.isAlphanum = true) (hd : d.isAlphanum = false) : c ≠ d := by
  rintro rfl
  simp [h] at hd

theorem dropWhile_eq_self {p : Char → Bool} {t : Text} (h : ∀ c ∈ t, p c = false) : t.dropWhile p = t := by
  cases t with
  | nil => rfl
  | cons c r => simp [h c List.mem_cons_self]

theorem dropEndWhile_eq_self {p : Char → Bool} {t : Text} (h : ∀ c ∈ t, p c = false) :
    dropEndWhile p t = t := by
  rw [dropEndWhile, dropWhile_eq_self fun c hc => h c (List.mem_reverse.mp hc), List.reverse_reverse]

theorem dropEndWhile_append {p : Char → Bool} {t : Text} (h : ∀ c ∈ t, p c = false) (r : Text) :
    dropEndWhile p (t ++ r) = t ++ dropEndWhile p r := by
  rw [dropEndWhile, dropEndWhile, List.reverse_append, List.dropWhile_append]
  split
  · rename_i he
    have hr : r.reverse.dropWhile p = [] := List.isEmpty_iff.mp he
    have ht := dropEndWhile_eq_self h
    rw [dropEndWhile] at ht
    rw [ht, hr, List.reverse_nil, List.append_nil]
  · rw [List.reverse_append, List.reverse_reverse]

theorem dropEndWhile_concat {p : Char → Bool} {c : Char} (hc : p c = false) (t : Text) :
    dropEndWhile p (t ++ [c]) = t ++ [c] := by
  simp [dropEndWhile, hc]

theorem trim_eq_self {t : Text} (h : ∀ c ∈ t, isBlank c = false) : trim t = t := by
  rw [trim, dropWhile_eq_self h, dropEndWhile_eq_self h]

@[simp] theorem trim_dropWhile (t : Text) : trim (t.dropWhile isBlank) = trim t := by
  rw [trim, trim, List.dropWhile_idempotent]

theorem mem_of_mem_trim {t : Text} {c : Char} (h : c ∈ trim t) : c ∈ t := by
  rw [trim, dropEndWhile, List.mem_reverse] at h
  exact List.dropWhile_subset _ (List.mem_reverse.mp (List.dropWhile_subset _ h))

@[simp] theorem trim_eq_nil_iff {t : Text} : trim t = [] ↔ ∀ c ∈ t, isBlank c = true := by
  rw [trim, dropEndWhile, List.reverse_eq_nil_iff, List.dropWhile_eq_nil_iff]
  constructor
  · intro h
    rw [← List.dropWhile_eq_nil_iff]
    cases hd : t.dropWhile isBlank with
    | nil => rfl
    | cons c r =>
      have hc := h c (by simp [hd])
      have hn := List.head?_dropWhile_not isBlank t
      simp [hd, hc] at hn
  · intro h c hc
    exact h c (List.dropWhile_subset _ (List.mem_reverse.mp hc))

private theorem isBlank_head_trim {t r : Text} {c : Char} (h : trim t = c :: r) : isBlank c = false := by
  rw [trim] at h
  cases hd : t.dropWhile isBlank with
  | nil =>
    rw [hd] at h
    cases h
  | cons d s =>
    have hn := List.head?_dropWhile_not isBlank t
    rw [hd] at hn
    have hb : isBlank d = false := by simpa using hn
    rw [hd] at h
    have hs := dropEndWhile_append (p := isBlank) (t := [d]) (by simpa using hb) s
    rw [List.singleton_append, h] at hs
    exact (List.cons.inj hs).1 ▸ hb

structure IsTrimmed (t : Text) : Prop where
  head : ∀ c ∈ t.head?, isBlank c = false
  last : ∀ c ∈ t.getLast?, isBlank c = false

theorem isTrimmed_trim (t : Text) : (trim t).IsTrimmed where
  head c hc := by
    obtain ⟨r, hr⟩ := List.head?_eq_some_iff.mp hc
    exact isBlank_head_trim hr
  last c hc := by
    have hn := List.head?_dropWhile_not isBlank (t.dropWhile isBlank).reverse
    rw [trim, dropEndWhile, List.getLast?_reverse] at hc
    rw [hc] at hn
    simpa using hn

theorem IsTrimmed.dropWhile_eq {t : Text} (h : t.IsTrimmed) : t.dropWhile isBlank = t := by
  cases t with
  | nil => rfl
  | cons c r => simp [h.head c rfl]

theorem IsTrimmed.trim_eq {t : Text} (h : t.IsTrimmed) : trim t = t := by
  have hend : t.reverse.dropWhile isBlank = t.reverse := by
    cases hr : t.reverse with
    | nil => rfl
    | cons c r =>
      have hc : t.getLast? = some c := by rw [← List.head?_reverse, hr, List.head?_cons]
      simp [h.last c hc]
  rw [trim, h.dropWhile_eq, dropEndWhile, hend, List.reverse_reverse]

end Text

namespace Numeral

/-- A number is written with decimal digits, after a plus sign or none. Leading zeros mean nothing. -/
def Denotes (t : Text) (n : Nat) : Prop :=
  ∃ digits : Text, (t = digits ∨ t = '+' :: digits) ∧ digits ≠ [] ∧ (∀ c ∈ digits, c.isDigit = true) ∧
    Nat.ofDigitChars 10 digits 0 = n

theorem isDigits_iff {t : Text} : isDigits t = true ↔ t ≠ [] ∧ ∀ c ∈ t, c.isDigit = true := by
  simp [isDigits]

private theorem withoutSign_eq_self {t : Text} (h : '+' ∉ t) : withoutSign t = t := by
  cases t with
  | nil => rfl
  | cons c r =>
    have hc : c ≠ '+' := fun e => h (e ▸ List.mem_cons_self)
    unfold withoutSign
    split
    · rename_i e
      exact absurd (List.cons.inj e).1 hc
    · rfl

private theorem withoutSign_cases (t : Text) : t = withoutSign t ∨ t = '+' :: withoutSign t := by
  unfold withoutSign
  split
  · exact .inr rfl
  · exact .inl rfl

theorem denotes_of_read? {bound n : Nat} {t : Text} (h : read? bound t = some n) : Denotes t n ∧ n ≤ bound := by
  simp only [read?] at h
  split at h
  · rename_i hdigits
    obtain ⟨hne, hall⟩ := isDigits_iff.mp hdigits
    split at h
    · rename_i hle
      obtain rfl := Option.some.inj h
      exact ⟨⟨withoutSign t, withoutSign_cases t, hne, hall, rfl⟩, hle⟩
    · cases h
  · cases h

/-- A number is read from what denotes it, if the bound allows it. -/
theorem read?_eq_some_iff {bound n : Nat} {t : Text} : read? bound t = some n ↔ Denotes t n ∧ n ≤ bound := by
  refine ⟨denotes_of_read?, ?_⟩
  rintro ⟨⟨digits, hsign, hne, hall, rfl⟩, hle⟩
  have hdigits : isDigits digits = true := isDigits_iff.mpr ⟨hne, hall⟩
  have hw : withoutSign t = digits := by
    rcases hsign with rfl | rfl
    · exact withoutSign_eq_self fun hplus => absurd (hall _ hplus) (by decide)
    · rfl
  rw [read?, hw, if_pos hdigits]
  exact if_pos hle

section Denoting
variable {t : Text} {n : Nat} (h : Denotes t n)
include h

private theorem isDigit_or_plus_of_denotes {c : Char} (hc : c ∈ t) : c = '+' ∨ c.isDigit = true := by
  obtain ⟨digits, rfl | rfl, -, hdigits, -⟩ := h
  · exact .inr (hdigits c hc)
  · rcases List.mem_cons.mp hc with rfl | hc
    · exact .inl rfl
    · exact .inr (hdigits c hc)

theorem trim_of_denotes : Text.trim t = t := by
  apply Text.trim_eq_self
  intro c hc
  rcases isDigit_or_plus_of_denotes h hc with rfl | hdigit
  · decide
  · exact Text.isBlank_of_isAlphanum (by simp [Char.isAlphanum, hdigit])

theorem slash_notMem_of_denotes : '/' ∉ t := by
  intro hm
  rcases isDigit_or_plus_of_denotes h hm with hplus | hdigit
  · exact absurd hplus (by decide)
  · exact absurd hdigit (by decide)

end Denoting

theorem write_ne_nil (n : Nat) : write n ≠ [] := Nat.toDigits_ne_nil

theorem isDigit_of_mem_write {n : Nat} {c : Char} (h : c ∈ write n) : c.isDigit = true :=
  Nat.isDigit_of_mem_toDigits (by decide) (by decide) h

theorem isAlphanum_of_mem_write {n : Nat} {c : Char} (h : c ∈ write n) : c.isAlphanum = true := by
  simp [Char.isAlphanum, isDigit_of_mem_write h]

@[simp] theorem isDigits_write (n : Nat) : isDigits (write n) = true :=
  isDigits_iff.mpr ⟨write_ne_nil n, fun _ => isDigit_of_mem_write⟩

theorem denotes_write (n : Nat) : Denotes (write n) n :=
  ⟨write n, .inl rfl, write_ne_nil n, fun _ => isDigit_of_mem_write, Nat.ofDigitChars_ten_toDigits⟩

theorem denotes_unique {t : Text} {m n : Nat} (hm : Denotes t m) (hn : Denotes t n) : m = n := by
  have hread := read?_eq_some_iff.mpr ⟨hm, le_max_left m n⟩
  exact Option.some.inj (hread.symm.trans (read?_eq_some_iff.mpr ⟨hn, le_max_right m n⟩))

end Numeral
end DeviceDescription
