/-! # Text as a list of characters -/
namespace DeviceDescription

/-- Readers and writers recurse on the characters of a text. -/
abbrev Text := List Char

instance : Coe String Text := ⟨String.toList⟩

instance : LawfulBEq Text := inferInstance

namespace Text

/-- The characters with the Unicode property White_Space. -/
def isBlank (c : Char) : Bool :=
  ('\t' ≤ c && c ≤ '\r') || c = ' ' || c = '\u0085' || c = '\u00a0' || c = '\u1680' ||
  ('\u2000' ≤ c && c ≤ '\u200a') || c = '\u2028' || c = '\u2029' || c = '\u202f' ||
  c = '\u205f' || c = '\u3000'

def dropEndWhile (p : Char → Bool) (t : Text) : Text := (t.reverse.dropWhile p).reverse

def trim (t : Text) : Text := dropEndWhile isBlank (t.dropWhile isBlank)

def cut (d : Char) : Text → Option (Text × Text)
  | [] => none
  | c :: r => if c = d then some ([], r) else (cut d r).map fun (a, b) => (c :: a, b)

def cutLast (d : Char) : Text → Option (Text × Text)
  | [] => none
  | c :: r => match cutLast d r with
    | some (a, b) => some (c :: a, b)
    | none => if c = d then some ([], r) else none

@[simp] theorem cut_eq_none_iff {d : Char} {t : Text} : cut d t = none ↔ d ∉ t := by
  induction t with
  | nil => simp [cut]
  | cons c r ih =>
    by_cases h : c = d
    · simp [cut, h]
    · simp [cut, h, ih, Ne.symm h]

theorem cut_append {d : Char} {a : Text} (b : Text) (h : d ∉ a) : cut d (a ++ d :: b) = some (a, b) := by
  induction a with
  | nil => simp [cut]
  | cons c r ih =>
    simp only [List.mem_cons, not_or] at h
    simp [cut, Ne.symm h.1, ih h.2]

theorem eq_append_of_cut {d : Char} {t a b : Text} (h : cut d t = some (a, b)) :
    t = a ++ d :: b ∧ d ∉ a := by
  induction t generalizing a with
  | nil => simp [cut] at h
  | cons c r ih =>
    by_cases hc : c = d
    · simp only [cut, hc, if_true, Option.some.injEq, Prod.mk.injEq] at h
      obtain ⟨rfl, rfl⟩ := h
      simp [hc]
    · simp only [cut, hc, if_false, Option.map_eq_some_iff] at h
      obtain ⟨⟨x, y⟩, hxy, hp⟩ := h
      simp only [Prod.mk.injEq] at hp
      obtain ⟨rfl, rfl⟩ := hp
      obtain ⟨rfl, hx⟩ := ih hxy
      simp [Ne.symm hc, hx]

@[simp] theorem cutLast_eq_none_iff {d : Char} {t : Text} : cutLast d t = none ↔ d ∉ t := by
  induction t with
  | nil => simp [cutLast]
  | cons c r ih =>
    cases h : cutLast d r with
    | some p =>
      have hr : d ∈ r := Decidable.byContradiction fun hn => by simp [ih.2 hn] at h
      simp [cutLast, h, hr]
    | none =>
      have hr := ih.1 h
      by_cases hc : c = d
      · simp [cutLast, h, hc]
      · simp [cutLast, h, hc, hr, Ne.symm hc]

theorem cutLast_append {d : Char} (a : Text) {b : Text} (h : d ∉ b) :
    cutLast d (a ++ d :: b) = some (a, b) := by
  induction a with
  | nil => simp [cutLast, cutLast_eq_none_iff.2 h]
  | cons c r ih => simp [cutLast, ih]

end Text
end DeviceDescription
