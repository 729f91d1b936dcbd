import DeviceDescription.Proofs.FieldPolicies
import DeviceDescription.Proofs.LeaseHistory

/-!
# Numbers are read exactly

A numeral is built digit by digit, and its value with it. Lengths of leases and fields of numbers read the same
numerals, with nothing but the bound of their word to tell them apart: whatever is written of a number within the bound
is read as that number, and no other text is read at all.
-/
namespace DeviceDescription

open Traversal

namespace Text

theorem exists_blanks_of_trim (t : Text) : ∃ before after : Text, t = before ++ trim t ++ after ∧
    (∀ c ∈ before, isBlank c = true) ∧ ∀ c ∈ after, isBlank c = true := by
  let rest := t.dropWhile isBlank
  have hrest : trim t ++ (rest.reverse.takeWhile isBlank).reverse = rest := by
    rw [trim, dropEndWhile, ← List.reverse_append, List.takeWhile_append_dropWhile, List.reverse_reverse]
  refine ⟨t.takeWhile isBlank, (rest.reverse.takeWhile isBlank).reverse, ?_, fun c hc => List.mem_takeWhile_imp hc,
    fun c hc => List.mem_takeWhile_imp (List.mem_reverse.mp hc)⟩
  rw [List.append_assoc, hrest, List.takeWhile_append_dropWhile]

theorem trim_of_blanks {before t after : Text} (hbefore : ∀ c ∈ before, isBlank c = true)
    (hafter : ∀ c ∈ after, isBlank c = true) (ht : t.IsTrimmed) : trim (before ++ t ++ after) = t := by
  cases t with
  | nil =>
    rw [List.append_nil, trim_eq_nil_iff]
    intro c hc
    exact (List.mem_append.mp hc).elim (hbefore c) (hafter c)
  | cons c r =>
    have hstart : (c :: r ++ after).dropWhile isBlank = c :: r ++ after := by
      simp [ht.head c rfl]
    have hend : dropEndWhile isBlank (c :: r) = c :: r := by
      have htrim := ht.trim_eq
      rwa [trim, ht.dropWhile_eq] at htrim
    rw [trim, List.append_assoc, List.dropWhile_append_of_pos hbefore, hstart, dropEndWhile, List.reverse_append,
      List.dropWhile_append_of_pos fun d hd => hafter d (List.mem_reverse.mp hd)]
    exact hend

end Text

namespace Numeral

variable {t : Text} {n : Nat}

/-- Digits and what they are worth. A further digit makes all before it worth ten times as much. -/
inductive Digits : Text → Nat → Prop where
  | one {d : Nat} (hd : d < 10) : Digits [d.digitChar] d
  | more {t : Text} {n d : Nat} (h : Digits t n) (hd : d < 10) : Digits (t ++ [d.digitChar]) (10 * n + d)

inductive Spells : Text → Nat → Prop where
  | plain {t : Text} {n : Nat} (h : Digits t n) : Spells t n
  | signed {t : Text} {n : Nat} (h : Digits t n) : Spells ('+' :: t) n

/-- A number stands between blanks, after a plus sign or none and after any number of zeros. -/
def IsPadded (text : Text) (n : Nat) : Prop :=
  ∃ (before sign after : Text) (zeros : Nat),
    text = before ++ (sign ++ (List.replicate zeros '0' ++ write n)) ++ after ∧
    (sign = [] ∨ sign = ['+']) ∧ (∀ c ∈ before, Text.isBlank c = true) ∧ ∀ c ∈ after, Text.isBlank c = true

private theorem exists_digitChar {c : Char} (h : c.isDigit = true) : ∃ d < 10, c = d.digitChar := by
  have hsmall : ∀ n < 58, 48 ≤ n → Char.ofNat n = (n - 48).digitChar := by decide
  have hbounds : 48 ≤ c.toNat ∧ c.toNat ≤ 57 := by
    simpa [Char.isDigit, UInt32.le_iff_toNat_le] using h
  refine ⟨c.toNat - 48, by omega, ?_⟩
  rw [← hsmall c.toNat (by omega) hbounds.1, Char.ofNat_toNat]

private theorem ofDigitChars_concat (t : Text) {d : Nat} (hd : d < 10) :
    Nat.ofDigitChars 10 (t ++ [d.digitChar]) 0 = 10 * Nat.ofDigitChars 10 t 0 + d := by
  rw [Nat.ofDigitChars_append, Nat.ofDigitChars_cons_digitChar_of_lt_ten hd, Nat.ofDigitChars_nil]

theorem digits_iff : Digits t n ↔ t ≠ [] ∧ (∀ c ∈ t, c.isDigit = true) ∧ Nat.ofDigitChars 10 t 0 = n := by
  constructor
  · intro h
    induction h with
    | @one d hd =>
      refine ⟨by simp, by simpa [Nat.isDigit_digitChar] using hd, ?_⟩
      exact (ofDigitChars_concat [] hd).trans (Nat.zero_add d)
    | @more t n d _ hd ih =>
      obtain ⟨-, hall, rfl⟩ := ih
      refine ⟨by simp, fun c hc => ?_, ofDigitChars_concat t hd⟩
      rcases List.mem_append.mp hc with hc | hc
      · exact hall c hc
      · obtain rfl := List.mem_singleton.mp hc
        simpa [Nat.isDigit_digitChar] using hd
  · rintro ⟨hne, hall, rfl⟩
    induction t using List.reverseRecOn with
    | nil => exact absurd rfl hne
    | append_singleton t c ih =>
      obtain ⟨d, hd, rfl⟩ := exists_digitChar (hall c (by simp))
      rw [ofDigitChars_concat t hd]
      by_cases ht : t = []
      · subst ht
        simpa using Digits.one hd
      · exact .more (ih ht fun c hc => hall c (List.mem_append_left _ hc)) hd

theorem denotes_iff_spells : Denotes t n ↔ Spells t n := by
  constructor
  · rintro ⟨digits, rfl | rfl, hdigits⟩
    · exact .plain (digits_iff.mpr hdigits)
    · exact .signed (digits_iff.mpr hdigits)
  · intro h
    cases h with
    | plain h => exact ⟨t, .inl rfl, digits_iff.mp h⟩
    | @signed digits _ h => exact ⟨digits, .inr rfl, digits_iff.mp h⟩

theorem spells_unique {m : Nat} (hm : Spells t m) (hn : Spells t n) : m = n :=
  denotes_unique (denotes_iff_spells.mpr hm) (denotes_iff_spells.mpr hn)

theorem ne_nil_of_spells (h : Spells t n) : t ≠ [] := by
  cases h with
  | plain h => exact (digits_iff.mp h).1
  | signed h => exact List.cons_ne_nil _ _

private theorem digits_of_zeros (zeros n : Nat) : Digits (List.replicate zeros '0' ++ write n) n := by
  refine digits_iff.mpr ⟨?_, fun c hc => ?_, ?_⟩
  · simp [write_ne_nil]
  · rcases List.mem_append.mp hc with hc | hc
    · obtain rfl := List.eq_of_mem_replicate hc
      rfl
    · exact isDigit_of_mem_write hc
  · rw [Nat.ofDigitChars_append, Nat.ofDigitChars_replicate_zero, Nat.mul_zero]
    exact Nat.ofDigitChars_ten_toDigits

/-- Digits are zeros and then the number as it is written. -/
theorem Digits.exists_zeros (h : Digits t n) : ∃ zeros, t = List.replicate zeros '0' ++ write n := by
  induction h with
  | @one d hd => exact ⟨0, (Nat.toDigits_of_lt_base hd).symm⟩
  | @more t n d _ hd ih =>
    obtain ⟨zeros, rfl⟩ := ih
    have hdigit : write d = [d.digitChar] := Nat.toDigits_of_lt_base hd
    rcases Nat.eq_zero_or_pos n with rfl | hn
    · -- The digit of a zero is one more zero in front.
      refine ⟨zeros + 1, ?_⟩
      rw [Nat.mul_zero, Nat.zero_add, hdigit, List.replicate_succ', write, Nat.toDigits_zero]
    · have hwrite : write n ++ write d = write (10 * n + d) := Nat.toDigits_append_toDigits (by decide) hn hd
      exact ⟨zeros, by rw [List.append_assoc, ← hdigit, hwrite]⟩

private theorem isTrimmed_of_spells (h : Spells t n) : t.IsTrimmed := by
  rw [← trim_of_denotes (denotes_iff_spells.mpr h)]
  exact Text.isTrimmed_trim t

/-- What spells a number between blanks is that number, padded. -/
theorem spells_trim_iff {text : Text} : Spells (Text.trim text) n ↔ IsPadded text n := by
  constructor
  · intro h
    obtain ⟨before, after, htext, hbefore, hafter⟩ := Text.exists_blanks_of_trim text
    generalize Text.trim text = t at h htext
    cases h with
    | plain h =>
      obtain ⟨zeros, rfl⟩ := h.exists_zeros
      exact ⟨before, [], after, zeros, htext, .inl rfl, hbefore, hafter⟩
    | signed h =>
      obtain ⟨zeros, rfl⟩ := h.exists_zeros
      exact ⟨before, ['+'], after, zeros, htext, .inr rfl, hbefore, hafter⟩
  · rintro ⟨before, sign, after, zeros, rfl, hsign, hbefore, hafter⟩
    have hspells : Spells (sign ++ (List.replicate zeros '0' ++ write n)) n := by
      rcases hsign with rfl | rfl
      · exact .plain (digits_of_zeros zeros n)
      · exact .signed (digits_of_zeros zeros n)
    rwa [Text.trim_of_blanks hbefore hafter (isTrimmed_of_spells hspells)]

end Numeral

namespace Lease

variable {text : Text} {d : Duration} {e : DescriptionError}

theorem isMaxAge_iff {secs : Nat} : IsMaxAge text secs ↔ secs ≤ 2 ^ 64 - 1 ∧ Numeral.Spells (Text.trim text) secs := by
  have hword : Numeral.maxWord64 = 2 ^ 64 - 1 := by decide
  rw [IsMaxAge, Numeral.denotes_iff_spells, hword, and_comm]

theorem readMaxAge_eq_ok_iff : readMaxAge text = .ok d ↔ ∃ secs, IsMaxAge text secs ∧ d = .ofSecs secs := by
  constructor
  · intro h
    by_cases hsome : ∃ secs, IsMaxAge text secs
    · obtain ⟨secs, hsecs⟩ := hsome
      exact ⟨secs, hsecs, Except.ok.inj (h.symm.trans (readMaxAge_of_isMaxAge hsecs))⟩
    · cases h.symm.trans (readMaxAge_of_forall_not (not_exists.mp hsome))
  · rintro ⟨secs, hsecs, rfl⟩
    exact readMaxAge_of_isMaxAge hsecs

theorem readMaxAge_eq_error_iff :
    readMaxAge text = .error e ↔ (∀ secs, ¬IsMaxAge text secs) ∧ e = .invalidMaxAge text := by
  constructor
  · intro h
    have hnone (secs : Nat) : ¬IsMaxAge text secs := fun hsecs => by cases h.symm.trans (readMaxAge_of_isMaxAge hsecs)
    exact ⟨hnone, Except.error.inj (h.symm.trans (readMaxAge_of_forall_not hnone))⟩
  · rintro ⟨hnone, rfl⟩
    exact readMaxAge_of_forall_not hnone

theorem readMaxAge_of_isPadded {n : Nat} (h : Numeral.IsPadded text n) :
    readMaxAge text = if n ≤ 2 ^ 64 - 1 then .ok (.ofSecs n) else .error (.invalidMaxAge text) := by
  have hspells := Numeral.spells_trim_iff.mpr h
  split
  · rename_i hle
    exact readMaxAge_of_isMaxAge (isMaxAge_iff.mpr ⟨hle, hspells⟩)
  · rename_i hlarge
    refine readMaxAge_of_forall_not fun secs hsecs => ?_
    obtain ⟨hle, hsecs⟩ := isMaxAge_iff.mp hsecs
    exact hlarge (Numeral.spells_unique hspells hsecs ▸ hle)

end Lease

namespace Field

variable {α : Type} {f : Field α} {c : DocumentContext} {base : Option Url}

def Bears (f : Field α) (c : DocumentContext) (t : Text) : Prop :=
  ∃ d x, c.pointer f.path = .ok d ∧ d.element? = some x ∧ x.directText = t

def refusal (f : Field α) : Extraction :=
  match f.policy with
  | .mandatory => .violation (.schemaViolation f.name)
  | .optional => .absent

/-- The field yields the number that its element spells, up to a bound, and refuses any other text. -/
structure ReadsNumbers [InternationalNames] (f : Field α) (bound : Nat) (c : DocumentContext) (base : Option Url) :
    Prop where
  value_iff : ∀ v, f.extract c base = .value v ↔
    ∃ n ≤ bound, v = .integer n ∧ ∃ t, f.Bears c t ∧ Numeral.Spells (Text.trim t) n
  refuses : (∀ n ≤ bound, ∀ t, f.Bears c t → ¬Numeral.Spells (Text.trim t) n) → f.extract c base = f.refusal
  reads_back : ∀ n t, f.Bears c t → Numeral.IsPadded t n →
    f.extract c base = if n ≤ bound then .value (.integer n) else f.refusal

theorem Bears.unique {s t : Text} (hs : f.Bears c s) (ht : f.Bears c t) : s = t := by
  obtain ⟨d, x, hd, hx, rfl⟩ := hs
  obtain ⟨d', x', hd', hx', rfl⟩ := ht
  cases hd.symm.trans hd'
  cases hx.symm.trans hx'
  rfl

private theorem exists_holds_iff {n : Nat} :
    (∃ t, f.Holds c t ∧ Numeral.Denotes t n) ↔ ∃ t, f.Bears c t ∧ Numeral.Spells (Text.trim t) n := by
  constructor
  · rintro ⟨_, ⟨hvalue, -⟩, hdenotes⟩
    obtain ⟨d, hd, rfl⟩ := DocumentContext.value_eq_ok_iff.mp hvalue
    obtain ⟨x, hx⟩ := DocumentContext.exists_element_of_pointer hd
    rw [DocumentContext.ownText, hx] at hdenotes
    exact ⟨_, ⟨d, x, hd, hx, rfl⟩, Numeral.denotes_iff_spells.mp hdenotes⟩
  · rintro ⟨_, ⟨d, x, hd, hx, rfl⟩, hspells⟩
    have htext : d.ownText = Text.trim x.directText := by
      rw [DocumentContext.ownText, hx]
      rfl
    exact ⟨_, ⟨DocumentContext.value_eq_ok_iff.mpr ⟨d, hd, htext⟩, Numeral.ne_nil_of_spells hspells⟩,
      Numeral.denotes_iff_spells.mpr hspells⟩

section Bounded
variable [InternationalNames] {bound : Nat} (hkind : f.kind.bound? = some bound)
include hkind

private theorem extract_eq_value_iff_spells {v : FieldValue} : f.extract c base = .value v ↔
    ∃ n ≤ bound, v = .integer n ∧ ∃ t, f.Bears c t ∧ Numeral.Spells (Text.trim t) n := by
  have hinteger (n : Nat) : f.extract c base = .value (.integer n) ↔
      n ≤ bound ∧ ∃ t, f.Bears c t ∧ Numeral.Spells (Text.trim t) n := by
    rw [extract_eq_integer_iff hkind, ← exists_holds_iff]
    exact ⟨fun ⟨t, h, hdenotes, hle⟩ => ⟨hle, t, h, hdenotes⟩, fun ⟨hle, t, h, hdenotes⟩ => ⟨t, h, hdenotes, hle⟩⟩
  constructor
  · intro h
    cases extract_eq_value_iff.mp h with
    | text _ hkind' => cases hkind' ▸ hkind
    | @number _ _ n _ _ _ _ =>
      obtain ⟨hle, hspells⟩ := (hinteger n).mp h
      exact ⟨n, hle, rfl, hspells⟩
    | url _ hkind' _ => cases hkind' ▸ hkind
  · rintro ⟨n, hle, rfl, hspells⟩
    exact (hinteger n).mpr ⟨hle, hspells⟩

/-- A field of numbers without a usable value is reported itself, whatever is wrong. -/
theorem extract_eq_refusal (hnone : ∀ v, f.extract c base ≠ .value v) : f.extract c base = f.refusal := by
  rcases yields_or_unusable f c base with ⟨v, hv⟩ | ⟨e, he⟩
  · exact absurd (extract_eq_value_iff.mpr hv) (hnone v)
  · have herror : e = .schemaViolation f.name := by
      cases he with
      | noPlace | blank | noNumber => rfl
      | unresolved _ hkind' _ => cases hkind' ▸ hkind
    rw [extract, he.read_eq, herror, refusal]
    cases f.policy <;> rfl

theorem readsNumbers_of_bound : f.ReadsNumbers bound c base where
  value_iff _ := extract_eq_value_iff_spells hkind
  refuses hnone := by
    refine extract_eq_refusal hkind fun v hv => ?_
    obtain ⟨n, hle, -, t, hbears, hspells⟩ := (extract_eq_value_iff_spells hkind).mp hv
    exact hnone n hle t hbears hspells
  reads_back n t hbears hpadded := by
    have hspells := Numeral.spells_trim_iff.mpr hpadded
    split
    · rename_i hle
      exact (extract_eq_value_iff_spells hkind).mpr ⟨n, hle, rfl, t, hbears, hspells⟩
    · rename_i hlarge
      refine extract_eq_refusal hkind fun v hv => ?_
      obtain ⟨m, hle, -, s, hs, hm⟩ := (extract_eq_value_iff_spells hkind).mp hv
      obtain rfl := hs.unique hbears
      exact hlarge (Numeral.spells_unique hspells hm ▸ hle)

end Bounded
end Field

/-- A text is read as a number of seconds exactly if a numeral within 64 bits stands between blanks, and the error holds
the text as it was given. Fields read the same numerals in the texts of their elements, within 64 or 32 bits. The texts
of a number are those that it is padded to, and each of them is read as the number if its word holds it. -/
theorem numbers_read_exactly [InternationalNames] {α : Type} (f : Field α) (c : DocumentContext) (base : Option Url) :
    (∀ text d, Lease.readMaxAge text = .ok d ↔
      ∃ n ≤ 2 ^ 64 - 1, Numeral.Spells (Text.trim text) n ∧ d = .ofSecs n) ∧
    (∀ text e, Lease.readMaxAge text = .error e ↔
      (∀ n ≤ 2 ^ 64 - 1, ¬Numeral.Spells (Text.trim text) n) ∧ e = .invalidMaxAge text) ∧
    (f.kind = .integer → f.ReadsNumbers (2 ^ 64 - 1) c base) ∧
    (f.kind = .integer32 → f.ReadsNumbers (2 ^ 32 - 1) c base) ∧
    (∀ text n, Numeral.Spells (Text.trim text) n ↔ Numeral.IsPadded text n) ∧
    (∀ text n, Numeral.IsPadded text n →
      Lease.readMaxAge text = if n ≤ 2 ^ 64 - 1 then .ok (.ofSecs n) else .error (.invalidMaxAge text)) ∧
    ∀ n, Numeral.IsPadded (Numeral.write n) n := by
  refine ⟨fun text d => ?_, fun text e => ?_, fun hkind => ?_, fun hkind => ?_, fun _ _ => Numeral.spells_trim_iff,
    fun _ _ => Lease.readMaxAge_of_isPadded, fun n => ?_⟩
  · simp only [Lease.readMaxAge_eq_ok_iff, Lease.isMaxAge_iff, and_assoc]
  · simp only [Lease.readMaxAge_eq_error_iff, Lease.isMaxAge_iff, not_and]
  · exact Field.readsNumbers_of_bound (by rw [hkind]; rfl)
  · exact Field.readsNumbers_of_bound (by rw [hkind]; rfl)
  · exact ⟨[], [], [], 0, by simp, .inl rfl, List.forall_mem_nil _, List.forall_mem_nil _⟩

open Sample InternationalNames in
/-- One more than a word of 32 bits, and the largest word of 64 bits. -/
theorem numbers_read_exactly_limits :
    Lease.readMaxAge " +0018446744073709551615\t" = .ok (.ofSecs 18446744073709551615) ∧
    Lease.readMaxAge "18446744073709551616" = .error (.invalidMaxAge "18446744073709551616") ∧
    labelField.Bears shelf " 4294967296\n" ∧
    (labelField.ofKind .integer).extract shelf none = .value (.integer 4294967296) ∧
    (labelField.ofKind .integer32).extract shelf none = .violation (.schemaViolation "label") := by
  have hbears : labelField.Bears shelf " 4294967296\n" := by
    refine ⟨⟨.element ⟨"label", some uri, [.text " 4294967296\n"]⟩, Namespaces.ofDeviceUri uri⟩, _, ?_, rfl, rfl⟩
    cbv
  have hlabel : Numeral.IsPadded " 4294967296\n" 4294967296 :=
    ⟨[' '], [], ['\n'], 0, by decide, .inl rfl, List.forall_mem_singleton.mpr rfl, List.forall_mem_singleton.mpr rfl⟩
  have hword : Numeral.IsPadded " +0018446744073709551615\t" 18446744073709551615 :=
    ⟨[' '], ['+'], ['\t'], 2, by decide, .inr rfl, List.forall_mem_singleton.mpr rfl,
      List.forall_mem_singleton.mpr rfl⟩
  have hlarge : Numeral.IsPadded "18446744073709551616" 18446744073709551616 :=
    ⟨[], [], [], 0, by decide, .inl rfl, List.forall_mem_nil _, List.forall_mem_nil _⟩
  obtain ⟨-, -, hinteger, -, -, hread, -⟩ := numbers_read_exactly (labelField.ofKind .integer) shelf none
  obtain ⟨-, -, -, hinteger32, -⟩ := numbers_read_exactly (labelField.ofKind .integer32) shelf none
  exact ⟨hread _ _ hword, hread _ _ hlarge, hbears, (hinteger rfl).reads_back _ _ hbears hlabel,
    (hinteger32 rfl).reads_back _ _ hbears hlabel⟩

end DeviceDescription
