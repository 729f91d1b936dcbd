import DeviceDescription.Proofs.StepGrammar

/-! # Steps to plain names -/
namespace DeviceDescription.PathStep

def IsPlainName (t : Text) : Prop := t ≠ [] ∧ ∀ c ∈ t, c.isAlphanum = true

instance (t : Text) : Decidable (IsPlainName t) :=
  decidable_of_iff ((!t.isEmpty && t.all Char.isAlphanum) = true) (by simp [IsPlainName])

variable {q name : Text}

theorem IsPlainName.notMem (hn : IsPlainName name) {c : Char} (hc : c.isAlphanum = false) : c ∉ name := by
  intro h
  simp [hn.2 c h] at hc

theorem IsPlainName.isTrimmed (hn : IsPlainName name) : name.IsTrimmed where
  head c hc := Text.isBlank_of_isAlphanum (hn.2 c (List.mem_of_mem_head? hc))
  last c hc := Text.isBlank_of_isAlphanum (hn.2 c (List.mem_of_mem_getLast? hc))

section Plain
variable (hq : IsPlainName q) (hn : IsPlainName name)
include hq hn

theorem writable_plain {position : Option Nat} (hposition : ∀ n ∈ position, 1 ≤ n ∧ n ≤ Numeral.maxWord64) :
    Writable ⟨some q, name, position⟩ where
  name_ne_nil := hn.1
  name_bracket := hn.notMem (by decide)
  name_last := hn.isTrimmed.last
  unqualified := by simp
  qualified := by
    rintro _ ⟨⟩
    exact ⟨hq.1, hq.notMem (by decide), hq.notMem (by decide), hq.isTrimmed.head⟩
  position := hposition

theorem read_text_first : read (text ⟨some q, name, none⟩) = .ok ⟨some q, name, none⟩ :=
  read_text_iff.mpr (writable_plain hq hn (by simp))

theorem read_text_nth {n : Nat} (h0 : 0 < n) :
    read (text ⟨some q, name, some n⟩) =
      if n ≤ Numeral.maxWord64 then .ok ⟨some q, name, some n⟩
      else .error (.invalidStep (text ⟨some q, name, some n⟩)) := by
  split
  · rename_i hword
    refine read_text_iff.mpr (writable_plain hq hn ?_)
    rintro _ ⟨⟩
    exact ⟨h0, hword⟩
  · rename_i hword
    -- The name can be written all the same, so the text has a single bracket and no blanks around it.
    have hplain : Writable ⟨some q, name, none⟩ := writable_plain hq hn (by simp)
    obtain ⟨-, hbracket, htrimmed, -⟩ := writable_iff.mp hplain
    have htext : text ⟨some q, name, some n⟩ = atPosition (fullName ⟨some q, name, none⟩) (Numeral.write n) :=
      text_eq_elim _
    have htrim : Text.trim (text ⟨some q, name, some n⟩) = text ⟨some q, name, some n⟩ := trim_text htrimmed
    have hnone : ofTrimmed? (text ⟨some q, name, some n⟩) = none := by
      rw [htext, ofTrimmed?_eq, splitPosition?_bracketed hbracket, bracketed?_write, if_neg fun h => hword h.2]
      rfl
    rw [read, htrim, hnone]

theorem slash_notMem_text (position : Option Nat) : '/' ∉ text ⟨some q, name, position⟩ := by
  have hqualifier : '/' ∉ q := hq.notMem (by decide)
  have hname : '/' ∉ name := hn.notMem (by decide)
  cases position with
  | none => simp [text, hqualifier, hname]
  | some n => simp [text, hqualifier, hname, Numeral.slash_notMem_of_denotes (Numeral.denotes_write n)]

end Plain
end DeviceDescription.PathStep
