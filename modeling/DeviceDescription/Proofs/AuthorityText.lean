import DeviceDescription.Proofs.HostText
import DeviceDescription.Proofs.Traversal

/-!
# Written authorities are read back

An authority that was read is found again in its written form: its credentials hold neither colons nor at
signs, its host is settled, and its port has no more than 16 bits.
-/
namespace DeviceDescription

theorem Text.span_append {p : Char → Bool} {t rest : Text} (ht : ∀ c ∈ t, p c = true)
    (hr : ∀ c ∈ rest.head?, p c = false) : (t ++ rest).span p = (t, rest) := by
  have hrest : rest.takeWhile p = [] ∧ rest.dropWhile p = rest := by
    cases rest with
    | nil => exact ⟨rfl, rfl⟩
    | cons c r => simp [hr c rfl]
  rw [List.span_eq_takeWhile_dropWhile, List.takeWhile_append_of_pos ht, List.dropWhile_append_of_pos ht, hrest.1,
    hrest.2, List.append_nil]

namespace Authority

open PercentEncoding

structure Settled [InternationalNames] (scheme : Text) (a : Authority) (h : Host) : Prop where
  username : ∀ c ∈ a.username, inUserinfoSet c = false
  password : ∀ c ∈ a.password, inUserinfoSet c = false
  host : a.host = some h
  settled : h.Settled (SchemeKind.ofScheme scheme).isSpecial
  port : ∀ p ∈ a.port, p ≤ 65535

def keptPort (scheme : Text) (port : Option Nat) : Option Nat := port.filter (defaultPort scheme ≠ some ·)

theorem readPort_write (scheme : Text) {p : Nat} (h : p ≤ 65535) :
    readPort scheme (Numeral.write p) = .ok (keptPort scheme (some p), []) := by
  have hspan : (Numeral.write p).span Char.isDigit = (Numeral.write p, []) := by
    have hall : ∀ c ∈ Numeral.write p, c.isDigit = true := fun c hc => Numeral.isDigit_of_mem_write hc
    have hnil : ∀ c ∈ ([] : Text).head?, c.isDigit = false := by simp
    have h := Text.span_append hall hnil
    rwa [List.append_nil] at h
  have hn : Nat.ofDigitChars 10 (Numeral.write p) 0 = p := Nat.ofDigitChars_ten_toDigits
  rw [readPort, hspan]
  simp only [hn, Numeral.write_ne_nil, false_or, keptPort, Option.filter_some, ne_eq, decide_not]
  rw [if_neg (Nat.not_lt.mpr h)]
  by_cases hd : defaultPort scheme = some p <;> simp [hd]

theorem readPort_eq_ok {scheme t rest : Text} {port : Option Nat} (h : readPort scheme t = .ok (port, rest)) :
    ∀ p ∈ port, p ≤ 65535 ∧ defaultPort scheme ≠ some p := by
  intro p hp
  simp only [readPort] at h
  split at h
  · cases h
  · rename_i hle
    split at h
    all_goals first
      | cases h; done
      | skip
    all_goals
      obtain ⟨hport, -⟩ := Prod.mk.inj (Except.ok.inj h)
      split at hport
      · rw [← hport] at hp
        cases hp
      · rename_i hd
        rw [← hport] at hp
        obtain rfl := Option.some.inj hp
        exact ⟨Nat.not_lt.mp hle, fun e => hd (.inr e)⟩

def isTextChar (c : Char) : Bool := Host.isWritten c || c = '@'

theorem of_inUserinfoSet {c : Char} (h : inUserinfoSet c = false) : isTextChar c = true ∧ c ≠ ':' ∧ c ≠ '@' := by
  simp only [inUserinfoSet, inPathSet, inFragmentSet, inControlSet, isTextChar, Host.isWritten, Bool.or_eq_false_iff,
    decide_eq_false_iff_not, Bool.and_eq_true, Bool.or_eq_true, decide_eq_true_eq, ne_eq, Char.not_lt] at *
  have hlow : ' ' ≤ c := by simp only [h]
  have hne : c ≠ ' ' := by simp only [h, ne_eq, not_false_eq_true]
  have hlt : ' ' < c := Char.not_le.mp fun hle => hne (Char.le_antisymm hle hlow)
  simp only [h, hlt, not_false_eq_true, and_self, true_or]

private theorem inUserinfoSet_of_isAlphanum {c : Char} (h : c.isAlphanum = true) : inUserinfoSet c = false :=
  Text.eq_false_of_isAlphanum inUserinfoSet (by decide) h

theorem inUserinfoSet_of_mem_encode {t : Text} {c : Char} (h : c ∈ encode inUserinfoSet t) :
    inUserinfoSet c = false :=
  eq_false_of_mem_encode (by decide) (fun _ => inUserinfoSet_of_isAlphanum) h

private theorem beginsPort_portText (a : Authority) : BeginsPort a.portText := by
  rw [portText]
  cases a.port with
  | none => exact beginsPort_nil
  | some p => exact beginsPort_colon _

section Settled
variable [InternationalNames] {scheme : Text} {a : Authority} {h : Host} (ha : a.Settled scheme h)
include ha

theorem hostText_eq : a.hostText = h.text := by rw [hostText, ha.host, Option.elim_some]

private theorem isWritten_of_mem_place {c : Char} (hc : c ∈ a.hostText ++ a.portText) : Host.isWritten c = true := by
  rcases List.mem_append.mp hc with hc | hc
  · rw [hostText_eq ha] at hc
    exact ha.settled.written c hc
  · rw [portText] at hc
    cases hp : a.port with
    | none =>
      rw [hp] at hc
      cases hc
    | some p =>
      rw [hp] at hc
      rcases List.mem_cons.mp hc with rfl | hc
      · decide
      · exact Host.isWritten_of_isNameChar (Host.isNameChar_of_domain
          (Host.isForbiddenInDomain_of_isAlphanum (Numeral.isAlphanum_of_mem_write hc))).1

private theorem at_notMem_place : '@' ∉ a.hostText ++ a.portText := by
  intro hc
  exact absurd (isWritten_of_mem_place ha hc) (by decide)

theorem splitCredentials_text : splitCredentials a.text = (a.username, a.password, a.hostText ++ a.portText) := by
  have hplace := at_notMem_place ha
  have huser : ':' ∉ a.username := fun hc => (of_inUserinfoSet (ha.username _ hc)).2.1 rfl
  rw [text, List.append_assoc, credentials]
  by_cases he : a.username = [] ∧ a.password = []
  · simp [splitCredentials, he.1, he.2, Text.cutLast_eq_none_iff.mpr hplace]
  · rw [if_neg he]
    by_cases hp : a.password = []
    · rw [if_pos hp, List.append_nil, List.append_assoc, List.singleton_append, splitCredentials,
        Text.cutLast_append _ hplace]
      simp [Text.cut_eq_none_iff.mpr huser, hp]
    · rw [if_neg hp, List.append_assoc, List.singleton_append, splitCredentials, Text.cutLast_append _ hplace]
      simp [Text.cut_append _ huser]

private theorem text_ne_at : a.text ≠ ['@'] := by
  intro h
  have hsplit := splitCredentials_text ha
  have hplace : a.hostText ++ a.portText ≠ [] := by
    rw [hostText_eq ha]
    exact fun e => ha.settled.nonempty (List.append_eq_nil_iff.mp e).1
  rw [h] at hsplit
  exact hplace (Prod.mk.inj (Prod.mk.inj hsplit).2).2.symm

/-- The written form is read as the authority, whatever follows it in the URL. -/
theorem read_text (isLast : Bool) :
    read scheme isLast a.text = .ok ({ a with port := keptPort scheme a.port }, []) := by
  have hspan := ha.settled.spans _ (beginsPort_portText a)
  rw [← hostText_eq ha] at hspan
  have hhost := ha.settled.reads
  rw [← hostText_eq ha] at hhost
  have hat : ¬(a.text = "@" ∧ isLast = false) := fun h => text_ne_at ha h.1
  have huser : encode inUserinfoSet a.username = a.username := encode_eq_self ha.username
  have hpass : encode inUserinfoSet a.password = a.password := encode_eq_self ha.password
  simp only [read, splitCredentials_text ha, if_neg hat, hspan, hhost, huser, hpass]
  rw [portText]
  cases hp : a.port with
  | none =>
    obtain ⟨username, password, host, port⟩ := a
    have hh : host = some h := ha.host
    subst hp hh
    simp [Except.bind, bind, keptPort]
  | some p =>
    have hw := readPort_write scheme (ha.port p hp)
    obtain ⟨username, password, host, port⟩ := a
    have hh : host = some h := ha.host
    subst hp hh
    simp [Except.bind, bind, hw]

theorem isTextChar_of_mem_text {c : Char} (hc : c ∈ a.text) : isTextChar c = true := by
  rw [text, List.append_assoc] at hc
  rcases List.mem_append.mp hc with hc | hc
  · rw [credentials] at hc
    split at hc
    · cases hc
    · rcases List.mem_append.mp hc with hc | hc
      · rcases List.mem_append.mp hc with hc | hc
        · exact (of_inUserinfoSet (ha.username c hc)).1
        · split at hc
          · cases hc
          · rcases List.mem_cons.mp hc with rfl | hc
            · decide
            · exact (of_inUserinfoSet (ha.password c hc)).1
      · rw [List.mem_singleton.mp hc]
        decide
  · rw [isTextChar, isWritten_of_mem_place ha hc, Bool.true_or]

theorem text_ne_nil : a.text ≠ [] := by
  intro he
  have hsplit := splitCredentials_text ha
  rw [he, hostText_eq ha] at hsplit
  have hplace : [] = h.text ++ a.portText := (Prod.mk.inj (Prod.mk.inj hsplit).2).2
  exact ha.settled.nonempty (List.append_eq_nil_iff.mp hplace.symm).1

end Settled

private theorem keptPort_eq_self {scheme : Text} {port : Option Nat} (h : ∀ p ∈ port, defaultPort scheme ≠ some p) :
    keptPort scheme port = port := by
  cases port with
  | none => rfl
  | some p => simp [keptPort, Option.filter_some, h p rfl]

theorem settled_of_read [InternationalNames] {scheme t rest : Text} {isLast : Bool} {a : Authority} {h : Host}
    (hr : read scheme isLast t = .ok (a, rest)) (hh : a.host = some h) :
    a.Settled scheme h ∧ keptPort scheme a.port = a.port := by
  simp only [read] at hr
  split at hr
  · cases hr
  · obtain ⟨host, hhost, hr⟩ := Traversal.bind_eq_ok hr
    split at hr
    · split at hr
      · cases hr
      · cases hr
        cases hh
        refine ⟨⟨?_, ?_, rfl, Host.settled_of_readHost hhost, by simp⟩, rfl⟩
        · exact fun c hc => inUserinfoSet_of_mem_encode hc
        · exact fun c hc => inUserinfoSet_of_mem_encode hc
    · split at hr
      · cases hr
      · obtain ⟨⟨port, rest'⟩, hport, hr⟩ := Traversal.bind_eq_ok hr
        cases hr
        cases hh
        have hp := readPort_eq_ok hport
        refine ⟨⟨?_, ?_, rfl, Host.settled_of_readHost hhost, fun p h => (hp p h).1⟩,
          keptPort_eq_self fun p h => (hp p h).2⟩
        · exact fun c hc => inUserinfoSet_of_mem_encode hc
        · exact fun c hc => inUserinfoSet_of_mem_encode hc

end Authority
end DeviceDescription
