import DeviceDescription.Proofs.AddressText
import DeviceDescription.Url

/-! # Written hosts are read back, wherever they stand -/
namespace DeviceDescription

namespace Text

theorem toLower_eq_self {c : Char} (h : c.isUpper = false) : c.toLower = c := by
  simp only [Char.isUpper, decide_eq_false_iff_not] at h
  rw [Char.toLower, dif_neg h]

@[simp] private theorem isUpper_toLower (c : Char) : c.toLower.isUpper = false := by
  simp only [Char.isUpper, decide_eq_false_iff_not, Char.toLower]
  split
  · rename_i h
    simp only [ge_iff_le, UInt32.le_iff_toNat_le, UInt32.toNat_add] at h ⊢
    simp at *
    omega
  · rename_i h
    exact h

theorem isLower_toLower {c : Char} (h : c.isUpper = true) : c.toLower.isLower = true := by
  simp only [Char.isUpper, decide_eq_true_eq] at h
  rw [Char.toLower, dif_pos h]
  simp only [Char.isLower, Bool.and_eq_true, decide_eq_true_eq, ge_iff_le, UInt32.le_iff_toNat_le,
    UInt32.toNat_add] at h ⊢
  simp at *
  omega

theorem isUpper_of_isDigit {c : Char} (h : c.isDigit = true) : c.isUpper = false := by
  simp only [Char.isDigit, Char.isUpper, Bool.and_eq_true, decide_eq_true_eq, decide_eq_false_iff_not, ge_iff_le,
    UInt32.le_iff_toNat_le] at *
  simp at *
  omega

@[simp] theorem map_toLower_map_toLower (t : Text) : (t.map Char.toLower).map Char.toLower = t.map Char.toLower := by
  rw [List.map_map]
  exact List.map_congr_left fun c _ => toLower_eq_self (isUpper_toLower c)

theorem map_toLower_eq_self {t : Text} (h : ∀ c ∈ t, c.isUpper = false) : t.map Char.toLower = t :=
  (List.map_congr_left fun c hc => toLower_eq_self (h c hc)).trans (List.map_id t)

end Text

namespace PercentEncoding

private theorem hexDigit_isAlphanum {n : Nat} (h : n < 16) : (hexDigit n).isAlphanum = true :=
  (by decide : ∀ n < 16, (hexDigit n).isAlphanum = true) n h

theorem escape_ne_nil (c : Char) : escape c ≠ [] := by
  cases h : String.utf8EncodeChar c with
  | nil => exact absurd h String.utf8EncodeChar_ne_nil
  | cons b r => simp [escape, h, escapeByte]

private theorem mem_escape {c x : Char} (h : x ∈ escape c) : x = '%' ∨ x.isAlphanum = true := by
  obtain ⟨b, -, hx⟩ := List.mem_flatMap.mp h
  have hb := b.toNat_lt
  simp only [escapeByte, List.mem_cons, List.not_mem_nil, or_false] at hx
  rcases hx with rfl | rfl | rfl
  · exact .inl rfl
  · exact .inr (hexDigit_isAlphanum (by omega))
  · exact .inr (hexDigit_isAlphanum (by omega))

theorem mem_encode {set : Char → Bool} {t : Text} {x : Char} (h : x ∈ encode set t) :
    x ∈ t ∧ set x = false ∨ x = '%' ∨ x.isAlphanum = true := by
  obtain ⟨c, hc, hx⟩ := List.mem_flatMap.mp h
  split at hx
  · exact .inr (mem_escape hx)
  · rename_i hset
    rw [List.mem_singleton.mp hx]
    exact .inl ⟨hc, by simpa using hset⟩

/-- What was encoded is not encoded again. -/
theorem eq_false_of_mem_encode {set : Char → Bool} (hpercent : set '%' = false)
    (halpha : ∀ c, c.isAlphanum = true → set c = false) {t : Text} {c : Char} (hc : c ∈ encode set t) :
    set c = false := by
  rcases mem_encode hc with ⟨-, hset⟩ | rfl | hc
  · exact hset
  · exact hpercent
  · exact halpha c hc

theorem encode_ne_nil {set : Char → Bool} {t : Text} (h : t ≠ []) : encode set t ≠ [] := by
  cases t with
  | nil => exact absurd rfl h
  | cons c r =>
    rw [encode, List.flatMap_cons]
    split
    · simp [escape_ne_nil]
    · simp

end PercentEncoding

namespace Host

open PercentEncoding

/-- No such character ends a host, is dropped from a URL or has to be escaped in it. -/
def isWritten (c : Char) : Bool :=
  ' ' < c && c ≤ '~' && c ≠ '/' && c ≠ '\\' && c ≠ '?' && c ≠ '#' && c ≠ '@' && c ≠ '|'

/-- Nor does such a character begin a port or an address in brackets. -/
def isNameChar (c : Char) : Bool := isWritten c && c ≠ ':' && c ≠ '['

theorem isWritten_of_isNameChar {c : Char} (h : isNameChar c = true) : isWritten c = true := by
  simp only [isNameChar, Bool.and_eq_true] at h
  exact h.1.1

theorem isForbiddenInDomain_of_isAlphanum {c : Char} (h : c.isAlphanum = true) : isForbiddenInDomain c = false :=
  Text.eq_false_of_isAlphanum isForbiddenInDomain (by decide) h

theorem isForbiddenInHost_of_isAlphanum {c : Char} (h : c.isAlphanum = true) :
    isForbiddenInHost c = false ∧ inControlSet c = false :=
  ⟨Text.eq_false_of_isAlphanum isForbiddenInHost (by decide) h,
    Text.eq_false_of_isAlphanum inControlSet (by decide) h⟩

theorem isNameChar_of_domain {c : Char} (h : isForbiddenInDomain c = false) :
    isNameChar c = true ∧ c ≠ '%' ∧ c.toNat < 128 := by
  simp only [isForbiddenInDomain, isNameChar, isWritten, Bool.or_eq_false_iff, decide_eq_false_iff_not,
    Bool.and_eq_true, decide_eq_true_eq, ne_eq, Char.not_le, Char.not_lt] at *
  have hc : c ≤ '~' := by simp only [h]
  have hlt : c.toNat < 128 := Nat.lt_of_le_of_lt (Char.le_def.mp hc) (by decide)
  simp only [h, hlt, not_false_eq_true, and_self]

theorem isNameChar_of_host {c : Char} (h : isForbiddenInHost c = false) (hc : inControlSet c = false) :
    isNameChar c = true := by
  simp only [isForbiddenInHost, inControlSet, isNameChar, isWritten, Bool.or_eq_false_iff, decide_eq_false_iff_not,
    Bool.and_eq_true, decide_eq_true_eq, ne_eq, Char.not_lt] at *
  have hne : c ≠ ' ' := by simp only [h, ne_eq, not_false_eq_true]
  have hlt : ' ' < c := Char.not_le.mp fun hle => hne (Char.le_antisymm hle hc.1)
  simp only [h, hc, hlt, not_false_eq_true, and_self]

end Host

namespace Authority

/-- What may follow a host: nothing, or a port after its colon. -/
def BeginsPort (t : Text) : Prop := ∀ c ∈ t.head?, c = ':'

theorem beginsPort_nil : BeginsPort [] := by
  intro c hc
  cases hc

theorem beginsPort_colon (t : Text) : BeginsPort (':' :: t) := by
  intro c hc
  exact (Option.some.inj hc).symm

private theorem spanHost_of_beginsPort {rest : Text} (h : BeginsPort rest) : spanHost false rest = ([], rest) := by
  cases rest with
  | nil => rfl
  | cons c r =>
    rw [h c rfl, spanHost, if_pos ⟨rfl, rfl⟩]

private theorem spanHost_name {t rest : Text} (ht : ∀ c ∈ t, Host.isNameChar c = true) (h : BeginsPort rest) :
    spanHost false (t ++ rest) = (t, rest) := by
  induction t with
  | nil => exact spanHost_of_beginsPort h
  | cons c r ih =>
    have hr := ih fun d hd => ht d (List.mem_cons_of_mem _ hd)
    have hc := ht c List.mem_cons_self
    simp only [Host.isNameChar, Bool.and_eq_true, decide_eq_true_eq, ne_eq] at hc
    simp [spanHost, hc.1.2, hc.2, hr]

private theorem spanHost_inBrackets {t rest : Text} (ht : ∀ c ∈ t, c ≠ '[' ∧ c ≠ ']') (h : BeginsPort rest) :
    spanHost true (t ++ ']' :: rest) = (t ++ [']'], rest) := by
  induction t with
  | nil => simp [spanHost, spanHost_of_beginsPort h]
  | cons c r ih =>
    have hr := ih fun d hd => ht d (List.mem_cons_of_mem _ hd)
    obtain ⟨ho, hc⟩ := ht c List.mem_cons_self
    simp [spanHost, ho, hc, hr]

end Authority

namespace Host

open Authority PercentEncoding

@[simp]
private theorem bracketed_ipv6Text (address : Ipv6) : bracketed (ipv6Text address ++ [']']) = .ok (.ipv6 address) := by
  rw [bracketed, List.getLast?_concat, List.dropLast_concat, ipv6?_ipv6Text]
  rfl

theorem exists_ipv6_of_bracketed {t : Text} {h : Host} (hb : bracketed t = .ok h) : ∃ a, h = .ipv6 a := by
  unfold bracketed at hb
  split at hb
  · split at hb
    · exact ⟨_, (Except.ok.inj hb).symm⟩
    · cases hb
  · cases hb

theorem exists_ipv4_of_ipv4? {t : Text} {h : Host} (hi : ipv4? t = some h) : ∃ a b c d, h = .ipv4 a b c d := by
  obtain ⟨numbers, -, hi⟩ := Option.bind_eq_some_iff.mp hi
  obtain ⟨bytes, -, hi⟩ := Option.bind_eq_some_iff.mp hi
  split at hi
  · exact ⟨_, _, _, _, (Option.some.inj hi).symm⟩
  · cases hi

@[simp]
private theorem isPlainDomain_map_toLower (t : Text) : isPlainDomain (t.map Char.toLower) = isPlainDomain t := by
  simp only [isPlainDomain, Text.map_toLower_map_toLower]

private theorem isForbiddenInDomain_of_mem_ipv4Text {a b c d : UInt8} {x : Char} (h : x ∈ ipv4Text a b c d) :
    isForbiddenInDomain x = false := by
  rcases mem_ipv4Text a b c d h with h | rfl
  · exact isForbiddenInDomain_of_isAlphanum (by simp [Char.isAlphanum, h])
  · decide

@[simp] private theorem map_toLower_ipv4Text (a b c d : UInt8) :
    (ipv4Text a b c d).map Char.toLower = ipv4Text a b c d := by
  apply Text.map_toLower_eq_self
  intro x hx
  rcases mem_ipv4Text a b c d hx with h | rfl
  · exact Text.isUpper_of_isDigit h
  · decide

@[simp] private theorem isPlainDomain_ipv4Text (a b c d : UInt8) : isPlainDomain (ipv4Text a b c d) = true := by
  have hdigits (n : Nat) : ['x', 'n', '-', '-'].isPrefixOf (Numeral.write n) = false := by
    obtain ⟨x, r, hx⟩ := List.exists_cons_of_ne_nil (Numeral.write_ne_nil n)
    have hdigit : x.isDigit = true := Numeral.isDigit_of_mem_write (hx ▸ List.mem_cons_self)
    have hne : 'x' ≠ x := by
      rintro rfl
      exact absurd hdigit (by decide)
    simp [hx, List.isPrefixOf, hne]
  have hascii : ∀ x ∈ ipv4Text a b c d, x.toNat < 128 := fun x hx =>
    (isNameChar_of_domain (isForbiddenInDomain_of_mem_ipv4Text hx)).2.2
  rw [isPlainDomain, map_toLower_ipv4Text, splitOn_ipv4Text]
  simpa [hdigits] using hascii

variable [InternationalNames]

/-- A host that is found and read again where its text stands. -/
structure Settled (special : Bool) (h : Host) : Prop where
  reads : readHost special h.text = .ok (some h)
  written : ∀ c ∈ h.text, isWritten c = true
  nonempty : h.text ≠ []
  spans : ∀ rest, BeginsPort rest → spanHost false (h.text ++ rest) = (h.text, rest)

theorem settled_of_name {special : Bool} {h : Host} (hr : readHost special h.text = .ok (some h))
    (hc : ∀ c ∈ h.text, isNameChar c = true) (hn : h.text ≠ []) : Settled special h where
  reads := hr
  written c h := isWritten_of_isNameChar (hc c h)
  nonempty := hn
  spans _ h := spanHost_name hc h

theorem settled_ipv6 (special : Bool) (address : Ipv6) : Settled special (.ipv6 address) := by
  have hchars : ∀ c ∈ ipv6Text address, c.isAlphanum = true ∨ c = ':' := fun c hc => mem_ipv6Text hc
  refine ⟨?_, ?_, ?_, ?_⟩
  · cases special with
    | true => simp [readHost, text, ofDomain, bracketed_ipv6Text, Except.map]
    | false => simp [readHost, text, ofUninterpreted, bracketed_ipv6Text, Except.map]
  · intro c hc
    simp only [text, List.cons_append, List.mem_cons, List.mem_append, List.not_mem_nil, or_false] at hc
    rcases hc with rfl | hc | rfl
    · decide
    · rcases hchars c hc with h | rfl
      · exact isWritten_of_isNameChar (isNameChar_of_domain (isForbiddenInDomain_of_isAlphanum h)).1
      · decide
    · decide
  · simp [text]
  · intro rest hrest
    have hin : ∀ c ∈ ipv6Text address, c ≠ '[' ∧ c ≠ ']' := by
      intro c hc
      rcases hchars c hc with h | rfl
      · exact ⟨Text.ne_of_isAlphanum h (by decide), Text.ne_of_isAlphanum h (by decide)⟩
      · decide
    have hspan := spanHost_inBrackets hin hrest
    simp [text, spanHost, hspan]

theorem asciiDomain?_of_isPlainDomain {t : Text} (hp : isPlainDomain t = true) (hl : t.map Char.toLower = t)
    (hc : ∀ c ∈ t, isForbiddenInDomain c = false) : asciiDomain? t = some t := by
  have hany : t.any isForbiddenInDomain = false := by
    rw [List.any_eq_false]
    intro c h
    simp [hc c h]
  simp [asciiDomain?, hp, hl, hany]

/-- A form in ASCII is permitted in hosts, and it is the form of itself. -/
theorem asciiDomain?_spec {t domain : Text} (h : asciiDomain? t = some domain) :
    (∀ c ∈ domain, isForbiddenInDomain c = false) ∧ asciiDomain? domain = some domain := by
  rw [asciiDomain?] at h
  split at h
  · rename_i hplain
    simp only at h
    split at h
    · cases h
    · rename_i hany
      cases h
      have hc : ∀ c ∈ t.map Char.toLower, isForbiddenInDomain c = false := by simpa using hany
      refine ⟨hc, asciiDomain?_of_isPlainDomain ?_ (Text.map_toLower_map_toLower t) hc⟩
      rw [isPlainDomain_map_toLower, hplain]
  · have hc := InternationalNames.permitted h
    refine ⟨hc, ?_⟩
    cases hplain : isPlainDomain domain with
    | true => exact asciiDomain?_of_isPlainDomain hplain (InternationalNames.lowerCase h) hc
    | false =>
      rw [asciiDomain?, hplain]
      exact InternationalNames.fixed h hplain

/-- A domain that is the form of itself is read as it stands. -/
theorem ofDomain_eq {t : Text} (hn : t ≠ []) (hself : asciiDomain? t = some t)
    (hc : ∀ c ∈ t, isForbiddenInDomain c = false) :
    ofDomain t = if endsInNumber t then (ipv4? t).elim (.error .invalidIpv4) .ok else .ok (.name t) := by
  have hd : decode? t = some t := decode?_of_notMem fun h => absurd (hc _ h) (by decide)
  unfold ofDomain
  split
  · rename_i r
    have hb := hc '[' List.mem_cons_self
    exact absurd hb (by decide)
  · simp only [hd, Option.bind_some, hself, hn, if_false]
    cases ipv4? t <;> rfl

theorem settled_ipv4 (a b c d : UInt8) : Settled true (.ipv4 a b c d) := by
  have hf : ∀ x ∈ ipv4Text a b c d, isForbiddenInDomain x = false := fun x => isForbiddenInDomain_of_mem_ipv4Text
  have hn : ipv4Text a b c d ≠ [] := by simp [ipv4Text]
  have hself := asciiDomain?_of_isPlainDomain (isPlainDomain_ipv4Text a b c d) (map_toLower_ipv4Text a b c d) hf
  apply settled_of_name
  · rw [text, readHost, if_pos rfl, if_neg hn, ofDomain_eq hn hself hf, endsInNumber_ipv4Text, ipv4?_ipv4Text]
    rfl
  · exact fun x hx => (isNameChar_of_domain (hf x hx)).1
  · exact hn

theorem settled_domain {t : Text} (hn : t ≠ []) (hself : asciiDomain? t = some t)
    (hc : ∀ c ∈ t, isForbiddenInDomain c = false) (he : endsInNumber t = false) : Settled true (.name t) := by
  apply settled_of_name
  · rw [text, readHost, if_pos rfl, if_neg hn, ofDomain_eq hn hself hc, he]
    rfl
  · exact fun c h => (isNameChar_of_domain (hc c h)).1
  · exact hn

theorem settled_uninterpreted {t : Text} (hn : t ≠ []) (hc : ∀ c ∈ t, isForbiddenInHost c = false) :
    Settled false (.name (encode inControlSet t)) := by
  have hplain : ∀ c ∈ encode inControlSet t, isForbiddenInHost c = false ∧ inControlSet c = false := by
    intro c h
    rcases mem_encode h with ⟨hm, hs⟩ | rfl | ha
    · exact ⟨hc c hm, hs⟩
    · decide
    · exact isForbiddenInHost_of_isAlphanum ha
  have hany : (encode inControlSet t).any isForbiddenInHost = false := by
    rw [List.any_eq_false]
    intro c h
    simp [(hplain c h).1]
  have hn' : encode inControlSet t ≠ [] := encode_ne_nil hn
  apply settled_of_name
  · rw [text, readHost, if_neg (by decide)]
    unfold ofUninterpreted
    split
    · contradiction
    · rename_i r hr
      rw [hr] at hplain
      exact absurd (hplain '[' List.mem_cons_self).1 (by decide)
    · rw [hany, encode_eq_self fun c h => (hplain c h).2]
      rfl
  · exact fun c h => isNameChar_of_host (hplain c h).1 (hplain c h).2
  · exact hn'

theorem settled_of_ofDomain {t : Text} {h : Host} (ho : ofDomain t = .ok h) : Settled true h := by
  unfold ofDomain at ho
  split at ho
  · obtain ⟨a, rfl⟩ := exists_ipv6_of_bracketed ho
    exact settled_ipv6 true a
  · split at ho
    · cases ho
    · rename_i domain hdomain
      obtain ⟨_, -, hdomain⟩ := Option.bind_eq_some_iff.mp hdomain
      obtain ⟨hc, hself⟩ := asciiDomain?_spec hdomain
      split at ho
      · cases ho
      · rename_i hn
        split at ho
        · split at ho
          · rename_i hi
            cases ho
            obtain ⟨a, b, c, d, rfl⟩ := exists_ipv4_of_ipv4? hi
            exact settled_ipv4 a b c d
          · cases ho
        · rename_i he
          cases ho
          exact settled_domain hn hself hc (by simpa using he)

/-- Whatever is read as a host is read back from its written form. -/
theorem settled_of_readHost {special : Bool} {t : Text} {h : Host} (hr : readHost special t = .ok (some h)) :
    Settled special h := by
  unfold readHost at hr
  split at hr
  · rename_i hs
    subst hs
    split at hr
    · cases hr
    · cases ho : ofDomain t with
      | error e => simp [ho, Except.map] at hr
      | ok g =>
        rw [ho] at hr
        cases hr
        exact settled_of_ofDomain ho
  · rename_i hs
    obtain rfl := Bool.not_eq_true special |>.mp hs
    unfold ofUninterpreted at hr
    split at hr
    · cases hr
    · rename_i r
      cases hb : bracketed r with
      | error e => simp [hb, Except.map] at hr
      | ok g =>
        rw [hb] at hr
        cases hr
        obtain ⟨a, rfl⟩ := exists_ipv6_of_bracketed hb
        exact settled_ipv6 false a
    · rename_i hn _
      split at hr
      · cases hr
      · rename_i hany
        cases hr
        exact settled_uninterpreted hn (by simpa using hany)

end Host
end DeviceDescription
