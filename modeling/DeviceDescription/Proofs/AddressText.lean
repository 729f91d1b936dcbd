import DeviceDescription.HostAddress
import DeviceDescription.Proofs.NumeralText

/-! # Written addresses are read back -/
namespace DeviceDescription.Host

open PercentEncoding

private theorem hexValue?_digitChar {n : Nat} (h : n < 16) : hexValue? n.digitChar = some n :=
  (by decide : ∀ n < 16, hexValue? (Nat.digitChar n) = some n) n h

private theorem digitChar_ne_zero {n : Nat} (h : n < 10) (hn : 0 < n) : n.digitChar ≠ '0' :=
  (by decide : ∀ n < 10, 0 < n → Nat.digitChar n ≠ '0') n h hn

private theorem radixDigits_concat (b : Nat) (t : Text) {c : Char} {v n : Nat} (hv : hexValue? c = some v) (hb : v < b)
    (h : radixDigits b t = some n) : radixDigits b (t ++ [c]) = some (b * n + v) := by
  rw [radixDigits] at h
  rw [radixDigits, List.foldl_append, h]
  simp [hv, hb]

/-- By induction on the number of digits. -/
theorem radixDigits_toDigits {b : Nat} (h₁ : 1 < b) (h₂ : b ≤ 16) (n : Nat) :
    radixDigits b (Nat.toDigits b n) = some n := by
  induction n using Nat.strongRecOn with
  | ind n ih =>
    rw [Nat.toDigits_eq_if h₁]
    split
    · rename_i hn
      have h := radixDigits_concat b [] (hexValue?_digitChar (Nat.lt_of_lt_of_le hn h₂)) hn rfl
      simpa using h
    · have hd := ih (n / b) (Nat.div_lt_self (by omega) h₁)
      have hm := Nat.mod_lt n (Nat.zero_lt_of_lt h₁)
      rw [radixDigits_concat b _ (hexValue?_digitChar (Nat.lt_of_lt_of_le hm h₂)) hm hd, Nat.div_add_mod]

private theorem head_write_ne_zero {n : Nat} (hn : 0 < n) : ∃ c r, Numeral.write n = c :: r ∧ c ≠ '0' := by
  induction n using Nat.strongRecOn with
  | ind n ih =>
    rw [Numeral.write, Nat.toDigits_eq_if (by decide)]
    split
    · rename_i h
      exact ⟨_, _, rfl, digitChar_ne_zero h hn⟩
    · obtain ⟨c, r, h, hc⟩ := ih (n / 10) (by omega) (by omega)
      rw [Numeral.write] at h
      exact ⟨c, _, by rw [h, List.cons_append], hc⟩

@[simp] private theorem ipv4Part?_write (n : Nat) : ipv4Part? (Numeral.write n) = some n := by
  rcases Nat.eq_zero_or_pos n with rfl | hn
  · rfl
  · obtain ⟨c, r, h, hc⟩ := head_write_ne_zero hn
    have hd : radixDigits 10 (c :: r) = some n := h ▸ radixDigits_toDigits (by decide) (by decide) n
    rw [h]
    unfold ipv4Part?
    split <;> simp_all

private theorem dot_notMem_write (n : Nat) : '.' ∉ Numeral.write n := by
  intro h
  exact absurd (Numeral.isDigit_of_mem_write h) (by decide)

variable (a b c d : UInt8)

theorem splitOn_ipv4Text : (ipv4Text a b c d).splitOn '.' =
    [Numeral.write a.toNat, Numeral.write b.toNat, Numeral.write c.toNat, Numeral.write d.toNat] := by
  simp only [ipv4Text, List.append_assoc, List.cons_append,
    List.splitOn_append_cons_self_of_not_mem (dot_notMem_write _), List.splitOn_eq_singleton (dot_notMem_write _)]

private theorem dotParts_ipv4Text : dotParts (ipv4Text a b c d) =
    [Numeral.write a.toNat, Numeral.write b.toNat, Numeral.write c.toNat, Numeral.write d.toNat] := by
  rw [dotParts, splitOn_ipv4Text]
  simp [Numeral.write_ne_nil]

@[simp] theorem endsInNumber_ipv4Text : endsInNumber (ipv4Text a b c d) = true := by
  have h := Numeral.isDigits_write d.toNat
  rw [Numeral.isDigits] at h
  rw [endsInNumber, dotParts_ipv4Text]
  simp only [List.getLast?_cons_cons, List.getLast?_singleton, h, Bool.true_or]

@[simp] theorem ipv4?_ipv4Text : ipv4? (ipv4Text a b c d) = some (.ipv4 a b c d) := by
  have hm : (dotParts (ipv4Text a b c d)).mapM ipv4Part? = some [a.toNat, b.toNat, c.toNat, d.toNat] := by
    rw [dotParts_ipv4Text]
    simp [ipv4Part?_write]
  have hb : ipv4Bytes? [a.toNat, b.toNat, c.toNat, d.toNat] = some [a.toNat, b.toNat, c.toNat, d.toNat] := by
    have hall := And.intro a.toNat_lt (And.intro b.toNat_lt (And.intro c.toNat_lt d.toNat_lt))
    simpa [ipv4Bytes?, bytes] using hall
  simp [ipv4?, hm, hb]

theorem mem_ipv4Text {x : Char} (h : x ∈ ipv4Text a b c d) : x.isDigit = true ∨ x = '.' := by
  simp only [ipv4Text, List.mem_append, List.mem_cons] at h
  rcases h with ((h | rfl | h) | rfl | h) | rfl | h
  all_goals first
    | exact .inl (Numeral.isDigit_of_mem_write h)
    | exact .inr rfl

@[simp] private theorem hexPiece?_pieceText (p : UInt16) : hexPiece? (pieceText p) = some p := by
  have hl : (pieceText p).length ≤ 4 := (Nat.length_toDigits_le_iff (by decide) (by decide)).mpr p.toNat_lt
  have hn : pieceText p ≠ [] := Nat.toDigits_ne_nil
  rw [hexPiece?, if_pos ⟨hl, hn⟩, pieceText, radixDigits_toDigits (by decide) (by decide)]
  exact congrArg some UInt16.ofNat_toNat

private theorem isAlphanum_of_mem_pieceText {p : UInt16} {x : Char} (h : x ∈ pieceText p) : x.isAlphanum = true := by
  have hd : ∀ n < 16, (Nat.digitChar n).isAlphanum = true := by decide
  have hall : ∀ n, ∀ y ∈ Nat.toDigits 16 n, y.isAlphanum = true := by
    intro n
    induction n using Nat.strongRecOn with
    | ind n ih =>
      intro y hy
      rw [Nat.toDigits_eq_if (by decide)] at hy
      split at hy
      · rename_i hn
        rw [List.mem_singleton.mp hy]
        exact hd n hn
      · rcases List.mem_append.mp hy with hy | hy
        · exact ih (n / 16) (by omega) y hy
        · rw [List.mem_singleton.mp hy]
          exact hd _ (Nat.mod_lt n (by decide))
  exact hall _ x h

theorem colon_notMem_pieceText (p : UInt16) : ':' ∉ pieceText p := by
  intro h
  exact absurd (isAlphanum_of_mem_pieceText h) (by decide)

@[simp] theorem joinColons_cons_cons (p q : UInt16) (r : List UInt16) :
    joinColons (p :: q :: r) = pieceText p ++ ':' :: joinColons (q :: r) := by
  simp [joinColons, List.intercalate_cons_cons]

@[simp] theorem joinColons_singleton (p : UInt16) : joinColons [p] = pieceText p := by
  simp [joinColons]

private theorem mem_joinColons {ps : List UInt16} {x : Char} (h : x ∈ joinColons ps) :
    x.isAlphanum = true ∨ x = ':' := by
  induction ps with
  | nil => cases h
  | cons p r ih =>
    cases r with
    | nil =>
      rw [joinColons_singleton] at h
      exact .inl (isAlphanum_of_mem_pieceText h)
    | cons q r =>
      rw [joinColons_cons_cons] at h
      rcases List.mem_append.mp h with h | h
      · exact .inl (isAlphanum_of_mem_pieceText h)
      · rcases List.mem_cons.mp h with h | h
        · exact .inr h
        · exact ih h

theorem joinColons_ne_nil {ps : List UInt16} (h : ps ≠ []) : joinColons ps ≠ [] := by
  cases ps with
  | nil => exact absurd rfl h
  | cons p r =>
    cases r with
    | nil =>
      rw [joinColons_singleton]
      exact Nat.toDigits_ne_nil
    | cons q r =>
      rw [joinColons_cons_cons]
      simp

private theorem splitOn_joinColons {ps : List UInt16} (h : ps ≠ []) :
    (joinColons ps).splitOn ':' = ps.map pieceText := by
  apply List.splitOn_intercalate
  · intro t ht
    obtain ⟨p, -, rfl⟩ := List.mem_map.mp ht
    exact colon_notMem_pieceText p
  · simpa using h

private theorem pieces?_go_map (mayEndDotted : Bool) (ps : List UInt16) :
    pieces?.go mayEndDotted (ps.map pieceText) = some ps := by
  induction ps with
  | nil => rfl
  | cons p r ih =>
    cases r with
    | nil => simp [pieces?.go, hexPiece?_pieceText]
    | cons q r =>
      rw [List.map_cons, List.map_cons, pieces?.go, ← List.map_cons, ih, hexPiece?_pieceText]
      · rfl
      · simp

@[simp] private theorem pieces?_joinColons (mayEndDotted : Bool) (ps : List UInt16) :
    pieces? mayEndDotted (joinColons ps) = some ps := by
  by_cases h : ps = []
  · subst h
    rfl
  · rw [pieces?, if_neg (joinColons_ne_nil h), splitOn_joinColons h, pieces?_go_map]

theorem mem_ipv6Text {address : Ipv6} {x : Char} (h : x ∈ ipv6Text address) : x.isAlphanum = true ∨ x = ':' := by
  rw [ipv6Text] at h
  simp only at h
  split at h
  · exact mem_joinColons h
  · rcases List.mem_append.mp h with h | h
    · exact mem_joinColons h
    · simp only [List.mem_cons] at h
      rcases h with h | h | h
      · exact .inr h
      · exact .inr h
      · exact mem_joinColons h

private theorem cutColons_append {t : Text} (h : ':' ∉ t) (r : Text) :
    cutColons (t ++ r) = (cutColons r).map fun (a, b) => (t ++ a, b) := by
  induction t with
  | nil => simp
  | cons c t ih =>
    have hc : c ≠ ':' := fun e => h (e ▸ List.mem_cons_self)
    have hr := ih fun hm => h (List.mem_cons_of_mem _ hm)
    rw [List.cons_append, cutColons, hr, Option.map_map]
    · rfl
    · intro _ e
      exact absurd e hc

private theorem cutColons_colon {c : Char} (h : c ≠ ':') (r : Text) :
    cutColons (':' :: c :: r) = (cutColons (c :: r)).map fun (a, b) => (':' :: a, b) := by
  rw [cutColons]
  intro _ _ e
  exact h (List.cons.inj e).1

private theorem head_joinColons_ne_colon {ps : List UInt16} {c : Char} {t : Text} (h : joinColons ps = c :: t) :
    c ≠ ':' := by
  cases ps with
  | nil => cases h
  | cons p r =>
    cases hp : pieceText p with
    | nil => exact absurd hp Nat.toDigits_ne_nil
    | cons d u =>
      have hd : d ≠ ':' := fun e => colon_notMem_pieceText p (by simp [hp, e])
      cases r with
      | nil =>
        rw [joinColons_singleton, hp] at h
        exact (List.cons.inj h).1 ▸ hd
      | cons q r =>
        rw [joinColons_cons_cons, hp] at h
        exact (List.cons.inj h).1 ▸ hd

/-- No double colon stands in joined pieces, nor begins at their end. -/
theorem cutColons_joinColons (ps : List UInt16) (r : Text) :
    cutColons (joinColons ps ++ r) = (cutColons r).map fun (a, b) => (joinColons ps ++ a, b) := by
  induction ps with
  | nil => simp [joinColons]
  | cons p ps ih =>
    cases ps with
    | nil => rw [joinColons_singleton, cutColons_append (colon_notMem_pieceText p)]
    | cons q ps =>
      rw [joinColons_cons_cons, List.append_assoc, cutColons_append (colon_notMem_pieceText p)]
      cases hj : joinColons (q :: ps) with
      | nil => exact absurd hj (joinColons_ne_nil (List.cons_ne_nil _ _))
      | cons c t =>
        rw [hj] at ih
        rw [List.cons_append, List.cons_append, cutColons_colon (head_joinColons_ne_colon hj), ← List.cons_append,
          ih, Option.map_map, Option.map_map]
        simp [Function.comp_def]

private theorem longestZeros_spec (ps : List UInt16) :
    (longestZeros ps).1 + (longestZeros ps).2 ≤ ps.length ∧
    ps = ps.take (longestZeros ps).1 ++ List.replicate (longestZeros ps).2 0 ++
      ps.drop ((longestZeros ps).1 + (longestZeros ps).2) := by
  induction ps with
  | nil => simp [longestZeros]
  | cons p r ih =>
    obtain ⟨hle, heq⟩ := ih
    rw [longestZeros]
    by_cases hlen : (longestZeros r).2 ≤ ((p :: r).takeWhile (· = 0)).length
    · have hzeros : (p :: r).takeWhile (· = 0) =
          List.replicate ((p :: r).takeWhile (· = 0)).length 0 := by
        apply List.eq_replicate_of_mem
        intro q hq
        simpa using List.mem_takeWhile_imp hq
      simp only [hlen, if_true, List.take_zero, List.nil_append, Nat.zero_add]
      refine ⟨List.takeWhile_sublist _ |>.length_le, ?_⟩
      rw [← hzeros]
      exact (List.prefix_iff_eq_append.mp (List.takeWhile_prefix _)).symm
    · simp only [hlen, if_false]
      refine ⟨by simp; omega, ?_⟩
      rw [List.take_succ_cons, Nat.add_right_comm, List.drop_succ_cons, List.cons_append, List.cons_append, ← heq]

/-- An address without a double colon has all its pieces; with one, it lacks the zeros that the double colon
stands for. -/
@[simp] theorem ipv6?_ipv6Text (address : Ipv6) : ipv6? (ipv6Text address) = some address := by
  obtain ⟨ps, hlen⟩ := address
  obtain ⟨hle, hsplit⟩ := longestZeros_spec ps
  rw [ipv6Text]
  simp only
  -- A run of one zero is written out, so only a longer one is cut from the text.
  by_cases hshort : (longestZeros ps).2 < 2
  · have hne : ps ≠ [] := by
      rintro rfl
      cases hlen
    have hcut : cutColons (joinColons ps) = none := by
      simpa [cutColons] using cutColons_joinColons ps []
    simp [hshort, ipv6?, hcut, joinColons_ne_nil hne, pieces?_joinColons, hlen]
  · have hcut := cutColons_joinColons (ps.take (longestZeros ps).1)
      (':' :: ':' :: joinColons (ps.drop ((longestZeros ps).1 + (longestZeros ps).2)))
    simp only [cutColons, Option.map_some, List.append_nil] at hcut
    have hcount : 8 - ((ps.take (longestZeros ps).1).length +
        (ps.drop ((longestZeros ps).1 + (longestZeros ps).2)).length) = (longestZeros ps).2 := by
      simp only [List.length_take, List.length_drop]
      omega
    have hlt : (ps.take (longestZeros ps).1).length +
        (ps.drop ((longestZeros ps).1 + (longestZeros ps).2)).length < 8 := by
      omega
    rw [if_neg hshort, ipv6?, hcut]
    simp only [pieces?_joinColons, Option.bind_eq_bind, Option.bind_some, hlt, dite_true, hcount, ← hsplit]

end DeviceDescription.Host
