import DeviceDescription.PathStep
import DeviceDescription.Proofs.NumeralText

/-!
# The grammar of steps

What a step is read from, said without the reader: a position in brackets at the end or none, before it a qualifier and
a name. The steps that are read are those that can be written and read back, and reading never cuts a text where it has
no place to be cut.
-/
namespace DeviceDescription

namespace Text

def byteSize (t : Text) : Nat := (t.map Char.utf8Size).sum

def offset? (d : Char) : Text → Option Nat
  | [] => none
  | c :: r => if c = d then some 0 else (offset? d r).map (c.utf8Size + ·)

/-- What stands before and after an offset in bytes. Within a character and past the end there is no place to cut. -/
def cutAt? : Nat → Text → Option (Text × Text)
  | 0, t => some ([], t)
  | _ + 1, [] => none
  | n + 1, c :: r =>
    if c.utf8Size ≤ n + 1 then (cutAt? (n + 1 - c.utf8Size) r).map fun (a, b) => (c :: a, b) else none

variable {d : Char} {t a b : Text}

@[simp] theorem byteSize_cons (c : Char) (t : Text) : byteSize (c :: t) = c.utf8Size + byteSize t := by
  simp [byteSize]

@[simp] theorem byteSize_append (a b : Text) : byteSize (a ++ b) = byteSize a + byteSize b := by
  simp [byteSize]

@[simp] theorem offset?_eq_none_iff : offset? d t = none ↔ d ∉ t := by
  induction t with
  | nil => simp [offset?]
  | cons c r ih =>
    by_cases h : c = d
    · simp [offset?, h]
    · simp [offset?, h, ih, Ne.symm h]

theorem offset?_append (b : Text) (h : d ∉ a) : offset? d (a ++ d :: b) = some (byteSize a) := by
  induction a with
  | nil => simp [offset?, byteSize]
  | cons c r ih =>
    simp only [List.mem_cons, not_or] at h
    simp [offset?, Ne.symm h.1, ih h.2, byteSize_cons]

/-- A text is cut exactly behind a part of it that has the size of the offset. -/
@[simp] theorem cutAt?_byteSize (a b : Text) : cutAt? (byteSize a) (a ++ b) = some (a, b) := by
  induction a with
  | nil => simp [byteSize, cutAt?]
  | cons c r ih =>
    have hc : 0 < c.utf8Size := Char.utf8Size_pos c
    obtain ⟨n, hn⟩ : ∃ n, byteSize (c :: r) = n + 1 := Nat.exists_eq_add_one_of_ne_zero (by rw [byteSize_cons]; omega)
    have hle : c.utf8Size ≤ n + 1 := by rw [← hn, byteSize_cons]; omega
    have hrest : n + 1 - c.utf8Size = byteSize r := by rw [← hn, byteSize_cons]; omega
    rw [hn, List.cons_append, cutAt?, if_pos hle, hrest, ih]
    rfl

end Text

namespace PathStep

variable {t full name before : Text} {q : Option Text} {position : Option Nat} {s : PathStep} {raw : Text}

def atPosition (name numeral : Text) : Text := name ++ '[' :: (numeral ++ [']'])

/-- A text with a position in brackets at its end, or without brackets. -/
inductive Positioned : Text → Text → Option Nat → Prop
  | bare {full : Text} (hbracket : '[' ∉ full) : Positioned full full none
  | bracketed {before inside : Text} {n : Nat} (hbracket : '[' ∉ before)
    (hdenotes : Numeral.Denotes (Text.trim inside) n) (hpos : 1 ≤ n) (hword : n ≤ Numeral.maxWord64) :
    Positioned (atPosition before inside) (Text.trim before) (some n)

/-- A name with a qualifier before its first colon, or without colons. -/
inductive Qualified : Text → Option Text → Text → Prop
  | bare {name : Text} (hname : name ≠ []) (hcolon : ':' ∉ name) : Qualified name none name
  | qualified {q name : Text} (hq : q ≠ []) (hcolon : ':' ∉ q) (hname : name ≠ []) :
    Qualified (q ++ ':' :: name) (some q) name

/-- A text without blanks around it spells a step. -/
def Spells (t : Text) (s : PathStep) : Prop := ∃ full, Positioned t full s.position ∧ Qualified full s.qualifier s.name

def bracketed? (inside : Text) : Option Nat := (Numeral.read? Numeral.maxWord64 (Text.trim inside)).filter (· ≠ 0)

theorem bracketed?_eq_some_iff {inside : Text} {n : Nat} :
    bracketed? inside = some n ↔ Numeral.Denotes (Text.trim inside) n ∧ 1 ≤ n ∧ n ≤ Numeral.maxWord64 := by
  rw [bracketed?, Option.filter_eq_some_iff, Numeral.read?_eq_some_iff, decide_eq_true_eq, ← Nat.one_le_iff_ne_zero]
  tauto

/-- Zero and what no word holds are no positions. -/
@[simp] theorem bracketed?_write (n : Nat) :
    bracketed? (Numeral.write n) = if 1 ≤ n ∧ n ≤ Numeral.maxWord64 then some n else none := by
  have hwritten := Numeral.denotes_write n
  have htrim := Numeral.trim_of_denotes hwritten
  split
  · rename_i hbounds
    rw [bracketed?_eq_some_iff, htrim]
    exact ⟨hwritten, hbounds⟩
  · rename_i hbounds
    cases hread : bracketed? (Numeral.write n) with
    | none => rfl
    | some m =>
      obtain ⟨hdenotes, hm⟩ := bracketed?_eq_some_iff.mp hread
      rw [htrim] at hdenotes
      obtain rfl := Numeral.denotes_unique hdenotes hwritten
      exact absurd hm hbounds

theorem atPosition_eq_concat (before inside : Text) :
    atPosition before inside = (before ++ '[' :: inside) ++ [']'] := by
  simp [atPosition]

theorem trim_atPosition (before inside : Text) :
    Text.trim (atPosition before inside) = atPosition (before.dropWhile Text.isBlank) inside := by
  have hopen : Text.isBlank '[' = false := by decide
  have hclose : Text.isBlank ']' = false := by decide
  have hdrop : (atPosition before inside).dropWhile Text.isBlank =
      atPosition (before.dropWhile Text.isBlank) inside := by
    rw [atPosition, List.dropWhile_append]
    split
    · rename_i hblank
      simp [atPosition, List.isEmpty_iff.mp hblank, hopen]
    · rfl
  rw [Text.trim, hdrop, atPosition_eq_concat, Text.dropEndWhile_concat hclose]

/-- There is no bracket, or the first one is closed by the last character, or it is not. -/
theorem bracket_cases (t : Text) :
    '[' ∉ t ∨ (∃ before inside, '[' ∉ before ∧ t = atPosition before inside) ∨
      ∃ before rest, '[' ∉ before ∧ rest.getLast? ≠ some ']' ∧ t = before ++ '[' :: rest := by
  cases hcut : Text.cut '[' t with
  | none => exact .inl (Text.cut_eq_none_iff.mp hcut)
  | some p =>
    obtain ⟨ht, hbracket⟩ := Text.eq_append_of_cut hcut
    by_cases hclosed : p.2.getLast? = some ']'
    · obtain ⟨inside, hinside⟩ := List.getLast?_eq_some_iff.mp hclosed
      exact .inr (.inl ⟨p.1, inside, hbracket, by rw [ht, hinside, atPosition]⟩)
    · exact .inr (.inr ⟨p.1, p.2, hbracket, hclosed, ht⟩)

theorem splitPosition?_bare (hbracket : '[' ∉ t) : splitPosition? t = some (t, none) := by
  rw [splitPosition?, Text.cut_eq_none_iff.mpr hbracket]

theorem splitPosition?_bracketed (hbracket : '[' ∉ before) (inside : Text) :
    splitPosition? (atPosition before inside) = (bracketed? inside).map fun n => (Text.trim before, some n) := by
  rw [atPosition, splitPosition?, Text.cut_append _ hbracket, bracketed?]
  cases hread : Numeral.read? Numeral.maxWord64 (Text.trim inside) with
  | none => simp [hread]
  | some n => by_cases hzero : n = 0 <;> simp [hread, hzero]

private theorem splitPosition?_unclosed (hbracket : '[' ∉ before) {rest : Text} (hclosed : rest.getLast? ≠ some ']') :
    splitPosition? (before ++ '[' :: rest) = none := by
  simp [splitPosition?, Text.cut_append _ hbracket, hclosed]

private theorem splitPosition?_eq_some_iff : splitPosition? t = some (full, position) ↔ Positioned t full position := by
  constructor
  · intro h
    obtain hbracket | ⟨before, inside, hbracket, rfl⟩ | ⟨before, rest, hbracket, hclosed, rfl⟩ := bracket_cases t
    · rw [splitPosition?_bare hbracket] at h
      cases h
      exact .bare hbracket
    · rw [splitPosition?_bracketed hbracket] at h
      obtain ⟨n, hn, heq⟩ := Option.map_eq_some_iff.mp h
      cases heq
      obtain ⟨hdenotes, hpos, hword⟩ := bracketed?_eq_some_iff.mp hn
      exact .bracketed hbracket hdenotes hpos hword
    · rw [splitPosition?_unclosed hbracket hclosed] at h
      cases h
  · intro h
    cases h with
    | bare hbracket => exact splitPosition?_bare hbracket
    | bracketed hbracket hdenotes hpos hword =>
      rw [splitPosition?_bracketed hbracket, bracketed?_eq_some_iff.mpr ⟨hdenotes, hpos, hword⟩]
      rfl

def ofFullName? (full : Text) (position : Option Nat) : Option PathStep :=
  let (qualifier, name) := splitQualifier full
  if name = [] ∨ qualifier = some [] then none else some ⟨qualifier, name, position⟩

theorem ofTrimmed?_eq (t : Text) : ofTrimmed? t = (splitPosition? t).bind fun p => ofFullName? p.1 p.2 := by
  rw [ofTrimmed?]
  cases splitPosition? t with
  | none => rfl
  | some p => simp [ofFullName?]

theorem ofFullName?_eq_some_iff :
    ofFullName? full position = some s ↔ s.position = position ∧ Qualified full s.qualifier s.name := by
  constructor
  · intro h
    rw [ofFullName?, splitQualifier] at h
    cases hcut : Text.cut ':' full with
    | none =>
      rw [hcut] at h
      obtain ⟨hname, heq⟩ : full ≠ [] ∧ ⟨none, full, position⟩ = s := by simpa using h
      subst heq
      exact ⟨rfl, .bare hname (Text.cut_eq_none_iff.mp hcut)⟩
    | some p =>
      rw [hcut] at h
      obtain ⟨⟨hname, hq⟩, heq⟩ : (p.2 ≠ [] ∧ p.1 ≠ []) ∧ ⟨some p.1, p.2, position⟩ = s := by simpa using h
      subst heq
      obtain ⟨hfull, hcolon⟩ := Text.eq_append_of_cut hcut
      rw [hfull]
      exact ⟨rfl, .qualified hq hcolon hname⟩
  · rintro ⟨rfl, hfull⟩
    obtain ⟨qualifier, name, position⟩ := s
    cases hfull with
    | bare hname hcolon => simp [ofFullName?, splitQualifier, Text.cut_eq_none_iff.mpr hcolon, hname]
    | qualified hq hcolon hname => simp [ofFullName?, splitQualifier, Text.cut_append _ hcolon, hname, hq]

theorem ofTrimmed?_eq_some_iff : ofTrimmed? t = some s ↔ Spells t s := by
  rw [ofTrimmed?_eq, Option.bind_eq_some_iff]
  constructor
  · rintro ⟨⟨full, position⟩, hsplit, hfull⟩
    obtain ⟨rfl, hname⟩ := ofFullName?_eq_some_iff.mp hfull
    exact ⟨full, splitPosition?_eq_some_iff.mp hsplit, hname⟩
  · rintro ⟨full, hposition, hname⟩
    exact ⟨(full, s.position), splitPosition?_eq_some_iff.mpr hposition, ofFullName?_eq_some_iff.mpr ⟨rfl, hname⟩⟩

theorem read_eq_ok_iff : read raw = .ok s ↔ Spells (Text.trim raw) s := by
  rw [read, ← ofTrimmed?_eq_some_iff]
  cases ofTrimmed? (Text.trim raw) <;> simp

theorem read_eq_error_iff {e : PathError} :
    read raw = .error e ↔ (¬∃ s, Spells (Text.trim raw) s) ∧ e = .invalidStep (Text.trim raw) := by
  simp only [← ofTrimmed?_eq_some_iff]
  rw [read]
  cases ofTrimmed? (Text.trim raw) <;> simp [eq_comm]

/-- The position of a step, its text cut at offsets: none where an offset is no place to cut. -/
def slicedPosition? (t : Text) : Option (Option (Text × Option Nat)) :=
  match Text.offset? '[' t with
  | none => some (some (t, none))
  | some start =>
    if t.getLast? = some ']' then do
      let (_, inside) ← Text.cutAt? (start + 1) t.dropLast
      let (before, _) ← Text.cutAt? start t
      some ((bracketed? inside).map fun n => (Text.trim before, some n))
    else some none

/-- The last character closes a bracket that stands before it, so there is always a place to cut. -/
theorem slicedPosition?_eq (t : Text) : slicedPosition? t = some (splitPosition? t) := by
  obtain hbracket | ⟨before, inside, hbracket, rfl⟩ | ⟨before, rest, hbracket, hclosed, rfl⟩ := bracket_cases t
  · rw [slicedPosition?, Text.offset?_eq_none_iff.mpr hbracket, splitPosition?_bare hbracket]
  · have hlast : (atPosition before inside).getLast? = some ']' := by rw [atPosition_eq_concat, List.getLast?_concat]
    have hinit : (atPosition before inside).dropLast = (before ++ ['[']) ++ inside := by
      rw [atPosition_eq_concat, List.dropLast_concat, List.append_assoc, List.singleton_append]
    have hsize : Text.byteSize before + 1 = Text.byteSize (before ++ ['[']) := by
      rw [Text.byteSize_append]
      rfl
    have hoffset : Text.offset? '[' (atPosition before inside) = some (Text.byteSize before) :=
      Text.offset?_append _ hbracket
    have hbefore : Text.cutAt? (Text.byteSize before) (atPosition before inside) =
        some (before, '[' :: (inside ++ [']'])) := Text.cutAt?_byteSize _ _
    rw [splitPosition?_bracketed hbracket, slicedPosition?, hoffset]
    simp only [hlast, if_true, hinit, hsize, Text.cutAt?_byteSize, hbefore, Option.bind_eq_bind, Option.bind_some]
  · have hlast : (before ++ '[' :: rest).getLast? ≠ some ']' := by
      cases hrest : rest.getLast? with
      | none =>
        rw [List.getLast?_eq_none_iff.mp hrest]
        simp
      | some c =>
        rw [hrest] at hclosed
        simpa [List.getLast?_append, List.getLast?_cons, hrest] using hclosed
    rw [splitPosition?_unclosed hbracket hclosed, slicedPosition?, Text.offset?_append _ hbracket]
    simp only [if_neg hlast]

/-- A step whose parts can be told apart when they are written one after the other. -/
structure Writable (s : PathStep) : Prop where
  name_ne_nil : s.name ≠ []
  name_bracket : '[' ∉ s.name
  name_last : ∀ c ∈ s.name.getLast?, Text.isBlank c = false
  unqualified : s.qualifier = none → ':' ∉ s.name ∧ ∀ c ∈ s.name.head?, Text.isBlank c = false
  qualified : ∀ q ∈ s.qualifier, q ≠ [] ∧ ':' ∉ q ∧ '[' ∉ q ∧ ∀ c ∈ q.head?, Text.isBlank c = false
  position : ∀ n ∈ s.position, 1 ≤ n ∧ n ≤ Numeral.maxWord64

def fullName (s : PathStep) : Text := s.qualifier.elim [] (· ++ [':']) ++ s.name

theorem Qualified.eq_fullName (h : Qualified full s.qualifier s.name) : full = s.fullName := by
  obtain ⟨qualifier, name, position⟩ := s
  cases h with
  | bare => rfl
  | qualified => simp [fullName]

theorem Qualified.of_some {qualifier : Text} (h : Qualified full (some qualifier) name) :
    qualifier ≠ [] ∧ ':' ∉ qualifier ∧ name ≠ [] := by
  cases h with
  | qualified hq hcolon hname => exact ⟨hq, hcolon, hname⟩

theorem writable_iff :
    s.Writable ↔ Qualified s.fullName s.qualifier s.name ∧ '[' ∉ s.fullName ∧ s.fullName.IsTrimmed ∧
      ∀ n ∈ s.position, 1 ≤ n ∧ n ≤ Numeral.maxWord64 := by
  obtain ⟨qualifier, name, position⟩ := s
  cases qualifier with
  | none =>
    constructor
    · intro h
      obtain ⟨hcolon, hhead⟩ := h.unqualified rfl
      exact ⟨.bare h.name_ne_nil hcolon, h.name_bracket, ⟨hhead, h.name_last⟩, h.position⟩
    · rintro ⟨hname, hbracket, htrimmed, hposition⟩
      cases hname with
      | bare hname hcolon =>
        exact ⟨hname, hbracket, htrimmed.last, fun _ => ⟨hcolon, htrimmed.head⟩, by simp, hposition⟩
  | some q =>
    have hfull : fullName ⟨some q, name, position⟩ = (q ++ [':']) ++ name := rfl
    have hhead (hq : q ≠ []) : ((q ++ [':']) ++ name).head? = q.head? := by
      rw [List.append_assoc, List.head?_append_of_ne_nil _ hq]
    have hlast (hname : name ≠ []) : ((q ++ [':']) ++ name).getLast? = name.getLast? :=
      List.getLast?_append_of_ne_nil _ hname
    rw [hfull]
    constructor
    · intro h
      obtain ⟨hq, hcolon, hbracket, hblank⟩ := h.qualified q rfl
      refine ⟨?_, by simp [hbracket, h.name_bracket], ⟨?_, ?_⟩, h.position⟩
      · rw [List.append_assoc]
        exact .qualified hq hcolon h.name_ne_nil
      · rwa [hhead hq]
      · rw [hlast h.name_ne_nil]
        exact h.name_last
    · rintro ⟨hname, hbracket, htrimmed, hposition⟩
      obtain ⟨hq, hcolon, hname⟩ := hname.of_some
      have hblank := htrimmed.head
      have hend := htrimmed.last
      rw [hhead hq] at hblank
      rw [hlast hname] at hend
      simp only [List.mem_append, not_or] at hbracket
      refine ⟨hname, hbracket.2, hend, by simp, ?_, hposition⟩
      rintro _ ⟨⟩
      exact ⟨hq, hcolon, hbracket.1.1, hblank⟩

theorem text_eq_elim (s : PathStep) :
    text s = s.position.elim s.fullName fun n => atPosition s.fullName (Numeral.write n) := by
  obtain ⟨qualifier, name, position⟩ := s
  cases position <;> simp [text, fullName, atPosition]

private theorem writable_of_spells (ht : t.IsTrimmed) (h : Spells t s) : s.Writable := by
  obtain ⟨full, hposition, hname⟩ := h
  obtain rfl := hname.eq_fullName
  rw [writable_iff]
  -- The name and the position are independent of each other from here on.
  generalize s.fullName = full at *
  generalize s.position = position at *
  cases hposition with
  | bare hbracket => exact ⟨hname, hbracket, ht, by simp⟩
  | bracketed hbracket _ hpos hword =>
    exact ⟨hname, fun hm => hbracket (Text.mem_of_mem_trim hm), Text.isTrimmed_trim _, by simp [hpos, hword]⟩

private theorem positioned_text (h : s.Writable) : Positioned (text s) s.fullName s.position := by
  obtain ⟨-, hbracket, htrimmed, hposition⟩ := writable_iff.mp h
  rw [text_eq_elim]
  cases hs : s.position with
  | none => exact .bare hbracket
  | some n =>
    obtain ⟨hpos, hword⟩ := hposition n hs
    have hnumeral : Numeral.Denotes (Text.trim (Numeral.write n)) n := by
      rw [Numeral.trim_of_denotes (Numeral.denotes_write n)]
      exact Numeral.denotes_write n
    have hbracketed := Positioned.bracketed hbracket hnumeral hpos hword
    rwa [htrimmed.trim_eq] at hbracketed

theorem trim_text (htrimmed : s.fullName.IsTrimmed) : Text.trim (text s) = text s := by
  rw [text_eq_elim]
  cases s.position with
  | none => exact htrimmed.trim_eq
  | some n => rw [Option.elim_some, trim_atPosition, htrimmed.dropWhile_eq]

theorem writable_of_read (h : read raw = .ok s) : s.Writable :=
  writable_of_spells (Text.isTrimmed_trim _) (read_eq_ok_iff.mp h)

theorem read_text_iff : read (text s) = .ok s ↔ s.Writable := by
  refine ⟨writable_of_read, fun h => ?_⟩
  obtain ⟨hname, -, htrimmed, -⟩ := writable_iff.mp h
  rw [read_eq_ok_iff, trim_text htrimmed]
  exact ⟨s.fullName, positioned_text h, hname⟩

theorem Writable.index_add_one (h : s.Writable) : s.index + 1 = s.position.getD 1 := by
  rw [index]
  cases hs : s.position with
  | none => rfl
  | some n =>
    obtain ⟨hpos, -⟩ := h.position n hs
    exact Nat.sub_add_cancel hpos

/-- A step is read from what spells it and from nothing else. Its position has an index below it, and to be read is to
be read back from its own text. Wherever the reader would cut a text at an offset, there is a place to cut. -/
theorem read_iff_spelled (raw : Text) :
    (∀ s, read raw = .ok s ↔ Spells (Text.trim raw) s) ∧
    (∀ e, read raw = .error e ↔ (¬∃ s, Spells (Text.trim raw) s) ∧ e = .invalidStep (Text.trim raw)) ∧
    slicedPosition? (Text.trim raw) = some (splitPosition? (Text.trim raw)) ∧
    (∀ s, read raw = .ok s → s.index + 1 = s.position.getD 1 ∧ s.Writable) ∧
    ∀ s, read (text s) = .ok s ↔ s.Writable := by
  refine ⟨fun s => read_eq_ok_iff, fun e => read_eq_error_iff, slicedPosition?_eq _, fun s h => ?_,
    fun s => read_text_iff⟩
  exact ⟨(writable_of_read h).index_add_one, writable_of_read h⟩

/-- Blanks within a name belong to it, and only the first bracket and the first colon count. -/
theorem read_iff_spelled_spaced :
    read " upnp : a:b] [ +02 ] " = .ok ⟨some "upnp ", " a:b]", some 2⟩ ∧
    index ⟨some "upnp ", " a:b]", some 2⟩ = 1 ∧
    read (text ⟨some "upnp ", " a:b]", some 2⟩) = .ok ⟨some "upnp ", " a:b]", some 2⟩ ∧
    ¬∃ s, Spells "a[1][2]" s := by
  obtain ⟨-, -, -, hread, hback⟩ := read_iff_spelled " upnp : a:b] [ +02 ] "
  obtain ⟨-, hnone, -⟩ := read_iff_spelled "a[1][2]"
  have hstep : read " upnp : a:b] [ +02 ] " = .ok ⟨some "upnp ", " a:b]", some 2⟩ := rfl
  obtain ⟨hindex, hwritable⟩ := hread _ hstep
  exact ⟨hstep, Nat.succ.inj hindex, (hback _).mpr hwritable, ((hnone _).mp rfl).1⟩

end PathStep
end DeviceDescription
