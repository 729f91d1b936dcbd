import DeviceDescription.Proofs.AuthorityText
import DeviceDescription.UrlReference

/-!
# What follows an authority leaves it alone

A text that starts with a scheme, two slashes and a written authority names that server, if a slash, a question
mark or a number sign closes the authority. Nothing is assumed of the characters that come later.
-/
namespace DeviceDescription

namespace Text

/-- The characters of ASCII that are neither control characters nor blanks. -/
def isVisible (c : Char) : Bool := ' ' < c && c ≤ '~'

theorem lt_of_isVisible {c : Char} (h : isVisible c = true) : ' ' < c := by
  simp only [isVisible, Bool.and_eq_true, decide_eq_true_eq] at h
  exact h.1

theorem isBlank_of_isVisible {c : Char} (h : isVisible c = true) : isBlank c = false := by
  have hle : c ≤ '~' := by
    simp only [isVisible, Bool.and_eq_true, decide_eq_true_eq] at h
    exact h.2
  have hall : ∀ n < 128, isVisible (Char.ofNat n) = true → isBlank (Char.ofNat n) = false := by decide
  have hc := hall c.toNat (Nat.lt_of_le_of_lt (Char.le_def.mp hle) (by decide))
  rw [Char.ofNat_toNat] at hc
  exact hc h

theorem isVisible_of_isAlphanum {c : Char} (h : c.isAlphanum = true) : isVisible c = true := by
  simpa using eq_false_of_isAlphanum (!isVisible ·) (by decide) h

theorem isVisible_of_isWritten {c : Char} (h : Host.isWritten c = true) : isVisible c = true := by
  simp only [Host.isWritten, Bool.and_eq_true, decide_eq_true_eq] at h
  simp [isVisible, h]

end Text

namespace Url

def cleanedTail (t : Text) : Text := (Text.dropEndWhile isControlOrSpace t).filter (!isTabOrNewline ·)

theorem isControlOrSpace_eq_false {c : Char} (h : ' ' < c) : isControlOrSpace c = false := by
  rw [isControlOrSpace, decide_eq_false_iff_not]
  exact Char.not_le.mpr h

theorem isTabOrNewline_eq_false {c : Char} (h : ' ' < c) : isTabOrNewline c = false := by
  simp only [isTabOrNewline, Bool.or_eq_false_iff, decide_eq_false_iff_not]
  refine ⟨⟨?_, ?_⟩, ?_⟩
  all_goals
    rintro rfl
    exact absurd h (by decide)

theorem cleaned_append {t : Text} (ht : ∀ c ∈ t, ' ' < c) (hn : t ≠ []) (r : Text) :
    cleaned (t ++ r) = t ++ cleanedTail r := by
  have hdrop : (t ++ r).dropWhile isControlOrSpace = t ++ r := by
    cases t with
    | nil => exact absurd rfl hn
    | cons c t => simp [isControlOrSpace_eq_false (ht c List.mem_cons_self)]
  have hkeep : t.filter (!isTabOrNewline ·) = t := by
    rw [List.filter_eq_self]
    intro c hc
    simp [isTabOrNewline_eq_false (ht c hc)]
  rw [cleaned, hdrop, Text.dropEndWhile_append fun c hc => isControlOrSpace_eq_false (ht c hc), List.filter_append,
    hkeep, cleanedTail]

theorem head?_cleanedTail {r : Text} (h : ∀ c ∈ r.head?, ' ' < c) : (cleanedTail r).head? = r.head? := by
  cases r with
  | nil => rfl
  | cons c r =>
    have hc := h c rfl
    have hdrop := Text.dropEndWhile_append (p := isControlOrSpace) (t := [c])
      (by simpa using isControlOrSpace_eq_false hc) r
    rw [List.singleton_append] at hdrop
    simp [cleanedTail, hdrop, isTabOrNewline_eq_false hc]

theorem splitTail_append {d : Char} {t : Text} (h : d ∉ t) (r : Text) :
    splitTail d (t ++ r) = (t ++ (splitTail d r).1, (splitTail d r).2) := by
  rw [splitTail, splitTail]
  cases hr : Text.cut d r with
  | none =>
    have hn := Text.cut_eq_none_iff.mp hr
    have htr : d ∉ t ++ r := by simp [h, hn]
    rw [Text.cut_eq_none_iff.mpr htr]
  | some p =>
    obtain ⟨a, b⟩ := p
    obtain ⟨rfl, ha⟩ := Text.eq_append_of_cut hr
    have hta : d ∉ t ++ a := by simp [h, ha]
    rw [← List.append_assoc, Text.cut_append b hta]

theorem mem_head?_splitTail {d c : Char} {r : Text} (h : c ∈ (splitTail d r).1.head?) : c ∈ r.head? ∧ c ≠ d := by
  rw [splitTail] at h
  cases hr : Text.cut d r with
  | none =>
    rw [hr] at h
    have hc : c ∈ r := List.mem_of_head? h
    exact ⟨h, fun e => Text.cut_eq_none_iff.mp hr (e ▸ hc)⟩
  | some p =>
    obtain ⟨a, b⟩ := p
    rw [hr] at h
    obtain ⟨rfl, ha⟩ := Text.eq_append_of_cut hr
    cases a with
    | nil => cases h
    | cons x a =>
      have hx : x = c := Option.some.inj h
      subst hx
      exact ⟨rfl, fun e => ha (e ▸ List.mem_cons_self)⟩

theorem mem_of_isScheme {s : Text} (h : isScheme s = true) : s ≠ [] ∧ ∀ c ∈ s, isSchemeChar c = true := by
  cases s with
  | nil => cases h
  | cons c r =>
    simp only [isScheme, Bool.and_eq_true, List.all_eq_true] at h
    refine ⟨List.cons_ne_nil _ _, fun d hd => ?_⟩
    rcases List.mem_cons.mp hd with rfl | hd
    · simp [isSchemeChar, Char.isAlphanum, h.1]
    · exact h.2 d hd

theorem of_isSchemeChar {c : Char} (h : isSchemeChar c = true) : Text.isVisible c = true ∧ c ≠ ':' := by
  simp only [isSchemeChar, Bool.or_eq_true, decide_eq_true_eq] at h
  rcases h with ((h | rfl) | rfl) | rfl
  · exact ⟨Text.isVisible_of_isAlphanum h, Text.ne_of_isAlphanum h (by decide)⟩
  all_goals decide

private theorem isAlpha_toLower {c : Char} (h : c.isAlpha = true) : c.toLower.isAlpha = true := by
  cases hu : c.isUpper with
  | false => rwa [Text.toLower_eq_self hu]
  | true => simp [Char.isAlpha, Text.isLower_toLower hu]

private theorem isSchemeChar_toLower {c : Char} (h : isSchemeChar c = true) : isSchemeChar c.toLower = true := by
  cases hu : c.isUpper with
  | false => rwa [Text.toLower_eq_self hu]
  | true => simp [isSchemeChar, Char.isAlphanum, Char.isAlpha, Text.isLower_toLower hu]

theorem isScheme_map_toLower {s : Text} (h : isScheme s = true) : isScheme (s.map Char.toLower) = true := by
  cases s with
  | nil => cases h
  | cons c r =>
    simp only [isScheme, Bool.and_eq_true, List.all_eq_true] at h
    simp only [List.map_cons, isScheme, Bool.and_eq_true, List.all_eq_true, List.mem_map]
    refine ⟨isAlpha_toLower h.1, ?_⟩
    rintro d ⟨x, hx, rfl⟩
    exact isSchemeChar_toLower (h.2 x hx)

/-- Scheme and authority, as they are written before a path. -/
def head (scheme : Text) (a : Authority) : Text := scheme ++ ':' :: '/' :: '/' :: a.text

/-- What may follow an authority: nothing, or what begins with the path, the query or the fragment. -/
def OpensTail (t : Text) : Prop := ∀ c ∈ t.head?, c = '/' ∨ c = '?' ∨ c = '#'

theorem of_isTextChar {c : Char} (hc : Authority.isTextChar c = true) :
    Text.isVisible c = true ∧ c ≠ '/' ∧ c ≠ '\\' := by
  simp only [Authority.isTextChar, Bool.or_eq_true, decide_eq_true_eq] at hc
  rcases hc with hc | rfl
  · refine ⟨Text.isVisible_of_isWritten hc, ?_⟩
    simp only [Host.isWritten, Bool.and_eq_true, decide_eq_true_eq, ne_eq] at hc
    simp [hc]
  · decide

theorem scheme_of_file {scheme : Text} (hk : SchemeKind.ofScheme scheme = .file) : scheme = "file" := by
  by_cases hf : scheme = "file"
  · exact hf
  · rw [SchemeKind.ofScheme, if_neg hf] at hk
    split at hk <;> cases hk

section Head
variable {scheme : Text} {a : Authority} {h : Host}

variable [InternationalNames] (ha : a.Settled scheme h)
include ha

theorem isVisible_of_mem_head (hs : isScheme scheme = true) {c : Char} (hc : c ∈ head scheme a) :
    Text.isVisible c = true := by
  rcases List.mem_append.mp hc with hc | hc
  · exact (of_isSchemeChar ((mem_of_isScheme hs).2 c hc)).1
  · simp only [List.mem_cons] at hc
    rcases hc with rfl | rfl | rfl | hc
    · decide
    · decide
    · decide
    · exact (of_isTextChar (Authority.isTextChar_of_mem_text ha hc)).1

theorem span_authority (special : Bool) {path : Text} (hp : ∀ c ∈ path.head?, c = '/') :
    (a.text ++ path).span (!UrlPath.isSeparator special ·) = (a.text, path) := by
  apply Text.span_append
  · intro c hc
    obtain ⟨-, hslash, hback⟩ := of_isTextChar (Authority.isTextChar_of_mem_text ha hc)
    simp [UrlPath.isSeparator, hslash, hback]
  · intro c hc
    simp [UrlPath.isSeparator, hp c hc]

private theorem afterSlashes_text (isLast : Bool) {path : Text} (hp : ∀ c ∈ path.head?, c = '/') :
    afterSlashes scheme isLast (a.text ++ path) = .ok (some { a with port := Authority.keptPort scheme a.port },
      UrlPath.afterAuthority (SchemeKind.ofScheme scheme).isSpecial path) := by
  simp only [afterSlashes, span_authority ha _ hp, Authority.read_text ha]
  rfl

private theorem skipSlashes_text (path : Text) : skipSlashes ('/' :: '/' :: a.text ++ path) = a.text ++ path := by
  cases ht : a.text with
  | nil => exact absurd ht (Authority.text_ne_nil ha)
  | cons c r =>
    have hc : c ∈ a.text := ht ▸ List.mem_cons_self
    obtain ⟨-, hslash, hback⟩ := of_isTextChar (Authority.isTextChar_of_mem_text ha hc)
    simp [skipSlashes, UrlPath.isSeparator, hslash, hback]

theorem hierarchy_text (hf : scheme ≠ "file") (isLast : Bool) {path : Text} (hp : ∀ c ∈ path.head?, c = '/') :
    hierarchy scheme isLast ('/' :: '/' :: a.text ++ path) =
      .ok (some { a with port := Authority.keptPort scheme a.port },
        UrlPath.afterAuthority (SchemeKind.ofScheme scheme).isSpecial path) := by
  have hafter := afterSlashes_text ha isLast hp
  cases hk : SchemeKind.ofScheme scheme with
  | file => exact absurd (scheme_of_file hk) hf
  | special =>
    rw [hk] at hafter
    simp only [hierarchy, hk, skipSlashes_text ha, hafter]
  | other =>
    rw [hk] at hafter
    simp only [hierarchy, hk, List.cons_append, hafter]

end Head

/-- The authority of a file URL on a server. -/
def fileServer (h : Host) : Authority := ⟨[], [], some h, none⟩

theorem text_fileServer (h : Host) : (fileServer h).text = h.text := by
  simp [fileServer, Authority.text, Authority.credentials, Authority.hostText, Authority.portText]

def pathOfTail (t : Text) : Text := (splitTail '?' (splitTail '#' (cleanedTail t)).1).1

def queryOfTail (t : Text) : Option Text := (splitTail '?' (splitTail '#' (cleanedTail t)).1).2

def fragmentOfTail (t : Text) : Option Text := (splitTail '#' (cleanedTail t)).2

theorem mem_head?_pathOfTail {t : Text} (ht : OpensTail t) : ∀ c ∈ (pathOfTail t).head?, c = '/' := by
  intro c hc
  obtain ⟨hc, hquery⟩ := mem_head?_splitTail hc
  obtain ⟨hc, hfragment⟩ := mem_head?_splitTail hc
  have hlt : ∀ c ∈ t.head?, ' ' < c := by
    intro d hd
    rcases ht d hd with rfl | rfl | rfl <;> decide
  rw [head?_cleanedTail hlt] at hc
  rcases ht c hc with rfl | rfl | rfl
  · rfl
  · exact absurd rfl hquery
  · exact absurd rfl hfragment

theorem exists_rooted_afterAuthority (special : Bool) (t : Text) :
    ∃ segments, UrlPath.afterAuthority special t = .rooted segments := by
  cases t with
  | nil => exact ⟨_, rfl⟩
  | cons c r => exact ⟨_, rfl⟩

variable [InternationalNames]

theorem settled_fileServer {h : Host} (hs : h.Settled true) : (fileServer h).Settled "file" h where
  username := by simp [fileServer]
  password := by simp [fileServer]
  host := rfl
  settled := hs
  port := by simp [fileServer]

private theorem fileHost_text {h : Host} (hs : h.Settled true) (hl : h ≠ .name "localhost") :
    fileHost h.text = .ok (some h) := by
  have hr := hs.reads
  rw [Authority.readHost, if_pos rfl, if_neg hs.nonempty] at hr
  obtain ⟨g, hg, hgh⟩ := Traversal.exists_of_map_eq_ok hr
  obtain rfl := Option.some.inj hgh
  rw [fileHost, if_neg hs.nonempty, hg, Except.map, if_neg hl]

private theorem isDriveLetter_text {special : Bool} {h : Host} (hs : h.Settled special) :
    UrlPath.isDriveLetter h.text = false := by
  have hspan := hs.spans [] Authority.beginsPort_nil
  have hbar : '|' ∉ h.text := fun hm => absurd (hs.written _ hm) (by decide)
  unfold UrlPath.isDriveLetter
  split
  · rename_i x y hxy
    rw [hxy] at hspan hbar
    cases hx : x.isAlpha with
    | false => rfl
    | true =>
      have hxa : x.isAlphanum = true := by simp [Char.isAlphanum, hx]
      have hopen : x ≠ '[' := Text.ne_of_isAlphanum hxa (by decide)
      have hcolon : x ≠ ':' := Text.ne_of_isAlphanum hxa (by decide)
      have hy : y ≠ ':' := by
        rintro rfl
        simp [Authority.spanHost, hopen, hcolon] at hspan
      have hy' : y ≠ '|' := by
        rintro rfl
        simp at hbar
      simp [hy, hy']
  · rfl

/-- A file URL keeps its server, unless its path starts with a drive. -/
theorem fileHierarchy_text {h : Host} (hs : h.Settled true) (hl : h ≠ .name "localhost") {path : Text}
    (hp : ∀ c ∈ path.head?, c = '/') :
    fileHierarchy ('/' :: '/' :: h.text ++ path) =
      .ok (fileAuthority (if (UrlPath.readFileSegments (path.drop 1)).2 then none else some h),
        .rooted (UrlPath.readFileSegments (path.drop 1)).1) := by
  have hsettled : (fileServer h).Settled "file" h := settled_fileServer hs
  have hspan := span_authority hsettled true hp
  rw [text_fileServer] at hspan
  have hslashes : 2 ≤ (('/' :: '/' :: h.text ++ path).takeWhile (UrlPath.isSeparator true)).length := by
    simp [UrlPath.isSeparator]
  have hdrop : ('/' :: '/' :: h.text ++ path).drop 2 = h.text ++ path := rfl
  simp only [fileHierarchy, if_pos hslashes, hdrop, hspan, isDriveLetter_text hs, fileHost_text hs hl]
  rfl

section Head
variable {scheme : Text} {a : Authority} {h : Host} (ha : a.Settled scheme h)
include ha

private theorem notMem_slashes_text {d : Char} (hs : d ≠ '/') (hd : Authority.isTextChar d = false) :
    d ∉ '/' :: '/' :: a.text := by
  intro hm
  simp only [List.mem_cons, hs, false_or] at hm
  rw [Authority.isTextChar_of_mem_text ha hm] at hd
  cases hd

/-- Whatever the tail is, scheme and authority are read from the head. -/
theorem read_head_append (hs : isScheme scheme = true) (hl : scheme.map Char.toLower = scheme) (t : Text) :
    read (head scheme a ++ t) =
      hierarchy scheme ((queryOfTail t).isNone && (fragmentOfTail t).isNone) ('/' :: '/' :: a.text ++ pathOfTail t) >>=
        fun (authority, path) => .ok ⟨scheme, authority, path,
          (queryOfTail t).map (PercentEncoding.encode (querySet scheme)),
          (fragmentOfTail t).map (PercentEncoding.encode PercentEncoding.inFragmentSet)⟩ := by
  have hclean : cleaned (head scheme a ++ t) = scheme ++ ':' :: ('/' :: '/' :: a.text ++ cleanedTail t) := by
    rw [cleaned_append (fun c hc => Text.lt_of_isVisible (isVisible_of_mem_head ha hs hc)) (by simp [head])]
    simp [head]
  have hcut := Text.cut_append ('/' :: '/' :: a.text ++ cleanedTail t)
    (fun hm => (of_isSchemeChar ((mem_of_isScheme hs).2 _ hm)).2 rfl)
  have hnum := notMem_slashes_text ha (d := '#') (by decide) (by decide)
  have hquest := notMem_slashes_text ha (d := '?') (by decide) (by decide)
  rw [read, hclean, hcut]
  simp only [hs, hl, splitTail_append hnum, splitTail_append hquest]
  rfl

/-- The path in what follows an authority starts with a drive. -/
def opensDrive (t : Text) : Bool := (UrlPath.readFileSegments ((pathOfTail t).drop 1)).2

theorem read_head_eq (hs : isScheme scheme = true) (hl : scheme.map Char.toLower = scheme) (hf : scheme ≠ "file")
    {t : Text} (ht : OpensTail t) :
    read (head scheme a ++ t) = .ok ⟨scheme, some { a with port := Authority.keptPort scheme a.port },
      UrlPath.afterAuthority (SchemeKind.ofScheme scheme).isSpecial (pathOfTail t),
      (queryOfTail t).map (PercentEncoding.encode (querySet scheme)),
      (fragmentOfTail t).map (PercentEncoding.encode PercentEncoding.inFragmentSet)⟩ := by
  rw [read_head_append ha hs hl t, hierarchy_text ha hf _ (mem_head?_pathOfTail ht)]
  rfl

theorem read_head (hs : isScheme scheme = true) (hl : scheme.map Char.toLower = scheme) (hf : scheme ≠ "file")
    {t : Text} (ht : OpensTail t) :
    ∃ u, read (head scheme a ++ t) = .ok u ∧ u.scheme = scheme ∧
      u.authority = some { a with port := Authority.keptPort scheme a.port } :=
  ⟨_, read_head_eq ha hs hl hf ht, rfl, rfl⟩

omit ha in
theorem read_file_head (hs : h.Settled true) (hl : h ≠ .name "localhost") {t : Text} (ht : OpensTail t) :
    ∃ u, read (head "file" (fileServer h) ++ t) = .ok u ∧ u.scheme = "file" ∧
      u.authority = fileAuthority (if opensDrive t then none else some h) := by
  have hr := read_head_append (settled_fileServer hs) (by decide) (by decide) t
  have hhier : ∀ isLast, hierarchy "file" isLast ('/' :: '/' :: (fileServer h).text ++ pathOfTail t) =
      .ok (fileAuthority (if opensDrive t then none else some h),
        .rooted (UrlPath.readFileSegments ((pathOfTail t).drop 1)).1) := by
    intro isLast
    rw [text_fileServer]
    exact fileHierarchy_text hs hl (mem_head?_pathOfTail ht)
  rw [hhier] at hr
  exact ⟨_, hr, rfl, rfl⟩

end Head

/-- A URL whose server is named again by its written form. -/
structure Serves (u : Url) (a : Authority) (h : Host) : Prop where
  isScheme : isScheme u.scheme = true
  lower : u.scheme.map Char.toLower = u.scheme
  authority : u.authority = some a
  settled : a.Settled u.scheme h
  port : Authority.keptPort u.scheme a.port = a.port
  path : ∃ segments, u.path = .rooted segments
  file : u.scheme = "file" → a = fileServer h ∧ h ≠ .name "localhost"

private theorem settled_of_fileHost {t : Text} {h : Host} (hr : fileHost t = .ok (some h)) :
    h.Settled true ∧ h ≠ .name "localhost" := by
  unfold fileHost at hr
  split at hr
  · cases hr
  · cases ho : Host.ofDomain t with
    | error e => simp [ho, Except.map] at hr
    | ok g =>
      simp only [ho, Except.map, Except.ok.injEq] at hr
      split at hr
      · cases hr
      · rename_i hlocal
        cases hr
        exact ⟨Host.settled_of_ofDomain ho, hlocal⟩

private theorem settled_of_afterSlashes {scheme t : Text} {isLast : Bool} {a : Authority} {path : UrlPath} {h : Host}
    (hr : afterSlashes scheme isLast t = .ok (some a, path)) (hh : a.host = some h) :
    a.Settled scheme h ∧ Authority.keptPort scheme a.port = a.port ∧ ∃ segments, path = .rooted segments := by
  simp only [afterSlashes] at hr
  obtain ⟨⟨b, rest⟩, hb, hr⟩ := Traversal.bind_eq_ok hr
  cases hr
  obtain ⟨ha, hport⟩ := Authority.settled_of_read hb hh
  exact ⟨ha, hport, exists_rooted_afterAuthority _ _⟩

private theorem settled_of_fileHierarchy {t : Text} {a : Authority} {path : UrlPath} {h : Host}
    (hr : fileHierarchy t = .ok (some a, path)) (hh : a.host = some h) :
    a = fileServer h ∧ h.Settled true ∧ h ≠ .name "localhost" ∧ ∃ segments, path = .rooted segments := by
  simp only [fileHierarchy] at hr
  split at hr
  · split at hr
    · cases hr
      simp at hh
    · obtain ⟨⟨host, rest⟩, hhost, hr⟩ := Traversal.bind_eq_ok hr
      obtain ⟨g, hg, hhost⟩ := Traversal.exists_of_map_eq_ok hhost
      cases hhost
      cases hr
      simp only at hh
      split at hh
      · cases hh
      · rename_i hdrive
        subst hh
        obtain ⟨hs, hlocal⟩ := settled_of_fileHost hg
        rw [if_neg hdrive]
        exact ⟨rfl, hs, hlocal, _, rfl⟩
  · cases hr
    cases hh

private theorem settled_of_hierarchy {scheme t : Text} {isLast : Bool} {a : Authority} {path : UrlPath} {h : Host}
    (hr : hierarchy scheme isLast t = .ok (some a, path)) (hh : a.host = some h) :
    a.Settled scheme h ∧ Authority.keptPort scheme a.port = a.port ∧ (∃ segments, path = .rooted segments) ∧
      (scheme = "file" → a = fileServer h ∧ h ≠ .name "localhost") := by
  unfold hierarchy at hr
  split at hr
  · rename_i hk
    obtain rfl := scheme_of_file hk
    obtain ⟨rfl, hs, hlocal, hpath⟩ := settled_of_fileHierarchy hr hh
    exact ⟨settled_fileServer hs, rfl, hpath, fun _ => ⟨rfl, hlocal⟩⟩
  · rename_i hk
    obtain ⟨ha, hport, hpath⟩ := settled_of_afterSlashes hr hh
    refine ⟨ha, hport, hpath, ?_⟩
    rintro rfl
    cases hk
  · rename_i hk
    have hfile : scheme ≠ "file" := by
      rintro rfl
      cases hk
    split at hr
    · obtain ⟨ha, hport, hpath⟩ := settled_of_afterSlashes hr hh
      exact ⟨ha, hport, hpath, fun h => absurd h hfile⟩
    · cases hr
    · cases hr

/-- What a reading tells of scheme, authority and path. -/
theorem hierarchy_of_read {t : Text} {u : Url} (hr : read t = .ok u) :
    isScheme u.scheme = true ∧ u.scheme.map Char.toLower = u.scheme ∧
      ∃ isLast rest, hierarchy u.scheme isLast rest = .ok (u.authority, u.path) := by
  simp only [read] at hr
  split at hr
  · cases hr
  · split at hr
    · cases hr
    · rename_i scheme _ _ hs
      obtain ⟨⟨authority, path⟩, hhier, hr⟩ := Traversal.bind_eq_ok hr
      cases hr
      exact ⟨isScheme_map_toLower (by simpa using hs), Text.map_toLower_map_toLower scheme, _, _, hhier⟩

theorem serves_of_read {t : Text} {u : Url} (hr : read t = .ok u) (hh : u.hasHost = true) :
    ∃ a h, u.Serves a h := by
  obtain ⟨hs, hl, isLast, rest, hhier⟩ := hierarchy_of_read hr
  obtain ⟨h, hhost⟩ := Option.isSome_iff_exists.mp hh
  obtain ⟨a, hauth, ha⟩ := Option.bind_eq_some_iff.mp hhost
  rw [hauth] at hhier
  obtain ⟨hsettled, hport, hpath, hlocal⟩ := settled_of_hierarchy hhier ha
  exact ⟨a, h, hs, hl, hauth, hsettled, hport, hpath, hlocal⟩

end Url
end DeviceDescription
