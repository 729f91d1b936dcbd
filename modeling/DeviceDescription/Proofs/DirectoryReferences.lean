import DeviceDescription.Proofs.WrittenUrls

/-!
# Plain references and directories

A plain reference is appended to the path of its base, behind one slash. The directory of a URL is written without
the slash that ends it, so what is appended to it stands beside the URL, except where an empty segment comes last in
the directory: its slash is taken for the one that was left out.
-/
namespace DeviceDescription

private theorem Authority.isSome_host_of_read [InternationalNames] {scheme t rest : Text} {isLast : Bool}
    {a : Authority} (hs : (SchemeKind.ofScheme scheme).isSpecial = true) (hr : read scheme isLast t = .ok (a, rest)) :
    a.host.isSome = true := by
  simp only [read] at hr
  split at hr
  · cases hr
  · obtain ⟨host, hhost, hr⟩ := Traversal.bind_eq_ok hr
    have hsome : host.isSome = true := by
      rw [readHost, if_pos hs] at hhost
      split at hhost
      · cases hhost
      · obtain ⟨h, -, rfl⟩ := Traversal.exists_of_map_eq_ok hhost
        rfl
    split at hr
    · split at hr
      · cases hr
      · cases hr
        exact hsome
    · split at hr
      · cases hr
      · obtain ⟨⟨port, rest'⟩, -, hr⟩ := Traversal.bind_eq_ok hr
        cases hr
        exact hsome

namespace Url

theorem hasHost_of_read [InternationalNames] {t : Text} {u : Url} (hr : read t = .ok u)
    (hs : SchemeKind.ofScheme u.scheme = .special) :
    u.hasHost = true := by
  obtain ⟨-, -, isLast, rest, hhier⟩ := hierarchy_of_read hr
  simp only [hierarchy, hs, afterSlashes] at hhier
  obtain ⟨⟨a, rest'⟩, ha, hhier⟩ := Traversal.bind_eq_ok hhier
  have hauth : some a = u.authority := (Prod.mk.inj (Except.ok.inj hhier)).1
  rw [hasHost, ← hauth]
  exact Authority.isSome_host_of_read (by rw [hs]; rfl) ha

end Url

namespace UrlReference

open UrlPath

variable {r : Text} {segments rest : List Text}

theorem withFinalSlash_of_getLast? {t : Text} (h : t.getLast? = some '/') : withFinalSlash t = t := if_pos h

private theorem getLast?_text_concat (segments : List Text) {s : Text} (hs : '/' ∉ s) (hn : s ≠ []) :
    (rooted (segments ++ [s])).text.getLast? ≠ some '/' := by
  rw [text_rooted_concat, List.append_cons, List.getLast?_append, List.getLast?_eq_some_getLast hn, Option.some_or]
  intro he
  exact hs (Option.some.inj he ▸ List.getLast_mem hn)

theorem withFinalSlash_ofSegments (special : Bool) (segments : List Text) :
    withFinalSlash (ofSegments special segments).text = withFinalSlash (rooted segments).text := by
  rw [ofSegments]
  split
  · rename_i he
    rw [he.1]
    rfl
  · rfl

/-- What is appended to a path continues its segments. An empty segment at the end gives its slash away. -/
theorem exists_rooted_withFinalSlash (hs : ∀ s ∈ segments, '/' ∉ s) (hr : '/' :: r = (rooted rest).text) :
    ∃ before, (∀ s ∈ before, s ∈ segments) ∧
      withFinalSlash (rooted segments).text ++ r = (rooted (before ++ rest)).text := by
  rcases List.eq_nil_or_concat segments with rfl | ⟨before, last, rfl⟩
  · exact ⟨[], by simp, hr⟩
  · rw [List.concat_eq_append] at hs ⊢
    by_cases hl : last = []
    · subst hl
      refine ⟨before, fun s h => List.mem_append_left _ h, ?_⟩
      rw [text_rooted_concat, withFinalSlash_of_getLast? List.getLast?_concat, text_rooted_append, ← hr,
        List.append_assoc]
      rfl
    · have hlast := getLast?_text_concat before (hs last (by simp)) hl
      refine ⟨before ++ [last], fun s h => h, ?_⟩
      rw [withFinalSlash, if_neg hlast, text_rooted_append _ rest, ← hr, List.append_assoc]
      rfl

def isPlainChar (c : Char) : Bool := c.isAlphanum || c = '-' || c = '_'

/-- One or more segments of letters, digits, dashes and underscores, none of them empty. -/
def isPlain (r : Text) : Bool := (r.splitOn '/').all fun s => s ≠ [] && s.all isPlainChar

private theorem cons_slash_intercalate (segments : List Text) (h : segments ≠ []) :
    '/' :: List.intercalate ['/'] segments = (rooted segments).text := by
  induction segments with
  | nil => exact absurd rfl h
  | cons s rest ih =>
    cases rest with
    | nil => simp [text]
    | cons s' rest =>
      rw [List.intercalate_cons_cons, text, List.flatMap_cons]
      have hrest := ih (List.cons_ne_nil _ _)
      rw [text] at hrest
      rw [← hrest]
      simp

theorem cons_slash_splitOn (r : Text) : '/' :: r = (rooted (r.splitOn '/')).text := by
  have hne : r.splitOn '/' ≠ [] := List.splitOnP_ne_nil _ r
  rw [← cons_slash_intercalate _ hne, List.intercalate_splitOn]

private theorem toNat_lt_of_isPlainChar {c : Char} (h : isPlainChar c = true) : c.toNat < 128 := by
  simp only [isPlainChar, Bool.or_eq_true, decide_eq_true_eq] at h
  rcases h with (h | rfl) | rfl
  · have hascii := Text.eq_false_of_isAlphanum (128 ≤ ·.toNat) (by decide) h
    exact Nat.not_le.mp (of_decide_eq_false hascii)
  · decide
  · decide

theorem eq_false_of_isPlainChar {p : Char → Bool}
    (hp : ∀ n < 128, isPlainChar (Char.ofNat n) = true → p (Char.ofNat n) = false) {c : Char}
    (h : isPlainChar c = true) : p c = false := by
  have hc := hp c.toNat (toNat_lt_of_isPlainChar h)
  rw [Char.ofNat_toNat] at hc
  exact hc h

section Plain
variable (h : isPlain r = true)
include h

theorem segment_of_isPlain {s : Text} (hs : s ∈ r.splitOn '/') : s ≠ [] ∧ ∀ c ∈ s, isPlainChar c = true := by
  have hs := List.all_eq_true.mp h s hs
  rwa [Bool.and_eq_true, decide_eq_true_iff, List.all_eq_true] at hs

private theorem mem_of_isPlain {c : Char} (hc : c ∈ r) : c = '/' ∨ isPlainChar c = true := by
  have hm : c ∈ (rooted (r.splitOn '/')).text := cons_slash_splitOn r ▸ List.mem_cons_of_mem _ hc
  obtain ⟨s, hs, hc⟩ := List.mem_flatMap.mp hm
  rcases List.mem_cons.mp hc with rfl | hc
  · exact .inl rfl
  · exact .inr ((segment_of_isPlain h hs).2 c hc)

theorem eq_false_of_isPlain {p : Char → Bool} (hslash : p '/' = false)
    (hp : ∀ n < 128, isPlainChar (Char.ofNat n) = true → p (Char.ofNat n) = false) {c : Char} (hc : c ∈ r) :
    p c = false := by
  rcases mem_of_isPlain h hc with rfl | hc
  · exact hslash
  · exact eq_false_of_isPlainChar hp hc

private theorem trim_of_isPlain : Text.trim r = r := by
  apply Text.trim_eq_self
  intro c hc
  exact eq_false_of_isPlain h (by decide) (by decide) hc

private theorem withSlashes_of_isPlain : withSlashes r = r := by
  have hid : ∀ c ∈ r, (if c = '\\' then '/' else c) = id c := by
    intro c hc
    have hback := eq_false_of_isPlain (p := (· = '\\')) h (by decide) (by decide) hc
    exact if_neg (of_decide_eq_false hback)
  rw [withSlashes, List.map_congr_left hid, List.map_id]

private theorem absolute?_of_isPlain [InternationalNames] : absolute? r = none := by
  have hcolon : ':' ∉ Url.cleaned r := by
    intro hc
    have hr : ':' ∈ r := by
      have hf := List.mem_of_mem_filter hc
      rw [Text.dropEndWhile, List.mem_reverse] at hf
      exact List.dropWhile_subset _ (List.mem_reverse.mp (List.dropWhile_subset _ hf))
    have hno := eq_false_of_isPlain (p := (· = ':')) h (by decide) (by decide) hr
    exact absurd rfl (of_decide_eq_false hno)
  simp only [absolute?, Url.read, Text.cut_eq_none_iff.mpr hcolon]

private theorem ne_slash_cons_of_isPlain (t : Text) : r ≠ '/' :: t := by
  rintro rfl
  have hm : [] ∈ ('/' :: t).splitOn '/' := by simp [List.splitOn, List.splitOnP_cons_eq_if_modifyHead]
  exact (segment_of_isPlain h hm).1 rfl

theorem ne_nil_of_isPlain : r ≠ [] := by
  rintro rfl
  cases h

private theorem settled_of_isPlain (special : Bool) : ∀ s ∈ r.splitOn '/', SettledSegment special s := by
  intro s hs
  obtain ⟨-, hplain⟩ := segment_of_isPlain h hs
  have hdot : '.' ∉ lowerAscii s ∧ '%' ∉ lowerAscii s := by
    constructor <;> intro hm <;> obtain ⟨c, hc, he⟩ := List.mem_map.mp hm
    · have hno := eq_false_of_isPlainChar (p := fun c => c.toLower = '.') (by decide) (hplain c hc)
      exact of_decide_eq_false hno he
    · have hno := eq_false_of_isPlainChar (p := fun c => c.toLower = '%') (by decide) (hplain c hc)
      exact of_decide_eq_false hno he
  refine ⟨fun c hc => ⟨?_, ?_⟩, ?_, ?_⟩
  · exact eq_false_of_isPlainChar (by decide) (hplain c hc)
  · cases special <;> exact eq_false_of_isPlainChar (by decide) (hplain c hc)
  · rw [isSingleDot, decide_eq_false_iff_not]
    intro hm
    rcases List.mem_cons.mp hm with he | hm
    · exact hdot.1 (he ▸ by decide)
    · exact hdot.2 (List.mem_singleton.mp hm ▸ by decide)
  · rw [isDoubleDot, decide_eq_false_iff_not]
    intro hm
    simp only [List.mem_cons, List.not_mem_nil, or_false] at hm
    rcases hm with he | he | he | he
    all_goals exact absurd (he ▸ hdot) (by decide)

end Plain

open Url

/-- A plain reference leads to the settled URL that is written as the base, extended by the reference. -/
theorem resolve_of_text [InternationalNames] {base u : Url} {a : Authority} {h : Host} (hu : u.Settled a h)
    (hr : isPlain r = true) (htext : u.text = withFinalSlash base.text ++ r) :
    resolve (some base) (some r) = .ok (some u) := by
  have hcompose : compose base r = .ok u.text := by
    rw [compose, htext]
    exact ne_slash_cons_of_isPlain hr
  have hrelative : resolveRelative (some base) r = .ok u := by
    simp only [resolveRelative, withSlashes_of_isPlain hr, hcompose, Traversal.ok_bind, ofComposed, hu.read_text]
  have hres := resolve_of_relative (some r) (some base) (by simpa [trim_of_isPlain hr] using absolute?_of_isPlain hr)
    (by simpa [trim_of_isPlain hr] using ne_nil_of_isPlain hr)
  rwa [Option.getD_some, trim_of_isPlain hr, hrelative] at hres

/-- Against a base without query and fragment, a plain reference is appended to the path. -/
theorem resolve_of_isPlain [InternationalNames] {base : Url} {a : Authority} {h : Host} (hb : base.Serves a h)
    (hf : base.scheme ≠ "file") (hpath : base.path.IsSettled (SchemeKind.ofScheme base.scheme).isSpecial)
    (hquery : base.query = none) (hfragment : base.fragment = none) (hr : isPlain r = true) :
    ∃ u, resolve (some base) (some r) = .ok (some u) ∧ u.scheme = base.scheme ∧ u.authority = base.authority ∧
      u.query = none ∧ u.fragment = none ∧ u.path.text = withFinalSlash base.path.text ++ r := by
  obtain ⟨segments, hsegments, hsettled, -⟩ := hpath
  obtain ⟨before, hbefore, htext⟩ :=
    exists_rooted_withFinalSlash (fun s hs => (hsettled s hs).slash_notMem) (cons_slash_splitOn r)
  have hall : ∀ s ∈ before ++ r.splitOn '/', SettledSegment (SchemeKind.ofScheme base.scheme).isSpecial s := by
    intro s hs
    rcases List.mem_append.mp hs with hs | hs
    · exact hsettled s (hbefore s hs)
    · exact settled_of_isPlain hr _ s hs
  have hne : before ++ r.splitOn '/' ≠ [] := by
    intro he
    exact List.splitOnP_ne_nil _ r (List.append_eq_nil_iff.mp he).2
  let u : Url := ⟨base.scheme, some a, .rooted (before ++ r.splitOn '/'), none, none⟩
  have hu : u.Settled a h := {
    serves := ⟨hb.isScheme, hb.lower, rfl, hb.settled, hb.port, ⟨_, rfl⟩, fun he => absurd he hf⟩
    notFile := hf
    path := ⟨_, rfl, hall, fun _ => hne⟩
    query := nofun
    fragment := nofun }
  have hbase : base.tail = (rooted segments).text := by
    simp [Url.tail, hquery, hfragment, hsegments]
  have hextended : u.text = withFinalSlash base.text ++ r := by
    rw [text_of_serves hu.serves, text_of_serves hb, withFinalSlash_head hb.settled, hbase, List.append_assoc, htext]
    simp [Url.tail, u]
  exact ⟨u, resolve_of_text hu hr hextended, rfl, hb.authority.symm, rfl, rfl, by rw [hsegments, htext]⟩

end UrlReference

def Authority.withoutCredentials (a : Authority) : Authority := { a with username := [], password := [] }

namespace Url

open UrlPath

variable {u : Url} {a : Authority} {h : Host}

variable [InternationalNames]

/-- Writing out the port in use and reading it leaves the authority without its credentials. -/
theorem originAuthority_of_serves (hu : u.Serves a h) :
    { u.originAuthority with port := Authority.keptPort u.scheme u.originAuthority.port } = a.withoutCredentials := by
  have hport : Authority.keptPort u.scheme u.effectivePort = a.port := by
    rw [effectivePort_of_serves hu]
    cases hp : a.port with
    | none => cases hd : defaultPort u.scheme <;> simp [Authority.keptPort, Option.filter, hd]
    | some p =>
      have hkept := hu.port
      rw [hp] at hkept
      exact hkept
  have hhost := host?_of_serves hu
  rw [originAuthority, Authority.withoutCredentials]
  simp only [hport, hhost, hu.settled.host]

private theorem serves_withoutCredentials (hu : u.Serves a h) (hf : u.scheme ≠ "file") (special : Bool)
    (segments : List Text) :
    Serves ⟨u.scheme, some a.withoutCredentials, .ofSegments special segments, none, none⟩ a.withoutCredentials h where
  isScheme := hu.isScheme
  lower := hu.lower
  authority := rfl
  settled := {
    username := by simp [Authority.withoutCredentials]
    password := by simp [Authority.withoutCredentials]
    host := hu.settled.host
    settled := hu.settled.settled
    port := hu.settled.port }
  port := hu.port
  path := ⟨_, rfl⟩
  file he := absurd he hf

/-- The directory of a URL is read back from the segments that are kept of its path. -/
theorem directory_of_directoryPath (hu : u.Serves a h) (hf : u.scheme ≠ "file") {before : List Text}
    (hdirectory : u.directoryPath = (rooted before).text)
    (hsettled : ∀ s ∈ before, SettledSegment (SchemeKind.ofScheme u.scheme).isSpecial s) :
    u.directory = .ok ⟨u.scheme, some a.withoutCredentials,
      .ofSegments (SchemeKind.ofScheme u.scheme).isSpecial before, none, none⟩ := by
  have hread := read_head_path (settled_originAuthority hu) hu.isScheme hu.lower hf hsettled
  rw [originAuthority_of_serves hu] at hread
  simp only [directory, origin_of_serves hu, Traversal.ok_bind, hdirectory, ofComposed, hread]

theorem directory_eq (hu : u.Serves a h) (hf : u.scheme ≠ "file") {before : List Text} {file : Text}
    (hpath : u.path = .rooted (before ++ [file]))
    (hsettled : ∀ s ∈ before ++ [file], SettledSegment (SchemeKind.ofScheme u.scheme).isSpecial s) :
    u.directory = .ok ⟨u.scheme, some a.withoutCredentials,
      .ofSegments (SchemeKind.ofScheme u.scheme).isSpecial before, none, none⟩ := by
  have hdirectory : u.directoryPath = (rooted before).text := by
    rw [directoryPath, hpath, text_rooted_concat, Text.cutLast_append _ (hsettled file (by simp)).slash_notMem]
  exact directory_of_directoryPath hu hf hdirectory fun s hs => hsettled s (List.mem_append_left _ hs)

end Url

namespace UrlReference

open Url UrlPath

/-- A plain reference is resolved beside a location: to the server of the location, with no credentials, no query
and no fragment, and to what stands before the last slash of the path, continued by the reference. The slash between
them is missing if the path has an empty segment there. -/
theorem resolve_beside [InternationalNames] {location : Url} {t r : Text} (hread : Url.read t = .ok location)
    (hs : location.scheme = "http" ∨ location.scheme = "https") (hr : isPlain r = true) :
    ∃ directory file base u, location.path.text = directory ++ '/' :: file ∧ '/' ∉ file ∧
      location.directory = .ok base ∧ resolve (some base) (some r) = .ok (some u) ∧
      u.scheme = location.scheme ∧ u.authority = location.authority.map Authority.withoutCredentials ∧
      u.query = none ∧ u.fragment = none ∧
      u.path.text = if directory.getLast? = some '/' then directory ++ r else directory ++ '/' :: r := by
  have hspecial : SchemeKind.ofScheme location.scheme = .special := by
    rcases hs with hs | hs <;> rw [hs] <;> rfl
  have hf : location.scheme ≠ "file" := by
    intro hf
    rw [hf] at hspecial
    cases hspecial
  obtain ⟨a, h, hserves⟩ := serves_of_read hread (hasHost_of_read hread hspecial)
  obtain ⟨segments, hpath, hsettled, hne⟩ := settled_path_of_read hread hserves.authority hf
  rcases List.eq_nil_or_concat segments with rfl | ⟨before, file, rfl⟩
  · exact absurd rfl (hne (by rw [hspecial]; rfl))
  rw [List.concat_eq_append] at hpath hsettled
  have hbefore : ∀ s ∈ before, SettledSegment (SchemeKind.ofScheme location.scheme).isSpecial s :=
    fun s hs => hsettled s (List.mem_append_left _ hs)
  obtain ⟨u, hu, hscheme, hauth, hquery, hfragment, htext⟩ :=
    resolve_of_isPlain (serves_withoutCredentials hserves hf _ before) hf (isSettled_ofSegments hbefore) rfl rfl hr
  refine ⟨(rooted before).text, file, _, u, ?_, (hsettled file (by simp)).slash_notMem,
    directory_eq hserves hf hpath hsettled, hu, hscheme, ?_, hquery, hfragment, ?_⟩
  · rw [hpath, text_rooted_concat]
  · rw [hauth, hserves.authority, Option.map_some]
  · rw [htext, withFinalSlash_ofSegments, withFinalSlash]
    split
    · rfl
    · rw [List.append_assoc, List.singleton_append]

open InternationalNames in
/-- Credentials, query and fragment are left out, and an empty segment further up is kept. -/
theorem resolve_beside_nested :
    ∃ location base u, Url.read "http://me:pw@host:8080/a//b/desc.xml?q=/x#f" = .ok location ∧
      location.scheme = "http" ∧ isPlain "p/q-1" = true ∧ location.directory = .ok base ∧
      resolve (some base) (some "p/q-1") = .ok (some u) ∧ u.authority.map Authority.text = some "host:8080" ∧
      u.path.text = "/a//b/p/q-1" := by
  have hfacts : (Url.read "http://me:pw@host:8080/a//b/desc.xml?q=/x#f").toOption.map (fun location =>
      (location.scheme, location.path.text, location.authority.map fun a => a.withoutCredentials.text)) =
      some (("http" : Text), ("/a//b/desc.xml" : Text), some ("host:8080" : Text)) := by decide +kernel
  obtain ⟨location, hread, hfacts⟩ := Traversal.exists_ok_of_toOption_map hfacts
  simp only [Prod.mk.injEq] at hfacts
  obtain ⟨hscheme, hpath, hauthority⟩ := hfacts
  have hplain : isPlain "p/q-1" = true := by decide +kernel
  obtain ⟨directory, file, base, u, hsplit, hfile, hbase, hu, -, hauth, -, -, htext⟩ :=
    resolve_beside hread (.inl hscheme) hplain
  have hcut := Text.cutLast_append directory hfile
  rw [← hsplit, hpath] at hcut
  have hcut' : Text.cutLast '/' "/a//b/desc.xml" = some (("/a//b" : Text), ("desc.xml" : Text)) := by decide
  obtain ⟨rfl, -⟩ := Prod.mk.inj (Option.some.inj (hcut.symm.trans hcut'))
  refine ⟨location, base, u, hread, hscheme, hplain, hbase, hu, ?_, htext⟩
  rw [hauth, Option.map_map]
  exact hauthority

open InternationalNames in
/-- Beside a document in a directory whose last segment is empty, a slash is lost. -/
theorem not_resolve_beside :
    ¬∀ (location base u : Url) (t r directory file : Text), Url.read t = .ok location → location.scheme = "http" →
      isPlain r = true → location.directory = .ok base → resolve (some base) (some r) = .ok (some u) →
      location.path.text = directory ++ '/' :: file → '/' ∉ file → u.path.text = directory ++ '/' :: r := by
  intro hall
  have hfacts : (Url.read "http://host/a//b.xml").toOption.map (fun location => (location.scheme, location.path.text)) =
      some (("http" : Text), ("/a//b.xml" : Text)) := by decide +kernel
  obtain ⟨location, hread, hfacts⟩ := Traversal.exists_ok_of_toOption_map hfacts
  obtain ⟨hscheme, hpath⟩ := Prod.mk.inj hfacts
  have hresolved : ((Url.read "http://host/a//b.xml").toOption.bind fun location =>
      location.directory.toOption.bind fun base =>
        (resolve (some base) (some "p")).toOption.join.map fun u => u.path.text) = some ("/a/p" : Text) := by
    decide +kernel
  rw [hread] at hresolved
  change (location.directory.toOption.bind _) = _ at hresolved
  obtain ⟨base, hbase, hresolved⟩ := Option.bind_eq_some_iff.mp hresolved
  obtain ⟨u, hu, htext⟩ := Option.map_eq_some_iff.mp hresolved
  have hu' := Traversal.eq_ok_of_toOption (Option.join_eq_some_iff.mp hu)
  have hclaimed := hall location base u _ "p" "/a/" "b.xml" hread hscheme (by decide)
    (Traversal.eq_ok_of_toOption hbase) hu' hpath (by decide)
  rw [htext] at hclaimed
  exact absurd hclaimed (by decide)

end UrlReference
end DeviceDescription
