import DeviceDescription.Proofs.ServerRoots

/-!
# Resolution of what was resolved

A URL that was resolved is written in visible characters and read back from them, so it is found again whatever the base
is. A slash at the end of a base is the one that resolution would add, so it may as well be there.
-/
namespace DeviceDescription

private theorem Url.read_of_ofComposed [InternationalNames] {t : Text} {u : Url} (h : ofComposed t = .ok u) :
    read t = .ok u := by
  rw [ofComposed] at h
  split at h
  · cases h
    assumption
  · cases h

namespace UrlReference

open Url UrlPath

variable {base u : Url} {a : Authority} {h : Host}

private theorem exists_read_of_resolve [InternationalNames] {b : Option Url} {raw : Option Text}
    (hr : resolve b raw = .ok (some u)) :
    ∃ t, Url.read t = .ok u := by
  have hn : Text.trim (raw.getD []) ≠ [] := by
    intro hn
    rw [resolve_of_blank raw b hn] at hr
    cases hr
  cases habs : absolute? (Text.trim (raw.getD [])) with
  | some v =>
    rw [resolve_of_absolute raw b habs hn] at hr
    cases hr
    exact ⟨_, (read_of_absolute? habs).1⟩
  | none =>
    rw [resolve_of_relative raw b habs hn] at hr
    obtain ⟨v, hv, hvu⟩ := Traversal.exists_of_map_eq_ok hr
    obtain rfl := Option.some.inj hvu
    cases b with
    | none => cases hv
    | some base =>
      obtain ⟨t, -, ht⟩ := Traversal.bind_eq_ok hv
      exact ⟨t, read_of_ofComposed ht⟩

/-- A settled URL is its own resolution against any base. -/
theorem resolve_text [InternationalNames] (hu : u.Settled a h) (b : Option Url) :
    resolve b (some u.text) = .ok (some u) := by
  have htrim : Text.trim u.text = u.text :=
    Text.trim_eq_self fun c hc => Text.isBlank_of_isVisible (hu.isVisible_of_mem_text hc)
  have hne : u.text ≠ [] := by simp [Url.text]
  have hhost : u.hasHost = true := Option.isSome_of_eq_some (host?_of_serves hu.serves)
  have habs : absolute? u.text = some u := by simp only [absolute?, hu.read_text, hhost, if_true]
  exact resolve_of_absolute _ b (by rwa [Option.getD_some, htrim]) (by rwa [Option.getD_some, htrim])

/-- What a reference is resolved to is found again from its written form, whatever the later base is. -/
theorem resolve_again [InternationalNames] {b : Option Url} {raw : Option Text} (hr : resolve b raw = .ok (some u))
    (hh : u.hasHost = true) (hf : u.scheme ≠ "file") (later : Option Url) :
    resolve later (some u.text) = .ok (some u) := by
  obtain ⟨t, ht⟩ := exists_read_of_resolve hr
  obtain ⟨a, h, hu⟩ := Url.settled_of_read ht hh hf
  exact resolve_text hu later

namespace SampleNames

/-- Of the international names, this rule knows one. -/
scoped instance oneName : InternationalNames where
  toAscii? t := if t = "münchen.de" ∨ t = "xn--mnchen-3ya.de" then some "xn--mnchen-3ya.de" else none
  permitted h := by
    obtain rfl := Option.some.inj (Option.ite_none_right_eq_some.mp h).2
    simp [Host.isForbiddenInDomain]
  lowerCase h := by
    obtain rfl := Option.some.inj (Option.ite_none_right_eq_some.mp h).2
    decide
  fixed h _ := by
    obtain rfl := Option.some.inj (Option.ite_none_right_eq_some.mp h).2
    exact if_pos (.inr rfl)

end SampleNames

open SampleNames in
/-- The server has an international name. The text of the reference has a blank in front, a backslash, and characters
that are escaped once. -/
theorem resolve_again_escaped :
    ∃ base u later, Url.read "http://me:pw@münchen.de:8080/d/x.xml" = .ok base ∧ Url.read "ws://other/" = .ok later ∧
      resolve (some base) (some " a\\..\\b c?it's \"q\"#é ") = .ok (some u) ∧ u.hasHost = true ∧ u.scheme ≠ "file" ∧
      u.text = "http://me:pw@xn--mnchen-3ya.de:8080/d/x.xml/b%20c?it%27s%20%22q%22#%C3%A9" ∧
      resolve (some later) (some u.text) = .ok (some u) ∧ resolve none (some u.text) = .ok (some u) := by
  have hfacts : ((Url.read "http://me:pw@münchen.de:8080/d/x.xml").toOption.bind fun base =>
      (resolve (some base) (some " a\\..\\b c?it's \"q\"#é ")).toOption.join.map fun u =>
        (u.hasHost, u.scheme, u.text)) = some (true, ("http" : Text),
          ("http://me:pw@xn--mnchen-3ya.de:8080/d/x.xml/b%20c?it%27s%20%22q%22#%C3%A9" : Text)) := by
    decide +kernel
  have hlater : (Url.read "ws://other/").toOption.map Url.hasHost = some true := by decide +kernel
  obtain ⟨base, hbase, hfacts⟩ := Option.bind_eq_some_iff.mp hfacts
  obtain ⟨u, hu, hfacts⟩ := Option.map_eq_some_iff.mp hfacts
  simp only [Prod.mk.injEq] at hfacts
  obtain ⟨hhost, hscheme, htext⟩ := hfacts
  obtain ⟨later, hlater, -⟩ := Traversal.exists_ok_of_toOption_map hlater
  have hresolved := Traversal.eq_ok_of_toOption (Option.join_eq_some_iff.mp hu)
  have hf : u.scheme ≠ "file" := by
    rw [hscheme]
    decide
  have hagain := resolve_again hresolved hhost hf
  exact ⟨base, u, later, Traversal.eq_ok_of_toOption hbase, hlater, hresolved, hhost, hf, htext, hagain _, hagain _⟩

@[simp] theorem withFinalSlash_withFinalSlash (t : Text) : withFinalSlash (withFinalSlash t) = withFinalSlash t := by
  apply withFinalSlash_of_getLast?
  rw [withFinalSlash]
  split
  · assumption
  · exact List.getLast?_concat

private theorem withFinalSlash_text [InternationalNames] (hb : base.Serves a h) (hquery : base.query = none)
    (hfragment : base.fragment = none) (hpath : base.path.text.getLast? ≠ some '/') :
    withFinalSlash base.text = base.text ++ ['/'] := by
  have htail : base.tail = base.path.text := by simp [Url.tail, hquery, hfragment]
  rw [text_of_serves hb, withFinalSlash_head hb.settled, htail, withFinalSlash, if_neg hpath, List.append_assoc]

/-- With a slash behind it, a base that ends with its path is read as having one more segment, which is empty. -/
theorem exists_slashed [InternationalNames] (hb : base.Settled a h) (hquery : base.query = none)
    (hfragment : base.fragment = none) :
    ∃ slashed, Url.read (base.text ++ ['/']) = .ok slashed ∧ slashed.text = base.text ++ ['/'] ∧
      slashed.origin = base.origin := by
  obtain ⟨segments, hsegments, hsettled, -⟩ := hb.path
  have hs := hb.serves
  let slashed : Url := { base with path := .rooted (segments ++ [[]]) }
  have hslashed : slashed.Settled a h := {
    serves := ⟨hs.isScheme, hs.lower, hs.authority, hs.settled, hs.port, ⟨_, rfl⟩, hs.file⟩
    notFile := hb.notFile
    path := by
      refine ⟨_, rfl, fun s hm => ?_, fun _ => by simp⟩
      rcases List.mem_append.mp hm with hm | hm
      · exact hsettled s hm
      · exact List.mem_singleton.mp hm ▸ settledSegment_nil
    query := hb.query
    fragment := hb.fragment }
  have htext : slashed.text = base.text ++ ['/'] := by
    rw [text_of_serves hslashed.serves, text_of_serves hs]
    simp [Url.tail, slashed, hquery, hfragment, hsegments, text_rooted_concat]
  have hhost : base.hasHost = true := Option.isSome_of_eq_some (host?_of_serves hs)
  exact ⟨slashed, htext ▸ hslashed.read_text, htext, origin_congr rfl rfl rfl hhost⟩

/-- Where no query and no fragment comes behind the path, a base means the same with a slash at its end. -/
theorem resolve_of_final_slash [InternationalNames] {t : Text} (hread : Url.read t = .ok base)
    (hh : base.hasHost = true) (hf : base.scheme ≠ "file") (hquery : base.query = none)
    (hfragment : base.fragment = none) (hpath : base.path.text.getLast? ≠ some '/') :
    ∃ slashed, Url.read (base.text ++ ['/']) = .ok slashed ∧ slashed.text = base.text ++ ['/'] ∧
      ∀ raw, ∃ r, resolve (some base) raw = .ok r ∧ resolve (some slashed) raw = .ok r := by
  obtain ⟨a, h, hb⟩ := Url.settled_of_read hread hh hf
  obtain ⟨slashed, hslashed, htext, horigin⟩ := exists_slashed hb hquery hfragment
  have hfinal := withFinalSlash_text hb.serves hquery hfragment hpath
  refine ⟨slashed, hslashed, htext, fun raw => ?_⟩
  have hcompose : ∀ reference, compose base reference = compose slashed reference := by
    intro reference
    unfold compose
    split
    · rw [horigin]
    · rw [htext, ← hfinal, withFinalSlash_withFinalSlash]
  obtain ⟨r, hr, -⟩ := exists_resolve hb.serves hf raw
  exact ⟨r, hr, resolve_congr (hcompose _) ▸ hr⟩

open InternationalNames in
/-- Dot segments climb out of the base in both forms. -/
theorem resolve_of_final_slash_climbing :
    ∃ base slashed u, Url.read "foo://me@host:7/d/x" = .ok base ∧ base.hasHost = true ∧ base.scheme ≠ "file" ∧
      base.query = none ∧ base.fragment = none ∧ base.path.text.getLast? ≠ some '/' ∧
      Url.read "foo://me@host:7/d/x/" = .ok slashed ∧ resolve (some base) (some "../../../e?q") = .ok (some u) ∧
      resolve (some slashed) (some "../../../e?q") = .ok (some u) ∧ u.text = "foo://me@host:7/e?q" := by
  have hfacts : (Url.read "foo://me@host:7/d/x").toOption.map (fun base =>
      ((base.scheme, base.hasHost), (base.query, base.fragment), base.path.text, base.text)) =
      some ((("foo" : Text), true), (none, none), ("/d/x" : Text), ("foo://me@host:7/d/x" : Text)) := by
    decide +kernel
  have hresolved : ((Url.read "foo://me@host:7/d/x").toOption.bind fun base =>
      (resolve (some base) (some "../../../e?q")).toOption.join.map Url.text) =
        some ("foo://me@host:7/e?q" : Text) := by
    decide +kernel
  obtain ⟨base, hread, hfacts⟩ := Traversal.exists_ok_of_toOption_map hfacts
  simp only [Prod.mk.injEq] at hfacts
  obtain ⟨⟨hscheme, hhost⟩, ⟨hquery, hfragment⟩, hpath, htext⟩ := hfacts
  rw [hread] at hresolved
  obtain ⟨u, hu, hutext⟩ := Option.map_eq_some_iff.mp hresolved
  have hres := Traversal.eq_ok_of_toOption (Option.join_eq_some_iff.mp hu)
  have hf : base.scheme ≠ "file" := by
    rw [hscheme]
    decide
  have hlast : base.path.text.getLast? ≠ some '/' := by
    rw [hpath]
    decide
  obtain ⟨slashed, hslashed, -, hsame⟩ := resolve_of_final_slash hread hhost hf hquery hfragment hlast
  obtain ⟨r, hr, hr'⟩ := hsame (some "../../../e?q")
  obtain rfl := Except.ok.inj (hres.symm.trans hr)
  rw [htext] at hslashed
  exact ⟨base, slashed, u, hread, hhost, hf, hquery, hfragment, hlast, hslashed, hr, hr', hutext⟩

end UrlReference
end DeviceDescription
