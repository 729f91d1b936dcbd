import DeviceDescription.Description
import DeviceDescription.Proofs.DirectoryReferences

/-!
# Roots and directories

The root of a URL is its server alone, and the directory keeps the path in front of the last slash. Both are read back
on the server of the URL, so a reference that begins with a slash leads to the same place from either of the two.
-/
namespace DeviceDescription

namespace Url

open UrlPath

variable {u v : Url} {a : Authority} {h : Host}

/-- A URL on the server of another one that names nothing but a path there. -/
structure IsBareOn (v u : Url) : Prop where
  scheme : v.scheme = u.scheme
  host : v.host? = u.host?
  port : v.effectivePort = u.effectivePort
  credentials : ∀ a ∈ v.authority, a.username = [] ∧ a.password = []
  query : v.query = none
  fragment : v.fragment = none

theorem isBareOn_of_serves [InternationalNames] (hu : u.Serves a h) (path : UrlPath) :
    IsBareOn ⟨u.scheme, some a.withoutCredentials, path, none, none⟩ u where
  scheme := rfl
  host := (host?_of_serves hu).symm ▸ hu.settled.host
  port := (effectivePort_of_serves hu).symm
  credentials := by
    rintro _ ⟨⟩
    exact ⟨rfl, rfl⟩
  query := rfl
  fragment := rfl

/-- The root shows scheme, host and port in use, and nothing else of a URL with a host. -/
theorem origin_congr (hscheme : v.scheme = u.scheme) (hhost : v.host? = u.host?)
    (hport : v.effectivePort = u.effectivePort) (hh : u.hasHost = true) : v.origin = u.origin := by
  obtain ⟨host, hu⟩ := Option.isSome_iff_exists.mp hh
  change u.host? = some host at hu
  simp only [origin, hhost, hu, hscheme, hport]

theorem origin_of_hostless (hh : u.hasHost = false) : u.origin = .error (.invalidUrl u.text) := by
  have hu : u.host? = none := Option.not_isSome_iff_eq_none.mp (Bool.eq_false_iff.mp hh)
  rw [origin, hu]

/-- The root is read back as the server without a path, or with the empty segment that a special scheme asks for. -/
theorem read_origin [InternationalNames] (hu : u.Serves a h) (hf : u.scheme ≠ "file") :
    ∃ root, u.origin = .ok root ∧ read root = .ok ⟨u.scheme, some a.withoutCredentials,
      .ofSegments (SchemeKind.ofScheme u.scheme).isSpecial [], none, none⟩ := by
  have hread := read_head_path (r := []) (settled_originAuthority hu) hu.isScheme hu.lower hf (by simp)
  rw [originAuthority_of_serves hu, UrlPath.text, List.flatMap_nil, List.append_nil] at hread
  exact ⟨_, origin_of_serves hu, hread⟩

/-- What stands in front of the last slash of a text, which is nothing where there is no slash. -/
def IsBeforeLastSlash (directory t : Text) : Prop :=
  (∃ file, t = directory ++ '/' :: file ∧ '/' ∉ file) ∨ directory = [] ∧ '/' ∉ t

private theorem text_ofSegments (special : Bool) (segments : List Text) :
    (ofSegments special segments).text =
      if (rooted segments).text = [] ∧ special = true then ['/'] else (rooted segments).text := by
  cases segments with
  | nil => cases special <;> rfl
  | cons s r => rw [ofSegments_of_ne_nil _ (List.cons_ne_nil s r), if_neg (by simp [UrlPath.text])]

theorem exists_directory [InternationalNames] (hu : u.Serves a h) (hf : u.scheme ≠ "file")
    (hpath : u.path.IsSettled (SchemeKind.ofScheme u.scheme).isSpecial) :
    ∃ before, IsBeforeLastSlash (rooted before).text u.path.text ∧
      u.directory = .ok ⟨u.scheme, some a.withoutCredentials,
        .ofSegments (SchemeKind.ofScheme u.scheme).isSpecial before, none, none⟩ := by
  obtain ⟨segments, hsegments, hsettled, -⟩ := hpath
  rcases List.eq_nil_or_concat segments with rfl | ⟨before, file, rfl⟩
  -- Only a scheme that is not special leaves the path empty, and then there is nothing to cut.
  · have hdirectory : u.directoryPath = (rooted []).text := by
      rw [directoryPath, hsegments]
      rfl
    refine ⟨[], .inr ⟨rfl, ?_⟩, directory_of_directoryPath hu hf hdirectory (by simp)⟩
    simp [hsegments, UrlPath.text]
  · rw [List.concat_eq_append] at hsegments hsettled
    refine ⟨before, .inl ⟨file, ?_, (hsettled file (by simp)).slash_notMem⟩, directory_eq hu hf hsegments hsettled⟩
    rw [hsegments, text_rooted_concat]

private theorem basesFor_of_directory [InternationalNames] (h : u.directory = .ok v) :
    Description.basesFor none u = .ok ⟨v, u⟩ := by
  rw [Description.basesFor, h]
  rfl

end Url

namespace UrlReference

open Url

variable {b b' : Url} {a : Authority} {h : Host}

/-- After leading blanks, a reference begins with a slash or a backslash. -/
def IsRooted (raw : Text) : Prop := ∃ c r, raw.dropWhile Text.isBlank = c :: r ∧ (c = '/' ∨ c = '\\')

private theorem exists_trim_of_isRooted {raw : Text} (hraw : IsRooted raw) :
    Text.trim raw ≠ [] ∧ ∃ r, withSlashes (Text.trim raw) = '/' :: r := by
  obtain ⟨c, r, hr, hc⟩ := hraw
  have hblank : Text.isBlank c = false := by rcases hc with rfl | rfl <;> decide
  have hend := Text.dropEndWhile_append (p := Text.isBlank) (t := [c]) (by simpa using hblank) r
  rw [Text.trim, hr, ← List.singleton_append, hend]
  refine ⟨by simp, withSlashes (Text.dropEndWhile Text.isBlank r), ?_⟩
  rcases hc with rfl | rfl <;> rfl

variable [InternationalNames]

theorem exists_resolve (hb : b.Serves a h) (hf : b.scheme ≠ "file") (raw : Option Text) :
    ∃ r, resolve (some b) raw = .ok r ∧ (r = none ↔ Text.trim (raw.getD []) = []) := by
  by_cases hn : Text.trim (raw.getD []) = []
  · exact ⟨none, resolve_of_blank raw _ hn, by simp [hn]⟩
  · cases habs : absolute? (Text.trim (raw.getD [])) with
    | some u => exact ⟨some u, resolve_of_absolute raw _ habs hn, by simp [hn]⟩
    | none =>
      obtain ⟨u, hu, -⟩ := resolveRelative_of_serves hb hf (Text.trim (raw.getD []))
      refine ⟨some u, ?_, by simp [hn]⟩
      rw [resolve_of_relative raw _ habs hn, hu]
      rfl

theorem resolve_congr {raw : Option Text}
    (hcompose : compose b (withSlashes (Text.trim (raw.getD []))) =
      compose b' (withSlashes (Text.trim (raw.getD [])))) :
    resolve (some b) raw = resolve (some b') raw := by
  simp only [resolve, resolveRelative, hcompose]

private theorem resolve_of_isRooted (horigin : b.origin = b'.origin) {raw : Text} (hraw : IsRooted raw) :
    resolve (some b) (some raw) = resolve (some b') (some raw) := by
  obtain ⟨-, r, hr⟩ := exists_trim_of_isRooted hraw
  apply resolve_congr
  rw [Option.getD_some, hr, compose, compose, horigin]

end UrlReference

namespace Url

variable {u : Url}

/-- The root and the directory of a URL on a server are found and stay on that server, with nothing kept but the path
in front of the last slash. The root of the directory is that of the URL, so rooted references lead from both to the
same place, and these two are the bases of devices and services where a document declares none. Neither the root nor the
directory of a URL without a host is found. -/
theorem origin_and_directory [InternationalNames] {t : Text} (hread : read t = .ok u) :
    (u.hasHost = true → u.scheme ≠ "file" →
      ∃ root server base directory, u.origin = .ok root ∧ read root = .ok server ∧ server.IsBareOn u ∧
        u.directory = .ok base ∧ base.IsBareOn u ∧ IsBeforeLastSlash directory u.path.text ∧
        base.path.text =
          (if directory = [] ∧ (SchemeKind.ofScheme u.scheme).isSpecial = true then ['/'] else directory) ∧
        base.origin = .ok root ∧ Description.basesFor none u = .ok ⟨base, u⟩ ∧
        ∀ raw, UrlReference.IsRooted raw → ∃ w, UrlReference.resolve (some u) (some raw) = .ok (some w) ∧
          UrlReference.resolve (some base) (some raw) = .ok (some w)) ∧
    (u.hasHost = false → u.origin = .error (.invalidUrl u.text) ∧ u.directory = .error (.invalidUrl u.text)) := by
  refine ⟨fun hh hf => ?_, fun hh => ?_⟩
  · obtain ⟨a, h, hu⟩ := serves_of_read hread hh
    obtain ⟨root, horigin, hroot⟩ := read_origin hu hf
    obtain ⟨before, hbefore, hdirectory⟩ := exists_directory hu hf (settled_path_of_read hread hu.authority hf)
    have hbase := isBareOn_of_serves hu (.ofSegments (SchemeKind.ofScheme u.scheme).isSpecial before)
    have hsame := origin_congr hbase.scheme hbase.host hbase.port hh
    refine ⟨root, _, _, _, horigin, hroot, isBareOn_of_serves hu _, hdirectory, hbase, hbefore,
      text_ofSegments _ before, hsame.trans horigin, basesFor_of_directory hdirectory, fun raw hraw => ?_⟩
    obtain ⟨r, hr, hnone⟩ := UrlReference.exists_resolve hu hf (some raw)
    cases r with
    | none => exact absurd (hnone.mp rfl) (UrlReference.exists_trim_of_isRooted hraw).1
    | some w => exact ⟨w, hr, UrlReference.resolve_of_isRooted hsame hraw ▸ hr⟩
  · have horigin := origin_of_hostless hh
    exact ⟨horigin, by rw [directory, horigin, Traversal.error_bind]⟩

open InternationalNames in
/-- The default port is shown by the root, and an empty segment stays in the directory; the second URL has no host. -/
theorem origin_and_directory_samples :
    (∃ u base w, read "https://me:pw@[2001:DB8::1]:443/a//b.xml?q=/x#f" = .ok u ∧ u.hasHost = true ∧
      u.scheme ≠ "file" ∧ u.origin = .ok "https://[2001:db8::1]:443" ∧ u.directory = .ok base ∧
      base.path.text = "/a/" ∧ base.query = none ∧ UrlReference.resolve (some u) (some "\\x") = .ok (some w) ∧
      UrlReference.resolve (some base) (some "\\x") = .ok (some w)) ∧
    ∃ u, read "urn:x:y" = .ok u ∧ u.hasHost = false ∧ u.directory = .error (.invalidUrl "urn:x:y") := by
  have hfacts : (read "https://me:pw@[2001:DB8::1]:443/a//b.xml?q=/x#f").toOption.map (fun u =>
      (u.scheme, u.hasHost, u.origin.toOption, u.path.text)) =
      some (("https" : Text), true, some ("https://[2001:db8::1]:443" : Text), ("/a//b.xml" : Text)) := by
    decide +kernel
  obtain ⟨u, hread, hfacts⟩ := Traversal.exists_ok_of_toOption_map hfacts
  simp only [Prod.mk.injEq] at hfacts
  obtain ⟨hscheme, hhost, horigin, hpath⟩ := hfacts
  have hf : u.scheme ≠ "file" := by
    rw [hscheme]
    decide
  have hrooted : UrlReference.IsRooted "\\x" := ⟨'\\', ['x'], by decide, .inr rfl⟩
  obtain ⟨-, -, base, directory, -, -, -, hbase, hbare, hbefore, htext, -, -, hresolve⟩ :=
    (origin_and_directory hread).1 hhost hf
  obtain ⟨w, hu, hw⟩ := hresolve _ hrooted
  have hhostless : (read "urn:x:y").toOption.map (fun v => (v.hasHost, v.text)) = some (false, ("urn:x:y" : Text)) := by
    decide +kernel
  obtain ⟨v, hreadv, hv⟩ := Traversal.exists_ok_of_toOption_map hhostless
  obtain ⟨hvhost, hvtext⟩ := Prod.mk.inj hv
  refine ⟨⟨u, base, w, hread, hhost, hf, Traversal.eq_ok_of_toOption horigin, hbase, ?_, hbare.query, hu, hw⟩,
    v, hreadv, hvhost, hvtext ▸ ((origin_and_directory hreadv).2 hvhost).2⟩
  rcases hbefore with ⟨file, hsplit, hfile⟩ | ⟨-, hnone⟩
  · have hcut := Text.cutLast_append directory hfile
    rw [← hsplit, hpath] at hcut
    have hcut' : Text.cutLast '/' "/a//b.xml" = some (("/a/" : Text), ("b.xml" : Text)) := by decide
    obtain ⟨rfl, -⟩ := Prod.mk.inj (Option.some.inj (hcut.symm.trans hcut'))
    exact htext
  · rw [hpath] at hnone
    exact absurd hnone (by decide)

end Url
end DeviceDescription
