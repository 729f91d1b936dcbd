import DeviceDescription.Proofs.ComposedUrl
import DeviceDescription.RootDevice

/-!
# References stay on the server of their base

What a base is extended by stands behind its authority. A reference is thus a URL of its own, or it names a place
on the server of the base.
-/
namespace DeviceDescription

theorem Text.eq_append_of_cutLast {d : Char} {t a b : Text} (h : cutLast d t = some (a, b)) : t = a ++ d :: b := by
  induction t generalizing a with
  | nil => cases h
  | cons c r ih =>
    rw [cutLast] at h
    cases hr : cutLast d r with
    | some p =>
      rw [hr] at h
      cases h
      rw [ih hr]
      rfl
    | none =>
      rw [hr] at h
      simp only at h
      split at h
      · rename_i hc
        cases h
        rw [hc]
        rfl
      · cases h

namespace Url

variable {u : Url} {a : Authority} {h : Host}

def tail (u : Url) : Text := u.path.text ++ u.query.elim [] ('?' :: ·) ++ u.fragment.elim [] ('#' :: ·)

private theorem defaultPort_le {scheme : Text} {p : Nat} (hp : defaultPort scheme = some p) : p ≤ 65535 := by
  unfold defaultPort at hp
  split at hp
  · cases hp
    decide
  · split at hp
    · cases hp
      decide
    · split at hp
      · cases hp
        decide
      · cases hp

@[simp] theorem keptPort_or (scheme : Text) (port : Option Nat) :
    (Authority.keptPort scheme port).or (defaultPort scheme) = port.or (defaultPort scheme) := by
  cases port with
  | none => rfl
  | some p =>
    rw [Authority.keptPort, Option.filter_some]
    by_cases hp : defaultPort scheme = some p <;> simp [hp]

variable [InternationalNames]

theorem text_of_serves (hu : u.Serves a h) : u.text = head u.scheme a ++ u.tail := by
  simp [text, hu.authority, pathGuard, head, tail]

theorem opensTail_tail (hu : u.Serves a h) : OpensTail u.tail := by
  obtain ⟨segments, hp⟩ := hu.path
  intro c hc
  rw [tail, hp, UrlPath.text] at hc
  cases segments with
  | cons s r =>
    rw [List.flatMap_cons] at hc
    exact .inl (Option.some.inj hc).symm
  | nil =>
    cases hq : u.query with
    | some q =>
      rw [hq] at hc
      exact .inr (.inl (Option.some.inj hc).symm)
    | none =>
      cases hg : u.fragment with
      | some g =>
        rw [hq, hg] at hc
        exact .inr (.inr (Option.some.inj hc).symm)
      | none =>
        rw [hq, hg] at hc
        cases hc

def originAuthority (u : Url) : Authority := ⟨[], [], u.host?, u.effectivePort⟩

theorem host?_of_serves (hu : u.Serves a h) : u.host? = some h := by
  rw [host?, hu.authority, Option.bind_some, hu.settled.host]

theorem effectivePort_of_serves (hu : u.Serves a h) : u.effectivePort = a.port.or (defaultPort u.scheme) := by
  rw [effectivePort, hu.authority, Option.bind_some]

theorem origin_of_serves (hu : u.Serves a h) : u.origin = .ok (head u.scheme u.originAuthority) := by
  rw [origin, host?_of_serves hu]
  simp [head, originAuthority, host?_of_serves hu, Authority.text, Authority.credentials, Authority.hostText,
    Authority.portText]

theorem settled_originAuthority (hu : u.Serves a h) : u.originAuthority.Settled u.scheme h where
  username := by simp [originAuthority]
  password := by simp [originAuthority]
  host := host?_of_serves hu
  settled := hu.settled.settled
  port p hp := by
    rw [originAuthority, effectivePort_of_serves hu, Option.mem_def, Option.or_eq_some_iff] at hp
    rcases hp with hp | ⟨-, hp⟩
    · exact hu.settled.port p hp
    · exact defaultPort_le hp

theorem originAuthority_of_file (hu : u.Serves a h) (hf : u.scheme = "file") : u.originAuthority = fileServer h := by
  rw [originAuthority, host?_of_serves hu, effectivePort_of_serves hu, (hu.file hf).1, hf]
  rfl

private theorem mem_head?_path (hu : u.Serves a h) : ∀ c ∈ u.path.text.head?, c = '/' := by
  obtain ⟨segments, hp⟩ := hu.path
  rw [hp]
  exact UrlPath.mem_head?_text_rooted

private theorem opensTail_directoryPath (hu : u.Serves a h) : OpensTail u.directoryPath := by
  intro c hc
  rw [directoryPath] at hc
  split at hc
  · cases hc
  · rename_i directory file hcut
    have hpath : u.path.text = directory ++ '/' :: file := Text.eq_append_of_cutLast hcut
    refine .inl (mem_head?_path hu c ?_)
    rw [hpath, List.head?_append, hc, Option.some_or]
    rfl

/-- The directory of a URL on a server is found, and it is on that server unless it starts with a drive. -/
theorem exists_directory_of_serves (hu : u.Serves a h) :
    ∃ d t, u.directory = .ok d ∧ read t = .ok d ∧
      d.host? = if u.scheme = "file" ∧ opensDrive u.directoryPath = true then none else some h := by
  have horigin := origin_of_serves hu
  have hs := settled_originAuthority hu
  have ht := opensTail_directoryPath hu
  by_cases hf : u.scheme = "file"
  · rw [originAuthority_of_file hu hf, hf] at horigin hs
    obtain ⟨d, hr, -, hauth⟩ := read_file_head hs.settled (hu.file hf).2 ht
    refine ⟨d, _, ?_, hr, ?_⟩
    · simp only [directory, horigin, Traversal.ok_bind, ofComposed, hr]
    · rw [host?, hauth, hf]
      simp [fileAuthority]
  · obtain ⟨d, hr, -, hauth⟩ := read_head hs hu.isScheme hu.lower hf ht
    refine ⟨d, _, ?_, hr, ?_⟩
    · simp only [directory, horigin, Traversal.ok_bind, ofComposed, hr]
    · rw [host?, hauth, Option.bind_some, hs.host, if_neg fun h => hf h.1]

end Url

theorem Announcement.serves_of_readLocation [InternationalNames] {a : Announcement} {location : Url}
    (h : a.readLocation = .ok location) :
    Url.read a.location = .ok location ∧ ∃ authority host, location.Serves authority host := by
  unfold readLocation at h
  cases hr : Url.read a.location with
  | error e =>
    rw [hr] at h
    cases h
  | ok u =>
    simp only [hr] at h
    split at h
    · rename_i hh
      cases h
      exact ⟨rfl, Url.serves_of_read hr hh⟩
    · cases h

namespace UrlReference

open Url

variable {base : Url} {a : Authority} {h : Host}

theorem withFinalSlash_append (s : Text) {t : Text} (ht : t ≠ []) :
    withFinalSlash (s ++ t) = s ++ withFinalSlash t := by
  have hlast : (s ++ t).getLast? = t.getLast? := by
    rw [List.getLast?_append, List.getLast?_eq_some_getLast ht, Option.some_or]
  rw [withFinalSlash, withFinalSlash, hlast]
  split
  · rfl
  · rw [List.append_assoc]

section Resolutions
variable [InternationalNames]

theorem withFinalSlash_head {scheme : Text} (ha : a.Settled scheme h) (t : Text) :
    withFinalSlash (head scheme a ++ t) = head scheme a ++ withFinalSlash t := by
  cases t with
  | cons c r => exact withFinalSlash_append _ (List.cons_ne_nil c r)
  | nil =>
    have hlast : (head scheme a).getLast? ≠ some '/' := by
      have hsplit : head scheme a = (scheme ++ [':', '/', '/']) ++ a.text := by simp [head]
      rw [hsplit, List.getLast?_append]
      cases hl : a.text.getLast? with
      | none => exact absurd (List.getLast?_eq_none_iff.mp hl) (Authority.text_ne_nil ha)
      | some c =>
        have hc := Authority.isTextChar_of_mem_text ha (List.mem_of_getLast? hl)
        intro he
        obtain rfl := Option.some.inj ((Option.some_or).symm.trans he)
        exact absurd hc (by decide)
    rw [List.append_nil, withFinalSlash, if_neg hlast]
    rfl

def extension (base : Url) (reference : Text) : Text :=
  match reference with
  | '/' :: _ => reference
  | _ => withFinalSlash base.tail ++ reference

theorem opensTail_extension (hb : base.Serves a h) (reference : Text) : OpensTail (extension base reference) := by
  unfold extension
  split
  · simp [OpensTail]
  · have htail := opensTail_tail hb
    rw [withFinalSlash]
    cases ht : base.tail with
    | nil => simp [OpensTail]
    | cons c r =>
      rw [ht] at htail
      split <;> exact htail

theorem exists_head_of_compose (hb : base.Serves a h) (reference : Text) :
    ∃ b, compose base reference = .ok (head base.scheme b ++ extension base reference) ∧ b.Settled base.scheme h ∧
      b.port.or (defaultPort base.scheme) = base.effectivePort ∧ (base.scheme = "file" → b = fileServer h) := by
  unfold compose
  split
  -- The origin writes out the port in use and leaves out the credentials.
  · refine ⟨base.originAuthority, ?_, settled_originAuthority hb, ?_, originAuthority_of_file hb⟩
    · rw [origin_of_serves hb]
      rfl
    · rw [originAuthority, effectivePort_of_serves hb, Option.or_assoc, Option.or_self]
  · rename_i hslash
    refine ⟨a, ?_, hb.settled, (effectivePort_of_serves hb).symm, fun hf => (hb.file hf).1⟩
    rw [text_of_serves hb, withFinalSlash_head hb.settled, List.append_assoc, extension]
    exact hslash

theorem resolveRelative_of_serves (hb : base.Serves a h) (hf : base.scheme ≠ "file") (reference : Text) :
    ∃ u, resolveRelative (some base) reference = .ok u ∧ u.scheme = base.scheme ∧ u.host? = base.host? ∧
      u.effectivePort = base.effectivePort := by
  obtain ⟨b, hcompose, hs, hport, -⟩ := exists_head_of_compose hb (withSlashes reference)
  obtain ⟨u, hr, hscheme, hauth⟩ :=
    read_head hs hb.isScheme hb.lower hf (opensTail_extension hb (withSlashes reference))
  refine ⟨u, ?_, hscheme, ?_, ?_⟩
  · simp only [resolveRelative, hcompose, Traversal.ok_bind, ofComposed, hr]
  · rw [host?_of_serves hb, host?, hauth, Option.bind_some, hs.host]
  · rw [effectivePort, hauth, Option.bind_some, hscheme, keptPort_or, hport]

/-- Against a file URL, a reference to a drive loses the server. -/
theorem resolveRelative_of_file (hb : base.Serves a h) (hf : base.scheme = "file") (reference : Text) :
    ∃ u, resolveRelative (some base) reference = .ok u ∧
      u.host? = if opensDrive (extension base (withSlashes reference)) then none else some h := by
  obtain ⟨b, hcompose, hs, -, hserver⟩ := exists_head_of_compose hb (withSlashes reference)
  obtain rfl := hserver hf
  rw [hf] at hcompose hs
  obtain ⟨u, hr, -, hauth⟩ :=
    read_file_head hs.settled (hb.file hf).2 (opensTail_extension hb (withSlashes reference))
  refine ⟨u, ?_, ?_⟩
  · simp only [resolveRelative, hcompose, Traversal.ok_bind, ofComposed, hr]
  · rw [host?, hauth]
    rfl

theorem absolute?_eq_none_iff {t : Text} : absolute? t = none ↔ ∀ u, Url.read t = .ok u → u.hasHost = false := by
  unfold absolute?
  cases hr : Url.read t with
  | error e => simp
  | ok u => simp

theorem read_of_absolute? {t : Text} {u : Url} (h : absolute? t = some u) : Url.read t = .ok u ∧ u.hasHost = true := by
  unfold absolute? at h
  cases hr : Url.read t with
  | error e =>
    rw [hr] at h
    cases h
  | ok v =>
    simp only [hr] at h
    split at h
    · rename_i hh
      cases h
      exact ⟨rfl, hh⟩
    · cases h

theorem resolve_of_blank (raw : Option Text) (b : Option Url) (h : Text.trim (raw.getD []) = []) :
    resolve b raw = .ok none := by
  rw [resolve]
  exact if_pos h

theorem resolve_of_absolute (raw : Option Text) {u : Url} (b : Option Url)
    (h : absolute? (Text.trim (raw.getD [])) = some u) (hn : Text.trim (raw.getD []) ≠ []) :
    resolve b raw = .ok (some u) := by
  simp only [resolve, if_neg hn, h]

theorem resolve_of_relative (raw : Option Text) (b : Option Url)
    (h : absolute? (Text.trim (raw.getD [])) = none) (hn : Text.trim (raw.getD []) ≠ []) :
    resolve b raw = (resolveRelative b (Text.trim (raw.getD []))).map some := by
  simp only [resolve, if_neg hn, h]

/-- Against a base with a host, resolution never fails. It yields nothing for a blank reference only. What it
yields is the reference itself where that names a host, whatever the base is, and else a URL with the scheme, the
host and the port of the base. -/
theorem resolve_absolute_or_stays {t : Text} (hr : Url.read t = .ok base) (hh : base.hasHost = true)
    (hf : base.scheme ≠ "file") (raw : Option Text) :
    ∃ r, resolve (some base) raw = .ok r ∧ (r = none ↔ ∀ s ∈ raw, ∀ c ∈ s, Text.isBlank c = true) ∧
      ∀ u ∈ r,
        (∃ s ∈ raw, Url.read (Text.trim s) = .ok u ∧ u.hasHost = true ∧ ∀ b, resolve b raw = .ok (some u)) ∨
        ((∀ s ∈ raw, ∀ v, Url.read (Text.trim s) = .ok v → v.hasHost = false) ∧
          u.scheme = base.scheme ∧ u.host? = base.host? ∧ u.effectivePort = base.effectivePort) := by
  obtain ⟨a, h, hb⟩ := serves_of_read hr hh
  by_cases hn : Text.trim (raw.getD []) = []
  · refine ⟨none, resolve_of_blank _ _ hn, ?_, by simp⟩
    have hblank := Text.trim_eq_nil_iff.mp hn
    cases raw with
    | none => simp
    | some s => simpa using hblank
  · cases raw with
    | none => exact absurd rfl hn
    | some s =>
      have hblank : ¬∀ c ∈ s, Text.isBlank c = true := fun hall => hn (Text.trim_eq_nil_iff.mpr hall)
      cases ha : absolute? (Text.trim s) with
      | some u =>
        have hall : ∀ b, resolve b (some s) = .ok (some u) := fun b => resolve_of_absolute _ b ha hn
        obtain ⟨hread, hhost⟩ := read_of_absolute? ha
        refine ⟨some u, hall _, by simpa using hblank, ?_⟩
        rintro v hv
        obtain rfl := Option.some.inj hv
        exact .inl ⟨s, rfl, hread, hhost, hall⟩
      | none =>
        obtain ⟨u, hu, hserver⟩ := resolveRelative_of_serves hb hf (Text.trim s)
        have hres := resolve_of_relative (some s) (some base) ha hn
        rw [Option.getD_some, hu] at hres
        refine ⟨some u, hres, by simpa using hblank, ?_⟩
        rintro v hv
        obtain rfl := Option.some.inj hv
        refine .inr ⟨?_, hserver⟩
        rintro s' hs' w hw
        obtain rfl := Option.some.inj hs'
        exact absolute?_eq_none_iff.mp ha w hw

end Resolutions

open InternationalNames in
/-- The base has credentials, an address in brackets and a port; the reference looks like another server. -/
theorem resolve_absolute_or_stays_sample :
    ∃ base, Url.read "HTTPS://me:pw@[2001:DB8::1]:8443/d/x.xml?q#f" = .ok base ∧ base.hasHost = true ∧
      base.scheme ≠ "file" ∧ ∃ u, resolve (some base) (some " \\\\evil:80\\..\\x@y ") = .ok (some u) ∧
        u.scheme = "https" ∧ u.host? = base.host? ∧ u.effectivePort = some 8443 := by
  have hbase : (Url.read "HTTPS://me:pw@[2001:DB8::1]:8443/d/x.xml?q#f").toOption.map (fun b =>
      (b.scheme, b.hasHost, b.effectivePort)) = some (("https" : Text), true, some 8443) := by decide +kernel
  have hraw : (Url.read (Text.trim " \\\\evil:80\\..\\x@y ")).toOption = none := by decide +kernel
  obtain ⟨base, hr, hbase⟩ := Traversal.exists_ok_of_toOption_map hbase
  obtain ⟨hscheme, hhost, hport⟩ : base.scheme = "https" ∧ base.hasHost = true ∧ base.effectivePort = some 8443 := by
    simpa using hbase
  have hf : base.scheme ≠ "file" := by
    rw [hscheme]
    decide
  obtain ⟨r, hres, hnone, hsome⟩ := resolve_absolute_or_stays hr hhost hf (some " \\\\evil:80\\..\\x@y ")
  refine ⟨base, hr, hhost, hf, ?_⟩
  cases r with
  | none =>
    have hblank := hnone.mp rfl _ rfl 'x' (by decide)
    exact absurd hblank (by decide)
  | some u =>
    rcases hsome u rfl with ⟨s, hs, hread, -⟩ | ⟨-, hsu, hhu, hpu⟩
    · obtain rfl := Option.some.inj hs
      rw [hread] at hraw
      cases hraw
    · exact ⟨u, hres, hsu.trans hscheme, hhu, hpu.trans hport⟩

end UrlReference
end DeviceDescription
