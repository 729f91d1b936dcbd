import DeviceDescription.Proofs.PathText
import DeviceDescription.Proofs.ReferenceResolution

/-!
# Written URLs are read back

Nothing in the path, the query or the fragment of a URL that was read is escaped, and nothing in one of them ends it.
A URL on a server whose parts are so is found again in what is written of it.
-/
namespace DeviceDescription

namespace PercentEncoding

private theorem of_inQuerySet {c : Char} (h : inQuerySet c = false) : Text.isVisible c = true ∧ c ≠ '#' := by
  simp only [inQuerySet, Bool.or_eq_false_iff, decide_eq_false_iff_not] at h
  exact ⟨isVisible_of_inControlSet h.1.1.1.1.1 h.1.1.1.1.2, h.1.1.2⟩

end PercentEncoding

namespace Url

open UrlPath PercentEncoding

variable {u : Url} {a : Authority} {h : Host}

theorem querySet_cases (scheme : Text) : querySet scheme = inSpecialQuerySet ∨ querySet scheme = inQuerySet := by
  rw [querySet]
  split
  · exact .inl rfl
  · exact .inr rfl

private theorem of_querySet {scheme : Text} {c : Char} (hc : querySet scheme c = false) :
    Text.isVisible c = true ∧ c ≠ '#' := by
  rcases querySet_cases scheme with hset | hset <;> rw [hset] at hc
  · exact of_inQuerySet (Bool.or_eq_false_iff.mp hc).1
  · exact of_inQuerySet hc

private theorem querySet_of_mem_encode {scheme t : Text} {c : Char} (hc : c ∈ encode (querySet scheme) t) :
    querySet scheme c = false := by
  rcases querySet_cases scheme with hset | hset <;> rw [hset] at hc ⊢
  · exact eq_false_of_mem_encode (by decide) (fun _ => Text.eq_false_of_isAlphanum inSpecialQuerySet (by decide)) hc
  · exact eq_false_of_mem_encode (by decide) (fun _ => Text.eq_false_of_isAlphanum inQuerySet (by decide)) hc

private theorem inFragmentSet_of_mem_encode {t : Text} {c : Char} (hc : c ∈ encode inFragmentSet t) :
    inFragmentSet c = false :=
  eq_false_of_mem_encode (by decide) (fun _ => Text.eq_false_of_isAlphanum inFragmentSet (by decide)) hc

private theorem splitTail_elim (d : Char) (o : Option Text) : splitTail d (o.elim [] (d :: ·)) = ([], o) := by
  cases o <;> simp [splitTail, Text.cut]

variable [InternationalNames]

private theorem query_fragment_of_read {t : Text} (hr : read t = .ok u) :
    (∃ q, u.query = Option.map (encode (querySet u.scheme)) q) ∧
      ∃ f, u.fragment = Option.map (encode inFragmentSet) f := by
  simp only [read] at hr
  split at hr
  · cases hr
  · split at hr
    · cases hr
    · obtain ⟨⟨authority, path⟩, -, hr⟩ := Traversal.bind_eq_ok hr
      cases hr
      exact ⟨⟨_, rfl⟩, _, rfl⟩

/-- A URL on a server whose parts are read as they are written. -/
structure Settled (u : Url) (a : Authority) (h : Host) : Prop where
  serves : u.Serves a h
  notFile : u.scheme ≠ "file"
  path : u.path.IsSettled (SchemeKind.ofScheme u.scheme).isSpecial
  query : ∀ q ∈ u.query, ∀ c ∈ q, querySet u.scheme c = false
  fragment : ∀ f ∈ u.fragment, ∀ c ∈ f, inFragmentSet c = false

theorem settled_of_read {t : Text} (hr : read t = .ok u) (hh : u.hasHost = true) (hf : u.scheme ≠ "file") :
    ∃ a h, u.Settled a h := by
  obtain ⟨a, h, hserves⟩ := serves_of_read hr hh
  obtain ⟨⟨query, hquery⟩, fragment, hfragment⟩ := query_fragment_of_read hr
  refine ⟨a, h, hserves, hf, settled_path_of_read hr hserves.authority hf, fun q hq c hc => ?_, fun f hf c hc => ?_⟩
  · rw [hquery] at hq
    obtain ⟨q', -, rfl⟩ := Option.map_eq_some_iff.mp hq
    exact querySet_of_mem_encode hc
  · rw [hfragment] at hf
    obtain ⟨f', -, rfl⟩ := Option.map_eq_some_iff.mp hf
    exact inFragmentSet_of_mem_encode hc

namespace Settled

variable (hu : u.Settled a h)
include hu

theorem inPathSet_of_mem_path {c : Char} (hc : c ∈ u.path.text) : inPathSet c = false := by
  obtain ⟨segments, hpath, hsettled, -⟩ := hu.path
  rw [hpath] at hc
  exact inPathSet_of_mem_text hsettled c hc

theorem of_mem_queryText {c : Char} (hc : c ∈ u.query.elim [] ('?' :: ·)) :
    Text.isVisible c = true ∧ c ≠ '#' := by
  cases hq : u.query with
  | none => simp [hq] at hc
  | some q =>
    rw [hq, Option.elim_some] at hc
    rcases List.mem_cons.mp hc with rfl | hc
    · decide
    · exact of_querySet (hu.query q hq c hc)

theorem isVisible_of_mem_fragmentText {c : Char} (hc : c ∈ u.fragment.elim [] ('#' :: ·)) :
    Text.isVisible c = true := by
  cases hf : u.fragment with
  | none => simp [hf] at hc
  | some f =>
    rw [hf, Option.elim_some] at hc
    rcases List.mem_cons.mp hc with rfl | hc
    · decide
    · exact isVisible_of_inFragmentSet (hu.fragment f hf c hc)

theorem isVisible_of_mem_tail {c : Char} (hc : c ∈ u.tail) : Text.isVisible c = true := by
  rw [tail] at hc
  rcases List.mem_append.mp hc with hc | hc
  · rcases List.mem_append.mp hc with hc | hc
    · exact (of_inPathSet (hu.inPathSet_of_mem_path hc)).1
    · exact (hu.of_mem_queryText hc).1
  · exact hu.isVisible_of_mem_fragmentText hc

theorem isVisible_of_mem_text {c : Char} (hc : c ∈ u.text) : Text.isVisible c = true := by
  rw [text_of_serves hu.serves] at hc
  rcases List.mem_append.mp hc with hc | hc
  · exact isVisible_of_mem_head hu.serves.settled hu.serves.isScheme hc
  · exact hu.isVisible_of_mem_tail hc

theorem parts_of_tail :
    pathOfTail u.tail = u.path.text ∧ queryOfTail u.tail = u.query ∧ fragmentOfTail u.tail = u.fragment := by
  have hnumber : '#' ∉ u.path.text ++ u.query.elim [] ('?' :: ·) := by
    intro hm
    rcases List.mem_append.mp hm with hm | hm
    · exact (of_inPathSet (hu.inPathSet_of_mem_path hm)).2.2 rfl
    · exact (hu.of_mem_queryText hm).2 rfl
  have hquestion : '?' ∉ u.path.text := fun hm => (of_inPathSet (hu.inPathSet_of_mem_path hm)).2.1 rfl
  have hfragment : splitTail '#' u.tail = (u.path.text ++ u.query.elim [] ('?' :: ·), u.fragment) := by
    rw [tail, splitTail_append hnumber, splitTail_elim, List.append_nil]
  have hquery : splitTail '?' (u.path.text ++ u.query.elim [] ('?' :: ·)) = (u.path.text, u.query) := by
    rw [splitTail_append hquestion, splitTail_elim, List.append_nil]
  have hclean := cleanedTail_eq_self fun c hc => hu.isVisible_of_mem_tail hc
  rw [pathOfTail, queryOfTail, fragmentOfTail, hclean, hfragment, hquery]
  exact ⟨rfl, rfl, rfl⟩

theorem afterAuthority_path : afterAuthority (SchemeKind.ofScheme u.scheme).isSpecial u.path.text = u.path := by
  obtain ⟨segments, hpath, hsettled, hne⟩ := hu.path
  rw [hpath, afterAuthority_text hsettled, ofSegments]
  split
  · rename_i hempty
    exact absurd hempty.1 (hne hempty.2)
  · rfl

theorem read_text : read u.text = .ok u := by
  obtain ⟨hpath, hquery, hfragment⟩ := hu.parts_of_tail
  have hkeptQuery : u.query.map (encode (querySet u.scheme)) = u.query.map id :=
    Option.map_congr fun q hq => encode_eq_self (hu.query q hq)
  have hkeptFragment : u.fragment.map (encode inFragmentSet) = u.fragment.map id :=
    Option.map_congr fun f hf => encode_eq_self (hu.fragment f hf)
  rw [text_of_serves hu.serves, read_head_eq hu.serves.settled hu.serves.isScheme hu.serves.lower hu.notFile
    (opensTail_tail hu.serves), hpath, hquery, hfragment, hu.afterAuthority_path, hkeptQuery, hkeptFragment,
    Option.map_id_fun, id, id, hu.serves.port, ← hu.serves.authority]

end Settled

end Url
end DeviceDescription
