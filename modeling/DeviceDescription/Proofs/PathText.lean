import DeviceDescription.Proofs.ComposedUrl

/-!
# Written paths are read back

The segments of a path that was read hold no separators and nothing that is escaped in paths, and none of them is a
dot segment. Such segments are found again in what is written of them.
-/
namespace DeviceDescription

theorem Text.eq_false_of_mem_splitOnP {p : Char → Bool} {t s : Text} (h : s ∈ t.splitOnP p) {c : Char} (hc : c ∈ s) :
    p c = false := by
  induction t generalizing s with
  | nil =>
    rw [List.splitOnP_nil, List.mem_singleton] at h
    rw [h] at hc
    cases hc
  | cons x t ih =>
    rw [List.splitOnP_cons_eq_if_modifyHead] at h
    split at h
    · rcases List.mem_cons.mp h with rfl | h
      · cases hc
      · exact ih h hc
    · rename_i hx
      obtain ⟨w, ws, hw⟩ := List.exists_cons_of_ne_nil (List.splitOnP_ne_nil p t)
      rw [hw, List.modifyHead_cons] at h
      rw [hw] at ih
      rcases List.mem_cons.mp h with rfl | h
      · rcases List.mem_cons.mp hc with rfl | hc
        · exact Bool.not_eq_true _ ▸ hx
        · exact ih List.mem_cons_self hc
      · exact ih (List.mem_cons_of_mem _ h) hc

namespace PercentEncoding

theorem isVisible_of_inControlSet {c : Char} (h : inControlSet c = false) (hne : c ≠ ' ') :
    Text.isVisible c = true := by
  simp only [inControlSet, Bool.or_eq_false_iff, decide_eq_false_iff_not, Char.not_lt] at h
  have hlt : ' ' < c := Char.not_le.mp fun hle => hne (Char.le_antisymm hle h.1)
  simp [Text.isVisible, hlt, h.2]

theorem isVisible_of_inFragmentSet {c : Char} (h : inFragmentSet c = false) : Text.isVisible c = true := by
  simp only [inFragmentSet, Bool.or_eq_false_iff, decide_eq_false_iff_not] at h
  exact isVisible_of_inControlSet h.1.1.1.1.1 h.1.1.1.1.2

end PercentEncoding

namespace UrlPath

open PercentEncoding

/-- Nothing in a segment is escaped, and nothing in it ends it. -/
def IsVerbatim (special : Bool) (s : Text) : Prop := ∀ c ∈ s, inPathSet c = false ∧ isSeparator special c = false

structure SettledSegment (special : Bool) (s : Text) : Prop where
  verbatim : IsVerbatim special s
  single : isSingleDot s = false
  double : isDoubleDot s = false

variable {special : Bool}

theorem settledSegment_nil : SettledSegment special [] where
  verbatim _ hc := by cases hc
  single := rfl
  double := rfl

theorem SettledSegment.slash_notMem {s : Text} (hs : SettledSegment special s) : '/' ∉ s := by
  intro hm
  exact absurd (hs.verbatim _ hm).2 (by simp [isSeparator])

private theorem isVerbatim_encode {s : Text} (hs : ∀ c ∈ s, isSeparator special c = false) :
    IsVerbatim special (encode inPathSet s) := by
  intro c hc
  rcases mem_encode hc with ⟨hm, hset⟩ | rfl | halpha
  · exact ⟨hset, hs c hm⟩
  · cases special <;> exact ⟨rfl, rfl⟩
  · refine ⟨Text.eq_false_of_isAlphanum inPathSet (by decide) halpha, ?_⟩
    cases special
    · exact Text.eq_false_of_isAlphanum (isSeparator false) (by decide) halpha
    · exact Text.eq_false_of_isAlphanum (isSeparator true) (by decide) halpha

private theorem mem_of_mem_parent {segments : List Text} {s : Text} (h : s ∈ parent segments) : s ∈ segments := by
  cases segments with
  | nil => cases h
  | cons x r =>
    rw [parent] at h
    split at h
    · exact h
    · exact List.mem_cons_of_mem _ h

private theorem settled_of_mem_resolveDots {done segments : List Text} (hd : ∀ s ∈ done, SettledSegment special s)
    (hs : ∀ s ∈ segments, IsVerbatim special s) : ∀ s ∈ resolveDots done segments, SettledSegment special s := by
  induction segments generalizing done with
  | nil =>
    intro s h
    exact hd s (List.mem_reverse.mp h)
  | cons x rest ih =>
    have hrest : ∀ s ∈ rest, IsVerbatim special s := fun s h => hs s (List.mem_cons_of_mem _ h)
    have hempty : ∀ l : List Text, (∀ s ∈ l, SettledSegment special s) →
        ∀ s ∈ (if rest = [] then [] :: l else l), SettledSegment special s := by
      intro l hl s h
      split at h
      · rcases List.mem_cons.mp h with rfl | h
        · exact settledSegment_nil
        · exact hl s h
      · exact hl s h
    rw [resolveDots]
    split
    · exact ih (hempty _ fun s h => hd s (mem_of_mem_parent h)) hrest
    · rename_i hdouble
      split
      · exact ih (hempty _ hd) hrest
      · rename_i hsingle
        refine ih (fun s h => ?_) hrest
        rcases List.mem_cons.mp h with rfl | h
        · exact ⟨hs _ List.mem_cons_self, by simpa using hsingle, by simpa using hdouble⟩
        · exact hd s h

private theorem resolveDots_ne_nil {segments : List Text} (h : segments ≠ []) (done : List Text) :
    resolveDots done segments ≠ [] := by
  induction segments generalizing done with
  | nil => exact absurd rfl h
  | cons x rest ih =>
    rw [resolveDots]
    cases rest with
    | nil => split <;> [skip; split] <;> simp [resolveDots]
    | cons y rest => split <;> [skip; split] <;> exact ih (List.cons_ne_nil _ _) _

private theorem settled_of_mem_readSegments {t s : Text} (h : s ∈ readSegments special t) :
    SettledSegment special s := by
  refine settled_of_mem_resolveDots (by simp) (fun s hs => ?_) s h
  obtain ⟨piece, hpiece, rfl⟩ := List.mem_map.mp hs
  exact isVerbatim_encode fun c hc => Text.eq_false_of_mem_splitOnP hpiece hc

private theorem readSegments_ne_nil (special : Bool) (t : Text) : readSegments special t ≠ [] := by
  apply resolveDots_ne_nil
  rw [ne_eq, List.map_eq_nil_iff]
  exact List.splitOnP_ne_nil _ t

/-- A path whose segments are settled. A special scheme has at least one of them. -/
def IsSettled (special : Bool) (path : UrlPath) : Prop :=
  ∃ segments, path = .rooted segments ∧ (∀ s ∈ segments, SettledSegment special s) ∧ (special = true → segments ≠ [])

theorem isSettled_afterAuthority (special : Bool) (t : Text) : (afterAuthority special t).IsSettled special := by
  cases t with
  | nil =>
    refine ⟨_, rfl, fun s hs => ?_, by rintro rfl; simp⟩
    cases special
    · cases hs
    · exact List.mem_singleton.mp hs ▸ settledSegment_nil
  | cons c r => exact ⟨_, rfl, fun s hs => settled_of_mem_readSegments hs, fun _ => readSegments_ne_nil _ _⟩

variable {s : Text} {r : List Text}

theorem text_rooted_append (r r' : List Text) : (rooted (r ++ r')).text = (rooted r).text ++ (rooted r').text :=
  List.flatMap_append

@[simp]
theorem text_rooted_concat (r : List Text) (s : Text) : (rooted (r ++ [s])).text = (rooted r).text ++ '/' :: s := by
  rw [text_rooted_append]
  simp [text]

private theorem resolveDots_eq (hr : ∀ s ∈ r, SettledSegment special s) (done : List Text) :
    resolveDots done r = done.reverse ++ r := by
  induction r generalizing done with
  | nil => rw [resolveDots, List.append_nil]
  | cons x r ih =>
    have hx := hr x List.mem_cons_self
    rw [resolveDots, if_neg (by simp [hx.double]), if_neg (by simp [hx.single]),
      ih fun s h => hr s (List.mem_cons_of_mem _ h), List.reverse_cons, List.append_assoc, List.singleton_append]

private theorem splitSegments_text (hs : SettledSegment special s) (hr : ∀ s ∈ r, SettledSegment special s) :
    splitSegments special (s ++ (rooted r).text) = s :: r := by
  have hwhole : ∀ c ∈ s, isSeparator special c = false := fun c hc => (hs.verbatim c hc).2
  induction r generalizing s with
  | nil =>
    rw [text, List.flatMap_nil, List.append_nil]
    exact List.splitOnP_eq_singleton hwhole
  | cons x r ih =>
    have hx := hr x List.mem_cons_self
    have hrest := ih hx (fun s h => hr s (List.mem_cons_of_mem _ h)) fun c hc => (hx.verbatim c hc).2
    rw [text, List.flatMap_cons, List.cons_append, splitSegments,
      List.splitOnP_append_cons_of_forall_mem hwhole _ (by simp [isSeparator])]
    exact congrArg (s :: ·) hrest

private theorem readSegments_text (hs : SettledSegment special s) (hr : ∀ s ∈ r, SettledSegment special s) :
    readSegments special (s ++ (rooted r).text) = s :: r := by
  have hall : ∀ x ∈ s :: r, SettledSegment special x := List.forall_mem_cons.mpr ⟨hs, hr⟩
  have hencode : (s :: r).map (encode inPathSet) = (s :: r).map id :=
    List.map_congr_left fun x hx => encode_eq_self fun c hc => ((hall x hx).verbatim c hc).1
  rw [readSegments, splitSegments_text hs hr, hencode, List.map_id, resolveDots_eq hall, List.reverse_nil,
    List.nil_append]

/-- The path with the given segments. A special scheme has at least one segment. -/
def ofSegments (special : Bool) (segments : List Text) : UrlPath :=
  .rooted (if segments = [] ∧ special = true then [[]] else segments)

theorem ofSegments_of_ne_nil (special : Bool) (h : r ≠ []) : ofSegments special r = .rooted r := by
  rw [ofSegments, if_neg fun he => h he.1]

theorem isSettled_ofSegments (hr : ∀ s ∈ r, SettledSegment special s) : (ofSegments special r).IsSettled special := by
  by_cases he : r = [] ∧ special = true
  · refine ⟨[[]], by rw [ofSegments, if_pos he], fun s hs => ?_, fun _ => List.cons_ne_nil _ _⟩
    exact List.mem_singleton.mp hs ▸ settledSegment_nil
  · exact ⟨r, by rw [ofSegments, if_neg he], hr, fun hs hn => he ⟨hn, hs⟩⟩

theorem afterAuthority_text (hr : ∀ s ∈ r, SettledSegment special s) :
    afterAuthority special (rooted r).text = ofSegments special r := by
  cases r with
  | nil => cases special <;> rfl
  | cons x r =>
    rw [text, List.flatMap_cons, List.cons_append, afterAuthority, if_pos (by simp [isSeparator]),
      ofSegments_of_ne_nil _ (List.cons_ne_nil _ _)]
    exact congrArg rooted (readSegments_text (hr x List.mem_cons_self) fun s h => hr s (List.mem_cons_of_mem _ h))

end UrlPath

namespace Url

open UrlPath PercentEncoding

theorem of_inPathSet {c : Char} (h : inPathSet c = false) : Text.isVisible c = true ∧ c ≠ '?' ∧ c ≠ '#' := by
  simp only [inPathSet, Bool.or_eq_false_iff, decide_eq_false_iff_not] at h
  exact ⟨isVisible_of_inFragmentSet h.1.1.1.1, h.1.1.2, h.1.1.1.2⟩

theorem cleanedTail_eq_self {t : Text} (h : ∀ c ∈ t, Text.isVisible c = true) : cleanedTail t = t := by
  have hlt : ∀ c ∈ t, ' ' < c := fun c hc => Text.lt_of_isVisible (h c hc)
  rw [cleanedTail, Text.dropEndWhile_eq_self fun c hc => isControlOrSpace_eq_false (hlt c hc), List.filter_eq_self]
  intro c hc
  simp [isTabOrNewline_eq_false (hlt c hc)]

private theorem splitTail_eq_self {d : Char} {t : Text} (h : d ∉ t) : splitTail d t = (t, none) := by
  rw [splitTail, Text.cut_eq_none_iff.mpr h]

private theorem pathOfTail_eq_self {t : Text} (h : ∀ c ∈ t, inPathSet c = false) :
    pathOfTail t = t ∧ queryOfTail t = none ∧ fragmentOfTail t = none := by
  have hclean := cleanedTail_eq_self fun c hc => (of_inPathSet (h c hc)).1
  have hquery : '?' ∉ t := fun hc => (of_inPathSet (h _ hc)).2.1 rfl
  have hfragment : '#' ∉ t := fun hc => (of_inPathSet (h _ hc)).2.2 rfl
  rw [pathOfTail, queryOfTail, fragmentOfTail, hclean, splitTail_eq_self hfragment, splitTail_eq_self hquery]
  exact ⟨rfl, rfl, rfl⟩

theorem inPathSet_of_mem_text {special : Bool} {r : List Text} (hr : ∀ s ∈ r, SettledSegment special s) :
    ∀ c ∈ (rooted r).text, inPathSet c = false := by
  intro c hc
  obtain ⟨s, hs, hc⟩ := List.mem_flatMap.mp hc
  rcases List.mem_cons.mp hc with rfl | hc
  · rfl
  · exact ((hr s hs).verbatim c hc).1

private theorem opensTail_text_rooted (r : List Text) : OpensTail (rooted r).text :=
  fun c hc => .inl (mem_head?_text_rooted c hc)

variable [InternationalNames]

/-- Authority and path are read back from a head and the path written behind it. -/
theorem read_head_path {scheme : Text} {a : Authority} {h : Host} {r : List Text} (ha : a.Settled scheme h)
    (hs : isScheme scheme = true) (hl : scheme.map Char.toLower = scheme) (hf : scheme ≠ "file")
    (hr : ∀ s ∈ r, SettledSegment (SchemeKind.ofScheme scheme).isSpecial s) :
    read (head scheme a ++ (rooted r).text) =
      .ok ⟨scheme, some { a with port := Authority.keptPort scheme a.port },
        .ofSegments (SchemeKind.ofScheme scheme).isSpecial r, none, none⟩ := by
  obtain ⟨hpath, hquery, hfragment⟩ := pathOfTail_eq_self (inPathSet_of_mem_text hr)
  rw [read_head_eq ha hs hl hf (opensTail_text_rooted r), hpath, hquery, hfragment, afterAuthority_text hr]
  rfl

private theorem settled_path_of_afterSlashes {scheme t : Text} {isLast : Bool} {authority : Option Authority}
    {path : UrlPath} (hr : afterSlashes scheme isLast t = .ok (authority, path)) :
    path.IsSettled (SchemeKind.ofScheme scheme).isSpecial := by
  simp only [afterSlashes] at hr
  obtain ⟨⟨b, rest⟩, -, hr⟩ := Traversal.bind_eq_ok hr
  cases hr
  exact isSettled_afterAuthority _ _

private theorem settled_path_of_hierarchy {scheme t : Text} {isLast : Bool} {a : Authority} {path : UrlPath}
    (hf : scheme ≠ "file") (hr : hierarchy scheme isLast t = .ok (some a, path)) :
    path.IsSettled (SchemeKind.ofScheme scheme).isSpecial := by
  unfold hierarchy at hr
  split at hr
  · rename_i hk
    exact absurd (scheme_of_file hk) hf
  · exact settled_path_of_afterSlashes hr
  · split at hr
    · exact settled_path_of_afterSlashes hr
    · cases hr
    · cases hr

/-- The path of a URL with an authority is written as it is read, unless the URL is that of a file. -/
theorem settled_path_of_read {t : Text} {u : Url} {a : Authority} (hr : read t = .ok u) (ha : u.authority = some a)
    (hf : u.scheme ≠ "file") :
    u.path.IsSettled (SchemeKind.ofScheme u.scheme).isSpecial := by
  obtain ⟨-, -, isLast, rest, hhier⟩ := hierarchy_of_read hr
  rw [ha] at hhier
  exact settled_path_of_hierarchy hf hhier

end Url
end DeviceDescription
