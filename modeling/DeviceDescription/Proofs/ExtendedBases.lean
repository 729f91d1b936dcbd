import DeviceDescription.Proofs.DirectoryReferences

/-!
# Bases are extended at their end

A plain reference is appended to all that is written of its base. It continues the path of a base that ends with its
path. Where a query or a fragment comes last, it continues that one, and the path stays as it is.
-/
namespace DeviceDescription.UrlReference

open Url UrlPath PercentEncoding

variable {base : Url} {a : Authority} {h : Host} {r : Text}

private theorem withFinalSlash_cons {c : Char} (hc : c ≠ '/') (t : Text) :
    withFinalSlash (c :: t) = c :: withFinalSlash t := by
  cases t with
  | nil =>
    rw [withFinalSlash, if_neg (by simpa using hc)]
    rfl
  | cons d t => exact withFinalSlash_append [c] (List.cons_ne_nil d t)

private theorem mem_of_mem_withFinalSlash {t : Text} {c : Char} (hc : c ∈ withFinalSlash t) : c ∈ t ∨ c = '/' := by
  rw [withFinalSlash] at hc
  split at hc
  · exact .inl hc
  · simpa using hc

private theorem eq_false_of_mem_extended {p : Char → Bool} (hslash : p '/' = false)
    (hp : ∀ n < 128, isPlainChar (Char.ofNat n) = true → p (Char.ofNat n) = false) (hr : isPlain r = true) {t : Text}
    (ht : ∀ c ∈ t, p c = false) {c : Char} (hc : c ∈ withFinalSlash t ++ r) : p c = false := by
  rcases List.mem_append.mp hc with hc | hc
  · rcases mem_of_mem_withFinalSlash hc with hc | rfl
    · exact ht c hc
    · exact hslash
  · exact eq_false_of_isPlain hr hslash hp hc

private theorem querySet_of_mem_extended {scheme : Text} (hr : isPlain r = true) {t : Text}
    (ht : ∀ c ∈ t, querySet scheme c = false) {c : Char} (hc : c ∈ withFinalSlash t ++ r) :
    querySet scheme c = false := by
  rcases querySet_cases scheme with hset | hset <;> rw [hset] at ht ⊢
  all_goals exact eq_false_of_mem_extended (by decide) (by decide) hr ht hc

private theorem text_fragment (u : Url) (f : Text) :
    ({ u with fragment := some f } : Url).text = ({ u with fragment := none } : Url).text ++ '#' :: f := by
  simp [Url.text]

private theorem text_query (u : Url) (q : Text) :
    ({ u with query := some q, fragment := none } : Url).text =
      ({ u with query := none, fragment := none } : Url).text ++ '?' :: q := by
  simp [Url.text]

theorem resolve_of_fragment [InternationalNames] (hb : base.Settled a h) (hr : isPlain r = true) {f : Text}
    (hf : base.fragment = some f) :
    resolve (some base) (some r) = .ok (some { base with fragment := some (withFinalSlash f ++ r) }) := by
  have hs := hb.serves
  have hsettled : Url.Settled { base with fragment := some (withFinalSlash f ++ r) } a h := {
    serves := ⟨hs.isScheme, hs.lower, hs.authority, hs.settled, hs.port, hs.path, hs.file⟩
    notFile := hb.notFile
    path := hb.path
    query := hb.query
    fragment f' hf' c hc := by
      obtain rfl := Option.some.inj hf'
      exact eq_false_of_mem_extended (by decide) (by decide) hr (hb.fragment f hf) hc }
  refine resolve_of_text hsettled hr ?_
  have hbase : base.text = ({ base with fragment := none } : Url).text ++ '#' :: f := by rw [← text_fragment, ← hf]
  rw [text_fragment, hbase, withFinalSlash_append _ (List.cons_ne_nil _ _), withFinalSlash_cons (by decide),
    List.append_assoc, List.cons_append]

theorem resolve_of_query [InternationalNames] (hb : base.Settled a h) (hr : isPlain r = true) {q : Text}
    (hq : base.query = some q) (hf : base.fragment = none) :
    resolve (some base) (some r) = .ok (some { base with query := some (withFinalSlash q ++ r) }) := by
  have hs := hb.serves
  have hsettled : Url.Settled { base with query := some (withFinalSlash q ++ r) } a h := {
    serves := ⟨hs.isScheme, hs.lower, hs.authority, hs.settled, hs.port, hs.path, hs.file⟩
    notFile := hb.notFile
    path := hb.path
    query q' hq' c hc := by
      obtain rfl := Option.some.inj hq'
      exact querySet_of_mem_extended hr (hb.query q hq) hc
    fragment := hb.fragment }
  refine resolve_of_text hsettled hr ?_
  have hbase : base.text = ({ base with query := none, fragment := none } : Url).text ++ '?' :: q := by
    rw [← text_query, ← hf, ← hq]
  rw [hf, text_query, hbase, withFinalSlash_append _ (List.cons_ne_nil _ _), withFinalSlash_cons (by decide),
    List.append_assoc, List.cons_append]

private theorem ne_withFinalSlash_append (t : Text) (hr : r ≠ []) : t ≠ withFinalSlash t ++ r := by
  intro he
  have hlength : t.length ≤ (withFinalSlash t).length := by
    rw [withFinalSlash]
    split <;> simp
  have hr := List.length_pos_iff.mpr hr
  have hsum := congrArg List.length he
  rw [List.length_append] at hsum
  omega

/-- A plain reference is resolved on the server of its base. It continues the path exactly when neither a query nor a
fragment comes behind the path. Else it continues the last of the two, and all that comes before is that of the
base. -/
theorem resolve_extends_path_iff [InternationalNames] {t : Text} (hread : Url.read t = .ok base)
    (hh : base.hasHost = true) (hf : base.scheme ≠ "file") (hr : isPlain r = true) :
    ∃ u, resolve (some base) (some r) = .ok (some u) ∧ u.scheme = base.scheme ∧ u.authority = base.authority ∧
      (u.path.text = withFinalSlash base.path.text ++ r ↔ base.query = none ∧ base.fragment = none) ∧
      (base.query = none → base.fragment = none → u.query = none ∧ u.fragment = none) ∧
      (∀ q, base.query = some q → base.fragment = none → u = { base with query := some (withFinalSlash q ++ r) }) ∧
      ∀ f, base.fragment = some f → u = { base with fragment := some (withFinalSlash f ++ r) } := by
  obtain ⟨a, h, hb⟩ := Url.settled_of_read hread hh hf
  have hkept := ne_withFinalSlash_append base.path.text (ne_nil_of_isPlain hr)
  cases hfragment : base.fragment with
  | some f =>
    refine ⟨_, resolve_of_fragment hb hr hfragment, rfl, rfl, ?_, ?_, ?_, ?_⟩
    · exact iff_of_false hkept fun hnone => Option.some_ne_none f hnone.2
    · intro _ hnone
      cases hnone
    · intro _ _ hnone
      cases hnone
    · rintro f' hf'
      cases hf'
      rfl
  | none =>
    cases hquery : base.query with
    | some q =>
      refine ⟨_, resolve_of_query hb hr hquery hfragment, rfl, rfl, ?_, ?_, ?_, ?_⟩
      · exact iff_of_false hkept fun hnone => Option.some_ne_none q hnone.1
      · intro hnone
        cases hnone
      · rintro q' hq' -
        cases hq'
        rw [hfragment]
      · intro f hsome
        cases hsome
    | none =>
      obtain ⟨u, hu, hscheme, hauthority, huquery, hufragment, hpath⟩ :=
        resolve_of_isPlain hb.serves hf hb.path hquery hfragment hr
      refine ⟨u, hu, hscheme, hauthority, iff_of_true hpath ⟨rfl, rfl⟩, fun _ _ => ⟨huquery, hufragment⟩, ?_, ?_⟩
      · intro q hsome
        cases hsome
      · intro f hsome
        cases hsome

open InternationalNames in
/-- The credentials of the base stay, and its path is closed by a slash. -/
theorem resolve_extends_path_iff_nested :
    ∃ base u, Url.read "ws://me:pw@host:8080/d/x.xml" = .ok base ∧ base.hasHost = true ∧ base.scheme ≠ "file" ∧
      isPlain "ctl/e-1" = true ∧ resolve (some base) (some "ctl/e-1") = .ok (some u) ∧
      u.authority.map Authority.text = some ("me:pw@host:8080" : Text) ∧ u.path.text = "/d/x.xml/ctl/e-1" := by
  have hfacts : (Url.read "ws://me:pw@host:8080/d/x.xml").toOption.map (fun base =>
      ((base.scheme, base.hasHost, base.authority.map Authority.text), base.path.text, base.query, base.fragment)) =
      some ((("ws" : Text), true, some ("me:pw@host:8080" : Text)), ("/d/x.xml" : Text), none, none) := by
    decide +kernel
  obtain ⟨base, hread, hfacts⟩ := Traversal.exists_ok_of_toOption_map hfacts
  simp only [Prod.mk.injEq] at hfacts
  obtain ⟨⟨hscheme, hhost, hauthority⟩, hpath, hquery, hfragment⟩ := hfacts
  have hf : base.scheme ≠ "file" := by
    rw [hscheme]
    decide
  have hplain : isPlain "ctl/e-1" = true := by decide +kernel
  obtain ⟨u, hu, -, hsame, hextends, -, -, -⟩ := resolve_extends_path_iff hread hhost hf hplain
  refine ⟨base, u, hread, hhost, hf, hplain, hu, by rw [hsame, hauthority], ?_⟩
  rw [hextends.mpr ⟨hquery, hfragment⟩, hpath]
  decide

open InternationalNames in
/-- Behind a query, the path is not continued. -/
theorem not_resolve_extends_path :
    ¬∀ (base u : Url) (t r : Text), Url.read t = .ok base → base.hasHost = true → base.scheme ≠ "file" →
      isPlain r = true → resolve (some base) (some r) = .ok (some u) →
      u.path.text = withFinalSlash base.path.text ++ r := by
  intro hall
  have hfacts : (Url.read "http://host/d.xml?id=1").toOption.map (fun base =>
      (base.scheme, base.hasHost, base.path.text)) = some (("http" : Text), true, ("/d.xml" : Text)) := by
    decide +kernel
  obtain ⟨base, hread, hfacts⟩ := Traversal.exists_ok_of_toOption_map hfacts
  simp only [Prod.mk.injEq] at hfacts
  obtain ⟨hscheme, hhost, hpath⟩ := hfacts
  have hf : base.scheme ≠ "file" := by
    rw [hscheme]
    decide
  have hplain : isPlain "ctl" = true := by decide +kernel
  have hresolved : ((Url.read "http://host/d.xml?id=1").toOption.bind fun base =>
      (resolve (some base) (some "ctl")).toOption.join.map fun u => u.path.text) = some ("/d.xml" : Text) := by
    decide +kernel
  rw [hread] at hresolved
  obtain ⟨u, hu, hkept⟩ := Option.map_eq_some_iff.mp hresolved
  have hu' := Traversal.eq_ok_of_toOption (Option.join_eq_some_iff.mp hu)
  have hclaimed := hall base u _ "ctl" hread hhost hf hplain hu'
  rw [hkept, hpath] at hclaimed
  exact absurd hclaimed (by decide)

end DeviceDescription.UrlReference
