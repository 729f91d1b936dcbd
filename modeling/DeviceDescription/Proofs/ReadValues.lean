import DeviceDescription.YamlDocument
import Mathlib

/-!
# What holds of every value of a document

A predicate that scalars satisfy and that collections and tags pass on holds of every value that is read. One that is
read without reading anything new, an anchored one, has been read before.
-/
namespace DeviceDescription.YamlDocument

/-- The predicate holds of null and of all scalars, and of what is made of values that satisfy it. -/
structure IsHereditary (P : YamlValue → Prop) : Prop where
  null : P .null
  scalar {tag : Option Text} {text : Text} {isPlain : Bool} {v : YamlValue} (h : scalar? tag text isPlain = some v) :
    P v
  sequence {items : List YamlValue} (h : ∀ v ∈ items, P v) : P (.sequence items)
  mapping {entries : List (YamlValue × YamlValue)} (h : ∀ e ∈ entries, P e.1 ∧ P e.2) : P (.mapping entries)
  tagged {tag : Text} {v : YamlValue} (h : P v) : P (.tagged tag v)

variable {P : YamlValue → Prop}

def Seen.All (P : YamlValue → Prop) (s : Seen) : Prop :=
  ∀ name value jumps, (name, some (value, jumps)) ∈ s.anchors → P value

section Anchors
variable {s : Seen}

theorem Seen.All.openAnchor (h : s.All P) (anchor : Option Text) : (s.openAnchor anchor).All P := by
  cases anchor with
  | none => exact h
  | some a =>
    intro name value jumps hm
    rcases List.mem_cons.mp hm with heq | hm
    · cases heq
    · exact h name value jumps hm

private theorem mem_settle {name : Text} {new : YamlValue × Nat} {anchors : List (Text × Option (YamlValue × Nat))}
    {a : Text × Option (YamlValue × Nat)} (h : a ∈ settle name new anchors) : a = (name, some new) ∨ a ∈ anchors := by
  induction anchors with
  | nil => cases h
  | cons b anchors ih =>
    obtain ⟨n, v⟩ := b
    rw [settle] at h
    split at h
    · rename_i hn
      rcases List.mem_cons.mp h with rfl | h
      · exact .inl (by rw [hn.1])
      · exact .inr (List.mem_cons_of_mem _ h)
    · rcases List.mem_cons.mp h with rfl | h
      · exact .inr List.mem_cons_self
      · exact (ih h).imp_right (List.mem_cons_of_mem _)

theorem Seen.All.closeAnchor (h : s.All P) (anchor : Option Text) {value : YamlValue × Nat} (hv : P value.1) :
    (s.closeAnchor anchor value).All P := by
  cases anchor with
  | none => exact h
  | some a =>
    intro name v jumps hm
    rcases mem_settle hm with heq | hm
    · cases heq
      exact hv
    · exact h name v jumps hm

/-- A reference leads to a value that has been read. -/
theorem Seen.All.jump (h : s.All P) {name : Text} {value : YamlValue} {next : Seen}
    (hj : s.jump? name = some (value, next)) : P value ∧ next.All P := by
  unfold jump? at hj
  split at hj
  · rename_i hl
    cases hj
    obtain ⟨l₁, l₂, hmem, -⟩ := List.lookup_eq_some_iff.mp hl
    exact ⟨h name _ _ (hmem ▸ List.mem_append_right _ List.mem_cons_self), h⟩
  · cases hj

end Anchors

/-- What a reading takes satisfies a predicate, and what has been seen then is of values that satisfy theirs. -/
def Yields {α ρ : Type} (P : YamlValue → Prop) (Q : α → Prop) (o : Option (α × Seen × ρ)) : Prop :=
  ∀ a next rest, o = some (a, next, rest) → Q a ∧ next.All P

namespace Yields
variable {α β γ ρ σ : Type} {Q : α → Prop} {R : β → Prop}

theorem none : Yields P Q (none : Option (α × Seen × ρ)) := nofun

theorem some {a : α} {s : Seen} {rest : ρ} (ha : Q a) (hs : s.All P) : Yields P Q (some (a, s, rest)) := by
  rintro _ _ _ ⟨⟩
  exact ⟨ha, hs⟩

theorem bind {o : Option (α × Seen × ρ)} {f : α × Seen × ρ → Option (β × Seen × σ)} (ho : Yields P Q o)
    (hf : ∀ a next rest, Q a → next.All P → Yields P R (f (a, next, rest))) : Yields P R (o >>= f) := by
  intro b next rest h
  obtain ⟨⟨a, s, r⟩, ha, hb⟩ := Option.bind_eq_some_iff.mp h
  obtain ⟨hq, hs⟩ := ho a s r ha
  exact hf a s r hq hs b next rest hb

/-- What is worked out beside the tokens changes nothing. -/
theorem bind_value {o : Option γ} {f : γ → Option (β × Seen × σ)} (hf : ∀ c, o = Option.some c → Yields P R (f c)) :
    Yields P R (o >>= f) := by
  intro b next rest h
  obtain ⟨c, hc, hb⟩ := Option.bind_eq_some_iff.mp h
  exact hf c hc b next rest hb

end Yields

theorem IsHereditary.collection (hP : IsHereditary P) (tag : Option Text) {v : YamlValue} (hv : P v) :
    P (YamlDocument.collection tag v) := by
  unfold YamlDocument.collection
  split
  · exact hP.tagged hv
  · exact hv

theorem IsHereditary.mapping? (hP : IsHereditary P) {entries : List (YamlValue × YamlValue)} {v : YamlValue}
    (h : ∀ e ∈ entries, P e.1 ∧ P e.2) (hv : YamlDocument.mapping? entries = some v) : P v := by
  unfold YamlDocument.mapping? at hv
  split at hv
  · cases hv
    exact hP.mapping h
  · cases hv

theorem lt_of_properties {t r : List YamlToken} {x : YamlToken} (h : (properties t).2 = x :: r) :
    r.length < t.length := by
  have hp := length_properties t
  rw [h] at hp
  exact hp

section Nodes
variable {handles : Handles}

theorem empty_yields (hP : IsHereditary P) (tag : Option Text) {seen : Seen} (t : List YamlToken)
    (hs : seen.All P) : Yields P P (empty? tag seen t) := by
  unfold empty?
  split
  · exact .bind_value fun v hv => .some (hP.scalar hv) hs
  · exact .none

-- The recursion is that of the readings, with their measures.
mutual

/-- A value that is anchored was seen before, or its anchor is closed with the value that was just read. -/
theorem node_yields (hP : IsHereditary P) (mayBeBlock mayBeIndentless : Bool) {seen : Seen} (t : List YamlToken)
    (hs : seen.All P) : Yields P P (node? handles mayBeBlock mayBeIndentless seen t) := by
  unfold node?
  split
  · rintro v next rest h
    obtain ⟨⟨value, s⟩, hj, heq⟩ := Option.map_eq_some_iff.mp h
    cases heq
    exact hs.jump hj
  · have hcontent (tag : Option Text) := content_yields hP mayBeBlock mayBeIndentless tag t
      (hs.openAnchor (properties t).1.anchor)
    dsimp only
    split
    · exact .bind_value fun tag _ => (hcontent tag).bind fun v next rest hv hnext =>
        .some hv (hnext.closeAnchor _ hv)
    · exact .bind_value fun tag _ => (hcontent tag).bind fun v next rest hv hnext =>
        .some hv (hnext.closeAnchor _ hv)
termination_by (t.length, 2)

theorem content_yields (hP : IsHereditary P) (mayBeBlock mayBeIndentless : Bool) (tag : Option Text) {seen : Seen}
    (t : List YamlToken) (hs : seen.All P) : Yields P P (content? handles mayBeBlock mayBeIndentless tag seen t) := by
  unfold content?
  dsimp only
  split
  · exact .bind_value fun v hv => .some (hP.scalar hv) hs
  · rename_i r hr
    have hlt := lt_of_properties hr
    exact (flowItems_yields hP true r hs).bind fun items next rest hitems hnext =>
      .some (hP.collection tag (hP.sequence hitems)) hnext
  · rename_i r hr
    have hlt := lt_of_properties hr
    exact (flowEntries_yields hP true r hs).bind fun entries next rest hentries hnext =>
      .bind_value fun v hv => .some (hP.collection tag (hP.mapping? hentries hv)) hnext
  · rename_i r hr
    have hlt := lt_of_properties hr
    split
    · exact (blockItems_yields hP r hs).bind fun items next rest hitems hnext =>
        .some (hP.collection tag (hP.sequence hitems)) hnext
    · exact .none
  · rename_i r hr
    have hlt := lt_of_properties hr
    split
    · exact (blockEntries_yields hP r hs).bind fun entries next rest hentries hnext =>
        .bind_value fun v hv => .some (hP.collection tag (hP.mapping? hentries hv)) hnext
    · exact .none
  · rename_i r hr
    have hlt := lt_of_properties hr
    split
    · exact (indentlessItems_yields hP r hs).bind fun items next rest hitems hnext =>
        .some (hP.collection tag (hP.sequence hitems)) hnext
    · exact empty_yields hP tag t hs
  · exact empty_yields hP tag t hs
termination_by (t.length, 1)

theorem nodeUnless_yields (hP : IsHereditary P) (mayBeBlock mayBeIndentless : Bool) (ends : List YamlToken)
    {seen : Seen} (t : List YamlToken) (hs : seen.All P) :
    Yields P P (nodeUnless? handles mayBeBlock mayBeIndentless ends seen t) := by
  unfold nodeUnless?
  split
  · exact .some hP.null hs
  · exact (node_yields hP mayBeBlock mayBeIndentless t hs).bind fun v next rest hv hnext => .some hv hnext
termination_by (t.length, 3)

theorem value_yields (hP : IsHereditary P) (mayBeBlock : Bool) (ends : List YamlToken) {seen : Seen}
    (t : List YamlToken) (hs : seen.All P) :
    Yields P P (value? handles mayBeBlock ends seen t) := by
  unfold value?
  split
  · exact (nodeUnless_yields hP mayBeBlock mayBeBlock ends _ hs).bind fun v next rest hv hnext => .some hv hnext
  · exact .some hP.null hs
termination_by (t.length, 0)
decreasing_by
  all_goals
    subst_vars
    apply Prod.Lex.left
    simp only [List.length_cons]
    omega

theorem blockItems_yields (hP : IsHereditary P) {seen : Seen} (t : List YamlToken) (hs : seen.All P) :
    Yields P (fun items => ∀ v ∈ items, P v) (blockItems? handles seen t) := by
  unfold blockItems?
  split
  · refine (nodeUnless_yields hP true false _ _ hs).bind fun item next rest hitem hnext => ?_
    have hrest := rest.2
    exact (blockItems_yields hP rest.1 hnext).bind fun items last rest' hitems hlast =>
      .some (List.forall_mem_cons.mpr ⟨hitem, hitems⟩) hlast
  · exact .some nofun hs
  · exact .none
termination_by (t.length, 0)
decreasing_by
  all_goals
    subst_vars
    apply Prod.Lex.left
    simp only [List.length_cons]
    omega

theorem indentlessItems_yields (hP : IsHereditary P) {seen : Seen} (t : List YamlToken) (hs : seen.All P) :
    Yields P (fun items => ∀ v ∈ items, P v) (indentlessItems? handles seen t) := by
  unfold indentlessItems?
  refine (nodeUnless_yields hP true false _ t hs).bind fun item next rest hitem hnext => ?_
  have hrest := rest.2
  dsimp only
  split
  · rename_i r hr
    have hlt : r.length < t.length := by
      rw [hr] at hrest
      exact hrest
    exact (indentlessItems_yields hP r hnext).bind fun items last rest' hitems hlast =>
      .some (List.forall_mem_cons.mpr ⟨hitem, hitems⟩) hlast
  · exact .some (List.forall_mem_singleton.mpr hitem) hnext
termination_by (t.length, 4)

theorem blockEntries_yields (hP : IsHereditary P) {seen : Seen} (t : List YamlToken) (hs : seen.All P) :
    Yields P (fun entries => ∀ e ∈ entries, P e.1 ∧ P e.2) (blockEntries? handles seen t) := by
  unfold blockEntries?
  split
  · refine (nodeUnless_yields hP true true _ _ hs).bind fun key next rest hkey hnext => ?_
    have hrest := rest.2
    refine (value_yields hP true _ rest.1 hnext).bind fun value next' rest' hvalue hnext' => ?_
    have hrest' := rest'.2
    exact (blockEntries_yields hP rest'.1 hnext').bind fun entries last rest'' hentries hlast =>
      .some (List.forall_mem_cons.mpr ⟨⟨hkey, hvalue⟩, hentries⟩) hlast
  · exact .some nofun hs
  · exact .none
termination_by (t.length, 0)
decreasing_by
  all_goals
    subst_vars
    apply Prod.Lex.left
    simp only [List.length_cons]
    omega

theorem flowItems_yields (hP : IsHereditary P) (isFirst : Bool) {seen : Seen} (t : List YamlToken) (hs : seen.All P) :
    Yields P (fun items => ∀ v ∈ items, P v) (flowItems? handles isFirst seen t) := by
  unfold flowItems?
  split
  · exact .some nofun hs
  · split
    · exact .none
    · exact .some nofun hs
  · split
    · exact .none
    · refine (flowItem_yields hP _ hs).bind fun item next rest hitem hnext => ?_
      have hrest := rest.2
      exact (flowItems_yields hP false rest.1 hnext).bind fun items last rest' hitems hlast =>
        .some (List.forall_mem_cons.mpr ⟨hitem, hitems⟩) hlast
  · split
    · refine (flowItem_yields hP _ hs).bind fun item next rest hitem hnext => ?_
      have hrest := rest.2
      exact (flowItems_yields hP false rest.1 hnext).bind fun items last rest' hitems hlast =>
        .some (List.forall_mem_cons.mpr ⟨hitem, hitems⟩) hlast
    · exact .none
termination_by (t.length, 4)
decreasing_by
  · subst_vars
    exact Prod.Lex.left _ _ (Nat.lt_succ_self _)
  · subst_vars
    exact Prod.Lex.left _ _ (Nat.lt_succ_of_lt hrest)
  · exact Prod.Lex.right _ (by decide)
  · exact Prod.Lex.left _ _ hrest

theorem flowItem_yields (hP : IsHereditary P) {seen : Seen} (t : List YamlToken) (hs : seen.All P) :
    Yields P P (flowItem? handles seen t) := by
  unfold flowItem?
  split
  · refine (nodeUnless_yields hP false false _ _ hs).bind fun key next rest hkey hnext => ?_
    dsimp only
    exact (value_yields hP false _ _ hnext).bind fun value next' rest' hvalue hnext' =>
      .some (hP.mapping (List.forall_mem_singleton.mpr ⟨hkey, hvalue⟩)) hnext'
  · exact node_yields hP false false _ hs
termination_by (t.length, 3)
decreasing_by
  · subst_vars
    exact Prod.Lex.left _ _ (Nat.lt_succ_self _)
  · subst_vars
    exact Prod.Lex.left _ _ (Nat.lt_succ_of_le (Subtype.prop (p := fun left : List YamlToken => left.length ≤ _) _))
  · exact Prod.Lex.right _ (by decide)

theorem flowEntries_yields (hP : IsHereditary P) (isFirst : Bool) {seen : Seen} (t : List YamlToken) (hs : seen.All P) :
    Yields P (fun entries => ∀ e ∈ entries, P e.1 ∧ P e.2) (flowEntries? handles isFirst seen t) := by
  unfold flowEntries?
  split
  · exact .some nofun hs
  · split
    · exact .none
    · exact .some nofun hs
  · split
    · exact .none
    · refine (flowMember_yields hP _ hs).bind fun entry next rest hentry hnext => ?_
      have hrest := rest.2
      exact (flowEntries_yields hP false rest.1 hnext).bind fun entries last rest' hentries hlast =>
        .some (List.forall_mem_cons.mpr ⟨hentry, hentries⟩) hlast
  · split
    · refine (flowMember_yields hP _ hs).bind fun entry next rest hentry hnext => ?_
      have hrest := rest.2
      exact (flowEntries_yields hP false rest.1 hnext).bind fun entries last rest' hentries hlast =>
        .some (List.forall_mem_cons.mpr ⟨hentry, hentries⟩) hlast
    · exact .none
termination_by (t.length, 4)
decreasing_by
  · subst_vars
    exact Prod.Lex.left _ _ (Nat.lt_succ_self _)
  · subst_vars
    exact Prod.Lex.left _ _ (Nat.lt_succ_of_lt hrest)
  · exact Prod.Lex.right _ (by decide)
  · exact Prod.Lex.left _ _ hrest

theorem flowMember_yields (hP : IsHereditary P) {seen : Seen} (t : List YamlToken) (hs : seen.All P) :
    Yields P (fun e => P e.1 ∧ P e.2) (flowMember? handles seen t) := by
  unfold flowMember?
  split
  · refine (nodeUnless_yields hP false false _ _ hs).bind fun key next rest hkey hnext => ?_
    have hrest := rest.2
    exact (value_yields hP false _ rest.1 hnext).bind fun value next' rest' hvalue hnext' =>
      .some ⟨hkey, hvalue⟩ hnext'
  · exact (node_yields hP false false _ hs).bind fun key next rest hkey hnext => .some ⟨hkey, hP.null⟩ hnext
termination_by (t.length, 3)
decreasing_by
  · subst_vars
    exact Prod.Lex.left _ _ (Nat.lt_succ_self _)
  · subst_vars
    exact Prod.Lex.left _ _ (Nat.lt_succ_of_le hrest)
  · exact Prod.Lex.right _ (by decide)

end

end Nodes

/-- The value of a node is that of the document if nothing speaks against it. -/
theorem Yields.of_bind {ρ : Type} {o : Option (YamlValue × Seen × ρ)} {f : YamlValue × Seen × ρ → Option YamlValue}
    {v : YamlValue} (ho : Yields P P o) (hf : ∀ r, f r = Option.some v → r.1 = v) (h : (o >>= f) = Option.some v) :
    P v := by
  obtain ⟨⟨w, s, rest⟩, hw, hv⟩ := Option.bind_eq_some_iff.mp h
  obtain rfl : w = v := hf _ hv
  exact (ho w s rest hw).1

theorem IsHereditary.of_ofTokens? (hP : IsHereditary P) {t : List YamlToken} {v : YamlValue}
    (h : ofTokens? t = some v) : P v := by
  have hstart : Seen.All P {} := nofun
  have hnode (handles : Handles) (r : List YamlToken) : Yields P P
      ((node? handles true false {} r).map fun x => (x.1, x.2.1, x.2.2.1)) := by
    rintro w next rest hw
    obtain ⟨⟨value, seen, left⟩, hvalue, heq⟩ := Option.map_eq_some_iff.mp hw
    cases heq
    exact node_yields hP true false r hstart _ _ _ hvalue
  unfold ofTokens? at h
  obtain ⟨handles, -, h⟩ := Option.bind_eq_some_iff.mp h
  dsimp only at h
  have hfinal (x : YamlValue × Seen × List YamlToken)
      (hx : (if (x.2.2.all (· = .documentEnd)) = true ∧ x.2.1.jumps ≤ maxJumps * x.2.1.events ∧
        x.1.depth ≤ maxDepth then some x.1 else none) = some v) : x.1 = v := by
    split at hx
    · exact Option.some.inj hx
    · cases hx
  split at h
  · split at h
    · exact Yields.of_bind (.some hP.null hstart) hfinal h
    · cases h
  · split at h
    · exact Yields.of_bind (.some hP.null hstart) hfinal h
    · exact (hnode handles _).of_bind hfinal h
  · split at h
    · exact (hnode handles _).of_bind hfinal h
    · cases h

theorem IsHereditary.of_read? (hP : IsHereditary P) {t : Text} {v : YamlValue} (h : read? t = some v) : P v := by
  obtain ⟨tokens, -, h⟩ := Option.bind_eq_some_iff.mp h
  exact hP.of_ofTokens? h

/-- A value is another one, or it occurs somewhere in it. -/
inductive Within (v : YamlValue) : YamlValue → Prop where
  | self : Within v v
  | item {items : List YamlValue} {w : YamlValue} (hw : w ∈ items) (h : Within v w) : Within v (.sequence items)
  | key {entries : List (YamlValue × YamlValue)} {e : YamlValue × YamlValue} (he : e ∈ entries) (h : Within v e.1) :
    Within v (.mapping entries)
  | value {entries : List (YamlValue × YamlValue)} {e : YamlValue × YamlValue} (he : e ∈ entries)
    (h : Within v e.2) : Within v (.mapping entries)
  | tagged {tag : Text} {w : YamlValue} (h : Within v w) : Within v (.tagged tag w)

/-- Signed or unsigned, a word of 64 bits holds every integer in a value. -/
def HoldsWords (v : YamlValue) : Prop := ∀ n : Int, Within (.integer n) v → -2 ^ 63 ≤ n ∧ n < 2 ^ 64

private theorem holdsWords_integer {n : Int} (h : YamlScalar.width n = .word) : HoldsWords (.integer n) := by
  rintro m ⟨⟩
  unfold YamlScalar.width at h
  split at h
  · assumption
  · split at h <;> cases h

private theorem holdsWords_ofFloatOrText (t : Text) : HoldsWords (YamlScalar.ofFloatOrText t) := by
  unfold YamlScalar.ofFloatOrText
  split
  · rintro _ ⟨⟩
  · cases YamlScalar.float? t <;> rintro _ ⟨⟩

private theorem holdsWords_ofPlain? {t : Text} {v : YamlValue} (h : YamlScalar.ofPlain? t = some v) : HoldsWords v := by
  unfold YamlScalar.ofPlain? at h
  split at h
  · cases h
    rintro _ ⟨⟩
  · split at h
    · cases h
      rintro _ ⟨⟩
    · split at h
      · cases h
        exact holdsWords_ofFloatOrText t
      · split at h
        · rename_i hwidth
          cases h
          exact holdsWords_integer hwidth
        · cases h
        · cases h
          exact holdsWords_ofFloatOrText t

private theorem holdsWords_ofScalar? {tag : Option Text} {isPlain : Bool} {t : Text} {v : YamlValue}
    (h : YamlScalar.ofScalar? tag isPlain t = some v) : HoldsWords v := by
  unfold YamlScalar.ofScalar? at h
  split at h
  · split at h
    · exact holdsWords_ofPlain? h
    · cases h
      rintro _ ⟨⟩
  · split_ifs at h
    · obtain ⟨b, -, rfl⟩ := Option.map_eq_some_iff.mp h
      rintro _ ⟨⟩
    · obtain ⟨n, -, h⟩ := Option.bind_eq_some_iff.mp h
      split at h
      · rename_i hwidth
        cases h
        exact holdsWords_integer hwidth
      · cases h
    · obtain ⟨x, -, rfl⟩ := Option.map_eq_some_iff.mp h
      rintro _ ⟨⟩
    · cases h
      rintro _ ⟨⟩
    · cases h
      rintro _ ⟨⟩

private theorem holdsWords_tagged {tag : Text} {v : YamlValue} (h : HoldsWords v) : HoldsWords (.tagged tag v) := by
  intro n hn
  cases hn with
  | tagged hn => exact h n hn

theorem isHereditary_holdsWords : IsHereditary HoldsWords where
  null := by rintro _ ⟨⟩
  scalar h := by
    unfold scalar? at h
    dsimp only at h
    split at h
    · obtain ⟨v, hv, rfl⟩ := Option.map_eq_some_iff.mp h
      refine holdsWords_tagged ?_
      split at hv
      · exact holdsWords_ofPlain? hv
      · cases hv
        rintro _ ⟨⟩
    · exact holdsWords_ofScalar? h
  sequence h := by
    intro n hn
    cases hn with
    | item hw hn => exact h _ hw n hn
  mapping h := by
    intro n hn
    cases hn with
    | key he hn => exact (h _ he).1 n hn
    | value he hn => exact (h _ he).2 n hn
  tagged := holdsWords_tagged

end DeviceDescription.YamlDocument
