import DeviceDescription.Proofs.SchemaTree
import DeviceDescription.Proofs.StepText
import DeviceDescription.Proofs.Traversal

/-!
# Paths of the schema lead to the elements of the tree

A path of the schema is written, read back and followed. Here it is shown to lead to the element that the
tree names: the first child of a name, or the child at an index.
-/
namespace DeviceDescription

open SchemaTree PathStep Traversal

theorem plainName_deviceQualifier : IsPlainName Namespaces.deviceQualifier := by decide

variable {ns : Namespaces} {uri name : Text}

namespace DocumentContext

theorem matching_schema {c : DocumentContext} (hns : c.namespaces.uri? Namespaces.deviceQualifier = some uri)
    (name : Text) (position : Option Nat) :
    c.matching ⟨some Namespaces.deviceQualifier, name, position⟩ = .ok (named uri name c.children) := by
  simp [matching, namespaceOf, hns, named, Except.map]

theorem pointer_of_read {c : DocumentContext} {t : Text} {s : PathStep} {es : List XmlElement} (ht : '/' ∉ t)
    (hr : PathStep.read t = .ok s) (hm : c.matching s = .ok es) :
    c.pointer t = match es[s.index]? with
      | some e => .ok (c.moveTo e)
      | none => .error (.notFound t) := by
  rw [pointer, List.splitOn_eq_singleton ht, follow, hr, ok_bind, hm, ok_bind]
  cases es[s.index]? <;> rfl

theorem pointer_of_read_error {c : DocumentContext} {t : Text} {e : PathError} (ht : '/' ∉ t)
    (hr : PathStep.read t = .error e) : c.pointer t = .error e := by
  rw [pointer, List.splitOn_eq_singleton ht, follow, hr, error_bind]

theorem slash_notMem_first (hn : IsPlainName name) : '/' ∉ SchemaPath.first name :=
  slash_notMem_text plainName_deviceQualifier hn none

theorem slash_notMem_nth (hn : IsPlainName name) (n : Nat) : '/' ∉ SchemaPath.nth name n :=
  slash_notMem_text plainName_deviceQualifier hn (some n)

theorem read_first (hn : IsPlainName name) :
    PathStep.read (SchemaPath.first name) = .ok ⟨some Namespaces.deviceQualifier, name, none⟩ :=
  read_text_first plainName_deviceQualifier hn

theorem pointer_first {c : DocumentContext} (hns : c.namespaces.uri? Namespaces.deviceQualifier = some uri)
    (hn : IsPlainName name) :
    c.pointer (SchemaPath.first name) = match (named uri name c.children).head? with
      | some e => .ok (c.moveTo e)
      | none => .error (.notFound (SchemaPath.first name)) := by
  rw [pointer_of_read (slash_notMem_first hn) (read_first hn) (matching_schema hns name none),
    List.head?_eq_getElem?]
  rfl

theorem pointer_first_unbound {c : DocumentContext}
    (hns : c.namespaces.uri? Namespaces.deviceQualifier = none) (hn : IsPlainName name) :
    c.pointer (SchemaPath.first name) = .error (.unboundQualifier Namespaces.deviceQualifier) := by
  rw [pointer, List.splitOn_eq_singleton (slash_notMem_first hn), follow, read_first hn, ok_bind]
  simp [matching, namespaceOf, hns, Except.map]

/-- Where a position leads is decided by the children of the name alone. -/
theorem pointer_nth_eq {c : DocumentContext} (hns : c.namespaces.uri? Namespaces.deviceQualifier = some uri)
    (hn : IsPlainName name) (i : Nat) :
    c.pointer (SchemaPath.nth name (i + 1)) =
      if i < Numeral.maxWord64 then
        match (named uri name c.children)[i]? with
        | some e => .ok (c.moveTo e)
        | none => .error (.notFound (SchemaPath.nth name (i + 1)))
      else .error (.invalidStep (SchemaPath.nth name (i + 1))) := by
  have hr := read_text_nth plainName_deviceQualifier hn (Nat.succ_pos i)
  split
  · rename_i hi
    rw [if_pos (Nat.succ_le_of_lt hi)] at hr
    rw [pointer_of_read (slash_notMem_nth hn _) hr (matching_schema hns name _)]
    rfl
  · rename_i hi
    rw [if_neg (by omega)] at hr
    exact pointer_of_read_error (slash_notMem_nth hn _) hr

theorem pointer_nth {c : DocumentContext} (hns : c.namespaces.uri? Namespaces.deviceQualifier = some uri)
    (hn : IsPlainName name) {i : Nat} (hi : i < Numeral.maxWord64) {e : XmlElement}
    (he : (named uri name c.children)[i]? = some e) :
    c.pointer (SchemaPath.nth name (i + 1)) = .ok (c.moveTo e) := by
  rw [pointer_nth_eq hns hn, if_pos hi, he]

theorem count_first {c : DocumentContext} (hns : c.namespaces.uri? Namespaces.deviceQualifier = some uri)
    (hn : IsPlainName name) :
    c.count (SchemaPath.first name) = .ok (named uri name c.children).length := by
  rw [count, Text.cutLast_eq_none_iff.2 (slash_notMem_first hn)]
  simp only [countStep]
  rw [read_first hn, ok_bind, matching_schema hns]
  rfl

end DocumentContext

section AtElement
variable (hns : ns.uri? Namespaces.deviceQualifier = some uri)
include hns

theorem pointer_first_element (hn : IsPlainName name) (e : XmlElement) :
    DocumentContext.pointer ⟨.element e, ns⟩ (SchemaPath.first name) = match child? uri name e with
      | some x => .ok ⟨.element x, ns⟩
      | none => .error (.notFound (SchemaPath.first name)) :=
  DocumentContext.pointer_first hns hn

theorem optionalText_first (hn : IsPlainName name) (e : XmlElement) :
    optionalText ⟨.element e, ns⟩ (SchemaPath.first name) = text? uri name e := by
  unfold optionalText DocumentContext.value
  rw [pointer_first_element hns hn, text?]
  cases child? uri name e with
  | none => rfl
  | some x =>
    simp only [Except.map, DocumentContext.ownText, DocumentContext.element?, Option.elim_some, Option.map_some]
    by_cases h : Text.trim x.directText = []
    · simp [h, Option.filter_some]
    · simp [h, Option.filter_some]

/-- A path of two names leads to the first child of the first child. -/
theorem value_under {a b : Text} (ha : IsPlainName a) (hb : IsPlainName b) (e : XmlElement) :
    DocumentContext.value ⟨.element e, ns⟩ (SchemaPath.under (SchemaPath.first a) (SchemaPath.first b)) =
      match (child? uri a e).bind (child? uri b) with
      | some x => .ok (Text.trim x.directText)
      | none => .error (.notFound (SchemaPath.under (SchemaPath.first a) (SchemaPath.first b))) := by
  have hsteps : (SchemaPath.under (SchemaPath.first a) (SchemaPath.first b)).splitOn '/' =
      [SchemaPath.first a, SchemaPath.first b] := by
    rw [SchemaPath.under, List.splitOn_append_cons_self_of_not_mem (DocumentContext.slash_notMem_first ha),
      List.splitOn_eq_singleton (DocumentContext.slash_notMem_first hb)]
  have hstep : ∀ (name : Text) (x : XmlElement),
      DocumentContext.matching ⟨.element x, ns⟩ ⟨some Namespaces.deviceQualifier, name, none⟩ =
        .ok (named uri name x.children) := fun name x => DocumentContext.matching_schema hns name none
  have hindex : ∀ name, PathStep.index ⟨some Namespaces.deviceQualifier, name, none⟩ = 0 := fun _ => rfl
  rw [DocumentContext.value, DocumentContext.pointer, hsteps]
  simp only [DocumentContext.follow, DocumentContext.read_first ha, DocumentContext.read_first hb, ok_bind, hstep,
    hindex, ← List.head?_eq_getElem?]
  rw [child?]
  cases hx : (named uri a e.children).head? with
  | none => rfl
  | some x =>
    simp only [DocumentContext.moveTo, hstep, ok_bind, Option.bind_some, child?]
    cases (named uri b x.children).head? with
    | none => rfl
    | some y => rfl

variable {α : Type} {list item : Text} {e : XmlElement} {f : DocumentContext → Except DescriptionError α}

theorem readItems_of_noList (hl : IsPlainName list) (h : child? uri list e = none) :
    SchemaPath.readItems ⟨.element e, ns⟩ list item (fun d _ => f d) = .ok [] := by
  have hp := pointer_first_element hns hl e
  rw [h] at hp
  unfold SchemaPath.readItems
  split
  · rfl
  · rename_i l hl'
    rw [hp] at hl'
    cases hl'

theorem readItems_of_list (hl : IsPlainName list) (hi : IsPlainName item) {l : XmlElement}
    (h : child? uri list e = some l) :
    SchemaPath.readItems ⟨.element e, ns⟩ list item (fun d _ => f d) =
      (List.range (named uri item l.children).length).mapM fun i =>
        match DocumentContext.pointer ⟨.element l, ns⟩ (SchemaPath.nth item (i + 1)) with
        | .error e => .error (.path e)
        | .ok d => f d := by
  have hp := pointer_first_element hns hl e
  rw [h] at hp
  have hc : DocumentContext.count ⟨.element l, ns⟩ (SchemaPath.first item) = .ok (named uri item l.children).length :=
    DocumentContext.count_first hns hi
  unfold SchemaPath.readItems
  split
  · rename_i hl'
    rw [hp] at hl'
    cases hl'
  · rename_i l' hl'
    rw [hp] at hl'
    cases hl'
    rw [hc, SchemaPath.required]
    simp only [Except.mapError, ok_bind]
    congr 1
    funext i
    split
    · rename_i hd
      rw [hd]
    · rename_i hd
      rw [hd]

/-- Each position leads to its item, as long as a word holds the position. -/
theorem readItems_eq_range (hl : IsPlainName list) (hi : IsPlainName item) :
    SchemaPath.readItems ⟨.element e, ns⟩ list item (fun d _ => f d) =
      (List.range (items uri list item e).length).mapM fun i =>
        if i < Numeral.maxWord64 then
          match (items uri list item e)[i]? with
          | some x => f ⟨.element x, ns⟩
          | none => .error (.path (.notFound (SchemaPath.nth item (i + 1))))
        else .error (.path (.invalidStep (SchemaPath.nth item (i + 1)))) := by
  rw [items]
  cases h : child? uri list e with
  | none =>
    rw [readItems_of_noList hns hl h]
    rfl
  | some l =>
    rw [readItems_of_list hns hl hi h, Option.elim_some]
    congr 1
    funext i
    rw [DocumentContext.pointer_nth_eq (c := ⟨.element l, ns⟩) hns hi]
    by_cases hword : i < Numeral.maxWord64
    · rw [if_pos hword, if_pos hword, DocumentContext.children]
      cases (named uri item l.children)[i]? <;> rfl
    · rw [if_neg hword, if_neg hword]

theorem readItems_congr (hl : IsPlainName list) (hi : IsPlainName item) {e' : XmlElement}
    {r : XmlElement → XmlElement → Prop} (h : List.Forall₂ r (items uri list item e) (items uri list item e'))
    (hf : ∀ a ∈ items uri list item e, ∀ b, r a b → f ⟨.element a, ns⟩ = f ⟨.element b, ns⟩) :
    SchemaPath.readItems ⟨.element e, ns⟩ list item (fun d _ => f d) =
      SchemaPath.readItems ⟨.element e', ns⟩ list item fun d _ => f d := by
  rw [readItems_eq_range hns hl hi, readItems_eq_range hns hl hi, h.length_eq]
  congr 1
  funext i
  split
  · obtain ⟨ha, hb⟩ | ⟨a, b, ha, hb, hab⟩ := getElem?_of_forall₂ h i
    · rw [ha, hb]
    · rw [ha, hb]
      exact hf a (List.mem_of_getElem? ha) b hab
  · rfl

/-- The items are reached one by one by their positions, as long as a word holds these. -/
theorem readItems_eq (hl : IsPlainName list) (hi : IsPlainName item)
    (hsize : (items uri list item e).length ≤ Numeral.maxWord64) :
    SchemaPath.readItems ⟨.element e, ns⟩ list item (fun d _ => f d) =
      (items uri list item e).mapM fun x => f ⟨.element x, ns⟩ := by
  cases h : child? uri list e with
  | none => simp [readItems_of_noList hns hl h, items, h, pure, Except.pure]
  | some l =>
    have hitems : items uri list item e = named uri item l.children := by simp [items, h]
    rw [hitems] at hsize ⊢
    rw [readItems_of_list hns hl hi h]
    apply mapM_range_length
    intro i x hx
    have hlt : i < Numeral.maxWord64 := Nat.lt_of_lt_of_le (List.getElem?_eq_some_iff.mp hx).1 hsize
    rw [DocumentContext.pointer_nth hns hi hlt hx]
    rfl

private theorem length_items_le_of_readItems (hl : IsPlainName list) (hi : IsPlainName item) {xs : List α}
    (h : SchemaPath.readItems ⟨.element e, ns⟩ list item (fun d _ => f d) = .ok xs) :
    (items uri list item e).length ≤ Numeral.maxWord64 := by
  cases hc : child? uri list e with
  | none => simp [items, hc]
  | some l =>
    rw [readItems_of_list hns hl hi hc] at h
    have hitems : items uri list item e = named uri item l.children := by simp [items, hc]
    rw [hitems]
    by_contra hn
    obtain ⟨x, -, hx⟩ := exists_ok_of_mapM h (List.mem_range.mpr (Nat.lt_of_not_le hn))
    rw [DocumentContext.pointer_nth_eq (c := ⟨.element l, ns⟩) hns hi, if_neg (Nat.lt_irrefl _)] at hx
    cases hx

theorem mapM_items_of_readItems (hl : IsPlainName list) (hi : IsPlainName item) {xs : List α}
    (h : SchemaPath.readItems ⟨.element e, ns⟩ list item (fun d _ => f d) = .ok xs) :
    ((items uri list item e).mapM fun x => f ⟨.element x, ns⟩) = .ok xs := by
  rw [← readItems_eq hns hl hi (length_items_le_of_readItems hns hl hi h), h]

end AtElement
end DeviceDescription
