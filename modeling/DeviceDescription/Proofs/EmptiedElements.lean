import DeviceDescription.Proofs.TreeRefinement

/-!
# Documents without the content of some elements

A place in an element is the list of the numbers of the child elements on the way down to it. Marked places are
emptied all at once: the elements there keep their names and lose what they hold.
-/
namespace DeviceDescription

open SchemaTree

def marksBelow (marked : List Nat → Bool) (i : Nat) : List Nat → Bool := fun place => marked (i :: place)

namespace XmlElement

mutual

/-- The element with no content at the marked places. -/
def emptied (marked : List Nat → Bool) : XmlElement → XmlElement
  | ⟨name, namespaceUri, content⟩ =>
    ⟨name, namespaceUri, if marked [] then [] else emptiedItems marked 0 content⟩

def emptiedItems (marked : List Nat → Bool) (i : Nat) : List (XmlItem XmlElement) → List (XmlItem XmlElement)
  | [] => []
  | .child e :: r => .child (emptied (marksBelow marked i) e) :: emptiedItems marked (i + 1) r
  | .text t :: r => .text t :: emptiedItems marked i r
  | .comment t :: r => .comment t :: emptiedItems marked i r
  | .instruction t :: r => .instruction t :: emptiedItems marked i r

end

variable {marked : List Nat → Bool}

@[simp] theorem name_emptied (e : XmlElement) : (e.emptied marked).name = e.name := by
  cases e
  rw [emptied]

@[simp] theorem namespaceUri_emptied (e : XmlElement) : (e.emptied marked).namespaceUri = e.namespaceUri := by
  cases e
  rw [emptied]

theorem directText_emptied_of_marked (h : marked [] = true) (e : XmlElement) : (e.emptied marked).directText = [] := by
  cases e
  rw [emptied, if_pos h]
  rfl

private theorem filterMap_text?_emptiedItems (i : Nat) (content : List (XmlItem XmlElement)) :
    (emptiedItems marked i content).filterMap XmlItem.text? = content.filterMap XmlItem.text? := by
  induction content generalizing i with
  | nil => rw [emptiedItems]
  | cons item r ih =>
    cases item with
    | text t =>
      rw [emptiedItems]
      exact congrArg (t :: ·) (ih i)
    | _ =>
      rw [emptiedItems]
      exact ih _

theorem directText_emptied (h : marked [] = false) (e : XmlElement) : (e.emptied marked).directText = e.directText := by
  cases e
  rw [emptied, if_neg (by simp [h])]
  exact congrArg List.flatten (filterMap_text?_emptiedItems 0 _)

private theorem filterMap_child?_emptiedItems (i : Nat) (content : List (XmlItem XmlElement)) :
    (emptiedItems marked i content).filterMap XmlItem.child? =
      (content.filterMap XmlItem.child?).mapIdx fun j x => x.emptied (marksBelow marked (i + j)) := by
  induction content generalizing i with
  | nil =>
    rw [emptiedItems]
    rfl
  | cons item r ih =>
    cases item with
    | child e =>
      have hr := ih (i + 1)
      simp only [Nat.add_right_comm i 1] at hr
      simp only [emptiedItems, List.filterMap_cons, XmlItem.child?, List.mapIdx_cons, Nat.add_zero, hr]
      rfl
    | _ =>
      rw [emptiedItems]
      exact ih i

private theorem children_emptied (h : marked [] = false) (e : XmlElement) :
    (e.emptied marked).children = e.children.mapIdx fun i x => x.emptied (marksBelow marked i) := by
  cases e with
  | mk name namespaceUri content =>
    have hitems := @filterMap_child?_emptiedItems marked 0 content
    simp only [Nat.zero_add] at hitems
    rw [emptied, if_neg (by simp [h])]
    exact hitems

mutual

theorem emptied_eq_self {marked : List Nat → Bool} (h : ∀ place, marked place = false) :
    ∀ e : XmlElement, e.emptied marked = e
  | ⟨name, namespaceUri, content⟩ => by
    rw [emptied, if_neg (by simp [h []]), emptiedItems_eq_self h 0 content]

theorem emptiedItems_eq_self {marked : List Nat → Bool} (h : ∀ place, marked place = false) (i : Nat) :
    ∀ content, emptiedItems marked i content = content
  | [] => by rw [emptiedItems]
  | .child e :: r => by
    have hbelow : ∀ place, marksBelow marked i place = false := fun place => h (i :: place)
    rw [emptiedItems, emptied_eq_self hbelow e, emptiedItems_eq_self h (i + 1) r]
  | .text t :: r => by rw [emptiedItems, emptiedItems_eq_self h i r]
  | .comment t :: r => by rw [emptiedItems, emptiedItems_eq_self h i r]
  | .instruction t :: r => by rw [emptiedItems, emptiedItems_eq_self h i r]

end

end XmlElement

namespace SchemaTree

open XmlElement

variable {uri name : Text} {marked : List Nat → Bool} {e x : XmlElement} {i : Nat}

/-- The child element with the number `i` bears a name of the schema. -/
structure IsNamed (uri name : Text) (e : XmlElement) (i : Nat) (x : XmlElement) : Prop where
  child : e.children[i]? = some x
  hasName : x.name = name
  inSchema : x.namespaceUri = some uri

/-- No child element with a smaller number bears the name. -/
structure IsFirst (uri name : Text) (e : XmlElement) (i : Nat) (x : XmlElement) : Prop extends
    IsNamed uri name e i x where
  first : named uri name (e.children.take i) = []

theorem IsNamed.unique {name' : Text} {y : XmlElement} (h : IsNamed uri name e i x) (h' : IsNamed uri name' e i y) :
    y = x ∧ name' = name := by
  obtain rfl := Option.some.inj (h'.child.symm.trans h.child)
  exact ⟨rfl, h'.hasName.symm.trans h.hasName⟩

theorem child?_eq_of_isFirst (h : IsFirst uri name e i x) : child? uri name e = some x := by
  obtain ⟨hi, hx⟩ := List.getElem?_eq_some_iff.mp h.child
  have hsplit : named uri name e.children = named uri name (e.children.drop i) := by
    conv_lhs => rw [← List.take_append_drop i e.children]
    rw [named, List.filter_append]
    exact congrArg (· ++ _) h.first
  rw [child?, hsplit, List.drop_eq_getElem_cons hi, hx, named, List.filter_cons_of_pos, List.head?_cons]
  simp [h.hasName, h.inSchema]

/-- Each child of a name is found in its order, emptied below its own number. -/
theorem forall₂_named_emptied (uri name : Text) (h : marked [] = false) (e : XmlElement) :
    List.Forall₂ (fun x y => ∃ i, IsNamed uri name e i x ∧ y = x.emptied (marksBelow marked i))
      (named uri name e.children) (named uri name (e.emptied marked).children) := by
  let numbered (x y : XmlElement) : Prop := ∃ i, e.children[i]? = some x ∧ y = x.emptied (marksBelow marked i)
  have hchildren : List.Forall₂ numbered e.children (e.emptied marked).children := by
    rw [children_emptied h, List.forall₂_iff_get]
    refine ⟨by simp, fun i hi hi' => ⟨i, ?_, ?_⟩⟩
    · rw [List.get_eq_getElem]
      exact List.getElem?_eq_getElem hi
    · simp
  have hnamed : List.Forall₂ numbered (named uri name e.children) (named uri name (e.emptied marked).children) := by
    refine List.rel_filter ?_ hchildren
    rintro x y ⟨i, -, rfl⟩
    simp
  have hnames : ∀ x ∈ named uri name e.children, x.name = name ∧ x.namespaceUri = some uri :=
    fun x hx => of_decide_eq_true (List.mem_filter.mp hx).2
  have hboth := (List.forall₂_and_left _ _).mpr ⟨hnames, hnamed⟩
  refine hboth.imp ?_
  rintro x y ⟨⟨hname, huri⟩, i, hi, hy⟩
  exact ⟨i, ⟨hi, hname, huri⟩, hy⟩

theorem child?_emptied (uri name : Text) (h : marked [] = false) (e : XmlElement) :
    (child? uri name e = none ∧ child? uri name (e.emptied marked) = none) ∨
    ∃ i x, IsNamed uri name e i x ∧ child? uri name e = some x ∧
      child? uri name (e.emptied marked) = some (x.emptied (marksBelow marked i)) := by
  have hzero := Traversal.getElem?_of_forall₂ (forall₂_named_emptied uri name h e) 0
  rw [← List.head?_eq_getElem?, ← List.head?_eq_getElem?] at hzero
  obtain hnone | ⟨x, y, hx, hy, i, hi, rfl⟩ := hzero
  · exact .inl hnone
  · exact .inr ⟨i, x, hi, hx, hy⟩

/-- A text is lost only with the element that holds it. -/
theorem text?_emptied (uri name : Text) (h : marked [] = false) (e : XmlElement) :
    text? uri name (e.emptied marked) = text? uri name e ∨
    text? uri name (e.emptied marked) = none ∧ ∃ i x, IsNamed uri name e i x ∧ marked [i] = true := by
  rw [text?, text?]
  obtain ⟨hx, hy⟩ | ⟨i, x, hi, hx, hy⟩ := child?_emptied uri name h e
  · rw [hx, hy]
    exact .inl rfl
  · rw [hx, hy, Option.map_some, Option.map_some]
    cases hm : marked [i] with
    | false =>
      rw [directText_emptied hm]
      exact .inl rfl
    | true =>
      rw [directText_emptied_of_marked hm]
      exact .inr ⟨rfl, i, x, hi, hm⟩

theorem forall₂_items_emptied (uri list item : Text) (h : marked [] = false) (e : XmlElement)
    (hl : ∀ i l, IsNamed uri list e i l → marked [i] = false) :
    List.Forall₂ (fun x y => ∃ i l j, IsNamed uri list e i l ∧ IsNamed uri item l j x ∧
        y = x.emptied (marksBelow (marksBelow marked i) j))
      (items uri list item e) (items uri list item (e.emptied marked)) := by
  rw [items, items]
  obtain ⟨hx, hy⟩ | ⟨i, l, hi, hx, hy⟩ := child?_emptied uri list h e
  · rw [hx, hy]
    exact .nil
  · rw [hx, hy]
    refine (forall₂_named_emptied uri item (hl i l hi) l).imp ?_
    rintro x y ⟨j, hj, rfl⟩
    exact ⟨i, l, j, hi, hj, rfl⟩

end SchemaTree
end DeviceDescription
