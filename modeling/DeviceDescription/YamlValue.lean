import DeviceDescription.Text

/-! # Generic YAML values -/
namespace DeviceDescription

/-- A value of a YAML document. A float is given by the shortest decimal text of its double, and a tag by its name
without the mark. -/
inductive YamlValue where
  | null
  | boolean (b : Bool)
  | integer (n : Int)
  | float (text : Text)
  | string (text : Text)
  | sequence (items : List YamlValue)
  | mapping (entries : List (YamlValue × YamlValue))
  | tagged (tag : Text) (value : YamlValue)
  deriving Repr

namespace YamlValue

mutual

def same : YamlValue → YamlValue → Bool
  | .null, .null => true
  | .boolean a, .boolean b => a == b
  | .integer a, .integer b => a == b
  | .float a, .float b => a == b
  | .string a, .string b => a == b
  | .sequence a, .sequence b => sameItems a b
  | .mapping a, .mapping b => sameEntries a b
  | .tagged s a, .tagged t b => s == t && same a b
  | _, _ => false

def sameItems : List YamlValue → List YamlValue → Bool
  | [], [] => true
  | a :: r, b :: s => same a b && sameItems r s
  | _, _ => false

def sameEntries : List (YamlValue × YamlValue) → List (YamlValue × YamlValue) → Bool
  | [], [] => true
  | (a, v) :: r, (b, w) :: s => same a b && same v w && sameEntries r s
  | _, _ => false

end

mutual

@[simp] theorem same_self : ∀ a : YamlValue, same a a = true
  | .null => rfl
  | .boolean b => by simp [same]
  | .integer n => by simp [same]
  | .float t => by simp [same]
  | .string t => by simp [same]
  | .sequence items => by simp [same, sameItems_self items]
  | .mapping entries => by simp [same, sameEntries_self entries]
  | .tagged t v => by simp [same, same_self v]

theorem sameItems_self : ∀ items : List YamlValue, sameItems items items = true
  | [] => rfl
  | a :: r => by simp [sameItems, same_self a, sameItems_self r]

theorem sameEntries_self : ∀ entries : List (YamlValue × YamlValue), sameEntries entries entries = true
  | [] => rfl
  | (k, v) :: r => by simp [sameEntries, same_self k, same_self v, sameEntries_self r]

end

mutual

theorem eq_of_same : ∀ {a b : YamlValue}, same a b = true → a = b
  | .null, b, h => by cases b <;> simp_all [same]
  | .boolean _, b, h => by cases b <;> simp_all [same]
  | .integer _, b, h => by cases b <;> simp_all [same]
  | .float _, b, h => by cases b <;> simp_all [same]
  | .string _, b, h => by cases b <;> simp_all [same]
  | .sequence items, b, h => by
    cases b with
    | sequence s => simp only [same] at h; rw [eq_of_sameItems h]
    | _ => simp [same] at h
  | .mapping entries, b, h => by
    cases b with
    | mapping s => simp only [same] at h; rw [eq_of_sameEntries h]
    | _ => simp [same] at h
  | .tagged t v, b, h => by
    cases b with
    | tagged u w =>
      simp only [same, Bool.and_eq_true, beq_iff_eq] at h
      rw [h.1, eq_of_same h.2]
    | _ => simp [same] at h

theorem eq_of_sameItems : ∀ {a b : List YamlValue}, sameItems a b = true → a = b
  | [], [], _ => rfl
  | [], _ :: _, h | _ :: _, [], h => by simp [sameItems] at h
  | a :: r, b :: s, h => by
    simp only [sameItems, Bool.and_eq_true] at h
    rw [eq_of_same h.1, eq_of_sameItems h.2]

theorem eq_of_sameEntries : ∀ {a b : List (YamlValue × YamlValue)}, sameEntries a b = true → a = b
  | [], [], _ => rfl
  | [], _ :: _, h | _ :: _, [], h => by simp [sameEntries] at h
  | (k, v) :: r, (l, w) :: s, h => by
    simp only [sameEntries, Bool.and_eq_true] at h
    rw [eq_of_same h.1.1, eq_of_same h.1.2, eq_of_sameEntries h.2]

end

instance : DecidableEq YamlValue := fun a b =>
  decidable_of_iff (same a b = true) ⟨eq_of_same, fun h => h ▸ same_self a⟩

/-- Floats agree if their numbers do, so both zeros are one key. -/
def floatsAgree (a b : Text) : Bool :=
  let zeros : List Text := ["0.0", "-0.0"]
  a = b || (zeros.contains a && zeros.contains b)

mutual

/-- Whether two values are the same key. The order of the entries of a mapping means nothing. -/
def agree : YamlValue → YamlValue → Bool
  | .float a, b => match b with
    | .float b => floatsAgree a b
    | _ => false
  | .sequence a, b => match b with
    | .sequence b => itemsAgree a b
    | _ => false
  | .mapping a, b => match b with
    | .mapping b => entriesAgree a b && b.all fun e => hasLike a e
    | _ => false
  | .tagged s a, b => match b with
    | .tagged t b => s = t && agree a b
    | _ => false
  | a, b => same a b
termination_by structural a => a

def itemsAgree : List YamlValue → List YamlValue → Bool
  | [], b => b.isEmpty
  | a :: r, b => match b with
    | b :: s => agree a b && itemsAgree r s
    | [] => false

/-- Whether each entry has its like among others. -/
def entriesAgree : List (YamlValue × YamlValue) → List (YamlValue × YamlValue) → Bool
  | [], _ => true
  | (k, v) :: r, b => b.any (fun e => agree k e.1 && agree v e.2) && entriesAgree r b

def hasLike : List (YamlValue × YamlValue) → YamlValue × YamlValue → Bool
  | [], _ => false
  | (k, v) :: r, e => (agree k e.1 && agree v e.2) || hasLike r e

end

/-- Whether no two of some keys are the same. -/
def areDistinct : List YamlValue → Bool
  | [] => true
  | k :: r => !r.any (agree k) && areDistinct r

/-- The value of the first entry with a key. -/
def find? (key : YamlValue) : List (YamlValue × YamlValue) → Option YamlValue
  | [] => none
  | (k, v) :: r => if agree k key then some v else find? key r

/-- Puts a value in the place of the first entry with a key, which stays as it is written, or after all entries. -/
def put (key value : YamlValue) : List (YamlValue × YamlValue) → List (YamlValue × YamlValue)
  | [] => [(key, value)]
  | (k, v) :: r => if agree k key then (k, value) :: r else (k, v) :: put key value r

def untagged : YamlValue → YamlValue
  | .tagged _ v => untagged v
  | v => v

mutual

def depth : YamlValue → Nat
  | .sequence items => itemsDepth items + 1
  | .mapping entries => entriesDepth entries + 1
  | .tagged _ v => depth v
  | _ => 0

def itemsDepth : List YamlValue → Nat
  | [] => 0
  | a :: r => max (depth a) (itemsDepth r)

def entriesDepth : List (YamlValue × YamlValue) → Nat
  | [] => 0
  | (k, v) :: r => max (max (depth k) (depth v)) (entriesDepth r)

end

end YamlValue
end DeviceDescription
