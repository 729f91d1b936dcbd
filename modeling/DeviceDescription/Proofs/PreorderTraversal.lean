import DeviceDescription.PlacedDevice
import Mathlib

/-!
# Traversals are in preorder

The steps of a traversal answer the devices of a tree in preorder, and then nothing. Two devices may say the same of
themselves, so a device is told by its place: each place of the tree is visited once, and the places below a device
follow one another.
-/
namespace DeviceDescription

namespace Device

/-- The devices that the steps from a stack answer, up to the step that finds none. -/
inductive Visits : List Device → List Device → Prop where
  | done {stack : List Device} (hnext : next stack = none) : Visits stack []
  | step {stack rest ds : List Device} {d : Device} (hnext : next stack = some (d, rest)) (hrest : Visits rest ds) :
      Visits stack (d :: ds)

variable {stack ds : List Device}

theorem visits_visit (stack : List Device) : Visits stack (visit stack) := by
  induction stack using visit.induct with
  | case1 stack hnext =>
    rw [visit]
    split
    · exact .done hnext
    · rename_i hsome
      cases hnext.symm.trans hsome
  | case2 stack d rest hnext ih =>
    rw [visit]
    split
    · rename_i hnone
      cases hnext.symm.trans hnone
    · rename_i hsome
      cases hnext.symm.trans hsome
      exact .step hnext ih

/-- A run answers what is pending, by induction on its steps. -/
theorem Visits.eq_pending (h : Visits stack ds) : ds = pending stack := by
  induction h with
  | done hnext =>
    rw [next_eq_none_iff.mp hnext]
    rfl
  | step hnext _ ih => rw [pending_of_next hnext, ih]

@[simp] theorem visit_eq_pending (stack : List Device) : visit stack = pending stack := (visits_visit stack).eq_pending

theorem visits_iff : Visits stack ds ↔ ds = pending stack := by
  refine ⟨Visits.eq_pending, ?_⟩
  rintro rfl
  exact visit_eq_pending stack ▸ visits_visit stack

@[simp] theorem pending_singleton (d : Device) : pending [d] = d.preorder := by simp [pending, preorders]

@[simp] theorem devices_eq_preorder (d : Device) : d.devices = d.preorder :=
  (visit_eq_pending [d]).trans (pending_singleton d)

mutual

/-- The places of a tree as lists of child indexes, each before the places below it. -/
def places : Device → List (List Nat)
  | ⟨_, _, _, children⟩ => [] :: placesFrom 0 children

/-- The places of trees that stand at the given index and the following ones. -/
def placesFrom (i : Nat) : List Device → List (List Nat)
  | [] => []
  | d :: r => (places d).map (i :: ·) ++ placesFrom (i + 1) r

end

private theorem sizeOf_lt_of_mem_children {d c : Device} (h : c ∈ d.children) : sizeOf c < sizeOf d := by
  cases d with
  | mk info icons services children =>
    have hlt : sizeOf c < sizeOf children := List.sizeOf_lt_of_mem h
    rw [Device.mk.sizeOf_spec]
    omega

theorem places_eq (d : Device) : d.places = [] :: placesFrom 0 d.children := by
  cases d
  rw [places]

variable {i : Nat} {place : List Nat}

theorem mem_placesFrom_iff :
    place ∈ placesFrom i ds ↔ ∃ j d r, ds[j]? = some d ∧ r ∈ d.places ∧ place = (i + j) :: r := by
  induction ds generalizing i with
  | nil => simp [placesFrom]
  | cons d ds ih =>
    rw [placesFrom, List.mem_append, List.mem_map, ih]
    constructor
    · rintro (⟨r, hr, rfl⟩ | ⟨j, d', r, hj, hr, rfl⟩)
      · exact ⟨0, d, r, rfl, hr, rfl⟩
      · exact ⟨j + 1, d', r, hj, hr, by rw [Nat.add_assoc, Nat.add_comm 1]⟩
    · rintro ⟨j, d', r, hj, hr, rfl⟩
      cases j with
      | zero =>
        obtain rfl := Option.some.inj hj
        exact .inl ⟨r, hr, rfl⟩
      | succ j => exact .inr ⟨j, d', r, hj, hr, by rw [Nat.add_assoc, Nat.add_comm 1]⟩

private theorem nodup_placesFrom (h : ∀ d ∈ ds, d.places.Nodup) : (placesFrom i ds).Nodup := by
  induction ds generalizing i with
  | nil => exact List.nodup_nil
  | cons d ds ih =>
    rw [placesFrom]
    refine List.Nodup.append ((h d List.mem_cons_self).map fun _ _ he => (List.cons.inj he).2)
      (ih fun d hd => h d (List.mem_cons_of_mem _ hd)) ?_
    -- The places of the first tree begin with its index, and those of the others with a later one.
    intro place hfirst hlater
    obtain ⟨r, -, rfl⟩ := List.mem_map.mp hfirst
    obtain ⟨j, _, _, _, _, he⟩ := mem_placesFrom_iff.mp hlater
    have hindex := (List.cons.inj he).1
    omega

private theorem infix_placesFrom {j : Nat} {d : Device} (h : ds[j]? = some d) :
    d.places.map ((i + j) :: ·) <:+: placesFrom i ds := by
  induction ds generalizing i j with
  | nil => cases h
  | cons x ds ih =>
    rw [placesFrom]
    cases j with
    | zero =>
      obtain rfl := Option.some.inj h
      exact (List.prefix_append _ _).isInfix
    | succ j =>
      have hrest := ih (i := i + 1) h
      rw [Nat.add_assoc, Nat.add_comm 1] at hrest
      exact hrest.trans (List.suffix_append _ _).isInfix

end Device

namespace PlacedDevice

open Device

variable {p : PlacedDevice} {d : Device} {i : Nat}

def deviceAt? (p : PlacedDevice) (place : List Nat) : Option Device := (p.descendant? place).map device

theorem descendant?_cons (h : p.device.children[i]? = some d) (place : List Nat) :
    p.descendant? (i :: place) = (embedded p d).descendant? place := by
  rw [descendant?, children, List.getElem?_map, h]
  rfl

theorem exists_child_of_descendant? {place : List Nat} {q : PlacedDevice} (h : p.descendant? (i :: place) = some q) :
    ∃ d, p.device.children[i]? = some d ∧ (embedded p d).descendant? place = some q := by
  rw [descendant?, children, List.getElem?_map] at h
  obtain ⟨child, hchild, hq⟩ := Option.bind_eq_some_iff.mp h
  obtain ⟨d, hd, rfl⟩ := Option.map_eq_some_iff.mp hchild
  exact ⟨d, hd, hq⟩

/-- What passes from the children of a device to the device holds of every device. -/
@[elab_as_elim]
theorem forall_of_children {motive : PlacedDevice → Prop}
    (parent : ∀ p : PlacedDevice, (∀ d ∈ p.device.children, motive (embedded p d)) → motive p) (p : PlacedDevice) :
    motive p :=
  parent p fun d _hd => forall_of_children parent (embedded p d)
termination_by sizeOf p.device
decreasing_by exact sizeOf_lt_of_mem_children _hd

theorem nodup_places (p : PlacedDevice) : p.device.places.Nodup := by
  induction p using forall_of_children with
  | parent p ih =>
    rw [places_eq, List.nodup_cons]
    refine ⟨fun hm => ?_, nodup_placesFrom ih⟩
    obtain ⟨j, d, r, -, -, he⟩ := mem_placesFrom_iff.mp hm
    cases he

theorem mem_places_iff {place : List Nat} : place ∈ p.device.places ↔ (p.descendant? place).isSome := by
  induction place generalizing p with
  | nil => simp [places_eq, descendant?]
  | cons i place ih =>
    rw [places_eq, List.mem_cons, mem_placesFrom_iff]
    constructor
    · rintro (he | ⟨j, d, r, hd, hr, he⟩)
      · cases he
      · rw [Nat.zero_add] at he
        obtain ⟨rfl, rfl⟩ := List.cons.inj he
        rw [descendant?_cons hd]
        exact ih.mp hr
    · intro hsome
      obtain ⟨q, hq⟩ := Option.isSome_iff_exists.mp hsome
      obtain ⟨d, hd, hq⟩ := exists_child_of_descendant? hq
      have hr := (ih (p := embedded p d)).mpr (Option.isSome_of_eq_some hq)
      exact .inr ⟨i, d, place, hd, hr, by rw [Nat.zero_add]⟩

/-- The trees at the given index and the following ones are listed as their places are. -/
theorem map_placesFrom {ds : List Device} (hds : ∀ j, p.device.children[i + j]? = ds[j]?)
    (ih : ∀ d ∈ ds, d.places.map (embedded p d).deviceAt? = d.preorder.map some) :
    (placesFrom i ds).map p.deviceAt? = (preorders ds).map some := by
  induction ds generalizing i with
  | nil => rfl
  | cons d ds ihds =>
    have hd : p.device.children[i]? = some d := hds 0
    have hfirst : (d.places.map (i :: ·)).map p.deviceAt? = d.preorder.map some := by
      rw [List.map_map, ← ih d List.mem_cons_self]
      exact List.map_congr_left fun place _ => congrArg (Option.map device) (descendant?_cons hd place)
    have hrest := ihds (i := i + 1) (fun j => by rw [Nat.add_assoc, Nat.add_comm 1, hds, List.getElem?_cons_succ])
      fun d hd => ih d (List.mem_cons_of_mem _ hd)
    rw [placesFrom, preorders, List.map_append, List.map_append, hfirst, hrest]

theorem map_places (p : PlacedDevice) : p.device.places.map p.deviceAt? = p.device.preorder.map some := by
  induction p using forall_of_children with
  | parent p ih =>
    have hbelow := map_placesFrom (p := p) (i := 0) (fun j => by rw [Nat.zero_add]) ih
    rw [places_eq, preorder_eq, List.map_cons, List.map_cons, hbelow]
    rfl

/-- The places below a place are listed without a gap. -/
theorem infix_places {place : List Nat} {q : PlacedDevice} (h : p.descendant? place = some q) :
    q.device.places.map (place ++ ·) <:+: p.device.places := by
  induction place generalizing p with
  | nil =>
    obtain rfl := Option.some.inj h
    simp
  | cons i place ih =>
    obtain ⟨d, hd, hq⟩ := exists_child_of_descendant? h
    have hchild := infix_placesFrom (i := 0) hd
    rw [Nat.zero_add] at hchild
    have hbelow : q.device.places.map (i :: place ++ ·) <:+: d.places.map (i :: ·) := by
      have hmapped := (ih hq).map (i :: ·)
      rw [List.map_map] at hmapped
      exact hmapped
    rw [places_eq p.device]
    exact (hbelow.trans hchild).trans (List.suffix_cons _ _).isInfix

theorem infix_preorder {place : List Nat} {q : PlacedDevice} (h : p.descendant? place = some q) :
    q.device.preorder <:+: p.device.preorder := by
  have hsame : (q.device.places.map (place ++ ·)).map p.deviceAt? = q.device.places.map q.deviceAt? := by
    rw [List.map_map]
    refine List.map_congr_left fun r _ => ?_
    rw [Function.comp_apply, deviceAt?, descendant?_append, h]
    rfl
  have hinfix := (infix_places h).map p.deviceAt?
  rw [hsame, map_places, map_places] at hinfix
  simpa using hinfix.filterMap id

/-- The steps from a device answer the preorder of its tree and come to an end. They visit every place of the tree
once, so they are as many as there are places, and the visits below a device follow one another. -/
theorem traversal_in_preorder (p : PlacedDevice) :
    (∀ ds, Visits [p.device] ds ↔ ds = p.device.preorder) ∧ p.device.devices = p.device.preorder ∧
      p.device.places.Nodup ∧ (∀ place, place ∈ p.device.places ↔ (p.descendant? place).isSome) ∧
      p.device.places.map p.deviceAt? = p.device.devices.map some ∧
      p.device.devices.length = Nat.card {place // (p.descendant? place).isSome} ∧
      ∀ place q, p.descendant? place = some q → q.device.places.map (place ++ ·) <:+: p.device.places ∧
        q.device.devices <:+: p.device.devices := by
  have hdevices := devices_eq_preorder p.device
  have hmap := map_places p
  have hcount : Nat.card {place // (p.descendant? place).isSome} = p.device.places.length := by
    rw [Nat.subtype_card p.device.places.toFinset fun place => List.mem_toFinset.trans mem_places_iff,
      List.toFinset_card_of_nodup (nodup_places p)]
  refine ⟨fun ds => by rw [visits_iff, pending_singleton], hdevices, nodup_places p, fun _ => mem_places_iff, ?_, ?_,
    fun place q hq => ⟨infix_places hq, ?_⟩⟩
  · rw [hmap, hdevices]
  · rw [hcount, hdevices, ← List.length_map some, ← hmap, List.length_map]
  · rw [hdevices, devices_eq_preorder]
    exact infix_preorder hq

end PlacedDevice

namespace Sample

def placed (udn : Text) (children : List Device) : Device :=
  ⟨{ DeviceInfo.blank with udn }, [], [], children⟩

/-- Three lamps that say the same of themselves. -/
def cottage : Device :=
  placed "cottage" [placed "lamp" [], placed "room" [placed "lamp" []], placed "lamp" []]

end Sample

/-- Lamps that are told apart by their places only are visited once each. -/
theorem PlacedDevice.traversal_in_preorder_lamps :
    ∃ room, (top Sample.cottage).descendant? [1] = some room ∧
      Sample.cottage.devices.map (·.info.udn) = (["cottage", "lamp", "room", "lamp", "lamp"] : List Text) ∧
      Sample.cottage.places = [[], [0], [1], [1, 0], [2]] ∧
      Nat.card {place // ((top Sample.cottage).descendant? place).isSome} = 5 ∧
      room.device.devices <:+: Sample.cottage.devices := by
  obtain ⟨-, hdevices, -, -, -, hcount, hbelow⟩ := traversal_in_preorder (top Sample.cottage)
  have hroom : (top Sample.cottage).descendant? [1] =
      some (.embedded (top Sample.cottage) (Sample.placed "room" [Sample.placed "lamp" []])) := rfl
  have hnames : Sample.cottage.preorder.map (·.info.udn) =
      (["cottage", "lamp", "room", "lamp", "lamp"] : List Text) := by decide
  have hlength : Sample.cottage.preorder.length = 5 := by decide
  exact ⟨_, hroom, hdevices ▸ hnames, by decide, by rw [← hcount, hdevices]; exact hlength, (hbelow _ _ hroom).2⟩

end DeviceDescription
