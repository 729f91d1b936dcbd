import DeviceDescription.OwnedTree
import DeviceDescription.Proofs.ObjectGraph
import DeviceDescription.Proofs.TreeRefinement
import Mathlib.Data.List.Induction

/-!
# Who keeps whom in memory

The root device and its services, and devices and those embedded in them, lead to one another. Only the way down owns.
What leads up is remembered, and works as long as something else keeps the other end in memory. A tree of which a part
is owned is what can be seen of these objects.
-/
namespace DeviceDescription

open Heap Traversal

/-- What is in memory of a root device, and what is held of it. -/
structure ObjectGraph where
  heap : Heap
  /-- The cells that services are linked to. What is written there is remembered, not owned. -/
  cells : Nat → Option RootDevice
  /-- The root device, while it is held. -/
  root : Option RootDevice
  /-- The address of the device that is held. -/
  current : Nat

namespace ObjectGraph

/-- The cell that all services of a root device are linked to. -/
def rootCell : Nat := 0

/-- The devices are allocated first. The cell is written when the root device is there. -/
def ofRoot (r : RootDevice) : ObjectGraph where
  heap := (allocate rootCell (fun _ => none) none 0 r.device).2
  cells := Function.update (fun _ => none) rootCell (some r)
  root := some r
  current := 0

def address? (g : ObjectGraph) (path : List Nat) : Option Nat := g.heap.follow g.current path

/-- The parent that an object remembers, if that is still in memory. -/
def parent? (g : ObjectGraph) (a : Nat) : Option Nat :=
  ((g.heap a).bind DeviceObject.parent?).filter fun b => (g.heap b).isSome

def isRoot (g : ObjectGraph) (a : Nat) : Bool := (g.heap a).any fun o => o.parent?.isNone

/-- Where a number of steps from parent to parent lead. -/
def ancestor? (g : ObjectGraph) : Nat → Nat → Option Nat
  | a, 0 => some a
  | a, n + 1 => (g.parent? a).bind fun b => g.ancestor? b n

/-- What stands in the cell of a service, as long as the root device is held. -/
def rootOf? (g : ObjectGraph) (s : LinkedService) : Option RootDevice := g.root.bind fun _ => g.cells s.link

/-- One device is held instead of the root device and the current one. -/
noncomputable def hold (g : ObjectGraph) (a : Nat) : ObjectGraph :=
  { g with heap := g.heap.release a, root := none, current := a }

noncomputable def detach? (g : ObjectGraph) (path : List Nat) : Option ObjectGraph := (g.address? path).map g.hold

noncomputable def detachAll? : ObjectGraph → List (List Nat) → Option ObjectGraph
  | g, [] => some g
  | g, path :: r => (g.detach? path).bind (·.detachAll? r)

variable {g g' : ObjectGraph} {path : List Nat} {a : Nat}

@[simp]
theorem hold_hold {b : Nat} {q : List Nat} (hq : g.heap.follow a q = some b) : (g.hold a).hold b = g.hold b := by
  simp only [hold, release_release hq]

theorem detach?_bind_detach? (g : ObjectGraph) (p q : List Nat) :
    ((g.detach? p).bind fun g' => g'.detach? q) = g.detach? (p ++ q) := by
  unfold detach? address?
  rw [follow_append]
  cases g.heap.follow g.current p with
  | none => rfl
  | some a =>
    change ((g.heap.release a).follow a q).map (g.hold a).hold = (g.heap.follow a q).map g.hold
    rw [follow_release_self]
    cases hq : g.heap.follow a q with
    | none => rfl
    | some b => exact congrArg some (hold_hold hq)

/-- A run of releases is one release, whatever was held in between. -/
theorem detachAll?_eq_detach? {paths : List (List Nat)} (hne : paths ≠ []) :
    g.detachAll? paths = g.detach? paths.flatten := by
  induction paths generalizing g with
  | nil => exact absurd rfl hne
  | cons p r ih =>
    cases r with
    | nil =>
      rw [detachAll?, List.flatten_cons, List.flatten_nil, List.append_nil]
      cases g.detach? p <;> rfl
    | cons q s =>
      rw [detachAll?, List.flatten_cons, ← detach?_bind_detach?]
      simp only [ih (List.cons_ne_nil q s)]

/-- Parents lead back up the way that children lead down, and no further than to the device that is held. -/
structure Linked (g : ObjectGraph) : Prop where
  parent_current : g.parent? g.current = none
  parent_below : ∀ path a, path ≠ [] → g.address? path = some a →
    ∃ b, g.address? path.dropLast = some b ∧ g.parent? a = some b
  ancestor : ∀ path a, g.address? path = some a → g.ancestor? a path.length = some g.current

private theorem linked_of_parents (hcurrent : g.parent? g.current = none)
    (hbelow : ∀ path i a, g.address? (path ++ [i]) = some a →
      ∃ b, g.address? path = some b ∧ g.parent? a = some b) : g.Linked := by
  refine ⟨hcurrent, fun path a hne ha => ?_, fun path => ?_⟩
  · rw [← List.dropLast_append_getLast hne] at ha
    exact hbelow _ _ a ha
  · induction path using List.reverseRecOn with
    | nil => exact fun a ha => ha.symm
    | append_singleton path i ih =>
      intro a ha
      obtain ⟨b, hb, hparent⟩ := hbelow path i a ha
      rw [List.length_append, List.length_singleton, ancestor?, hparent, Option.bind_some, ih b hb]

variable {link e : Nat} {p? : Option Nat} {d : Device}

theorem parent?_of_block (hb : Block link g.heap p? a e d) : g.parent? a = p?.filter fun b => (g.heap b).isSome := by
  obtain ⟨addresses, ha, -⟩ := hb.object
  rw [parent?, ha]
  rfl

theorem isRoot_of_block (hb : Block link g.heap p? a e d) : g.isRoot a = p?.isNone := by
  obtain ⟨addresses, ha, -⟩ := hb.object
  rw [isRoot, ha]
  rfl

theorem isSome_of_block (hb : Block link g.heap p? a e d) : (g.heap a).isSome = true := by
  obtain ⟨addresses, ha, -⟩ := hb.object
  rw [ha]
  rfl

/-- The object that is held has lost its parent or never had one. -/
theorem linked_of_block (hb : Block link g.heap p? g.current e d) (hp : ∀ b ∈ p?, g.heap b = none) : g.Linked := by
  refine linked_of_parents ?_ fun path i a ha => ?_
  · rw [parent?_of_block hb, Option.filter_eq_none_iff]
    intro b hmem
    rw [hp b hmem]
    exact Bool.false_ne_true
  · obtain ⟨c, m, x, hc, hx⟩ := hb.of_follow_append ha
    obtain ⟨-, p, n, y, hy⟩ := hb.of_follow hc
    refine ⟨c, hc, ?_⟩
    rw [parent?_of_block hx, Option.filter_some, isSome_of_block hy, if_pos rfl]

/-- What all services of the devices that are held lead to. -/
def Yields (g : ObjectGraph) (r : Option RootDevice) : Prop :=
  ∀ path a o, g.address? path = some a → g.heap a = some o → ∀ s ∈ o.services, g.rootOf? s = r

/-- The part of `g` below a path, as it was there: the same objects in the same places. -/
structure IsPartOf (g' g : ObjectGraph) (path : List Nat) : Prop where
  address : ∀ q, g'.address? q = g.address? (path ++ q)
  object : ∀ q a, g'.address? q = some a → g'.heap a = g.heap a
  isRoot : ∀ q a, g'.address? q = some a → g'.isRoot a = g.isRoot a
  parent : ∀ q a, q ≠ [] → g'.address? q = some a → g'.parent? a = g.parent? a

/-- A graph in which the held device is a block, as all graphs are that come from root devices. -/
def IsTree (g : ObjectGraph) : Prop := ∃ p? e d, Block rootCell g.heap p? g.current e d

/-- A part of a tree is a tree whose device has no parent any more. -/
theorem exists_block_of_detach? (ht : g.IsTree) (h : g.detach? path = some g') :
    ∃ p? e d, Block rootCell g'.heap p? g'.current e d ∧ ∀ b ∈ p?, g'.heap b = none := by
  obtain ⟨p?, e, d, hb⟩ := ht
  obtain ⟨a, ha, rfl⟩ := Option.map_eq_some_iff.mp h
  obtain ⟨-, p, m, x, hx⟩ := hb.of_follow ha
  exact ⟨p, m, x, hx.release, fun b hmem => hx.release_eq_none (hx.parent_lt b hmem)⟩

theorem linked_of_detach? (ht : g.IsTree) (h : g.detach? path = some g') : g'.Linked := by
  obtain ⟨p?, e, d, hb, hp⟩ := exists_block_of_detach? ht h
  exact linked_of_block hb hp

theorem yields_none_of_detach? (h : g.detach? path = some g') : g'.Yields none := by
  obtain ⟨a, ha, rfl⟩ := Option.map_eq_some_iff.mp h
  intro _ _ _ _ _ _ _
  rfl

theorem isPartOf_of_detach? (ht : g.IsTree) (hlinked : g.Linked) (h : g.detach? path = some g') :
    g'.IsPartOf g path := by
  have hlinked' := linked_of_detach? ht h
  obtain ⟨a, ha, rfl⟩ := Option.map_eq_some_iff.mp h
  have haddress : ∀ q, (g.heap.release a).follow a q = g.address? (path ++ q) := by
    intro q
    rw [follow_release_self, address?, follow_append]
    exact (congrArg (Option.bind · fun b => g.heap.follow b q) ha).symm
  have hobject : ∀ q b, (g.heap.release a).follow a q = some b → g.heap.release a b = g.heap b := by
    intro q b hb
    rw [follow_release_self] at hb
    exact release_of_follow hb
  refine ⟨haddress, hobject, fun q b hb => ?_, fun q b hne hb => ?_⟩
  · rw [ObjectGraph.isRoot, ObjectGraph.isRoot]
    exact congrArg (Option.any _) (hobject q b hb)
  · obtain ⟨c, hc, hparent⟩ := hlinked'.parent_below q b hne hb
    have hb' := (haddress q).symm.trans hb
    obtain ⟨c', hc', hparent'⟩ := hlinked.parent_below (path ++ q) b (List.append_ne_nil_of_right_ne_nil path hne) hb'
    rw [List.dropLast_append_of_ne_nil hne, ← haddress] at hc'
    rw [hparent, hparent', Option.some.inj (hc.symm.trans hc')]

theorem block_ofRoot (r : RootDevice) : ∃ e, Block rootCell (ofRoot r).heap none (ofRoot r).current e r.device :=
  ⟨_, (allocate_spec (fun _ h => absurd h (Option.not_mem_none _)) r.device).1⟩

theorem isTree_ofRoot (r : RootDevice) : (ofRoot r).IsTree := by
  obtain ⟨e, hb⟩ := block_ofRoot r
  exact ⟨none, e, r.device, hb⟩

theorem linked_ofRoot (r : RootDevice) : (ofRoot r).Linked := by
  obtain ⟨e, hb⟩ := block_ofRoot r
  exact linked_of_block hb fun _ h => absurd h (Option.not_mem_none _)

/-- The device that stands at the top is the only one without a parent. -/
theorem isRoot_ofRoot (r : RootDevice) (h : (ofRoot r).address? path = some a) :
    (ofRoot r).isRoot a = decide (path = []) := by
  obtain ⟨e, hb⟩ := block_ofRoot r
  induction path using List.reverseRecOn with
  | nil =>
    obtain rfl := Option.some.inj h
    exact isRoot_of_block hb
  | append_singleton path i _ =>
    obtain ⟨c, m, x, -, hx⟩ := hb.of_follow_append h
    rw [isRoot_of_block hx]
    simp

theorem yields_ofRoot (r : RootDevice) : (ofRoot r).Yields (some r) := by
  obtain ⟨e, hb⟩ := block_ofRoot r
  intro path a o ha ho s hs
  obtain ⟨-, p, m, x, hx⟩ := hb.of_follow ha
  obtain ⟨addresses, ho', -⟩ := hx.object
  obtain rfl := Option.some.inj (ho'.symm.trans ho)
  obtain ⟨service, -, rfl⟩ := List.mem_map.mp hs
  rfl

theorem exists_of_rel_some {α β : Type} {r : α → β → Prop} {x : Option α} {b : β} (h : Option.Rel r x (some b)) :
    ∃ a, x = some a ∧ r a b := by
  cases h with
  | some hr => exact ⟨_, rfl, hr⟩

/-- The object at an address and those below it are what a device is made of. -/
def Holds (g : ObjectGraph) (a : Nat) (d : Device) : Prop := ∃ p? e, Block rootCell g.heap p? a e d

/-- A device at its place shows what can be seen at an address, all the way up. -/
def Shows (g : ObjectGraph) : Nat → PlacedDevice → Prop
  | a, .top d => g.Holds a d ∧ g.isRoot a = true ∧ g.parent? a = none
  | a, .embedded p d => g.Holds a d ∧ g.isRoot a = false ∧ ∃ b, g.parent? a = some b ∧ Shows g b p
  | a, .detached d => g.Holds a d ∧ g.isRoot a = false ∧ g.parent? a = none

/-- An owned tree shows what is held in memory. -/
structure Agrees (g : ObjectGraph) (t : OwnedTree) : Prop where
  root : g.root = t.root
  devices : ∀ path, Option.Rel g.Shows (g.address? path) (t.device? path)

variable {p : PlacedDevice} {t : OwnedTree}

theorem Shows.holds (h : g.Shows a p) : g.Holds a p.device := by
  cases p <;> exact h.1

theorem Shows.isRoot (h : g.Shows a p) : g.isRoot a = p.isRoot := by
  cases p <;> exact h.2.1

/-- By induction on the path: a child in memory is a child of the device. -/
theorem Shows.descendant (h : g.Shows a p) (path : List Nat) :
    Option.Rel g.Shows (g.heap.follow a path) (p.descendant? path) := by
  induction path generalizing a p with
  | nil => exact .some h
  | cons i r ih =>
    obtain ⟨p?, e, hb⟩ := h.holds
    obtain ⟨addresses, ha, hchildren⟩ := hb.object
    rw [follow, ha, Option.bind_some, PlacedDevice.descendant?, PlacedDevice.children, List.getElem?_map]
    obtain ⟨hc, hd⟩ | ⟨c, d, hc, hd, m, hblock⟩ := getElem?_of_forall₂ hchildren i
    · rw [hc, hd]
      exact .none
    · rw [hc, hd]
      refine ih ⟨⟨_, m, hblock⟩, isRoot_of_block hblock, a, ?_, h⟩
      rw [parent?_of_block hblock, Option.filter_some, isSome_of_block hb, if_pos rfl]

theorem agrees_of_shows (hroot : g.root = t.root) (h : g.Shows g.current t.current) : g.Agrees t :=
  ⟨hroot, h.descendant⟩

theorem agrees_ofRoot (r : RootDevice) : (ofRoot r).Agrees (.ofRoot r) := by
  obtain ⟨e, hb⟩ := block_ofRoot r
  have hlinked := linked_ofRoot r
  exact agrees_of_shows rfl ⟨⟨none, e, hb⟩, isRoot_of_block hb, hlinked.parent_current⟩

private theorem shows_of_parent?_eq_none (hp : p.parent? = none) (hholds : g.Holds a p.device)
    (hroot : g.isRoot a = p.isRoot) (hparent : g.parent? a = none) : g.Shows a p := by
  cases p with
  | top d => exact ⟨hholds, hroot, hparent⟩
  | embedded q d => cases hp
  | detached d => exact ⟨hholds, hroot, hparent⟩

/-- What is held alone has no way up. -/
theorem Shows.hold (h : g.Shows a p) : (g.hold a).Shows a p.detach := by
  obtain ⟨p?, e, hb⟩ := h.holds
  have hb' : Block rootCell (g.hold a).heap p? (g.hold a).current e p.device := hb.release
  have hlinked : (g.hold a).Linked := linked_of_block hb' fun b hmem => hb.release_eq_none (hb.parent_lt b hmem)
  have hroot : (g.hold a).isRoot a = p.isRoot := (isRoot_of_block hb').trans ((isRoot_of_block hb).symm.trans h.isRoot)
  refine shows_of_parent?_eq_none p.parent?_detach ⟨p?, e, ?_⟩ ?_ hlinked.parent_current
  · rwa [PlacedDevice.device_detach]
  · rwa [PlacedDevice.isRoot_detach]

theorem Agrees.detach? (h : g.Agrees t) (path : List Nat) :
    Option.Rel Agrees (g.detach? path) (t.detach? path) := by
  have hdevices := h.devices path
  unfold ObjectGraph.detach? OwnedTree.detach?
  generalize g.address? path = found at hdevices
  generalize t.device? path = shown at hdevices
  cases hdevices with
  | none => exact .none
  | some hshows => exact .some (agrees_of_shows rfl hshows.hold)

theorem Agrees.detachAll? (h : g.Agrees t) (paths : List (List Nat)) :
    Option.Rel Agrees (g.detachAll? paths) (t.detachAll? paths) := by
  induction paths generalizing g t with
  | nil => exact .some h
  | cons path r ih =>
    have hstep := h.detach? path
    rw [ObjectGraph.detachAll?, OwnedTree.detachAll?]
    generalize g.detach? path = held at hstep
    generalize t.detach? path = shown at hstep
    cases hstep with
    | none => exact .none
    | some h' => exact ih h'

end ObjectGraph

/-- Ownership goes down and links go up, from a root device through every run of releases. The owned tree shows it. -/
theorem OwnedTree.ownership_over_releases (r : RootDevice) :
    (ObjectGraph.ofRoot r).Linked ∧
    (∀ path a, (ObjectGraph.ofRoot r).address? path = some a →
      (ObjectGraph.ofRoot r).isRoot a = decide (path = [])) ∧
    (ObjectGraph.ofRoot r).Yields (some r) ∧
    ∀ paths,
      Option.Rel ObjectGraph.Agrees ((ObjectGraph.ofRoot r).detachAll? paths) ((OwnedTree.ofRoot r).detachAll? paths) ∧
      ∀ g, (ObjectGraph.ofRoot r).detachAll? paths = some g → paths ≠ [] →
        g.Linked ∧ g.Yields none ∧ g.IsPartOf (ObjectGraph.ofRoot r) paths.flatten := by
  refine ⟨ObjectGraph.linked_ofRoot r, fun path a h => ObjectGraph.isRoot_ofRoot r h, ObjectGraph.yields_ofRoot r,
    fun paths => ⟨(ObjectGraph.agrees_ofRoot r).detachAll? paths, fun g h hne => ?_⟩⟩
  rw [ObjectGraph.detachAll?_eq_detach? hne] at h
  have htree := ObjectGraph.isTree_ofRoot r
  exact ⟨ObjectGraph.linked_of_detach? htree h, ObjectGraph.yields_none_of_detach? h,
    ObjectGraph.isPartOf_of_detach? htree (ObjectGraph.linked_ofRoot r) h⟩

open InternationalNames in
/-- The root device is released first, and then the top device. -/
theorem OwnedTree.ownership_over_releases_left :
    ∃ r, RootDevice.ofContext Sample.announcement 0 Sample.document = .ok r ∧
      ∃ g a, (ObjectGraph.ofRoot r).detachAll? [[], [0]] = some g ∧ g.Yields none ∧ g.parent? g.current = none ∧
        g.isRoot g.current = false ∧ g.address? [0] = some a ∧ g.parent? a = some g.current := by
  have hshape : (RootDevice.ofContext Sample.announcement 0 Sample.document).toOption.map (fun r =>
      ((OwnedTree.ofRoot r).detachAll? [[], [0]]).map fun t => ((t.device? []).map PlacedDevice.isRoot,
        (t.device? [0]).isSome)) = some (some (some false, true)) := by decide +kernel
  obtain ⟨r, hr, hrun⟩ := exists_ok_of_toOption_map hshape
  obtain ⟨t, ht, hfacts⟩ := Option.map_eq_some_iff.mp hrun
  obtain ⟨hroot, hchild⟩ := Prod.mk.inj hfacts
  obtain ⟨-, -, -, hruns⟩ := OwnedTree.ownership_over_releases r
  obtain ⟨hagrees, hreleased⟩ := hruns [[], [0]]
  rw [ht] at hagrees
  obtain ⟨g, hg, hshows⟩ := ObjectGraph.exists_of_rel_some hagrees
  obtain ⟨hlinked, hyields, -⟩ := hreleased g hg (List.cons_ne_nil _ _)
  obtain ⟨p, hp, hpRoot⟩ := Option.map_eq_some_iff.mp hroot
  obtain ⟨q, hq⟩ := Option.isSome_iff_exists.mp hchild
  obtain ⟨c, hc, hcShows⟩ := ObjectGraph.exists_of_rel_some (hp ▸ hshows.devices [])
  obtain ⟨a, ha, -⟩ := ObjectGraph.exists_of_rel_some (hq ▸ hshows.devices [0])
  obtain rfl : g.current = c := Option.some.inj hc
  obtain ⟨b, hb, hparent⟩ := hlinked.parent_below [0] a (List.cons_ne_nil _ _) ha
  obtain rfl : g.current = b := Option.some.inj hb
  exact ⟨r, hr, g, a, hg, hyields, hlinked.parent_current, hcShows.isRoot.trans hpRoot, ha, hparent⟩

end DeviceDescription
