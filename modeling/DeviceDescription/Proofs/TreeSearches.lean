import DeviceDescription.Proofs.PreorderTraversal

/-!
# Searches find the first match

A search goes through the devices of a tree in the order of a traversal, and through what each of them has to offer. The
places of a tree are in lexicographic order, so what is found stands first in the document, and nothing is missed.
-/
namespace DeviceDescription

namespace Device

variable {ds : List Device} {i : Nat}

private theorem pairwise_placesFrom (h : ∀ d ∈ ds, d.places.Pairwise (· < ·)) : (placesFrom i ds).Pairwise (· < ·) := by
  induction ds generalizing i with
  | nil => exact .nil
  | cons d ds ih =>
    have hfirst : (d.places.map (i :: ·)).Pairwise (· < ·) :=
      (h d List.mem_cons_self).map _ fun _ _ hlt => List.cons_lt_cons_iff.mpr (.inr ⟨rfl, hlt⟩)
    have hrest := ih (i := i + 1) fun d hd => h d (List.mem_cons_of_mem _ hd)
    rw [placesFrom]
    refine List.pairwise_append.mpr ⟨hfirst, hrest, fun place hplace later hlater => ?_⟩
    obtain ⟨r, -, rfl⟩ := List.mem_map.mp hplace
    obtain ⟨j, _, _, _, _, rfl⟩ := mem_placesFrom_iff.mp hlater
    exact List.cons_lt_cons_iff.mpr (.inl (by omega))

end Device

namespace PlacedDevice

open Device

/-- Each place comes before those below it, and those below a child before those below a later child. -/
theorem pairwise_places (p : PlacedDevice) : p.device.places.Pairwise (· < ·) := by
  induction p using forall_of_children with
  | parent p ih =>
    rw [places_eq]
    refine List.Pairwise.cons (fun place hplace => ?_) (pairwise_placesFrom ih)
    obtain ⟨_, _, _, _, _, rfl⟩ := mem_placesFrom_iff.mp hplace
    exact List.nil_lt_cons _ _

end PlacedDevice

/-- In a sorted list, what answers first is the least member that answers. -/
theorem findSome?_eq_some_iff_of_pairwise {β : Type} {f : List Nat → Option β} {places : List (List Nat)} {b : β}
    (h : places.Pairwise (· < ·)) : places.findSome? f = some b ↔
      ∃ place ∈ places, f place = some b ∧ ∀ earlier ∈ places, earlier < place → f earlier = none := by
  rw [List.findSome?_eq_some_iff]
  constructor
  · rintro ⟨before, place, after, rfl, hplace, hbefore⟩
    refine ⟨place, List.mem_append_right _ List.mem_cons_self, hplace, fun earlier hm hlt => ?_⟩
    have hafter := (List.pairwise_cons.mp (List.pairwise_append.mp h).2.1).1
    rcases List.mem_append.mp hm with hm | hm
    · exact hbefore earlier hm
    · rcases List.mem_cons.mp hm with rfl | hm
      · exact absurd hlt (List.lt_irrefl _)
      · exact absurd hlt (List.lt_asymm (hafter earlier hm))
  · rintro ⟨place, hm, hplace, hearlier⟩
    obtain ⟨before, after, rfl⟩ := List.append_of_mem hm
    refine ⟨before, place, after, rfl, hplace, fun earlier hbefore => ?_⟩
    have hlt := (List.pairwise_append.mp h).2.2 earlier hbefore place List.mem_cons_self
    exact hearlier earlier (List.mem_append_left _ hbefore) hlt

section Answers
variable {β : Type} {own : Device → Option β} {p : PlacedDevice} {b : β}

/-- What the first device of a tree answers that answers at all. -/
def Device.answer? (own : Device → Option β) (d : Device) : Option β := d.preorder.findSome? own

private theorem Device.findSome?_preorders (own : Device → Option β) (ds : List Device) :
    (preorders ds).findSome? own = ds.findSome? (answer? own) := by
  induction ds with
  | nil => rfl
  | cons d ds ih =>
    rw [preorders, List.findSome?_append, ih, List.findSome?_cons, answer?]
    cases d.preorder.findSome? own <;> rfl

private theorem Device.answer?_eq (own : Device → Option β) (d : Device) :
    d.answer? own = (own d).or (d.children.findSome? (answer? own)) := by
  rw [answer?, preorder_eq, List.findSome?_cons, findSome?_preorders]
  cases own d <;> rfl

namespace PlacedDevice

open Device

theorem answer?_eq_findSome?_places (own : Device → Option β) (p : PlacedDevice) :
    p.device.answer? own = p.device.places.findSome? fun place => (p.deviceAt? place).bind own := by
  have hmap : (p.device.preorder.map some).findSome? (·.bind own) = p.device.answer? own := List.findSome?_map
  rw [← hmap, ← map_places, List.findSome?_map]
  rfl

theorem answer?_eq_none_iff :
    p.device.answer? own = none ↔ ∀ place q, p.descendant? place = some q → own q.device = none := by
  rw [answer?_eq_findSome?_places, List.findSome?_eq_none_iff]
  constructor
  · intro h place q hq
    have hplace := h place (mem_places_iff.mpr (Option.isSome_of_eq_some hq))
    rwa [deviceAt?, hq] at hplace
  · intro h place hplace
    obtain ⟨q, hq⟩ := Option.isSome_iff_exists.mp (mem_places_iff.mp hplace)
    rw [deviceAt?, hq]
    exact h place q hq

theorem answer?_eq_some_iff :
    p.device.answer? own = some b ↔ ∃ place q, p.descendant? place = some q ∧ own q.device = some b ∧
      ∀ earlier < place, ∀ r, p.descendant? earlier = some r → own r.device = none := by
  rw [answer?_eq_findSome?_places, findSome?_eq_some_iff_of_pairwise (pairwise_places p)]
  constructor
  · rintro ⟨place, -, hplace, hbefore⟩
    obtain ⟨d, hd, hown⟩ := Option.bind_eq_some_iff.mp hplace
    obtain ⟨q, hq, rfl⟩ := Option.map_eq_some_iff.mp hd
    refine ⟨place, q, hq, hown, fun earlier hlt r hr => ?_⟩
    have hnone := hbefore earlier (mem_places_iff.mpr (Option.isSome_of_eq_some hr)) hlt
    rwa [deviceAt?, hr] at hnone
  · rintro ⟨place, q, hq, hown, hearlier⟩
    refine ⟨place, mem_places_iff.mpr (Option.isSome_of_eq_some hq), ?_, fun earlier hm hlt => ?_⟩
    · rw [deviceAt?, hq]
      exact hown
    · obtain ⟨r, hr⟩ := Option.isSome_iff_exists.mp (mem_places_iff.mp hm)
      rw [deviceAt?, hr]
      exact hearlier earlier hlt r hr

/-- What is below a device that answers answers, too. -/
theorem isSome_answer?_above {place : List Nat} {q : PlacedDevice} (hq : p.descendant? place = some q)
    (h : (q.device.answer? own).isSome) : (p.device.answer? own).isSome := by
  rw [answer?, List.findSome?_isSome_iff] at h ⊢
  obtain ⟨d, hd, hown⟩ := h
  exact ⟨d, (infix_preorder hq).subset hd, hown⟩

end PlacedDevice
end Answers

/-- A search finds the first of the items of a tree that is good. -/
structure FindsFirst {β : Type} (items : Device → List β) (good : β → Bool) (search : Device → Option β)
    (p : PlacedDevice) : Prop where
  preorder_eq : search p.device = (p.device.preorder.flatMap items).find? good
  /-- The device itself comes first, then its children from left to right. -/
  children_eq : search p.device = ((items p.device).find? good).or (p.device.children.findSome? search)
  /-- No earlier place of the document has anything good. -/
  eq_some_iff : ∀ b, search p.device = some b ↔ ∃ place q, p.descendant? place = some q ∧
    (items q.device).find? good = some b ∧
      ∀ earlier < place, ∀ r, p.descendant? earlier = some r → ∀ c ∈ items r.device, good c = false
  eq_none_iff : search p.device = none ↔
    ∀ place q, p.descendant? place = some q → ∀ c ∈ items q.device, good c = false
  above : ∀ place q, p.descendant? place = some q → (search q.device).isSome → (search p.device).isSome

private theorem findsFirst_of_answer? {β : Type} {items : Device → List β} {good : β → Bool}
    {search : Device → Option β} (h : search = Device.answer? fun d => (items d).find? good) (p : PlacedDevice) :
    FindsFirst items good search p := by
  have hnone (d : Device) : (items d).find? good = none ↔ ∀ c ∈ items d, good c = false := by
    simp only [List.find?_eq_none, Bool.not_eq_true]
  subst h
  constructor
  · rw [Device.answer?, List.find?_flatMap]
  · exact Device.answer?_eq _ _
  · intro b
    simp only [PlacedDevice.answer?_eq_some_iff, hnone]
  · simp only [PlacedDevice.answer?_eq_none_iff, hnone]
  · intro place q hq
    exact PlacedDevice.isSome_answer?_above hq

/-- A search for devices is one for items, of which each device has one. -/
theorem find?_devices_eq (good : Device → Bool) (d : Device) :
    d.devices.find? good = d.answer? fun d => [d].find? good := by
  rw [Device.devices_eq_preorder, Device.answer?, ← List.find?_flatMap, List.flatMap_singleton']

/-- In the tree of any device, the searches by name and by type find the first device that matches, and the search for
a service the first service of that type. What is found below a device is found from every device above it. -/
theorem searches_find_first (p : PlacedDevice) (x : Text) :
    FindsFirst (fun d => [d]) (fun d => d.info.udn = x) (·.findByUdn x) p ∧
    FindsFirst (fun d => [d]) (fun d => d.info.deviceType = x) (·.findByType x) p ∧
    FindsFirst Device.services (fun s => s.serviceType = x) (·.findService x) p := by
  refine ⟨findsFirst_of_answer? (funext fun d => ?_) p, findsFirst_of_answer? (funext fun d => ?_) p,
    findsFirst_of_answer? (funext fun d => ?_) p⟩
  · exact find?_devices_eq _ d
  · exact find?_devices_eq _ d
  · rw [Device.findService, Device.devices_eq_preorder, List.find?_flatMap, Device.answer?]

namespace Sample

def speaker (udn name : Text) (services : List Service) (children : List Device) : Device :=
  ⟨{ DeviceInfo.blank with udn, friendlyName := name }, [], services, children⟩

def link : Url := ⟨"urn", none, .rooted [], none, none⟩

def volume (id : Text) : Service := ⟨"volume", id, link, link, none⟩

def cabinet : Device := speaker "cabinet" "Cabinet" [] [speaker "speaker" "Left" [volume "left"] []]

/-- One speaker stands in a cabinet, and another one beside it. The deeper one comes first. -/
def stereo : Device := speaker "stereo" "Stereo" [] [cabinet, speaker "speaker" "Right" [volume "right"] []]

end Sample

open Sample PlacedDevice in
theorem searches_find_first_stereo :
    (top stereo).descendant? [0] = some (.embedded (top stereo) cabinet) ∧
      (cabinet.findByUdn "speaker").isSome ∧ (stereo.findByUdn "speaker").isSome ∧
      (stereo.findByUdn "speaker").map (·.info.friendlyName) = some "Left".toList ∧
      (stereo.findService "volume").map (·.serviceId) = some "left".toList ∧
      (stereo.findByType "lamp").isNone := by
  obtain ⟨hspeaker, -, -⟩ := searches_find_first (top stereo) "speaker"
  obtain ⟨-, -, hvolume⟩ := searches_find_first (top stereo) "volume"
  obtain ⟨-, hlamp, -⟩ := searches_find_first (top stereo) "lamp"
  obtain ⟨hinside, -, -⟩ := searches_find_first (.embedded (top stereo) cabinet) "speaker"
  have hplace : (top stereo).descendant? [0] = some (.embedded (top stereo) cabinet) := rfl
  have hfound : (cabinet.findByUdn "speaker").isSome := hinside.preorder_eq ▸ by decide
  have hudn : stereo.findByUdn "speaker" = _ := hspeaker.preorder_eq
  have hservice : stereo.findService "volume" = _ := hvolume.preorder_eq
  have htype : stereo.findByType "lamp" = _ := hlamp.preorder_eq
  refine ⟨hplace, hfound, hspeaker.above [0] _ hplace hfound, ?_, ?_, ?_⟩
  · rw [hudn]
    decide
  · rw [hservice]
    decide
  · rw [htype]
    decide

end DeviceDescription
