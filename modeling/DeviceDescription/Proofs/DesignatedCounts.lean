import DeviceDescription.Proofs.CountedChildren

/-!
# Designated places and counted children

A path designates one place or none, while the position of its last step plays no part in what is counted. The two
part exactly where the position is past the last child of its name.
-/
namespace DeviceDescription

open Traversal

namespace PathStep

private theorem one_le_of_read {raw : Text} {s : PathStep} {i : Nat} (h : read raw = .ok s) (hi : s.position = some i) :
    1 ≤ i := ((writable_of_read h).position i hi).1

private theorem index_lt_iff {raw : Text} {s : PathStep} (h : read raw = .ok s) {n : Nat} :
    s.index < n ↔ s.position.getD 1 ≤ n := by
  rw [index]
  cases hi : s.position with
  | none => simp [Nat.lt_iff_add_one_le]
  | some i =>
    have hpos := one_le_of_read h hi
    simp only [Option.getD_some]
    omega

end PathStep

namespace DocumentContext

variable {c d : DocumentContext} {parent : Option Text} {last : Text} {s : PathStep} {uri : Option Text}

/-- The position of a last step is past the last child of its name, where there are such children. -/
def PointsPast (c : DocumentContext) (path last : Text) : Prop :=
  ∃ s i n, PathStep.read last = .ok s ∧ s.position = some i ∧ c.count path = .ok n ∧ 1 ≤ n ∧ n < i

namespace LastStep

variable (h : LastStep c parent last d s uri) (hlast : '/' ∉ last)
include h hlast

theorem exists_pointer_iff :
    (∃ x, c.pointer (joined parent last) = .ok x) ↔
      s.position.getD 1 ≤ d.children.countP (XmlElement.bears s.name uri) := by
  rw [h.pointer_eq hlast, ← PathStep.index_lt_iff h.step, List.countP_eq_length_filter]
  cases hes : (d.children.filter (XmlElement.bears s.name uri))[s.index]? with
  | none =>
    rw [List.getElem?_eq_none_iff] at hes
    simp [hes]
  | some e =>
    obtain ⟨hlt, -⟩ := List.getElem?_eq_some_iff.mp hes
    simp [hlt]

theorem exists_count_iff :
    (∃ n, 1 ≤ n ∧ c.count (joined parent last) = .ok n) ↔
      1 ≤ d.children.countP (XmlElement.bears s.name uri) := by
  simp [h.count_eq hlast]

theorem pointsPast_iff :
    c.PointsPast (joined parent last) last ↔
      1 ≤ d.children.countP (XmlElement.bears s.name uri) ∧
        d.children.countP (XmlElement.bears s.name uri) < s.position.getD 1 := by
  constructor
  · rintro ⟨s', i, n, hs, hi, hcount, hpos, hlt⟩
    obtain rfl := Except.ok.inj (h.step.symm.trans hs)
    obtain rfl := Except.ok.inj ((h.count_eq hlast).symm.trans hcount)
    exact ⟨hpos, by rwa [hi, Option.getD_some]⟩
  · rintro ⟨hpos, hlt⟩
    cases hi : s.position with
    | none =>
      rw [hi, Option.getD_none] at hlt
      omega
    | some i =>
      rw [hi, Option.getD_some] at hlt
      exact ⟨s, i, _, h.step, hi, h.count_eq hlast, hpos, hlt⟩

/-- A position past the last child is the one way to count what is not designated. -/
theorem pointer_iff_count_iff :
    ((∃ x, c.pointer (joined parent last) = .ok x) ↔ ∃ n, 1 ≤ n ∧ c.count (joined parent last) = .ok n) ↔
      ¬c.PointsPast (joined parent last) last := by
  have hposition : 1 ≤ s.position.getD 1 := by
    cases hi : s.position with
    | none => exact le_refl 1
    | some i => exact PathStep.one_le_of_read h.step hi
  rw [h.exists_pointer_iff hlast, h.exists_count_iff hlast, h.pointsPast_iff hlast]
  omega

theorem count_eq_zero_iff (hnone : ¬∃ x, c.pointer (joined parent last) = .ok x) :
    c.count (joined parent last) = .ok 0 ↔ ¬c.PointsPast (joined parent last) last := by
  rw [h.exists_pointer_iff hlast] at hnone
  rw [h.count_eq hlast, h.pointsPast_iff hlast, Except.ok.injEq]
  omega

end LastStep

theorem LastStepFails.not_pointsPast {e : PathError} (h : LastStepFails c parent last e) (hlast : '/' ∉ last) :
    ¬c.PointsPast (joined parent last) last := by
  rintro ⟨s, i, n, -, -, hcount, -, -⟩
  cases (h.count_eq hlast).symm.trans hcount

/-- A path is counted as often as its last step has children of its name. So it designates something exactly when
something is counted, unless its position is past them. -/
theorem count_of_designated (c : DocumentContext) (path : Text) :
    ∃ parent last, path = joined parent last ∧ '/' ∉ last ∧
      (((∃ x, c.pointer path = .ok x) ↔ ∃ n, 1 ≤ n ∧ c.count path = .ok n) ↔ ¬c.PointsPast path last) ∧
      (∀ d s uri, LastStep c parent last d s uri →
        c.count path = .ok (d.children.countP (XmlElement.bears s.name uri)) ∧
        ((∃ x, c.pointer path = .ok x) ↔
          s.position.getD 1 ≤ d.children.countP (XmlElement.bears s.name uri)) ∧
        ((¬∃ x, c.pointer path = .ok x) → (c.count path = .ok 0 ↔ ¬c.PointsPast path last))) ∧
      ∀ e, LastStepFails c parent last e → c.count path = .error e ∧ c.pointer path = .error (e.forPath path) := by
  obtain ⟨parent, last, rfl, hlast⟩ := exists_eq_joined path
  refine ⟨parent, last, rfl, hlast, ?_, fun d s uri h => ?_, fun e h => ⟨h.count_eq hlast, h.pointer_eq hlast⟩⟩
  · obtain ⟨d, s, uri, h⟩ | ⟨e, h⟩ := lastStep_or_fails c parent last
    · exact h.pointer_iff_count_iff hlast
    · simp [h.count_eq hlast, h.pointer_eq hlast, h.not_pointsPast hlast]
  · exact ⟨h.count_eq hlast, h.exists_pointer_iff hlast, h.count_eq_zero_iff hlast⟩

/-- The second lamp is designated. The third one is not, but two are counted. -/
theorem count_of_designated_lamps :
    (∃ x, Sample.houseDocument.pointer "upnp:house/upnp:lamp[2]" = .ok x) ∧
    Sample.houseDocument.count "upnp:house/upnp:lamp[2]" = .ok 2 ∧
    (∃ parent last, "upnp:house/upnp:lamp[2]" = joined parent last ∧ '/' ∉ last ∧
      ¬Sample.houseDocument.PointsPast "upnp:house/upnp:lamp[2]" last) ∧
    (¬∃ x, Sample.houseDocument.pointer "upnp:house/upnp:lamp[3]" = .ok x) ∧
    Sample.houseDocument.count "upnp:house/upnp:lamp[3]" = .ok 2 ∧
    ∃ parent last, "upnp:house/upnp:lamp[3]" = joined parent last ∧ '/' ∉ last ∧
      Sample.houseDocument.PointsPast "upnp:house/upnp:lamp[3]" last := by
  have hcount₂ : Sample.houseDocument.count "upnp:house/upnp:lamp[2]" = .ok 2 := eq_ok_of_toOption (by decide +kernel)
  have hcount₃ : Sample.houseDocument.count "upnp:house/upnp:lamp[3]" = .ok 2 := eq_ok_of_toOption (by decide +kernel)
  have hsome : ∃ x, Sample.houseDocument.pointer "upnp:house/upnp:lamp[2]" = .ok x := ⟨_, rfl⟩
  have hnone : ¬∃ x, Sample.houseDocument.pointer "upnp:house/upnp:lamp[3]" = .ok x := by
    rintro ⟨x, hx⟩
    cases hx
  obtain ⟨parent₂, last₂, hpath₂, hlast₂, hiff₂, -, -⟩ :=
    count_of_designated Sample.houseDocument "upnp:house/upnp:lamp[2]"
  obtain ⟨parent₃, last₃, hpath₃, hlast₃, hiff₃, -, -⟩ :=
    count_of_designated Sample.houseDocument "upnp:house/upnp:lamp[3]"
  refine ⟨hsome, hcount₂, ⟨parent₂, last₂, hpath₂, hlast₂, ?_⟩, hnone, hcount₃, parent₃, last₃, hpath₃, hlast₃, ?_⟩
  · exact hiff₂.mp ⟨fun _ => ⟨2, by decide, hcount₂⟩, fun _ => hsome⟩
  · by_contra hpast
    exact hnone ((hiff₃.mpr hpast).mpr ⟨2, by decide, hcount₃⟩)

/-- Past the last lamp nothing is designated, but the lamps are counted. -/
theorem not_pointer_iff_count :
    ¬∀ (c : DocumentContext) (path : Text),
      (∃ x, c.pointer path = .ok x) ↔ ∃ n, 1 ≤ n ∧ c.count path = .ok n := by
  intro hall
  have hcount : Sample.houseDocument.count "upnp:house/upnp:lamp[3]" = .ok 2 := eq_ok_of_toOption (by decide +kernel)
  obtain ⟨x, hx⟩ := (hall Sample.houseDocument "upnp:house/upnp:lamp[3]").mpr ⟨2, by decide, hcount⟩
  cases hx

end DocumentContext
end DeviceDescription
