import DeviceDescription.PlacedDevice
import DeviceDescription.Proofs.Traversal
import Mathlib.Logic.Function.Basic

/-!
# Device trees as objects in memory

A device is an object with an address. It owns the objects of the devices embedded in it and remembers the address of
the one that holds it. Owning keeps an object in memory, remembering does not.
-/
namespace DeviceDescription

open Traversal

/-- A service with the address of the cell that its root device is written in. -/
structure LinkedService where
  service : Service
  link : Nat

structure DeviceObject where
  info : DeviceInfo
  icons : List Icon
  services : List LinkedService
  parent? : Option Nat
  children : List Nat

abbrev Heap := Nat → Option DeviceObject

namespace Heap

def put (h : Heap) (a : Nat) (o : DeviceObject) : Heap := Function.update h a (some o)

theorem put_self (h : Heap) (a : Nat) (o : DeviceObject) : put h a o a = some o := Function.update_self ..

theorem put_of_ne (h : Heap) {a b : Nat} (o : DeviceObject) (hb : b ≠ a) : put h a o b = h b :=
  Function.update_of_ne hb ..

mutual

/-- Puts a device at an address and those embedded in it behind it. The object is there, with no children as yet, when
these are given its address. Returns the first address behind them all. -/
def allocate (link : Nat) (h : Heap) (parent? : Option Nat) (a : Nat) : Device → Nat × Heap
  | ⟨info, icons, services, children⟩ =>
    let o : DeviceObject := ⟨info, icons, services.map (⟨·, link⟩), parent?, []⟩
    let (addresses, e, h) := allocateAll link (put h a o) a (a + 1) children
    (e, put h a { o with children := addresses })

def allocateAll (link : Nat) (h : Heap) (parent a : Nat) : List Device → List Nat × Nat × Heap
  | [] => ([], a, h)
  | d :: r =>
    let (m, h) := allocate link h (some parent) a d
    let (addresses, e, h) := allocateAll link h parent m r
    (a :: addresses, e, h)

end

mutual

/-- The objects from `a` up to `e` make up a device. -/
def Block (link : Nat) (h : Heap) (parent? : Option Nat) (a e : Nat) : Device → Prop
  | ⟨info, icons, services, children⟩ => (∀ p ∈ parent?, p < a) ∧ ∃ addresses,
    h a = some ⟨info, icons, services.map (⟨·, link⟩), parent?, addresses⟩ ∧
      Blocks link h a (a + 1) e addresses children

def Blocks (link : Nat) (h : Heap) (parent a e : Nat) : List Nat → List Device → Prop
  | [], [] => a = e
  | b :: addresses, d :: r => b = a ∧ ∃ m, Block link h (some parent) a m d ∧ Blocks link h parent m e addresses r
  | _, _ => False

end

variable {link : Nat}

mutual

theorem Block.lt {h : Heap} {parent? : Option Nat} {a e : Nat} :
    (d : Device) → Block link h parent? a e d → a < e
  | ⟨_, _, _, children⟩, hb => by
    obtain ⟨-, addresses, -, hchildren⟩ := hb
    exact Blocks.le addresses children hchildren

theorem Blocks.le {h : Heap} {parent a e : Nat} :
    (addresses : List Nat) → (ds : List Device) → Blocks link h parent a e addresses ds → a ≤ e
  | [], [], hb => Nat.le_of_eq hb
  | _ :: addresses, d :: r, hb => by
    obtain ⟨-, m, hd, hr⟩ := hb
    exact Nat.le_trans (Nat.le_of_lt (Block.lt d hd)) (Blocks.le addresses r hr)

end

mutual

theorem Block.congr {h h' : Heap} {parent? : Option Nat} {a e : Nat} :
    (d : Device) → (∀ b, a ≤ b → b < e → h' b = h b) → Block link h parent? a e d → Block link h' parent? a e d
  | ⟨_, _, _, children⟩, hsame, hb => by
    obtain ⟨hp, addresses, ha, hchildren⟩ := hb
    have hlt : a < e := Blocks.le addresses children hchildren
    refine ⟨hp, addresses, (hsame a (Nat.le_refl a) hlt).trans ha, ?_⟩
    exact Blocks.congr addresses children (fun b hab hbe => hsame b (Nat.le_of_succ_le hab) hbe) hchildren

theorem Blocks.congr {h h' : Heap} {parent a e : Nat} :
    (addresses : List Nat) → (ds : List Device) → (∀ b, a ≤ b → b < e → h' b = h b) →
      Blocks link h parent a e addresses ds → Blocks link h' parent a e addresses ds
  | [], [], _, hb => hb
  | _ :: addresses, d :: r, hsame, hb => by
    obtain ⟨rfl, m, hd, hr⟩ := hb
    have hm := Block.lt d hd
    have he := Blocks.le addresses r hr
    refine ⟨rfl, m, Block.congr d (fun b hab hbm => hsame b hab (Nat.lt_of_lt_of_le hbm he)) hd, ?_⟩
    exact Blocks.congr addresses r (fun b hmb hbe => hsame b (Nat.le_trans (Nat.le_of_lt hm) hmb) hbe) hr

end

mutual

/-- Allocation makes a block and leaves what stands before it alone. -/
theorem allocate_spec {h : Heap} {parent? : Option Nat} {a : Nat} (hp : ∀ p ∈ parent?, p < a) :
    (d : Device) → Block link (allocate link h parent? a d).2 parent? a (allocate link h parent? a d).1 d ∧
      ∀ b < a, (allocate link h parent? a d).2 b = h b
  | ⟨info, icons, services, children⟩ => by
    obtain ⟨hblocks, hsame⟩ := allocateAll_spec
      (h := put h a ⟨info, icons, services.map (⟨·, link⟩), parent?, []⟩) (Nat.lt_succ_self a) children
    rw [allocate]
    refine ⟨⟨hp, _, put_self .., Blocks.congr _ children (fun b hab _ => ?_) hblocks⟩, fun b hb => ?_⟩
    · exact put_of_ne _ _ (Nat.ne_of_gt hab)
    · have hne : b ≠ a := Nat.ne_of_lt hb
      exact (put_of_ne _ _ hne).trans ((hsame b (Nat.lt_succ_of_lt hb)).trans (put_of_ne _ _ hne))

theorem allocateAll_spec {h : Heap} {parent a : Nat} (hp : parent < a) :
    (ds : List Device) → Blocks link (allocateAll link h parent a ds).2.2 parent a (allocateAll link h parent a ds).2.1
        (allocateAll link h parent a ds).1 ds ∧
      ∀ b < a, (allocateAll link h parent a ds).2.2 b = h b
  | [] => ⟨rfl, fun _ _ => rfl⟩
  | d :: r => by
    have hparent : ∀ p ∈ some parent, p < a := by
      intro p hmem
      obtain rfl := Option.some.inj hmem
      exact hp
    obtain ⟨hblock, hsame⟩ := allocate_spec (h := h) hparent d
    have hlt := Block.lt d hblock
    obtain ⟨hblocks, hsame'⟩ := allocateAll_spec (h := (allocate link h (some parent) a d).2)
      (Nat.lt_trans hp hlt) r
    rw [allocateAll]
    refine ⟨⟨rfl, _, Block.congr d (fun b _ hb => hsame' b hb) hblock, hblocks⟩, fun b hb => ?_⟩
    exact (hsame' b (Nat.lt_trans hb hlt)).trans (hsame b hb)

end

def follow (h : Heap) : Nat → List Nat → Option Nat
  | a, [] => some a
  | a, i :: r => (h a).bind fun o => o.children[i]?.bind fun b => follow h b r

theorem follow_append (h : Heap) (a : Nat) (p q : List Nat) :
    follow h a (p ++ q) = (follow h a p).bind fun b => follow h b q := by
  induction p generalizing a with
  | nil => rfl
  | cons i r ih => simp only [List.cons_append, follow, ih, Option.bind_assoc]

variable {h : Heap} {parent? : Option Nat} {a b c e : Nat} {d : Device} {path : List Nat}

theorem Blocks.forall₂ {parent a e : Nat} : (addresses : List Nat) → (ds : List Device) →
    Blocks link h parent a e addresses ds →
      List.Forall₂ (fun b d => ∃ m, Block link h (some parent) b m d) addresses ds
  | [], [], _ => .nil
  | _ :: addresses, d :: r, hb => by
    obtain ⟨rfl, m, hd, hr⟩ := hb
    exact .cons ⟨m, hd⟩ (Blocks.forall₂ addresses r hr)

/-- The first object of a block is the device, and its children are blocks of their own. -/
theorem Block.object (hb : Block link h parent? a e d) :
    ∃ addresses, h a = some ⟨d.info, d.icons, d.services.map (⟨·, link⟩), parent?, addresses⟩ ∧
      List.Forall₂ (fun b d => ∃ m, Block link h (some a) b m d) addresses d.children := by
  cases d with
  | mk info icons services children =>
    obtain ⟨-, addresses, ha, hchildren⟩ := hb
    exact ⟨addresses, ha, Blocks.forall₂ addresses children hchildren⟩

theorem Block.parent_lt (hb : Block link h parent? a e d) : ∀ p ∈ parent?, p < a := by
  cases d
  exact hb.1

theorem Block.of_follow (hb : Block link h parent? a e d) (hf : follow h a path = some b) :
    a ≤ b ∧ ∃ p m x, Block link h p b m x := by
  induction path generalizing parent? a e d with
  | nil =>
    obtain rfl := Option.some.inj hf
    exact ⟨Nat.le_refl a, parent?, e, d, hb⟩
  | cons i r ih =>
    obtain ⟨addresses, ha, hchildren⟩ := hb.object
    rw [follow, ha, Option.bind_some] at hf
    obtain ⟨c, hc, hf⟩ := Option.bind_eq_some_iff.mp hf
    obtain ⟨hnone, -⟩ | ⟨c', x, hc', -, m, hx⟩ := getElem?_of_forall₂ hchildren i
    · rw [hnone] at hc
      cases hc
    · obtain rfl := Option.some.inj (hc'.symm.trans hc)
      obtain ⟨hle, hblock⟩ := ih hx hf
      exact ⟨Nat.le_trans (Nat.le_of_lt (hx.parent_lt a rfl)) hle, hblock⟩

/-- One more step down, the way back up is remembered. -/
theorem Block.of_follow_append {i : Nat} (hb : Block link h parent? a e d) (hf : follow h a (path ++ [i]) = some b) :
    ∃ c m x, follow h a path = some c ∧ Block link h (some c) b m x := by
  rw [follow_append] at hf
  obtain ⟨c, hc, hf⟩ := Option.bind_eq_some_iff.mp hf
  obtain ⟨-, p, m, x, hx⟩ := hb.of_follow hc
  obtain ⟨addresses, ho, hchildren⟩ := hx.object
  rw [follow, ho, Option.bind_some] at hf
  obtain ⟨b', hb', hf⟩ := Option.bind_eq_some_iff.mp hf
  obtain rfl := Option.some.inj hf
  obtain ⟨hnone, -⟩ | ⟨b'', y, hb'', -, n, hy⟩ := getElem?_of_forall₂ hchildren i
  · rw [hnone] at hb'
    cases hb'
  · obtain rfl := Option.some.inj (hb''.symm.trans hb')
    exact ⟨c, n, y, hc, hy⟩

mutual

/-- Every object of a block is owned by way of the first one. -/
theorem Block.exists_follow {parent? : Option Nat} {a e : Nat} :
    (d : Device) → Block link h parent? a e d → a ≤ b → b < e → ∃ path, follow h a path = some b
  | ⟨_, _, _, children⟩, hb, hab, hbe => by
    obtain ⟨-, addresses, ha, hchildren⟩ := hb
    rcases Nat.eq_or_lt_of_le hab with rfl | hlt
    · exact ⟨[], rfl⟩
    · obtain ⟨i, c, path, hc, hf⟩ := Blocks.exists_follow addresses children hchildren hlt hbe
      refine ⟨i :: path, ?_⟩
      rw [follow, ha, Option.bind_some, hc, Option.bind_some, hf]

theorem Blocks.exists_follow {parent a e : Nat} : (addresses : List Nat) → (ds : List Device) →
    Blocks link h parent a e addresses ds → a ≤ b → b < e →
      ∃ (i c : Nat) (path : List Nat), addresses[i]? = some c ∧ follow h c path = some b
  | [], [], hb, hab, hbe => absurd (Nat.lt_of_le_of_lt hab hbe) (hb ▸ Nat.lt_irrefl a)
  | _ :: addresses, d :: r, hb, hab, hbe => by
    obtain ⟨rfl, m, hd, hr⟩ := hb
    rcases Nat.lt_or_ge b m with hbm | hmb
    · obtain ⟨path, hf⟩ := Block.exists_follow d hd hab hbm
      exact ⟨0, _, path, rfl, hf⟩
    · obtain ⟨i, c, path, hc, hf⟩ := Blocks.exists_follow addresses r hr hmb hbe
      exact ⟨i + 1, c, path, hc, hf⟩

end

open Classical in
/-- What stays in memory when only one object is held: that object, and what it owns by way of its children. -/
noncomputable def release (h : Heap) (a : Nat) : Heap := fun b => if ∃ path, follow h a path = some b then h b else none

theorem release_of_follow (hf : follow h a path = some b) : release h a b = h b := if_pos ⟨path, hf⟩

theorem release_eq_none (hf : ∀ path, follow h a path ≠ some b) : release h a b = none :=
  if_neg fun ⟨path, hp⟩ => hf path hp

theorem follow_release (hf : follow h a path = some b) (q : List Nat) : follow (release h a) b q = follow h b q := by
  induction q generalizing b path with
  | nil => rfl
  | cons i r ih =>
    rw [follow, follow, release_of_follow hf]
    cases ho : h b with
    | none => rfl
    | some o =>
      simp only [Option.bind_some]
      cases hc : o.children[i]? with
      | none => rfl
      | some c =>
        have hf' : follow h a (path ++ [i]) = some c := by
          rw [follow_append, hf, Option.bind_some, follow, ho, Option.bind_some, hc]
          rfl
        exact ih hf'

theorem follow_release_self (h : Heap) (a : Nat) (q : List Nat) : follow (release h a) a q = follow h a q := by
  have hself : follow h a [] = some a := rfl
  exact follow_release hself q

/-- The last release decides what stays. -/
theorem release_release (hf : follow h a path = some b) : release (release h a) b = release h b := by
  funext c
  by_cases hc : ∃ q, follow h b q = some c
  · obtain ⟨q, hq⟩ := hc
    have hq' : follow (release h a) b q = some c := (follow_release hf q).trans hq
    have hfq : follow h a (path ++ q) = some c := by rw [follow_append, hf, Option.bind_some, hq]
    rw [release_of_follow hq', release_of_follow hfq, release_of_follow hq]
  · have hq : ∀ q, follow h b q ≠ some c := fun q hq => hc ⟨q, hq⟩
    rw [release_eq_none hq, release_eq_none fun q => follow_release hf q ▸ hq q]

theorem Block.release (hb : Block link h parent? a e d) : Block link (Heap.release h a) parent? a e d := by
  refine Block.congr d (fun b hab hbe => ?_) hb
  obtain ⟨path, hf⟩ := Block.exists_follow d hb hab hbe
  exact release_of_follow hf

/-- Nothing that stands before a block is owned by it, the parent included. -/
theorem Block.release_eq_none (hb : Block link h parent? a e d) (hc : c < a) : Heap.release h a c = none := by
  refine Heap.release_eq_none fun path hf => ?_
  exact Nat.not_le_of_lt hc (hb.of_follow hf).1

end Heap
end DeviceDescription
