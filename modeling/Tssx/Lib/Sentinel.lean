import Mathlib.Data.Finmap
import Mathlib.Tactic.Common

/-!
# A partial map in an array

An array with a cell for every index of a set `S` holds a partial map if one value means that
there is none: `Encodes S absent cells map` says that a cell has the value that the map has at its
index, or `absent`.

The operations of the map are stores (`Encodes.insert`, `Encodes.erase`).  A cell tells whether the
map has a value at its index exactly if that value is not `absent` itself (`Encodes.tells_iff`).
-/

namespace Sentinel

variable {ι β : Type*} [DecidableEq ι] {S : Set ι} {absent : β} {cells cells' : ι → β}
  {map : Finmap fun _ : ι => β} {i : ι} {x : β}

def Encodes (S : Set ι) (absent : β) (cells : ι → β) (map : Finmap fun _ : ι => β) : Prop :=
  ∀ i ∈ S, cells i = (map.lookup i).getD absent

theorem encodes_empty : Encodes S absent cells ∅ ↔ ∀ i ∈ S, cells i = absent := by
  simp [Encodes]

namespace Encodes

theorem insert (h : Encodes S absent cells map) (hi : cells' i = x)
    (hne : ∀ j ∈ S, j ≠ i → cells' j = cells j) : Encodes S absent cells' (map.insert i x) := by
  intro j hj
  by_cases hji : j = i
  · rw [hji, hi, Finmap.lookup_insert, Option.getD_some]
  · rw [hne j hj hji, Finmap.lookup_insert_of_ne _ hji, h j hj]

theorem erase (h : Encodes S absent cells map) (hi : cells' i = absent)
    (hne : ∀ j ∈ S, j ≠ i → cells' j = cells j) : Encodes S absent cells' (map.erase i) := by
  intro j hj
  by_cases hji : j = i
  · rw [hji, hi, Finmap.lookup_erase, Option.getD_none]
  · rw [hne j hj hji, Finmap.lookup_erase_ne hji, h j hj]

theorem eq_absent (h : Encodes S absent cells map) (hi : i ∈ S) (hmem : i ∉ map) :
    cells i = absent := by
  rw [h i hi, Finmap.lookup_eq_none.mpr hmem, Option.getD_none]

theorem ne_absent_iff (h : Encodes S absent cells map) (hi : i ∈ S) :
    cells i ≠ absent ↔ i ∈ map ∧ map.lookup i ≠ some absent := by
  rw [h i hi, Finmap.mem_iff]
  cases hl : map.lookup i with
  | none => simp
  | some x => simp

/-- **A cell tells whether there is a value**, unless that is the one that means there is none. -/
theorem tells_iff (h : Encodes S absent cells map) (hi : i ∈ S) :
    (cells i ≠ absent ↔ i ∈ map) ↔ map.lookup i ≠ some absent := by
  rw [h.ne_absent_iff hi]
  constructor
  · intro htells hl
    exact (htells.mpr (Finmap.mem_iff.mpr ⟨absent, hl⟩)).2 hl
  · intro hne
    exact ⟨And.left, fun hmem => ⟨hmem, hne⟩⟩

end Encodes

end Sentinel
