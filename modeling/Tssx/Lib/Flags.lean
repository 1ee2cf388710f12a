import Mathlib.Tactic.Common

/-!
# Flags of a bit vector

A C `int` of flags is a bit vector, and `flags & mask`, `flags | mask` and `flags & ~mask`
test, add and take away the bits of a mask.
-/

namespace Flags

variable {w : Nat} (flags mask : BitVec w)

/-- `flags & mask` as a condition. -/
def has : Bool := flags &&& mask != 0

theorem and_clear : flags &&& ~~~mask &&& mask = 0 := by
  rw [BitVec.and_assoc, BitVec.and_comm (~~~mask), BitVec.and_not_self]
  exact BitVec.and_zero

@[simp] theorem has_clear : has (flags &&& ~~~mask) mask = false := by
  simp [has, and_clear]

theorem has_set {mask : BitVec w} (h : mask ≠ 0) : has (flags ||| mask) mask = true := by
  have hmask : (flags ||| mask) &&& mask = mask := by
    ext i hi
    simp only [BitVec.getElem_and, BitVec.getElem_or]
    cases flags[i] <;> cases mask[i] <;> rfl
  simpa [has, hmask] using h

theorem clear_eq {flags mask : BitVec w} (h : flags &&& mask = 0) : flags &&& ~~~mask = flags := by
  ext i hi
  have hbit := congrArg (fun x => x.getLsbD i) h
  simp only [BitVec.getLsbD_and] at hbit
  rw [BitVec.getElem_and, BitVec.getElem_not]
  cases hf : flags[i] with
  | false => rfl
  | true =>
    rw [BitVec.getLsbD_eq_getElem hi, BitVec.getLsbD_eq_getElem hi, hf] at hbit
    simpa using hbit

theorem has_of_allowed {flags mask allowed : BitVec w} (h : flags &&& ~~~allowed = 0)
    (hm : has flags mask = true) : has allowed mask = true := by
  have hsame : flags &&& allowed = flags := by
    have := clear_eq h
    rwa [BitVec.not_not] at this
  rw [has, bne_iff_ne] at hm ⊢
  intro hnone
  refine hm ?_
  rw [← hsame, BitVec.and_assoc, hnone]
  exact BitVec.and_zero

end Flags
