import Mathlib.Algebra.BigOperators.Group.List.Basic
import Mathlib.Algebra.Order.Ring.Int
import Mathlib.Tactic.Common

/-!
# A list of parties of which one moves

The parties of a system are a list, and a step replaces one of them.  The lemmas say what
that does to the number of parties with a property (`countP_set`) and to a property of all
of them (`forall_mem_set`).
-/

namespace Parties

variable {α : Type*} {l : List α} {i : Nat} {x y : α} {p : α → Bool}

theorem forall_mem_set {q : α → Prop} (hl : ∀ z ∈ l, q z) (hy : q y) : ∀ z ∈ l.set i y, q z := by
  intro z hz
  rcases List.mem_or_eq_of_mem_set hz with hz | rfl
  · exact hl z hz
  · exact hy

theorem getElem?_set_self (h : l[i]? = some x) : (l.set i y)[i]? = some y :=
  List.getElem?_set_self (List.getElem?_eq_some_iff.mp h).1

theorem getElem?_set_other {j : Nat} {z : α} (hj : j ≠ i) :
    (l.set i y)[j]? = some z ↔ l[j]? = some z := by
  rw [List.getElem?_set_ne (Ne.symm hj)]

theorem forall_getElem?_set {q : Nat → α → Prop} (h : l[i]? = some x) (hy : q i y)
    (hl : ∀ j z, j ≠ i → l[j]? = some z → q j z) : ∀ j z, (l.set i y)[j]? = some z → q j z := by
  intro j z hz
  by_cases hj : j = i
  · subst hj
    obtain rfl := Option.some.inj ((getElem?_set_self h).symm.trans hz)
    exact hy
  · exact hl j z hj ((getElem?_set_other hj).mp hz)

theorem countP_eq_zero_iff : l.countP p = 0 ↔ ∀ z ∈ l, p z = false := by
  simp [List.countP_eq_zero]

theorem sum_map_eq_countP {f : α → Nat} (h : ∀ z ∈ l, f z = if p z then 1 else 0) :
    (l.map f).sum = l.countP p := by
  induction l with
  | nil => rfl
  | cons a l ih =>
    rw [List.map_cons, List.sum_cons, List.countP_cons, h a List.mem_cons_self,
      ih fun z hz => h z (List.mem_cons_of_mem _ hz)]
    exact Nat.add_comm _ _

/-- A sum over the parties, before and after party `i` changes from `x` to `y`. -/
theorem sum_map_set {f : α → Nat} (h : l[i]? = some x) :
    ((l.set i y).map f).sum + f x = (l.map f).sum + f y := by
  induction l generalizing i with
  | nil => simp at h
  | cons a l ih =>
    cases i with
    | zero =>
      obtain rfl : a = x := by simpa using h
      simp only [List.set_cons_zero, List.map_cons, List.sum_cons]
      omega
    | succ i =>
      have := ih (i := i) (by simpa using h)
      simp only [List.set_cons_succ, List.map_cons, List.sum_cons]
      omega

theorem countP_set (h : l[i]? = some x) :
    (l.set i y).countP p + (if p x then 1 else 0) = l.countP p + if p y then 1 else 0 := by
  rw [← sum_map_eq_countP fun _ _ => rfl, ← sum_map_eq_countP fun _ _ => rfl]
  exact sum_map_set h

theorem countP_eq_one_iff (h : l[i]? = some x) (hx : p x = true) :
    l.countP p = 1 ↔ ∀ j y, j ≠ i → l[j]? = some y → p y = false := by
  induction l generalizing i with
  | nil => simp at h
  | cons a l ih =>
    cases i with
    | zero =>
      obtain rfl : a = x := by simpa using h
      rw [List.countP_cons_of_pos hx, Nat.add_eq_right, countP_eq_zero_iff]
      constructor
      · intro hl j y hj hy
        cases j with
        | zero => exact absurd rfl hj
        | succ j => exact hl y (List.mem_of_getElem? (by simpa using hy))
      · intro hl z hz
        obtain ⟨j, hj⟩ := List.mem_iff_getElem?.mp hz
        exact hl (j + 1) z (by omega) (by simpa using hj)
    | succ i =>
      have hi : l[i]? = some x := by simpa using h
      have hpos : 0 < l.countP p := List.countP_pos_iff.mpr ⟨x, List.mem_of_getElem? hi, hx⟩
      cases ha : p a with
      | true =>
        rw [List.countP_cons_of_pos ha]
        apply iff_of_false (by omega)
        intro hl
        have := hl 0 a (by omega) rfl
        rw [ha] at this
        cases this
      | false =>
        rw [List.countP_cons_of_neg (by rw [ha]; exact Bool.false_ne_true), ih hi]
        constructor
        · intro hl j y hj hy
          cases j with
          | zero =>
            obtain rfl : a = y := by simpa using hy
            exact ha
          | succ j => exact hl j y (by omega) (by simpa using hy)
        · intro hl j y hj hy
          exact hl (j + 1) y (by omega) (by simpa using hy)

theorem countP_alone (h : l[i]? = some x) (hl : ∀ j y, j ≠ i → l[j]? = some y → p y = false) :
    l.countP p = if p x then 1 else 0 := by
  cases hx : p x with
  | true => exact (countP_eq_one_iff h hx).mpr hl
  | false =>
    refine countP_eq_zero_iff.mpr ?_
    intro z hz
    obtain ⟨j, hj⟩ := List.mem_iff_getElem?.mp hz
    by_cases hji : j = i
    · subst hji
      obtain rfl := Option.some.inj (h.symm.trans hj)
      exact hx
    · exact hl j z hji hj

/-- What is collected from the parties, if only party `k` gives something. -/
theorem filterMap_zipIdx_eq {β : Type*} {f : α × Nat → Option β} {k : Nat}
    (h : ∀ j z, l[j]? = some z → j ≠ k → f (z, j) = none) :
    l.zipIdx.filterMap f = (l[k]?.bind fun z => f (z, k)).toList := by
  induction l generalizing f k with
  | nil => rfl
  | cons a l ih =>
    have hrest : (l.zipIdx 1).filterMap f = l.zipIdx.filterMap fun z => f (z.1, z.2 + 1) := by
      rw [← Nat.zero_add 1, List.zipIdx_succ, List.filterMap_map]
      rfl
    rw [List.zipIdx_cons, List.filterMap_cons, Nat.zero_add, hrest]
    cases k with
    | zero =>
      have hnone := @ih (fun z => f (z.1, z.2 + 1)) l.length
        fun j z hz _ => h (j + 1) z (by simpa using hz) (by omega)
      rw [List.getElem?_eq_none (Nat.le_refl _)] at hnone
      rw [hnone]
      cases ha : f (a, 0) <;> simp [ha]
    | succ k =>
      rw [h 0 a rfl (by omega)]
      exact @ih (fun z => f (z.1, z.2 + 1)) k
        fun j z hz hj => h (j + 1) z (by simpa using hz) (by omega)

end Parties
