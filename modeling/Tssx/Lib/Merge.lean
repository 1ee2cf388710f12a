import Mathlib.Data.List.Forall2
import Mathlib.Tactic.Common

/-!
# Splitting a list and merging it again

The entries of a list that satisfy a test go to one list and the others to another, and the two
lists are changed entry by entry.  `merge p xs ys zs` puts `ys` at the places of the entries of
`xs` with `p`, in their order, and `zs` at the places of the others; `rank p xs i` is the number of
entries with `p` before the `i`-th, and so the place of that entry in its own list.

`merge` is only used where `ys` and `zs` are as long as the lists that `xs` is split into
(`Fits`).
-/

namespace Merge

variable {α β : Type*} {p : α → Bool} {xs : List α} {ys zs : List β}

/-- `ys` in the places of the entries with `p`, and `zs` in the others. -/
def merge (p : α → Bool) : List α → List β → List β → List β
  | [], _, _ => []
  | x :: xs, ys, zs =>
    if p x then
      match ys with
      | y :: ys => y :: merge p xs ys zs
      | [] => []
    else
      match zs with
      | z :: zs => z :: merge p xs ys zs
      | [] => []

/-- The number of entries with `p` before the `i`-th. -/
def rank (p : α → Bool) (xs : List α) (i : Nat) : Nat := (xs.take i).countP p

/-- There is an entry for each place. -/
inductive Fits (p : α → Bool) : List α → List β → List β → Prop
  | nil : Fits p [] [] []
  | left {x : α} {xs : List α} {y : β} {ys zs : List β} (hx : p x = true) (h : Fits p xs ys zs) :
      Fits p (x :: xs) (y :: ys) zs
  | right {x : α} {xs : List α} {z : β} {ys zs : List β} (hx : p x = false) (h : Fits p xs ys zs) :
      Fits p (x :: xs) ys (z :: zs)

theorem merge_left {x : α} {y : β} (hx : p x = true) :
    merge p (x :: xs) (y :: ys) zs = y :: merge p xs ys zs := by
  simp [merge, hx]

theorem merge_right {x : α} {z : β} (hx : p x = false) :
    merge p (x :: xs) ys (z :: zs) = z :: merge p xs ys zs := by
  simp [merge, hx]

theorem rank_succ {x : α} {i : Nat} :
    rank p (x :: xs) (i + 1) = rank p xs i + if p x then 1 else 0 := by
  rw [rank, List.take_succ_cons, List.countP_cons]
  rfl

namespace Fits

theorem of_pos {x : α} (h : Fits p (x :: xs) ys zs) (hx : p x = true) :
    ∃ y rest, ys = y :: rest ∧ Fits p xs rest zs := by
  cases h with
  | left _ h => exact ⟨_, _, rfl, h⟩
  | right hx' _ => exact Bool.noConfusion (hx.symm.trans hx')

theorem of_neg {x : α} (h : Fits p (x :: xs) ys zs) (hx : p x = false) :
    ∃ z rest, zs = z :: rest ∧ Fits p xs ys rest := by
  cases h with
  | left hx' _ => exact Bool.noConfusion (hx.symm.trans hx')
  | right _ h => exact ⟨_, _, rfl, h⟩

/-- **The `i`-th entry** comes from the list of its kind, at its rank. -/
theorem getElem? (h : Fits p xs ys zs) (i : Nat) :
    (merge p xs ys zs)[i]? = xs[i]?.bind fun x =>
      if p x then ys[rank p xs i]? else zs[rank (fun x => !p x) xs i]? := by
  induction h generalizing i with
  | nil => rfl
  | left hx _ ih =>
    rw [merge_left hx]
    cases i with
    | zero => simp [rank, hx]
    | succ i => simp [ih, rank_succ, hx]
  | right hx _ ih =>
    rw [merge_right hx]
    cases i with
    | zero => simp [rank, hx]
    | succ i => simp [ih, rank_succ, hx]

theorem countP (h : Fits p xs ys zs) (q : β → Bool) :
    (merge p xs ys zs).countP q = ys.countP q + zs.countP q := by
  induction h with
  | nil => rfl
  | left hx _ ih =>
    rw [merge_left hx, List.countP_cons, List.countP_cons, ih]
    omega
  | right hx _ ih =>
    rw [merge_right hx, List.countP_cons, List.countP_cons, ih]
    omega

theorem merge_nil (h : Fits p xs [] zs) : merge p xs [] zs = zs := by
  induction xs generalizing zs with
  | nil => cases h; rfl
  | cons x xs ih =>
    cases h with
    | right hx h => rw [merge_right hx, ih h]

theorem merge_nil_right (h : Fits p xs ys []) : merge p xs ys [] = ys := by
  induction xs generalizing ys with
  | nil => cases h; rfl
  | cons x xs ih =>
    cases h with
    | left hx h => rw [merge_left hx, ih h]

/-- What relates the entries of the two lists to those they replace relates the merged list to
the whole. -/
theorem forall₂ {R : α → β → Prop} (hy : List.Forall₂ R (xs.filter p) ys)
    (hz : List.Forall₂ R (xs.filter fun x => !p x) zs) :
    Fits p xs ys zs ∧ List.Forall₂ R xs (merge p xs ys zs) := by
  induction xs generalizing ys zs with
  | nil =>
    cases hy
    cases hz
    exact ⟨.nil, .nil⟩
  | cons x xs ih =>
    cases hx : p x with
    | true =>
      rw [List.filter_cons_of_pos hx] at hy
      rw [List.filter_cons_of_neg (by simp [hx])] at hz
      obtain ⟨y, ys, hxy, hys, rfl⟩ := List.forall₂_cons_left_iff.mp hy
      obtain ⟨hfits, hrest⟩ := ih hys hz
      rw [merge_left hx]
      exact ⟨.left hx hfits, .cons hxy hrest⟩
    | false =>
      rw [List.filter_cons_of_neg (by simp [hx])] at hy
      rw [List.filter_cons_of_pos (by simp [hx])] at hz
      obtain ⟨z, zs, hxz, hzs, rfl⟩ := List.forall₂_cons_left_iff.mp hz
      obtain ⟨hfits, hrest⟩ := ih hy hzs
      rw [merge_right hx]
      exact ⟨.right hx hfits, .cons hxz hrest⟩

end Fits

theorem filter_getElem? {i : Nat} {x : α} (h : xs[i]? = some x) (hx : p x = true) :
    (xs.filter p)[rank p xs i]? = some x := by
  induction xs generalizing i with
  | nil => cases h
  | cons y xs ih =>
    cases i with
    | zero =>
      obtain rfl := Option.some.inj h
      rw [List.filter_cons_of_pos hx]
      rfl
    | succ i =>
      have hrest := ih h
      rw [rank_succ]
      cases hy : p y with
      | true => simpa [hy] using hrest
      | false => simpa [hy] using hrest

/-- **A list that is split is merged again.** -/
theorem merge_filter (p : α → Bool) (f : α → β) (xs : List α) :
    merge p xs ((xs.filter p).map f) ((xs.filter fun x => !p x).map f) = xs.map f := by
  induction xs with
  | nil => rfl
  | cons x xs ih => cases hx : p x <;> simp [merge, hx, ih]

end Merge
