import Mathlib.Data.List.Basic
import Mathlib.Data.Nat.ModEq
import Mathlib.Tactic.Common

/-!
# A stream laid out in a ring of memory cells

A memory is a function `Nat → α`.  `store m p xs` copies the list `xs` to the cells from
`p` on and `load m p n` copies `n` cells out, both without wrapping around.

The elements of an unbounded stream are numbered `0, 1, 2, …`; element `i` has its cell at
`i % c` in a ring of `c` cells.  `Holds m c s xs` says that the elements `s, s+1, …` of the
stream are `xs` and are in their cells.  As long as fewer than `c` elements are held at
once, no two of them share a cell (`mod_inj_of_window`), which gives the three rules:
storing behind the held elements holds them and the new ones (`Holds.store`), loading from
their front gives a prefix (`Holds.load`), and the front may be let go (`Holds.drop`).
-/

namespace Ring

variable {α : Type*}

/-- Copy `xs` to the cells from `p` on. -/
def store (m : Nat → α) (p : Nat) (xs : List α) : Nat → α :=
  fun i => if p ≤ i then (xs[i - p]?).getD (m i) else m i

/-- Copy `n` cells from `p` on out of the memory. -/
def load (m : Nat → α) (p n : Nat) : List α := (List.range n).map fun i => m (p + i)

/-- The cells that a copy of `n` elements at `p` touches. -/
def cells (p n : Nat) : List Nat := (List.range n).map (p + ·)

/-- The stream elements from `s` on are `xs`, each in its cell of the ring. -/
def Holds (m : Nat → α) (c s : Nat) (xs : List α) : Prop :=
  ∀ i x, xs[i]? = some x → m ((s + i) % c) = x

@[simp] theorem load_length (m : Nat → α) (p n : Nat) : (load m p n).length = n := by simp [load]

@[simp] theorem mem_cells {p n i : Nat} : i ∈ cells p n ↔ p ≤ i ∧ i < p + n := by
  simp only [cells, List.mem_map, List.mem_range]
  constructor
  · rintro ⟨j, hj, rfl⟩; omega
  · rintro ⟨h1, h2⟩; exact ⟨i - p, by omega, by omega⟩

theorem store_outside (m : Nat → α) {p i : Nat} {xs : List α} (h : i < p ∨ p + xs.length ≤ i) :
    store m p xs i = m i := by
  unfold store
  split
  · rw [List.getElem?_eq_none (by omega)]; rfl
  · rfl

theorem store_inside (m : Nat → α) {p i : Nat} {xs : List α} {x : α} (h : xs[i]? = some x) :
    store m p xs (p + i) = x := by
  unfold store
  rw [if_pos (Nat.le_add_right p i), Nat.add_sub_cancel_left, h]
  rfl

@[simp] theorem store_nil (m : Nat → α) (p : Nat) : store m p [] = m := by
  funext i
  exact store_outside m (by simp only [List.length_nil]; omega)

theorem load_congr {m m' : Nat → α} {p n : Nat}
    (h : ∀ i, p ≤ i → i < p + n → m i = m' i) : load m p n = load m' p n := by
  refine List.map_congr_left fun i hi => ?_
  exact h _ (Nat.le_add_right p i) (Nat.add_lt_add_left (List.mem_range.mp hi) p)

theorem load_store_within (m : Nat → α) {p q n : Nat} {xs : List α} (hp : q ≤ p)
    (hn : p + n ≤ q + xs.length) : load (store m q xs) p n = (xs.drop (p - q)).take n := by
  have hlength : ((xs.drop (p - q)).take n).length = n := by
    rw [List.length_take, List.length_drop]
    omega
  apply List.ext_getElem (by rw [load_length, hlength])
  intro i h1 h2
  rw [load_length] at h1
  have hi : p - q + i < xs.length := by omega
  have hplace : p + i = q + (p - q + i) := by omega
  simp only [load, List.getElem_map, List.getElem_range, List.getElem_take, List.getElem_drop]
  rw [hplace]
  exact store_inside m (List.getElem?_eq_getElem hi)

theorem load_store (m : Nat → α) (p : Nat) (xs : List α) :
    load (store m p xs) p xs.length = xs := by
  rw [load_store_within m (Nat.le_refl p) (Nat.le_refl _), Nat.sub_self, List.drop_zero,
    List.take_length]

theorem load_store_disjoint (m : Nat → α) {p q n : Nat} {xs : List α}
    (h : p + n ≤ q ∨ q + xs.length ≤ p) : load (store m q xs) p n = load m p n :=
  load_congr fun _ hp hn => store_outside m (by omega)

theorem mod_inj_of_window {c s i j : Nat} (hi : s ≤ i) (hic : i < s + c) (hj : s ≤ j)
    (hjc : j < s + c) (h : i % c = j % c) : i = j := by
  rcases Nat.le_total i j with hij | hij
  · have hd := (Nat.modEq_iff_dvd' hij).mp h
    have := Nat.eq_zero_of_dvd_of_lt hd (by omega)
    omega
  · have hd := (Nat.modEq_iff_dvd' hij).mp h.symm
    have := Nat.eq_zero_of_dvd_of_lt hd (by omega)
    omega

theorem mod_add_of_lt {c a n : Nat} (h : a % c + n < c) : (a + n) % c = a % c + n := by
  rw [Nat.add_mod, Nat.mod_eq_of_lt (show n < c by omega), Nat.mod_eq_of_lt h]

theorem mod_add_of_eq {c a n : Nat} (h : a % c + n = c) : (a + n) % c = 0 := by
  rw [← Nat.mod_add_mod, h, Nat.mod_self]

/-- Behind the position `r`, at most one turn ahead of it, a smaller remainder has wrapped
around and a larger one has not. -/
theorem mod_gap_of_lt {c r w : Nat} (hrw : r ≤ w) (hw : w ≤ r + c) (h : w % c < r % c) :
    w + (r % c) = r + c + w % c ∧ w < r + c := by
  have hc : 0 < c := Nat.pos_of_ne_zero fun h0 => by subst h0; omega
  have er := Nat.mod_add_div r c
  have ew := Nat.mod_add_div w c
  have hq : w / c = r / c + 1 := by
    have h1 : r / c ≤ w / c := Nat.div_le_div_right hrw
    have h2 : w / c ≤ r / c + 1 := by
      rw [← Nat.add_div_right r hc]; exact Nat.div_le_div_right hw
    rcases Nat.lt_or_ge (r / c) (w / c) with h3 | h3
    · omega
    · have he : w / c = r / c := by omega
      rw [he] at ew
      omega
  rw [hq, Nat.mul_add, Nat.mul_one] at ew
  omega

theorem mod_gap_of_gt {c r w : Nat} (hrw : r ≤ w) (hw : w ≤ r + c) (h : r % c < w % c) :
    w + r % c = r + w % c := by
  have hc : 0 < c := Nat.pos_of_ne_zero fun h0 => by subst h0; simp at h; omega
  have er := Nat.mod_add_div r c
  have ew := Nat.mod_add_div w c
  have hq : w / c = r / c := by
    have h1 : r / c ≤ w / c := Nat.div_le_div_right hrw
    have h2 : w / c ≤ r / c + 1 := by
      rw [← Nat.add_div_right r hc]; exact Nat.div_le_div_right hw
    rcases Nat.lt_or_ge (r / c) (w / c) with h3 | h3
    · have he : w / c = r / c + 1 := by omega
      rw [he, Nat.mul_add, Nat.mul_one] at ew
      omega
    · omega
  rw [hq] at ew
  omega

/-! ### The three rules -/

theorem holds_nil (m : Nat → α) (c s : Nat) : Holds m c s [] := by
  intro i x h; simp at h

/-- **Storing behind the held elements** keeps them and holds the new ones, as long as the
ring has room and the copy does not cross its end. -/
theorem Holds.store {m : Nat → α} {c s : Nat} {xs ys : List α} (h : Holds m c s xs)
    (hroom : xs.length + ys.length ≤ c) (hend : (s + xs.length) % c + ys.length ≤ c) :
    Holds (Ring.store m ((s + xs.length) % c) ys) c s (xs ++ ys) := by
  intro i x hx
  by_cases hi : i < xs.length
  · rw [List.getElem?_append_left hi] at hx
    rw [store_outside, h i x hx]
    by_contra hin
    have hc : 0 < c := by omega
    -- the cell of an old element would be the cell of a new one
    obtain ⟨j, hj⟩ : ∃ j, (s + i) % c = (s + xs.length) % c + j :=
      ⟨_, (Nat.add_sub_of_le (by omega)).symm⟩
    have hjl : j < ys.length := by omega
    rw [← mod_add_of_lt (by omega)] at hj
    have := mod_inj_of_window (s := s) (by omega) (by omega) (by omega) (by omega) hj
    omega
  · obtain ⟨j, rfl⟩ : ∃ j, i = xs.length + j := ⟨i - xs.length, by omega⟩
    rw [List.getElem?_append_right (Nat.le_add_right _ _), Nat.add_sub_cancel_left] at hx
    have hjl : j < ys.length := by
      rw [List.getElem?_eq_some_iff] at hx; exact hx.1
    rw [← Nat.add_assoc, mod_add_of_lt (a := s + xs.length) (by omega)]
    exact store_inside m hx

/-- **Loading from the front** of the held elements gives a prefix of them. -/
theorem Holds.load {m : Nat → α} {c s n : Nat} {xs : List α} (h : Holds m c s xs)
    (hn : n ≤ xs.length) (hend : s % c + n ≤ c) : Ring.load m (s % c) n = xs.take n := by
  apply List.ext_getElem (by simp [hn])
  intro i h1 h2
  have hi : i < n := by simpa using h1
  have hx := h i xs[i] (List.getElem?_eq_getElem (by omega))
  rw [mod_add_of_lt (by omega)] at hx
  simpa [Ring.load] using hx

theorem Holds.drop {m : Nat → α} {c s : Nat} {xs : List α} (h : Holds m c s xs) (k : Nat) :
    Holds m c (s + k) (xs.drop k) := by
  intro i x hx
  rw [List.getElem?_drop] at hx
  have := h (k + i) x hx
  rwa [← Nat.add_assoc] at this

theorem Holds.take {m : Nat → α} {c s : Nat} {xs : List α} (h : Holds m c s xs) (k : Nat) :
    Holds m c s (xs.take k) := by
  intro i x hx
  rw [List.getElem?_take] at hx
  split at hx
  · exact h i x hx
  · cases hx

end Ring
