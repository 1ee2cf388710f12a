import Mathlib.Data.List.Forall2
import Tssx.Vector.Block

/-!
# A vector refines a list

`vector.Refines bytes xs`: the vector holds the list `xs`, in a block as `Vector.Block` says; a
cell that the list leaves unspecified may hold anything.  Every call that gets the memory it asks
for does to the vector what it does to the list (`Vector.Refines.perform`), so a vector that was
set up refines a list whatever calls are made.

`VectorCall.Allocates` says which calls ask for memory: an insertion into a full vector, a
deletion that leaves it empty or a quarter full, and the calls about the capacity.  Growing
doubles the capacity.  The shrink threshold is zero in `vector_pop_back`, and a quarter in
`vector_erase`, where it is written out.
-/

namespace Tssx

variable {α : Type} {vector vector' : Vector α} {xs ys zs cells : List (Option α)} {x : α}
  {index n bytes : Nat} {allocated : Bool} {call : VectorCall α} {calls : List (VectorCall α)}

/-- What a cell may hold that is to hold `x`. -/
def Meant (x cell : Option α) : Prop := x = none ∨ cell = x

def Vector.Refines (vector : Vector α) (bytes : Nat) (xs : List (Option α)) : Prop :=
  ∃ cells, vector.Block bytes cells ∧ List.Forall₂ Meant xs cells

/-- The calls that ask for memory. -/
def VectorCall.Allocates (vector : Vector α) : VectorCall α → Prop
  | pushBack _ | pushFront _ | insert _ _ => vector.size = vector.capacity
  | assign _ _ => False
  | popBack =>
    vector.size - 1 = vector.capacity * VECTOR_SHRINK_THRESHOLD ∧
      VECTOR_MINIMUM_CAPACITY < vector.capacity
  | popFront | erase _ | iteratorErase _ =>
    vector.size - 1 = vector.capacity / 4 ∧ VECTOR_MINIMUM_CAPACITY < vector.capacity
  | clear => VECTOR_MINIMUM_CAPACITY < vector.capacity
  | resize newSize =>
    (newSize = 0 ∧ VECTOR_MINIMUM_CAPACITY < vector.capacity) ∨ vector.capacity < newSize
  | reserve minimumCapacity => vector.capacity < minimumCapacity
  | shrinkToFit => Reallocates vector vector.size

instance VectorCall.decidableAllocates (vector : Vector α) :
    ∀ call : VectorCall α, Decidable (call.Allocates vector)
  | pushBack _ | pushFront _ | insert _ _ =>
    inferInstanceAs (Decidable (vector.size = vector.capacity))
  | assign _ _ => inferInstanceAs (Decidable False)
  | popBack | popFront | erase _ | iteratorErase _ => inferInstanceAs (Decidable (_ ∧ _))
  | clear => inferInstanceAs (Decidable (VECTOR_MINIMUM_CAPACITY < vector.capacity))
  | resize _ => inferInstanceAs (Decidable (_ ∧ _ ∨ _))
  | reserve minimumCapacity => inferInstanceAs (Decidable (vector.capacity < minimumCapacity))
  | shrinkToFit => inferInstanceAs (Decidable (Reallocates vector vector.size))

/-- What shows of a list: the elements it specifies are those that `vector_get` gets, and the block
has room for as many as the capacity says. -/
structure Vector.Represents (vector : Vector α) (xs : List (Option α)) : Prop where
  size : vector.size = xs.length
  capacity : vector.size ≤ vector.capacity
  block : ∃ cells, vector.data = some cells ∧ cells.length = vector.capacity
  get : ∀ index x, xs[index]? = some (some x) → vectorGet vector index = some (some x)

/-- A call that succeeds. -/
def VectorCall.step (vector : Vector α) (call : VectorCall α) : Option (Vector α) :=
  (call.perform true vector).bind fun (code, vector) =>
    if code = VECTOR_SUCCESS then some vector else none

/-! ### Lists and what they leave unspecified -/

theorem Meant.refl (x : Option α) : Meant x x := .inr rfl

theorem meant_refl (xs : List (Option α)) : List.Forall₂ Meant xs xs :=
  List.forall₂_same.mpr fun x _ => .refl x

theorem meant_append (h : List.Forall₂ Meant xs cells) (hy : List.Forall₂ Meant ys zs) :
    List.Forall₂ Meant (xs ++ ys) (cells ++ zs) := List.rel_append h hy

theorem meant_trans (h : List.Forall₂ Meant xs ys) (hy : List.Forall₂ Meant ys zs) :
    List.Forall₂ Meant xs zs := by
  induction h generalizing zs with
  | nil => exact hy
  | cons hx _ ih =>
    cases hy with
    | cons hc hrest =>
      refine .cons ?_ (ih hrest)
      rcases hx with rfl | rfl
      · exact .inl rfl
      · exact hc

/-- A cell of the list that is specified is the cell of the block. -/
theorem meant_get (h : List.Forall₂ Meant xs cells) (hx : xs[index]? = some (some x)) :
    cells[index]? = some (some x) := by
  induction h generalizing index with
  | nil => cases hx
  | cons hc _ ih =>
    cases index with
    | zero =>
      obtain rfl := Option.some.inj hx
      rcases hc with hc | rfl
      · cases hc
      · rfl
    | succ index => exact ih hx

theorem meant_replicate (cells : List (Option α)) (hn : cells.length = n) :
    List.Forall₂ Meant (List.replicate n none) cells := by
  subst hn
  induction cells with
  | nil => exact .nil
  | cons cell cells ih => exact .cons (.inl rfl) ih

theorem meant_erase (h : List.Forall₂ Meant xs cells) (index : Nat) :
    List.Forall₂ Meant (xs.eraseIdx index) (cells.eraseIdx index) := by
  rw [List.eraseIdx_eq_take_drop_succ, List.eraseIdx_eq_take_drop_succ]
  exact meant_append (List.forall₂_take _ h) (List.forall₂_drop _ h)

theorem meant_insert (h : List.Forall₂ Meant xs cells) (index : Nat) (x : α) :
    List.Forall₂ Meant (xs.insertIdx index (some x)) (cells.insertIdx index (some x)) := by
  induction h generalizing index with
  | nil => exact meant_refl _
  | cons hc hrest ih =>
    cases index with
    | zero => exact .cons (.refl _) (.cons hc hrest)
    | succ index => exact .cons hc (ih index)

theorem meant_set (h : List.Forall₂ Meant xs cells) (index : Nat) (x : α) :
    List.Forall₂ Meant (xs.set index (some x)) (cells.set index (some x)) := by
  induction h generalizing index with
  | nil => exact .nil
  | cons hc hrest ih =>
    cases index with
    | zero => exact .cons (.refl _) hrest
    | succ index => exact .cons hc (ih index)

/-- A call does the same to a list that says more. -/
theorem VectorCall.apply_meant (call : VectorCall α) (h : List.Forall₂ Meant xs cells) :
    List.Forall₂ Meant (call.apply xs) (call.apply cells) := by
  cases call with
  | pushBack x => exact meant_append h (meant_refl _)
  | pushFront x => exact .cons (.refl _) h
  | insert index x => exact meant_insert h index x
  | assign index x => exact meant_set h index x
  | popBack =>
    unfold apply
    rw [List.dropLast_eq_take, List.dropLast_eq_take, h.length_eq]
    exact List.forall₂_take _ h
  | popFront =>
    unfold apply
    rw [← List.drop_one, ← List.drop_one]
    exact List.forall₂_drop _ h
  | erase index | iteratorErase index => exact meant_erase h index
  | clear => exact .nil
  | resize newSize =>
    unfold apply
    rw [h.length_eq]
    exact meant_append (List.forall₂_take _ h) (meant_refl _)
  | reserve _ | shrinkToFit => exact h

/-! ### The operations -/

namespace Vector.Block

theorem grow (h : vector.Block bytes cells)
    (ha : vector.size = vector.capacity → allocated = true) :
    ∃ grown, (if (vector.size == vector.capacity) = true then
        vectorAdjustCapacity allocated vector
      else some (VECTOR_SUCCESS, vector)) = some (VECTOR_SUCCESS, grown) ∧
      grown.Block bytes cells ∧ grown.size < grown.capacity := by
  have hmin := h.capacity
  rw [VECTOR_MINIMUM_CAPACITY] at hmin
  by_cases hfull : vector.size = vector.capacity
  · obtain rfl := ha hfull
    obtain ⟨grown, hr, hg, hc⟩ := h.adjustCapacity (.inl (by
      rw [VECTOR_MINIMUM_CAPACITY, VECTOR_GROWTH_FACTOR]
      omega))
    refine ⟨grown, by rw [beq_iff_eq.mpr hfull, if_pos rfl, hr], hg, ?_⟩
    rw [hg.size, ← h.size, hc, VECTOR_GROWTH_FACTOR]
    omega
  · exact ⟨vector, by simp [hfull], h, Nat.lt_of_le_of_ne h.size_le hfull⟩

theorem pushBack (h : vector.Block bytes cells)
    (ha : vector.size = vector.capacity → allocated = true) (x : α) :
    ∃ vector', vectorPushBack allocated vector x = some (VECTOR_SUCCESS, vector') ∧
      vector'.Block bytes (cells ++ [some x]) := by
  obtain ⟨grown, hgrow, hg, hroom⟩ := h.grow ha
  obtain ⟨stored, hstore, hs, -⟩ := hg.push hroom x
  refine ⟨_, ?_, hs⟩
  rw [vectorPushBack, h.shouldGrow, Option.bind_some, hgrow, Option.bind_some]
  simp only
  rw [if_neg (by decide), hstore, Option.map_some]

theorem insertion (h : vector.Block bytes cells)
    (ha : vector.size = vector.capacity → allocated = true) (hi : index ≤ cells.length) (x : α) :
    ∃ vector', vectorInsert allocated vector index x = some (VECTOR_SUCCESS, vector') ∧
      vector'.Block bytes (cells.insertIdx index (some x)) := by
  obtain ⟨grown, hgrow, hg, hroom⟩ := h.grow ha
  obtain ⟨moved, stored, hmove, hstore, hs, -⟩ := hg.insert hroom hi x
  refine ⟨_, ?_, hs⟩
  rw [vectorInsert, if_neg (by rw [h.size]; omega), if_neg h.nonzero, h.shouldGrow,
    Option.bind_some, hgrow, Option.bind_some]
  simp only
  rw [if_neg (by decide), hmove, Option.bind_some]
  simp only
  rw [if_neg (by decide), hstore, Option.map_some]

theorem assign (h : vector.Block bytes cells) (hi : index < cells.length) (x : α) :
    ∃ vector', vectorAssign vector index x = some (VECTOR_SUCCESS, vector') ∧
      vector'.Block bytes (cells.set index (some x)) := by
  obtain ⟨stored, hstore, hs, -⟩ := h.store hi x
  refine ⟨stored, ?_, hs⟩
  rw [vectorAssign, if_neg (by rw [h.size]; omega), if_neg h.nonzero, hstore, Option.map_some]

theorem shrink (h : vector.Block bytes cells)
    (ha : Reallocates vector (max 1 (vector.size * VECTOR_GROWTH_FACTOR)) → allocated = true) :
    ∃ shrunk, vectorAdjustCapacity allocated vector = some (VECTOR_SUCCESS, shrunk) ∧
      shrunk.Block bytes cells := by
  by_cases hr : Reallocates vector (max 1 (vector.size * VECTOR_GROWTH_FACTOR))
  · obtain rfl := ha hr
    obtain ⟨shrunk, hs, hb, -⟩ := h.adjustCapacity hr
    exact ⟨shrunk, hs, hb⟩
  · exact ⟨vector, reallocate_nothing hr, h⟩

theorem popBack (h : vector.Block bytes cells)
    (ha : VectorCall.popBack.Allocates vector → allocated = true) (hpos : cells ≠ []) :
    ∃ vector', vectorPopBack allocated vector = some (VECTOR_SUCCESS, vector') ∧
      vector'.Block bytes cells.dropLast := by
  have hd := h.dropLast hpos
  have hsize : vector.size ≠ 0 := by
    rw [h.size]
    exact fun hn => hpos (List.eq_nil_of_length_eq_zero hn)
  have hshrink : vectorShouldShrink { vector with size := vector.size - 1 } =
      some (vector.size - 1 == vector.capacity * VECTOR_SHRINK_THRESHOLD) := if_pos hd.size_le
  rw [vectorPopBack, if_neg hsize, if_neg h.nonzero]
  simp only [hshrink, Option.bind_some]
  by_cases hone : vector.size - 1 = vector.capacity * VECTOR_SHRINK_THRESHOLD
  · have ha' : Reallocates { vector with size := vector.size - 1 }
        (max 1 ((vector.size - 1) * VECTOR_GROWTH_FACTOR)) → allocated = true := by
      rintro (hr | hr)
      · rw [VECTOR_MINIMUM_CAPACITY, VECTOR_GROWTH_FACTOR] at hr
        rw [show VECTOR_SHRINK_THRESHOLD = 0 from rfl] at hone
        omega
      · exact ha ⟨hone, hr⟩
    obtain ⟨shrunk, hs, hb⟩ := hd.shrink ha'
    exact ⟨shrunk, by rw [beq_iff_eq.mpr hone, if_pos rfl, hs, Option.map_some], hb⟩
  · exact ⟨_, by simp [hone], hd⟩

theorem erase (h : vector.Block bytes cells)
    (ha : (VectorCall.erase index).Allocates vector → allocated = true)
    (hi : index < cells.length) :
    ∃ vector', vectorErase allocated vector index = some (VECTOR_SUCCESS, vector') ∧
      vector'.Block bytes (cells.eraseIdx index) := by
  obtain ⟨moved, hm, hb, hsize, hcapacity⟩ := h.moveLeft hi
  rw [vectorErase, if_neg (by rw [h.size]; omega), if_neg h.nonzero, hm]
  simp only [Option.bind_some]
  by_cases hquarter : moved.size - 1 = moved.capacity / 4
  · have ha' : Reallocates { moved with size := moved.size - 1 }
        (max 1 ((moved.size - 1) * VECTOR_GROWTH_FACTOR)) → allocated = true := by
      intro hr
      refine ha ⟨by rw [← hsize, ← hcapacity]; exact hquarter, ?_⟩
      rw [← hcapacity]
      rcases hr with hr | hr
      · rw [VECTOR_MINIMUM_CAPACITY, VECTOR_GROWTH_FACTOR] at hr
        rw [VECTOR_MINIMUM_CAPACITY]
        omega
      · exact hr
    obtain ⟨shrunk, hs, hshrunk⟩ := hb.shrink ha'
    exact ⟨shrunk, by rw [if_pos hquarter, hs, Option.map_some], hshrunk⟩
  · exact ⟨_, by rw [if_neg hquarter], hb⟩

theorem iteratorErase (h : vector.Block bytes cells)
    (ha : (VectorCall.erase index).Allocates vector → allocated = true)
    (hi : index < cells.length) :
    ∃ vector', Tssx.iteratorErase allocated vector index = some (VECTOR_SUCCESS, vector') ∧
      vector'.Block bytes (cells.eraseIdx index) := by
  obtain ⟨vector', he, hb⟩ := h.erase ha hi
  have hle : index ≤ vector'.size := by
    rw [hb.size, List.length_eraseIdx, if_pos hi]
    omega
  refine ⟨vector', ?_, hb⟩
  rw [Tssx.iteratorErase, he, Option.bind_some]
  simp only
  rw [if_neg (by decide), if_pos ⟨hb.isInitialized, hle⟩]

theorem sized (h : vector.Block bytes cells) (hn : n ≤ vector.capacity) :
    ∃ cells', { vector with size := n }.Block bytes cells' ∧
      List.Forall₂ Meant ((VectorCall.resize n).apply cells) cells' := by
  obtain ⟨free, hd, hc⟩ := h.data
  have hcells : vector.data = some ((cells ++ free).take n ++ (cells ++ free).drop n) := by
    rw [hd, List.take_append_drop]
  refine ⟨(cells ++ free).take n, h.resized hcells ?_, ?_⟩
  · rw [List.length_take, List.length_append, hc, Nat.min_eq_left hn]
  · rw [List.take_append]
    refine meant_append (meant_refl _) (meant_replicate _ ?_)
    rw [List.length_take]
    omega

theorem grown_eq (h : vector.Block bytes cells) (hfit : (VectorCall.resize (α := α) n).Fits bytes) :
    sizeT (n * VECTOR_GROWTH_FACTOR : Nat) = n * VECTOR_GROWTH_FACTOR := by
  have hle : n * VECTOR_GROWTH_FACTOR ≤ n * VECTOR_GROWTH_FACTOR * bytes :=
    Nat.le_mul_of_pos_right _ (Nat.pos_of_ne_zero h.positive)
  have hlt : n * VECTOR_GROWTH_FACTOR * bytes < 2 ^ 64 := hfit
  unfold sizeT
  omega

theorem resize (h : vector.Block bytes cells) (h2 : VECTOR_MINIMUM_CAPACITY * bytes < 2 ^ 64)
    (ha : (VectorCall.resize n).Allocates vector →
      allocated = true ∧ (VectorCall.resize (α := α) n).Fits bytes) :
    ∃ vector' cells', vectorResize allocated vector n = some (VECTOR_SUCCESS, vector') ∧
      vector'.Block bytes cells' ∧
      List.Forall₂ Meant ((VectorCall.resize n).apply cells) cells' := by
  have h2' : VECTOR_MINIMUM_CAPACITY * vector.elementSize < 2 ^ 64 := by rwa [h.elementSize]
  unfold vectorResize
  by_cases hzero : n = 0
  · subst hzero
    obtain ⟨cells', hb, hm⟩ := h.sized (Nat.zero_le vector.capacity)
    obtain ⟨vector', hr, hb'⟩ : ∃ vector',
        vectorReallocate64 allocated { vector with size := 0 } 0 = some (VECTOR_SUCCESS, vector') ∧
          vector'.Block bytes cells' := by
      have heq : vectorReallocate64 allocated { vector with size := 0 } 0 =
          vectorReallocate allocated { vector with size := 0 } 0 :=
        reallocate64_eq hb.nonzero (by rw [Nat.zero_mul]; decide) h2'
      rw [heq]
      by_cases hr : Reallocates { vector with size := 0 } 0
      · obtain ⟨rfl, -⟩ := ha (.inl ⟨rfl, hr.resolve_left (by decide)⟩)
        obtain ⟨shrunk, hs, hb', -⟩ := hb.reallocate hr (by rw [← hb.size])
        exact ⟨shrunk, hs, hb'⟩
      · exact ⟨_, reallocate_nothing hr, hb⟩
    refine ⟨vector', cells', ?_, hb', hm⟩
    have hsize : { vector' with size := 0 } = vector' := by
      rw [show 0 = vector'.size from hb.size.trans hb'.size.symm]
    rw [if_pos (Nat.zero_le _), show sizeT (0 * VECTOR_GROWTH_FACTOR : Nat) = 0 from rfl, hr,
      Option.map_some]
    simp only
    rw [if_neg (by decide), hsize]
  · dsimp only
    rw [if_neg (by rw [show VECTOR_SHRINK_THRESHOLD = 0 from rfl]; omega)]
    by_cases hgrow : vector.capacity < n
    · obtain ⟨rfl, hfit⟩ := ha (.inr hgrow)
      have hmin := h.capacity
      have hle := h.size_le
      rw [h.size] at hle
      rw [VECTOR_MINIMUM_CAPACITY] at hmin
      obtain ⟨grown, hr, hb, hc⟩ := h.reallocate (n := n * VECTOR_GROWTH_FACTOR)
        (.inl (by rw [VECTOR_MINIMUM_CAPACITY, VECTOR_GROWTH_FACTOR]; omega))
        (by rw [VECTOR_GROWTH_FACTOR]; omega)
      obtain ⟨cells', hb', hm⟩ := hb.sized (n := n) (by rw [hc, VECTOR_GROWTH_FACTOR]; omega)
      refine ⟨_, cells', ?_, hb', hm⟩
      rw [if_pos hgrow, h.grown_eq hfit,
        reallocate64_eq h.nonzero (by rw [h.elementSize]; exact hfit) h2', hr]
      rfl
    · obtain ⟨cells', hb', hm⟩ := h.sized (Nat.le_of_not_lt hgrow)
      exact ⟨_, cells', by rw [if_neg hgrow], hb', hm⟩

theorem reserve (h : vector.Block bytes cells) (h2 : VECTOR_MINIMUM_CAPACITY * bytes < 2 ^ 64)
    (ha : vector.capacity < n → allocated = true ∧ n * bytes < 2 ^ 64) :
    ∃ vector', vectorReserve allocated vector n = some (VECTOR_SUCCESS, vector') ∧
      vector'.Block bytes cells := by
  unfold vectorReserve
  by_cases hgrow : vector.capacity < n
  · obtain ⟨rfl, hfit⟩ := ha hgrow
    have hle := h.size_le
    rw [h.size] at hle
    obtain ⟨grown, hr, hb, -⟩ := h.reallocate (.inl (Nat.le_trans h.capacity (Nat.le_of_lt hgrow)))
      (Nat.le_trans hle (Nat.le_of_lt hgrow))
    refine ⟨grown, ?_, hb⟩
    rw [if_pos hgrow, reallocate64_eq h.nonzero (by rwa [h.elementSize]) (by rwa [h.elementSize]),
      hr]
    rfl
  · exact ⟨vector, by rw [if_neg hgrow], h⟩

theorem shrinkToFit (h : vector.Block bytes cells)
    (ha : Reallocates vector vector.size → allocated = true) :
    ∃ vector', vectorShrinkToFit allocated vector = some (VECTOR_SUCCESS, vector') ∧
      vector'.Block bytes cells := by
  unfold vectorShrinkToFit
  by_cases hr : Reallocates vector vector.size
  · obtain rfl := ha hr
    obtain ⟨fitted, hs, hb, -⟩ := h.reallocate hr (Nat.le_of_eq h.size.symm)
    exact ⟨fitted, hs, hb⟩
  · exact ⟨vector, reallocate_nothing hr, h⟩

end Vector.Block

/-! ### A call, and a run of calls -/

/-- **A call does to the vector what it does to the list**, if it gets the memory that it asks
for. -/
theorem Vector.Refines.perform (h : vector.Refines bytes xs)
    (h2 : VECTOR_MINIMUM_CAPACITY * bytes < 2 ^ 64) (hw : call.Within xs.length)
    (ha : call.Allocates vector → allocated = true ∧ call.Fits bytes) :
    ∃ vector', call.perform allocated vector = some (VECTOR_SUCCESS, vector') ∧
      vector'.Refines bytes (call.apply xs) := by
  obtain ⟨cells, hb, hm⟩ := h
  have happly := call.apply_meant hm
  rw [hm.length_eq] at hw
  -- every call but a growing one leaves the cells of the list
  have hdone : ∀ {r : Option (Int × Vector α)}, (∃ vector', r = some (VECTOR_SUCCESS, vector') ∧
      vector'.Block bytes (call.apply cells)) →
      ∃ vector', r = some (VECTOR_SUCCESS, vector') ∧ vector'.Refines bytes (call.apply xs) := by
    rintro r ⟨vector', hr, hb'⟩
    exact ⟨vector', hr, _, hb', happly⟩
  cases call with
  | pushBack x => exact hdone (hb.pushBack (fun hc => (ha hc).1) x)
  | pushFront x => exact hdone (hb.insertion (fun hc => (ha hc).1) (Nat.zero_le _) x)
  | insert index x => exact hdone (hb.insertion (fun hc => (ha hc).1) hw x)
  | assign index x => exact hdone (hb.assign hw x)
  | popBack => exact hdone (hb.popBack (fun hc => (ha hc).1) (List.ne_nil_of_length_pos hw))
  | popFront =>
    obtain ⟨vector', hr, hb'⟩ := hb.erase (fun hc => (ha hc).1) hw
    rw [List.eraseIdx_zero] at hb'
    exact hdone ⟨vector', hr, hb'⟩
  | erase index => exact hdone (hb.erase (fun hc => (ha hc).1) hw)
  | iteratorErase index => exact hdone (hb.iteratorErase (fun hc => (ha hc).1) hw)
  | clear =>
    obtain ⟨vector', cells', hr, hb', hm'⟩ := hb.resize (n := 0) h2 fun hc =>
      ⟨(ha (hc.elim And.right fun hlt => absurd hlt (Nat.not_lt_zero _))).1, by
        simp [VectorCall.Fits]⟩
    refine ⟨vector', hr, cells', hb', ?_⟩
    simpa [VectorCall.apply] using hm'
  | resize n =>
    obtain ⟨vector', cells', hr, hb', hm'⟩ := hb.resize h2 ha
    exact ⟨vector', hr, cells', hb', meant_trans happly hm'⟩
  | reserve n => exact hdone (hb.reserve h2 ha)
  | shrinkToFit => exact hdone (hb.shrinkToFit (fun hc => (ha hc).1))

theorem Vector.Refines.represents (h : vector.Refines bytes xs) :
    VECTOR_MINIMUM_CAPACITY ≤ vector.capacity ∧ vector.Represents xs := by
  obtain ⟨cells, hb, hm⟩ := h
  obtain ⟨free, hd, hc⟩ := hb.data
  refine ⟨hb.capacity, hb.size.trans hm.length_eq.symm, hb.size_le, ⟨_, hd, ?_⟩, ?_⟩
  · rw [List.length_append, hc]
  · intro index x hx
    have hcell := meant_get hm hx
    obtain ⟨hlt, -⟩ := List.getElem?_eq_some_iff.mp hcell
    rw [hb.get hlt, hcell]
    rfl

theorem Vector.Refines.step (h : vector.Refines bytes xs)
    (h2 : VECTOR_MINIMUM_CAPACITY * bytes < 2 ^ 64) (hc : call.Valid bytes xs) :
    ∃ vector', call.step vector = some vector' ∧ vector'.Refines bytes (call.apply xs) := by
  obtain ⟨vector', hr, h'⟩ := h.perform h2 hc.1 fun _ => ⟨rfl, hc.2⟩
  exact ⟨vector', by rw [VectorCall.step, hr]; rfl, h'⟩

theorem Vector.Refines.run (h : vector.Refines bytes xs)
    (h2 : VECTOR_MINIMUM_CAPACITY * bytes < 2 ^ 64)
    (hcalls : Run.Meets (fun xs call => some (VectorCall.apply xs call)) (VectorCall.Valid bytes)
      xs calls) :
    ∃ vector', Run.run VectorCall.step vector calls = some vector' ∧
      vector'.Refines bytes (calls.foldl VectorCall.apply xs) := by
  have hstep : ∀ (vector : Vector α) xs call, vector.Refines bytes xs →
      VectorCall.Valid bytes xs call →
      ∃ vector', VectorCall.step vector call = some vector' ∧
        vector'.Refines bytes (VectorCall.apply xs call) :=
    fun vector xs call h hc => h.step h2 hc
  exact Run.foldl_of_spec hstep h hcalls

theorem Vector.Refines.setup {capacity : Nat} (hb : bytes ≠ 0)
    (hfit : max VECTOR_MINIMUM_CAPACITY capacity * bytes < 2 ^ 64) :
    (vectorSetup (α := α) true capacity bytes).2.Refines bytes [] ∧
      VECTOR_MINIMUM_CAPACITY * bytes < 2 ^ 64 :=
  ⟨⟨[], (Vector.Block.setup capacity hb).2, .nil⟩,
    Nat.lt_of_le_of_lt (Nat.mul_le_mul_right _ (Nat.le_max_left _ _)) hfit⟩

/-- **A vector refines a list.**  After any calls that respect the assertions and ask for no more
than `size_t` bytes, the vector has the elements of the list, and room for them in its block; every
store and every move of the calls was inside of it. -/
theorem vector_refines_list (capacity bytes : Nat) (calls : List (VectorCall α)) (hb : bytes ≠ 0)
    (hfit : max VECTOR_MINIMUM_CAPACITY capacity * bytes < 2 ^ 64)
    (hcalls : Run.Meets (fun xs call => some (VectorCall.apply xs call)) (VectorCall.Valid bytes)
      [] calls) :
    (vectorSetup (α := α) true capacity bytes).1 = VECTOR_SUCCESS ∧
      ∃ vector, Run.run VectorCall.step (vectorSetup true capacity bytes).2 calls = some vector ∧
        VECTOR_MINIMUM_CAPACITY ≤ vector.capacity ∧
        vector.Represents (calls.foldl VectorCall.apply []) := by
  obtain ⟨hstart, h2⟩ := Vector.Refines.setup (α := α) hb hfit
  obtain ⟨vector, hrun, hr⟩ := hstart.run h2 hcalls
  exact ⟨(Vector.Block.setup capacity hb).1, vector, hrun, hr.represents⟩

/-- The block grows, shrinks and is emptied. -/
theorem grownThenEmptied_refines :
    ∃ vector, Run.run VectorCall.step (vectorSetup (α := Nat) true 0 4).2
        [.pushBack 2, .pushFront 1, .insert 2 5, .assign 2 3, .erase 0, .resize 6, .popBack,
          .popFront, .reserve 20, .shrinkToFit, .clear, .pushBack 7] = some vector ∧
      vectorGet vector 0 = some (some 7) := by
  obtain ⟨-, vector, hrun, -, hrep⟩ := vector_refines_list (α := Nat) 0 4
    [.pushBack 2, .pushFront 1, .insert 2 5, .assign 2 3, .erase 0, .resize 6, .popBack,
      .popFront, .reserve 20, .shrinkToFit, .clear, .pushBack 7] (by decide) (by decide) (by decide)
  exact ⟨vector, hrun, hrep.get 0 7 rfl⟩

end Tssx
