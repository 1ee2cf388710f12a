import Tssx.Vector.Operations

/-!
# The block of a vector

`vector.Block bytes cells`: the block has as many cells of `bytes` bytes as
the capacity says, and those below `size` are `cells`.  The rules below say what each step of an
operation does to the cells, where a step is a store, a move, an allocation or a change of the
size; the operations are put together from them in the modules that follow.

A reallocation does nothing if it is asked for less than the minimum capacity and the vector has
no more than that (`Reallocates`).  It asks `malloc` otherwise, and on a failure the block is lost.
-/

namespace Tssx

variable {α : Type} {vector vector' : Vector α} {cells : List (Option α)}
  {index n bytes : Nat} {allocated : Bool}

structure Vector.Block (vector : Vector α) (bytes : Nat) (cells : List (Option α)) : Prop where
  size : vector.size = cells.length
  capacity : VECTOR_MINIMUM_CAPACITY ≤ vector.capacity
  elementSize : vector.elementSize = bytes
  positive : bytes ≠ 0
  data : ∃ free, vector.data = some (cells ++ free) ∧
    cells.length + free.length = vector.capacity

/-- `_vector_reallocate` is not a no-op. -/
def Reallocates (vector : Vector α) (newCapacity : Nat) : Prop :=
  VECTOR_MINIMUM_CAPACITY ≤ newCapacity ∨ VECTOR_MINIMUM_CAPACITY < vector.capacity

instance (vector : Vector α) (newCapacity : Nat) : Decidable (Reallocates vector newCapacity) :=
  inferInstanceAs (Decidable (_ ∨ _))

theorem reallocates_iff :
    Reallocates vector n ↔
      ¬ (n < VECTOR_MINIMUM_CAPACITY ∧ vector.capacity ≤ VECTOR_MINIMUM_CAPACITY) := by
  unfold Reallocates
  omega

theorem reallocate_nothing (h : ¬ Reallocates vector n) :
    vectorReallocate allocated vector n = some (VECTOR_SUCCESS, vector) := by
  rw [reallocates_iff, not_not] at h
  rw [vectorReallocate, if_pos h]

theorem reallocate_fails (h : Reallocates vector n) :
    vectorReallocate false vector n = some (VECTOR_ERROR, vectorDestroy vector) := by
  rw [vectorReallocate, if_neg (reallocates_iff.mp h)]
  rfl

theorem reallocate64_eq (hs : vector.elementSize ≠ 0) (hn : n * vector.elementSize < 2 ^ 64)
    (h2 : VECTOR_MINIMUM_CAPACITY * vector.elementSize < 2 ^ 64) :
    vectorReallocate64 allocated vector n = vectorReallocate allocated vector n := by
  have hfit : max n VECTOR_MINIMUM_CAPACITY * vector.elementSize < 2 ^ 64 := by
    rcases Nat.le_total n VECTOR_MINIMUM_CAPACITY with hle | hle
    · rwa [Nat.max_eq_right hle]
    · rwa [Nat.max_eq_left hle]
  have hlength : sizeT (max n VECTOR_MINIMUM_CAPACITY * vector.elementSize : Nat) /
      vector.elementSize = max n VECTOR_MINIMUM_CAPACITY := by
    have hsize : sizeT (max n VECTOR_MINIMUM_CAPACITY * vector.elementSize : Nat) =
        max n VECTOR_MINIMUM_CAPACITY * vector.elementSize := by
      unfold sizeT
      omega
    rw [hsize]
    exact Nat.mul_div_cancel _ (Nat.pos_of_ne_zero hs)
  unfold vectorReallocate64 vectorReallocate
  simp only [hlength]

theorem insertIdx_length_append {β : Type} (left right : List β) (x : β) :
    (left ++ right).insertIdx left.length x = left ++ x :: right := by
  induction left with
  | nil => rfl
  | cons y left ih => exact congrArg (y :: ·) ih

namespace Vector.Block

theorem size_le (h : vector.Block bytes cells) : vector.size ≤ vector.capacity := by
  obtain ⟨free, -, hc⟩ := h.data
  rw [h.size]
  omega

theorem initialized (h : vector.Block bytes cells) : vector.data ≠ none := by
  obtain ⟨free, hd, -⟩ := h.data
  simp [hd]

theorem nonzero (h : vector.Block bytes cells) : vector.elementSize ≠ 0 :=
  h.elementSize ▸ h.positive

theorem isInitialized (h : vector.Block bytes cells) : vectorIsInitialized vector = true :=
  Option.isSome_iff_ne_none.mpr h.initialized

theorem shouldGrow (h : vector.Block bytes cells) :
    vectorShouldGrow vector = some (vector.size == vector.capacity) := if_pos h.size_le

theorem get (h : vector.Block bytes cells) (hi : index < cells.length) :
    vectorGet vector index = cells[index]?.bind fun cell => cell.map some := by
  obtain ⟨free, hd, -⟩ := h.data
  rw [vectorGet, if_neg (by rw [h.size]; omega), if_neg h.nonzero, hd, Option.bind_some,
    List.getElem?_append_left hi]

theorem setup (capacity : Nat) (hb : bytes ≠ 0) :
    (vectorSetup (α := α) true capacity bytes).1 = VECTOR_SUCCESS ∧
      (vectorSetup (α := α) true capacity bytes).2.Block bytes [] := by
  refine ⟨rfl, rfl, Nat.le_max_left _ _, rfl, hb, _, rfl, ?_⟩
  simp [vectorSetup]

theorem resized (h : vector.Block bytes cells) {cells' free' : List (Option α)}
    (hd : vector.data = some (cells' ++ free')) (hn : cells'.length = n) :
    { vector with size := n }.Block bytes cells' := by
  obtain ⟨free, hcells, hc⟩ := h.data
  refine { size := hn.symm, capacity := h.capacity,
           elementSize := h.elementSize, positive := h.positive,
           data := ⟨free', hd, ?_⟩ }
  have hlength := congrArg List.length (Option.some.inj (hd.symm.trans hcells))
  rw [List.length_append, List.length_append] at hlength
  exact hlength.trans hc

theorem store (h : vector.Block bytes cells) (hi : index < cells.length) (x : α) :
    ∃ stored, vectorStore vector index x = some stored ∧
      stored.Block bytes (cells.set index (some x)) ∧ stored.capacity = vector.capacity := by
  obtain ⟨free, hd, hc⟩ := h.data
  rw [vectorStore, hd, Option.bind_some, if_pos (by rw [List.length_append]; omega)]
  refine ⟨_, rfl, ?_, rfl⟩
  refine { size := by simp [h.size], capacity := h.capacity,
           elementSize := h.elementSize, positive := h.positive,
           data := ⟨free, ?_, by simpa using hc⟩ }
  rw [List.set_append_left _ _ hi]

/-! ### Allocation -/

theorem reallocate (h : vector.Block bytes cells) (hr : Reallocates vector n)
    (hn : cells.length ≤ n) :
    ∃ grown, vectorReallocate true vector n = some (VECTOR_SUCCESS, grown) ∧
      grown.Block bytes cells ∧ grown.capacity = max n VECTOR_MINIMUM_CAPACITY := by
  obtain ⟨free, hd, hc⟩ := h.data
  have hmax := Nat.le_max_left n VECTOR_MINIMUM_CAPACITY
  rw [vectorReallocate, if_neg (reallocates_iff.mp hr)]
  simp only [Bool.not_true, Bool.false_eq_true, if_false, hd, Option.bind_some, h.size]
  rw [if_neg (by rw [List.length_append]; omega), List.take_left' rfl]
  refine ⟨_, rfl, ⟨rfl, Nat.le_max_right _ _, h.elementSize, h.positive, _, rfl, ?_⟩, rfl⟩
  rw [List.length_replicate]
  show cells.length + _ = max n VECTOR_MINIMUM_CAPACITY
  omega

theorem adjustCapacity (h : vector.Block bytes cells)
    (hr : Reallocates vector (max 1 (vector.size * VECTOR_GROWTH_FACTOR))) :
    ∃ grown, vectorAdjustCapacity true vector = some (VECTOR_SUCCESS, grown) ∧
      grown.Block bytes cells ∧
      grown.capacity =
        max (max 1 (vector.size * VECTOR_GROWTH_FACTOR)) VECTOR_MINIMUM_CAPACITY := by
  refine h.reallocate hr ?_
  rw [h.size, VECTOR_GROWTH_FACTOR]
  omega

/-! ### Insertion and deletion -/

theorem freeCell (h : vector.Block bytes cells) (hroom : vector.size < vector.capacity) :
    ∃ cell free, vector.data = some (cells ++ cell :: free) ∧
      cells.length + (free.length + 1) = vector.capacity := by
  obtain ⟨free, hd, hc⟩ := h.data
  rw [h.size] at hroom
  cases free with
  | nil =>
    rw [List.length_nil] at hc
    omega
  | cons cell free => exact ⟨cell, free, hd, hc⟩

theorem push (h : vector.Block bytes cells) (hroom : vector.size < vector.capacity) (x : α) :
    ∃ stored, vectorStore vector vector.size x = some stored ∧
      { stored with size := stored.size + 1 }.Block bytes (cells ++ [some x]) ∧
      stored.capacity = vector.capacity := by
  obtain ⟨cell, free, hd, hc⟩ := h.freeCell hroom
  rw [vectorStore, hd, Option.bind_some, if_pos (by simp [h.size])]
  refine ⟨_, rfl, ?_, rfl⟩
  refine { size := by simp [h.size], capacity := h.capacity,
           elementSize := h.elementSize, positive := h.positive,
           data := ⟨free, by simp [h.size], ?_⟩ }
  rw [List.length_append, List.length_singleton]
  show _ = vector.capacity
  omega

/-- The cells from the index on move to the right, over a free cell, and the new one takes the
place they leave. -/
theorem insert (h : vector.Block bytes cells) (hroom : vector.size < vector.capacity)
    (hi : index ≤ cells.length) (x : α) :
    ∃ moved stored, vectorMoveRight vector index = some (VECTOR_SUCCESS, moved) ∧
      vectorStore moved index x = some stored ∧
      { stored with size := stored.size + 1 }.Block bytes (cells.insertIdx index (some x)) ∧
      stored.capacity = vector.capacity := by
  obtain ⟨cell, free, hd, hc⟩ := h.freeCell hroom
  obtain ⟨left, right, rfl, rfl⟩ : ∃ left right, cells = left ++ right ∧ left.length = index :=
    ⟨cells.take index, cells.drop index, (List.take_append_drop index cells).symm,
      List.length_take_of_le hi⟩
  obtain ⟨first, rest, hfirst⟩ : ∃ first rest, right ++ cell :: free = first :: rest :=
    List.exists_cons_of_ne_nil (by simp)
  -- the cell at the index is in two places after the move
  have hmoved : (left ++ right ++ cell :: free).take (left.length + 1) ++
      ((left ++ right ++ cell :: free).take vector.size).drop left.length ++
      (left ++ right ++ cell :: free).drop (vector.size + 1) =
      left ++ first :: (right ++ free) := by
    have htake : (left ++ right ++ cell :: free).take (left.length + 1) = left ++ [first] := by
      rw [List.append_assoc, hfirst, List.take_length_add_append, List.take_one, List.head?_cons]
      rfl
    have hdrop : (left ++ right ++ cell :: free).drop (vector.size + 1) = free := by
      rw [h.size, List.drop_length_add_append, List.drop_succ_cons, List.drop_zero]
    rw [htake, hdrop, h.size, List.take_left' rfl, List.drop_left' rfl]
    simp
  rw [vectorMoveRight, if_neg (by rw [h.size]; omega), hd, Option.bind_some,
    if_neg (by simp [h.size]), hmoved]
  refine ⟨_, _, rfl, if_pos (by simp), ?_, rfl⟩
  refine { size := ?_, capacity := h.capacity,
           elementSize := h.elementSize, positive := h.positive,
           data := ⟨free, ?_, ?_⟩ }
  · show vector.size + 1 = _
    rw [h.size, insertIdx_length_append]
    simp only [List.length_append, List.length_cons]
    omega
  · show some ((left ++ first :: (right ++ free)).set left.length (some x)) = _
    rw [insertIdx_length_append, List.set_append_right _ _ (Nat.le_refl _), Nat.sub_self,
      List.set_cons_zero, List.append_assoc, List.cons_append]
  · show _ = vector.capacity
    rw [← hc, insertIdx_length_append]
    simp only [List.length_append, List.length_cons]
    omega

theorem dropLast (h : vector.Block bytes cells) (hpos : cells ≠ []) :
    { vector with size := vector.size - 1 }.Block bytes cells.dropLast := by
  obtain ⟨free, hd, hc⟩ := h.data
  have hcells : vector.data = some (cells.dropLast ++ cells.getLast hpos :: free) := by
    rw [hd, ← List.singleton_append, ← List.append_assoc, List.dropLast_append_getLast]
  exact h.resized hcells (by rw [List.length_dropLast, h.size])

theorem moveLeft (h : vector.Block bytes cells) (hi : index < cells.length) :
    ∃ moved, vectorMoveLeft vector index = some moved ∧
      { moved with size := moved.size - 1 }.Block bytes (cells.eraseIdx index) ∧
      moved.size = vector.size ∧ moved.capacity = vector.capacity := by
  obtain ⟨free, hd, hc⟩ := h.data
  rw [vectorMoveLeft, hd, Option.bind_some, if_neg (by simp [h.size])]
  refine ⟨_, rfl, ?_, rfl, rfl⟩
  refine { size := by simp [h.size, List.length_eraseIdx, hi], capacity := h.capacity,
           elementSize := h.elementSize, positive := h.positive,
           data := ⟨(cells ++ free).drop (cells.length - 1), ?_, ?_⟩ }
  · simp only [h.size, Option.some.injEq]
    rw [List.take_left' rfl, List.take_append_of_le_length (by omega),
      List.eraseIdx_eq_take_drop_succ]
  · rw [List.length_eraseIdx, if_pos hi, List.length_drop, List.length_append]
    show _ = vector.capacity
    omega

end Vector.Block

end Tssx
