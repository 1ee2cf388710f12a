import Tssx.Vector.Block

/-!
# What a vector holds

`vector.Holds xs`: the vector is set up, and its elements are those of the list `xs`.  There is
one theorem for each operation, which says what it does to the list, and what is left of the
vector where its allocation fails: an initialised vector loses its elements if it cannot grow or
shrink.
-/

namespace Tssx

variable {α : Type} {vector vector' : Vector α} {xs : List α} {x : α} {index : Nat}
  {allocated : Bool} {code : Int}

/-- The elements are `xs`, in the cells below `size`. -/
structure Vector.Holds (vector : Vector α) (xs : List α) : Prop where
  size : vector.size = xs.length
  capacity : VECTOR_MINIMUM_CAPACITY ≤ vector.capacity
  elementSize : vector.elementSize ≠ 0
  data : ∃ free, vector.data = some (xs.map some ++ free) ∧
    xs.length + free.length = vector.capacity

theorem Vector.Holds.block (h : vector.Holds xs) :
    vector.Block vector.elementSize (xs.map some) := by
  obtain ⟨free, hd, hc⟩ := h.data
  refine { size := ?_, capacity := h.capacity, elementSize := rfl, positive := h.elementSize,
           data := ⟨free, hd, ?_⟩ }
  · rw [List.length_map, h.size]
  · rw [List.length_map, hc]

theorem Vector.Block.holds {bytes : Nat} (h : vector.Block bytes (xs.map some)) :
    vector.Holds xs := by
  obtain ⟨free, hd, hc⟩ := h.data
  rw [List.length_map] at hc
  exact { size := h.size.trans (List.length_map some), capacity := h.capacity,
          elementSize := h.nonzero, data := ⟨free, hd, hc⟩ }

namespace Vector.Holds

theorem initialized (h : vector.Holds xs) : vector.data ≠ none := h.block.initialized

theorem size_le (h : vector.Holds xs) : vector.size ≤ vector.capacity := h.block.size_le

theorem elements (h : vector.Holds xs) : vector.elements = xs := by
  obtain ⟨free, hd, -⟩ := h.data
  rw [Vector.elements, hd, h.size, Option.getD_some, List.take_left' (by simp),
    List.filterMap_map]
  exact List.filterMap_some

theorem each (h : vector.Holds xs) : vectorEach vector = some xs := by
  obtain ⟨free, hd, -⟩ := h.data
  have hcells : (xs.map some).mapM id = some xs := by
    rw [List.mapM_map]
    exact List.mapM_pure.trans (congrArg some (List.map_id' xs))
  rw [vectorEach, hd, Option.bind_some, h.size, if_neg (by simp), List.take_left' (by simp)]
  exact hcells

theorem find (h : vector.Holds xs) (p : α → Bool) :
    vectorFind vector p =
      some ((xs.findIdx? p).bind fun index => xs[index]?.map fun x => (index, x)) := by
  obtain ⟨free, hd, -⟩ := h.data
  rw [vectorFind, hd, Option.map_some, h.size, List.take_left' (by simp), List.findIdx?_map]
  have hp : ((fun cell : Option α => cell.any p) ∘ some) = p := rfl
  rw [hp]
  congr 1
  cases hi : xs.findIdx? p with
  | none => rfl
  | some index =>
    obtain ⟨hlt, -⟩ := List.findIdx?_eq_some_iff_getElem.mp hi
    simp [List.getElem?_append_left, hlt]

theorem get (h : vector.Holds xs) (hx : xs[index]? = some x) :
    vectorGet vector index = some (some x) := by
  obtain ⟨hlt, -⟩ := List.getElem?_eq_some_iff.mp hx
  rw [h.block.get (by rwa [List.length_map]), List.getElem?_map, hx]
  rfl

theorem back (h : vector.Holds (xs ++ [x])) : vectorBack vector = some (some x) := by
  obtain ⟨free, hd, -⟩ := h.data
  have hsize : vector.size = xs.length + 1 := by simp [h.size]
  rw [vectorBack, if_neg (by omega), vectorGet, if_neg (by omega), if_neg h.elementSize, hd,
    hsize]
  simp

theorem store (h : vector.Holds xs) (hi : index < xs.length) (x : α) :
    ∃ vector', vectorStore vector index x = some vector' ∧ vector'.Holds (xs.set index x) := by
  obtain ⟨stored, hstore, hb, -⟩ := h.block.store (by rwa [List.length_map]) x
  rw [← List.map_set] at hb
  exact ⟨stored, hstore, hb.holds⟩

/-! ### Allocation -/

theorem setup (capacity : Nat) {elementSize : Nat} (he : elementSize ≠ 0) :
    (vectorSetup (α := α) true capacity elementSize).1 = VECTOR_SUCCESS ∧
      (vectorSetup (α := α) true capacity elementSize).2.Holds [] := by
  have hb : (vectorSetup (α := α) true capacity elementSize).2.Block elementSize ([].map some) :=
    (Block.setup capacity he).2
  exact ⟨rfl, hb.holds⟩

/-- The elements are moved to the new block, or lost if there is none. -/
theorem reallocate (h : vector.Holds xs) {newCapacity : Nat} (hn : xs.length ≤ newCapacity)
    (allocated : Bool) :
    ∃ code vector', vectorReallocate allocated vector newCapacity = some (code, vector') ∧
      ((code = VECTOR_SUCCESS ∧ vector'.Holds xs ∧ newCapacity ≤ vector'.capacity) ∨
        (allocated = false ∧ code = VECTOR_ERROR ∧ vector' = vectorDestroy vector)) := by
  by_cases hr : Reallocates vector newCapacity
  · cases allocated with
    | false => exact ⟨_, _, reallocate_fails hr, .inr ⟨rfl, rfl, rfl⟩⟩
    | true =>
      obtain ⟨grown, hg, hb, hc⟩ := h.block.reallocate hr (by rwa [List.length_map])
      exact ⟨_, _, hg, .inl ⟨rfl, hb.holds, hc ▸ Nat.le_max_left ..⟩⟩
  · refine ⟨_, _, reallocate_nothing hr, .inl ⟨rfl, h, ?_⟩⟩
    rw [reallocates_iff, not_not] at hr
    exact Nat.le_of_lt (Nat.lt_of_lt_of_le hr.1 h.capacity)

theorem shouldGrow (h : vector.Holds xs) :
    vectorShouldGrow vector = some (vector.size == vector.capacity) := h.block.shouldGrow

theorem adjustCapacity (h : vector.Holds xs) (allocated : Bool) :
    ∃ code vector', vectorAdjustCapacity allocated vector = some (code, vector') ∧
      ((code = VECTOR_SUCCESS ∧ vector'.Holds xs ∧ 2 * xs.length ≤ vector'.capacity) ∨
        (allocated = false ∧ code = VECTOR_ERROR ∧ vector' = vectorDestroy vector)) := by
  have hn : 2 * xs.length ≤ max 1 (vector.size * VECTOR_GROWTH_FACTOR) := by
    rw [h.size, VECTOR_GROWTH_FACTOR]
    omega
  have hn' : xs.length ≤ max 1 (vector.size * VECTOR_GROWTH_FACTOR) := by omega
  obtain ⟨code, vector', hr, hcase⟩ := h.reallocate hn' allocated
  refine ⟨code, vector', hr, hcase.imp_left ?_⟩
  rintro ⟨hcode, hh, hc⟩
  exact ⟨hcode, hh, by omega⟩

/-! ### Insertion and deletion -/

theorem push (h : vector.Holds xs) (hroom : vector.size < vector.capacity) (x : α) :
    ∃ stored, vectorStore vector vector.size x = some stored ∧
      { stored with size := stored.size + 1 }.Holds (xs ++ [x]) ∧
      stored.capacity = vector.capacity := by
  obtain ⟨stored, hstore, hb, hc⟩ := h.block.push hroom x
  have happend : xs.map some ++ [some x] = (xs ++ [x]).map some := by
    rw [List.map_append, List.map_singleton]
  rw [happend] at hb
  exact ⟨stored, hstore, hb.holds, hc⟩

theorem pushBack_room (h : vector.Holds xs) (hroom : vector.size ≠ vector.capacity) (x : α)
    (allocated : Bool) :
    ∃ vector', vectorPushBack allocated vector x = some (VECTOR_SUCCESS, vector') ∧
      vector'.Holds (xs ++ [x]) ∧ vector'.capacity = vector.capacity := by
  obtain ⟨stored, hstore, hh, hc⟩ := h.push (Nat.lt_of_le_of_ne h.size_le hroom) x
  refine ⟨_, ?_, hh, hc⟩
  rw [vectorPushBack, h.shouldGrow, Option.bind_some]
  simp [hroom, hstore, VECTOR_SUCCESS, VECTOR_ERROR]

/-- A full vector doubles its capacity, or loses its elements. -/
theorem pushBack_full (h : vector.Holds xs) (hfull : vector.size = vector.capacity) (x : α) :
    (∃ vector', vectorPushBack true vector x = some (VECTOR_SUCCESS, vector') ∧
      vector'.Holds (xs ++ [x]) ∧ vector'.capacity = 2 * vector.capacity) ∧
      vectorPushBack false vector x = some (VECTOR_ERROR, vectorDestroy vector) := by
  have hmin := h.capacity
  have hfactor : max 1 (vector.size * VECTOR_GROWTH_FACTOR) = 2 * vector.capacity := by
    rw [VECTOR_MINIMUM_CAPACITY] at hmin
    rw [hfull, VECTOR_GROWTH_FACTOR]
    omega
  have hr : Reallocates vector (max 1 (vector.size * VECTOR_GROWTH_FACTOR)) :=
    .inl (by omega)
  rw [vectorPushBack, vectorPushBack, h.shouldGrow, Option.bind_some, Option.bind_some,
    beq_iff_eq.mpr hfull, if_pos rfl, if_pos rfl]
  constructor
  · obtain ⟨grown, hg, hb, hcapacity⟩ := h.block.adjustCapacity hr
    have hdouble : grown.capacity = 2 * vector.capacity := by omega
    have hsize : grown.size = vector.size := hb.size.trans h.block.size.symm
    obtain ⟨stored, hstore, hh, hc⟩ := hb.holds.push (by omega) x
    refine ⟨_, ?_, hh, hc.trans hdouble⟩
    rw [hg, Option.bind_some]
    simp only
    rw [if_neg (by decide), hstore, Option.map_some]
  · rw [vectorAdjustCapacity, reallocate_fails hr]
    rfl

/-- **Pushing appends**, or loses the elements of a full vector. -/
theorem pushBack (h : vector.Holds xs) (x : α) (allocated : Bool) :
    ∃ code vector', vectorPushBack allocated vector x = some (code, vector') ∧
      ((code = VECTOR_SUCCESS ∧ vector'.Holds (xs ++ [x])) ∨
        (allocated = false ∧ vector.size = vector.capacity ∧ code = VECTOR_ERROR ∧
          vector' = vectorDestroy vector)) := by
  by_cases hfull : vector.size = vector.capacity
  · obtain ⟨⟨vector', hp, hh, -⟩, hlost⟩ := h.pushBack_full hfull x
    cases allocated with
    | true => exact ⟨_, _, hp, .inl ⟨rfl, hh⟩⟩
    | false => exact ⟨_, _, hlost, .inr ⟨rfl, hfull, rfl, rfl⟩⟩
  · obtain ⟨vector', hp, hh, -⟩ := h.pushBack_room hfull x allocated
    exact ⟨_, _, hp, .inl ⟨rfl, hh⟩⟩

theorem dropLast (h : vector.Holds (xs ++ [x])) :
    { vector with size := vector.size - 1 }.Holds xs := by
  have hb := h.block.dropLast (by simp)
  rw [← List.map_dropLast, List.dropLast_concat] at hb
  exact hb.holds

/-- **Popping removes the last element**, and a vector that becomes empty may lose its block. -/
theorem popBack (h : vector.Holds (xs ++ [x])) (allocated : Bool) :
    ∃ vector', vectorPopBack allocated vector = some (VECTOR_SUCCESS, vector') ∧
      (vector'.Holds xs ∨ (allocated = false ∧ xs = [] ∧
        vector' = vectorDestroy { vector with size := vector.size - 1 })) := by
  have hd := h.dropLast
  have hpos : vector.size ≠ 0 := by simp [h.size]
  have hshrink : vectorShouldShrink { vector with size := vector.size - 1 } =
      some (vector.size - 1 == vector.capacity * VECTOR_SHRINK_THRESHOLD) := if_pos hd.size_le
  rw [vectorPopBack, if_neg hpos, if_neg h.elementSize]
  simp only [hshrink, Option.bind_some]
  by_cases hone : vector.size - 1 = vector.capacity * VECTOR_SHRINK_THRESHOLD
  · have hnil : xs = [] := by
      have hsize := hd.size
      rw [show VECTOR_SHRINK_THRESHOLD = 0 from rfl] at hone
      exact List.eq_nil_of_length_eq_zero (by rw [← hsize]; exact hone)
    obtain ⟨code, shrunk, hr, hcase⟩ := hd.adjustCapacity allocated
    refine ⟨shrunk, by rw [beq_iff_eq.mpr hone, if_pos rfl, hr, Option.map_some], ?_⟩
    rcases hcase with ⟨-, hh, -⟩ | ⟨ha, -, rfl⟩
    · exact .inl hh
    · exact .inr ⟨ha, hnil, rfl⟩
  · exact ⟨_, by simp [hone], .inl hd⟩

theorem moveLeft (h : vector.Holds xs) (hi : index < xs.length) :
    ∃ moved, vectorMoveLeft vector index = some moved ∧
      { moved with size := moved.size - 1 }.Holds (xs.eraseIdx index) := by
  obtain ⟨moved, hm, hb, -⟩ := h.block.moveLeft (by rwa [List.length_map])
  rw [List.eraseIdx_map] at hb
  exact ⟨moved, hm, hb.holds⟩

/-- **Erasing removes the element at the index**; an iterator to a vector without a block fails
an assertion. -/
theorem erase (h : vector.Holds xs) (hi : index < xs.length) (allocated : Bool) :
    (∃ vector', iteratorErase allocated vector index = some (VECTOR_SUCCESS, vector') ∧
      vector'.Holds (xs.eraseIdx index)) ∨
    (allocated = false ∧ iteratorErase allocated vector index = none) := by
  obtain ⟨moved, hm, hh⟩ := h.moveLeft hi
  have hlt : index ≤ (xs.eraseIdx index).length := by
    rw [List.length_eraseIdx, if_pos hi]
    omega
  have hvalid : ∀ {v : Vector α}, v.Holds (xs.eraseIdx index) →
      vectorIsInitialized v = true ∧ index ≤ v.size := fun hv =>
    ⟨Option.isSome_iff_ne_none.mpr hv.initialized, hv.size ▸ hlt⟩
  rw [iteratorErase, vectorErase, if_neg (by rw [h.size]; omega), if_neg h.elementSize, hm]
  simp only [Option.bind_some]
  by_cases hquarter : moved.size - 1 = moved.capacity / 4
  · obtain ⟨code, shrunk, hr, ⟨rfl, hs, -⟩ | ⟨ha, rfl, rfl⟩⟩ := hh.adjustCapacity allocated
    · refine .inl ⟨shrunk, ?_, hs⟩
      rw [if_pos hquarter, hr]
      simp [hvalid hs, VECTOR_SUCCESS, VECTOR_ERROR]
    · refine .inr ⟨ha, ?_⟩
      rw [if_pos hquarter, hr]
      simp [vectorDestroy, vectorIsInitialized, VECTOR_SUCCESS, VECTOR_ERROR]
  · refine .inl ⟨_, ?_, hh⟩
    simp [hquarter, hvalid hh, VECTOR_SUCCESS, VECTOR_ERROR]

end Vector.Holds

/-- A full vector that has lost its block tries to grow at every insertion, and a block that it
gets is copied to from a null pointer. -/
theorem vectorPushBack_lost (hd : vector.data = none) (hfull : vector.size = vector.capacity)
    (hc : VECTOR_MINIMUM_CAPACITY ≤ vector.capacity) (allocated : Bool) (x : α) :
    vectorPushBack allocated vector x =
      if allocated then none else some (VECTOR_ERROR, vector) := by
  rw [VECTOR_MINIMUM_CAPACITY] at hc
  have hgrow : vectorShouldGrow vector = some true := by
    rw [vectorShouldGrow, if_pos (Nat.le_of_eq hfull), beq_iff_eq.mpr hfull]
  have hsame : { vector with data := none } = vector := by
    obtain ⟨size, capacity, elementSize, data⟩ := vector
    cases hd
    rfl
  rw [vectorPushBack, hgrow, Option.bind_some, if_pos rfl, vectorAdjustCapacity, vectorReallocate,
    if_neg (by rw [VECTOR_GROWTH_FACTOR, VECTOR_MINIMUM_CAPACITY]; omega)]
  cases allocated with
  | true => simp [hd]
  | false => simp [hsame]

end Tssx
