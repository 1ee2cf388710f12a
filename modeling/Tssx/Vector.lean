import Mathlib.Data.List.Basic
import Tssx.Definitions

/-!
# Vectors

The operations of `vector.h` that the epoll instances use.  `data` is the allocated block, a
list of cells of which a fresh one holds nothing yet; it is `none` for a null pointer.  Every
operation makes one allocation at most, and takes its outcome as an argument.  A failed
assertion, or an access outside the block, is `none`.

`elements` is what can be read below `size`; the `mem_elements` lemmas say what the
operations do to it.
-/

namespace Tssx

def VECTOR_MINIMUM_CAPACITY : Nat := 2
def VECTOR_GROWTH_FACTOR : Nat := 2
/-- `(1 / 4)` is an integer division. -/
def VECTOR_SHRINK_THRESHOLD : Nat := 1 / 4

def VECTOR_ERROR : Int := -1
def VECTOR_SUCCESS : Int := 0

structure Vector (α : Type) where
  size : Nat
  capacity : Nat
  elementSize : Nat
  data : Option (List (Option α))
  deriving DecidableEq

variable {α : Type}

/-- Zero-initialised memory. -/
def Vector.zero : Vector α := { size := 0, capacity := 0, elementSize := 0, data := none }

/-- The elements below `size` that have been written. -/
def Vector.elements (vector : Vector α) : List α :=
  ((vector.data.getD []).take vector.size).filterMap id

def vectorIsInitialized (vector : Vector α) : Bool := vector.data.isSome

def vectorSetup (allocated : Bool) (capacity elementSize : Nat) : Int × Vector α :=
  let capacity := max VECTOR_MINIMUM_CAPACITY capacity
  if allocated then
    (VECTOR_SUCCESS,
      { size := 0, capacity, elementSize, data := some (List.replicate capacity none) })
  else (VECTOR_ERROR, { size := 0, capacity, elementSize, data := none })

/-- The size stays as it is. -/
def vectorDestroy (vector : Vector α) : Vector α := { vector with data := none }

def vectorReallocate (allocated : Bool) (vector : Vector α) (newCapacity : Nat) :
    Option (Int × Vector α) :=
  if newCapacity < VECTOR_MINIMUM_CAPACITY ∧ vector.capacity ≤ VECTOR_MINIMUM_CAPACITY then
    some (VECTOR_SUCCESS, vector)
  else
    let newCapacity := max newCapacity VECTOR_MINIMUM_CAPACITY
    if !allocated then some (VECTOR_ERROR, { vector with data := none })
    else
      vector.data.bind fun cells =>
        if newCapacity < vector.size ∨ cells.length < vector.size then none
        else
          some (VECTOR_SUCCESS,
            { vector with
              capacity := newCapacity
              data := some
                (cells.take vector.size ++ List.replicate (newCapacity - vector.size) none) })

def vectorAdjustCapacity (allocated : Bool) (vector : Vector α) : Option (Int × Vector α) :=
  vectorReallocate allocated vector (max 1 (vector.size * VECTOR_GROWTH_FACTOR))

def vectorShouldGrow (vector : Vector α) : Option Bool :=
  if vector.size ≤ vector.capacity then some (vector.size == vector.capacity) else none

def vectorShouldShrink (vector : Vector α) : Option Bool :=
  if vector.size ≤ vector.capacity then
    some (vector.size == vector.capacity * VECTOR_SHRINK_THRESHOLD)
  else none

/-- `_vector_assign`, a `memcpy` to the cell. -/
def vectorStore (vector : Vector α) (index : Nat) (element : α) : Option (Vector α) :=
  vector.data.bind fun cells =>
    if index < cells.length then
      some { vector with data := some (cells.set index (some element)) }
    else none

def vectorPushBack (allocated : Bool) (vector : Vector α) (element : α) :
    Option (Int × Vector α) :=
  (vectorShouldGrow vector).bind fun grow =>
    (if grow then vectorAdjustCapacity allocated vector else some (VECTOR_SUCCESS, vector)).bind
      fun (code, vector) =>
        if code = VECTOR_ERROR then some (VECTOR_ERROR, vector)
        else (vectorStore vector vector.size element).map fun vector =>
          (VECTOR_SUCCESS, { vector with size := vector.size + 1 })

/-- The result of the reallocation is not looked at. -/
def vectorPopBack (allocated : Bool) (vector : Vector α) : Option (Int × Vector α) :=
  if vector.size = 0 then none
  else if vector.elementSize = 0 then some (VECTOR_ERROR, vector)
  else
    let vector := { vector with size := vector.size - 1 }
    (vectorShouldShrink vector).bind fun shrink =>
      if shrink then
        (vectorAdjustCapacity allocated vector).map fun (_, vector) => (VECTOR_SUCCESS, vector)
      else some (VECTOR_SUCCESS, vector)

/-- `_vector_move_left`: the last cell below `size` keeps its content. -/
def vectorMoveLeft (vector : Vector α) (index : Nat) : Option (Vector α) :=
  vector.data.bind fun cells =>
    if cells.length < vector.size then none
    else
      some { vector with
        data := some (cells.take index ++ (cells.take vector.size).drop (index + 1) ++
          cells.drop (vector.size - 1)) }

def vectorErase (allocated : Bool) (vector : Vector α) (index : Nat) : Option (Int × Vector α) :=
  if vector.size ≤ index then none
  else if vector.elementSize = 0 then some (VECTOR_ERROR, vector)
  else
    (vectorMoveLeft vector index).bind fun vector =>
      let vector := { vector with size := vector.size - 1 }
      if vector.size = vector.capacity / 4 then
        (vectorAdjustCapacity allocated vector).map fun (_, vector) => (VECTOR_SUCCESS, vector)
      else some (VECTOR_SUCCESS, vector)

/-- The new iterator of `iterator_erase` asserts an initialised vector. -/
def iteratorErase (allocated : Bool) (vector : Vector α) (index : Nat) : Option (Int × Vector α) :=
  (vectorErase allocated vector index).bind fun (code, vector) =>
    if code = VECTOR_ERROR then some (code, vector)
    else if vectorIsInitialized vector ∧ index ≤ vector.size then some (VECTOR_SUCCESS, vector)
    else none

/-- `*vector_get(vector, index)`; the inner `none` is a null pointer. -/
def vectorGet (vector : Vector α) (index : Nat) : Option (Option α) :=
  if vector.size ≤ index then none
  else if vector.elementSize = 0 then some none
  else vector.data.bind fun cells => cells[index]?.bind fun cell => cell.map some

/-- `*vector_back(vector)`. -/
def vectorBack (vector : Vector α) : Option (Option α) :=
  if vector.size = 0 then none else vectorGet vector (vector.size - 1)

/-- The loop `VECTOR_FOR_EACH` up to the first element with a property, with its index;
`vector_begin` asserts an initialised vector. -/
def vectorFind (vector : Vector α) (p : α → Bool) : Option (Option (Nat × α)) :=
  vector.data.map fun cells =>
    ((cells.take vector.size).findIdx? fun cell => cell.any p).bind fun index =>
      (cells[index]?.bind id).map fun element => (index, element)

/-- The elements that a loop `VECTOR_FOR_EACH` visits. -/
def vectorEach (vector : Vector α) : Option (List α) :=
  vector.data.bind fun cells =>
    if cells.length < vector.size then none else (cells.take vector.size).mapM id

/-! ### The elements -/

variable {vector vector' : Vector α} {element : α} {index : Nat} {allocated : Bool} {code : Int}

theorem mem_elements :
    element ∈ vector.elements ↔
      ∃ cells index, vector.data = some cells ∧ index < vector.size ∧
        cells[index]? = some (some element) := by
  cases hd : vector.data with
  | none => simp [Vector.elements, hd]
  | some cells =>
    rw [Vector.elements, hd, List.mem_filterMap]
    constructor
    · rintro ⟨cell, hc, rfl⟩
      obtain ⟨i, hi⟩ := List.mem_iff_getElem?.mp hc
      rw [Option.getD_some, List.getElem?_take] at hi
      split at hi
      · exact ⟨cells, i, rfl, ‹_›, hi⟩
      · cases hi
    · rintro ⟨cells', i, hc, hi, he⟩
      obtain rfl := Option.some.inj hc
      refine ⟨some element, List.mem_iff_getElem?.mpr ⟨i, ?_⟩, rfl⟩
      rw [Option.getD_some, List.getElem?_take, if_pos hi]
      exact he

@[simp] theorem elements_destroy : (vectorDestroy vector).elements = [] := by
  simp [vectorDestroy, Vector.elements]

theorem elements_setup {capacity elementSize : Nat} :
    (vectorSetup (α := α) allocated capacity elementSize).2.elements = [] := by
  unfold vectorSetup
  dsimp only
  split <;> simp [Vector.elements]

theorem mem_elements_reallocate {newCapacity : Nat}
    (h : vectorReallocate allocated vector newCapacity = some (code, vector')) :
    vector'.size = vector.size ∧ ∀ x ∈ vector'.elements, x ∈ vector.elements := by
  unfold vectorReallocate at h
  split at h
  · obtain ⟨-, rfl⟩ := Prod.mk.inj (Option.some.inj h)
    exact ⟨rfl, fun x hx => hx⟩
  · dsimp only at h
    split at h
    · obtain ⟨-, rfl⟩ := Prod.mk.inj (Option.some.inj h)
      exact ⟨rfl, fun x hx => by simp [Vector.elements] at hx⟩
    · obtain ⟨cells, hd, h⟩ := Option.bind_eq_some_iff.mp h
      split at h
      · cases h
      · obtain ⟨-, rfl⟩ := Prod.mk.inj (Option.some.inj h)
        refine ⟨rfl, ?_⟩
        intro x hx
        obtain ⟨cells', i, hc, hi, hx⟩ := mem_elements.mp hx
        obtain rfl := Option.some.inj hc
        refine mem_elements.mpr ⟨cells, i, hd, hi, ?_⟩
        have hlen : i < (cells.take vector.size).length := by
          rw [List.length_take]
          have : i < vector.size := hi
          omega
        rw [List.getElem?_append_left hlen, List.getElem?_take, if_pos hi] at hx
        exact hx

/-- Storing to a cell, when only that cell may come to be below the size `n`. -/
theorem mem_elements_store {x : α} {n : Nat} (hn : ∀ i < n, i ≠ index → i < vector.size)
    (h : vectorStore vector index element = some vector')
    (hx : x ∈ { vector' with size := n }.elements) : x ∈ vector.elements ∨ x = element := by
  obtain ⟨cells, hd, h⟩ := Option.bind_eq_some_iff.mp h
  split at h
  · rename_i hlt
    obtain rfl := Option.some.inj h
    obtain ⟨cells', i, hc, hi, hx⟩ := mem_elements.mp hx
    obtain rfl := Option.some.inj hc
    rw [List.getElem?_set] at hx
    by_cases he : index = i
    · rw [if_pos he, if_pos hlt] at hx
      exact .inr (Option.some.inj (Option.some.inj hx)).symm
    · rw [if_neg he] at hx
      exact .inl (mem_elements.mpr ⟨cells, i, hd, hn i hi (Ne.symm he), hx⟩)
  · cases h

theorem vectorStore_size (h : vectorStore vector index element = some vector') :
    vector'.size = vector.size := by
  obtain ⟨cells, -, h⟩ := Option.bind_eq_some_iff.mp h
  split at h
  · obtain rfl := Option.some.inj h
    rfl
  · cases h

theorem mem_elements_pushBack {x : α}
    (h : vectorPushBack allocated vector element = some (code, vector'))
    (hx : x ∈ vector'.elements) : x ∈ vector.elements ∨ x = element := by
  obtain ⟨grow, -, h⟩ := Option.bind_eq_some_iff.mp h
  obtain ⟨⟨code₁, grown⟩, hgrow, h⟩ := Option.bind_eq_some_iff.mp h
  have hmem : ∀ x ∈ grown.elements, x ∈ vector.elements := by
    cases grow with
    | true => exact (mem_elements_reallocate hgrow).2
    | false =>
      obtain ⟨-, rfl⟩ := Prod.mk.inj (Option.some.inj hgrow)
      exact fun x hx => hx
  dsimp only at h
  split at h
  · obtain ⟨-, rfl⟩ := Prod.mk.inj (Option.some.inj h)
    exact .inl (hmem x hx)
  · obtain ⟨stored, hstore, he⟩ := Option.map_eq_some_iff.mp h
    obtain ⟨-, rfl⟩ := Prod.mk.inj he
    rcases mem_elements_store (fun i hi hne => by
      have : i < stored.size + 1 := hi
      have : stored.size = grown.size := vectorStore_size hstore
      omega) hstore hx with hx | rfl
    · exact .inl (hmem x hx)
    · exact .inr rfl

theorem mem_elements_shrink {x : α} {n : Nat} (hn : n ≤ vector.size)
    (hx : x ∈ { vector with size := n }.elements) : x ∈ vector.elements := by
  obtain ⟨cells, i, hd, hi, hx⟩ := mem_elements.mp hx
  exact mem_elements.mpr ⟨cells, i, hd, Nat.lt_of_lt_of_le hi hn, hx⟩

theorem mem_elements_adjust {shrink : Prop} [Decidable shrink] {x : α}
    (h : (if shrink then
        (vectorAdjustCapacity allocated vector).map fun (_, vector) => (VECTOR_SUCCESS, vector)
      else some (VECTOR_SUCCESS, vector)) = some (code, vector')) (hx : x ∈ vector'.elements) :
    x ∈ vector.elements := by
  split at h
  · obtain ⟨⟨_, shrunk⟩, hr, he⟩ := Option.map_eq_some_iff.mp h
    obtain ⟨-, rfl⟩ := Prod.mk.inj he
    exact (mem_elements_reallocate hr).2 x hx
  · obtain ⟨-, rfl⟩ := Prod.mk.inj (Option.some.inj h)
    exact hx

theorem mem_elements_popBack {x : α}
    (h : vectorPopBack allocated vector = some (code, vector')) (hx : x ∈ vector'.elements) :
    x ∈ vector.elements := by
  unfold vectorPopBack at h
  split at h
  · cases h
  · split at h
    · obtain ⟨-, rfl⟩ := Prod.mk.inj (Option.some.inj h)
      exact hx
    · obtain ⟨shrink, -, h⟩ := Option.bind_eq_some_iff.mp h
      exact mem_elements_shrink (Nat.sub_le vector.size 1) (mem_elements_adjust h hx)

theorem mem_elements_moveLeft {x : α} (hi : index < vector.size)
    (h : vectorMoveLeft vector index = some vector')
    (hx : x ∈ { vector' with size := vector'.size - 1 }.elements) : x ∈ vector.elements := by
  obtain ⟨cells, hd, h⟩ := Option.bind_eq_some_iff.mp h
  split at h
  · cases h
  · rename_i hlen
    obtain rfl := Option.some.inj h
    obtain ⟨cells', i, hc, hlt, hx⟩ := mem_elements.mp hx
    obtain rfl := Option.some.inj hc
    have hlt' : i < vector.size - 1 := hlt
    have hleft : (cells.take index).length = index := by rw [List.length_take]; omega
    have hmid : ((cells.take vector.size).drop (index + 1)).length = vector.size - (index + 1) := by
      rw [List.length_drop, List.length_take]
      omega
    rw [List.append_assoc] at hx
    by_cases hin : i < index
    · rw [List.getElem?_append_left (by omega), List.getElem?_take, if_pos hin] at hx
      exact mem_elements.mpr ⟨cells, i, hd, by omega, hx⟩
    · rw [List.getElem?_append_right (by omega), List.getElem?_append_left (by omega),
        List.getElem?_drop, List.getElem?_take, if_pos (by omega)] at hx
      exact mem_elements.mpr ⟨cells, _, hd, by omega, hx⟩

theorem mem_elements_erase {x : α} (h : vectorErase allocated vector index = some (code, vector'))
    (hx : x ∈ vector'.elements) : x ∈ vector.elements := by
  unfold vectorErase at h
  split at h
  · cases h
  · rename_i hi
    split at h
    · obtain ⟨-, rfl⟩ := Prod.mk.inj (Option.some.inj h)
      exact hx
    · obtain ⟨moved, hmoved, h⟩ := Option.bind_eq_some_iff.mp h
      exact mem_elements_moveLeft (by omega) hmoved (mem_elements_adjust h hx)

theorem mem_elements_iteratorErase {x : α}
    (h : iteratorErase allocated vector index = some (code, vector')) (hx : x ∈ vector'.elements) :
    x ∈ vector.elements := by
  obtain ⟨⟨code₁, erased⟩, he, h⟩ := Option.bind_eq_some_iff.mp h
  refine mem_elements_erase he ?_
  dsimp only at h
  split at h
  · obtain ⟨-, rfl⟩ := Prod.mk.inj (Option.some.inj h)
    exact hx
  · split at h
    · obtain ⟨-, rfl⟩ := Prod.mk.inj (Option.some.inj h)
      exact hx
    · cases h

theorem vectorGet_mem (h : vectorGet vector index = some (some element)) :
    element ∈ vector.elements := by
  unfold vectorGet at h
  split at h
  · cases h
  · rename_i hi
    split at h
    · cases h
    · obtain ⟨cells, hd, h⟩ := Option.bind_eq_some_iff.mp h
      obtain ⟨cell, hc, h⟩ := Option.bind_eq_some_iff.mp h
      obtain ⟨x, rfl, h⟩ := Option.map_eq_some_iff.mp h
      obtain rfl := Option.some.inj (Option.some.inj h)
      exact mem_elements.mpr ⟨cells, _, hd, by omega, hc⟩

theorem vectorBack_mem (h : vectorBack vector = some (some element)) :
    element ∈ vector.elements := by
  unfold vectorBack at h
  split at h
  · cases h
  · exact vectorGet_mem h

theorem vectorFind_mem {p : α → Bool} (h : vectorFind vector p = some (some (index, element))) :
    element ∈ vector.elements ∧ p element = true := by
  obtain ⟨cells, hd, h⟩ := Option.map_eq_some_iff.mp h
  obtain ⟨i, hi, h⟩ := Option.bind_eq_some_iff.mp h
  obtain ⟨x, hx, h⟩ := Option.map_eq_some_iff.mp h
  obtain ⟨rfl, rfl⟩ := Prod.mk.inj h
  obtain ⟨cell, hc, rfl⟩ := Option.bind_eq_some_iff.mp hx
  obtain ⟨hlt, hp, -⟩ := List.findIdx?_eq_some_iff_getElem.mp hi
  rw [List.length_take] at hlt
  refine ⟨mem_elements.mpr ⟨cells, i, hd, by omega, hc⟩, ?_⟩
  rw [List.getElem?_eq_getElem (by omega)] at hc
  rw [List.getElem_take, Option.some.inj hc] at hp
  exact hp

end Tssx
