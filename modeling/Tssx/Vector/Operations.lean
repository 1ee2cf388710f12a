import Mathlib.Data.List.InsertIdx
import Tssx.Lib.Run
import Tssx.Vector

/-!
# The other operations of a vector

The rest of `vector.h` that changes one vector, and the calls of its interface as a type:
`VectorCall.perform` runs a call, and `VectorCall.apply` is what the call does to a list of
elements.  An element of the list that is `none` is unspecified, as the new ones of a growing
`vector_resize` are.

The arguments of `vector_resize` and `vector_reserve` are any `size_t`, and the products that the
two compute wrap around in `vectorReallocate64`.  A block has fewer than `2 ^ 63` bytes, so twice
the size of a vector that has one does not, and the operations of `Tssx/Vector.lean` compute with
a `Nat`.
-/

namespace Tssx

variable {α : Type}

/-- `_vector_move_right`: the cell at the index keeps its content. -/
def vectorMoveRight (vector : Vector α) (index : Nat) : Option (Int × Vector α) :=
  if vector.capacity ≤ vector.size then none
  else
    vector.data.bind fun cells =>
      if index < vector.size ∧ cells.length ≤ vector.size then none
      else
        some (VECTOR_SUCCESS,
          { vector with
            data := some (cells.take (index + 1) ++ (cells.take vector.size).drop index ++
              cells.drop (vector.size + 1)) })

def vectorInsert (allocated : Bool) (vector : Vector α) (index : Nat) (element : α) :
    Option (Int × Vector α) :=
  if vector.size < index then none
  else if vector.elementSize = 0 then some (VECTOR_ERROR, vector)
  else
    (vectorShouldGrow vector).bind fun grow =>
      (if grow then vectorAdjustCapacity allocated vector else some (VECTOR_SUCCESS, vector)).bind
        fun (code, vector) =>
          if code = VECTOR_ERROR then some (VECTOR_ERROR, vector)
          else
            (vectorMoveRight vector index).bind fun (code, vector) =>
              if code = VECTOR_ERROR then some (VECTOR_ERROR, vector)
              else (vectorStore vector index element).map fun vector =>
                (VECTOR_SUCCESS, { vector with size := vector.size + 1 })

def vectorPushFront (allocated : Bool) (vector : Vector α) (element : α) :
    Option (Int × Vector α) :=
  vectorInsert allocated vector 0 element

def vectorAssign (vector : Vector α) (index : Nat) (element : α) : Option (Int × Vector α) :=
  if vector.size ≤ index then none
  else if vector.elementSize = 0 then some (VECTOR_ERROR, vector)
  else (vectorStore vector index element).map fun vector => (VECTOR_SUCCESS, vector)

def vectorPopFront (allocated : Bool) (vector : Vector α) : Option (Int × Vector α) :=
  vectorErase allocated vector 0

/-- `_vector_reallocate` for any `size_t`: the new block has as many cells as fit in the bytes
that are asked for. -/
def vectorReallocate64 (allocated : Bool) (vector : Vector α) (newCapacity : Nat) :
    Option (Int × Vector α) :=
  if newCapacity < VECTOR_MINIMUM_CAPACITY ∧ vector.capacity ≤ VECTOR_MINIMUM_CAPACITY then
    some (VECTOR_SUCCESS, vector)
  else
    let newCapacity := max newCapacity VECTOR_MINIMUM_CAPACITY
    let newCapacityInBytes := sizeT (newCapacity * vector.elementSize : Nat)
    let length := newCapacityInBytes / vector.elementSize
    if !allocated then some (VECTOR_ERROR, { vector with data := none })
    else
      vector.data.bind fun cells =>
        if length < vector.size ∨ cells.length < vector.size then none
        else
          some (VECTOR_SUCCESS,
            { vector with
              capacity := newCapacity
              data := some (cells.take vector.size ++ List.replicate (length - vector.size) none) })

def vectorResize (allocated : Bool) (vector : Vector α) (newSize : Nat) :
    Option (Int × Vector α) :=
  let grown := sizeT (newSize * VECTOR_GROWTH_FACTOR : Nat)
  if newSize ≤ vector.capacity * VECTOR_SHRINK_THRESHOLD then
    (vectorReallocate64 allocated { vector with size := newSize } grown).map fun (code, vector) =>
      if code = -1 then (VECTOR_ERROR, vector)
      else (VECTOR_SUCCESS, { vector with size := newSize })
  else if vector.capacity < newSize then
    (vectorReallocate64 allocated vector grown).map fun (code, vector) =>
      if code = -1 then (VECTOR_ERROR, vector)
      else (VECTOR_SUCCESS, { vector with size := newSize })
  else some (VECTOR_SUCCESS, { vector with size := newSize })

def vectorClear (allocated : Bool) (vector : Vector α) : Option (Int × Vector α) :=
  vectorResize allocated vector 0

def vectorReserve (allocated : Bool) (vector : Vector α) (minimumCapacity : Nat) :
    Option (Int × Vector α) :=
  if vector.capacity < minimumCapacity then
    (vectorReallocate64 allocated vector minimumCapacity).map fun (code, vector) =>
      if code = VECTOR_ERROR then (VECTOR_ERROR, vector) else (VECTOR_SUCCESS, vector)
  else some (VECTOR_SUCCESS, vector)

def vectorShrinkToFit (allocated : Bool) (vector : Vector α) : Option (Int × Vector α) :=
  vectorReallocate allocated vector vector.size

/-! ### Calls -/

/-- The calls that change a vector. -/
inductive VectorCall (α : Type)
  | pushBack (element : α)
  | pushFront (element : α)
  | insert (index : Nat) (element : α)
  | assign (index : Nat) (element : α)
  | popBack
  | popFront
  | erase (index : Nat)
  | iteratorErase (index : Nat)
  | clear
  | resize (newSize : Nat)
  | reserve (minimumCapacity : Nat)
  | shrinkToFit
  deriving DecidableEq

namespace VectorCall

def perform (allocated : Bool) (vector : Vector α) : VectorCall α → Option (Int × Vector α)
  | pushBack element => vectorPushBack allocated vector element
  | pushFront element => vectorPushFront allocated vector element
  | insert index element => vectorInsert allocated vector index element
  | assign index element => vectorAssign vector index element
  | popBack => vectorPopBack allocated vector
  | popFront => vectorPopFront allocated vector
  | erase index => vectorErase allocated vector index
  | iteratorErase index => Tssx.iteratorErase allocated vector index
  | clear => vectorClear allocated vector
  | resize newSize => vectorResize allocated vector newSize
  | reserve minimumCapacity => vectorReserve allocated vector minimumCapacity
  | shrinkToFit => vectorShrinkToFit allocated vector

/-- What a call does to a list of elements. -/
def apply (xs : List (Option α)) : VectorCall α → List (Option α)
  | pushBack element => xs ++ [some element]
  | pushFront element => some element :: xs
  | insert index element => xs.insertIdx index (some element)
  | assign index element => xs.set index (some element)
  | popBack => xs.dropLast
  | popFront => xs.tail
  | erase index => xs.eraseIdx index
  | iteratorErase index => xs.eraseIdx index
  | clear => []
  | resize newSize => xs.take newSize ++ List.replicate (newSize - xs.length) none
  | reserve _ => xs
  | shrinkToFit => xs

/-- The assertions on the arguments, for a vector of `size` elements. -/
def Within (size : Nat) : VectorCall α → Prop
  | insert index _ => index ≤ size
  | assign index _ => index < size
  | popBack => 0 < size
  | popFront => 0 < size
  | erase index => index < size
  | iteratorErase index => index < size
  | _ => True

/-- The size in bytes that is asked for does not wrap around. -/
def Fits (elementSize : Nat) : VectorCall α → Prop
  | resize newSize => newSize * VECTOR_GROWTH_FACTOR * elementSize < 2 ^ 64
  | reserve minimumCapacity => minimumCapacity * elementSize < 2 ^ 64
  | _ => True

instance decidableWithin (size : Nat) : ∀ call : VectorCall α, Decidable (call.Within size)
  | insert index _ => inferInstanceAs (Decidable (index ≤ size))
  | assign index _ => inferInstanceAs (Decidable (index < size))
  | popBack | popFront => inferInstanceAs (Decidable (0 < size))
  | erase index | iteratorErase index => inferInstanceAs (Decidable (index < size))
  | pushBack _ | pushFront _ | clear | resize _ | reserve _ | shrinkToFit =>
    inferInstanceAs (Decidable True)

instance decidableFits (elementSize : Nat) :
    ∀ call : VectorCall α, Decidable (call.Fits elementSize)
  | resize newSize =>
    inferInstanceAs (Decidable (newSize * VECTOR_GROWTH_FACTOR * elementSize < 2 ^ 64))
  | reserve minimumCapacity => inferInstanceAs (Decidable (minimumCapacity * elementSize < 2 ^ 64))
  | pushBack _ | pushFront _ | insert _ _ | assign _ _ | popBack | popFront | erase _
  | iteratorErase _ | clear | shrinkToFit => inferInstanceAs (Decidable True)

/-- A call on the list `xs` that respects the assertions, and whose bytes fit in a `size_t`. -/
def Valid (elementSize : Nat) (xs : List (Option α)) (call : VectorCall α) : Prop :=
  call.Within xs.length ∧ call.Fits elementSize

instance (elementSize : Nat) (xs : List (Option α)) (call : VectorCall α) :
    Decidable (call.Valid elementSize xs) := inferInstanceAs (Decidable (_ ∧ _))

end VectorCall

end Tssx
