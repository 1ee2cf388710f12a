import Tssx.Vector.Stored

/-!
# Two vectors in one heap

`vector_copy`, `vector_move`, `vector_swap` and the two assignments work on two vectors: a
destination, at one `Place`, and a source at the other.  A run sets up, changes, copies and
destroys the two in any order (`Vectors.step`), and `Held.apply` is what that does to the lists
that they hold, of which there is none where a vector is not initialised.

A copy has twice the size of its source for a capacity, and the other three exchange the headers,
capacities included.
-/

namespace Tssx

variable {α : Type}

inductive Place
  | first
  | second
  deriving DecidableEq

def Place.other : Place → Place
  | .first => .second
  | .second => .first

structure Vectors (α : Type) where
  heap : Heap (List (Option α))
  header : Place → Header

/-- What the two vectors hold: the element size and the list. -/
abbrev Held (α : Type) := Place → Option (Nat × List (Option α))

inductive VectorsCall (α : Type)
  | setup (place : Place) (capacity elementSize : Nat)
  | destroy (place : Place)
  | call (place : Place) (call : VectorCall α)
  | copy (destination : Place)
  | copyAssign (destination : Place)
  | move (destination : Place)
  | moveAssign (destination : Place)
  | swap (destination : Place)
  deriving DecidableEq

namespace Vectors

/-- Two vectors before they are set up. -/
def initial : Vectors α := { heap := Heap.empty, header := fun _ => Header.initializer }

def stored (vectors : Vectors α) (place : Place) : Stored α :=
  { vectors.header place with heap := vectors.heap }

def put (vectors : Vectors α) (place : Place) (vector : Stored α) : Vectors α :=
  { heap := vector.heap, header := Function.update vectors.header place vector.toHeader }

def vectorCopy (vectors : Vectors α) (destination : Place) : Option (Int × Vectors α) :=
  let source := vectors.stored destination.other
  if source.data = none ∨ (vectors.header destination).data ≠ none then none
  else
    let capacity := source.size * 2
    (source.data.bind vectors.heap.block).bind fun cells =>
      if capacity < source.size ∨ cells.length < source.size then none
      else
        let (block, heap) := vectors.heap.allocate
          (cells.take source.size ++ List.replicate (capacity - source.size) none)
        some (VECTOR_SUCCESS,
          vectors.put destination
            { size := source.size, capacity, elementSize := source.elementSize, data := some block,
              heap })

def vectorCopyAssign (vectors : Vectors α) (destination : Place) : Option (Int × Vectors α) :=
  if (vectors.header destination.other).data = none ∨ (vectors.header destination).data = none then
    none
  else
    (vectors.put destination (vectors.stored destination).vectorDestroy.2).vectorCopy destination

def vectorMove (vectors : Vectors α) (destination : Place) : Int × Vectors α :=
  let source := vectors.header destination.other
  (VECTOR_SUCCESS,
    { vectors with
      header := Function.update (Function.update vectors.header destination source)
        destination.other { source with data := none } })

def vectorSwap (vectors : Vectors α) (destination : Place) : Option (Int × Vectors α) :=
  let source := vectors.header destination.other
  if source.data = none ∨ (vectors.header destination).data = none then none
  else
    some (VECTOR_SUCCESS,
      { vectors with
        header := Function.update (Function.update vectors.header destination source)
          destination.other (vectors.header destination) })

/-- The code of `vector_swap` is not looked at. -/
def vectorMoveAssign (vectors : Vectors α) (destination : Place) : Option (Int × Vectors α) :=
  (vectors.vectorSwap destination).map fun (_, vectors) =>
    let destroyed := (vectors.stored destination.other).vectorDestroy
    (destroyed.1, vectors.put destination.other destroyed.2)

def perform (vectors : Vectors α) : VectorsCall α → Option (Int × Vectors α)
  | .setup place capacity elementSize =>
    let created := (vectors.stored place).vectorSetup capacity elementSize
    some (created.1, vectors.put place created.2)
  | .destroy place =>
    let destroyed := (vectors.stored place).vectorDestroy
    some (destroyed.1, vectors.put place destroyed.2)
  | .call place call =>
    ((vectors.stored place).perform call).map fun (code, vector) =>
      (code, vectors.put place vector)
  | .copy destination => vectors.vectorCopy destination
  | .copyAssign destination => vectors.vectorCopyAssign destination
  | .move destination => some (vectors.vectorMove destination)
  | .moveAssign destination => vectors.vectorMoveAssign destination
  | .swap destination => vectors.vectorSwap destination

/-- A call that succeeds. -/
def step (vectors : Vectors α) (call : VectorsCall α) : Option (Vectors α) :=
  (vectors.perform call).bind fun (code, vectors) =>
    if code = VECTOR_SUCCESS then some vectors else none

end Vectors

namespace Held

/-- What a call does to the lists. -/
def apply (held : Held α) : VectorsCall α → Held α
  | .setup place _ elementSize => Function.update held place (some (elementSize, []))
  | .destroy place => Function.update held place none
  | .call place call =>
    Function.update held place ((held place).map fun (bytes, xs) => (bytes, call.apply xs))
  | .copy destination | .copyAssign destination =>
    Function.update held destination (held destination.other)
  | .move destination | .moveAssign destination =>
    Function.update (Function.update held destination (held destination.other))
      destination.other none
  | .swap destination =>
    Function.update (Function.update held destination (held destination.other))
      destination.other (held destination)

/-- The assertions, and sizes in bytes that do not wrap around. -/
def Valid (held : Held α) : VectorsCall α → Prop
  | .setup _ capacity elementSize =>
    elementSize ≠ 0 ∧ max VECTOR_MINIMUM_CAPACITY capacity * elementSize < 2 ^ 64
  | .destroy _ | .move _ => True
  | .call place call => ∃ entry ∈ held place, call.Valid entry.1 entry.2
  | .copy destination => held destination = none ∧ held destination.other ≠ none
  | .copyAssign destination | .moveAssign destination | .swap destination =>
    held destination ≠ none ∧ held destination.other ≠ none

/-- No copy is made of an empty vector. -/
def CopiesSome (held : Held α) : VectorsCall α → Prop
  | .copy destination | .copyAssign destination =>
    (held destination.other).map (fun entry => entry.2.length) ≠ some 0
  | _ => True

instance [DecidableEq α] (held : Held α) : ∀ call, Decidable (Valid held call)
  | .setup _ _ _ => inferInstanceAs (Decidable (_ ∧ _))
  | .destroy _ | .move _ => inferInstanceAs (Decidable True)
  | .call place call =>
    inferInstanceAs (Decidable (∃ entry ∈ held place, call.Valid entry.1 entry.2))
  | .copy _ | .copyAssign _ | .moveAssign _ | .swap _ => inferInstanceAs (Decidable (_ ∧ _))

instance (held : Held α) : ∀ call, Decidable (CopiesSome held call)
  | .copy destination | .copyAssign destination =>
    inferInstanceAs
      (Decidable ((held destination.other).map (fun entry => entry.2.length) ≠ some 0))
  | .setup _ _ _ | .destroy _ | .call _ _ | .move _ | .moveAssign _ | .swap _ =>
    inferInstanceAs (Decidable True)

end Held

end Tssx
