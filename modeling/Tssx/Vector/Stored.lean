import Tssx.Lib.Heap
import Tssx.Vector.Block

/-!
# Vectors in a heap

The operations of `vector.h` once more, with `data` a pointer: a `Header` is the C structure, and
the block that it points to is in a heap, where other vectors have theirs.  A reallocation takes a
new block, and removes the old one once its bytes are copied.  Allocations succeed here, and of a
size that does not wrap around.

`Stored.view` is the vector with the content of its block, as `Tssx/Vector.lean` has it.  Every
operation here does to the view what the operation there does, and touches no block but that of
the vector (`Stored.perform_returns`), so that what holds of the one level holds of the other.
-/

namespace Tssx

/-- `struct Vector`. -/
structure Header where
  size : Nat
  capacity : Nat
  elementSize : Nat
  data : Option Nat
  deriving DecidableEq

/-- `VECTOR_INITIALIZER`. -/
def Header.initializer : Header := { size := 0, capacity := 0, elementSize := 0, data := none }

/-- A vector with the heap that it lives in. -/
structure Stored (α : Type) extends Header where
  heap : Heap (List (Option α))

variable {α : Type}

namespace Stored

def view (vector : Stored α) : Vector α :=
  { size := vector.size, capacity := vector.capacity, elementSize := vector.elementSize,
    data := vector.data.bind vector.heap.block }

/-! ### The operations -/

def vectorSetup (vector : Stored α) (capacity elementSize : Nat) : Int × Stored α :=
  let capacity := max VECTOR_MINIMUM_CAPACITY capacity
  let (block, heap) := vector.heap.allocate (List.replicate capacity none)
  (VECTOR_SUCCESS, { size := 0, capacity, elementSize, data := some block, heap })

def vectorDestroy (vector : Stored α) : Int × Stored α :=
  (VECTOR_SUCCESS, { vector with data := none, heap := vector.heap.release vector.data })

def vectorReallocate (vector : Stored α) (newCapacity : Nat) : Option (Int × Stored α) :=
  if newCapacity < VECTOR_MINIMUM_CAPACITY ∧ vector.capacity ≤ VECTOR_MINIMUM_CAPACITY then
    some (VECTOR_SUCCESS, vector)
  else
    let newCapacity := max newCapacity VECTOR_MINIMUM_CAPACITY
    (vector.data.bind vector.heap.block).bind fun cells =>
      if newCapacity < vector.size ∨ cells.length < vector.size then none
      else
        let (block, heap) := vector.heap.allocate
          (cells.take vector.size ++ List.replicate (newCapacity - vector.size) none)
        some (VECTOR_SUCCESS,
          { vector with
            capacity := newCapacity
            data := some block
            heap := heap.release vector.data })

def vectorAdjustCapacity (vector : Stored α) : Option (Int × Stored α) :=
  vector.vectorReallocate (max 1 (vector.size * VECTOR_GROWTH_FACTOR))

/-- What writes to the block and does nothing else. -/
def inPlace (vector : Stored α) (change : Vector α → Option (Vector α)) : Option (Stored α) :=
  vector.data.bind fun block =>
    (change vector.view).bind fun changed =>
      changed.data.map fun cells => { vector with heap := vector.heap.write block cells }

def vectorStore (vector : Stored α) (index : Nat) (element : α) : Option (Stored α) :=
  vector.inPlace fun view => Tssx.vectorStore view index element

def vectorMoveLeft (vector : Stored α) (index : Nat) : Option (Stored α) :=
  vector.inPlace fun view => Tssx.vectorMoveLeft view index

def vectorMoveRight (vector : Stored α) (index : Nat) : Option (Int × Stored α) :=
  (vector.inPlace fun view => (Tssx.vectorMoveRight view index).map Prod.snd).map fun vector =>
    (VECTOR_SUCCESS, vector)

def vectorPushBack (vector : Stored α) (element : α) : Option (Int × Stored α) :=
  (vectorShouldGrow vector.view).bind fun grow =>
    (if grow then vector.vectorAdjustCapacity else some (VECTOR_SUCCESS, vector)).bind
      fun (code, vector) =>
        if code = VECTOR_ERROR then some (VECTOR_ERROR, vector)
        else (vector.vectorStore vector.size element).map fun vector =>
          (VECTOR_SUCCESS, { vector with size := vector.size + 1 })

def vectorInsert (vector : Stored α) (index : Nat) (element : α) : Option (Int × Stored α) :=
  if vector.size < index then none
  else if vector.elementSize = 0 then some (VECTOR_ERROR, vector)
  else
    (vectorShouldGrow vector.view).bind fun grow =>
      (if grow then vector.vectorAdjustCapacity else some (VECTOR_SUCCESS, vector)).bind
        fun (code, vector) =>
          if code = VECTOR_ERROR then some (VECTOR_ERROR, vector)
          else
            (vector.vectorMoveRight index).bind fun (code, vector) =>
              if code = VECTOR_ERROR then some (VECTOR_ERROR, vector)
              else (vector.vectorStore index element).map fun vector =>
                (VECTOR_SUCCESS, { vector with size := vector.size + 1 })

def vectorPushFront (vector : Stored α) (element : α) : Option (Int × Stored α) :=
  vector.vectorInsert 0 element

def vectorAssign (vector : Stored α) (index : Nat) (element : α) : Option (Int × Stored α) :=
  if vector.size ≤ index then none
  else if vector.elementSize = 0 then some (VECTOR_ERROR, vector)
  else (vector.vectorStore index element).map fun vector => (VECTOR_SUCCESS, vector)

def vectorPopBack (vector : Stored α) : Option (Int × Stored α) :=
  if vector.size = 0 then none
  else if vector.elementSize = 0 then some (VECTOR_ERROR, vector)
  else
    let vector := { vector with size := vector.size - 1 }
    (vectorShouldShrink vector.view).bind fun shrink =>
      if shrink then
        vector.vectorAdjustCapacity.map fun (_, vector) => (VECTOR_SUCCESS, vector)
      else some (VECTOR_SUCCESS, vector)

def vectorErase (vector : Stored α) (index : Nat) : Option (Int × Stored α) :=
  if vector.size ≤ index then none
  else if vector.elementSize = 0 then some (VECTOR_ERROR, vector)
  else
    (vector.vectorMoveLeft index).bind fun vector =>
      let vector := { vector with size := vector.size - 1 }
      if vector.size = vector.capacity / 4 then
        vector.vectorAdjustCapacity.map fun (_, vector) => (VECTOR_SUCCESS, vector)
      else some (VECTOR_SUCCESS, vector)

def vectorPopFront (vector : Stored α) : Option (Int × Stored α) := vector.vectorErase 0

def iteratorErase (vector : Stored α) (index : Nat) : Option (Int × Stored α) :=
  (vector.vectorErase index).bind fun (code, vector) =>
    if code = VECTOR_ERROR then some (code, vector)
    else if vector.data.isSome ∧ index ≤ vector.size then some (VECTOR_SUCCESS, vector)
    else none

def vectorResize (vector : Stored α) (newSize : Nat) : Option (Int × Stored α) :=
  let grown := newSize * VECTOR_GROWTH_FACTOR
  if newSize ≤ vector.capacity * VECTOR_SHRINK_THRESHOLD then
    ({ vector with size := newSize }.vectorReallocate grown).map fun (code, vector) =>
      if code = -1 then (VECTOR_ERROR, vector)
      else (VECTOR_SUCCESS, { vector with size := newSize })
  else if vector.capacity < newSize then
    (vector.vectorReallocate grown).map fun (code, vector) =>
      if code = -1 then (VECTOR_ERROR, vector)
      else (VECTOR_SUCCESS, { vector with size := newSize })
  else some (VECTOR_SUCCESS, { vector with size := newSize })

def vectorClear (vector : Stored α) : Option (Int × Stored α) := vector.vectorResize 0

def vectorReserve (vector : Stored α) (minimumCapacity : Nat) : Option (Int × Stored α) :=
  if vector.capacity < minimumCapacity then
    (vector.vectorReallocate minimumCapacity).map fun (code, vector) =>
      if code = VECTOR_ERROR then (VECTOR_ERROR, vector) else (VECTOR_SUCCESS, vector)
  else some (VECTOR_SUCCESS, vector)

def vectorShrinkToFit (vector : Stored α) : Option (Int × Stored α) :=
  vector.vectorReallocate vector.size

def perform (vector : Stored α) : VectorCall α → Option (Int × Stored α)
  | .pushBack element => vector.vectorPushBack element
  | .pushFront element => vector.vectorPushFront element
  | .insert index element => vector.vectorInsert index element
  | .assign index element => vector.vectorAssign index element
  | .popBack => vector.vectorPopBack
  | .popFront => vector.vectorPopFront
  | .erase index => vector.vectorErase index
  | .iteratorErase index => vector.iteratorErase index
  | .clear => vector.vectorClear
  | .resize newSize => vector.vectorResize newSize
  | .reserve minimumCapacity => vector.vectorReserve minimumCapacity
  | .shrinkToFit => vector.vectorShrinkToFit

/-! ### The views -/

/-- What an operation may do to the heap. -/
def Keeps (vector vector' : Stored α) : Prop :=
  vector.heap.Keeps vector.data vector'.heap vector'.data

/-- Where the view gets a result, the vector gets that result, and touches no other block. -/
def Returns (vector : Stored α) (r : Option (Int × Stored α)) (r' : Option (Int × Vector α)) :
    Prop :=
  ∀ code view', r' = some (code, view') →
    ∃ vector', r = some (code, vector') ∧ vector'.view = view' ∧ vector.Keeps vector'

/-- The same for what returns no code. -/
def Changes (vector : Stored α) (r : Option (Stored α)) (r' : Option (Vector α)) : Prop :=
  ∀ view', r' = some view' →
    ∃ vector', r = some vector' ∧ vector'.view = view' ∧ vector.Keeps vector'

variable {vector vector' : Stored α} {r : Option (Int × Stored α)} {r' : Option (Int × Vector α)}
  {code : Int} {index n : Nat}

theorem Keeps.refl (vector : Stored α) : vector.Keeps vector := Heap.Keeps.refl _ _

theorem Keeps.trans {third : Stored α} (h : vector.Keeps vector') (h' : vector'.Keeps third) :
    vector.Keeps third := Heap.Keeps.trans h h'

theorem Returns.none : Returns vector r none := fun _ _ h => by cases h

theorem Returns.some (h : vector.Keeps vector') :
    Returns vector (some (code, vector')) (some (code, vector'.view)) := by
  intro code' view' hr
  obtain ⟨rfl, rfl⟩ := Prod.mk.inj (Option.some.inj hr)
  exact ⟨vector', rfl, rfl, h⟩

theorem Returns.bind {f : Int × Stored α → Option (Int × Stored α)}
    {f' : Int × Vector α → Option (Int × Vector α)} (h : Returns vector r r')
    (hf : ∀ code vector', Returns vector' (f (code, vector')) (f' (code, vector'.view))) :
    Returns vector (r.bind f) (r'.bind f') := by
  intro code view' hr
  obtain ⟨⟨code₁, view₁⟩, hr₁, hr⟩ := Option.bind_eq_some_iff.mp hr
  obtain ⟨middle, rfl, rfl, hk⟩ := h code₁ view₁ hr₁
  obtain ⟨vector', hr', hv, hk'⟩ := hf code₁ middle code view' hr
  exact ⟨vector', hr', hv, hk.trans hk'⟩

theorem Returns.map {f : Int × Stored α → Int × Stored α} {f' : Int × Vector α → Int × Vector α}
    (h : Returns vector r r')
    (hf : ∀ code vector', Returns vector' (.some (f (code, vector')))
      (.some (f' (code, vector'.view)))) :
    Returns vector (r.map f) (r'.map f') := by
  rw [Option.map_eq_bind, Option.map_eq_bind]
  exact h.bind hf

theorem Returns.ite {p : Prop} [Decidable p] {s : Option (Int × Stored α)}
    {s' : Option (Int × Vector α)} (h : p → Returns vector r r') (hs : ¬ p → Returns vector s s') :
    Returns vector (if p then r else s) (if p then r' else s') := by
  by_cases hp : p
  · rw [if_pos hp, if_pos hp]
    exact h hp
  · rw [if_neg hp, if_neg hp]
    exact hs hp

theorem Returns.test {γ : Type} {o : Option γ} {f : γ → Option (Int × Stored α)}
    {f' : γ → Option (Int × Vector α)} (h : ∀ a, o = .some a → Returns vector (f a) (f' a)) :
    Returns vector (o.bind f) (o.bind f') := by
  cases o with
  | none => exact .none
  | some a => exact h a rfl

theorem Changes.bind {c : Option (Stored α)} {c' : Option (Vector α)}
    {f : Stored α → Option (Int × Stored α)} {f' : Vector α → Option (Int × Vector α)}
    (h : Changes vector c c') (hf : ∀ vector', Returns vector' (f vector') (f' vector'.view)) :
    Returns vector (c.bind f) (c'.bind f') := by
  intro code view' hr
  obtain ⟨view₁, hc, hr⟩ := Option.bind_eq_some_iff.mp hr
  obtain ⟨middle, rfl, rfl, hk⟩ := h view₁ hc
  obtain ⟨vector', hr', hv, hk'⟩ := hf middle code view' hr
  exact ⟨vector', hr', hv, hk.trans hk'⟩

theorem Changes.map {c : Option (Stored α)} {c' : Option (Vector α)}
    {f : Stored α → Int × Stored α} {f' : Vector α → Int × Vector α} (h : Changes vector c c')
    (hf : ∀ vector', Returns vector' (.some (f vector')) (.some (f' vector'.view))) :
    Returns vector (c.map f) (c'.map f') := by
  rw [Option.map_eq_bind, Option.map_eq_bind]
  exact h.bind hf

theorem returns_sized (vector : Stored α) (n : Nat) :
    Returns vector (.some (code, { vector with size := n }))
      (.some (code, { vector.view with size := n })) :=
  Returns.some (Keeps.refl vector)

theorem Returns.of_sized (h : Returns { vector with size := n } r r') : Returns vector r r' := h

/-! ### Writes and allocations -/

theorem block_of_view {cells : List (Option α)} (h : vector.view.data = .some cells) :
    ∃ block, vector.data = .some block ∧ vector.heap.block block = .some cells :=
  Option.bind_eq_some_iff.mp h

theorem inPlace_changes {change : Vector α → Option (Vector α)}
    (hc : ∀ view view', change view = .some view' → ∃ cells cells', view.data = .some cells ∧
      view' = { view with data := .some cells' }) :
    Changes vector (vector.inPlace change) (change vector.view) := by
  intro view' hr
  obtain ⟨cells, cells', hd, rfl⟩ := hc vector.view view' hr
  obtain ⟨block, hblock, hcells⟩ := block_of_view hd
  refine ⟨{ vector with heap := vector.heap.write block cells' }, ?_, ?_, ?_⟩
  · rw [inPlace, hblock, Option.bind_some, hr]
    rfl
  · have hwritten : (vector.heap.write block cells').block block = .some cells' :=
      Heap.block_write_self (by rw [hcells]; simp)
    simp [view, hblock, hwritten]
  · rw [Keeps]
    simp only [hblock]
    exact Heap.keeps_write ..

theorem vectorStore_changes (element : α) :
    Changes vector (vector.vectorStore index element)
      (Tssx.vectorStore vector.view index element) := by
  refine inPlace_changes ?_
  intro view view' hr
  obtain ⟨cells, hd, hr⟩ := Option.bind_eq_some_iff.mp hr
  split at hr
  · obtain rfl := Option.some.inj hr
    exact ⟨cells, _, hd, rfl⟩
  · cases hr

theorem vectorMoveLeft_changes :
    Changes vector (vector.vectorMoveLeft index) (Tssx.vectorMoveLeft vector.view index) := by
  refine inPlace_changes ?_
  intro view view' hr
  obtain ⟨cells, hd, hr⟩ := Option.bind_eq_some_iff.mp hr
  split at hr
  · cases hr
  · obtain rfl := Option.some.inj hr
    exact ⟨cells, _, hd, rfl⟩

theorem vectorMoveRight_returns :
    Returns vector (vector.vectorMoveRight index) (Tssx.vectorMoveRight vector.view index) := by
  have hcases : ∀ {view : Vector α} {code view'},
      Tssx.vectorMoveRight view index = .some (code, view') → code = VECTOR_SUCCESS ∧
        ∃ cells cells', view.data = .some cells ∧ view' = { view with data := .some cells' } := by
    intro view code view' hr
    unfold Tssx.vectorMoveRight at hr
    split at hr
    · cases hr
    · obtain ⟨cells, hd, hr⟩ := Option.bind_eq_some_iff.mp hr
      split at hr
      · cases hr
      · obtain ⟨rfl, rfl⟩ := Prod.mk.inj (Option.some.inj hr)
        exact ⟨rfl, cells, _, hd, rfl⟩
  intro code view' hr
  obtain ⟨rfl, -⟩ := hcases hr
  have hchanges : Changes vector
      (vector.inPlace fun view => (Tssx.vectorMoveRight view index).map Prod.snd)
      ((Tssx.vectorMoveRight vector.view index).map Prod.snd) := by
    refine inPlace_changes ?_
    intro view view' hr
    obtain ⟨⟨code, moved⟩, hm, rfl⟩ := Option.map_eq_some_iff.mp hr
    exact (hcases hm).2
  obtain ⟨vector', hc, hv, hk⟩ := hchanges view' (by rw [hr]; rfl)
  exact ⟨vector', by rw [vectorMoveRight, hc]; rfl, hv, hk⟩

theorem vectorReallocate_returns :
    Returns vector (vector.vectorReallocate n) (Tssx.vectorReallocate true vector.view n) := by
  unfold Stored.vectorReallocate Tssx.vectorReallocate
  refine Returns.ite (fun _ => .some (Keeps.refl vector)) fun _ => ?_
  dsimp only
  rw [if_neg (by decide)]
  refine Returns.test fun cells hcells => Returns.ite (fun _ => .none) fun _ => ?_
  obtain ⟨old, hold, hblock⟩ := block_of_view hcells
  -- the block that is removed is not the new one
  have hne : vector.data ≠ .some vector.heap.next := by
    have hlive : vector.heap.block old ≠ none := by simp [hblock]
    rw [hold]
    exact fun he => Heap.ne_next hlive (Option.some.inj he)
  intro code view' hr
  obtain ⟨rfl, rfl⟩ := Prod.mk.inj (Option.some.inj hr)
  refine ⟨_, rfl, ?_, Heap.keeps_replace ..⟩
  rw [view]
  dsimp only [Heap.allocate_fst]
  rw [Option.bind_some, Heap.block_release_of_ne hne, Heap.block_allocate_self]
  rfl

theorem vectorAdjustCapacity_returns :
    Returns vector vector.vectorAdjustCapacity (Tssx.vectorAdjustCapacity true vector.view) :=
  vectorReallocate_returns

/-! ### The operations and their views -/

theorem store_returns (element : α) :
    Returns vector
      ((vector.vectorStore index element).map fun vector =>
        (VECTOR_SUCCESS, { vector with size := vector.size + 1 }))
      ((Tssx.vectorStore vector.view index element).map fun view =>
        (VECTOR_SUCCESS, { view with size := view.size + 1 })) :=
  (vectorStore_changes element).map fun vector' => returns_sized vector' _

/-- A result that is not looked at. -/
theorem ignored_returns (h : Returns vector r r') :
    Returns vector (r.map fun p => (VECTOR_SUCCESS, p.2)) (r'.map fun p => (VECTOR_SUCCESS, p.2)) :=
  h.map fun _ vector' => .some (Keeps.refl vector')

theorem grow_returns (grow : Bool) :
    Returns vector (if grow then vector.vectorAdjustCapacity else .some (VECTOR_SUCCESS, vector))
      (if grow then Tssx.vectorAdjustCapacity true vector.view
        else .some (VECTOR_SUCCESS, vector.view)) :=
  Returns.ite (fun _ => vectorAdjustCapacity_returns) fun _ => .some (Keeps.refl vector)

theorem vectorPushBack_returns (element : α) :
    Returns vector (vector.vectorPushBack element)
      (Tssx.vectorPushBack true vector.view element) := by
  refine Returns.test fun grow _ => (grow_returns grow).bind fun code grown => ?_
  exact Returns.ite (fun _ => .some (Keeps.refl grown)) fun _ => store_returns element

theorem vectorInsert_returns (element : α) :
    Returns vector (vector.vectorInsert index element)
      (Tssx.vectorInsert true vector.view index element) := by
  refine Returns.ite (fun _ => .none) fun _ => ?_
  refine Returns.ite (fun _ => .some (Keeps.refl vector)) fun _ => ?_
  refine Returns.test fun grow _ => (grow_returns grow).bind fun code grown => ?_
  refine Returns.ite (fun _ => .some (Keeps.refl grown)) fun _ => ?_
  refine vectorMoveRight_returns.bind fun code moved => ?_
  exact Returns.ite (fun _ => .some (Keeps.refl moved)) fun _ => store_returns element

theorem vectorAssign_returns (element : α) :
    Returns vector (vector.vectorAssign index element)
      (Tssx.vectorAssign vector.view index element) := by
  refine Returns.ite (fun _ => .none) fun _ => ?_
  refine Returns.ite (fun _ => .some (Keeps.refl vector)) fun _ => ?_
  exact (vectorStore_changes element).map fun vector' => .some (Keeps.refl vector')

theorem vectorPopBack_returns :
    Returns vector vector.vectorPopBack (Tssx.vectorPopBack true vector.view) := by
  refine Returns.ite (fun _ => .none) fun _ => ?_
  refine Returns.ite (fun _ => .some (Keeps.refl vector)) fun _ => ?_
  refine Returns.test fun shrink _ => ?_
  refine Returns.ite (fun _ => ?_) fun _ => returns_sized vector _
  exact Returns.of_sized (ignored_returns vectorAdjustCapacity_returns)

theorem vectorErase_returns :
    Returns vector (vector.vectorErase index) (Tssx.vectorErase true vector.view index) := by
  refine Returns.ite (fun _ => .none) fun _ => ?_
  refine Returns.ite (fun _ => .some (Keeps.refl vector)) fun _ => ?_
  refine vectorMoveLeft_changes.bind fun moved => ?_
  refine Returns.ite (fun _ => ?_) fun _ => returns_sized moved _
  exact Returns.of_sized (ignored_returns vectorAdjustCapacity_returns)

theorem iteratorErase_returns :
    Returns vector (vector.iteratorErase index) (Tssx.iteratorErase true vector.view index) := by
  refine vectorErase_returns.bind fun code erased => ?_
  refine Returns.ite (fun _ => .some (Keeps.refl erased)) fun _ => ?_
  intro code' view' hr
  split at hr
  · rename_i hvalid
    obtain ⟨rfl, rfl⟩ := Prod.mk.inj (Option.some.inj hr)
    -- a block that is there is pointed to
    obtain ⟨cells, hcells⟩ := Option.isSome_iff_exists.mp hvalid.1
    obtain ⟨block, hblock, -⟩ := block_of_view hcells
    exact ⟨erased, if_pos ⟨by rw [hblock]; rfl, hvalid.2⟩, rfl, Keeps.refl erased⟩
  · cases hr

theorem resized_returns (h : Returns vector r r') :
    Returns vector
      (r.map fun (code, vector) =>
        if code = -1 then (VECTOR_ERROR, vector)
        else (VECTOR_SUCCESS, { vector with size := n }))
      (r'.map fun (code, view) =>
        if code = -1 then (VECTOR_ERROR, view) else (VECTOR_SUCCESS, { view with size := n })) := by
  refine h.map fun code vector' => ?_
  dsimp only
  by_cases hcode : code = -1
  · rw [if_pos hcode, if_pos hcode]
    exact .some (Keeps.refl vector')
  · rw [if_neg hcode, if_neg hcode]
    exact returns_sized vector' n

variable (hs : vector.elementSize ≠ 0)
  (h2 : VECTOR_MINIMUM_CAPACITY * vector.elementSize < 2 ^ 64)

include hs h2

/-- The bytes of the block fit, so both levels have one capacity. -/
theorem reallocate64_returns (hn : n * vector.elementSize < 2 ^ 64) :
    Returns vector (vector.vectorReallocate n) (vectorReallocate64 true vector.view n) := by
  have heq : vectorReallocate64 true vector.view n = Tssx.vectorReallocate true vector.view n :=
    reallocate64_eq hs hn h2
  rw [heq]
  exact vectorReallocate_returns

theorem vectorResize_returns (hfit : (VectorCall.resize (α := α) n).Fits vector.elementSize) :
    Returns vector (vector.vectorResize n) (Tssx.vectorResize true vector.view n) := by
  have hgrown : sizeT (n * VECTOR_GROWTH_FACTOR : Nat) = n * VECTOR_GROWTH_FACTOR := by
    have hle : n * VECTOR_GROWTH_FACTOR ≤ n * VECTOR_GROWTH_FACTOR * vector.elementSize :=
      Nat.le_mul_of_pos_right _ (Nat.pos_of_ne_zero hs)
    have hlt : n * VECTOR_GROWTH_FACTOR * vector.elementSize < 2 ^ 64 := hfit
    unfold sizeT
    omega
  unfold Stored.vectorResize Tssx.vectorResize
  simp only [hgrown]
  refine Returns.ite (fun _ => ?_) fun _ => ?_
  · have hempty : Returns { vector with size := n }
        ({ vector with size := n }.vectorReallocate (n * VECTOR_GROWTH_FACTOR))
        (vectorReallocate64 true { vector.view with size := n } (n * VECTOR_GROWTH_FACTOR)) :=
      reallocate64_returns hs h2 hfit
    exact Returns.of_sized (resized_returns hempty)
  · refine Returns.ite (fun _ => ?_) fun _ => returns_sized vector n
    exact resized_returns (reallocate64_returns hs h2 hfit)

theorem vectorReserve_returns (hfit : n * vector.elementSize < 2 ^ 64) :
    Returns vector (vector.vectorReserve n) (Tssx.vectorReserve true vector.view n) := by
  refine Returns.ite (fun _ => ?_) fun _ => .some (Keeps.refl vector)
  refine (reallocate64_returns hs h2 hfit).map fun code vector' => ?_
  dsimp only
  by_cases hcode : code = VECTOR_ERROR
  · rw [if_pos hcode, if_pos hcode]
    exact .some (Keeps.refl vector')
  · rw [if_neg hcode, if_neg hcode]
    exact .some (Keeps.refl vector')

/-- **A call does to the vector in the heap what it does to its view**, and leaves the other blocks
as they are. -/
theorem perform_returns {call : VectorCall α} (hfit : call.Fits vector.elementSize) :
    Returns vector (vector.perform call) (call.perform true vector.view) := by
  cases call with
  | pushBack element => exact vectorPushBack_returns element
  | pushFront element =>
    have h : Returns vector (vector.vectorInsert 0 element)
        (Tssx.vectorInsert true vector.view 0 element) := vectorInsert_returns element
    exact h
  | insert index element => exact vectorInsert_returns element
  | assign index element => exact vectorAssign_returns element
  | popBack => exact vectorPopBack_returns
  | popFront => exact vectorErase_returns
  | erase index => exact vectorErase_returns
  | iteratorErase index => exact iteratorErase_returns
  | clear =>
    have hzero : (VectorCall.resize (α := α) 0).Fits vector.elementSize := by
      simp [VectorCall.Fits]
    exact vectorResize_returns hs h2 hzero
  | resize newSize => exact vectorResize_returns hs h2 hfit
  | reserve minimumCapacity => exact vectorReserve_returns hs h2 hfit
  | shrinkToFit => exact vectorReallocate_returns

end Stored

end Tssx
