import Tssx.Vector.Refinement

/-!
# Vectors and failing allocations

Here every call has its own outcome of the allocation.  `Atomic`: the call succeeds and the vector
represents what the call makes of the list, or it returns `VECTOR_ERROR` and the vector is what it
was.

`_vector_reallocate` stores the result of `malloc` into `data` before it looks at it, so a failure
takes the block away (`Vector.Block.lost`); `vector_pop_back` and `vector_erase` do not look at
its result and return `VECTOR_SUCCESS`.  It also multiplies without looking at the size of the
product, and a request that wraps around gives a block too small for its capacity
(`Vector.Refines.wrapped`).  What remains are the calls that ask for no memory, and those that ask
for a size there is and get it (`vector_atomic`).
-/

namespace Tssx

variable {α : Type} {vector vector' : Vector α} {xs cells : List (Option α)} {x : α}
  {index n bytes : Nat} {allocated : Bool} {code : Int} {call : VectorCall α}

namespace VectorCall

/-- A call with the outcome of its allocation, and the list that goes with the vector: a call that
returns an error is not to change it. -/
def attempt (s : Vector α × List (Option α)) (a : VectorCall α × Bool) :
    Option (Vector α × List (Option α)) :=
  (a.1.perform a.2 s.1).map fun (code, vector) =>
    (vector, if code = VECTOR_SUCCESS then a.1.apply s.2 else s.2)

def Atomic (s : Vector α × List (Option α)) (a : VectorCall α × Bool) : Prop :=
  ∃ code vector', a.1.perform a.2 s.1 = some (code, vector') ∧
    ((code = VECTOR_SUCCESS ∧ vector'.Represents (a.1.apply s.2)) ∨
      (code = VECTOR_ERROR ∧ vector' = s.1))

/-- A call that asks for memory gets it, and asks for what it needs. -/
def Granted (s : Vector α × List (Option α)) (a : VectorCall α × Bool) : Prop :=
  a.1.Allocates s.1 → a.2 = true ∧ a.1.Fits s.1.elementSize

instance (s : Vector α × List (Option α)) (a : VectorCall α × Bool) : Decidable (Granted s a) :=
  inferInstanceAs (Decidable (_ → _))

/-- An argument is a `size_t`. -/
def Argument : VectorCall α → Prop
  | resize newSize => newSize < 2 ^ 64
  | reserve minimumCapacity => minimumCapacity < 2 ^ 64
  | _ => True

instance decidableArgument : ∀ call : VectorCall α, Decidable call.Argument
  | resize n | reserve n => inferInstanceAs (Decidable (n < 2 ^ 64))
  | pushBack _ | pushFront _ | insert _ _ | assign _ _ | popBack | popFront | erase _
  | iteratorErase _ | clear | shrinkToFit => inferInstanceAs (Decidable True)

end VectorCall

/-! ### A failure loses the block -/

theorem reallocate64_fails (h : Reallocates vector n) :
    vectorReallocate64 false vector n = some (VECTOR_ERROR, vectorDestroy vector) := by
  rw [vectorReallocate64, if_neg (reallocates_iff.mp h)]
  rfl

theorem adjustCapacity_fails (h : VECTOR_MINIMUM_CAPACITY < vector.capacity) :
    vectorAdjustCapacity false vector = some (VECTOR_ERROR, vectorDestroy vector) :=
  reallocate_fails (.inr h)

namespace Vector.Block

theorem grow_fails (h : vector.Block bytes cells) (hfull : vector.size = vector.capacity) :
    vectorAdjustCapacity false vector = some (VECTOR_ERROR, vectorDestroy vector) := by
  have hmin := h.capacity
  rw [VECTOR_MINIMUM_CAPACITY] at hmin
  refine reallocate_fails (.inl ?_)
  rw [VECTOR_MINIMUM_CAPACITY, VECTOR_GROWTH_FACTOR]
  omega

theorem insertion_fails (h : vector.Block bytes cells) (hfull : vector.size = vector.capacity)
    (hi : index ≤ cells.length) (x : α) :
    vectorInsert false vector index x = some (VECTOR_ERROR, vectorDestroy vector) := by
  rw [vectorInsert, if_neg (by rw [h.size]; omega), if_neg h.nonzero, h.shouldGrow,
    Option.bind_some, beq_iff_eq.mpr hfull, if_pos rfl, h.grow_fails hfull, Option.bind_some]
  rfl

theorem pushBack_fails (h : vector.Block bytes cells) (hfull : vector.size = vector.capacity)
    (x : α) : vectorPushBack false vector x = some (VECTOR_ERROR, vectorDestroy vector) := by
  rw [vectorPushBack, h.shouldGrow, Option.bind_some, beq_iff_eq.mpr hfull, if_pos rfl,
    h.grow_fails hfull, Option.bind_some]
  rfl

theorem popBack_fails (h : vector.Block bytes cells) (hpos : cells ≠ [])
    (ha : VectorCall.popBack.Allocates vector) :
    vectorPopBack false vector =
      some (VECTOR_SUCCESS, vectorDestroy { vector with size := vector.size - 1 }) := by
  have hsize : vector.size ≠ 0 := by
    rw [h.size]
    exact fun hn => hpos (List.eq_nil_of_length_eq_zero hn)
  have hshrink : vectorShouldShrink { vector with size := vector.size - 1 } = some true := by
    rw [vectorShouldShrink, if_pos (h.dropLast hpos).size_le]
    exact congrArg some (beq_iff_eq.mpr ha.1)
  have hfails : vectorAdjustCapacity false { vector with size := vector.size - 1 } =
      some (VECTOR_ERROR, vectorDestroy { vector with size := vector.size - 1 }) :=
    adjustCapacity_fails ha.2
  rw [vectorPopBack, if_neg hsize, if_neg h.nonzero]
  simp only [hshrink, Option.bind_some, if_true]
  rw [hfails, Option.map_some]

theorem erase_fails (h : vector.Block bytes cells) (hi : index < cells.length)
    (ha : (VectorCall.erase index).Allocates vector) :
    ∃ lost, vectorErase false vector index = some (VECTOR_SUCCESS, lost) ∧ lost.data = none := by
  obtain ⟨moved, hm, -, hsize, hcapacity⟩ := h.moveLeft hi
  have hfails : vectorAdjustCapacity false { moved with size := moved.size - 1 } =
      some (VECTOR_ERROR, vectorDestroy { moved with size := moved.size - 1 }) :=
    adjustCapacity_fails (Nat.lt_of_lt_of_eq ha.2 hcapacity.symm)
  rw [vectorErase, if_neg (by rw [h.size]; omega), if_neg h.nonzero, hm]
  simp only [Option.bind_some]
  rw [if_pos (by rw [hsize, hcapacity]; exact ha.1), hfails, Option.map_some]
  exact ⟨_, rfl, rfl⟩

theorem resize_fails (h : vector.Block bytes cells)
    (hfit : (VectorCall.resize (α := α) n).Fits bytes)
    (ha : (VectorCall.resize n).Allocates vector) :
    ∃ lost, vectorResize false vector n = some (VECTOR_ERROR, lost) ∧ lost.data = none := by
  unfold vectorResize
  rcases ha with ⟨rfl, hmin⟩ | hgrow
  · have hfails : ∀ m, vectorReallocate64 false { vector with size := 0 } m =
        some (VECTOR_ERROR, vectorDestroy { vector with size := 0 }) := fun m =>
      reallocate64_fails (.inr hmin)
    dsimp only
    rw [if_pos (Nat.zero_le _), hfails]
    exact ⟨_, rfl, rfl⟩
  · have hmin := h.capacity
    rw [VECTOR_MINIMUM_CAPACITY] at hmin
    dsimp only
    rw [if_neg (by rw [show VECTOR_SHRINK_THRESHOLD = 0 from rfl]; omega), if_pos hgrow,
      h.grown_eq hfit, reallocate64_fails (.inl (by
        rw [VECTOR_MINIMUM_CAPACITY, VECTOR_GROWTH_FACTOR]; omega))]
    exact ⟨_, rfl, rfl⟩

/-- **A call that asks for memory and gets none leaves the vector without a block.** -/
theorem lost (h : vector.Block bytes cells) (hw : call.Within cells.length) (hfit : call.Fits bytes)
    (ha : call.Allocates vector) (hp : call.perform false vector = some (code, vector')) :
    vector'.data = none := by
  -- from the result that the call is known to have
  have hresult : ∀ {code' : Int} {lost : Vector α}, some (code', lost) = some (code, vector') →
      lost.data = none → vector'.data = none := by
    rintro code' lost he hd
    obtain ⟨-, rfl⟩ := Prod.mk.inj (Option.some.inj he)
    exact hd
  cases call with
  | pushBack x => exact hresult ((h.pushBack_fails ha x).symm.trans hp) rfl
  | pushFront x => exact hresult ((h.insertion_fails ha (Nat.zero_le _) x).symm.trans hp) rfl
  | insert index x => exact hresult ((h.insertion_fails ha hw x).symm.trans hp) rfl
  | assign index x => exact ha.elim
  | popBack =>
    exact hresult ((h.popBack_fails (List.ne_nil_of_length_pos hw) ha).symm.trans hp) rfl
  | popFront =>
    obtain ⟨lost, he, hd⟩ := h.erase_fails hw ha
    exact hresult (he.symm.trans hp) hd
  | erase index =>
    obtain ⟨lost, he, hd⟩ := h.erase_fails hw ha
    exact hresult (he.symm.trans hp) hd
  | iteratorErase index =>
    -- the new iterator asserts an initialised vector
    obtain ⟨lost, he, hd⟩ := h.erase_fails hw ha
    have hnone : Tssx.iteratorErase false vector index = none := by
      rw [Tssx.iteratorErase, he, Option.bind_some]
      simp [vectorIsInitialized, hd, VECTOR_SUCCESS, VECTOR_ERROR]
    rw [VectorCall.perform, hnone] at hp
    cases hp
  | clear =>
    obtain ⟨lost, he, hd⟩ := h.resize_fails (n := 0) (by simp [VectorCall.Fits]) (.inl ⟨rfl, ha⟩)
    exact hresult (he.symm.trans hp) hd
  | resize n =>
    obtain ⟨lost, he, hd⟩ := h.resize_fails hfit ha
    exact hresult (he.symm.trans hp) hd
  | reserve n =>
    have hfails : vectorReserve false vector n = some (VECTOR_ERROR, vectorDestroy vector) := by
      have hgrow : vector.capacity < n := ha
      rw [vectorReserve, if_pos hgrow,
        reallocate64_fails (.inl (Nat.le_trans h.capacity (Nat.le_of_lt hgrow)))]
      rfl
    exact hresult (hfails.symm.trans hp) rfl
  | shrinkToFit => exact hresult ((reallocate_fails ha).symm.trans hp) rfl

end Vector.Block

/-! ### A wrapped request -/

theorem reallocate64_length (hr : Reallocates vector n)
    (h : vectorReallocate64 true vector n = some (code, vector')) :
    code = VECTOR_SUCCESS ∧ vector'.capacity = max n VECTOR_MINIMUM_CAPACITY ∧
      ∃ cells, vector'.data = some cells ∧ cells.length =
        sizeT (max n VECTOR_MINIMUM_CAPACITY * vector.elementSize : Nat) / vector.elementSize := by
  rw [vectorReallocate64, if_neg (reallocates_iff.mp hr)] at h
  dsimp only at h
  rw [if_neg (by decide)] at h
  obtain ⟨cells, hd, h⟩ := Option.bind_eq_some_iff.mp h
  split at h
  · cases h
  · obtain ⟨rfl, rfl⟩ := Prod.mk.inj (Option.some.inj h)
    refine ⟨rfl, rfl, _, rfl, ?_⟩
    rw [List.length_append, List.length_take, List.length_replicate]
    omega

theorem wrapped_lt (h : 2 ^ 64 ≤ n * bytes) : sizeT (n * bytes : Nat) / bytes < n := by
  refine Nat.div_lt_of_lt_mul ?_
  rw [Nat.mul_comm bytes n]
  unfold sizeT
  omega

/-- What cannot represent a list: no block, a size above the capacity, or a block smaller than the
capacity says. -/
def Vector.Broken (vector : Vector α) : Prop :=
  vector.data = none ∨ vector.capacity < vector.size ∨
    ∃ cells, vector.data = some cells ∧ cells.length < vector.capacity

theorem Vector.Represents.not_broken (h : vector.Represents xs) : ¬ vector.Broken := by
  obtain ⟨cells, hd, hlength⟩ := h.block
  have hle := h.capacity
  rintro (hnone | hlt | ⟨cells', hd', hlt⟩)
  · rw [hd] at hnone
    cases hnone
  · omega
  · obtain rfl := Option.some.inj (hd.symm.trans hd')
    omega

namespace Vector.Block

theorem resize_wrapped (h : vector.Block bytes cells) (hn : n < 2 ^ 64)
    (hgrow : vector.capacity < n) (hfit : 2 ^ 64 ≤ n * VECTOR_GROWTH_FACTOR * bytes)
    (hp : vectorResize allocated vector n = some (code, vector')) : vector'.Broken := by
  have hmin := h.capacity
  rw [VECTOR_MINIMUM_CAPACITY] at hmin
  unfold vectorResize at hp
  dsimp only at hp
  rw [if_neg (by rw [show VECTOR_SHRINK_THRESHOLD = 0 from rfl]; omega), if_pos hgrow] at hp
  obtain ⟨⟨code', grown⟩, hr, hp⟩ := Option.map_eq_some_iff.mp hp
  by_cases hrealloc : Reallocates vector (sizeT (n * VECTOR_GROWTH_FACTOR : Nat))
  · cases allocated with
    | false =>
      rw [reallocate64_fails hrealloc] at hr
      obtain ⟨rfl, rfl⟩ := Prod.mk.inj (Option.some.inj hr)
      obtain ⟨-, rfl⟩ := Prod.mk.inj hp
      exact .inl rfl
    | true =>
      obtain ⟨rfl, hcapacity, cells', hd, hlength⟩ := reallocate64_length hrealloc hr
      obtain ⟨-, rfl⟩ := Prod.mk.inj hp
      rw [VECTOR_MINIMUM_CAPACITY] at hcapacity hlength
      rw [VECTOR_GROWTH_FACTOR] at hcapacity hlength hfit
      rw [h.elementSize] at hlength
      by_cases htwice : n * 2 < 2 ^ 64
      · -- twice the size is a `size_t`, and its bytes are not
        have hgrown : max (sizeT (n * 2 : Nat)) 2 = n * 2 := by
          unfold sizeT
          omega
        rw [hgrown] at hcapacity hlength
        refine .inr (.inr ⟨cells', hd, ?_⟩)
        show cells'.length < grown.capacity
        rw [hcapacity, hlength]
        exact wrapped_lt hfit
      · refine .inr (.inl ?_)
        show grown.capacity < n
        rw [hcapacity]
        unfold sizeT
        omega
  · -- nothing is done, and the new size is above the old capacity
    rw [vectorReallocate64, if_pos (by rwa [reallocates_iff, not_not] at hrealloc)] at hr
    obtain ⟨rfl, rfl⟩ := Prod.mk.inj (Option.some.inj hr)
    obtain ⟨-, rfl⟩ := Prod.mk.inj hp
    exact .inr (.inl hgrow)

theorem reserve_wrapped (h : vector.Block bytes cells) (hgrow : vector.capacity < n)
    (hfit : 2 ^ 64 ≤ n * bytes) (hp : vectorReserve allocated vector n = some (code, vector')) :
    vector'.Broken := by
  have hmin := Nat.le_trans h.capacity (Nat.le_of_lt hgrow)
  rw [vectorReserve, if_pos hgrow] at hp
  obtain ⟨⟨code', grown⟩, hr, hp⟩ := Option.map_eq_some_iff.mp hp
  cases allocated with
  | false =>
    rw [reallocate64_fails (.inl hmin)] at hr
    obtain ⟨rfl, rfl⟩ := Prod.mk.inj (Option.some.inj hr)
    obtain ⟨-, rfl⟩ := Prod.mk.inj hp
    exact .inl rfl
  | true =>
    obtain ⟨rfl, hcapacity, cells', hd, hlength⟩ := reallocate64_length (.inl hmin) hr
    obtain ⟨-, rfl⟩ := Prod.mk.inj hp
    rw [Nat.max_eq_left hmin] at hcapacity hlength
    refine .inr (.inr ⟨cells', hd, ?_⟩)
    rw [hcapacity, hlength, h.elementSize]
    exact wrapped_lt hfit

/-- A call that asks for memory, and does not get it or asks for too little of it, breaks the
vector. -/
theorem broken (h : vector.Block bytes cells) (hw : call.Within cells.length)
    (harg : call.Argument) (ha : call.Allocates vector)
    (hno : ¬ (allocated = true ∧ call.Fits bytes))
    (hp : call.perform allocated vector = some (code, vector')) : vector'.Broken := by
  by_cases hfit : call.Fits bytes
  · obtain rfl : allocated = false := Bool.eq_false_of_not_eq_true fun ht => hno ⟨ht, hfit⟩
    exact .inl (h.lost hw hfit ha hp)
  · cases call with
    | resize n =>
      have hwrap : 2 ^ 64 ≤ n * VECTOR_GROWTH_FACTOR * bytes := Nat.le_of_not_lt hfit
      rcases ha with ⟨rfl, -⟩ | hgrow
      · rw [Nat.zero_mul, Nat.zero_mul] at hwrap
        exact absurd hwrap (by decide)
      · exact h.resize_wrapped harg hgrow hwrap hp
    | reserve n => exact h.reserve_wrapped ha (Nat.le_of_not_lt hfit) hp
    | _ => exact absurd trivial hfit

end Vector.Block

/-! ### Atomic calls -/

/-- **A call is atomic if and only if it asks for no memory or is granted what it needs.** -/
theorem Vector.Refines.atomic_iff (h : vector.Refines bytes xs)
    (h2 : VECTOR_MINIMUM_CAPACITY * bytes < 2 ^ 64) (hw : call.Within xs.length)
    (harg : call.Argument) :
    VectorCall.Atomic (vector, xs) (call, allocated) ↔
      VectorCall.Granted (vector, xs) (call, allocated) := by
  obtain ⟨cells, hb, hm⟩ := h
  rw [VectorCall.Granted, hb.elementSize]
  constructor
  · rintro ⟨code, vector', hp, hresult⟩ ha
    by_contra hno
    have hbroken := hb.broken (hm.length_eq ▸ hw) harg ha hno hp
    rcases hresult with ⟨-, hrep⟩ | ⟨-, rfl⟩
    · exact hrep.not_broken hbroken
    · exact (Vector.Refines.represents ⟨cells, hb, hm⟩).2.not_broken hbroken
  · intro ha
    obtain ⟨vector', hp, hr⟩ := Vector.Refines.perform ⟨cells, hb, hm⟩ h2 hw ha
    exact ⟨_, vector', hp, .inl ⟨rfl, hr.represents.2⟩⟩

/-- **The runs all of whose calls are atomic** are those in which every call that asks for memory is
granted what it needs. -/
theorem vector_atomic (capacity bytes : Nat) (calls : List (VectorCall α × Bool)) (hb : bytes ≠ 0)
    (hfit : max VECTOR_MINIMUM_CAPACITY capacity * bytes < 2 ^ 64)
    (hcalls : Run.Meets VectorCall.attempt (fun s a => a.1.Within s.2.length ∧ a.1.Argument)
      ((vectorSetup true capacity bytes).2, []) calls) :
    Run.Meets VectorCall.attempt VectorCall.Atomic ((vectorSetup true capacity bytes).2, []) calls ↔
      Run.Meets VectorCall.attempt VectorCall.Granted
        ((vectorSetup true capacity bytes).2, []) calls := by
  obtain ⟨hstart, h2⟩ := Vector.Refines.setup (α := α) hb hfit
  refine Run.Meets.congr (J := fun s => s.1.Refines bytes s.2) ?_ ?_ hstart hcalls
  · rintro ⟨vector, xs⟩ ⟨call, allocated⟩ t hr ⟨hw, -⟩ hg hstep
    obtain ⟨cells, hblock, hm⟩ := hr
    rw [VectorCall.Granted, hblock.elementSize] at hg
    obtain ⟨vector', hp, hr'⟩ := Vector.Refines.perform ⟨cells, hblock, hm⟩ h2 hw hg
    obtain rfl : (vector', VectorCall.apply xs call) = t := by
      rw [VectorCall.attempt, hp] at hstep
      exact Option.some.inj hstep
    exact hr'
  · rintro ⟨vector, xs⟩ ⟨call, allocated⟩ hr ⟨hw, harg⟩
    exact hr.atomic_iff h2 hw harg

/-- The third element makes the vector grow. -/
theorem grantedPushes_atomic :
    Run.Meets VectorCall.attempt VectorCall.Atomic ((vectorSetup (α := Nat) true 0 4).2, [])
      [(.pushBack 1, false), (.pushBack 2, false), (.pushBack 3, true)] :=
  (vector_atomic 0 4 [(.pushBack 1, false), (.pushBack 2, false), (.pushBack 3, true)] (by decide)
    (by decide) (by decide)).mpr (by decide)

/-- Without memory for the third element the first two are lost, and a vector that becomes empty
again loses its block to a deletion that succeeds. -/
theorem fullPush_notAtomic :
    ¬ Run.Meets VectorCall.attempt VectorCall.Atomic ((vectorSetup (α := Nat) true 0 4).2, [])
        [(.pushBack 1, true), (.pushBack 2, true), (.pushBack 3, false)] ∧
      ¬ Run.Meets VectorCall.attempt VectorCall.Atomic ((vectorSetup (α := Nat) true 0 4).2, [])
        [(.pushBack 1, true), (.pushBack 2, true), (.pushBack 3, true), (.popBack, true),
          (.popBack, true), (.popBack, false)] := by
  constructor
  · intro h
    obtain ⟨code, vector', hp, hresult⟩ := ((h.2 _ rfl).2 _ rfl).1
    obtain ⟨rfl, rfl⟩ := Prod.mk.inj (Option.some.inj hp)
    rcases hresult with ⟨hcode, -⟩ | ⟨-, he⟩
    · exact absurd hcode (by decide)
    · exact absurd (congrArg Vector.data he) (by decide)
  · intro h
    obtain ⟨code, vector', hp, hresult⟩ := (((((h.2 _ rfl).2 _ rfl).2 _ rfl).2 _ rfl).2 _ rfl).1
    obtain ⟨rfl, rfl⟩ := Prod.mk.inj (Option.some.inj hp)
    rcases hresult with ⟨-, hrep⟩ | ⟨hcode, -⟩
    · obtain ⟨cells, hd, -⟩ := hrep.block
      cases hd
    · exact absurd hcode (by decide)

end Tssx
