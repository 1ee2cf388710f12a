import Tssx.Vector.Contents
import Tssx.Vector.Stored

/-!
# The free list

`free-list.c`, with its vector in a heap: `free_list_pop` takes a pointer to the last key, pops
that key off the vector, and then reads through the pointer.  Where the pop reallocates, the block
that the pointer points to is removed, and there is nothing to read (`FreeList.pop_last`).

`vector_pop_back` reallocates when the list becomes empty with a capacity above the minimum.  The
capacity grows with the third key, and stays until the list is empty again, so a pop is wrong
exactly if it takes the last key of a list that has held three (`freeList_is_stack`).
-/

namespace Tssx

/-- A key is an `int`. -/
abbrev FreeList := Stored Int

/-- `vector_back`: the pointer, a block and an index, is `none` when it is null. -/
def Stored.vectorBack {α : Type} (vector : Stored α) : Option (Option (Nat × Nat)) :=
  if vector.size = 0 then none
  else if vector.elementSize = 0 then some none
  else vector.data.map fun block => some (block, vector.size - 1)

/-- The value that a pointer points to; a removed block has none. -/
def readPointer {α : Type} (heap : Heap (List (Option α))) (pointer : Nat × Nat) : Option α :=
  (heap.block pointer.1).bind fun cells => cells[pointer.2]?.bind id

/-- A program that terminates on an error has no result. -/
def freeListSetup (list : FreeList) : Option FreeList :=
  let (code, list) := list.vectorSetup 0 sizeofKey
  if code = VECTOR_ERROR then none else some list

def freeListPush (list : FreeList) (key : Int) : Option FreeList :=
  (list.vectorPushBack key).bind fun (code, list) =>
    if code = VECTOR_ERROR then none else some list

/-- The key that is returned is `none` where nothing can be read. -/
def freeListPop (list : FreeList) : Option (Option Int × FreeList) :=
  list.vectorBack.bind fun pointer =>
    pointer.bind fun pointer =>
      list.vectorPopBack.bind fun (code, list) =>
        if code = VECTOR_ERROR then none else some (readPointer list.heap pointer, list)

/-! ### One call -/

namespace FreeList

variable {list : FreeList} {xs : List Int} {key : Int}

theorem size_eq (h : list.view.Holds (xs ++ [key])) : list.size = xs.length + 1 := by
  have hsize : list.size = (xs ++ [key]).length := h.size
  rwa [List.length_append] at hsize

theorem back (h : list.view.Holds (xs ++ [key])) :
    ∃ block, list.vectorBack = some (some (block, xs.length)) ∧ list.data = some block ∧
      readPointer list.heap (block, xs.length) = some key := by
  obtain ⟨free, hd, -⟩ := h.data
  obtain ⟨block, hblock, hcells⟩ := Stored.block_of_view hd
  have hsize := size_eq h
  refine ⟨block, ?_, hblock, ?_⟩
  · have hpositive : list.elementSize ≠ 0 := h.elementSize
    rw [Stored.vectorBack, if_neg (by omega), if_neg hpositive, hblock, Option.map_some, hsize]
    rfl
  · rw [readPointer]
    dsimp only
    rw [hcells]
    simp

/-- The vector shrinks when it becomes empty. -/
theorem popBack_eq (h : list.view.Holds (xs ++ [key])) :
    list.vectorPopBack =
      if xs = [] then
        ({ list with size := list.size - 1 } : FreeList).vectorAdjustCapacity.map fun p =>
          (VECTOR_SUCCESS, p.2)
      else some (VECTOR_SUCCESS, { list with size := list.size - 1 }) := by
  have hsize := size_eq h
  have hpositive : list.elementSize ≠ 0 := h.elementSize
  have hshrink : vectorShouldShrink ({ list with size := list.size - 1 } : FreeList).view =
      some (list.size - 1 == list.capacity * VECTOR_SHRINK_THRESHOLD) := if_pos h.dropLast.size_le
  rw [Stored.vectorPopBack, if_neg (by omega), if_neg hpositive]
  dsimp only
  rw [hshrink, Option.bind_some, show VECTOR_SHRINK_THRESHOLD = 0 from rfl, Nat.mul_zero, hsize,
    Nat.add_sub_cancel]
  cases xs with
  | nil => rfl
  | cons x xs => rfl

theorem pop_stays (h : list.view.Holds (xs ++ [key]))
    (hp : list.vectorPopBack = some (VECTOR_SUCCESS, { list with size := list.size - 1 })) :
    freeListPop list = some (some key, { list with size := list.size - 1 }) := by
  obtain ⟨block, hback, -, hread⟩ := back h
  rw [freeListPop, hback, Option.bind_some, Option.bind_some, hp, Option.bind_some]
  simp only
  rw [if_neg (by decide), hread]

theorem pop_more (h : list.view.Holds (xs ++ [key])) (hxs : xs ≠ []) :
    freeListPop list = some (some key, { list with size := list.size - 1 }) :=
  pop_stays h (by rw [popBack_eq h, if_neg hxs])

theorem pop_small (h : list.view.Holds ([] ++ [key]))
    (hc : list.capacity ≤ VECTOR_MINIMUM_CAPACITY) :
    freeListPop list = some (some key, { list with size := list.size - 1 }) := by
  have hsize : list.size = 1 := h.size
  have hsmall : max 1 ((list.size - 1) * VECTOR_GROWTH_FACTOR) < VECTOR_MINIMUM_CAPACITY := by
    rw [hsize]
    decide
  refine pop_stays h ?_
  rw [popBack_eq h, if_pos rfl, Stored.vectorAdjustCapacity, Stored.vectorReallocate,
    if_pos ⟨hsmall, hc⟩]
  rfl

/-- The list in the new block that it gets when it becomes empty. -/
def renewed (list : FreeList) : FreeList :=
  { size := 0
    capacity := VECTOR_MINIMUM_CAPACITY
    elementSize := list.elementSize
    data := some list.heap.next
    heap := (list.heap.allocate (List.replicate VECTOR_MINIMUM_CAPACITY none)).2.release list.data }

/-- **The last key of a list that has grown is read from the removed block.** -/
theorem pop_last (h : list.view.Holds ([] ++ [key]))
    (hc : VECTOR_MINIMUM_CAPACITY < list.capacity) :
    freeListPop list = some (none, renewed list) ∧ (renewed list).view.Holds [] := by
  obtain ⟨block, hback, hdata, -⟩ := back h
  obtain ⟨free, hd, -⟩ := h.data
  have hsize : list.size = 1 := h.size
  have hcells : list.data.bind list.heap.block = some (([] ++ [key]).map some ++ free) := hd
  have hne : list.data ≠ some list.heap.next := by
    have hlive : list.heap.block block ≠ none := by
      rw [hdata, Option.bind_some] at hcells
      simp [hcells]
    rw [hdata]
    exact fun he => Heap.ne_next hlive (Option.some.inj he)
  have hlarge : ¬ (max 1 ((list.size - 1) * VECTOR_GROWTH_FACTOR) < VECTOR_MINIMUM_CAPACITY ∧
      list.capacity ≤ VECTOR_MINIMUM_CAPACITY) := fun hsmall => Nat.not_lt.mpr hsmall.2 hc
  have hpop : list.vectorPopBack = some (VECTOR_SUCCESS, renewed list) := by
    rw [popBack_eq h, if_pos rfl, Stored.vectorAdjustCapacity, Stored.vectorReallocate]
    dsimp only
    rw [if_neg hlarge, hcells, Option.bind_some, hsize, if_neg (by simp)]
    rfl
  have hread : readPointer (renewed list).heap (block, 0) = none := by
    rw [readPointer, renewed, hdata]
    dsimp only
    rw [Heap.block_release_self]
    rfl
  constructor
  · rw [freeListPop, hback, Option.bind_some, Option.bind_some, hpop, Option.bind_some]
    simp only
    rw [if_neg (by decide)]
    exact congrArg (fun value => some (value, renewed list)) hread
  · have hblock : (renewed list).heap.block list.heap.next =
        some (List.replicate VECTOR_MINIMUM_CAPACITY none) :=
      (Heap.block_release_of_ne hne).trans Heap.block_allocate_self
    exact { size := rfl, capacity := Nat.le_refl _, elementSize := h.elementSize,
            data := ⟨_, hblock, rfl⟩ }

end FreeList

/-! ### Pushes and pops -/

inductive FreeListCall
  | push (key : Int)
  | pop
  deriving DecidableEq

/-- The keys that are in the list, the one pushed last first, and how many there have been at most
since there were none. -/
structure KeyStack where
  keys : List Int
  height : Nat
  deriving DecidableEq

def KeyStack.empty : KeyStack := { keys := [], height := 0 }

def KeyStack.apply (stack : KeyStack) : FreeListCall → KeyStack
  | .push key =>
    { keys := key :: stack.keys, height := max stack.height (stack.keys.length + 1) }
  | .pop =>
    { keys := stack.keys.tail, height := if stack.keys.length ≤ 1 then 0 else stack.height }

namespace FreeListCall

/-- The list, and the stack that it is to be. -/
def step (s : FreeList × KeyStack) (call : FreeListCall) : Option (FreeList × KeyStack) :=
  (match call with
    | push key => freeListPush s.1 key
    | pop => (freeListPop s.1).map Prod.snd).map fun list => (list, s.2.apply call)

/-- A pop is made only when the list is not empty. -/
def Valid (s : FreeList × KeyStack) : FreeListCall → Prop
  | push _ => True
  | pop => s.2.keys ≠ []

/-- A key is taken, or the one that was pushed last is returned. -/
def Answers (s : FreeList × KeyStack) : FreeListCall → Prop
  | push key => (freeListPush s.1 key).isSome = true
  | pop => (freeListPop s.1).map Prod.fst = some s.2.keys.head?

/-- The last key of a list that has held three is not popped. -/
def KeepsBlock (s : FreeList × KeyStack) : FreeListCall → Prop
  | push _ => True
  | pop => ¬ (s.2.keys.length = 1 ∧ 3 ≤ s.2.height)

instance (s : FreeList × KeyStack) : ∀ call, Decidable (Valid s call)
  | push _ => inferInstanceAs (Decidable True)
  | pop => inferInstanceAs (Decidable (s.2.keys ≠ []))

instance (s : FreeList × KeyStack) : ∀ call, Decidable (Answers s call)
  | push key => inferInstanceAs (Decidable ((freeListPush s.1 key).isSome = true))
  | pop => inferInstanceAs (Decidable ((freeListPop s.1).map Prod.fst = some s.2.keys.head?))

instance (s : FreeList × KeyStack) : ∀ call, Decidable (KeepsBlock s call)
  | push _ => inferInstanceAs (Decidable True)
  | pop => inferInstanceAs (Decidable (¬ (s.2.keys.length = 1 ∧ 3 ≤ s.2.height)))

end FreeListCall

/-- The vector is the stack upside down, and has grown if there were three keys. -/
structure FreeList.Follows (list : FreeList) (stack : KeyStack) : Prop where
  holds : list.view.Holds stack.keys.reverse
  grown : VECTOR_MINIMUM_CAPACITY < list.capacity ↔ 3 ≤ stack.height
  height : stack.keys.length ≤ stack.height

namespace FreeList.Follows

variable {list popped : FreeList} {stack : KeyStack} {key : Int}

theorem push (h : list.Follows stack) (key : Int) :
    ∃ pushed, freeListPush list key = some pushed ∧ pushed.Follows (stack.apply (.push key)) := by
  have hsize : list.size = stack.keys.length := by
    have := h.holds.size
    rwa [List.length_reverse] at this
  have hle : list.size ≤ list.capacity := h.holds.size_le
  have hmin : VECTOR_MINIMUM_CAPACITY ≤ list.capacity := h.holds.capacity
  have hgrown := h.grown
  have hheight := h.height
  rw [VECTOR_MINIMUM_CAPACITY] at hmin hgrown
  obtain ⟨view', hp, hholds, hcapacity⟩ : ∃ view',
      vectorPushBack true list.view key = some (VECTOR_SUCCESS, view') ∧
      view'.Holds (stack.keys.reverse ++ [key]) ∧
      (2 < view'.capacity ↔ 3 ≤ max stack.height (stack.keys.length + 1)) := by
    by_cases hfull : list.size = list.capacity
    · obtain ⟨⟨view', hp, hholds, hc⟩, -⟩ := h.holds.pushBack_full hfull key
      refine ⟨view', hp, hholds, ?_⟩
      have hc' : view'.capacity = 2 * list.capacity := hc
      omega
    · obtain ⟨view', hp, hholds, hc⟩ := h.holds.pushBack_room hfull key true
      refine ⟨view', hp, hholds, ?_⟩
      have hc' : view'.capacity = list.capacity := hc
      omega
  obtain ⟨pushed, hpushed, rfl, -⟩ := Stored.vectorPushBack_returns key _ _ hp
  refine ⟨pushed, by rw [freeListPush, hpushed]; rfl, ?_, hcapacity, ?_⟩
  · rw [KeyStack.apply, List.reverse_cons]
    exact hholds
  · show stack.keys.length + 1 ≤ max stack.height (stack.keys.length + 1)
    omega

/-- **A pop returns the key that was pushed last, unless it takes the last key of a list that has
held three.** -/
theorem pop (h : list.Follows stack) (hne : stack.keys ≠ []) :
    ∃ value popped, freeListPop list = some (value, popped) ∧ popped.Follows (stack.apply .pop) ∧
      (value = stack.keys.head? ↔ ¬ (stack.keys.length = 1 ∧ 3 ≤ stack.height)) := by
  obtain ⟨keys, height⟩ := stack
  cases keys with
  | nil => exact absurd rfl hne
  | cons key keys =>
    have hholds : list.view.Holds (keys.reverse ++ [key]) := by
      have := h.holds
      rwa [List.reverse_cons] at this
    cases keys with
    | cons next keys =>
      have hmore : (next :: keys).reverse ≠ [] := by simp
      refine ⟨some key, _, FreeList.pop_more hholds hmore, ?_, ?_⟩
      · refine { holds := hholds.dropLast, grown := ?_, height := ?_ }
        · rw [KeyStack.apply, if_neg (by simp)]
          exact h.grown
        · rw [KeyStack.apply, if_neg (by simp)]
          exact Nat.le_of_succ_le h.height
      · simp
    | nil =>
      by_cases hgrown : VECTOR_MINIMUM_CAPACITY < list.capacity
      · obtain ⟨hpop, hempty⟩ := FreeList.pop_last hholds hgrown
        refine ⟨none, _, hpop, ?_, ?_⟩
        · exact { holds := hempty
                  grown := iff_of_false (Nat.lt_irrefl _) (Nat.not_succ_le_zero 2)
                  height := Nat.le_refl 0 }
        · have hheight : 3 ≤ height := h.grown.mp hgrown
          simp [hheight]
      · refine ⟨some key, _, FreeList.pop_small hholds (Nat.le_of_not_lt hgrown), ?_, ?_⟩
        · exact { holds := hholds.dropLast
                  grown := iff_of_false hgrown (Nat.not_succ_le_zero 2)
                  height := Nat.le_refl 0 }
        · have hheight : ¬ 3 ≤ height := fun hheight => hgrown (h.grown.mpr hheight)
          simp [hheight]

theorem setup {list start : FreeList} (h : freeListSetup list = some start) :
    start.Follows KeyStack.empty := by
  obtain rfl := Option.some.inj h
  have hblock : (list.heap.allocate (List.replicate VECTOR_MINIMUM_CAPACITY none)).2.block
      list.heap.next = some (List.replicate VECTOR_MINIMUM_CAPACITY none) :=
    Heap.block_allocate_self
  have hholds : (list.vectorSetup 0 sizeofKey).2.view.Holds [] :=
    { size := rfl, capacity := Nat.le_refl _, elementSize := Nat.succ_ne_zero 3,
      data := ⟨_, hblock, rfl⟩ }
  exact { holds := hholds, grown := iff_of_false (Nat.lt_irrefl _) (by decide),
          height := Nat.le_refl 0 }

end FreeList.Follows

/-! ### Every sequence of calls -/

namespace FreeListCall

variable {s s' : FreeList × KeyStack} {call : FreeListCall}

theorem step_follows (h : s.1.Follows s.2) (hv : call.Valid s) (hs : call.step s = some s') :
    s'.1.Follows s'.2 := by
  obtain ⟨list, hlist, rfl⟩ := Option.map_eq_some_iff.mp hs
  cases call with
  | push key =>
    obtain ⟨pushed, hp, hf⟩ := h.push key
    obtain rfl := Option.some.inj (hp.symm.trans hlist)
    exact hf
  | pop =>
    obtain ⟨value, popped, hp, hf, -⟩ := h.pop hv
    dsimp only at hlist
    rw [hp] at hlist
    obtain rfl := Option.some.inj hlist
    exact hf

theorem answers_iff (h : s.1.Follows s.2) (hv : call.Valid s) :
    call.Answers s ↔ call.KeepsBlock s := by
  cases call with
  | push key =>
    obtain ⟨pushed, hp, -⟩ := h.push key
    exact iff_of_true (by rw [Answers, hp]; rfl) trivial
  | pop =>
    obtain ⟨value, popped, hp, -, hvalue⟩ := h.pop hv
    rw [Answers, KeepsBlock, ← hvalue, hp, Option.map_some]
    exact Option.some_inj

end FreeListCall

/-- **Every pop returns the key that was pushed last if and only if no pop takes the last key of a
list that has held three since it was empty.** -/
theorem freeList_is_stack (list : FreeList) {start : FreeList}
    (hstart : freeListSetup list = some start) (calls : List FreeListCall)
    (hcalls : Run.Meets FreeListCall.step FreeListCall.Valid (start, KeyStack.empty) calls) :
    Run.Meets FreeListCall.step FreeListCall.Answers (start, KeyStack.empty) calls ↔
      Run.Meets FreeListCall.step FreeListCall.KeepsBlock (start, KeyStack.empty) calls :=
  Run.Meets.congr (J := fun s => s.1.Follows s.2)
    (fun _ _ _ hs hv _ hstep => FreeListCall.step_follows hs hv hstep)
    (fun _ _ hs hv => FreeListCall.answers_iff hs hv) (FreeList.Follows.setup hstart) hcalls

theorem pushedTwice_is_stack :
    Run.Meets FreeListCall.step FreeListCall.Answers
      ((({ Header.initializer with heap := Heap.empty } : FreeList).vectorSetup 0 sizeofKey).2,
        KeyStack.empty) [.push 1, .push 2, .pop, .push 3, .pop, .pop] :=
  (freeList_is_stack { Header.initializer with heap := Heap.empty } rfl
    [.push 1, .push 2, .pop, .push 3, .pop, .pop] (by decide +kernel)).mpr (by decide +kernel)

/-- Three keys are pushed and popped: the third pop returns nothing. -/
theorem pushedThrice_fails :
    Run.Meets FreeListCall.step FreeListCall.Valid
        ((({ Header.initializer with heap := Heap.empty } : FreeList).vectorSetup 0 sizeofKey).2,
          KeyStack.empty) [.push 1, .push 2, .push 3, .pop, .pop, .pop] ∧
      ¬ Run.Meets FreeListCall.step FreeListCall.Answers
        ((({ Header.initializer with heap := Heap.empty } : FreeList).vectorSetup 0 sizeofKey).2,
          KeyStack.empty) [.push 1, .push 2, .push 3, .pop, .pop, .pop] := by
  decide +kernel

end Tssx
