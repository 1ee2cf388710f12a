import Tssx.Vector.Refinement

/-!
# Vectors built with `VECTOR_NO_SHRINK`

The option leaves out the reallocation of a deletion.  In `vector_pop_back` that is all it leaves
out; in `vector_erase` the size is decremented in the condition of the `if` that it leaves out, so
the vector keeps its size and shows its last element twice.  Up to the first such deletion both
builds show the same, and never after it (`noShrink_agrees`).
-/

namespace Tssx

variable {α : Type} {vector vector' shrinking keeping : Vector α} {xs cells : List (Option α)}
  {x : α} {index bytes : Nat} {call : VectorCall α} {calls : List (VectorCall α)}

/-- `vector_pop_back` with `VECTOR_NO_SHRINK`. -/
def vectorPopBackNoShrink (vector : Vector α) : Option (Int × Vector α) :=
  if vector.size = 0 then none
  else if vector.elementSize = 0 then some (VECTOR_ERROR, vector)
  else some (VECTOR_SUCCESS, { vector with size := vector.size - 1 })

/-- `vector_erase` with `VECTOR_NO_SHRINK`. -/
def vectorEraseNoShrink (vector : Vector α) (index : Nat) : Option (Int × Vector α) :=
  if vector.size ≤ index then none
  else if vector.elementSize = 0 then some (VECTOR_ERROR, vector)
  else (vectorMoveLeft vector index).map fun vector => (VECTOR_SUCCESS, vector)

/-- `iterator_erase` with `VECTOR_NO_SHRINK`. -/
def iteratorEraseNoShrink (vector : Vector α) (index : Nat) : Option (Int × Vector α) :=
  (vectorEraseNoShrink vector index).bind fun (code, vector) =>
    if code = VECTOR_ERROR then some (code, vector)
    else if vectorIsInitialized vector ∧ index ≤ vector.size then some (VECTOR_SUCCESS, vector)
    else none

namespace VectorCall

/-- A call of the build with `VECTOR_NO_SHRINK`. -/
def performNoShrink (vector : Vector α) : VectorCall α → Option (Int × Vector α)
  | popBack => vectorPopBackNoShrink vector
  | popFront => vectorEraseNoShrink vector 0
  | erase index => vectorEraseNoShrink vector index
  | iteratorErase index => iteratorEraseNoShrink vector index
  | call => call.perform true vector

def stepNoShrink (vector : Vector α) (call : VectorCall α) : Option (Vector α) :=
  (call.performNoShrink vector).bind fun (code, vector) =>
    if code = VECTOR_SUCCESS then some vector else none

/-- The deletions that end in `vector_erase`. -/
def erases : VectorCall α → Bool
  | popFront | erase _ | iteratorErase _ => true
  | _ => false

end VectorCall

/-- Two vectors show the same: their sizes, and what they have of the elements that the list
specifies. -/
structure ShowsSame (xs : List (Option α)) (vector vector' : Vector α) : Prop where
  size : vector.size = vector'.size
  get : ∀ index x, xs[index]? = some (some x) → vectorGet vector index = vectorGet vector' index

/-! ### The calls of the build -/

theorem Vector.Block.popBackNoShrink (h : vector.Block bytes cells) (hpos : cells ≠ []) :
    ∃ vector', vectorPopBackNoShrink vector = some (VECTOR_SUCCESS, vector') ∧
      vector'.Block bytes cells.dropLast := by
  have hsize : vector.size ≠ 0 := by
    rw [h.size]
    exact fun hn => hpos (List.eq_nil_of_length_eq_zero hn)
  exact ⟨_, by rw [vectorPopBackNoShrink, if_neg hsize, if_neg h.nonzero], h.dropLast hpos⟩

theorem Vector.Refines.stepNoShrink (h : vector.Refines bytes xs)
    (h2 : VECTOR_MINIMUM_CAPACITY * bytes < 2 ^ 64) (hc : call.Valid bytes xs)
    (he : call.erases = false) :
    ∃ vector', call.stepNoShrink vector = some vector' ∧
      vector'.Refines bytes (call.apply xs) := by
  cases call with
  | popBack =>
    obtain ⟨cells, hb, hm⟩ := h
    have hpos : cells ≠ [] := by
      rw [← List.length_pos_iff, ← hm.length_eq]
      exact hc.1
    obtain ⟨vector', hp, hb'⟩ := hb.popBackNoShrink hpos
    refine ⟨vector', ?_, cells.dropLast, hb', VectorCall.popBack.apply_meant hm⟩
    rw [VectorCall.stepNoShrink, VectorCall.performNoShrink, hp]
    rfl
  | popFront | erase _ | iteratorErase _ => cases he
  | _ => exact h.step h2 hc

theorem Vector.Refines.runNoShrink (h : vector.Refines bytes xs)
    (h2 : VECTOR_MINIMUM_CAPACITY * bytes < 2 ^ 64)
    (hcalls : Run.Meets (fun xs call => some (VectorCall.apply xs call)) (VectorCall.Valid bytes)
      xs calls) (hkeeps : ∀ call ∈ calls, call.erases = false) :
    ∃ vector', Run.run VectorCall.stepNoShrink vector calls = some vector' ∧
      vector'.Refines bytes (calls.foldl VectorCall.apply xs) := by
  have hstep : ∀ (vector : Vector α) xs call, vector.Refines bytes xs →
      VectorCall.Valid bytes xs call ∧ call.erases = false →
      ∃ vector', VectorCall.stepNoShrink vector call = some vector' ∧
        vector'.Refines bytes (VectorCall.apply xs call) :=
    fun vector xs call h hc => h.stepNoShrink h2 hc.1 hc.2
  exact Run.foldl_of_spec hstep h
    (hcalls.and (Run.meets_of_forall fun call hc _ => hkeeps call hc))

/-- **An erased element is not counted out.** -/
theorem stepNoShrink_erases (he : call.erases = true)
    (hs : call.stepNoShrink vector = some vector') : vector'.size = vector.size := by
  have herase : ∀ {index code} {erased : Vector α},
      vectorEraseNoShrink vector index = some (code, erased) → erased.size = vector.size := by
    intro index code erased h
    unfold vectorEraseNoShrink at h
    split at h
    · cases h
    · split at h
      · obtain ⟨-, rfl⟩ := Prod.mk.inj (Option.some.inj h)
        rfl
      · obtain ⟨moved, hm, he⟩ := Option.map_eq_some_iff.mp h
        obtain ⟨-, rfl⟩ := Prod.mk.inj he
        obtain ⟨cells, -, hm⟩ := Option.bind_eq_some_iff.mp hm
        split at hm
        · cases hm
        · obtain rfl := Option.some.inj hm
          rfl
  obtain ⟨⟨code, erased⟩, hp, hs⟩ := Option.bind_eq_some_iff.mp hs
  obtain rfl : erased = vector' := by
    dsimp only at hs
    split at hs
    · exact Option.some.inj hs
    · cases hs
  cases call with
  | popFront | erase index => exact herase hp
  | iteratorErase index =>
    obtain ⟨⟨code', first⟩, hfirst, hp⟩ := Option.bind_eq_some_iff.mp hp
    dsimp only at hp
    split at hp
    · obtain ⟨-, rfl⟩ := Prod.mk.inj (Option.some.inj hp)
      exact herase hfirst
    · split at hp
      · obtain ⟨-, rfl⟩ := Prod.mk.inj (Option.some.inj hp)
        exact herase hfirst
      · cases hp
  | _ => cases he

theorem VectorCall.length_apply_erases (he : call.erases = true) (hw : call.Within xs.length) :
    (call.apply xs).length < xs.length := by
  cases call with
  | popFront =>
    have hpos : 0 < xs.length := hw
    rw [apply, List.length_tail]
    omega
  | erase index | iteratorErase index =>
    have hlt : index < xs.length := hw
    rw [apply, List.length_eraseIdx, if_pos hlt]
    omega
  | _ => cases he

theorem Vector.Refines.showsSame (h : shrinking.Refines bytes xs) (hk : keeping.Refines bytes xs) :
    ShowsSame xs shrinking keeping := by
  have hs := h.represents.2
  have hkeep := hk.represents.2
  refine ⟨hs.size.trans hkeep.size.symm, ?_⟩
  intro index x hx
  rw [hs.get index x hx, hkeep.get index x hx]

/-! ### Runs of the two builds -/

/-- The sizes part at the first element that is erased. -/
theorem erases_of_sameSizes (h : shrinking.Refines bytes xs) (hk : keeping.Refines bytes xs)
    (h2 : VECTOR_MINIMUM_CAPACITY * bytes < 2 ^ 64)
    (hcalls : Run.Meets (fun xs call => some (VectorCall.apply xs call)) (VectorCall.Valid bytes)
      xs calls)
    (hall : ∀ bs, bs <+: calls → ∃ v w, Run.run VectorCall.step shrinking bs = some v ∧
      Run.run VectorCall.stepNoShrink keeping bs = some w ∧ v.size = w.size) :
    ∀ call ∈ calls, call.erases = false := by
  induction calls generalizing shrinking keeping xs with
  | nil => exact fun call hc => absurd hc List.not_mem_nil
  | cons call calls ih =>
    obtain ⟨hc, hrest⟩ := hcalls
    obtain ⟨v, hv, hv'⟩ := h.step h2 hc
    have hkeeps : call.erases = false := by
      by_contra he
      rw [Bool.not_eq_false] at he
      obtain ⟨v', w, hrun, hrun', hsize⟩ :=
        hall [call] (List.cons_prefix_cons.mpr ⟨rfl, List.nil_prefix⟩)
      obtain ⟨m, hm, hm'⟩ := Run.run_cons.mp hrun
      obtain ⟨n, hn, hn'⟩ := Run.run_cons.mp hrun'
      obtain rfl := Option.some.inj hm'
      obtain rfl := Option.some.inj hn'
      obtain rfl := Option.some.inj (hm.symm.trans hv)
      have hlt := VectorCall.length_apply_erases he hc.1
      rw [stepNoShrink_erases he hn, hv'.represents.2.size, hk.represents.2.size] at hsize
      omega
    obtain ⟨w, hw', hkw⟩ := hk.stepNoShrink h2 hc hkeeps
    have htail := ih hv' hkw (hrest _ rfl) (by
      intro bs hbs
      obtain ⟨v', w', hrun, hrun', hsize⟩ :=
        hall (call :: bs) (List.cons_prefix_cons.mpr ⟨rfl, hbs⟩)
      obtain ⟨m, hm, hrun⟩ := Run.run_cons.mp hrun
      obtain ⟨n, hn, hrun'⟩ := Run.run_cons.mp hrun'
      obtain rfl := Option.some.inj (hm.symm.trans hv)
      obtain rfl := Option.some.inj (hn.symm.trans hw')
      exact ⟨v', w', hrun, hrun', hsize⟩)
    intro c hmem
    rcases List.mem_cons.mp hmem with rfl | hmem
    · exact hkeeps
    · exact htail c hmem

/-- **The two builds show the same after every call if and only if no call ends in
`vector_erase`.** -/
theorem noShrink_agrees (capacity bytes : Nat) (calls : List (VectorCall α)) (hb : bytes ≠ 0)
    (hfit : max VECTOR_MINIMUM_CAPACITY capacity * bytes < 2 ^ 64)
    (hcalls : Run.Meets (fun xs call => some (VectorCall.apply xs call)) (VectorCall.Valid bytes)
      [] calls) :
    (∀ bs, bs <+: calls → ∃ shrinking keeping,
      Run.run VectorCall.step (vectorSetup true capacity bytes).2 bs = some shrinking ∧
        Run.run VectorCall.stepNoShrink (vectorSetup true capacity bytes).2 bs = some keeping ∧
        ShowsSame (bs.foldl VectorCall.apply []) shrinking keeping) ↔
      ∀ call ∈ calls, call.erases = false := by
  obtain ⟨hstart, h2⟩ := Vector.Refines.setup (α := α) hb hfit
  constructor
  · intro hall
    refine erases_of_sameSizes hstart hstart h2 hcalls ?_
    intro bs hbs
    obtain ⟨v, w, hv, hw, hsame⟩ := hall bs hbs
    exact ⟨v, w, hv, hw, hsame.size⟩
  · intro hkeeps bs hbs
    have hvalid := hcalls.initial hbs
    obtain ⟨v, hv, hrv⟩ := hstart.run h2 hvalid
    obtain ⟨w, hw, hrw⟩ := hstart.runNoShrink h2 hvalid fun call hc => hkeeps call (hbs.subset hc)
    exact ⟨v, w, hv, hw, hrv.showsSame hrw⟩

theorem poppedBack_agrees :
    ∃ shrinking keeping,
      Run.run VectorCall.step (vectorSetup (α := Nat) true 0 4).2
          [.pushBack 1, .popBack, .resize 3, .assign 2 5] = some shrinking ∧
        Run.run VectorCall.stepNoShrink (vectorSetup true 0 4).2
          [.pushBack 1, .popBack, .resize 3, .assign 2 5] = some keeping ∧
        ShowsSame [none, none, some 5] shrinking keeping :=
  (noShrink_agrees (α := Nat) 0 4 [.pushBack 1, .popBack, .resize 3, .assign 2 5] (by decide)
    (by decide) (by decide)).mpr (by decide) _ (List.prefix_refl _)

/-- The first of two elements is erased: one is left, or the second twice. -/
theorem erasedFirst_differs :
    (Run.run VectorCall.step (vectorSetup (α := Nat) true 0 4).2
        [.pushBack 1, .pushBack 2, .erase 0]).map (fun v => (v.size, vectorGet v 0)) =
        some (1, some (some 2)) ∧
      (Run.run VectorCall.stepNoShrink (vectorSetup (α := Nat) true 0 4).2
        [.pushBack 1, .pushBack 2, .erase 0]).map
          (fun v => (v.size, vectorGet v 0, vectorGet v 1)) =
        some (2, some (some 2), some (some 2)) := by
  decide

end Tssx
