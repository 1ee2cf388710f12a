import Tssx.Vector.Copies
import Tssx.Vector.Refinement

/-!
# Copies and their originals stay apart

Two vectors that are sound own different blocks, and each refines its list
(`Vectors.Sound`).  Every call keeps that, except a copy of an empty vector: its capacity is zero,
below the minimum that growth relies on, and the first insertion finds no room and makes none.

`copies_sound` says that a run in which no copy is made of an empty vector is one after each of
whose calls either vector could go on with any calls, and the other would not notice.
-/

namespace Tssx

variable {α : Type} {vectors vectors' : Vectors α} {vector : Stored α} {held : Held α}
  {entry : Option (Nat × List (Option α))} {place destination : Place} {bytes id : Nat}
  {xs : List (Option α)} {call : VectorCall α} {x : α}

theorem Place.other_ne (place : Place) : place.other ≠ place := by cases place <;> decide

@[simp] theorem Place.other_other (place : Place) : place.other.other = place := by
  cases place <;> rfl

theorem Place.eq_or_other (a b : Place) : a = b ∨ a = b.other := by
  cases a <;> cases b <;> decide

/-- What a vector holds, or that it is not initialised. -/
def Stored.Holds (vector : Stored α) : Option (Nat × List (Option α)) → Prop
  | none => vector.data = none
  | some (bytes, xs) =>
    vector.view.Refines bytes xs ∧ VECTOR_MINIMUM_CAPACITY * bytes < 2 ^ 64

/-- What shows of it. -/
def Stored.Shows (vector : Stored α) : Option (Nat × List (Option α)) → Prop
  | none => vector.data = none
  | some (_, xs) => vector.view.Represents xs

theorem Stored.Holds.congr {other : Stored α} (h : vector.Holds entry)
    (hv : other.view = vector.view) (hd : other.data = vector.data) : other.Holds entry := by
  cases entry with
  | none => exact hd.trans h
  | some entry =>
    rw [Holds, hv]
    exact h

/-- The two vectors have no block in common. -/
def Vectors.Apart (vectors : Vectors α) : Prop :=
  ∀ place id, (vectors.header place).data = some id → (vectors.header place.other).data ≠ some id

structure Vectors.Sound (vectors : Vectors α) (held : Held α) : Prop where
  holds : ∀ place, (vectors.stored place).Holds (held place)
  apart : vectors.Apart

structure Vectors.Shows (vectors : Vectors α) (held : Held α) : Prop where
  shows : ∀ place, (vectors.stored place).Shows (held place)
  apart : vectors.Apart

/-- Either vector could go on with any calls: its list is refined, and the other vector stays as it
is, in its header and in its block. -/
def Vectors.GoesOn (vectors : Vectors α) (held : Held α) : Prop :=
  ∀ (place : Place) (further : List (VectorCall α)),
    Run.Meets (fun held call => some (Held.apply held call)) Held.Valid held
      (further.map (VectorsCall.call place)) →
    ∃ vectors', Run.run Vectors.step vectors (further.map (VectorsCall.call place)) =
        some vectors' ∧
      vectors'.Shows ((further.map (VectorsCall.call place)).foldl Held.apply held) ∧
      vectors'.header place.other = vectors.header place.other ∧
      (vectors'.stored place.other).view = (vectors.stored place.other).view

theorem Vectors.Sound.shows (h : vectors.Sound held) : vectors.Shows held where
  apart := h.apart
  shows := by
    intro place
    have hplace := h.holds place
    cases hentry : held place with
    | none =>
      rw [hentry] at hplace
      exact hplace
    | some entry =>
      rw [hentry] at hplace
      exact hplace.1.represents.2

/-! ### One vector and the other -/

namespace Vectors

@[simp] theorem stored_put_self : (vectors.put place vector).stored place = vector := by
  simp [stored, put]

@[simp] theorem header_put_self : (vectors.put place vector).header place = vector.toHeader := by
  simp [put]

@[simp] theorem header_put_other :
    (vectors.put place vector).header place.other = vectors.header place.other := by
  simp [put, Function.update_of_ne place.other_ne]

theorem apart_of_place (place : Place) (h : ∀ id, (vectors.header place).data = some id →
    (vectors.header place.other).data ≠ some id) : vectors.Apart := by
  intro at' id hd
  rcases Place.eq_or_other at' place with rfl | rfl
  · exact h id hd
  · rw [Place.other_other]
    exact fun hother => h id hother hd

namespace Sound

theorem live (h : vectors.Sound held) (hd : (vectors.header place).data = some id) :
    vectors.heap.block id ≠ none := by
  have hplace := h.holds place
  cases hentry : held place with
  | none =>
    rw [hentry] at hplace
    exact absurd (hd.symm.trans hplace) (by simp)
  | some entry =>
    rw [hentry] at hplace
    obtain ⟨cells, hb, -⟩ := hplace.1
    have hview : (vectors.stored place).view.data = vectors.heap.block id := by
      rw [Stored.view]
      show (vectors.header place).data.bind vectors.heap.block = _
      rw [hd]
      rfl
    rw [← hview]
    exact hb.initialized

/-- **What one vector does to its own block leaves the other as it is.** -/
theorem other (h : vectors.Sound held) (hk : (vectors.stored place).Keeps vector) :
    ((vectors.put place vector).stored place.other).view = (vectors.stored place.other).view ∧
      ∀ id, vector.data = some id → (vectors.header place.other).data ≠ some id := by
  have hview : ∀ heap, ({ vectors.header place.other with heap } : Stored α).view =
      { size := (vectors.header place.other).size
        capacity := (vectors.header place.other).capacity
        elementSize := (vectors.header place.other).elementSize
        data := (vectors.header place.other).data.bind heap.block } := fun _ => rfl
  have hput : (vectors.put place vector).stored place.other =
      { vectors.header place.other with heap := vector.heap } := by
    rw [stored, header_put_other]
    rfl
  rw [hput, hview, stored, hview]
  cases hd : (vectors.header place.other).data with
  | none => exact ⟨rfl, fun id _ => by simp⟩
  | some id =>
    have hne : (vectors.header place).data ≠ some id := by
      have := h.apart place.other id hd
      rwa [Place.other_other] at this
    obtain ⟨hblock, hapart⟩ := hk.other (h.live hd) hne
    refine ⟨by rw [Option.bind_some, Option.bind_some]; congr 1, ?_⟩
    intro id' hd' he
    obtain rfl := Option.some.inj he
    exact hapart hd'

theorem put (h : vectors.Sound held) (hk : (vectors.stored place).Keeps vector)
    (hv : vector.Holds entry) :
    (vectors.put place vector).Sound (Function.update held place entry) := by
  obtain ⟨hview, hapart⟩ := h.other hk
  refine ⟨?_, apart_of_place place fun id hd => ?_⟩
  · intro p
    rcases Place.eq_or_other p place with rfl | rfl
    · rw [stored_put_self, Function.update_self]
      exact hv
    · rw [Function.update_of_ne place.other_ne]
      refine (h.holds place.other).congr hview ?_
      exact congrArg Header.data header_put_other
  · rw [header_put_self] at hd
    rw [header_put_other]
    exact hapart id hd

/-! ### The calls -/

theorem setup (h : vectors.Sound held) (place : Place) (capacity : Nat) (hb : bytes ≠ 0)
    (hfit : max VECTOR_MINIMUM_CAPACITY capacity * bytes < 2 ^ 64) :
    (vectors.put place ((vectors.stored place).vectorSetup capacity bytes).2).Sound
      (Function.update held place (some (bytes, []))) := by
  refine h.put (Heap.keeps_allocate ..) ?_
  have hview : ((vectors.stored place).vectorSetup capacity bytes).2.view =
      (Tssx.vectorSetup true capacity bytes).2 := by
    simp [Stored.view, Stored.vectorSetup, Tssx.vectorSetup]
  rw [Stored.Holds, hview]
  exact Vector.Refines.setup hb hfit

theorem destroy (h : vectors.Sound held) (place : Place) :
    (vectors.put place (vectors.stored place).vectorDestroy.2).Sound
      (Function.update held place none) :=
  h.put (Heap.keeps_release ..) rfl

theorem perform (h : vectors.Sound held) (hheld : held place = some (bytes, xs))
    (hc : call.Valid bytes xs) :
    ∃ vector, (vectors.stored place).perform call = some (VECTOR_SUCCESS, vector) ∧
      (vectors.stored place).Keeps vector ∧ vector.Holds (some (bytes, call.apply xs)) := by
  have hplace := h.holds place
  rw [hheld] at hplace
  obtain ⟨hr, h2⟩ := hplace
  obtain ⟨view', hp, hr'⟩ := hr.perform h2 hc.1 fun _ => ⟨rfl, hc.2⟩
  have helement : (vectors.stored place).elementSize = bytes := by
    obtain ⟨cells, hb, -⟩ := hr
    exact hb.elementSize
  have hpositive : (vectors.stored place).elementSize ≠ 0 := by
    obtain ⟨cells, hb, -⟩ := hr
    exact hb.nonzero
  have hreturns := Stored.perform_returns hpositive (by rw [helement]; exact h2)
    (by rw [helement]; exact hc.2)
  obtain ⟨vector, hv, rfl, hk⟩ := hreturns _ _ hp
  exact ⟨vector, hv, hk, hr', h2⟩

/-- A copy of a vector with an element has room for twice as many. -/
theorem copy (h : vectors.Sound held) (hd : held destination = none)
    (hs : held destination.other = some (bytes, xs)) (hxs : xs ≠ []) :
    ∃ vectors', vectors.vectorCopy destination = some (VECTOR_SUCCESS, vectors') ∧
      vectors'.Sound (Function.update held destination (some (bytes, xs))) := by
  have hsource := h.holds destination.other
  have hdestination := h.holds destination
  rw [hs] at hsource
  rw [hd] at hdestination
  obtain ⟨⟨cells, hb, hm⟩, h2⟩ := hsource
  obtain ⟨free, hdata, hlength⟩ := hb.data
  obtain ⟨block, hblock, hcells⟩ := Stored.block_of_view hdata
  have hsize : (vectors.stored destination.other).size = cells.length := hb.size
  have hpos : 0 < cells.length := by
    rw [← hm.length_eq]
    exact List.length_pos_of_ne_nil hxs
  have hnull : ¬ ((vectors.stored destination.other).data = none ∨
      (vectors.header destination).data ≠ none) := by
    rw [hblock]
    rintro (hnone | hsome)
    · cases hnone
    · exact hsome hdestination
  have hcells' : (vectors.stored destination.other).data.bind vectors.heap.block =
      some (cells ++ free) := hdata
  have hcopy : vectors.vectorCopy destination = some (VECTOR_SUCCESS,
      vectors.put destination
        { size := cells.length
          capacity := cells.length * 2
          elementSize := (vectors.stored destination.other).elementSize
          data := some vectors.heap.next
          heap := (vectors.heap.allocate
            (cells ++ List.replicate (cells.length * 2 - cells.length) none)).2 }) := by
    rw [vectorCopy]
    dsimp only
    rw [if_neg hnull, hcells', Option.bind_some,
      if_neg (by rw [hsize, List.length_append]; omega), hsize, List.take_left' rfl]
    rfl
  refine ⟨_, hcopy, h.put (Heap.keeps_allocate ..) ⟨⟨cells, ?_, hm⟩, h2⟩⟩
  refine { size := rfl, capacity := ?_, elementSize := hb.elementSize, positive := hb.positive,
           data := ⟨_, Heap.block_allocate_self, ?_⟩ }
  · show VECTOR_MINIMUM_CAPACITY ≤ cells.length * 2
    rw [VECTOR_MINIMUM_CAPACITY]
    omega
  · show _ = cells.length * 2
    rw [List.length_replicate]
    omega

theorem data_ne (h : vectors.Sound held) (hheld : held place ≠ none) :
    (vectors.header place).data ≠ none := by
  obtain ⟨⟨bytes, xs⟩, hentry⟩ := Option.ne_none_iff_exists'.mp hheld
  have hplace := h.holds place
  rw [hentry] at hplace
  obtain ⟨⟨cells, hb, -⟩, -⟩ := hplace
  intro hnone
  refine hb.initialized ?_
  show (vectors.header place).data.bind vectors.heap.block = none
  rw [hnone]
  rfl

theorem copyAssign (h : vectors.Sound held) (hd : held destination ≠ none)
    (hs : held destination.other = some (bytes, xs)) (hxs : xs ≠ []) :
    ∃ vectors', vectors.vectorCopyAssign destination = some (VECTOR_SUCCESS, vectors') ∧
      vectors'.Sound (Function.update held destination (some (bytes, xs))) := by
  have hempty := h.destroy destination
  obtain ⟨vectors', hcopy, hsound⟩ := hempty.copy (Function.update_self ..)
    ((Function.update_of_ne destination.other_ne ..).trans hs) hxs
  rw [Function.update_idem] at hsound
  refine ⟨vectors', ?_, hsound⟩
  have hnull : ¬ ((vectors.header destination.other).data = none ∨
      (vectors.header destination).data = none) :=
    not_or.mpr ⟨h.data_ne (by simp [hs]), h.data_ne hd⟩
  rw [vectorCopyAssign, if_neg hnull, hcopy]

/-- The destination takes the header of its source, which keeps no block or takes the other one;
the blocks stay where they are. -/
theorem exchange (h : vectors.Sound held) (destination : Place) {header : Place → Header}
    {held' : Held α}
    (hd : header destination = vectors.header destination.other)
    (hheld : held' destination = held destination.other)
    (hs : header destination.other = vectors.header destination ∧
        held' destination.other = held destination ∨
      (header destination.other).data = none ∧ held' destination.other = none) :
    Vectors.Sound { vectors with header } held' := by
  refine ⟨?_, apart_of_place destination fun id hid => ?_⟩
  · intro p
    rcases Place.eq_or_other p destination with rfl | rfl
    · show Stored.Holds { header p with heap := vectors.heap } (held' p)
      rw [hd, hheld]
      exact h.holds p.other
    · show Stored.Holds { header destination.other with heap := vectors.heap }
        (held' destination.other)
      rcases hs with ⟨hs, hheld'⟩ | ⟨hnone, hheld'⟩
      · rw [hs, hheld']
        exact h.holds destination
      · rw [hheld']
        exact hnone
  · show (header destination.other).data ≠ some id
    have hid' : (header destination).data = some id := hid
    rw [hd] at hid'
    rcases hs with ⟨hs, -⟩ | ⟨hnone, -⟩
    · rw [hs]
      exact fun he => h.apart destination id he hid'
    · rw [hnone]
      simp

theorem move (h : vectors.Sound held) (destination : Place) :
    (vectors.vectorMove destination).2.Sound (held.apply (.move destination)) := by
  refine h.exchange destination ?_ ?_ (.inr ⟨?_, Function.update_self ..⟩)
  · rw [Function.update_of_ne destination.other_ne.symm, Function.update_self]
  · rw [Held.apply, Function.update_of_ne destination.other_ne.symm, Function.update_self]
  · rw [Function.update_self]

theorem swap (h : vectors.Sound held) (hd : held destination ≠ none)
    (hs : held destination.other ≠ none) :
    ∃ vectors', vectors.vectorSwap destination = some (VECTOR_SUCCESS, vectors') ∧
      vectors'.Sound (held.apply (.swap destination)) := by
  have hnull : ¬ ((vectors.header destination.other).data = none ∨
      (vectors.header destination).data = none) := not_or.mpr ⟨h.data_ne hs, h.data_ne hd⟩
  refine ⟨_, if_neg hnull, h.exchange destination ?_ ?_
    (.inl ⟨Function.update_self .., Function.update_self ..⟩)⟩
  · rw [Function.update_of_ne destination.other_ne.symm, Function.update_self]
  · rw [Held.apply, Function.update_of_ne destination.other_ne.symm, Function.update_self]

theorem moveAssign (h : vectors.Sound held) (hd : held destination ≠ none)
    (hs : held destination.other ≠ none) :
    ∃ vectors', vectors.vectorMoveAssign destination = some (VECTOR_SUCCESS, vectors') ∧
      vectors'.Sound (held.apply (.moveAssign destination)) := by
  obtain ⟨swapped, hswap, hsound⟩ := h.swap hd hs
  have hdestroyed := hsound.destroy destination.other
  rw [Held.apply, Function.update_idem] at hdestroyed
  exact ⟨_, by rw [vectorMoveAssign, hswap]; rfl, hdestroyed⟩

/-- **Every call but a copy of an empty vector** succeeds and leaves sound vectors. -/
theorem step {call : VectorsCall α} (h : vectors.Sound held) (hv : held.Valid call)
    (hsome : held.CopiesSome call) :
    ∃ vectors', vectors.step call = some vectors' ∧ vectors'.Sound (held.apply call) := by
  have hdone : ∀ {vectors'}, vectors.perform call = some (VECTOR_SUCCESS, vectors') →
      vectors.step call = some vectors' := by
    intro vectors' hp
    rw [Vectors.step, hp]
    rfl
  cases call with
  | setup place capacity bytes => exact ⟨_, hdone rfl, h.setup place capacity hv.1 hv.2⟩
  | destroy place => exact ⟨_, hdone rfl, h.destroy place⟩
  | call place call =>
    obtain ⟨⟨bytes, xs⟩, hheld, hc⟩ := hv
    obtain ⟨vector, hp, hk, hholds⟩ := h.perform hheld hc
    refine ⟨vectors.put place vector, hdone ?_, ?_⟩
    · rw [Vectors.perform, hp]
      rfl
    · rw [Held.apply, hheld]
      exact h.put hk hholds
  | copy destination =>
    obtain ⟨⟨bytes, xs⟩, hs⟩ := Option.ne_none_iff_exists'.mp hv.2
    have hxs : xs ≠ [] := by
      rintro rfl
      rw [Held.CopiesSome, hs] at hsome
      exact hsome rfl
    obtain ⟨vectors', hp, hsound⟩ := h.copy hv.1 hs hxs
    exact ⟨vectors', hdone hp, by rw [Held.apply, hs]; exact hsound⟩
  | copyAssign destination =>
    obtain ⟨⟨bytes, xs⟩, hs⟩ := Option.ne_none_iff_exists'.mp hv.2
    have hxs : xs ≠ [] := by
      rintro rfl
      rw [Held.CopiesSome, hs] at hsome
      exact hsome rfl
    obtain ⟨vectors', hp, hsound⟩ := h.copyAssign hv.1 hs hxs
    exact ⟨vectors', hdone hp, by rw [Held.apply, hs]; exact hsound⟩
  | move destination => exact ⟨_, hdone rfl, h.move destination⟩
  | moveAssign destination =>
    obtain ⟨vectors', hp, hsound⟩ := h.moveAssign hv.1 hv.2
    exact ⟨vectors', hdone hp, hsound⟩
  | swap destination =>
    obtain ⟨vectors', hp, hsound⟩ := h.swap hv.1 hv.2
    exact ⟨vectors', hdone hp, hsound⟩

/-! ### Going on -/

theorem goesOn (h : vectors.Sound held) : vectors.GoesOn held := by
  intro place further hvalid
  have hstep : ∀ (middle : Vectors α) (held' : Held α) (c : VectorsCall α),
      (middle.Sound held' ∧ middle.header place.other = vectors.header place.other ∧
        (middle.stored place.other).view = (vectors.stored place.other).view) →
      (held'.Valid c ∧ ∃ call, c = .call place call) →
      ∃ next, middle.step c = some next ∧ (next.Sound (held'.apply c) ∧
        next.header place.other = vectors.header place.other ∧
        (next.stored place.other).view = (vectors.stored place.other).view) := by
    rintro middle held' c ⟨hm, hheader, hview⟩ ⟨hv, call, rfl⟩
    obtain ⟨⟨bytes, xs⟩, hheld, hc⟩ := hv
    obtain ⟨vector, hp, hk, hholds⟩ := hm.perform hheld hc
    refine ⟨middle.put place vector, ?_, ?_, ?_, ?_⟩
    · rw [Vectors.step, Vectors.perform, hp]
      rfl
    · rw [Held.apply, hheld]
      exact hm.put hk hholds
    · rw [header_put_other, hheader]
    · rw [(hm.other hk).1, hview]
  obtain ⟨vectors', hrun, hsound, hheader, hview⟩ := Run.foldl_of_spec hstep ⟨h, rfl, rfl⟩
    (hvalid.and (Run.meets_of_forall fun c hc held' => by
      obtain ⟨call, -, rfl⟩ := List.mem_map.mp hc
      exact ⟨call, rfl⟩))
  exact ⟨vectors', hrun, hsound.shows, hheader, hview⟩

theorem copied_empty (h : vectors.Sound held) (hs : held destination.other = some (bytes, []))
    {code : Int} (hc : vectors.vectorCopy destination = some (code, vectors')) :
    (vectors'.stored destination).size = 0 ∧ (vectors'.stored destination).capacity = 0 ∧
      (vectors'.stored destination).view.data = some [] := by
  have hsource := h.holds destination.other
  rw [hs] at hsource
  obtain ⟨⟨cells, hb, hm⟩, -⟩ := hsource
  have hsize : (vectors.stored destination.other).size = 0 := by
    have := hb.size
    rwa [← hm.length_eq] at this
  rw [vectorCopy] at hc
  dsimp only at hc
  split at hc
  · cases hc
  · obtain ⟨found, -, hc⟩ := Option.bind_eq_some_iff.mp hc
    split at hc
    · cases hc
    · obtain ⟨-, rfl⟩ := Prod.mk.inj (Option.some.inj hc)
      rw [stored_put_self]
      refine ⟨hsize, ?_, ?_⟩
      · show (vectors.stored destination.other).size * 2 = 0
        rw [hsize]
      · rw [Stored.view]
        dsimp only [Heap.allocate_fst]
        rw [Option.bind_some, Heap.block_allocate_self, hsize]
        rfl

end Sound

end Vectors

/-- A vector without a cell cannot grow: twice its size is below the minimum, and so is its
capacity. -/
theorem Stored.pushBack_noRoom (hs : vector.size = 0) (hc : vector.capacity = 0)
    (hd : vector.view.data = some []) (x : α) : vector.vectorPushBack x = none := by
  have hgrow : vectorShouldGrow vector.view = some true := by
    have hsize : vector.view.size = 0 := hs
    have hcapacity : vector.view.capacity = 0 := hc
    rw [vectorShouldGrow, hsize, hcapacity]
    rfl
  have hadjust : vector.vectorAdjustCapacity = some (VECTOR_SUCCESS, vector) := by
    rw [vectorAdjustCapacity, vectorReallocate, hs, hc]
    rfl
  have hstore : vector.vectorStore vector.size x = none := by
    obtain ⟨block, hblock, -⟩ := block_of_view hd
    rw [vectorStore, inPlace, hblock, Option.bind_some, Tssx.vectorStore, hd, hs]
    rfl
  rw [vectorPushBack, hgrow, Option.bind_some, if_pos rfl, hadjust, Option.bind_some]
  simp only
  rw [if_neg (by decide), hstore]
  rfl

namespace Vectors.Sound

/-- **Where both vectors could go on after a call**, it was no copy of an empty vector. -/
theorem copiesSome [Inhabited α] {call : VectorsCall α} (h : vectors.Sound held)
    (hv : held.Valid call) (hs : vectors.step call = some vectors')
    (hg : vectors'.GoesOn (held.apply call)) : held.CopiesSome call := by
  -- a vector without a cell does not go on
  have hstuck : ∀ {destination : Place} {bytes : Nat},
      held.apply call destination = some (bytes, []) →
      (vectors'.stored destination).size = 0 ∧ (vectors'.stored destination).capacity = 0 ∧
        (vectors'.stored destination).view.data = some [] → False := by
    rintro destination bytes hheld ⟨hsize, hcapacity, hdata⟩
    obtain ⟨next, hrun, -⟩ := hg destination [.pushBack default]
      ⟨⟨(bytes, []), hheld, trivial, trivial⟩, fun _ _ => trivial⟩
    obtain ⟨middle, hstep, -⟩ := Run.run_cons.mp hrun
    rw [Vectors.step, Vectors.perform, Stored.perform,
      Stored.pushBack_noRoom hsize hcapacity hdata] at hstep
    cases hstep
  obtain ⟨⟨code, result⟩, hp, hcode⟩ := Option.bind_eq_some_iff.mp hs
  obtain rfl : result = vectors' := by
    dsimp only at hcode
    split at hcode
    · exact Option.some.inj hcode
    · cases hcode
  cases call with
  | copy destination =>
    intro hempty
    obtain ⟨⟨bytes, xs⟩, hother, hlength⟩ := Option.map_eq_some_iff.mp hempty
    obtain rfl := List.eq_nil_of_length_eq_zero hlength
    exact hstuck ((Function.update_self ..).trans hother) (h.copied_empty hother hp)
  | copyAssign destination =>
    intro hempty
    obtain ⟨⟨bytes, xs⟩, hother, hlength⟩ := Option.map_eq_some_iff.mp hempty
    obtain rfl := List.eq_nil_of_length_eq_zero hlength
    have hdestroyed := h.destroy destination
    rw [Vectors.perform, vectorCopyAssign] at hp
    split at hp
    · cases hp
    · exact hstuck ((Function.update_self ..).trans hother) (hdestroyed.copied_empty
        ((Function.update_of_ne destination.other_ne ..).trans hother) hp)
  | _ => trivial

end Vectors.Sound

/-! ### Runs -/

theorem Vectors.Sound.initial : Vectors.Sound (α := α) Vectors.initial fun _ => none :=
  ⟨fun _ => rfl, fun _ _ h => by cases h⟩

theorem copiesSome_of_goesOn [Inhabited α] {calls : List (VectorsCall α)} (h : vectors.Sound held)
    (hvalid : Run.Meets (fun held call => some (Held.apply held call)) Held.Valid held calls)
    (hall : ∀ bs, bs <+: calls → ∃ t, Run.run Vectors.step vectors bs = some t ∧
      t.GoesOn (bs.foldl Held.apply held)) :
    Run.Meets (fun held call => some (Held.apply held call)) Held.CopiesSome held calls := by
  induction calls generalizing vectors held with
  | nil => trivial
  | cons call calls ih =>
    obtain ⟨t, hrun, hgoes⟩ := hall [call] (List.cons_prefix_cons.mpr ⟨rfl, List.nil_prefix⟩)
    obtain ⟨next, hstep, hnil⟩ := Run.run_cons.mp hrun
    obtain rfl := Option.some.inj hnil
    have hsome := h.copiesSome hvalid.1 hstep hgoes
    obtain ⟨next', hstep', hsound⟩ := h.step hvalid.1 hsome
    obtain rfl := Option.some.inj (hstep.symm.trans hstep')
    refine ⟨hsome, ?_⟩
    rintro held' ⟨⟩
    refine ih hsound (hvalid.2 _ rfl) ?_
    intro bs hbs
    obtain ⟨last, hlast, hlastGoes⟩ := hall (call :: bs) (List.cons_prefix_cons.mpr ⟨rfl, hbs⟩)
    obtain ⟨middle, hmiddle, hrest⟩ := Run.run_cons.mp hlast
    obtain rfl := Option.some.inj (hmiddle.symm.trans hstep)
    exact ⟨last, hrest, hlastGoes⟩

/-- **Copies are sound vectors if and only if none is made of an empty one**: after every call of a
run both vectors have what they are to hold, in blocks of their own of `capacity` cells, and either
could go on with any calls without the other noticing. -/
theorem copies_sound [Inhabited α] (calls : List (VectorsCall α))
    (hvalid : Run.Meets (fun held call => some (Held.apply held call)) Held.Valid (fun _ => none)
      calls) :
    (∀ bs, bs <+: calls → ∃ vectors, Run.run Vectors.step Vectors.initial bs = some vectors ∧
      vectors.Shows (bs.foldl Held.apply fun _ => none) ∧
      vectors.GoesOn (bs.foldl Held.apply fun _ => none)) ↔
      Run.Meets (fun held call => some (Held.apply held call)) Held.CopiesSome (fun _ => none)
        calls := by
  constructor
  · intro hall
    refine copiesSome_of_goesOn Vectors.Sound.initial hvalid ?_
    intro bs hbs
    obtain ⟨vectors, hrun, -, hgoes⟩ := hall bs hbs
    exact ⟨vectors, hrun, hgoes⟩
  · intro hsome bs hbs
    have hstep : ∀ (vectors : Vectors α) (held : Held α) (call : VectorsCall α),
        vectors.Sound held → held.Valid call ∧ held.CopiesSome call →
        ∃ vectors', vectors.step call = some vectors' ∧ vectors'.Sound (held.apply call) :=
      fun vectors held call h hc => h.step hc.1 hc.2
    obtain ⟨vectors, hrun, hsound⟩ := Run.foldl_of_spec hstep Vectors.Sound.initial
      ((hvalid.and hsome).initial hbs)
    exact ⟨vectors, hrun, hsound.shows, hsound.goesOn⟩

/-- One element is copied, and the copy moved. -/
theorem copiedOne_sound :
    ∃ vectors : Vectors Nat,
      Run.run Vectors.step Vectors.initial
          [.setup .first 0 4, .call .first (.pushBack 1), .copy .second,
            .call .second (.pushBack 2), .swap .first, .moveAssign .second] = some vectors ∧
        vectors.Shows ([.setup .first 0 4, .call .first (.pushBack 1), .copy .second,
          .call .second (.pushBack 2), .swap .first, .moveAssign .second].foldl Held.apply
            fun _ => none) ∧
        vectors.GoesOn ([.setup .first 0 4, .call .first (.pushBack 1), .copy .second,
          .call .second (.pushBack 2), .swap .first, .moveAssign .second].foldl Held.apply
            fun _ => none) :=
  (copies_sound [.setup .first 0 4, .call .first (.pushBack 1), .copy .second,
    .call .second (.pushBack 2), .swap .first, .moveAssign .second] (by decide)).mpr (by decide) _
      (List.prefix_refl _)

/-- The copy of an empty vector takes no element. -/
theorem copiedEmpty_fails :
    (Run.run Vectors.step (Vectors.initial (α := Nat))
        [.setup .first 0 4, .copy .second]).isSome = true ∧
      Run.run Vectors.step (Vectors.initial (α := Nat))
        [.setup .first 0 4, .copy .second, .call .second (.pushBack 1)] = none ∧
      (Run.run Vectors.step (Vectors.initial (α := Nat))
        [.setup .first 0 4, .call .first (.pushBack 1)]).isSome = true :=
  ⟨rfl, rfl, rfl⟩

end Tssx
