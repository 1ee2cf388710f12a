import Mathlib.Tactic.Common

/-!
# A heap of blocks

Blocks have numbers, and a number is used once: `allocate` takes the next one, and `release` ends
the block without giving its number back, so what points to a released block points to nothing
from then on.  The structure carries the fact that no block has a number that was not given out.

`Keeps heap owned heap' owned'` is what an owner of one block may do: write it, release it, and
take new ones, but touch no block that it did not own.  It holds of each heap operation and is
transitive, and then the blocks of the others are as they were and stay apart from the one that it
owns in the end (`Keeps.other`).
-/

structure Heap (β : Type) where
  block : Nat → Option β
  next : Nat
  unused : ∀ id, next ≤ id → block id = none

namespace Heap

variable {β : Type} {heap heap₁ heap₂ : Heap β} {content : β} {id : Nat}
  {owned owned₁ owned₂ : Option Nat}

def empty : Heap β := ⟨fun _ => none, 0, fun _ _ => rfl⟩

def allocate (heap : Heap β) (content : β) : Nat × Heap β :=
  (heap.next,
    { block := Function.update heap.block heap.next (some content)
      next := heap.next + 1
      unused := by
        intro id hid
        rw [Function.update_of_ne (by omega)]
        exact heap.unused id (by omega) })

/-- Releasing no block does nothing. -/
def release (heap : Heap β) (owned : Option Nat) : Heap β :=
  { heap with
    block := fun id => if owned = some id then none else heap.block id
    unused := by
      intro id hid
      split
      · rfl
      · exact heap.unused id hid }

/-- A released block is not written. -/
def write (heap : Heap β) (id : Nat) (content : β) : Heap β :=
  { heap with
    block := fun i => if i = id then (heap.block id).map fun _ => content else heap.block i
    unused := by
      intro i hi
      split
      · rename_i he
        rw [← he, heap.unused i hi]
        rfl
      · exact heap.unused i hi }

theorem lt_next (h : heap.block id ≠ none) : id < heap.next := by
  by_contra hle
  exact h (heap.unused id (by omega))

@[simp] theorem allocate_fst : (heap.allocate content).1 = heap.next := rfl

@[simp] theorem block_allocate_self :
    (heap.allocate content).2.block heap.next = some content :=
  Function.update_self ..

theorem block_allocate_of_ne (h : id ≠ heap.next) :
    (heap.allocate content).2.block id = heap.block id :=
  Function.update_of_ne h ..

@[simp] theorem block_release_self : (heap.release (some id)).block id = none := if_pos rfl

theorem block_release_of_ne (h : owned ≠ some id) :
    (heap.release owned).block id = heap.block id :=
  if_neg h

theorem block_write_self (h : heap.block id ≠ none) :
    (heap.write id content).block id = some content := by
  obtain ⟨old, hold⟩ := Option.ne_none_iff_exists'.mp h
  simp [write, hold]

theorem block_write_of_ne {i : Nat} (h : i ≠ id) :
    (heap.write id content).block i = heap.block i :=
  if_neg h

theorem ne_next (h : heap.block id ≠ none) : id ≠ heap.next := Nat.ne_of_lt (lt_next h)

/-! ### Owners -/

structure Keeps (heap : Heap β) (owned : Option Nat) (heap' : Heap β) (owned' : Option Nat) :
    Prop where
  next : heap.next ≤ heap'.next
  others : ∀ id, id < heap.next → owned ≠ some id → heap'.block id = heap.block id
  owned : ∀ id, owned' = some id → owned = some id ∨ heap.next ≤ id

theorem Keeps.refl (heap : Heap β) (owned : Option Nat) : heap.Keeps owned heap owned :=
  ⟨Nat.le_refl _, fun _ _ _ => rfl, fun _ h => .inl h⟩

theorem Keeps.trans (h : heap.Keeps owned heap₁ owned₁) (h₁ : heap₁.Keeps owned₁ heap₂ owned₂) :
    heap.Keeps owned heap₂ owned₂ where
  next := Nat.le_trans h.next h₁.next
  others := by
    intro id hlt hne
    have hne₁ : owned₁ ≠ some id := by
      intro he
      rcases h.owned id he with he | hle
      · exact hne he
      · omega
    rw [h₁.others id (Nat.lt_of_lt_of_le hlt h.next) hne₁, h.others id hlt hne]
  owned := by
    intro id he
    rcases h₁.owned id he with he | hle
    · exact h.owned id he
    · exact .inr (Nat.le_trans h.next hle)

theorem keeps_allocate (heap : Heap β) (owned : Option Nat) (content : β) :
    heap.Keeps owned (heap.allocate content).2 (some heap.next) where
  next := Nat.le_succ _
  others := fun _ hlt _ => block_allocate_of_ne (Nat.ne_of_lt hlt)
  owned := by
    rintro id ⟨⟩
    exact .inr (Nat.le_refl _)

theorem keeps_release (heap : Heap β) (owned : Option Nat) :
    heap.Keeps owned (heap.release owned) none :=
  ⟨Nat.le_refl _, fun _ _ hne => block_release_of_ne hne, by simp⟩

theorem keeps_replace (heap : Heap β) (owned : Option Nat) (content : β) :
    heap.Keeps owned ((heap.allocate content).2.release owned) (some heap.next) where
  next := Nat.le_succ _
  others := by
    intro id hlt hne
    rw [block_release_of_ne hne, block_allocate_of_ne (Nat.ne_of_lt hlt)]
  owned := by
    rintro id ⟨⟩
    exact .inr (Nat.le_refl _)

theorem keeps_write (heap : Heap β) (id : Nat) (content : β) :
    heap.Keeps (some id) (heap.write id content) (some id) where
  next := Nat.le_refl _
  others := by
    intro i _ hne
    exact block_write_of_ne fun he => hne (by rw [he])
  owned := fun _ h => .inl h

/-- **The blocks of the others stay as they are**, and apart from the owner's. -/
theorem Keeps.other (h : heap.Keeps owned heap₁ owned₁) (hlive : heap.block id ≠ none)
    (hne : owned ≠ some id) : heap₁.block id = heap.block id ∧ owned₁ ≠ some id := by
  have hlt := lt_next hlive
  refine ⟨h.others id hlt hne, ?_⟩
  intro he
  rcases h.owned id he with he | hle
  · exact hne he
  · omega

end Heap
