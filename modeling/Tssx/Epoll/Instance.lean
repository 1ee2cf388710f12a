import Tssx.Epoll.Entry
import Tssx.Vector

/-!
# Epoll instances

The registration of TSSX descriptors with an epoll instance.  The first registration is kept
in `first` and the others in the vector `entries`, which is set up when the second one comes.
Each operation returns its code and the instance; a failed assertion is `none`.

`held` lists the entries that `epoll_wait` would look at.
-/

namespace Tssx

def NUMBER_OF_EPOLL_INSTANCES : Nat := 1024
def INITIAL_INSTANCE_CAPACITY : Nat := 8

def EPOLL_CTL_ADD : Int := 1
def EPOLL_CTL_DEL : Int := 2
def EPOLL_CTL_MOD : Int := 3

/-- `sizeof(EpollEntry)`. -/
def EPOLL_ENTRY_SIZE : Nat := 32

structure EpollInstance where
  entries : Vector EpollEntry
  first : EpollEntry
  tssxCount : Nat
  normalCount : Nat

/-- An element of the zero-initialised array `_epoll_instances`. -/
def EpollInstance.zero : EpollInstance where
  entries := .zero
  first := { fd := 0, event := { events := 0, data := 0 }, connection := 0, flags := 0 }
  tssxCount := 0
  normalCount := 0

def epollSetFirstEntry (epoll : EpollInstance) (fd : Int) (event : EpollEvent)
    (connection : Nat) : Int × EpollInstance :=
  (SUCCESS, { epoll with
    first := .new fd event connection, tssxCount := epoll.tssxCount + 1 })

/-- The vector is set up for the second entry, and has room for it then. -/
def epollPushBackEntry (allocated : Bool) (epoll : EpollInstance) (fd : Int)
    (event : EpollEvent) (connection : Nat) : Option (Int × EpollInstance) :=
  let (code, entries) :=
    if epoll.tssxCount = 1 then
      vectorSetup allocated INITIAL_INSTANCE_CAPACITY EPOLL_ENTRY_SIZE
    else (VECTOR_SUCCESS, epoll.entries)
  if code = VECTOR_ERROR then some (ERROR, { epoll with entries })
  else
    (vectorPushBack allocated entries (.new fd event connection)).map fun (code, entries) =>
      if code = VECTOR_ERROR then (ERROR, { epoll with entries })
      else (SUCCESS, { epoll with entries, tssxCount := epoll.tssxCount + 1 })

def epollAddToInstance (allocated : Bool) (epoll : EpollInstance) (fd : Int)
    (event : EpollEvent) (connection : Nat) : Option (Int × EpollInstance) :=
  if epoll.tssxCount = 0 then some (epollSetFirstEntry epoll fd event connection)
  else epollPushBackEntry allocated epoll fd event connection

def findEpollEntry (epoll : EpollInstance) (fd : Int) : Option (Option (Nat × EpollEntry)) :=
  vectorFind epoll.entries fun entry => entry.fd = fd

def epollUpdateInstance (epoll : EpollInstance) (fd : Int) (event : EpollEvent) :
    Option (Int × EpollInstance) :=
  if epoll.tssxCount = 0 then none
  else if fd = epoll.first.fd then some (SUCCESS, { epoll with first := epoll.first.update event })
  else
    (findEpollEntry epoll fd).bind fun found =>
      match found with
      | none => some (ERROR, epoll)
      | some (index, entry) =>
        (vectorStore epoll.entries index (entry.update event)).map fun entries =>
          (SUCCESS, { epoll with entries })

/-- The last entry takes the place of the first. -/
def epollEraseFirstFromInstance (allocated : Bool) (epoll : EpollInstance) :
    Option (Int × EpollInstance) :=
  if 1 < epoll.tssxCount then
    (vectorBack epoll.entries).bind fun back =>
      match back with
      | none => some (ERROR, epoll)
      | some entry =>
        (vectorPopBack allocated epoll.entries).map fun (code, entries) =>
          let epoll := { epoll with first := entry, entries }
          if code = VECTOR_ERROR then (ERROR, epoll)
          else (SUCCESS, { epoll with tssxCount := epoll.tssxCount - 1 })
  else some (SUCCESS, { epoll with tssxCount := epoll.tssxCount - 1 })

def epollEraseFromInstance (allocated : Bool) (epoll : EpollInstance) (fd : Int) :
    Option (Int × EpollInstance) :=
  if epoll.tssxCount = 0 then none
  else if fd = epoll.first.fd then epollEraseFirstFromInstance allocated epoll
  else
    (findEpollEntry epoll fd).bind fun found =>
      match found with
      | none => some (ERROR, epoll)
      | some (index, _) =>
        (iteratorErase allocated epoll.entries index).map fun (code, entries) =>
          let epoll := { epoll with entries }
          if code = VECTOR_ERROR then (ERROR, epoll)
          else (SUCCESS, { epoll with tssxCount := epoll.tssxCount - 1 })

def epollTssxControlOperation (allocated : Bool) (epoll : EpollInstance) (operation fd : Int)
    (event : EpollEvent) (connection : Nat) : Option (Int × EpollInstance) :=
  if operation = EPOLL_CTL_ADD then epollAddToInstance allocated epoll fd event connection
  else if operation = EPOLL_CTL_MOD then epollUpdateInstance epoll fd event
  else if operation = EPOLL_CTL_DEL then epollEraseFromInstance allocated epoll fd
  else some (ERROR, epoll)

/-- `real` is what `real_epoll_ctl` returns. -/
def epollNormalControlOperation (real : Int) (epoll : EpollInstance) (operation : Int) :
    Option (Int × EpollInstance) :=
  if operation = EPOLL_CTL_ADD then
    some (real, { epoll with normalCount := epoll.normalCount + 1 })
  else if operation = EPOLL_CTL_DEL then
    if epoll.normalCount = 0 then none
    else some (real, { epoll with normalCount := epoll.normalCount - 1 })
  else some (real, epoll)

/-- `close_epoll_instance` of an instance in the array. -/
def EpollInstance.close (epoll : EpollInstance) : EpollInstance where
  entries := if 1 < epoll.tssxCount then vectorDestroy epoll.entries else epoll.entries
  first := epoll.first
  tssxCount := 0
  normalCount := 0

/-! ### The entries held -/

def EpollInstance.held (epoll : EpollInstance) : List EpollEntry :=
  (if epoll.tssxCount = 0 then [] else [epoll.first]) ++ epoll.entries.elements

variable {epoll epoll' : EpollInstance} {entry : EpollEntry} {fd : Int} {event : EpollEvent}
  {connection : Nat} {allocated : Bool} {code : Int}

theorem mem_held :
    entry ∈ epoll.held ↔
      (epoll.tssxCount ≠ 0 ∧ entry = epoll.first) ∨ entry ∈ epoll.entries.elements := by
  rw [EpollInstance.held, List.mem_append]
  by_cases h : epoll.tssxCount = 0 <;> simp [h]

theorem held_close (h : entry ∈ epoll.close.held) : entry ∈ epoll.held := by
  rcases mem_held.mp h with ⟨h, -⟩ | h
  · exact absurd rfl h
  · refine mem_held.mpr (.inr ?_)
    simp only [EpollInstance.close] at h
    split at h
    · rw [elements_destroy] at h
      cases h
    · exact h

theorem held_setFirst (h : entry ∈ (epollSetFirstEntry epoll fd event connection).2.held) :
    entry ∈ epoll.held ∨ entry = .new fd event connection := by
  rcases mem_held.mp h with ⟨-, h⟩ | h
  · exact .inr h
  · exact .inl (mem_held.mpr (.inr h))

theorem held_of_entries (hm : entry ∈ epoll'.held) (h0 : epoll.tssxCount ≠ 0)
    (hfirst : epoll'.first = epoll.first)
    (hentries : ∀ x ∈ epoll'.entries.elements,
      x ∈ epoll.entries.elements ∨ x = .new fd event connection) :
    entry ∈ epoll.held ∨ entry = .new fd event connection := by
  rcases mem_held.mp hm with ⟨-, rfl⟩ | hm
  · exact .inl (mem_held.mpr (.inl ⟨h0, hfirst⟩))
  · rcases hentries entry hm with hm | hm
    · exact .inl (mem_held.mpr (.inr hm))
    · exact .inr hm

theorem held_pushBack (h0 : epoll.tssxCount ≠ 0)
    (h : epollPushBackEntry allocated epoll fd event connection = some (code, epoll'))
    (hm : entry ∈ epoll'.held) : entry ∈ epoll.held ∨ entry = .new fd event connection := by
  obtain ⟨code₁, entries, hsetup, hmem⟩ : ∃ code₁ entries,
      (if epoll.tssxCount = 1 then
        vectorSetup allocated INITIAL_INSTANCE_CAPACITY EPOLL_ENTRY_SIZE
      else (VECTOR_SUCCESS, epoll.entries)) = (code₁, entries) ∧
      ∀ x ∈ entries.elements, x ∈ epoll.entries.elements := by
    by_cases h1 : epoll.tssxCount = 1
    · rw [if_pos h1]
      refine ⟨_, (vectorSetup allocated INITIAL_INSTANCE_CAPACITY EPOLL_ENTRY_SIZE).2, rfl,
        fun x hx => ?_⟩
      rw [elements_setup] at hx
      cases hx
    · rw [if_neg h1]
      exact ⟨_, _, rfl, fun x hx => hx⟩
  simp only [epollPushBackEntry, hsetup] at h
  split at h
  · obtain ⟨-, rfl⟩ := Prod.mk.inj (Option.some.inj h)
    exact held_of_entries hm h0 rfl fun x hx => .inl (hmem x hx)
  · obtain ⟨⟨code₂, pushed⟩, hpush, he⟩ := Option.map_eq_some_iff.mp h
    have hnew : ∀ x ∈ pushed.elements,
        x ∈ epoll.entries.elements ∨ x = .new fd event connection := by
      intro x hx
      rcases mem_elements_pushBack hpush hx with hx | hx
      · exact .inl (hmem x hx)
      · exact .inr hx
    dsimp only at he
    split at he <;> obtain ⟨-, rfl⟩ := Prod.mk.inj he <;> exact held_of_entries hm h0 rfl hnew

/-- **Adding holds one more entry**, the new one. -/
theorem held_add (h : epollAddToInstance allocated epoll fd event connection = some (code, epoll'))
    (hm : entry ∈ epoll'.held) : entry ∈ epoll.held ∨ entry = .new fd event connection := by
  unfold epollAddToInstance at h
  split at h
  · obtain ⟨-, rfl⟩ := Prod.mk.inj (Option.some.inj h)
    exact held_setFirst hm
  · exact held_pushBack ‹_› h hm

/-- **Modifying keeps the descriptors and connections** of the entries. -/
theorem held_update (h : epollUpdateInstance epoll fd event = some (code, epoll'))
    (hm : entry ∈ epoll'.held) :
    ∃ old ∈ epoll.held, entry.fd = old.fd ∧ entry.connection = old.connection := by
  have same : entry ∈ epoll.held →
      ∃ old ∈ epoll.held, entry.fd = old.fd ∧ entry.connection = old.connection :=
    fun hm => ⟨entry, hm, rfl, rfl⟩
  unfold epollUpdateInstance at h
  split at h
  · cases h
  · rename_i h0
    split at h
    · obtain ⟨-, rfl⟩ := Prod.mk.inj (Option.some.inj h)
      rcases mem_held.mp hm with ⟨-, rfl⟩ | hm
      · exact ⟨epoll.first, mem_held.mpr (.inl ⟨h0, rfl⟩), rfl, rfl⟩
      · exact same (mem_held.mpr (.inr hm))
    · obtain ⟨found, hfound, h⟩ := Option.bind_eq_some_iff.mp h
      cases found with
      | none =>
        obtain ⟨-, rfl⟩ := Prod.mk.inj (Option.some.inj h)
        exact same hm
      | some found =>
        obtain ⟨index, old⟩ := found
        obtain ⟨entries, hstore, he⟩ := Option.map_eq_some_iff.mp h
        obtain ⟨-, rfl⟩ := Prod.mk.inj he
        have hold := (vectorFind_mem hfound).1
        rcases mem_held.mp hm with ⟨-, rfl⟩ | hm
        · exact same (mem_held.mpr (.inl ⟨h0, rfl⟩))
        · have hn : ∀ i < entries.size, i ≠ index → i < epoll.entries.size := by
            intro i hi _
            rwa [← vectorStore_size hstore]
          rcases mem_elements_store hn hstore hm with hm | rfl
          · exact same (mem_held.mpr (.inr hm))
          · exact ⟨old, mem_held.mpr (.inr hold), rfl, rfl⟩

/-- **Erasing adds no entry.** -/
theorem held_erase (h : epollEraseFromInstance allocated epoll fd = some (code, epoll'))
    (hm : entry ∈ epoll'.held) : entry ∈ epoll.held := by
  unfold epollEraseFromInstance at h
  split at h
  · cases h
  · rename_i h0
    split at h
    · unfold epollEraseFirstFromInstance at h
      split at h
      · obtain ⟨back, hback, h⟩ := Option.bind_eq_some_iff.mp h
        cases back with
        | none =>
          obtain ⟨-, rfl⟩ := Prod.mk.inj (Option.some.inj h)
          exact hm
        | some last =>
          obtain ⟨⟨code₁, entries⟩, hpop, he⟩ := Option.map_eq_some_iff.mp h
          have hlast := vectorBack_mem hback
          have hentries : entry = last ∨ entry ∈ entries.elements := by
            dsimp only at he
            split at he <;> obtain ⟨-, rfl⟩ := Prod.mk.inj he <;>
              exact (mem_held.mp hm).imp And.right id
          rcases hentries with rfl | hm
          · exact mem_held.mpr (.inr hlast)
          · exact mem_held.mpr (.inr (mem_elements_popBack hpop hm))
      · obtain ⟨-, rfl⟩ := Prod.mk.inj (Option.some.inj h)
        rcases mem_held.mp hm with ⟨-, rfl⟩ | hm
        · exact mem_held.mpr (.inl ⟨h0, rfl⟩)
        · exact mem_held.mpr (.inr hm)
    · obtain ⟨found, hfound, h⟩ := Option.bind_eq_some_iff.mp h
      cases found with
      | none =>
        obtain ⟨-, rfl⟩ := Prod.mk.inj (Option.some.inj h)
        exact hm
      | some found =>
        obtain ⟨index, old⟩ := found
        obtain ⟨⟨code₁, entries⟩, herase, he⟩ := Option.map_eq_some_iff.mp h
        have hentries : entry = epoll.first ∨ entry ∈ entries.elements := by
          dsimp only at he
          split at he <;> obtain ⟨-, rfl⟩ := Prod.mk.inj he <;>
            exact (mem_held.mp hm).imp And.right id
        rcases hentries with rfl | hm
        · exact mem_held.mpr (.inl ⟨h0, rfl⟩)
        · exact mem_held.mpr (.inr (mem_elements_iteratorErase herase hm))

/-- **A control operation on a TSSX descriptor** holds old entries, perhaps with other events,
and the entry that it adds. -/
theorem held_control {operation : Int}
    (h : epollTssxControlOperation allocated epoll operation fd event connection =
      some (code, epoll')) (hm : entry ∈ epoll'.held) :
    (∃ old ∈ epoll.held, entry.fd = old.fd ∧ entry.connection = old.connection) ∨
      entry = .new fd event connection := by
  have same : entry ∈ epoll.held →
      (∃ old ∈ epoll.held, entry.fd = old.fd ∧ entry.connection = old.connection) ∨
        entry = .new fd event connection := fun hm => .inl ⟨entry, hm, rfl, rfl⟩
  unfold epollTssxControlOperation at h
  split at h
  · rcases held_add h hm with hm | hm
    · exact same hm
    · exact .inr hm
  · split at h
    · exact .inl (held_update h hm)
    · split at h
      · exact same (held_erase h hm)
      · obtain ⟨-, rfl⟩ := Prod.mk.inj (Option.some.inj h)
        exact same hm

theorem held_normal {real operation : Int}
    (h : epollNormalControlOperation real epoll operation = some (code, epoll')) :
    epoll'.held = epoll.held := by
  unfold epollNormalControlOperation at h
  split at h
  · obtain ⟨-, rfl⟩ := Prod.mk.inj (Option.some.inj h)
    rfl
  · split at h
    · split at h
      · cases h
      · obtain ⟨-, rfl⟩ := Prod.mk.inj (Option.some.inj h)
        rfl
    · obtain ⟨-, rfl⟩ := Prod.mk.inj (Option.some.inj h)
      rfl

end Tssx
