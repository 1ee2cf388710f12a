import Mathlib.Data.List.Perm.Basic
import Tssx.Epoll.Wait
import Tssx.Vector.Contents

/-!
# What an epoll instance holds

`epoll.Holds xs`: the TSSX entries of the instance are those of the list `xs`, in one of its three
shapes: no entry, the entry `first` alone, and `first` with a vector.  There is one theorem for
each control operation, which says what it does to the list, and what is left of the instance
where an allocation fails: an instance whose full vector cannot grow is `Lost`.
-/

namespace Tssx

variable {epoll epoll' : EpollInstance} {xs : List EpollEntry} {x : EpollEntry} {fd : Int}
  {event : EpollEvent} {connection : Nat} {allocated : Bool} {code : Int}

/-- The entries in their order, `first` and those in the vector. -/
def EpollInstance.Holds (epoll : EpollInstance) : List EpollEntry → Prop
  | [] => epoll.tssxCount = 0 ∧ epoll.entries.size = 0
  | [first] => epoll.tssxCount = 1 ∧ epoll.first = first ∧ epoll.entries.size = 0
  | first :: second :: rest =>
    epoll.tssxCount = rest.length + 2 ∧ epoll.first = first ∧
      epoll.entries.Holds (second :: rest)

/-- Some entries are counted that have been lost with the block of the vector, which was full. -/
structure EpollInstance.Lost (epoll : EpollInstance) : Prop where
  many : 1 < epoll.tssxCount
  data : epoll.entries.data = none
  full : epoll.entries.size = epoll.entries.capacity
  capacity : VECTOR_MINIMUM_CAPACITY ≤ epoll.entries.capacity
  elementSize : epoll.entries.elementSize ≠ 0

/-- Neither `first` has the descriptor, nor an entry that a search of the vector finds. -/
def EpollInstance.Missing (epoll : EpollInstance) (fd : Int) : Prop :=
  fd ≠ epoll.first.fd ∧
    findEpollEntry epoll fd = if epoll.entries.data = none then none else some none

theorem epollUpdateInstance_missing (h : epoll.tssxCount ≠ 0 → epoll.Missing fd)
    (event : EpollEvent) :
    epollUpdateInstance epoll fd event =
      if epoll.tssxCount = 0 ∨ epoll.entries.data = none then none else some (ERROR, epoll) := by
  by_cases hc : epoll.tssxCount = 0
  · rw [epollUpdateInstance, if_pos hc, if_pos (.inl hc)]
  · rw [epollUpdateInstance, if_neg hc, if_neg (h hc).1, (h hc).2]
    by_cases hd : epoll.entries.data = none <;> simp [hc, hd]

theorem epollEraseFromInstance_missing (h : epoll.tssxCount ≠ 0 → epoll.Missing fd)
    (allocated : Bool) :
    epollEraseFromInstance allocated epoll fd =
      if epoll.tssxCount = 0 ∨ epoll.entries.data = none then none else some (ERROR, epoll) := by
  by_cases hc : epoll.tssxCount = 0
  · rw [epollEraseFromInstance, if_pos hc, if_pos (.inl hc)]
  · rw [epollEraseFromInstance, if_neg hc, if_neg (h hc).1, (h hc).2]
    by_cases hd : epoll.entries.data = none <;> simp [hc, hd]

namespace EpollInstance.Holds

theorem count (h : epoll.Holds xs) : epoll.tssxCount = xs.length := by
  match xs, h with
  | [], h => exact h.1
  | [_], h => exact h.1
  | _ :: _ :: _, h => exact h.1

theorem size (h : epoll.Holds xs) : epoll.entries.size = xs.length - 1 := by
  match xs, h with
  | [], h => exact h.2
  | [_], h => exact h.2.2
  | _ :: _ :: _, h => exact h.2.2.size

theorem first (h : epoll.Holds (x :: xs)) : epoll.first = x := by
  match xs, h with
  | [], h => exact h.2.1
  | _ :: _, h => exact h.2.1

theorem vector (h : epoll.Holds (x :: xs)) (hne : xs ≠ []) : epoll.entries.Holds xs := by
  match xs, h with
  | [], _ => exact absurd rfl hne
  | _ :: _, h => exact h.2.2

theorem elements (h : epoll.Holds xs) : epoll.entries.elements = xs.tail := by
  match xs, h with
  | [], h => simp [Vector.elements, h.2]
  | [_], h => simp [Vector.elements, h.2.2]
  | _ :: _ :: _, h => exact h.2.2.elements

theorem held (h : epoll.Holds xs) : epoll.held = xs := by
  rw [EpollInstance.held, h.elements, h.count]
  cases xs with
  | nil => rfl
  | cons first rest => simp [h.first]

theorem watched_eq (h : epoll.Holds xs) (hne : xs ≠ []) : epoll.watched = some xs := by
  match xs, h with
  | [], _ => exact absurd rfl hne
  | [_], h => simp [EpollInstance.watched, h.count, h.first]
  | _ :: _ :: _, h => simp [EpollInstance.watched, h.count, h.first, h.2.2.each]

theorem zero : EpollInstance.zero.Holds [] := ⟨rfl, rfl⟩

theorem cons (hc : epoll.tssxCount = xs.length + 1) (hf : epoll.first = x)
    (hv : epoll.entries.Holds xs) : epoll.Holds (x :: xs) := by
  match xs, hv with
  | [], hv => exact ⟨hc, hf, hv.size⟩
  | _ :: _, hv => exact ⟨hc, hf, hv⟩

theorem normal (h : epoll.Holds xs) (n : Nat) : { epoll with normalCount := n }.Holds xs := by
  match xs, h with
  | [], h => exact h
  | [_], h => exact h
  | _ :: _ :: _, h => exact h

theorem find (h : epoll.Holds (x :: xs)) (hdata : epoll.entries.data ≠ none) (fd : Int) :
    findEpollEntry epoll fd =
      some ((xs.findIdx? fun entry => entry.fd = fd).bind fun index =>
        xs[index]?.map fun entry => (index, entry)) := by
  match xs, h with
  | [], h =>
    obtain ⟨cells, hd⟩ := Option.ne_none_iff_exists'.mp hdata
    simp [findEpollEntry, vectorFind, hd, h.2.2]
  | _ :: _, h => exact h.2.2.find _

/-! ### Registration -/

theorem pushBack {entries : Vector EpollEntry} {ys : List EpollEntry}
    (hsetup : (if epoll.tssxCount = 1 then
        vectorSetup allocated INITIAL_INSTANCE_CAPACITY EPOLL_ENTRY_SIZE
      else (VECTOR_SUCCESS, epoll.entries)) = (VECTOR_SUCCESS, entries))
    (hv : entries.Holds ys) (fd : Int) (event : EpollEvent) (connection : Nat) :
    ∃ code epoll', epollPushBackEntry allocated epoll fd event connection = some (code, epoll') ∧
      epoll'.first = epoll.first ∧
      ((code = SUCCESS ∧ epoll'.tssxCount = epoll.tssxCount + 1 ∧
          epoll'.entries.Holds (ys ++ [.new fd event connection])) ∨
        (allocated = false ∧ code = ERROR ∧ epoll'.tssxCount = epoll.tssxCount ∧
          entries.size = entries.capacity ∧ epoll'.entries = vectorDestroy entries)) := by
  have hcode : ¬ (VECTOR_SUCCESS = VECTOR_ERROR) := by decide
  simp only [epollPushBackEntry, hsetup, if_neg hcode]
  obtain ⟨code, vector', hpush, ⟨rfl, hh⟩ | ⟨ha, hfull, rfl, rfl⟩⟩ :=
    hv.pushBack (.new fd event connection) allocated
  · rw [hpush, Option.map_some, if_neg hcode]
    exact ⟨_, _, rfl, rfl, .inl ⟨rfl, rfl, hh⟩⟩
  · rw [hpush, Option.map_some, if_pos rfl]
    exact ⟨_, _, rfl, rfl, .inr ⟨ha, rfl, rfl, hfull, rfl⟩⟩

theorem add_failed (h : epoll.tssxCount = 1) (fd : Int) (event : EpollEvent) (connection : Nat) :
    epollAddToInstance false epoll fd event connection =
      some (ERROR, { epoll with
        entries := (vectorSetup false INITIAL_INSTANCE_CAPACITY EPOLL_ENTRY_SIZE).2 }) := by
  rw [epollAddToInstance, if_neg (by omega), epollPushBackEntry, if_pos h]
  rfl

/-- **Adding appends an entry**, unless an allocation fails. -/
theorem add (h : epoll.Holds xs) (fd : Int) (event : EpollEvent) (connection : Nat)
    (allocated : Bool) :
    ∃ code epoll', epollAddToInstance allocated epoll fd event connection = some (code, epoll') ∧
      ((code = SUCCESS ∧ epoll'.Holds (xs ++ [.new fd event connection])) ∨
        (allocated = false ∧ code = ERROR ∧
          (xs.length = 1 ∧ epoll'.Holds xs ∨ epoll'.Lost))) := by
  match xs, h with
  | [], h =>
    rw [epollAddToInstance, if_pos h.1]
    exact ⟨_, _, rfl, .inl ⟨rfl, congrArg (· + 1) h.1, rfl, h.2⟩⟩
  | [first], h =>
    cases allocated with
    | false =>
      exact ⟨_, _, add_failed h.1 fd event connection,
        .inr ⟨rfl, rfl, .inl ⟨rfl, h.1, h.2.1, rfl⟩⟩⟩
    | true =>
      rw [epollAddToInstance, if_neg (by simp [h.1])]
      have hsetup := @Vector.Holds.setup EpollEntry INITIAL_INSTANCE_CAPACITY
        EPOLL_ENTRY_SIZE (by decide)
      have hfresh : (if epoll.tssxCount = 1 then
            vectorSetup true INITIAL_INSTANCE_CAPACITY EPOLL_ENTRY_SIZE
          else (VECTOR_SUCCESS, epoll.entries)) =
          (VECTOR_SUCCESS, (vectorSetup true INITIAL_INSTANCE_CAPACITY EPOLL_ENTRY_SIZE).2) :=
        if_pos h.1
      obtain ⟨code, epoll', hpush, hfirst, ⟨hcode, hcount, hv⟩ | ⟨ha, -⟩⟩ :=
        pushBack hfresh hsetup.2 fd event connection
      · exact ⟨code, epoll', hpush,
          .inl ⟨hcode, hcount.trans (congrArg (· + 1) h.1), hfirst.trans h.2.1, hv⟩⟩
      · cases ha
  | first :: second :: rest, h =>
    have hone : ¬ epoll.tssxCount = 1 := by rw [h.1]; omega
    rw [epollAddToInstance, if_neg (by rw [h.1]; omega)]
    obtain ⟨code, epoll', hpush, hfirst, ⟨hcode, hcount, hv⟩ | ⟨ha, hcode, hcount, hfull, he⟩⟩ :=
      @pushBack epoll allocated _ _ (if_neg hone) h.2.2 fd event connection
    · refine ⟨code, epoll', hpush, .inl ⟨hcode, ?_, hfirst.trans h.2.1, hv⟩⟩
      rw [hcount, h.1]
      simp
    · refine ⟨code, epoll', hpush, .inr ⟨ha, hcode, .inr ?_⟩⟩
      refine ⟨by rw [hcount, h.1]; omega, ?_, ?_, ?_, ?_⟩ <;> rw [he]
      · rfl
      · exact hfull
      · exact h.2.2.capacity
      · exact h.2.2.elementSize

/-! ### Modification -/

theorem findIdx_of_mem {ys : List EpollEntry} (h : fd ∈ ys.map EpollEntry.fd) :
    ∃ index entry, (ys.findIdx? fun entry => entry.fd = fd) = some index ∧
      ys[index]? = some entry ∧ entry.fd = fd ∧ index < ys.length := by
  obtain ⟨entry, hm, hfd⟩ := List.mem_map.mp h
  cases hi : ys.findIdx? fun entry => entry.fd = fd with
  | none => simpa [hfd] using List.findIdx?_eq_none_iff.mp hi entry hm
  | some index =>
    obtain ⟨hlt, hp, -⟩ := List.findIdx?_eq_some_iff_getElem.mp hi
    exact ⟨index, ys[index], rfl, List.getElem?_eq_getElem hlt, by simpa using hp, hlt⟩

theorem findIdx_of_notMem {ys : List EpollEntry} (h : fd ∉ ys.map EpollEntry.fd) :
    (ys.findIdx? fun entry => entry.fd = fd) = none := by
  rw [List.findIdx?_eq_none_iff]
  intro entry hm
  simpa using fun hfd => h (List.mem_map.mpr ⟨entry, hm, hfd⟩)

/-- **Modifying updates an entry** with the descriptor. -/
theorem update (h : epoll.Holds xs) (hm : fd ∈ xs.map EpollEntry.fd) (event : EpollEvent) :
    ∃ epoll' index entry, epollUpdateInstance epoll fd event = some (SUCCESS, epoll') ∧
      xs[index]? = some entry ∧ entry.fd = fd ∧
      epoll'.Holds (xs.set index (entry.update event)) := by
  obtain ⟨first, rest, rfl⟩ : ∃ first rest, xs = first :: rest :=
    List.exists_cons_of_ne_nil (by rintro rfl; cases hm)
  rw [epollUpdateInstance, if_neg (by rw [h.count]; simp), h.first]
  by_cases hfirst : fd = first.fd
  · refine ⟨_, 0, first, if_pos hfirst, rfl, hfirst.symm, ?_⟩
    match rest, h with
    | [], h => exact ⟨h.1, rfl, h.2.2⟩
    | _ :: _, h => exact ⟨h.1, rfl, h.2.2⟩
  · have hrest : fd ∈ rest.map EpollEntry.fd := by simpa [hfirst] using hm
    obtain ⟨index, entry, hi, hx, hfd, hlt⟩ := findIdx_of_mem hrest
    have hv := h.vector (List.ne_nil_of_length_pos (by omega))
    obtain ⟨vector', hstore, hh⟩ := hv.store hlt (entry.update event)
    rw [if_neg hfirst, h.find hv.initialized, hi]
    simp only [Option.bind_some, hx, Option.map_some, hstore]
    refine ⟨_, index + 1, entry, rfl, hx, hfd, cons ?_ rfl hh⟩
    rw [List.length_set]
    exact h.count

theorem missing (h : epoll.Holds xs) (hm : fd ∉ xs.map EpollEntry.fd) (hc : epoll.tssxCount ≠ 0) :
    epoll.Missing fd := by
  obtain ⟨first, rest, rfl⟩ : ∃ first rest, xs = first :: rest :=
    List.exists_cons_of_ne_nil (by rintro rfl; exact hc h.1)
  refine ⟨?_, ?_⟩
  · rw [h.first]
    rintro rfl
    exact hm List.mem_cons_self
  · by_cases hd : epoll.entries.data = none
    · rw [if_pos hd, findEpollEntry, vectorFind, hd]
      rfl
    · rw [if_neg hd, h.find hd, findIdx_of_notMem fun hmem => hm (List.mem_cons_of_mem _ hmem)]
      rfl

theorem update_missing (h : epoll.Holds xs) (hm : fd ∉ xs.map EpollEntry.fd) (event : EpollEvent) :
    epollUpdateInstance epoll fd event =
      if epoll.tssxCount = 0 ∨ epoll.entries.data = none then none else some (ERROR, epoll) :=
  epollUpdateInstance_missing (h.missing hm) event

/-! ### Removal -/

/-- **Erasing removes an entry** with the descriptor, unless the vector cannot shrink. -/
theorem erase (h : epoll.Holds xs) (hm : fd ∈ xs.map EpollEntry.fd) (allocated : Bool) :
    (∃ epoll' entry ys, epollEraseFromInstance allocated epoll fd = some (SUCCESS, epoll') ∧
      entry.fd = fd ∧ xs.Perm (entry :: ys) ∧ epoll'.Holds ys) ∨
    (allocated = false ∧ epollEraseFromInstance allocated epoll fd = none) := by
  obtain ⟨first, rest, rfl⟩ : ∃ first rest, xs = first :: rest :=
    List.exists_cons_of_ne_nil (by rintro rfl; cases hm)
  have hcode : ¬ (VECTOR_SUCCESS = VECTOR_ERROR) := by decide
  rw [epollEraseFromInstance, if_neg (by rw [h.count]; simp), h.first]
  by_cases hfirst : fd = first.fd
  · rw [if_pos hfirst, epollEraseFirstFromInstance]
    rcases List.eq_nil_or_concat' rest with rfl | ⟨ys, last, rfl⟩
    · rw [if_neg (by rw [h.count]; simp)]
      refine .inl ⟨_, first, [], rfl, hfirst.symm, .refl _, ?_, h.2.2⟩
      rw [h.1]
    · have hv := h.vector (by simp)
      obtain ⟨vector', hpop, hcase⟩ := hv.popBack allocated
      rw [if_pos (by rw [h.count]; simp), hv.back, Option.bind_some]
      simp only [hpop, Option.map_some, if_neg hcode]
      have hcount : epoll.tssxCount - 1 = ys.length + 1 := by rw [h.count]; simp
      refine .inl ⟨_, first, last :: ys, rfl, hfirst.symm, ?_, ?_⟩
      · exact .cons _ (List.perm_append_singleton last ys)
      · rcases hcase with hh | ⟨-, rfl, rfl⟩
        · exact cons hcount rfl hh
        · refine ⟨hcount, rfl, ?_⟩
          show epoll.entries.size - 1 = 0
          rw [hv.size]
          rfl
  · have hrest : fd ∈ rest.map EpollEntry.fd := by simpa [hfirst] using hm
    obtain ⟨index, entry, hi, hx, hfd, hlt⟩ := findIdx_of_mem hrest
    have hv := h.vector (List.ne_nil_of_length_pos (by omega))
    rw [if_neg hfirst, h.find hv.initialized, hi]
    simp only [Option.bind_some, hx, Option.map_some]
    rcases hv.erase hlt allocated with ⟨vector', he, hh⟩ | ⟨ha, he⟩
    · rw [he, Option.map_some, if_neg hcode]
      refine .inl ⟨_, entry, first :: rest.eraseIdx index, rfl, hfd, ?_, cons ?_ rfl hh⟩
      · obtain ⟨_, hget⟩ := List.getElem?_eq_some_iff.mp hx
        rw [← hget]
        exact .trans (.cons _ (List.getElem_cons_eraseIdx_perm hlt).symm) (.swap ..)
      · show epoll.tssxCount - 1 = _
        rw [h.count, List.length_eraseIdx, if_pos hlt, List.length_cons]
        omega
    · exact .inr ⟨ha, by rw [he]; rfl⟩

theorem erase_missing (h : epoll.Holds xs) (hm : fd ∉ xs.map EpollEntry.fd) (allocated : Bool) :
    epollEraseFromInstance allocated epoll fd =
      if epoll.tssxCount = 0 ∨ epoll.entries.data = none then none else some (ERROR, epoll) :=
  epollEraseFromInstance_missing (h.missing hm) allocated

end EpollInstance.Holds

end Tssx
