import Mathlib.Logic.Function.Basic
import Mathlib.Tactic.Common

/-!
# Arrays of events

An array in memory is a function of the offset from its start, so that an access outside can
be told from one inside: `touched` lists the offsets written.
-/

namespace Tssx

/-- `struct epoll_event`. -/
structure EpollEvent where
  events : BitVec 32
  data : BitVec 64
  deriving DecidableEq

/-- `sizeof(struct epoll_event)`, which is packed. -/
def EPOLL_EVENT_SIZE : Nat := 12

structure EventBuffer where
  event : Int → EpollEvent
  touched : List Int := []

namespace EventBuffer

def write (buffer : EventBuffer) (offset : Int) (event : EpollEvent) : EventBuffer where
  event := Function.update buffer.event offset event
  touched := buffer.touched ++ [offset]

/-- Writes to successive offsets. -/
def writeFrom (buffer : EventBuffer) (offset : Int) : List EpollEvent → EventBuffer
  | [] => buffer
  | event :: events => (buffer.write offset event).writeFrom (offset + 1) events

/-- The first `n` events. -/
def take (buffer : EventBuffer) (n : Nat) : List EpollEvent :=
  (List.range n).map fun (index : Nat) => buffer.event index

/-- Zeroed memory, of `calloc`. -/
def zero : EventBuffer := { event := fun _ => { events := 0, data := 0 } }

variable {buffer : EventBuffer} {offset i : Int} {events more : List EpollEvent}
  {event : EpollEvent}

@[simp] theorem length_take (buffer : EventBuffer) (n : Nat) : (buffer.take n).length = n := by
  simp [take]

@[simp] theorem writeFrom_nil : buffer.writeFrom offset [] = buffer := rfl

theorem mem_touched_write : i ∈ (buffer.write offset event).touched ↔
    i ∈ buffer.touched ∨ i = offset := by
  simp [write]

theorem take_write_of_le {k n : Nat} (h : k ≤ n) :
    (buffer.write n event).take k = buffer.take k := by
  apply List.map_congr_left
  intro index hi
  have hlt := List.mem_range.mp hi
  exact Function.update_of_ne (by omega) _ _

theorem take_succ_write (n : Nat) :
    (buffer.write n event).take (n + 1) = buffer.take n ++ [event] := by
  have hlast : (buffer.write n event).event n = event := Function.update_self _ _ _
  have hsucc : (buffer.write n event).take (n + 1) =
      (buffer.write n event).take n ++ [(buffer.write n event).event n] := by
    rw [take, List.range_succ, List.map_append]
    rfl
  rw [hsucc, hlast, take_write_of_le (Nat.le_refl n)]

theorem mem_touched_writeFrom : i ∈ (buffer.writeFrom offset events).touched ↔
    i ∈ buffer.touched ∨ offset ≤ i ∧ i < offset + events.length := by
  induction events generalizing buffer offset with
  | nil =>
    rw [writeFrom_nil, List.length_nil]
    exact (or_iff_left (by omega)).symm
  | cons event events ih =>
    rw [writeFrom, ih, mem_touched_write, List.length_cons, or_assoc]
    exact or_congr Iff.rfl (by omega)

theorem writeFrom_append :
    buffer.writeFrom offset (events ++ more) =
      (buffer.writeFrom offset events).writeFrom (offset + events.length) more := by
  induction events generalizing buffer offset with
  | nil => simp
  | cons event events ih =>
    rw [List.cons_append, writeFrom, ih, writeFrom, List.length_cons]
    congr 1
    omega

theorem writeFrom_event_of_lt (h : i < offset) :
    (buffer.writeFrom offset events).event i = buffer.event i := by
  induction events generalizing buffer offset with
  | nil => rfl
  | cons event events ih =>
    rw [writeFrom, ih (by omega), write]
    exact Function.update_of_ne (by omega) _ _

theorem writeFrom_event {index : Nat} (h : events[index]? = some event) :
    (buffer.writeFrom offset events).event (offset + index) = event := by
  induction events generalizing buffer offset index with
  | nil => cases h
  | cons first events ih =>
    cases index with
    | zero =>
      obtain rfl : first = event := by simpa using h
      rw [writeFrom, writeFrom_event_of_lt (by omega), write]
      exact (congrArg _ (by omega)).trans (Function.update_self _ _ _)
    | succ index =>
      rw [writeFrom, ← @ih (buffer.write offset first) (offset + 1) index (by simpa using h)]
      congr 1
      omega

/-- **What is written from the start can be read back.** -/
theorem take_writeFrom : (buffer.writeFrom 0 events).take events.length = events := by
  apply List.ext_getElem?
  intro index
  by_cases hi : index < events.length
  · obtain ⟨event, he⟩ : ∃ event, events[index]? = some event :=
      ⟨_, List.getElem?_eq_getElem hi⟩
    rw [take, List.getElem?_map, List.getElem?_range hi, he]
    have := @writeFrom_event buffer 0 events event index he
    rw [Int.zero_add] at this
    rw [Option.map_some, this]
  · rw [List.getElem?_eq_none (by simpa using hi), List.getElem?_eq_none (by omega)]

end EventBuffer

end Tssx
