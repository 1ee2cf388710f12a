import Tssx.ConcurrentWait
import Tssx.Epoll.Entry
import Tssx.Epoll.Instance

/-!
# Waiting for an epoll instance

`epoll_wait` of `epoll-overrides.c`.  An instance with TSSX entries only is scanned by the
caller, one with normal descriptors only is left to `real_epoll_wait`, and one with both is
waited for in two threads.

What the kernel and the other process do during a call is its `EpollTrace`.  A call whose trace
ends before it returns has no return value yet; a failed assertion, and an access through a
null pointer, is `none`.
-/

namespace Tssx

/-! ### Scans -/

/-- `event_count`, the entries and the array after a loop over entries. -/
structure Scan where
  eventCount : Nat
  entries : List EpollEntry
  events : EventBuffer

/-- The loop over all entries in `_simple_tssx_epoll_wait`; the `i`-th is seen as `o i`. -/
def scanEntries (numberOfEvents : Nat) :
    (Nat → Observation) → List EpollEntry → EventBuffer → Nat → Scan
  | _, [], events, eventCount => { eventCount, entries := [], events }
  | o, entry :: rest, events, eventCount =>
    let check := checkEpollEntry (o 0) entry events numberOfEvents eventCount
    let scan := scanEntries numberOfEvents (fun i => o (i + 1)) rest check.events
      (if check.activity then eventCount + 1 else eventCount)
    { scan with entries := check.entry :: scan.entries }

/-- The loop over `entries` in `_concurrent_tssx_epoll_wait`, with its `break`. -/
def scanUntilFull (numberOfEvents : Nat) :
    (Nat → Observation) → List EpollEntry → EventBuffer → Nat → Scan
  | _, [], events, eventCount => { eventCount, entries := [], events }
  | o, entry :: rest, events, eventCount =>
    let check := checkEpollEntry (o 0) entry events numberOfEvents eventCount
    if check.activity then
      if eventCount + 1 = numberOfEvents then
        { eventCount := eventCount + 1, entries := check.entry :: rest, events := check.events }
      else
        let scan :=
          scanUntilFull numberOfEvents (fun i => o (i + 1)) rest check.events (eventCount + 1)
        { scan with entries := check.entry :: scan.entries }
    else
      let scan := scanUntilFull numberOfEvents (fun i => o (i + 1)) rest check.events eventCount
      { scan with entries := check.entry :: scan.entries }

/-- The entries of an instance that a wait looks at, `first` and those in the vector. -/
def EpollInstance.watched (epoll : EpollInstance) : Option (List EpollEntry) :=
  if 1 < epoll.tssxCount then (vectorEach epoll.entries).map fun entries => epoll.first :: entries
  else some [epoll.first]

/-! ### TSSX descriptors only -/

/-- What an iteration over the entries sees, and the clock after it. -/
abbrev Iteration := (Nat → Observation) × Nat

/-- `_tssx_epoll_wait_for_single_entry`; the flag says that the loop has ended. -/
def tssxEpollWaitForSingleEntry (numberOfEvents start : Nat) (timeout : Int) :
    List Iteration → EpollEntry → EventBuffer → Bool × EpollEntry × EventBuffer
  | [], entry, events => (false, entry, events)
  | (o, now) :: rest, entry, events =>
    let check := checkEpollEntry (o 0) entry events numberOfEvents 0
    if check.activity || pollTimeoutElapsed start now timeout then
      (true, check.entry, check.events)
    else tssxEpollWaitForSingleEntry numberOfEvents start timeout rest check.entry check.events

/-- The loop of `_simple_tssx_epoll_wait`, which goes on while `event_count` is zero. -/
def simpleTssxLoop (numberOfEvents start : Nat) (timeout : Int) :
    List Iteration → List EpollEntry → EventBuffer → Bool × Scan
  | [], entries, events => (false, { eventCount := 0, entries, events })
  | (o, now) :: rest, entries, events =>
    let scan := scanEntries numberOfEvents o entries events 0
    if scan.eventCount ≠ 0 || pollTimeoutElapsed start now timeout then (true, scan)
    else simpleTssxLoop numberOfEvents start timeout rest scan.entries scan.events

/-! ### Both kinds of descriptors -/

structure EpollMemory where
  entries : List EpollEntry
  /-- `tssx_events` is not the null pointer. -/
  allocated : Bool
  tssxEvents : EventBuffer
  /-- The array of the caller. -/
  events : EventBuffer

/-- One iteration of `_concurrent_tssx_epoll_wait`, after its assertions.  With one entry, the
loop over the others has nothing to do. -/
def concurrentScan (numberOfEvents : Nat) (o : Nat → Observation) (memory : EpollMemory)
    (eventCount : Nat) : Option (Nat × EpollMemory) :=
  match memory.entries with
  | [] => none
  | first :: entries =>
    if numberOfEvents = 0 then none
    else
      let check := checkEpollEntry (o 0) first memory.tssxEvents numberOfEvents eventCount
      let eventCount := if check.activity then eventCount + 1 else eventCount
      let scan :=
        if eventCount < numberOfEvents then
          scanUntilFull numberOfEvents (fun i => o (i + 1)) entries check.events eventCount
        else { eventCount, entries, events := check.events }
      if !memory.allocated && scan.events.touched ≠ [] then none
      else
        some (scan.eventCount,
          { memory with entries := check.entry :: scan.entries, tssxEvents := scan.events })

/-- `_concurrent_epoll_wait`.  The events of the caller's array are copied to the place behind
the normal events, whose number is `-1` if the real call has failed. -/
def concurrentEpollWait (numberOfEvents start : Nat) (timeout : Int) :
    ConcurrentWait (Nat → Observation) EpollMemory (List EpollEvent) where
  handshake := false
  start := start
  timeout := timeout
  scan := concurrentScan numberOfEvents
  count := List.length
  record found memory := { memory with events := memory.events.writeFrom 0 found }
  finish eventCount normalEventCount tssxEventCount memory :=
    if thereWasAnError eventCount then some memory
    else if (tssxEventCount : Int) + normalEventCount = eventCount then
      some { memory with
        events := memory.events.writeFrom normalEventCount (memory.tssxEvents.take tssxEventCount) }
    else none

/-- The memory of `_concurrent_epoll_wait` when its threads start; `calloc` fails if the size
overflows. -/
def EpollMemory.init (entries : List EpollEntry) (events : EventBuffer) (numberOfEvents : Nat)
    (allocated : Bool) : EpollMemory where
  entries := entries
  allocated := allocated && decide (numberOfEvents * EPOLL_EVENT_SIZE < 2 ^ 64)
  tssxEvents := .zero
  events := events

/-! ### `epoll_wait` -/

/-- What happens during a call. -/
structure EpollTrace where
  start : Nat
  /-- What `real_epoll_wait` returns, where it is the whole call. -/
  real : Option (WaitResult (List EpollEvent))
  /-- The iterations of a call without normal descriptors. -/
  iterations : List Iteration
  /-- The steps of a call with both kinds of descriptors. -/
  actions : List (WaitAction (Nat → Observation) (List EpollEvent))
  allocated : Bool
  blocked : Bool

/-- A call of `epoll_wait` so far. -/
structure EpollCall where
  returned : Option Int
  events : EventBuffer
  /-- The entries that were looked at. -/
  entries : List EpollEntry
  /-- What `real_epoll_wait` returned. -/
  result : Option (WaitResult (List EpollEvent))
  /-- What the last iteration of the TSSX thread saw. -/
  observed : Option (Nat → Observation)

def validateEpollWaitArguments (epfd numberOfEvents : Int) : Int :=
  if epfd < 0 ∨ NUMBER_OF_EPOLL_INSTANCES ≤ epfd then ERROR
  else if numberOfEvents = 0 then ERROR
  else SUCCESS

/-- `real_epoll_wait` in the calling thread. -/
def realEpollWait (events : EventBuffer) (result : Option (WaitResult (List EpollEvent))) :
    EpollCall where
  returned := result.map fun
    | .events found => found.length
    | .interrupted | .failed => ERROR
  events :=
    match result with
    | some (.events found) => events.writeFrom 0 found
    | _ => events
  entries := []
  result := result
  observed := none

def simpleTssxEpollWait (epoll : EpollInstance) (events : EventBuffer) (numberOfEvents : Nat)
    (timeout : Int) (trace : EpollTrace) : Option EpollCall :=
  if epoll.tssxCount = 1 then
    let (ended, entry, events) := tssxEpollWaitForSingleEntry numberOfEvents trace.start timeout
      trace.iterations epoll.first events
    some { returned := if ended then some SUCCESS else none
           events, entries := [entry], result := none, observed := none }
  else
    epoll.watched.map fun entries =>
      let (ended, scan) := simpleTssxLoop numberOfEvents trace.start timeout trace.iterations
        entries events
      { returned := if ended then some (int32 scan.eventCount) else none
        events := scan.events, entries := scan.entries, result := none, observed := none }

/-- The call of `_concurrent_epoll_wait`, whose return value is converted to an `int`. -/
def concurrentEpollCall (epoll : EpollInstance) (events : EventBuffer) (numberOfEvents : Nat)
    (timeout : Int) (trace : EpollTrace) : Option EpollCall :=
  epoll.watched.bind fun entries =>
    let wait := concurrentEpollWait numberOfEvents trace.start timeout
    let memory := EpollMemory.init entries events numberOfEvents trace.allocated
    (Run.run (waitStep wait) (wait.init memory trace.blocked) trace.actions).map fun s =>
      { returned := s.tssx.value.map int32
        events := s.memory.events, entries := s.memory.entries
        result := s.result, observed := s.observed }

def epollWait (epolls : Nat → EpollInstance) (epfd : Int) (events : EventBuffer)
    (numberOfEvents timeout : Int) (trace : EpollTrace) : Option EpollCall :=
  if validateEpollWaitArguments epfd numberOfEvents = ERROR then
    some { returned := some ERROR, events, entries := [], result := none, observed := none }
  else
    let epoll := epolls epfd.toNat
    if epoll.tssxCount = 0 then some (realEpollWait events trace.real)
    else if epoll.normalCount = 0 then
      simpleTssxEpollWait epoll events (sizeT numberOfEvents) timeout trace
    else concurrentEpollCall epoll events (sizeT numberOfEvents) timeout trace

end Tssx
