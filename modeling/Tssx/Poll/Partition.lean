import Tssx.Bridge
import Tssx.Poll
import Tssx.Vector

/-!
# `poll`

`poll` splits the array of the caller into the TSSX descriptors and the others, polls each in its
way and brings the results together.  An entry of the TSSX descriptors has a pointer into the
array, here the index of its `struct pollfd`, and the other descriptors are copied to a vector and
their results copied back by position.  The two are loaded into the memory that the loops of
`Poll.lean` work on, and stored from there.

The allocations, the clock, the interleaving of the two threads and what `real_poll` returns are
arguments; the functions of pthreads succeed.  A failed assertion or an access outside a block is
`none`.
-/

namespace Tssx

/-- `PollEntry`, with the index of its `struct pollfd`. -/
structure PollPointer where
  connection : Nat
  pollPointer : Nat
  deriving DecidableEq

/-! ### The two kinds of descriptors -/

/-- `_partition` after some of the descriptors. -/
structure Partition where
  fds : List PollFd
  tssxFds : Vector PollPointer
  normalFds : Vector PollFd
  bridge : Bridge

/-- One descriptor.  The results of the insertions are not looked at. -/
def partitionOne (allocated : Bool) (partition : Partition) (poll : PollFd) : Option Partition :=
  if poll.fd ≤ 0 then none
  else
    let poll := { poll with revents := 0 }
    (bridgeLookup partition.bridge poll.fd).bind fun (bridge, session) =>
      match session.connection with
      | some connection =>
        (vectorPushBack allocated partition.tssxFds
            { connection, pollPointer := partition.fds.length }).map fun (_, tssxFds) =>
          { partition with fds := partition.fds ++ [poll], tssxFds, bridge }
      | none =>
        (vectorPushBack allocated partition.normalFds poll).map fun (_, normalFds) =>
          { partition with fds := partition.fds ++ [poll], normalFds, bridge }

/-- The loop of `_partition`; `growth i` is the outcome of an allocation for the `i`-th
descriptor. -/
def partitionLoop (growth : Nat → Bool) : Partition → List PollFd → Option Partition
  | partition, [] => some partition
  | partition, poll :: rest =>
    (partitionOne (growth partition.fds.length) partition poll).bind fun partition =>
      partitionLoop growth partition rest

/-- The outcomes of the allocations. -/
structure PollAllocations where
  tssxFds : Bool
  normalFds : Bool
  growth : Nat → Bool

/-- `sizeof(PollEntry)` is 16 and `sizeof(struct pollfd)` is 8. -/
def partition (allocations : PollAllocations) (bridge : Bridge) (fds : List PollFd) :
    Option (Int × Partition) :=
  let (tssxCode, tssxFds) := vectorSetup allocations.tssxFds 16 16
  if tssxCode = VECTOR_ERROR then some (ERROR, { fds, tssxFds, normalFds := .zero, bridge })
  else
    let (normalCode, normalFds) := vectorSetup allocations.normalFds 16 8
    if normalCode = VECTOR_ERROR then some (ERROR, { fds, tssxFds, normalFds, bridge })
    else
      (partitionLoop allocations.growth { fds := [], tssxFds, normalFds, bridge } fds).map
        fun partition => (SUCCESS, partition)

/-- `_join_poll_partition` from a descriptor on. -/
def joinPollPartition (normalFds : Vector PollFd) :
    Bridge → Nat → List PollFd → Option (List PollFd)
  | _, _, [] => some []
  | bridge, normalIndex, poll :: rest =>
    (bridgeLookup bridge poll.fd).bind fun (bridge, session) =>
      if sessionHasConnection session then
        (joinPollPartition normalFds bridge normalIndex rest).map (poll :: ·)
      else
        (vectorGet normalFds normalIndex).join.bind fun entry =>
          if entry.fd = poll.fd then
            (joinPollPartition normalFds bridge (normalIndex + 1) rest).map
              ({ poll with revents := entry.revents } :: ·)
          else none

/-! ### The array and the entries -/

/-- What the pointers point to. -/
def loadEntries (fds : List PollFd) (pointers : List PollPointer) : Option (List PollEntry) :=
  pointers.mapM fun pointer =>
    fds[pointer.pollPointer]?.map fun poll => { connection := pointer.connection, poll }

def storeEntries : List PollFd → List PollPointer → List PollEntry → List PollFd
  | fds, pointer :: pointers, entry :: entries =>
    storeEntries (fds.set pointer.pollPointer entry.poll) pointers entries
  | fds, _, _ => fds

/-- The cells of the vector are written in place. -/
def storeNormalFds (normalFds : Vector PollFd) (polls : List PollFd) : Vector PollFd :=
  { normalFds with
    data := normalFds.data.map fun cells => polls.map some ++ cells.drop polls.length }

/-! ### The calls -/

/-- What the TSSX descriptors show in a pass, and the clock after it. -/
structure PollPass where
  observe : Nat → Observation
  now : Nat

/-- A call so far. -/
structure PollCall where
  returned : Option Int
  fds : List PollFd
  /-- What the last scan of the TSSX descriptors saw. -/
  observed : Option (Nat → Observation)
  /-- What `real_poll` returned, if it was called. -/
  result : Option (WaitResult (List (BitVec 16)))

/-- The loop of `_simple_tssx_poll`: the return value, the entries and what the last pass saw. -/
def simpleTssxPoll (start : Nat) (timeout : Int) :
    List PollPass → Int → List PollEntry →
      Option Int × List PollEntry × Option (Nat → Observation)
  | [], _, entries => (none, entries, none)
  | pass :: rest, eventCount, entries =>
    let (found, entries) := pollScan pass.observe entries 0
    let eventCount := int32 (eventCount + found)
    if 0 < eventCount || pollTimeoutElapsed start pass.now timeout then
      (some eventCount, entries, some pass.observe)
    else simpleTssxPoll start timeout rest eventCount entries

/-- What happens around a call. -/
structure PollEnvironment where
  allocations : PollAllocations
  start : Nat
  /-- The passes of `_simple_tssx_poll`. -/
  passes : List PollPass
  /-- The interleaving of `_concurrent_poll`. -/
  actions : List (WaitAction (Nat → Observation) (List (BitVec 16)))
  blocked : Bool
  /-- `real_poll` for the whole array. -/
  realPoll : List PollFd → Int → WaitResult (List (BitVec 16))

/-- The return value of `real_poll`. -/
def realPollValue : WaitResult (List (BitVec 16)) → Int
  | .events revents => revents.countP (· != 0)
  | .interrupted | .failed => ERROR

/-- The array after `real_poll`. -/
def realPollFds (fds : List PollFd) : WaitResult (List (BitVec 16)) → List PollFd
  | .events revents => writeRevents fds revents
  | .interrupted | .failed => fds

/-- The call of `real_poll` for the whole array. -/
def forwardPoll (environment : PollEnvironment) (fds : List PollFd) (timeout : Int) : PollCall :=
  let result := environment.realPoll fds timeout
  { returned := some (realPollValue result), fds := realPollFds fds result
    observed := none, result := some result }

/-- `_concurrent_poll` with the join.  The counter is a `long`, which the return value narrows. -/
def pollBoth (environment : PollEnvironment) (timeout : Int) (partition : Partition)
    (pointers : List PollPointer) (entries : List PollEntry) : Option PollCall :=
  let wait := concurrentPoll environment.start timeout
  (vectorEach partition.normalFds).bind fun normalFds =>
    (Run.run (waitStep wait) (wait.init { tssxFds := entries, normalFds } environment.blocked)
        environment.actions).bind fun s =>
      let fds := storeEntries partition.fds pointers s.memory.tssxFds
      match s.tssx with
      | .returned value =>
        (joinPollPartition (storeNormalFds partition.normalFds s.memory.normalFds)
            partition.bridge 0 fds).map fun fds =>
          { returned := some (int32 value), fds, observed := s.observed, result := s.result }
      | _ => some { returned := none, fds, observed := s.observed, result := s.result }

def poll (environment : PollEnvironment) (bridge : Bridge) (fds : List PollFd) (timeout : Int) :
    Option PollCall :=
  if fds = [] then some { returned := some 0, fds, observed := none, result := none }
  else
    (partition environment.allocations bridge fds).bind fun (code, partition) =>
      if code = ERROR then
        some { returned := some ERROR, fds := partition.fds, observed := none, result := none }
      else if partition.tssxFds.size = 0 then some (forwardPoll environment partition.fds timeout)
      else
        (vectorEach partition.tssxFds).bind fun pointers =>
          (loadEntries partition.fds pointers).bind fun entries =>
            if partition.normalFds.size = 0 then
              let (returned, entries, observed) :=
                simpleTssxPoll environment.start timeout environment.passes 0 entries
              some { returned, fds := storeEntries partition.fds pointers entries, observed
                     result := none }
            else pollBoth environment timeout partition pointers entries

end Tssx
