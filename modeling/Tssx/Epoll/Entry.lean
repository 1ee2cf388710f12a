import Tssx.Definitions
import Tssx.Epoll.Events

/-!
# Epoll entries

The part of `epoll-overrides.c` that checks one entry.  What `connection_peer_died` and
`_ready_for` return depends on the other process, so a check takes an `Observation` of the
connection as an argument.
-/

namespace Tssx

def EPOLLIN : BitVec 32 := 0x1
def EPOLLOUT : BitVec 32 := 0x4
def EPOLLHUP : BitVec 32 := 0x10
def EPOLLRDHUP : BitVec 32 := 0x2000
def EPOLLONESHOT : BitVec 32 := 0x40000000
def EPOLLET : BitVec 32 := 0x80000000

def ENABLED : BitVec 16 := 0x1
def READ_EDGE : BitVec 16 := 0x2
def WRITE_EDGE : BitVec 16 := 0x4

structure EpollEntry where
  fd : Int
  event : EpollEvent
  connection : Nat
  flags : BitVec 16
  deriving DecidableEq

/-- The entry that `EPOLL_CTL_ADD` makes. -/
def EpollEntry.new (fd : Int) (event : EpollEvent) (connection : Nat) : EpollEntry :=
  { fd, event, connection, flags := ENABLED }

/-- The effect of `EPOLL_CTL_MOD` on the entry. -/
def EpollEntry.update (entry : EpollEntry) (event : EpollEvent) : EpollEntry :=
  { entry with event, flags := ENABLED }

/-! ### Flags -/

def epollOperationMap : Operation → BitVec 32
  | .read => EPOLLIN
  | .write => EPOLLOUT

def epollEventRegistered (entry : EpollEntry) (event : BitVec 32) : Bool :=
  entry.event.events &&& event != 0

def epollOperationRegistered (entry : EpollEntry) (operation : Operation) : Bool :=
  epollEventRegistered entry (epollOperationMap operation)

def isEdgeTriggered (entry : EpollEntry) : Bool := entry.event.events &&& EPOLLET != 0

def isLevelTriggered (entry : EpollEntry) : Bool := !isEdgeTriggered entry

def isOneshot (entry : EpollEntry) : Bool := entry.event.events &&& EPOLLONESHOT != 0

/-- `!(entry->flags & (operation == READ) ? READ_EDGE : WRITE_EDGE)`, in which `&` binds
tighter than `?:`, so that the flags are part of the condition. -/
def isEdgeFor (entry : EpollEntry) (operation : Operation) : Bool :=
  let condition := entry.flags &&& (if operation = .read then 1 else 0)
  let edge := if condition ≠ 0 then READ_EDGE else WRITE_EDGE
  edge == 0

def isEnabled (entry : EpollEntry) : Bool := entry.flags &&& ENABLED != 0

def setPollEdge (entry : EpollEntry) (operation : Operation) : EpollEntry :=
  { entry with
    flags := entry.flags ||| (if operation = .read then READ_EDGE else WRITE_EDGE) }

def clearPollEdge (entry : EpollEntry) (operation : Operation) : EpollEntry :=
  { entry with
    flags := entry.flags &&& ~~~(if operation = .read then READ_EDGE else WRITE_EDGE) }

def disablePollEntry (entry : EpollEntry) : EpollEntry :=
  { entry with flags := entry.flags &&& ~~~ENABLED }

/-! ### Checks -/

/-- The result of `_check_epoll_event`, and the entry and the output event after it. -/
structure EventCheck where
  reported : Bool
  entry : EpollEntry
  output : EpollEvent

/-- `ready` is what `_ready_for` returns if it is asked. -/
def checkEpollEvent (ready : Bool) (entry : EpollEntry) (output : EpollEvent)
    (operation : Operation) : EventCheck :=
  if epollOperationRegistered entry operation then
    if ready then
      if isLevelTriggered entry || isEdgeFor entry operation then
        let output := { output with events := output.events ||| epollOperationMap operation }
        let entry := setPollEdge entry operation
        let entry := if isOneshot entry then disablePollEntry entry else entry
        { reported := true, entry, output }
      else { reported := false, entry, output }
    else { reported := false, entry := clearPollEdge entry operation, output }
  else { reported := false, entry, output }

def notifyOfEpollHangup (entry : EpollEntry) (output : EpollEvent) : EpollEvent :=
  let events := output.events ||| EPOLLHUP ||| EPOLLIN
  { output with
    events := if entry.event.events &&& EPOLLRDHUP ≠ 0 then events ||| EPOLLRDHUP else events }

/-- The result of `_check_epoll_entry`, and the entry and the array after it. -/
structure EntryCheck where
  activity : Bool
  entry : EpollEntry
  events : EventBuffer

def checkEpollEntry (o : Observation) (entry : EpollEntry) (events : EventBuffer)
    (numberOfEvents eventCount : Nat) : EntryCheck :=
  if eventCount = numberOfEvents then { activity := false, entry, events }
  else if !isEnabled entry then { activity := false, entry, events }
  else
    let output := { events.event eventCount with events := 0 }
    if o.peerDied then
      let output := notifyOfEpollHangup entry output
      { activity := true, entry
        events := events.write eventCount { output with data := entry.event.data } }
    else
      let read := checkEpollEvent (o.ready .read) entry output .read
      let write := checkEpollEvent (o.ready .write) read.entry read.output .write
      let activity := read.reported || write.reported
      let output :=
        if activity then { write.output with data := entry.event.data } else write.output
      { activity, entry := write.entry, events := events.write eventCount output }

/-! ### The parts that a check keeps -/

theorem checkEpollEvent_entry (ready : Bool) (entry : EpollEntry) (output : EpollEvent)
    (operation : Operation) :
    (checkEpollEvent ready entry output operation).entry.event = entry.event ∧
      (checkEpollEvent ready entry output operation).entry.fd = entry.fd ∧
      (checkEpollEvent ready entry output operation).entry.connection = entry.connection := by
  unfold checkEpollEvent
  split
  · split
    · split
      · dsimp only
        split <;> exact ⟨rfl, rfl, rfl⟩
      · exact ⟨rfl, rfl, rfl⟩
    · exact ⟨rfl, rfl, rfl⟩
  · exact ⟨rfl, rfl, rfl⟩

end Tssx
