import Tssx.ConcurrentWait

/-!
# Poll

The part of `poll-overrides.c` that polls the TSSX descriptors, and `_concurrent_poll`.  An
entry of the TSSX descriptors points into the array of the caller, and the normal descriptors
are copies.
-/

namespace Tssx

def POLLIN : BitVec 16 := 0x1
def POLLOUT : BitVec 16 := 0x4
def POLLERR : BitVec 16 := 0x8
def POLLHUP : BitVec 16 := 0x10
def POLLNVAL : BitVec 16 := 0x20

/-- `struct pollfd`. -/
structure PollFd where
  fd : Int
  events : BitVec 16
  revents : BitVec 16
  deriving DecidableEq

structure PollEntry where
  connection : Nat
  /-- `*poll_pointer`. -/
  poll : PollFd
  deriving DecidableEq

def operationMap : Operation → BitVec 16
  | .read => POLLIN
  | .write => POLLOUT

def waitingFor (entry : PollEntry) (operation : Operation) : Bool :=
  entry.poll.events &&& operationMap operation != 0

def PollEntry.addRevents (entry : PollEntry) (events : BitVec 16) : PollEntry :=
  { entry with poll := { entry.poll with revents := entry.poll.revents ||| events } }

def tellThatReadyFor (entry : PollEntry) (operation : Operation) : PollEntry :=
  entry.addRevents (operationMap operation)

/-- `ready` is what `_ready_for` returns if it is asked. -/
def checkReady (ready : Bool) (entry : PollEntry) (operation : Operation) : Bool × PollEntry :=
  if waitingFor entry operation && ready then (true, tellThatReadyFor entry operation)
  else (false, entry)

def checkPollEvents (o : Observation) (entry : PollEntry) : Bool × PollEntry :=
  if o.peerDied then (true, tellThatReadyFor (entry.addRevents POLLHUP) .read)
  else
    let (read, entry) := checkReady (o.ready .read) entry .read
    let (write, entry) := checkReady (o.ready .write) entry .write
    (read || write, entry)

/-- One loop over the TSSX descriptors, of which the `i`-th is seen as `o i`. -/
def pollScan : (Nat → Observation) → List PollEntry → Nat → Nat × List PollEntry
  | _, [], eventCount => (eventCount, [])
  | o, entry :: rest, eventCount =>
    let (occurred, entry) := checkPollEvents (o 0) entry
    let (eventCount, rest) :=
      pollScan (fun i => o (i + 1)) rest (if occurred then eventCount + 1 else eventCount)
    (eventCount, entry :: rest)

structure PollMemory where
  tssxFds : List PollEntry
  normalFds : List PollFd
  deriving DecidableEq

/-- The `revents` that `real_poll` writes. -/
def writeRevents : List PollFd → List (BitVec 16) → List PollFd
  | fd :: fds, revents :: rest => { fd with revents } :: writeRevents fds rest
  | fds, _ => fds

/-- `_concurrent_poll`.  What `real_poll` finds are the `revents` of its descriptors, and it
returns the number of those that are not zero. -/
def concurrentPoll (start : Nat) (timeout : Int) :
    ConcurrentWait (Nat → Observation) PollMemory (List (BitVec 16)) where
  handshake := true
  start := start
  timeout := timeout
  scan o memory eventCount :=
    let (eventCount, tssxFds) := pollScan o memory.tssxFds eventCount
    some (eventCount, { memory with tssxFds })
  count revents := revents.countP (· != 0)
  record revents memory := { memory with normalFds := writeRevents memory.normalFds revents }
  finish _ _ _ memory := some memory

end Tssx
