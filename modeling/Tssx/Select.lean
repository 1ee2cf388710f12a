import Mathlib.Data.Finset.Card
import Tssx.Bridge
import Tssx.ConcurrentWait

/-!
# Select

The part of `select-overrides.c` that waits for TSSX descriptors only.  An `fd_set` is the set
of its members, and `none` is the null pointer.  `FD_SET` on the null pointer, a failed
assertion and an access through a null pointer are `none` as a result.

What the other processes do during a call is a list of `SelectPass`es: what each descriptor
shows if it is looked at in the pass, and the clock after it.  A call whose passes end before it
returns has no return value yet.
-/

namespace Tssx

abbrev FdSet := Finset Nat

structure DescriptorSets where
  readfds : Option FdSet
  writefds : Option FdSet
  errorfds : Option FdSet
  deriving DecidableEq

/-- `struct timeval`. -/
structure Timeval where
  tvSec : Int
  tvUsec : Int

def timevalToMilliseconds (time : Timeval) : Int :=
  int32 (int32 (time.tvSec * 1000) + time.tvUsec.tdiv 1000)

/-- `BLOCK_FOREVER` for the null pointer. -/
def selectMilliseconds (timeout : Option Timeval) : Int :=
  (timeout.map timevalToMilliseconds).getD BLOCK_FOREVER

/-- The body is the one of `_poll_timeout_elapsed`. -/
def selectTimeoutElapsed (start now : Nat) (timeout : Int) : Bool :=
  pollTimeoutElapsed start now timeout

/-! ### Sets -/

def fdIsSet (fd : Nat) (set : Option FdSet) : Bool := set.any fun members => fd ∈ members

/-- `FD_SET`. -/
def fdSet (fd : Nat) (set : Option FdSet) : Option FdSet := set.map (insert fd)

def isInAnySet (fd : Nat) (sets : DescriptorSets) : Bool :=
  fdIsSet fd sets.readfds || fdIsSet fd sets.writefds || fdIsSet fd sets.errorfds

/-- The copy is never the null pointer. -/
def copySet (source : Option FdSet) : Option FdSet := some (source.getD ∅)

def copyAllSets (source : DescriptorSets) : DescriptorSets where
  readfds := copySet source.readfds
  writefds := copySet source.writefds
  errorfds := copySet source.errorfds

def clearSet (set : Option FdSet) : Option FdSet := set.map fun _ => ∅

def clearAllSets (sets : DescriptorSets) : DescriptorSets where
  readfds := clearSet sets.readfds
  writefds := clearSet sets.writefds
  errorfds := clearSet sets.errorfds

def fdSetForOperation (sets : DescriptorSets) : Operation → Option FdSet
  | .read => sets.readfds
  | .write => sets.writefds

/-- `FD_SET(fd, set)` on the set of an operation. -/
def DescriptorSets.add (sets : DescriptorSets) (fd : Nat) : Operation → Option DescriptorSets
  | .read => (fdSet fd sets.readfds).map fun set => { sets with readfds := some set }
  | .write => (fdSet fd sets.writefds).map fun set => { sets with writefds := some set }

/-- The counts of `_count_tssx_sockets`. -/
structure SocketCount where
  lowestFd : Nat
  normalCount : Nat
  tssxCount : Nat
  deriving DecidableEq

/-- The loop of `_count_tssx_sockets` over the descriptors. -/
def countSockets (sets : DescriptorSets) :
    List Nat → Bridge → SocketCount → Option (Bridge × SocketCount)
  | [], bridge, count => some (bridge, count)
  | fd :: fds, bridge, count =>
    if isInAnySet fd sets then
      (bridgeHasConnection bridge fd).bind fun (bridge, hasConnection) =>
        let count := if fd < count.lowestFd then { count with lowestFd := fd } else count
        countSockets sets fds bridge
          (if hasConnection then { count with tssxCount := count.tssxCount + 1 }
          else { count with normalCount := count.normalCount + 1 })
    else countSockets sets fds bridge count

def countTssxSockets (highestFd : Nat) (sets : DescriptorSets) (bridge : Bridge) :
    Option (Bridge × SocketCount) :=
  countSockets sets (List.range highestFd) bridge
    { lowestFd := highestFd, normalCount := 0, tssxCount := 0 }

/-! ### One descriptor -/

def selectPeerDied (fd : Nat) (session : Session) (o : Observation) (sets : DescriptorSets) :
    Option (Bool × DescriptorSets) :=
  if session.connection.isNone then none
  else if o.peerDied then (sets.add fd .read).map fun sets => (true, sets)
  else some (false, sets)

def readyForSelect (fd : Nat) (o : Observation) (sets : DescriptorSets) (operation : Operation) :
    Option (Bool × DescriptorSets) :=
  if o.ready operation then (sets.add fd operation).map fun sets => (true, sets)
  else some (false, sets)

def waitingAndReadyForSelect (fd : Nat) (o : Observation) (sets : DescriptorSets)
    (operation : Operation) : Option (Bool × DescriptorSets) :=
  if fdIsSet fd (fdSetForOperation sets operation) then readyForSelect fd o sets operation
  else some (false, sets)

def checkSelectEvents (fd : Nat) (session : Session) (o : Observation) (sets : DescriptorSets) :
    Option (Bool × DescriptorSets) :=
  (selectPeerDied fd session o sets).bind fun (died, sets) =>
    if died then some (true, sets)
    else
      (waitingAndReadyForSelect fd o sets .read).bind fun (read, sets) =>
        (waitingAndReadyForSelect fd o sets .write).map fun (write, sets) => (read || write, sets)

/-! ### The loops -/

/-- What the descriptors show in a pass, and the clock after it. -/
structure SelectPass where
  observe : Nat → Observation
  now : Nat

/-- A call so far. -/
structure SelectCall where
  returned : Option Int
  /-- The sets of the caller. -/
  sets : DescriptorSets
  /-- The descriptors that were looked at. -/
  examined : List Nat
  /-- What the last pass saw. -/
  observed : Option (Nat → Observation)

/-- `ready_count`, the bridge, the sets that are tested and filled, and the descriptors looked
at, after a loop over descriptors. -/
structure SelectScan where
  readyCount : Nat
  bridge : Bridge
  sets : DescriptorSets
  examined : List Nat

/-- One pass of `_select_on_tssx_only` over the descriptors. -/
def selectScan (observe : Nat → Observation) : List Nat → SelectScan → Option SelectScan
  | [], scan => some scan
  | fd :: fds, scan =>
    (bridgeLookup scan.bridge fd).bind fun (bridge, session) =>
      (checkSelectEvents fd session (observe fd) scan.sets).bind fun (activity, sets) =>
        selectScan observe fds
          { readyCount := if activity then scan.readyCount + 1 else scan.readyCount
            bridge, sets, examined := scan.examined ++ [fd] }

/-- The loop of `_select_on_tssx_only`.  The sets that are tested and filled are the copy, and
`sets` are those of the caller. -/
def selectLoop (fds : List Nat) (start : Nat) (milliseconds : Int) (sets : DescriptorSets) :
    List SelectPass → SelectScan → Option SelectCall
  | [], scan => some { returned := none, sets, examined := scan.examined, observed := none }
  | pass :: rest, scan =>
    (selectScan pass.observe fds scan).bind fun scan =>
      if 0 < scan.readyCount || selectTimeoutElapsed start pass.now milliseconds then
        some { returned := some scan.readyCount, sets, examined := scan.examined
               observed := some pass.observe }
      else selectLoop fds start milliseconds sets rest scan

/-- One pass of `_select_on_tssx_only_fast_path`: whether the call returns `true`, and the sets
of the caller. -/
def fastPass (fd : Nat) (session : Session) (selectRead selectWrite : Bool) (o : Observation)
    (sets : DescriptorSets) : Option (Bool × DescriptorSets) :=
  (selectPeerDied fd session o sets).bind fun (died, sets) =>
    if died then some (true, sets)
    else if selectRead && selectWrite then
      (readyForSelect fd o sets .write).bind fun (write, sets) =>
        (readyForSelect fd o sets .read).map fun (read, sets) => (write || read, sets)
    else if selectRead then readyForSelect fd o sets .read
    else readyForSelect fd o sets .write

def fastLoop (fd : Nat) (session : Session) (selectRead selectWrite : Bool) (start : Nat)
    (milliseconds : Int) : List SelectPass → DescriptorSets → Option SelectCall
  | [], sets => some { returned := none, sets, examined := [fd], observed := none }
  | pass :: rest, sets =>
    (fastPass fd session selectRead selectWrite (pass.observe fd) sets).bind fun (ready, sets) =>
      if ready || selectTimeoutElapsed start pass.now milliseconds then
        some { returned := some (if ready then 1 else 0), sets, examined := [fd]
               observed := some pass.observe }
      else fastLoop fd session selectRead selectWrite start milliseconds rest sets

def selectOnTssxOnlyFastPath (bridge : Bridge) (sets : DescriptorSets) (fd : Nat)
    (timeout : Option Timeval) (start : Nat) (passes : List SelectPass) : Option SelectCall :=
  let selectRead := fdIsSet fd sets.readfds
  let selectWrite := fdIsSet fd sets.writefds
  if selectRead || selectWrite then
    (bridgeLookup bridge fd).bind fun (_, session) =>
      fastLoop fd session selectRead selectWrite start (selectMilliseconds timeout) passes
        (clearAllSets sets)
  else none

def selectOnTssxOnly (bridge : Bridge) (sets : DescriptorSets) (count : SocketCount)
    (highestFd : Nat) (timeout : Option Timeval) (start : Nat) (passes : List SelectPass) :
    Option SelectCall :=
  if count.tssxCount = 1 then
    if count.lowestFd + 1 = highestFd then
      selectOnTssxOnlyFastPath bridge sets count.lowestFd timeout start passes
    else none
  else
    selectLoop (List.range' count.lowestFd (highestFd - count.lowestFd)) start
      (selectMilliseconds timeout) (clearAllSets sets) passes
      { readyCount := 0, bridge, sets := copyAllSets sets, examined := [] }

end Tssx
