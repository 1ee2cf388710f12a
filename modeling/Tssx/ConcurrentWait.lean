import Tssx.Definitions
import Tssx.Lib.Run

/-!
# A wait in two threads

`common-poll-overrides.c`, and what `_concurrent_poll` and `_concurrent_epoll_wait` have in
common.  The calling thread looks at the TSSX descriptors, and a normal thread that it starts
makes the real call for the others.  They share `event_count`, of which each load, store and
addition is one step, and the TSSX thread sends `POLL_SIGNAL` to the normal thread when it has
found events.  The functions of pthreads and the installation of the handler succeed.

`ConcurrentWait` holds the parts in which the two functions differ, and `waitStep` is the step
function of the two threads.  A count of events fits into an `int`, so the counter is an `Int`.
-/

namespace Tssx

def BLOCK_FOREVER : Int := -1
def DONT_BLOCK : Int := 0

def thereWasAnError (eventCount : Int) : Bool := eventCount == ERROR

/-- The difference is a `size_t`, and so is `timeout` where it is compared with it. -/
def pollTimeoutElapsed (start now : Nat) (timeout : Int) : Bool :=
  if timeout = BLOCK_FOREVER then false
  else if timeout = DONT_BLOCK then true
  else decide (sizeT timeout < sizeT ((now : Int) - start))

/-- What the real call returns: events, or an error with `EINTR` or another `errno`. -/
inductive WaitResult (ρ : Type)
  | events (found : ρ)
  | interrupted
  | failed

def WaitResult.isFailed {ρ : Type} : WaitResult ρ → Bool
  | .failed => true
  | _ => false

/-- The TSSX thread, by its next access. -/
inductive TssxPc
  /-- `_wait_for_normal_thread`. -/
  | waitReady
  | scan
  | load
  | kill
  | timeout
  | add
  | join
  | joined
  | returned (value : Int)
  deriving DecidableEq

/-- The return value. -/
def TssxPc.value : TssxPc → Option Int
  | .returned value => some value
  | _ => none

/-- The normal thread, by its next access. -/
inductive NormalPc
  /-- `_signal_tssx_thread`. -/
  | signalReady
  | loadFirst
  | enterWait
  | waiting
  | loadSecond
  | storeError
  | addCount
  | finished
  deriving DecidableEq

/-- The parameters of a call: `ο` is what a scan sees of the TSSX descriptors, `μ` the memory
that the call works on and `ρ` what the real call finds. -/
structure ConcurrentWait (ο μ ρ : Type) where
  /-- The TSSX thread waits until the normal thread is ready. -/
  handshake : Bool
  start : Nat
  timeout : Int
  /-- One iteration over the TSSX descriptors, which adds to the local count. -/
  scan : ο → μ → Nat → Option (Nat × μ)
  count : ρ → Nat
  /-- What the real call writes. -/
  record : ρ → μ → μ
  /-- From the join to the return, with `event_count` and the two local counts. -/
  finish : Int → Int → Nat → μ → Option μ

structure WaitState (ο μ ρ : Type) where
  eventCount : Int
  ready : Bool
  tssx : TssxPc
  /-- The local count of the TSSX thread. -/
  found : Nat
  /-- What the last scan saw. -/
  observed : Option ο
  memory : μ
  normal : NormalPc
  /-- What the real call returned, if it was made. -/
  result : Option (WaitResult ρ)
  /-- The signal mask of the caller, which the normal thread inherits, blocks the signal. -/
  blocked : Bool
  pending : Bool
  sent : Bool

inductive WaitAction (ο ρ : Type)
  | tssx
  | scan (observation : ο)
  | clock (now : Nat)
  | normal
  | wake (result : WaitResult ρ)
  | deliver

variable {ο μ ρ : Type}

namespace ConcurrentWait

/-- The normal thread has been started. -/
def init (c : ConcurrentWait ο μ ρ) (memory : μ) (blocked : Bool) : WaitState ο μ ρ where
  eventCount := 0
  ready := false
  tssx := if c.handshake then .waitReady else .scan
  found := 0
  observed := none
  memory := memory
  normal := if c.handshake then .signalReady else .loadFirst
  result := none
  blocked := blocked
  pending := false
  sent := false

/-- The normal thread's local count when it adds: an interrupted call counts as zero. -/
def normalCount (c : ConcurrentWait ο μ ρ) : Option (WaitResult ρ) → Nat
  | some (.events found) => c.count found
  | _ => 0

/-- The normal thread's local count at the end. -/
def normalTaskCount (c : ConcurrentWait ο μ ρ) : Option (WaitResult ρ) → Int
  | some .failed => ERROR
  | result => c.normalCount result

def recordResult (c : ConcurrentWait ο μ ρ) : WaitResult ρ → μ → μ
  | .events found, memory => c.record found memory
  | _, memory => memory

end ConcurrentWait

/-- The next access of the TSSX thread, outside its iterations and its looks at the clock.
`shared_event_count > 0` compares a `size_t`. -/
def tssxStep (c : ConcurrentWait ο μ ρ) (s : WaitState ο μ ρ) : Option (WaitState ο μ ρ) :=
  match s.tssx with
  | .waitReady => if s.ready then some { s with tssx := .scan } else none
  | .load =>
    if s.eventCount = ERROR then some { s with tssx := .join }
    else if s.eventCount ≠ 0 then some { s with tssx := .add }
    else if 0 < s.found then some { s with tssx := .kill }
    else some { s with tssx := .timeout }
  | .kill => some { s with pending := true, sent := true, tssx := .add }
  | .add => some { s with eventCount := s.eventCount + s.found, tssx := .join }
  | .join => if s.normal = .finished then some { s with tssx := .joined } else none
  | .joined =>
    (c.finish s.eventCount (c.normalTaskCount s.result) s.found s.memory).map fun memory =>
      { s with memory, tssx := .returned s.eventCount }
  | .scan | .timeout | .returned _ => none

/-- The next access of the normal thread, outside the real call. -/
def normalStep (c : ConcurrentWait ο μ ρ) (s : WaitState ο μ ρ) : Option (WaitState ο μ ρ) :=
  match s.normal with
  | .signalReady => some { s with ready := true, normal := .loadFirst }
  | .loadFirst =>
    if s.eventCount = 0 then some { s with normal := .enterWait }
    else some { s with normal := .loadSecond }
  | .enterWait => some { s with normal := .waiting }
  | .loadSecond =>
    if thereWasAnError s.eventCount then some { s with normal := .finished }
    else
      match s.result with
      | some .failed => some { s with normal := .storeError }
      | some .interrupted => some { s with normal := .finished }
      | _ => some { s with normal := .addCount }
  | .storeError => some { s with eventCount := ERROR, normal := .finished }
  | .addCount =>
    some { s with eventCount := s.eventCount + c.normalCount s.result, normal := .finished }
  | .waiting | .finished => none

/-- The end of the real call. -/
def wakeStep (c : ConcurrentWait ο μ ρ) (s : WaitState ο μ ρ) (result : WaitResult ρ) :
    Option (WaitState ο μ ρ) :=
  if s.normal = .waiting then
    some { s with
      memory := c.recordResult result s.memory, result := some result, normal := .loadSecond }
  else none

/-- The handler of a pending signal runs; a real call in progress fails with `EINTR`. -/
def deliverStep (s : WaitState ο μ ρ) : Option (WaitState ο μ ρ) :=
  if s.pending = true ∧ s.blocked = false then
    if s.normal = .waiting then
      some { s with pending := false, result := some .interrupted, normal := .loadSecond }
    else some { s with pending := false }
  else none

def waitStep (c : ConcurrentWait ο μ ρ) (s : WaitState ο μ ρ) :
    WaitAction ο ρ → Option (WaitState ο μ ρ)
  | .tssx => tssxStep c s
  | .scan o =>
    if s.tssx = .scan then
      (c.scan o s.memory s.found).map fun (found, memory) =>
        { s with tssx := .load, observed := some o, found, memory }
    else none
  | .clock now =>
    if s.tssx = .timeout then
      some { s with tssx := if pollTimeoutElapsed c.start now c.timeout then .add else .scan }
    else none
  | .normal => normalStep c s
  | .wake result => wakeStep c s result
  | .deliver => deliverStep s

end Tssx
