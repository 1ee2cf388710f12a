import Tssx.Bridge

/-!
# The calls on a socket

`connection_write` and `connection_read` of `common-overrides.c`, `read` and `write` of the two
programs, and the calls of `socket-overrides.c` that end in one of them.  The entry points go
through each other by flags, address and number of buffers, and the last one hands the call to
the connection of the descriptor or to the function that it overrides.  Where a call ends up is
its `Service`, and its return value is the one of the service.

A pointer is a number, and `none` is the null pointer.
-/

namespace Tssx

def MSG_NOSIGNAL : Int := 0x4000

structure IoVec where
  iovBase : Nat
  iovLen : Nat
  deriving DecidableEq

/-- A `struct msghdr` and where it lies; `msg_iovlen` is the length of `msg_iov`. -/
structure MsgHdr where
  location : Nat
  msgName : Option Nat
  msgNamelen : Nat
  msgIov : List IoVec
  deriving DecidableEq

/-- `&msg->msg_namelen`, behind the pointer `msg_name`. -/
def MsgHdr.namelenPointer (msg : MsgHdr) : Nat := msg.location + 8

/-- A call of an overridden function, with its arguments. -/
inductive RealCall
  | write (fd : Int) (source size : Nat)
  | read (fd : Int) (destination size : Nat)
  | send (fd : Int) (buffer length : Nat) (flags : Int)
  | recv (fd : Int) (buffer length : Nat) (flags : Int)
  | sendto (fd : Int) (buffer length : Nat) (flags : Int) (destAddr : Option Nat) (addrlen : Nat)
  | recvfrom (fd : Int) (buffer length : Nat) (flags : Int) (srcAddr : Option Nat)
      (addrlen : Option Nat)
  | sendmsg (fd : Int) (msg : MsgHdr) (flags : Int)
  | recvmsg (fd : Int) (msg : MsgHdr) (flags : Int)
  | close (fd : Int)
  deriving DecidableEq

/-- What serves a call: `buffer_write` or `buffer_read` on a buffer of the connection, unless
the peer has died, or an overridden function. -/
inductive Service
  | ring (connection : Nat) (buffer : Side) (operation : Operation) (pointer size : Nat)
  | real (call : RealCall)
  deriving DecidableEq

/-- The overridden functions that were called. -/
def Service.calls : Service → List RealCall
  | .ring .. => []
  | .real call => [call]

/-- `connection_write` and `connection_read`, with what they do for a connection and without. -/
def connectionTransfer (ring : Nat → Service) (real : RealCall) (bridge : Bridge) (key : Int) :
    Option (Bridge × Service) :=
  (bridgeLookup bridge key).map fun (bridge, session) =>
    (bridge, match session.connection with
      | some connection => ring connection
      | none => .real real)

def connectionWrite (bridge : Bridge) (key : Int) (source requestedBytes : Nat)
    (whichBuffer : Side) : Option (Bridge × Service) :=
  connectionTransfer (fun connection => .ring connection whichBuffer .write source requestedBytes)
    (.write key source requestedBytes) bridge key

def connectionRead (bridge : Bridge) (key : Int) (destination requestedBytes : Nat)
    (whichBuffer : Side) : Option (Bridge × Service) :=
  connectionTransfer
    (fun connection => .ring connection whichBuffer .read destination requestedBytes)
    (.read key destination requestedBytes) bridge key

/-- Flags that the library knows how to ignore. -/
def ignoresFlags (flags : Int) : Bool := flags == 0 || flags == MSG_NOSIGNAL

namespace Sockets

variable (side : Side) (bridge : Bridge)

/-- The server writes `SERVER_BUFFER` and the client `CLIENT_BUFFER`. -/
def write (fd : Int) (source requestedBytes : Nat) : Option (Bridge × Service) :=
  connectionWrite bridge fd source requestedBytes side

def read (fd : Int) (destination requestedBytes : Nat) : Option (Bridge × Service) :=
  connectionRead bridge fd destination requestedBytes side.peer

def send (fd : Int) (buffer length : Nat) (flags : Int) : Option (Bridge × Service) :=
  if ignoresFlags flags then write side bridge fd buffer length
  else some (bridge, .real (.send fd buffer length flags))

def recv (fd : Int) (buffer length : Nat) (flags : Int) : Option (Bridge × Service) :=
  if ignoresFlags flags then read side bridge fd buffer length
  else some (bridge, .real (.recv fd buffer length flags))

def sendto (fd : Int) (buffer length : Nat) (flags : Int) (destAddr : Option Nat)
    (addrlen : Nat) : Option (Bridge × Service) :=
  if destAddr = none then send side bridge fd buffer length flags
  else some (bridge, .real (.sendto fd buffer length flags destAddr addrlen))

def recvfrom (fd : Int) (buffer length : Nat) (flags : Int) (srcAddr : Option Nat)
    (addrlen : Option Nat) : Option (Bridge × Service) :=
  if srcAddr = none then recv side bridge fd buffer length flags
  else some (bridge, .real (.recvfrom fd buffer length flags srcAddr addrlen))

def sendmsg (fd : Int) (msg : MsgHdr) (flags : Int) : Option (Bridge × Service) :=
  match msg.msgIov with
  | [iov] => sendto side bridge fd iov.iovBase iov.iovLen flags msg.msgName msg.msgNamelen
  | _ => some (bridge, .real (.sendmsg fd msg flags))

def recvmsg (fd : Int) (msg : MsgHdr) (flags : Int) : Option (Bridge × Service) :=
  match msg.msgIov with
  | [iov] =>
    recvfrom side bridge fd iov.iovBase iov.iovLen flags msg.msgName (some msg.namelenPointer)
  | _ => some (bridge, .real (.recvmsg fd msg flags))

end Sockets

/-! ### Descriptors with and without a connection -/

section Lookup

variable {bridge : Bridge} {key : Int}

theorem lazyBridgeSetup_isSome (hb : BridgeInv bridge) : (lazyBridgeSetup bridge).isSome := by
  unfold lazyBridgeSetup
  split
  · rfl
  · rename_i hi
    rw [Bool.not_eq_true] at hi
    have hempty : bridge.sessionTable.sessions.any sessionHasConnection = false := by
      rw [hb.initial hi]
      simp [SessionTable.empty, sessionHasConnection]
    simp [bridgeSetup, hi, sessionTableSetup, hempty]

theorem sizeT_lt_iff (fd : CInt) : sizeT fd < SESSION_TABLE_SIZE ↔
    0 ≤ (fd : Int) ∧ (fd : Int) < SESSION_TABLE_SIZE := by
  unfold sizeT SESSION_TABLE_SIZE
  omega

/-- **A lookup** fails its assertion if the descriptor is not in the table. -/
theorem bridgeLookup_eq_none {fd : CInt}
    (h : ¬ (0 ≤ (fd : Int) ∧ (fd : Int) < SESSION_TABLE_SIZE)) :
    bridgeLookup bridge fd = none := by
  rw [← sizeT_lt_iff, Nat.not_lt] at h
  rw [bridgeLookup, Option.bind_eq_none_iff]
  intro middle _
  rw [sessionTableGet, List.getElem?_eq_none]
  · rfl
  · rw [middle.sessionTable.size]
    exact h

/-- **A lookup in the table** sets the bridge up if necessary, and returns the session. -/
theorem bridgeLookup_eq_some (hb : BridgeInv bridge) {session : Session}
    (h : bridge.sessionTable.sessions[sizeT key]? = some session) :
    ∃ bridge', bridgeLookup bridge key = some (bridge', session) ∧
      bridge'.sessionTable = bridge.sessionTable := by
  obtain ⟨bridge', hsetup⟩ := Option.isSome_iff_exists.mp (lazyBridgeSetup_isSome hb)
  obtain ⟨-, -, htable⟩ := lazyBridgeSetup_spec hb hsetup
  refine ⟨bridge', ?_, htable⟩
  rw [bridgeLookup, hsetup]
  simp [sessionTableGet, htable, h]

end Lookup

end Tssx
