import Tssx.Bridge
import Tssx.Lib.Bytes
import Tssx.Lib.Run

/-!
# The set-up of a connection

`accept` and `_setup_tssx` of `server-overrides.c`, `connect` and `_setup_tssx` of
`client-overrides.c`.  The server creates the segment, writes its number to the socket and
waits for one byte; the client reads the number, attaches the segment and writes the byte.
Each makes its `bridge_insert` at the end.

The socket is a reliable stream of bytes in each direction: `stream side` are the bytes on
their way to `side`.  A `real_read` or `real_write` may fail at any time and move fewer bytes
than it was asked for, and a `real_read` returns 0 at the end of the stream.  The `fcntl`
calls between (`options_from_socket`, `unset_socket_non_blocking`) look the descriptor up in
the bridge; the first of them is the step `options`, and the others find the bridge set up.
-/

namespace Tssx

/-- What `real_read` or `real_write` returns. -/
inductive Io
  | error
  | count (n : Nat)
  deriving DecidableEq

/-- The next step of `accept`. -/
inductive ServerPc
  | accept
  | usage
  | options
  | create
  | send (id : Nat)
  | synchronize (id : Nat)
  | insert (id : Nat)
  | returned (code : Int)
  deriving DecidableEq

/-- The next step of `connect`. -/
inductive ClientPc
  | connect
  | usage
  | options
  | receive
  | attach (id : Int)
  | acknowledge (id : Nat)
  | insert (id : Nat)
  | returned (code : Int)
  /-- `attach_segment` has thrown. -/
  | exited
  deriving DecidableEq

structure Handshake where
  /-- The segments that have been created, by number. -/
  segments : Nat → Option Segment
  stream : Side → List UInt8
  /-- The side sends no more. -/
  closed : Side → Bool
  /-- The number of bytes that a side has read from its stream. -/
  consumed : Side → Nat
  server : ServerPc
  client : ClientPc
  bridge : Side → Bridge
  /-- The `client_socket` of the server and the `fd` of the client. -/
  fd : Side → Int
  /-- The open descriptors of the server's process. -/
  descriptors : Int → Bool
  /-- The segment that `create_connection` has made. -/
  created : Option Nat

/-- The bytes of a segment number in memory: an `int`. -/
def intBytes (id : Nat) : List UInt8 := Bytes.bytes 4 id

def intOfBytes (bytes : List UInt8) : Int := int32 (Bytes.value bytes)

/-- The message `"!"` of `_synchronize_with_server`. -/
def syncMessage : List UInt8 := [33]

/-- `real_read` of `size` bytes that returns `n`, and the bytes. -/
def Handshake.read (s : Handshake) (side : Side) (size n : Nat) :
    Option (Handshake × List UInt8) :=
  if n ≤ size ∧ n ≤ (s.stream side).length ∧
      (n = 0 → s.stream side = [] ∧ s.closed side.peer = true) then
    some ({ s with
      stream := Function.update s.stream side ((s.stream side).drop n)
      consumed := Function.update s.consumed side (s.consumed side + n) }, (s.stream side).take n)
  else none

/-- `real_write` of `bytes` that returns `n`. -/
def Handshake.write (s : Handshake) (side : Side) (bytes : List UInt8) (n : Nat) :
    Option Handshake :=
  if 1 ≤ n ∧ n ≤ bytes.length ∧ s.closed side = false then
    some { s with
      stream := Function.update s.stream side.peer (s.stream side.peer ++ bytes.take n) }
  else none

def Handshake.setBridge (s : Handshake) (side : Side) (bridge : Bridge) : Handshake :=
  { s with bridge := Function.update s.bridge side bridge }

def Handshake.setSegment (s : Handshake) (id : Nat) (segment : Segment) : Handshake :=
  { s with segments := Function.update s.segments id (some segment) }

/-- What a side finds in its session table. -/
def Handshake.session (s : Handshake) (side : Side) : Option Session :=
  (s.bridge side).sessionTable.sessions[sizeT (s.fd side)]?

inductive HandshakeAction
  /-- `real_accept` with its result. -/
  | accept (result : Option Int)
  | connect (succeeds : Bool)
  /-- `check_tssx_usage` with its result. -/
  | usage (side : Side) (answer : Int)
  | options (side : Side)
  | create (allocated : Bool) (id : Nat)
  | send (io : Io)
  | synchronize (io : Io)
  /-- `garbage` are the bytes of the variable before the call. -/
  | receive (io : Io) (garbage : List UInt8)
  | attach (allocated : Bool)
  | acknowledge (io : Io)
  | insert (side : Side)
  /-- The socket of a side is shut down, by the side or by its end. -/
  | shutdown (side : Side)
  deriving DecidableEq

/-! ### The server -/

def accept (s : Handshake) : Option Int → Option Handshake
  | none => some { s with server := .returned ERROR }
  | some fd =>
    if 0 ≤ fd ∧ s.descriptors fd = false then
      some { s with
        server := .usage
        fd := Function.update s.fd .server fd
        descriptors := Function.update s.descriptors fd true }
    else none

def createSegment (s : Handshake) (allocated : Bool) (id : Nat) : Option Handshake :=
  if allocated then
    if s.segments id = none ∧ id < 2 ^ 31 then
      some { s.setSegment id createConnection with server := .send id, created := some id }
    else none
  else some { s with server := .returned ERROR }

def sendSegmentIdToClient (s : Handshake) (id : Nat) : Io → Option Handshake
  | .error =>
    (s.segments id).bind fun segment => (disconnect segment).map fun segment =>
      { s.setSegment id segment with server := .returned ERROR }
  | .count n =>
    (s.write .server (intBytes id) n).map fun s => { s with server := .synchronize id }

def synchronizeWithClient (s : Handshake) (id : Nat) : Io → Option Handshake
  | .error => some { s with server := .returned ERROR }
  | .count n => (s.read .server 1 n).map fun (s, _) => { s with server := .insert id }

/-- One step of `accept`. -/
def serverStep (s : Handshake) : HandshakeAction → Option Handshake
  | .accept result => if s.server = .accept then accept s result else none
  | .usage .server answer =>
    if s.server = .usage then
      some { s with
        server :=
          if answer = ERROR then .returned ERROR
          else if answer = 0 then .returned (s.fd .server) else .options }
    else none
  | .options .server =>
    if s.server = .options then
      (bridgeLookup (s.bridge .server) (s.fd .server)).map fun (bridge, _) =>
        { s.setBridge .server bridge with server := .create }
    else none
  | .create allocated id => if s.server = .create then createSegment s allocated id else none
  | .send io =>
    match s.server with
    | .send id => sendSegmentIdToClient s id io
    | _ => none
  | .synchronize io =>
    match s.server with
    | .synchronize id => synchronizeWithClient s id io
    | _ => none
  | .insert .server =>
    match s.server with
    | .insert id =>
      (bridgeInsert (s.bridge .server) (s.fd .server) { connection := some id }).map fun bridge =>
        { s.setBridge .server bridge with server := .returned (s.fd .server) }
    | _ => none
  | _ => none

/-! ### The client -/

/-- A read that returns fewer bytes leaves the rest of the variable as it was. -/
def readSegmentIdFromServer (s : Handshake) (io : Io) (garbage : List UInt8) : Option Handshake :=
  match io with
  | .error => some { s with client := .returned ERROR }
  | .count n =>
    if garbage.length = 4 then
      (s.read .client 4 n).map fun (s, bytes) =>
        let id := intOfBytes (bytes ++ garbage.drop n)
        { s with client := if id = ERROR then .returned ERROR else .attach id }
    else none

/-- The segment that `shmat` finds. -/
def Handshake.attachable (s : Handshake) (id : Int) : Option Segment :=
  if 0 ≤ id then (s.segments id.toNat).filter fun segment => !segment.removed else none

def attachSegment (s : Handshake) (id : Int) (allocated : Bool) : Handshake :=
  if allocated then
    match s.attachable id with
    | some segment =>
      { s.setSegment id.toNat (setupConnection segment) with client := .acknowledge id.toNat }
    | none => { s with client := .exited }
  else { s with client := .returned ERROR }

def synchronizeWithServer (s : Handshake) (id : Nat) : Io → Option Handshake
  | .error => some { s with client := .returned ERROR }
  | .count n => (s.write .client syncMessage n).map fun s => { s with client := .insert id }

/-- One step of `connect`. -/
def clientStep (s : Handshake) : HandshakeAction → Option Handshake
  | .connect succeeds =>
    if s.client = .connect then
      some { s with client := if succeeds then .usage else .returned ERROR }
    else none
  | .usage .client answer =>
    if s.client = .usage then
      some { s with
        client :=
          if answer = ERROR then .returned ERROR
          else if answer = 0 then .returned SUCCESS else .options }
    else none
  | .options .client =>
    if s.client = .options then
      (bridgeLookup (s.bridge .client) (s.fd .client)).map fun (bridge, _) =>
        { s.setBridge .client bridge with client := .receive }
    else none
  | .receive io garbage =>
    if s.client = .receive then readSegmentIdFromServer s io garbage else none
  | .attach allocated =>
    match s.client with
    | .attach id => some (attachSegment s id allocated)
    | _ => none
  | .acknowledge io =>
    match s.client with
    | .acknowledge id => synchronizeWithServer s id io
    | _ => none
  | .insert .client =>
    match s.client with
    | .insert id =>
      (bridgeInsert (s.bridge .client) (s.fd .client) { connection := some id }).map fun bridge =>
        { s.setBridge .client bridge with client := .returned SUCCESS }
    | _ => none
  | _ => none

/-- The two processes on one socket. -/
def handshakeStep (s : Handshake) : HandshakeAction → Option Handshake
  | .shutdown side => some { s with closed := Function.update s.closed side true }
  | a => (serverStep s a).or (clientStep s a)

/-! ### The accesses to the socket -/

section Socket

variable {s t : Handshake} {side : Side} {size n : Nat} {bytes : List UInt8}

theorem Handshake.read_eq (h : s.read side size n = some (t, bytes)) :
    n ≤ size ∧ n ≤ (s.stream side).length ∧
      (n = 0 → s.stream side = [] ∧ s.closed side.peer = true) ∧
      bytes = (s.stream side).take n ∧
      t = { s with
        stream := Function.update s.stream side ((s.stream side).drop n)
        consumed := Function.update s.consumed side (s.consumed side + n) } := by
  unfold Handshake.read at h
  split at h
  · rename_i hn
    obtain ⟨rfl, rfl⟩ := Prod.mk.inj (Option.some.inj h)
    exact ⟨hn.1, hn.2.1, hn.2.2, rfl, rfl⟩
  · cases h

theorem Handshake.write_eq (h : s.write side bytes n = some t) :
    1 ≤ n ∧ n ≤ bytes.length ∧ s.closed side = false ∧
      t = { s with
        stream := Function.update s.stream side.peer (s.stream side.peer ++ bytes.take n) } := by
  unfold Handshake.write at h
  split at h
  · rename_i hn
    obtain rfl := Option.some.inj h
    exact ⟨hn.1, hn.2.1, hn.2.2, rfl⟩
  · cases h

theorem intOfBytes_intBytes {id : Nat} (h : id < 2 ^ 31) : intOfBytes (intBytes id) = id := by
  rw [intOfBytes, intBytes, Bytes.value_bytes (by omega)]
  exact int32_eq (by omega) (by omega)

@[simp] theorem length_intBytes (id : Nat) : (intBytes id).length = 4 := Bytes.length_bytes 4 id

end Socket

/-! ### What a step can do -/

/-- The steps of `accept`. -/
inductive ServerMove (s : Handshake) : HandshakeAction → Handshake → Prop
  | accept {result : Option Int} {t : Handshake} (hpc : s.server = .accept)
      (hs : accept s result = some t) : ServerMove s (.accept result) t
  | usage {answer : Int} (hpc : s.server = .usage) :
      ServerMove s (.usage .server answer) { s with
        server :=
          if answer = ERROR then .returned ERROR
          else if answer = 0 then .returned (s.fd .server) else .options }
  | options {bridge : Bridge} {session : Session} (hpc : s.server = .options)
      (hs : bridgeLookup (s.bridge .server) (s.fd .server) = some (bridge, session)) :
      ServerMove s (.options .server) { s.setBridge .server bridge with server := .create }
  | create {allocated : Bool} {id : Nat} {t : Handshake} (hpc : s.server = .create)
      (hs : createSegment s allocated id = some t) : ServerMove s (.create allocated id) t
  | send {id : Nat} {io : Io} {t : Handshake} (hpc : s.server = .send id)
      (hs : sendSegmentIdToClient s id io = some t) : ServerMove s (.send io) t
  | synchronize {id : Nat} {io : Io} {t : Handshake} (hpc : s.server = .synchronize id)
      (hs : synchronizeWithClient s id io = some t) : ServerMove s (.synchronize io) t
  | insert {id : Nat} {bridge : Bridge} (hpc : s.server = .insert id)
      (hs : bridgeInsert (s.bridge .server) (s.fd .server) { connection := some id } =
        some bridge) :
      ServerMove s (.insert .server)
        { s.setBridge .server bridge with server := .returned (s.fd .server) }

/-- The steps of `connect`. -/
inductive ClientMove (s : Handshake) : HandshakeAction → Handshake → Prop
  | connect {succeeds : Bool} (hpc : s.client = .connect) :
      ClientMove s (.connect succeeds)
        { s with client := if succeeds then .usage else .returned ERROR }
  | usage {answer : Int} (hpc : s.client = .usage) :
      ClientMove s (.usage .client answer) { s with
        client :=
          if answer = ERROR then .returned ERROR
          else if answer = 0 then .returned SUCCESS else .options }
  | options {bridge : Bridge} {session : Session} (hpc : s.client = .options)
      (hs : bridgeLookup (s.bridge .client) (s.fd .client) = some (bridge, session)) :
      ClientMove s (.options .client) { s.setBridge .client bridge with client := .receive }
  | receive {io : Io} {garbage : List UInt8} {t : Handshake} (hpc : s.client = .receive)
      (hs : readSegmentIdFromServer s io garbage = some t) : ClientMove s (.receive io garbage) t
  | attach {allocated : Bool} {id : Int} (hpc : s.client = .attach id) :
      ClientMove s (.attach allocated) (attachSegment s id allocated)
  | acknowledge {id : Nat} {io : Io} {t : Handshake} (hpc : s.client = .acknowledge id)
      (hs : synchronizeWithServer s id io = some t) : ClientMove s (.acknowledge io) t
  | insert {id : Nat} {bridge : Bridge} (hpc : s.client = .insert id)
      (hs : bridgeInsert (s.bridge .client) (s.fd .client) { connection := some id } =
        some bridge) :
      ClientMove s (.insert .client)
        { s.setBridge .client bridge with client := .returned SUCCESS }

theorem serverStep_move {s t : Handshake} {a : HandshakeAction} (h : serverStep s a = some t) :
    ServerMove s a t := by
  unfold serverStep at h
  split at h
  · split at h
    · exact .accept ‹_› h
    · cases h
  · split at h
    · obtain rfl := Option.some.inj h
      exact .usage ‹_›
    · cases h
  · split at h
    · obtain ⟨⟨bridge, session⟩, hs, rfl⟩ := Option.map_eq_some_iff.mp h
      exact .options ‹_› hs
    · cases h
  · split at h
    · exact .create ‹_› h
    · cases h
  · split at h
    · exact .send ‹_› h
    · cases h
  · split at h
    · exact .synchronize ‹_› h
    · cases h
  · split at h
    · obtain ⟨bridge, hs, rfl⟩ := Option.map_eq_some_iff.mp h
      exact .insert ‹_› hs
    · cases h
  · cases h

theorem clientStep_move {s t : Handshake} {a : HandshakeAction} (h : clientStep s a = some t) :
    ClientMove s a t := by
  unfold clientStep at h
  split at h
  · split at h
    · obtain rfl := Option.some.inj h
      exact .connect ‹_›
    · cases h
  · split at h
    · obtain rfl := Option.some.inj h
      exact .usage ‹_›
    · cases h
  · split at h
    · obtain ⟨⟨bridge, session⟩, hs, rfl⟩ := Option.map_eq_some_iff.mp h
      exact .options ‹_› hs
    · cases h
  · split at h
    · exact .receive ‹_› h
    · cases h
  · split at h
    · obtain rfl := Option.some.inj h
      exact .attach ‹_›
    · cases h
  · split at h
    · exact .acknowledge ‹_› h
    · cases h
  · split at h
    · obtain ⟨bridge, hs, rfl⟩ := Option.map_eq_some_iff.mp h
      exact .insert ‹_› hs
    · cases h
  · cases h

end Tssx
