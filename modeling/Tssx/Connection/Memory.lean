import Mathlib.Logic.Function.Basic
import Tssx.Connection.Layout
import Tssx.Connection.Sides

/-!
# The two sides of a connection, in the bytes of the segment

The transfers of `Buffer/Transfer.lean` and the calls of `Connection/Sides.lean` once more, where
the counter and the two buffers are bytes of one segment and every access is a load or a store at
a place that the process computes from its own pointers.  This is the segment on Linux, whose
layout is right.
-/

namespace Tssx

/-! ### The fields of a `Buffer` -/

/-- `atomic_load(&buffer->size)`. -/
def sizeAt (memory : SegmentBytes) (buffer : Nat) : Int :=
  int32 (Bytes.value (Ring.load memory buffer 4))

/-- `atomic_fetch_add(&buffer->size, bytes)`, and `atomic_fetch_sub` of `-bytes`. -/
def fetchAddAt (memory : SegmentBytes) (buffer : Nat) (bytes : Int) : SegmentBytes :=
  Ring.store memory buffer (Bytes.bytes 4 ((sizeAt memory buffer + bytes) % 2 ^ 32).toNat)

def capacityAt (memory : SegmentBytes) (buffer : Nat) : Nat := loadSizeT memory (buffer + CAPACITY)

def readAt (memory : SegmentBytes) (buffer : Nat) : Nat := loadSizeT memory (buffer + READ_INDEX)

def writeAt (memory : SegmentBytes) (buffer : Nat) : Nat := loadSizeT memory (buffer + WRITE_INDEX)

/-- `timeouts.non_blocking[operation]`. -/
def nonBlockingAt (memory : SegmentBytes) (buffer : Nat) : Operation → Bool
  | .read => memory (buffer + TIMEOUTS) != 0
  | .write => memory (buffer + TIMEOUTS + 1) != 0

/-- `_get_available_space`. -/
def availableSpaceAt (memory : SegmentBytes) (buffer : Nat) : Operation → Nat
  | .read => sizeT (sizeAt memory buffer)
  | .write => sizeT (capacityAt memory buffer - sizeAt memory buffer)

/-- `_start_pointer`. -/
def startPointer (buffer : Nat) : Nat := buffer + SIZEOF_BUFFER

/-! ### `buffer_write` and `buffer_read` -/

/-- The calls in progress in one buffer, with what has been done in it. -/
structure RingCalls where
  writer : WriterPc
  reader : ReaderPc
  history : History

/-- The next access of `buffer_write`.  A pointer to the data is kept as the index that
`_pointer_to` adds to the start. -/
def writerStepAt (buffer : Nat) (memory : SegmentBytes) (s : RingCalls) :
    Option (SegmentBytes × RingCalls) :=
  match s.writer with
  | .idle => none
  | .space source waits =>
    let availableSpace := availableSpaceAt memory buffer .write
    if availableSpace = 0 ∧ nonBlockingAt memory buffer .write = false then
      some (memory, { s with writer := .space source (waits + 1) })
    else
      some (memory, { s with
        writer := .compareOwn
          { call := source, offset := 0, bytes := min availableSpace source.length,
            rightSpace := 0 } })
  | .compareOwn r => some (memory, { s with writer := .compareOther r (writeAt memory buffer) })
  | .compareOther r write =>
    if readAt memory buffer ≤ write then some (memory, { s with writer := .right r })
    else some (memory, { s with writer := .secondPointer r })
  | .right r =>
    let rightSpace := sizeT (capacityAt memory buffer - writeAt memory buffer)
    if rightSpace ≤ r.bytes then
      some (memory, { s with writer := .firstPointer { r with rightSpace } })
    else some (memory, { s with writer := .secondPointer r })
  | .firstPointer r =>
    if writeAt memory buffer ≤ capacityAt memory buffer then
      some (memory, { s with writer := .firstCopy r (writeAt memory buffer) })
    else none
  | .firstCopy r index =>
    let bytes := (r.call.drop r.offset).take r.rightSpace
    some (Ring.store memory (startPointer buffer + index) bytes,
      { s with writer := .wrapIndex r, history := s.history.place index bytes })
  | .wrapIndex r =>
    some (storeSizeT memory (buffer + WRITE_INDEX) 0, { s with writer := .wrapSize r })
  | .wrapSize r =>
    some (fetchAddAt memory buffer r.rightSpace,
      { s with
        writer := .secondPointer
          { r with offset := r.offset + r.rightSpace, bytes := r.bytes - r.rightSpace }
        history := { s.history with published := s.history.published + r.rightSpace } })
  | .secondPointer r =>
    if writeAt memory buffer ≤ capacityAt memory buffer then
      some (memory, { s with writer := .secondCopy r (writeAt memory buffer) })
    else none
  | .secondCopy r index =>
    let bytes := (r.call.drop r.offset).take r.bytes
    some (Ring.store memory (startPointer buffer + index) bytes,
      { s with writer := .loadIndex r, history := s.history.place index bytes })
  | .loadIndex r => some (memory, { s with writer := .storeIndex r (writeAt memory buffer) })
  | .storeIndex r write =>
    some (storeSizeT memory (buffer + WRITE_INDEX) (sizeT (write + r.bytes)),
      { s with writer := .addSize r })
  | .addSize r =>
    some (fetchAddAt memory buffer r.bytes,
      { s with
        writer := .idle
        history := { s.history with
          published := s.history.published + r.bytes
          writes := s.history.writes ++ [(r.call, sizeT (r.bytes + r.rightSpace))] } })

/-- The next access of `buffer_read`. -/
def readerStepAt (buffer : Nat) (memory : SegmentBytes) (s : RingCalls) :
    Option (SegmentBytes × RingCalls) :=
  match s.reader with
  | .idle => none
  | .space call waits =>
    let available := availableSpaceAt memory buffer .read
    if available = 0 ∧ nonBlockingAt memory buffer .read = false then
      some (memory, { s with reader := .space call (waits + 1) })
    else
      some (memory, { s with
        reader := .compareOwn
          { call := { call with available }, offset := 0, bytes := min available call.requested,
            rightSpace := 0 } })
  | .compareOwn r => some (memory, { s with reader := .compareOther r (readAt memory buffer) })
  | .compareOther r read =>
    if writeAt memory buffer ≤ read then some (memory, { s with reader := .right r })
    else some (memory, { s with reader := .secondPointer r })
  | .right r =>
    let rightSpace := sizeT (capacityAt memory buffer - readAt memory buffer)
    if rightSpace ≤ r.bytes then
      some (memory, { s with reader := .firstPointer { r with rightSpace } })
    else some (memory, { s with reader := .secondPointer r })
  | .firstPointer r =>
    if readAt memory buffer ≤ capacityAt memory buffer then
      some (memory, { s with reader := .firstCopy r (readAt memory buffer) })
    else none
  | .firstCopy r index =>
    let bytes := Ring.load memory (startPointer buffer + index) r.rightSpace
    some (memory, { s with reader := .wrapIndex { r with call := r.call.receive bytes } })
  | .wrapIndex r =>
    some (storeSizeT memory (buffer + READ_INDEX) 0, { s with reader := .wrapSize r })
  | .wrapSize r =>
    some (fetchAddAt memory buffer (-r.rightSpace),
      { s with
        reader := .secondPointer
          { r with offset := r.offset + r.rightSpace, bytes := r.bytes - r.rightSpace }
        history := { s.history with released := s.history.released + r.rightSpace } })
  | .secondPointer r =>
    if readAt memory buffer ≤ capacityAt memory buffer then
      some (memory, { s with reader := .secondCopy r (readAt memory buffer) })
    else none
  | .secondCopy r index =>
    let bytes := Ring.load memory (startPointer buffer + index) r.bytes
    some (memory, { s with reader := .loadIndex { r with call := r.call.receive bytes } })
  | .loadIndex r => some (memory, { s with reader := .storeIndex r (readAt memory buffer) })
  | .storeIndex r read =>
    some (storeSizeT memory (buffer + READ_INDEX) (sizeT (read + r.bytes)),
      { s with reader := .addSize r })
  | .addSize r =>
    let total := sizeT (r.bytes + r.rightSpace)
    some (fetchAddAt memory buffer (-r.bytes),
      { s with
        reader := .idle
        history := { s.history with
          released := s.history.released + r.bytes
          reads := s.history.reads ++
            [{ requested := r.call.requested, available := r.call.available,
               returned := if total = 0 then sizeT (-1) else total,
               bytes := r.call.destination }] } })

/-- The call of `buffer_write`, which makes no access yet. -/
def writerCallAt (s : RingCalls) (data : List UInt8) : Option RingCalls :=
  match s.writer with
  | .idle =>
    if data.length = 0 then
      some { s with history := { s.history with writes := s.history.writes ++ [(data, 0)] } }
    else some { s with writer := .space data 0 }
  | _ => none

def readerCallAt (s : RingCalls) (requested : Nat) : Option RingCalls :=
  match s.reader with
  | .idle =>
    if requested = 0 then
      some { s with
        history := { s.history with
          reads := s.history.reads ++
            [{ requested, available := 0, returned := 0, bytes := [] }] } }
    else some { s with reader := .space { requested } 0 }
  | _ => none

/-! ### The two processes -/

/-- The pointer to the buffer that `side` writes. -/
def Connection.buffer (connection : Connection) : Side → Nat
  | .server => connection.serverBuffer
  | .client => connection.clientBuffer

/-- `atomic_load(connection->open_count)`. -/
def countAt (memory : SegmentBytes) (openCount : Nat) : Nat :=
  Bytes.value (Ring.load memory openCount (sizeofCount .linux))

/-- `atomic_fetch_sub(connection->open_count, 1)`. -/
def fetchSubCountAt (memory : SegmentBytes) (openCount : Nat) : SegmentBytes :=
  Ring.store memory openCount
    (Bytes.bytes (sizeofCount .linux) (sizeT (countAt memory openCount - 1)))

/-- The segment, and of each process its pointers, its program counter and its finished calls.
`calls side` are those in the buffer that `side` writes. -/
structure SidesMemory where
  memory : SegmentBytes
  /-- Whether `IPC_RMID` has been executed for the segment. -/
  removed : Bool
  /-- `none` when `_detach_connection` has made the pointers `NULL`. -/
  connection : Side → Option Connection
  calls : Side → RingCalls
  pc : Side → SidePc
  reads : Side → List ReadRecord
  writes : Side → List (List UInt8 × Int)

namespace SidesMemory

def goto (s : SidesMemory) (side : Side) (pc : SidePc) : SidesMemory :=
  { s with pc := Function.update s.pc side pc }

def logRead (s : SidesMemory) (side : Side) (record : ReadRecord) : SidesMemory :=
  { s with reads := Function.update s.reads side (s.reads side ++ [record]) }

def logWrite (s : SidesMemory) (side : Side) (data : List UInt8) (returned : Int) :
    SidesMemory :=
  { s with writes := Function.update s.writes side (s.writes side ++ [(data, returned)]) }

/-- After an access of `buffer_read`: the return, if there is no next one. -/
def afterRead (s : SidesMemory) (side : Side) (peerGone : Bool) (memory : SegmentBytes)
    (calls : RingCalls) : SidesMemory :=
  let s := { s with memory, calls := Function.update s.calls side.peer calls }
  match calls.reader, calls.history.reads.getLast? with
  | .idle, some r =>
    (s.logRead side
      { requested := r.requested, peerGone, available := r.available
        returned := ssizeT r.returned, bytes := r.bytes }).goto side .ready
  | _, _ => s.goto side (.reading peerGone)

def afterWrite (s : SidesMemory) (side : Side) (memory : SegmentBytes) (calls : RingCalls) :
    SidesMemory :=
  let s := { s with memory, calls := Function.update s.calls side calls }
  match calls.writer, calls.history.writes.getLast? with
  | .idle, some w => (s.logWrite side w.1 (ssizeT w.2)).goto side .ready
  | _, _ => s.goto side .writing

/-- `_detach_connection`. -/
def detach (s : SidesMemory) (side : Side) : SidesMemory :=
  { s with connection := Function.update s.connection side none }

end SidesMemory

/-- The next step of a side inside a call; without its pointers it could make none. -/
def sideStepAt (s : SidesMemory) (side : Side) : Option SidesMemory :=
  (s.connection side).bind fun connection =>
    match s.pc side with
    | .ready | .closed => none
    | .checkRead requestedBytes =>
      let peerGone := (s.pc side.peer).gone
      if countAt s.memory connection.openCount = 1 then
        some ((s.logRead side { requested := requestedBytes, peerGone }).goto side .ready)
      else
        (readerCallAt (s.calls side.peer) requestedBytes).map (s.afterRead side peerGone s.memory)
    | .reading peerGone =>
      (readerStepAt (connection.buffer side.peer) s.memory (s.calls side.peer)).map
        fun (memory, calls) => s.afterRead side peerGone memory calls
    | .checkWrite data =>
      if countAt s.memory connection.openCount = 1 then
        some ((s.logWrite side data 0).goto side .ready)
      else (writerCallAt (s.calls side) data).map (s.afterWrite side s.memory)
    | .writing =>
      (writerStepAt (connection.buffer side) s.memory (s.calls side)).map
        fun (memory, calls) => s.afterWrite side memory calls
    | .subtract =>
      some ({ s with memory := fetchSubCountAt s.memory connection.openCount }.goto side .test)
    | .test =>
      if countAt s.memory connection.openCount = 0 then
        some (({ s with removed := true }.detach side).goto side .closed)
      else some ((s.detach side).goto side .closed)

def SidesMemory.call (s : SidesMemory) (side : Side) (pc : SidePc) : Option SidesMemory :=
  if s.pc side = .ready then some (s.goto side pc) else none

def segmentStep (s : SidesMemory) : SidesAction → Option SidesMemory
  | .read side requestedBytes => s.call side (.checkRead requestedBytes)
  | .write side data => s.call side (.checkWrite data)
  | .close side => s.call side .subtract
  | .step side => sideStepAt s side

/-- The server's `create_connection` and then the client's `setup_connection`. -/
def connectIn (segmentId : Int) (memory : SegmentBytes) (options : ConnectionOptions) :
    Option SidesMemory :=
  (createConnectionIn .linux segmentId memory options).bind fun (_, server, memory) =>
    (setupConnectionIn .linux segmentId memory).map fun (client, memory) =>
      { memory, removed := false
        connection := fun side => some (if side = .server then server else client)
        calls := fun _ => { writer := .idle, reader := .idle, history := {} }
        pc := fun _ => .ready, reads := fun _ => [], writes := fun _ => [] }

end Tssx
