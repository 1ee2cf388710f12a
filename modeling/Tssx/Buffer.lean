import Tssx.Definitions

/-!
# The shared buffer

`buffer.h` and the functions of `buffer.c` that make a single access to the structure.  The
`capacity` bytes behind the structure are `data`, a function of the index that
`_pointer_to` adds to the start pointer.

The two transfer functions `buffer_write` and `buffer_read` make many accesses with the
other process running in between; they are in `Buffer/Transfer.lean`.
-/

namespace Tssx

/-- `Timeouts` of `timeouts.h`, in the default build (no `TSSX_SUPPORT_BUFFER_TIMEOUTS`).
The clock levels only choose how the wait loop pauses and are left out. -/
structure Timeouts where
  nonBlocking : Operation → Bool

/-- `Buffer` of `buffer.h`. -/
structure Buffer where
  /-- `atomic_int size`, the number of bytes used. -/
  size : Int
  capacity : Nat
  timeouts : Timeouts
  read : Nat
  write : Nat
  data : Nat → UInt8

def bufferClear (buffer : Buffer) : Buffer := { buffer with read := 0, write := 0, size := 0 }

/-- A new buffer over shared memory with the given content. -/
def Buffer.fresh (memory : Nat → UInt8) (capacity : Nat) (timeouts : Timeouts) : Buffer :=
  bufferClear { size := 0, capacity, timeouts, read := 0, write := 0, data := memory }

/-- `create_buffer` asserts a positive capacity. -/
def createBuffer (memory : Nat → UInt8) (requestedCapacity : Nat) (timeouts : Timeouts) :
    Option Buffer :=
  if 0 < requestedCapacity then some (.fresh memory requestedCapacity timeouts) else none

/-- `capacity - atomic_load(&size)`, computed in `size_t`. -/
def bufferFreeSpace (buffer : Buffer) : Nat := sizeT (buffer.capacity - buffer.size)

def bufferIsFull (buffer : Buffer) : Bool := sizeT buffer.size == buffer.capacity

def bufferIsEmpty (buffer : Buffer) : Bool := buffer.size == 0

def bufferReadyFor (buffer : Buffer) : Operation → Bool
  | .read => !bufferIsEmpty buffer
  | .write => !bufferIsFull buffer

def getAvailableSpace (buffer : Buffer) : Operation → Nat
  | .read => sizeT buffer.size
  | .write => bufferFreeSpace buffer

/-- `atomic_fetch_add(&buffer->size, bytes)`: the `atomic_int` wraps around. -/
def Buffer.fetchAdd (buffer : Buffer) (bytes : Nat) : Buffer :=
  { buffer with size := int32 (buffer.size + bytes) }

def Buffer.fetchSub (buffer : Buffer) (bytes : Nat) : Buffer :=
  { buffer with size := int32 (buffer.size - bytes) }

/-- The largest capacity whose sizes fit an `atomic_int`. -/
def MAX_CAPACITY : Nat := 2 ^ 31 - 1

/-! ### The availability of a buffer whose size is in range -/

section InRange

variable {buffer : Buffer} {n : Nat}

theorem getAvailableSpace_read (hs : buffer.size = n) (hn : n ≤ buffer.capacity)
    (hc : buffer.capacity ≤ MAX_CAPACITY) : getAvailableSpace buffer .read = n := by
  unfold MAX_CAPACITY at hc
  exact sizeT_eq hs (by omega)

theorem getAvailableSpace_write (hs : buffer.size = n) (hn : n ≤ buffer.capacity)
    (hc : buffer.capacity ≤ MAX_CAPACITY) :
    getAvailableSpace buffer .write = buffer.capacity - n := by
  unfold MAX_CAPACITY at hc
  exact sizeT_eq (by omega) (by omega)

/-- The readiness test of `poll`, `select` and `epoll` agrees with the availability that a
transfer computes. -/
theorem bufferReadyFor_iff (hs : buffer.size = n) (hn : n ≤ buffer.capacity)
    (hc : buffer.capacity ≤ MAX_CAPACITY) (operation : Operation) :
    bufferReadyFor buffer operation = true ↔ 0 < getAvailableSpace buffer operation := by
  cases operation with
  | read =>
    rw [getAvailableSpace_read hs hn hc]
    simp only [bufferReadyFor, bufferIsEmpty, hs]
    simp only [Bool.not_eq_true', beq_eq_false_iff_ne, ne_eq, Int.natCast_eq_zero]
    omega
  | write =>
    have hread : sizeT buffer.size = n := getAvailableSpace_read hs hn hc
    rw [getAvailableSpace_write hs hn hc]
    simp only [bufferReadyFor, bufferIsFull, hread]
    simp only [Bool.not_eq_true', beq_eq_false_iff_ne, ne_eq]
    omega

end InRange

end Tssx
