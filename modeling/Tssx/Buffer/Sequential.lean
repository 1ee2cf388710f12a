import Tssx.Buffer.Progress

/-!
# The functions of a buffer as whole calls

`buffer_write`, `buffer_read`, `buffer_peek` and `buffer_skip` for one caller with nobody in
between.  A call that would wait for ever, or fails an assertion, is `none`.

`Holding c front buffer q` says that a buffer of capacity `c` holds the bytes `q`, the first
one at position `front` of the stream.  A party between two calls knows its own index
(`WriterReady`, `ReaderReady`), whatever the other one is doing; with both parties between
calls the buffer `Represents` the queue.  A part of a transfer that does not cross the end
of the memory extends or shortens `q` (`WriterReady.store`, `ReaderReady.load`), and a call is
made of two such parts at most (`write_call`, `read_call`).
-/

namespace Tssx

/-! ### The functions -/

/-- `_determine_available_space`; a blocking call that finds nothing would wait for ever. -/
def determineAvailableSpace (buffer : Buffer) (operation : Operation) : Option Nat :=
  let availableSpace := getAvailableSpace buffer operation
  if availableSpace = 0 ∧ buffer.timeouts.nonBlocking operation = false then none
  else some availableSpace

/-- `_pointer_to`, with its assertion. -/
def pointerTo (buffer : Buffer) (index : Nat) : Option Nat :=
  if index ≤ buffer.capacity then some index else none

/-- `memcpy` to the write pointer. -/
def copyIn (buffer : Buffer) (bytes : List UInt8) : Option Buffer :=
  (pointerTo buffer buffer.write).map fun index =>
    { buffer with data := Ring.store buffer.data index bytes }

/-- `memcpy` from the read pointer. -/
def copyOut (buffer : Buffer) (n : Nat) : Option (List UInt8) :=
  (pointerTo buffer buffer.read).map fun index => Ring.load buffer.data index n

/-- A transfer after its copy up to the end of the memory, if it makes one: the rest of the
caller's data, or what has been copied out. -/
structure Part where
  buffer : Buffer
  data : List UInt8
  bytes : Nat
  rightSpace : Nat

/-- The branch `write >= read` of `buffer_write`, with `_wrap_write`. -/
def writeRight (buffer : Buffer) (data : List UInt8) (bytesToWrite : Nat) : Option Part :=
  if buffer.read ≤ buffer.write then
    let rightSpace := sizeT (buffer.capacity - buffer.write)
    if rightSpace ≤ bytesToWrite then
      (copyIn buffer (data.take rightSpace)).map fun buffer =>
        { buffer := { buffer with write := 0 }.fetchAdd rightSpace
          data := data.drop rightSpace, bytes := bytesToWrite - rightSpace, rightSpace }
    else some { buffer, data, bytes := bytesToWrite, rightSpace := 0 }
  else some { buffer, data, bytes := bytesToWrite, rightSpace := 0 }

/-- `buffer_write` once the available space is known. -/
def writeAvailable (buffer : Buffer) (data : List UInt8) (availableSpace : Nat) :
    Option (Nat × Buffer) :=
  (writeRight buffer data (min availableSpace data.length)).bind fun part =>
    (copyIn part.buffer (part.data.take part.bytes)).map fun buffer =>
      (sizeT (part.bytes + part.rightSpace),
        { buffer with write := sizeT (buffer.write + part.bytes) }.fetchAdd part.bytes)

def bufferWrite (buffer : Buffer) (data : List UInt8) : Option (Nat × Buffer) :=
  if data.length = 0 then some (0, buffer)
  else (determineAvailableSpace buffer .write).bind (writeAvailable buffer data)

/-- The branch `read >= write` of `buffer_read`, with `_wrap_read`. -/
def readRight (buffer : Buffer) (bytesToRead : Nat) : Option Part :=
  if buffer.write ≤ buffer.read then
    let rightSpace := sizeT (buffer.capacity - buffer.read)
    if rightSpace ≤ bytesToRead then
      (copyOut buffer rightSpace).map fun data =>
        { buffer := { buffer with read := 0 }.fetchSub rightSpace
          data, bytes := bytesToRead - rightSpace, rightSpace }
    else some { buffer, data := [], bytes := bytesToRead, rightSpace := 0 }
  else some { buffer, data := [], bytes := bytesToRead, rightSpace := 0 }

/-- What a call returns, and the bytes that it copies out. -/
structure CallResult where
  returned : Nat
  bytes : List UInt8 := []
  deriving DecidableEq

/-- `buffer_read` once the available space is known. -/
def readAvailable (buffer : Buffer) (bytesToRead availableSpace : Nat) :
    Option (CallResult × Buffer) :=
  (readRight buffer (min availableSpace bytesToRead)).bind fun part =>
    (copyOut part.buffer part.bytes).map fun bytes =>
      let total := sizeT (part.bytes + part.rightSpace)
      ({ returned := if total = 0 then sizeT (-1) else total, bytes := part.data ++ bytes },
        { part.buffer with read := sizeT (part.buffer.read + part.bytes) }.fetchSub part.bytes)

def bufferRead (buffer : Buffer) (bytesToRead : Nat) : Option (CallResult × Buffer) :=
  if bytesToRead = 0 then some ({ returned := 0 }, buffer)
  else (determineAvailableSpace buffer .read).bind (readAvailable buffer bytesToRead)

/-- `size` and `read` are restored after a read. -/
def bufferPeek (buffer : Buffer) (dataSize : Nat) : Option (CallResult × Buffer) :=
  (bufferRead buffer dataSize).map fun (result, after) =>
    (result, { after with size := buffer.size, read := buffer.read })

/-- Only the read index moves. -/
def bufferSkip (buffer : Buffer) (numberOfBytes : Nat) : Nat × Buffer :=
  if sizeT buffer.size < numberOfBytes then (sizeT ERROR, buffer)
  else
    (numberOfBytes, { buffer with read := sizeT (buffer.read + numberOfBytes) % buffer.capacity })

theorem copyIn_some {buffer after : Buffer} {bytes : List UInt8}
    (h : copyIn buffer bytes = some after) :
    buffer.write ≤ buffer.capacity ∧
      after = { buffer with data := Ring.store buffer.data buffer.write bytes } := by
  unfold copyIn pointerTo at h
  split at h
  · exact ⟨‹_›, (Option.some.inj h).symm⟩
  · cases h

theorem copyOut_some {buffer : Buffer} {n : Nat} {bytes : List UInt8}
    (h : copyOut buffer n = some bytes) :
    buffer.read ≤ buffer.capacity ∧ bytes = Ring.load buffer.data buffer.read n := by
  unfold copyOut pointerTo at h
  split at h
  · exact ⟨‹_›, (Option.some.inj h).symm⟩
  · cases h

/-! ### The bytes in a buffer -/

/-- What a read of `n` bytes returns and copies out of a queue. -/
def readResult (q : List UInt8) (n : Nat) : CallResult :=
  if q = [] ∧ n ≠ 0 then { returned := sizeT (-1) }
  else { returned := min n q.length, bytes := q.take n }

structure Holding (c front : Nat) (buffer : Buffer) (q : List UInt8) : Prop where
  pos : 0 < c
  bound : c ≤ MAX_CAPACITY
  capacity : buffer.capacity = c
  size : buffer.size = q.length
  room : q.length ≤ c
  content : Ring.Holds buffer.data c front q

/-- The writer is between calls, and the reader's index anywhere in the bytes held. -/
structure WriterReady (c front : Nat) (buffer : Buffer) (q : List UInt8) : Prop
    extends Holding c front buffer q where
  write_eq : buffer.write = (front + q.length) % c
  read_eq : ∃ x, front ≤ x ∧ x ≤ front + q.length ∧ buffer.read = x % c

/-- The reader is between calls, and the writer's index anywhere in the free space. -/
structure ReaderReady (c front : Nat) (buffer : Buffer) (q : List UInt8) : Prop
    extends Holding c front buffer q where
  read_eq : buffer.read = front % c
  write_eq : ∃ x, front + q.length ≤ x ∧ x ≤ front + c ∧ buffer.write = x % c

/-- Both parties are between calls, and the buffer is the queue. -/
structure Represents (c : Nat) (buffer : Buffer) (q : List UInt8) : Prop
    extends Holding c buffer.read buffer q where
  read_lt : buffer.read < c
  write_eq : buffer.write = (buffer.read + q.length) % c

theorem represents_clear {c : Nat} {buffer : Buffer} (hpos : 0 < c) (hbound : c ≤ MAX_CAPACITY)
    (hc : buffer.capacity = c) : Represents c (bufferClear buffer) [] where
  pos := hpos
  bound := hbound
  capacity := hc
  size := rfl
  room := Nat.zero_le c
  content := Ring.holds_nil _ _ _
  read_lt := hpos
  write_eq := (Nat.zero_mod c).symm

theorem represents_create {c : Nat} {memory : Nat → UInt8} {timeouts : Timeouts} {buffer : Buffer}
    (hbound : c ≤ MAX_CAPACITY) (h : createBuffer memory c timeouts = some buffer) :
    Represents c buffer [] := by
  unfold createBuffer at h
  split at h
  · obtain rfl := Option.some.inj h
    exact represents_clear ‹_› hbound rfl
  · cases h

namespace Holding

variable {c front : Nat} {buffer : Buffer} {q : List UInt8}

theorem unread (h : Holding c front buffer q) : getAvailableSpace buffer .read = q.length :=
  getAvailableSpace_read h.size (by rw [h.capacity]; exact h.room)
    (by rw [h.capacity]; exact h.bound)

theorem freeSpace (h : Holding c front buffer q) :
    getAvailableSpace buffer .write = c - q.length := by
  rw [getAvailableSpace_write h.size (by rw [h.capacity]; exact h.room)
    (by rw [h.capacity]; exact h.bound), h.capacity]

theorem rightSpace_eq (h : Holding c front buffer q) {index : Nat} (hi : index < c) :
    sizeT (buffer.capacity - index) = c - index := by
  have hb := h.bound
  unfold MAX_CAPACITY at hb
  rw [h.capacity]
  exact sizeT_eq (by omega) (by omega)

/-- The stored index of a part that ends before the end of the memory. -/
theorem index_eq (h : Holding c front buffer q) {index n : Nat} (hi : index + n < c) :
    sizeT (index + n) = (index + n) % c := by
  have hb := h.bound
  unfold MAX_CAPACITY at hb
  rw [Nat.mod_eq_of_lt hi]
  exact sizeT_eq (by push_cast; rfl) (by omega)

theorem returned_eq (h : Holding c front buffer q) {n bytes rightSpace : Nat} (hn : n ≤ c)
    (hsum : rightSpace + bytes = n) : sizeT (bytes + rightSpace) = n := by
  have hb := h.bound
  unfold MAX_CAPACITY at hb
  exact sizeT_eq (by omega) (by omega)

end Holding

/-! ### `buffer_write` -/

namespace WriterReady

variable {c front : Nat} {buffer : Buffer} {q : List UInt8}

theorem write_lt (h : WriterReady c front buffer q) : buffer.write < c := by
  rw [h.write_eq]
  exact Nat.mod_lt _ h.pos

/-- **Bytes copied in behind the queue**, up to the end of the memory at most. -/
theorem store (h : WriterReady c front buffer q) (bytes : List UInt8)
    (hroom : q.length + bytes.length ≤ c) (hend : buffer.write + bytes.length ≤ c) :
    WriterReady c front (Buffer.fetchAdd { buffer with
      data := Ring.store buffer.data buffer.write bytes
      write := (buffer.write + bytes.length) % c } bytes.length) (q ++ bytes) where
  pos := h.pos
  bound := h.bound
  capacity := h.capacity
  size := by
    have hs := h.size
    have hb := h.bound
    unfold MAX_CAPACITY at hb
    show int32 (buffer.size + bytes.length) = _
    rw [int32_eq (by omega) (by omega), hs, List.length_append]
    push_cast
    rfl
  room := by rw [List.length_append]; exact hroom
  content := by
    show Ring.Holds (Ring.store buffer.data buffer.write bytes) c front (q ++ bytes)
    rw [h.write_eq] at hend ⊢
    exact h.content.store hroom hend
  write_eq := by
    show (buffer.write + bytes.length) % c = (front + (q ++ bytes).length) % c
    rw [h.write_eq, Nat.mod_add_mod, List.length_append, Nat.add_assoc]
  read_eq := by
    obtain ⟨x, hfront, hle, hx⟩ := h.read_eq
    refine ⟨x, hfront, ?_, hx⟩
    rw [List.length_append]
    omega

theorem copyIn_eq (h : WriterReady c front buffer q) (bytes : List UInt8) :
    copyIn buffer bytes =
      some { buffer with data := Ring.store buffer.data buffer.write bytes } := by
  have hle : buffer.write ≤ buffer.capacity := by rw [h.capacity]; exact h.write_lt.le
  simp only [copyIn, pointerTo, if_pos hle, Option.map_some]

theorem right_call (h : WriterReady c front buffer q) (data : List UInt8) {n : Nat}
    (hn : q.length + n ≤ c) (hd : n ≤ data.length) :
    ∃ part, writeRight buffer data n = some part ∧ part.rightSpace + part.bytes = n ∧
      part.data = data.drop part.rightSpace ∧
      WriterReady c front part.buffer (q ++ data.take part.rightSpace) ∧
      part.buffer.write + part.bytes < c ∧
      part.buffer = { buffer with
        size := part.buffer.size, write := part.buffer.write, data := part.buffer.data } ∧
      (n = 0 → part.buffer = buffer) := by
  have hw := h.write_lt
  unfold writeRight
  split
  · rw [h.rightSpace_eq hw]
    dsimp only
    split
    · rename_i hle
      have hlen : (data.take (c - buffer.write)).length = c - buffer.write := by
        rw [List.length_take]
        omega
      have hwrap : (buffer.write + (c - buffer.write)) % c = 0 := by
        rw [Nat.add_sub_cancel' hw.le, Nat.mod_self]
      have hpart := h.store (data.take (c - buffer.write)) (by omega) (by omega)
      rw [hlen, hwrap] at hpart
      rw [h.copyIn_eq]
      refine ⟨_, rfl, Nat.add_sub_cancel' hle, rfl, hpart, ?_, rfl, by omega⟩
      show 0 + (n - (c - buffer.write)) < c
      omega
    · refine ⟨_, rfl, Nat.zero_add _, rfl, by simpa using h, ?_, rfl, fun _ => rfl⟩
      show buffer.write + n < c
      omega
  · -- the write index is behind the reader's, so the free space ends before that one
    rename_i hlt
    obtain ⟨x, hfront, hle, hx⟩ := h.read_eq
    refine ⟨_, rfl, Nat.zero_add _, rfl, by simpa using h, ?_, rfl, fun _ => rfl⟩
    show buffer.write + n < c
    rw [h.write_eq] at hlt ⊢
    exact writer_not_ahead hx hfront hle (by omega) h.pos (Nat.lt_of_not_le hlt)

/-- **A write appends as many bytes as there is space for**, and returns their number; nothing
at all changes if there is no space. -/
theorem write_call (h : WriterReady c front buffer q) {data : List UInt8}
    (hwait : q.length < c ∨ data = [] ∨ buffer.timeouts.nonBlocking .write = true) :
    ∃ after, bufferWrite buffer data = some (min data.length (c - q.length), after) ∧
      WriterReady c front after (q ++ data.take (c - q.length)) ∧
      after = { buffer with size := after.size, write := after.write, data := after.data } ∧
      (q.length = c → after = buffer) := by
  unfold bufferWrite
  split
  · rename_i hlen
    rw [List.length_eq_zero_iff.mp hlen]
    exact ⟨buffer, by simp, by simpa using h, rfl, fun _ => rfl⟩
  · rename_i hlen
    have hroom := h.room
    have hspace : determineAvailableSpace buffer .write = some (c - q.length) := by
      rw [determineAvailableSpace, h.freeSpace, if_neg]
      rintro ⟨h0, hblocking⟩
      rcases hwait with hlt | rfl | hnon
      · omega
      · exact hlen rfl
      · rw [hnon] at hblocking
        cases hblocking
    obtain ⟨part, hpart, hsum, hdata, hready, hin, hframe, hnone⟩ := h.right_call data
      (n := min (c - q.length) data.length) (by omega) (by omega)
    have hlast : (part.data.take part.bytes).length = part.bytes := by
      rw [hdata, List.length_take, List.length_drop]
      omega
    have hmoved : q ++ data.take part.rightSpace ++ part.data.take part.bytes =
        q ++ data.take (c - q.length) := by
      rw [hdata, List.append_assoc, ← List.take_add, hsum]
      congr 1
      rw [List.take_eq_take_iff]
      omega
    have hfinal := hready.store (part.data.take part.bytes)
      (by rw [hlast, List.length_append, List.length_take]; omega) (by rw [hlast]; exact hin.le)
    rw [hlast, hmoved] at hfinal
    have hret : sizeT (part.bytes + part.rightSpace) = min data.length (c - q.length) :=
      h.returned_eq (by omega) (by omega)
    rw [hspace, Option.bind_some, writeAvailable, hpart, Option.bind_some, hready.copyIn_eq,
      Option.map_some, hret, hready.index_eq hin]
    refine ⟨_, rfl, hfinal, ?_, ?_⟩
    · rw [hframe]
      rfl
    · intro hfull
      have hbytes : part.bytes = 0 := by omega
      rw [hnone (by omega), hbytes, List.take_zero, Ring.store_nil]
      show Buffer.fetchAdd { buffer with write := (buffer.write + 0) % c } 0 = buffer
      have hsize : int32 (buffer.size + (0 : Nat)) = buffer.size := by
        have hb := h.bound
        have hs := h.size
        unfold MAX_CAPACITY at hb
        rw [int32_eq (by omega) (by omega)]
        exact Int.add_zero _
      simp only [Buffer.fetchAdd, Nat.add_zero, Nat.mod_eq_of_lt h.write_lt, hsize]

end WriterReady

/-! ### `buffer_read` and `buffer_peek` -/

namespace ReaderReady

variable {c front : Nat} {buffer : Buffer} {q : List UInt8}

theorem read_lt (h : ReaderReady c front buffer q) : buffer.read < c := by
  rw [h.read_eq]
  exact Nat.mod_lt _ h.pos

/-- **Bytes copied out of the front of the queue**, up to the end of the memory at most. -/
theorem load (h : ReaderReady c front buffer q) {n : Nat} (hn : n ≤ q.length)
    (hend : buffer.read + n ≤ c) :
    Ring.load buffer.data buffer.read n = q.take n ∧
      ReaderReady c (front + n) (Buffer.fetchSub { buffer with read := (buffer.read + n) % c } n)
        (q.drop n) := by
  have hload : Ring.load buffer.data buffer.read n = q.take n := by
    rw [h.read_eq] at hend ⊢
    exact h.content.load hn hend
  refine ⟨hload, ?_⟩
  have hr := h.room
  refine { pos := h.pos, bound := h.bound, capacity := h.capacity, size := ?_, room := ?_
           content := h.content.drop n, read_eq := ?_, write_eq := ?_ }
  · have hs := h.size
    have hb := h.bound
    unfold MAX_CAPACITY at hb
    show int32 (buffer.size - n) = _
    rw [int32_eq (by omega) (by omega), hs, List.length_drop]
    omega
  · rw [List.length_drop]
    omega
  · show (buffer.read + n) % c = (front + n) % c
    rw [h.read_eq, Nat.mod_add_mod]
  · obtain ⟨x, hback, hle, hx⟩ := h.write_eq
    refine ⟨x, ?_, by omega, hx⟩
    rw [List.length_drop]
    omega

theorem copyOut_eq (h : ReaderReady c front buffer q) (n : Nat) :
    copyOut buffer n = some (Ring.load buffer.data buffer.read n) := by
  have hle : buffer.read ≤ buffer.capacity := by rw [h.capacity]; exact h.read_lt.le
  simp only [copyOut, pointerTo, if_pos hle, Option.map_some]

theorem right_call (h : ReaderReady c front buffer q) {n : Nat} (hn : n ≤ q.length) :
    ∃ part, readRight buffer n = some part ∧ part.rightSpace + part.bytes = n ∧
      part.data = q.take part.rightSpace ∧
      ReaderReady c (front + part.rightSpace) part.buffer (q.drop part.rightSpace) ∧
      part.buffer.read + part.bytes < c ∧
      part.buffer = { buffer with size := part.buffer.size, read := part.buffer.read } ∧
      (n = 0 → part.buffer = buffer) := by
  have hr := h.read_lt
  have hroom := h.room
  unfold readRight
  split
  · rw [h.rightSpace_eq hr]
    dsimp only
    split
    · rename_i hle
      have hwrap : (buffer.read + (c - buffer.read)) % c = 0 := by
        rw [Nat.add_sub_cancel' hr.le, Nat.mod_self]
      obtain ⟨hload, hpart⟩ := h.load (n := c - buffer.read) (by omega) (by omega)
      rw [hwrap] at hpart
      rw [h.copyOut_eq]
      refine ⟨_, rfl, Nat.add_sub_cancel' hle, hload, hpart, ?_, rfl, by omega⟩
      show 0 + (n - (c - buffer.read)) < c
      omega
    · refine ⟨_, rfl, Nat.zero_add _, rfl, h, ?_, rfl, fun _ => rfl⟩
      show buffer.read + n < c
      omega
  · -- the read index is behind the writer's, so the bytes held end before that one
    rename_i hlt
    obtain ⟨x, hback, hle, hx⟩ := h.write_eq
    refine ⟨_, rfl, Nat.zero_add _, rfl, h, ?_, rfl, fun _ => rfl⟩
    show buffer.read + n < c
    rw [h.read_eq] at hlt ⊢
    exact reader_not_ahead hx hback hle (by omega) h.pos (Nat.lt_of_not_le hlt)

/-- **A read removes as many bytes as there are**, in order; nothing else than `size` and the
read index changes, and nothing at all if there are none. -/
theorem read_call (h : ReaderReady c front buffer q) {n : Nat}
    (hwait : q ≠ [] ∨ n = 0 ∨ buffer.timeouts.nonBlocking .read = true) :
    ∃ after, bufferRead buffer n = some (readResult q n, after) ∧
      ReaderReady c (front + min q.length n) after (q.drop n) ∧
      after = { buffer with size := after.size, read := after.read } ∧
      (q = [] → after = buffer) := by
  unfold bufferRead
  split
  · rename_i hzero
    subst hzero
    exact ⟨buffer, by simp [readResult], by simpa using h, rfl, fun _ => rfl⟩
  · rename_i hzero
    have hspace : determineAvailableSpace buffer .read = some q.length := by
      rw [determineAvailableSpace, h.unread, if_neg]
      rintro ⟨h0, hblocking⟩
      rcases hwait with hne | h0' | hnon
      · exact hne (List.length_eq_zero_iff.mp h0)
      · exact hzero h0'
      · rw [hnon] at hblocking
        cases hblocking
    obtain ⟨part, hpart, hsum, hdata, hready, hin, hframe, hnone⟩ :=
      h.right_call (n := min q.length n) (Nat.min_le_left _ _)
    have hleft : part.bytes ≤ (q.drop part.rightSpace).length := by
      rw [List.length_drop]
      omega
    obtain ⟨hload, hfinal⟩ := hready.load hleft hin.le
    have hbytes : part.data ++ (q.drop part.rightSpace).take part.bytes = q.take n := by
      rw [hdata, ← List.take_add, hsum, List.take_eq_take_iff]
      omega
    have hdrop : q.drop (min q.length n) = q.drop n := by
      rcases Nat.le_total q.length n with hle | hle
      · rw [Nat.min_eq_left hle, List.drop_length, List.drop_of_length_le hle]
      · rw [Nat.min_eq_right hle]
    rw [List.drop_drop, Nat.add_assoc, hsum, hdrop] at hfinal
    have hroom := h.room
    have hret : sizeT (part.bytes + part.rightSpace) = min n q.length :=
      h.returned_eq (by omega) (by omega)
    rw [hspace, Option.bind_some, readAvailable, hpart, Option.bind_some, hready.copyOut_eq,
      Option.map_some, hload, hbytes, hret, hready.index_eq hin]
    refine ⟨_, ?_, hfinal, ?_, ?_⟩
    · congr 2
      unfold readResult
      rcases List.eq_nil_or_concat q with rfl | ⟨_, _, rfl⟩
      · simp [hzero]
      · simp [hzero]
    · rw [hframe]
      rfl
    · intro hq
      have h0 : min q.length n = 0 := by rw [hq]; exact Nat.zero_min n
      have hpart0 : part.bytes = 0 := by omega
      rw [hnone h0, hpart0]
      show Buffer.fetchSub { buffer with read := (buffer.read + 0) % c } 0 = buffer
      have hs : buffer.size = 0 := by rw [h.size, hq]; rfl
      have hsize : int32 (buffer.size - (0 : Nat)) = buffer.size := by rw [hs]; rfl
      simp only [Buffer.fetchSub, Nat.add_zero, Nat.mod_eq_of_lt h.read_lt, hsize]

/-- **A peek is a read that leaves the buffer as it was.** -/
theorem peek_call (h : ReaderReady c front buffer q) {n : Nat}
    (hwait : q ≠ [] ∨ n = 0 ∨ buffer.timeouts.nonBlocking .read = true) :
    bufferPeek buffer n = some (readResult q n, buffer) := by
  obtain ⟨after, hread, -, hframe, -⟩ := h.read_call hwait
  rw [bufferPeek, hread, Option.map_some, hframe]

end ReaderReady

/-! ### One thread -/

namespace Represents

variable {c : Nat} {buffer : Buffer} {q : List UInt8}

theorem writerReady (h : Represents c buffer q) : WriterReady c buffer.read buffer q :=
  { h.toHolding with
    write_eq := h.write_eq
    read_eq := ⟨buffer.read, le_rfl, Nat.le_add_right _ _, (Nat.mod_eq_of_lt h.read_lt).symm⟩ }

theorem readerReady (h : Represents c buffer q) : ReaderReady c buffer.read buffer q :=
  { h.toHolding with
    read_eq := (Nat.mod_eq_of_lt h.read_lt).symm
    write_eq := ⟨buffer.read + q.length, le_rfl, Nat.add_le_add_left h.room _, h.write_eq⟩ }

theorem write_call (h : Represents c buffer q) {data : List UInt8}
    (hwait : q.length < c ∨ data = [] ∨ buffer.timeouts.nonBlocking .write = true) :
    ∃ after, bufferWrite buffer data = some (min data.length (c - q.length), after) ∧
      Represents c after (q ++ data.take (c - q.length)) := by
  obtain ⟨after, hcall, hready, hframe, -⟩ := h.writerReady.write_call hwait
  have hread : after.read = buffer.read := by rw [hframe]
  rw [← hread] at hready
  exact ⟨after, hcall, { hready.toHolding with
    read_lt := by rw [hread]; exact h.read_lt
    write_eq := hready.write_eq }⟩

theorem read_call (h : Represents c buffer q) {n : Nat}
    (hwait : q ≠ [] ∨ n = 0 ∨ buffer.timeouts.nonBlocking .read = true) :
    ∃ after, bufferRead buffer n = some (readResult q n, after) ∧
      Represents c after (q.drop n) ∧ (q = [] → after = buffer) := by
  obtain ⟨after, hcall, hready, hframe, hnone⟩ := h.readerReady.read_call hwait
  refine ⟨after, hcall, { hready.toHolding with
    content := ?_, read_lt := hready.read_lt, write_eq := ?_ }, hnone⟩
  · intro i x hx
    rw [hready.read_eq, Nat.mod_add_mod]
    exact hready.content i x hx
  · have hwrite : after.write = buffer.write := by rw [hframe]
    rw [hwrite, h.write_eq, hready.read_eq, Nat.mod_add_mod, List.length_drop]
    congr 1
    omega

end Represents

end Tssx
