import Tssx.Buffer.Sequential

/-!
# A wait that ends with a timeout

`buffer_write` and `buffer_read` in a build with `TSSX_SUPPORT_BUFFER_TIMEOUTS`, for one caller
with nobody in between.  The readings of the time stamp counter are a list, the first one being
`start_time`; a wait that goes on after the last reading is `none`.

`TIMEOUT` is `-1`, and `_block_for_available_space` returns it as a `size_t`.  To the caller
this is an available space of `2 ^ 64 - 1` bytes: the transfer is not cut at all
(`timedBufferWrite_timeout`, `timedBufferRead_timeout`), so it never is without effect
(`timeout_has_effect`).
-/

namespace Tssx

/-! ### The functions -/

def TIMEOUT : Int := -1
def LEVEL_ZERO : Int := 0
def LEVEL_ONE : Int := 1
def LEVEL_TWO : Int := 2

/-- `Buffer` with all the fields of its `Timeouts`. -/
structure TimedBuffer extends Buffer where
  levels : Fin 2 → Nat
  timeout : Operation → Nat

def bufferHasTimeout (buffer : TimedBuffer) (operation : Operation) : Bool :=
  buffer.timeout operation != 0

/-- `_timeout_elapsed` -/
def timeoutElapsed (buffer : TimedBuffer) (elapsed : Nat) (operation : Operation) : Bool :=
  if bufferHasTimeout buffer operation then decide (buffer.timeout operation < elapsed) else false

/-- `_level_elapsed` -/
def levelElapsed (buffer : TimedBuffer) (level : Fin 2) (elapsed : Nat) : Bool :=
  decide (buffer.levels level < elapsed)

/-- `_escalation_level` when the clock reads `now`, with `errno` afterwards.  A `cycle_t` has
64 bits. -/
def escalationLevel (buffer : TimedBuffer) (startTime now : Nat) (operation : Operation)
    (errno : Int) : Int × Int :=
  let elapsed := sizeT (now - startTime)
  if timeoutElapsed buffer elapsed operation then (TIMEOUT, EWOULDBLOCK)
  else if !levelElapsed buffer 0 elapsed then (LEVEL_ZERO, errno)
  else if !levelElapsed buffer 1 elapsed then (LEVEL_ONE, errno)
  else (LEVEL_TWO, errno)

/-- The loop of `_block_for_available_space`. -/
def waitForSpace (buffer : TimedBuffer) (operation : Operation) (startTime : Nat) (errno : Int) :
    List Nat → Option (Nat × Int)
  | [] =>
    let space := getAvailableSpace buffer.toBuffer operation
    if space = 0 then none else some (space, errno)
  | now :: clock =>
    let space := getAvailableSpace buffer.toBuffer operation
    if space = 0 then
      let (level, errno) := escalationLevel buffer startTime now operation errno
      -- the other levels pause, yield or sleep
      if level = TIMEOUT then some (sizeT TIMEOUT, errno)
      else waitForSpace buffer operation startTime errno clock
    else some (space, errno)

/-- `_block_for_available_space` -/
def blockForAvailableSpace (buffer : TimedBuffer) (operation : Operation) (errno : Int) :
    List Nat → Option (Nat × Int)
  | [] => none
  | startTime :: clock => waitForSpace buffer operation startTime errno clock

/-- `_determine_available_space` -/
def determineTimedSpace (buffer : TimedBuffer) (operation : Operation) (clock : List Nat)
    (errno : Int) : Option (Nat × Int) :=
  if buffer.timeouts.nonBlocking operation then
    some (getAvailableSpace buffer.toBuffer operation, errno)
  else blockForAvailableSpace buffer operation errno clock

/-- What a call leaves: its value, `errno`, the bytes copied out and the buffer. -/
structure TimedResult where
  returned : Nat
  errno : Int
  bytes : List UInt8 := []
  buffer : TimedBuffer

/-- `buffer_write` -/
def timedBufferWrite (buffer : TimedBuffer) (data : List UInt8) (clock : List Nat) (errno : Int) :
    Option TimedResult :=
  if data.length = 0 then some { returned := 0, errno, buffer }
  else
    (determineTimedSpace buffer .write clock errno).bind fun (availableSpace, errno) =>
      (writeAvailable buffer.toBuffer data availableSpace).map fun (returned, after) =>
        { returned, errno, buffer := { buffer with toBuffer := after } }

/-- `buffer_read` -/
def timedBufferRead (buffer : TimedBuffer) (bytesToRead : Nat) (clock : List Nat) (errno : Int) :
    Option TimedResult :=
  if bytesToRead = 0 then some { returned := 0, errno, buffer }
  else
    (determineTimedSpace buffer .read clock errno).bind fun (availableSpace, errno) =>
      (readAvailable buffer.toBuffer bytesToRead availableSpace).map fun (result, after) =>
        { returned := result.returned, errno, bytes := result.bytes
          buffer := { buffer with toBuffer := after } }

/-! ### Calls that do not wait -/

section NoWait

variable {buffer : TimedBuffer} {operation : Operation} {startTime : Nat} {clock : List Nat}
  {errno : Int}

theorem determineTimedSpace_eq (h : getAvailableSpace buffer.toBuffer operation ≠ 0 ∨
      buffer.timeouts.nonBlocking operation = true) :
    determineTimedSpace buffer operation (startTime :: clock) errno =
      (determineAvailableSpace buffer.toBuffer operation).map fun space => (space, errno) := by
  unfold determineTimedSpace determineAvailableSpace
  cases hnon : buffer.timeouts.nonBlocking operation with
  | true => simp
  | false =>
    have hspace := h.resolve_right (by simp [hnon])
    cases clock <;> simp [blockForAvailableSpace, waitForSpace, hspace]

/-- **A write that does not wait is the one of the default build.** -/
theorem timedBufferWrite_eq (data : List UInt8)
    (h : getAvailableSpace buffer.toBuffer .write ≠ 0 ∨
      buffer.timeouts.nonBlocking .write = true) :
    timedBufferWrite buffer data (startTime :: clock) errno =
      (bufferWrite buffer.toBuffer data).map fun (returned, after) =>
        { returned, errno, buffer := { buffer with toBuffer := after } } := by
  unfold timedBufferWrite bufferWrite
  split
  · rfl
  · rw [determineTimedSpace_eq h]
    cases determineAvailableSpace buffer.toBuffer .write with
    | none => rfl
    | some space => rfl

theorem timedBufferRead_eq (bytesToRead : Nat)
    (h : getAvailableSpace buffer.toBuffer .read ≠ 0 ∨
      buffer.timeouts.nonBlocking .read = true) :
    timedBufferRead buffer bytesToRead (startTime :: clock) errno =
      (bufferRead buffer.toBuffer bytesToRead).map fun (result, after) =>
        { returned := result.returned, errno, bytes := result.bytes
          buffer := { buffer with toBuffer := after } } := by
  unfold timedBufferRead bufferRead
  split
  · rfl
  · rw [determineTimedSpace_eq h]
    cases determineAvailableSpace buffer.toBuffer .read with
    | none => rfl
    | some space => rfl

end NoWait

/-! ### Waits -/

section Wait

variable {buffer : TimedBuffer} {operation : Operation} {startTime now : Nat} {errno : Int}

theorem escalationLevel_elapsed
    (h : timeoutElapsed buffer (sizeT (now - startTime)) operation = true) :
    escalationLevel buffer startTime now operation errno = (TIMEOUT, EWOULDBLOCK) := by
  simp only [escalationLevel, h, if_true]

theorem escalationLevel_waits
    (h : timeoutElapsed buffer (sizeT (now - startTime)) operation = false) :
    ∃ level, level ≠ TIMEOUT ∧
      escalationLevel buffer startTime now operation errno = (level, errno) := by
  simp only [escalationLevel, h, Bool.false_eq_true, if_false]
  split
  · exact ⟨_, by decide, rfl⟩
  · split <;> exact ⟨_, by decide, rfl⟩

/-- **A wait with no space ends at the first reading after the timeout**, or not at all. -/
theorem waitForSpace_eq (hspace : getAvailableSpace buffer.toBuffer operation = 0)
    (clock : List Nat) :
    waitForSpace buffer operation startTime errno clock =
      if clock.any fun now => timeoutElapsed buffer (sizeT (now - startTime)) operation then
        some (sizeT TIMEOUT, EWOULDBLOCK)
      else none := by
  induction clock with
  | nil => simp only [waitForSpace, hspace, if_true, List.any_nil, Bool.false_eq_true, if_false]
  | cons now clock ih =>
    simp only [waitForSpace, hspace, if_true, List.any_cons]
    by_cases htime : timeoutElapsed buffer (sizeT (now - startTime)) operation = true
    · simp only [escalationLevel_elapsed htime, htime, if_true, Bool.true_or]
    · rw [Bool.not_eq_true] at htime
      obtain ⟨level, hlevel, hwaits⟩ := @escalationLevel_waits _ _ _ _ errno htime
      simp only [hwaits, htime, if_neg hlevel, ih, Bool.false_or]

/-- The wait of a blocking call ends with `TIMEOUT`. -/
def TimesOut (buffer : TimedBuffer) (operation : Operation) (clock : List Nat) (errno : Int) :
    Prop :=
  buffer.timeouts.nonBlocking operation = false ∧
    getAvailableSpace buffer.toBuffer operation = 0 ∧
    (blockForAvailableSpace buffer operation errno clock).map Prod.fst = some (sizeT TIMEOUT)

/-- After a timeout the caller sees the largest `size_t` as the available space. -/
theorem TimesOut.space_eq {clock : List Nat} (h : TimesOut buffer operation clock errno) :
    determineTimedSpace buffer operation clock errno = some (2 ^ 64 - 1, EWOULDBLOCK) := by
  obtain ⟨hblocking, hspace, hend⟩ := h
  rw [determineTimedSpace, hblocking, if_neg Bool.false_ne_true]
  cases clock with
  | nil => cases hend
  | cons startTime clock =>
    simp only [blockForAvailableSpace, waitForSpace_eq hspace] at hend ⊢
    split at hend
    · rename_i hany
      rw [if_pos hany]
      rfl
    · cases hend

end Wait

/-! ### What a transfer moves -/

theorem writeRight_size {buffer : Buffer} {data : List UInt8} {n : Nat} {part : Part}
    (h : writeRight buffer data n = some part) :
    part.bytes + part.rightSpace = n ∧ ∀ k : Int,
      int32 (part.buffer.size + k) = int32 (buffer.size + part.rightSpace + k) := by
  have hkeep : ∀ k : Int, int32 (buffer.size + k) = int32 (buffer.size + (0 : Nat) + k) :=
    fun k => by rw [Nat.cast_zero, Int.add_zero]
  unfold writeRight at h
  split at h
  · dsimp only at h
    split at h
    · rename_i hle
      obtain ⟨copied, hcopy, rfl⟩ := Option.map_eq_some_iff.mp h
      obtain ⟨-, rfl⟩ := copyIn_some hcopy
      exact ⟨Nat.sub_add_cancel hle, fun k => Int.bmod_add_bmod⟩
    · obtain rfl := Option.some.inj h
      exact ⟨Nat.add_zero n, hkeep⟩
  · obtain rfl := Option.some.inj h
    exact ⟨Nat.add_zero n, hkeep⟩

theorem writeAvailable_size {buffer after : Buffer} {data : List UInt8}
    {availableSpace returned : Nat}
    (h : writeAvailable buffer data availableSpace = some (returned, after)) :
    returned = sizeT (min availableSpace data.length : Nat) ∧
      after.size = int32 (buffer.size + (min availableSpace data.length : Nat)) := by
  obtain ⟨part, hpart, hrest⟩ := Option.bind_eq_some_iff.mp h
  obtain ⟨copied, hcopy, hreturned⟩ := Option.map_eq_some_iff.mp hrest
  obtain ⟨-, rfl⟩ := copyIn_some hcopy
  obtain ⟨hsum, hsize⟩ := writeRight_size hpart
  obtain ⟨rfl, rfl⟩ := Prod.mk.inj hreturned
  refine ⟨by rw [← hsum, Nat.cast_add], ?_⟩
  show int32 (part.buffer.size + part.bytes) = _
  rw [hsize, ← hsum]
  congr 1
  push_cast
  omega

theorem readRight_size {buffer : Buffer} {n : Nat} {part : Part}
    (h : readRight buffer n = some part) :
    part.bytes + part.rightSpace = n ∧ part.data.length = part.rightSpace ∧ ∀ k : Int,
      int32 (part.buffer.size - k) = int32 (buffer.size - part.rightSpace - k) := by
  have hkeep : ∀ k : Int, int32 (buffer.size - k) = int32 (buffer.size - (0 : Nat) - k) :=
    fun k => by rw [Nat.cast_zero, Int.sub_zero]
  unfold readRight at h
  split at h
  · dsimp only at h
    split at h
    · rename_i hle
      obtain ⟨copied, hcopy, rfl⟩ := Option.map_eq_some_iff.mp h
      obtain ⟨-, rfl⟩ := copyOut_some hcopy
      exact ⟨Nat.sub_add_cancel hle, Ring.load_length _ _ _, fun k => Int.bmod_sub_bmod⟩
    · obtain rfl := Option.some.inj h
      exact ⟨Nat.add_zero n, rfl, hkeep⟩
  · obtain rfl := Option.some.inj h
    exact ⟨Nat.add_zero n, rfl, hkeep⟩

theorem readAvailable_size {buffer after : Buffer} {bytesToRead availableSpace : Nat}
    {result : CallResult}
    (h : readAvailable buffer bytesToRead availableSpace = some (result, after)) :
    result.bytes.length = min availableSpace bytesToRead ∧
      after.size = int32 (buffer.size - (min availableSpace bytesToRead : Nat)) := by
  obtain ⟨part, hpart, hrest⟩ := Option.bind_eq_some_iff.mp h
  obtain ⟨copied, hcopy, hreturned⟩ := Option.map_eq_some_iff.mp hrest
  obtain ⟨-, rfl⟩ := copyOut_some hcopy
  obtain ⟨hsum, hlength, hsize⟩ := readRight_size hpart
  obtain ⟨rfl, rfl⟩ := Prod.mk.inj hreturned
  constructor
  · rw [List.length_append, hlength, Ring.load_length, ← hsum, Nat.add_comm]
  · show int32 (part.buffer.size - part.bytes) = _
    rw [hsize, ← hsum]
    congr 1
    push_cast
    omega

/-! ### Calls that time out -/

section TimedOut

variable {buffer : TimedBuffer} {clock : List Nat} {errno : Int} {result : TimedResult}

/-- **A write that times out is not cut**: it returns the number of bytes passed, and adds it to
the size of the full buffer. -/
theorem timedBufferWrite_timeout {data : List UInt8} (hpos : 0 < data.length)
    (hdata : data.length < 2 ^ 64) (htimeout : TimesOut buffer .write clock errno)
    (h : timedBufferWrite buffer data clock errno = some result) :
    result.returned = data.length ∧ result.errno = EWOULDBLOCK ∧
      result.buffer.size = int32 (buffer.size + data.length) := by
  rw [timedBufferWrite, if_neg (by omega), htimeout.space_eq, Option.bind_some] at h
  obtain ⟨⟨returned, after⟩, hwrite, rfl⟩ := Option.map_eq_some_iff.mp h
  obtain ⟨hreturned, hsize⟩ := writeAvailable_size hwrite
  rw [Nat.min_eq_right (by omega)] at hreturned hsize
  exact ⟨hreturned.trans (sizeT_eq rfl hdata), rfl, hsize⟩

/-- **A read that times out is not cut**: it copies out as many bytes as requested, and takes
their number off the size of the empty buffer. -/
theorem timedBufferRead_timeout {bytesToRead : Nat} (hpos : 0 < bytesToRead)
    (hbytes : bytesToRead < 2 ^ 64) (htimeout : TimesOut buffer .read clock errno)
    (h : timedBufferRead buffer bytesToRead clock errno = some result) :
    result.bytes.length = bytesToRead ∧ result.errno = EWOULDBLOCK ∧
      result.buffer.size = int32 (buffer.size - bytesToRead) := by
  rw [timedBufferRead, if_neg (by omega), htimeout.space_eq, Option.bind_some] at h
  obtain ⟨⟨result, after⟩, hread, rfl⟩ := Option.map_eq_some_iff.mp h
  obtain ⟨hlength, hsize⟩ := readAvailable_size hread
  rw [Nat.min_eq_right (by omega)] at hlength hsize
  exact ⟨hlength, rfl, hsize⟩

end TimedOut

/-- A call without effect: `-1` with `EWOULDBLOCK`, no byte copied, and the buffer as before. -/
structure NoEffect (before : TimedBuffer) (result : TimedResult) : Prop where
  returned : result.returned = sizeT ERROR
  errno : result.errno = EWOULDBLOCK
  bytes : result.bytes = []
  buffer : result.buffer = before

/-- **A call that times out always has an effect**, from every state of the buffer and for all
readings of the clock. -/
theorem timeout_has_effect (buffer : TimedBuffer) (clock : List Nat) (errno : Int) :
    (∀ data : List UInt8, 0 < data.length → data.length < 2 ^ 64 →
      TimesOut buffer .write clock errno →
      ¬ ∃ result, timedBufferWrite buffer data clock errno = some result ∧
        NoEffect buffer result) ∧
    ∀ bytesToRead, 0 < bytesToRead → bytesToRead < 2 ^ 64 →
      TimesOut buffer .read clock errno →
      ¬ ∃ result, timedBufferRead buffer bytesToRead clock errno = some result ∧
        NoEffect buffer result := by
  constructor
  · rintro data hpos hdata htimeout ⟨result, hwrite, hnone⟩
    obtain ⟨hreturned, -, hsize⟩ := timedBufferWrite_timeout hpos hdata htimeout hwrite
    -- only a write of `2 ^ 64 - 1` bytes returns `-1`, and that one takes one off the size
    have hlength : data.length = 2 ^ 64 - 1 := hreturned.symm.trans hnone.returned
    have hdvd := dvd_of_int32_add (hsize.symm.trans (by rw [hnone.buffer]))
    omega
  · rintro bytesToRead hpos hbytes htimeout ⟨result, hread, hnone⟩
    obtain ⟨hlength, -, -⟩ := timedBufferRead_timeout hpos hbytes htimeout hread
    rw [hnone.bytes] at hlength
    exact hpos.ne hlength

/-- A new buffer of two bytes, with a timeout of five cycles for both operations. -/
private def impatient : TimedBuffer where
  toBuffer := .fresh (fun _ => 0) 2 { nonBlocking := fun _ => false }
  levels := fun _ => 0
  timeout := fun _ => 5

/-- After a write of two bytes. -/
private def impatientFull : TimedBuffer :=
  match timedBufferWrite impatient [1, 2] [0] 0 with
  | some result => result.buffer
  | none => impatient

/-- Two calls that wait for six cycles. -/
theorem timeout_has_effect_impatient :
    (¬ ∃ result, timedBufferWrite impatientFull [9] [0, 6] 0 = some result ∧
      NoEffect impatientFull result) ∧
    ¬ ∃ result, timedBufferRead impatient 1 [0, 6] 0 = some result ∧
      NoEffect impatient result :=
  ⟨(timeout_has_effect impatientFull [0, 6] 0).1 [9] (by decide) (by decide)
      ⟨by decide, by decide, by decide⟩,
    (timeout_has_effect impatient [0, 6] 0).2 1 (by decide) (by decide)
      ⟨by decide, by decide, by decide⟩⟩

/-- The write puts a third byte into the full buffer, over the first one, and the read takes one
out of the empty buffer. -/
theorem timeout_overwrites :
    TimesOut impatientFull .write [0, 6] 0 ∧ TimesOut impatient .read [0, 6] 0 ∧
    (∃ result, timedBufferWrite impatientFull [9] [0, 6] 0 = some result ∧
      result.returned = 1 ∧ result.errno = EWOULDBLOCK ∧ result.buffer.size = 3 ∧
      impatientFull.data 0 = 1 ∧ result.buffer.data 0 = 9 ∧ ¬ NoEffect impatientFull result) ∧
    ∃ result, timedBufferRead impatient 1 [0, 6] 0 = some result ∧
      result.returned = 1 ∧ result.errno = EWOULDBLOCK ∧ result.bytes = [0] ∧
      result.buffer.size = -1 ∧ ¬ NoEffect impatient result := by
  refine ⟨⟨by decide, by decide, by decide⟩, ⟨by decide, by decide, by decide⟩,
    ⟨_, rfl, rfl, rfl, rfl, rfl, rfl, fun hnone => ?_⟩,
    ⟨_, rfl, rfl, rfl, rfl, rfl, fun hnone => ?_⟩⟩
  · exact absurd hnone.returned (by decide)
  · exact absurd hnone.returned (by decide)

end Tssx
