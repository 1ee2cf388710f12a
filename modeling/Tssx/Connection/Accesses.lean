import Tssx.Connection.Memory

/-!
# An access in the bytes of the segment

`bufferAt memory buffer` is the `Buffer` that the pointer `buffer` points to.  There is one lemma
for each store into it and `bufferAt_congr` for the stores elsewhere; `writerStepAt_over` and
`readerStepAt_over` say that an access in the bytes is the access of the ring, and
`writerStepAt_outside` and `readerStepAt_outside` that it stays inside the buffer and its data.
-/

namespace Tssx

/-- The data behind a `Buffer`, up to its capacity. -/
def dataAt (memory : SegmentBytes) (buffer capacity i : Nat) : UInt8 :=
  if i < capacity then memory (startPointer buffer + i) else 0

/-- The `Buffer` at a place of the segment. -/
def bufferAt (memory : SegmentBytes) (buffer : Nat) : Buffer where
  size := sizeAt memory buffer
  capacity := capacityAt memory buffer
  timeouts := { nonBlocking := nonBlockingAt memory buffer }
  read := readAt memory buffer
  write := writeAt memory buffer
  data := dataAt memory buffer (capacityAt memory buffer)

/-! ### Stores into a buffer and elsewhere -/

section Stores

variable {memory memory' : SegmentBytes} {buffer : Nat}

theorem bufferAt_size : (bufferAt memory buffer).size = sizeAt memory buffer := by rw [bufferAt]

theorem bufferAt_capacity : (bufferAt memory buffer).capacity = capacityAt memory buffer := rfl

theorem bufferAt_nonBlocking (operation : Operation) :
    (bufferAt memory buffer).timeouts.nonBlocking operation =
      nonBlockingAt memory buffer operation := rfl

theorem getAvailableSpace_bufferAt (operation : Operation) :
    getAvailableSpace (bufferAt memory buffer) operation =
      availableSpaceAt memory buffer operation := by
  cases operation with
  | read => rw [getAvailableSpace, bufferAt_size, availableSpaceAt]
  | write =>
    rw [getAvailableSpace, bufferFreeSpace, bufferAt_size, bufferAt_capacity, availableSpaceAt]

theorem fetchAdd_bufferAt (bytes : Nat) : (bufferAt memory buffer).fetchAdd bytes =
    { bufferAt memory buffer with size := int32 (sizeAt memory buffer + bytes) } := by
  rw [Buffer.fetchAdd, bufferAt_size]

theorem fetchSub_bufferAt (bytes : Nat) : (bufferAt memory buffer).fetchSub bytes =
    { bufferAt memory buffer with size := int32 (sizeAt memory buffer + -bytes) } := by
  rw [Buffer.fetchSub, bufferAt_size, Int.sub_eq_add_neg]

theorem sizeT_lt (x : Int) : sizeT x < 2 ^ 64 := by
  unfold sizeT
  omega

theorem loadSizeT_congr {place : Nat} (h : ∀ i, place ≤ i → i < place + 8 → memory' i = memory i) :
    loadSizeT memory' place = loadSizeT memory place := by
  rw [loadSizeT, Ring.load_congr h, loadSizeT]

/-- **A buffer is its own bytes.** -/
theorem bufferAt_congr (h : ∀ i, buffer ≤ i → i < startPointer buffer + capacityAt memory buffer →
    memory' i = memory i) : bufferAt memory' buffer = bufferAt memory buffer := by
  have hfield : ∀ i, buffer ≤ i → i < buffer + SIZEOF_BUFFER → memory' i = memory i := by
    intro i hle hlt
    exact h i hle (Nat.lt_of_lt_of_le hlt (Nat.le_add_right _ _))
  have hload : ∀ place, buffer ≤ place → place + 8 ≤ buffer + SIZEOF_BUFFER →
      loadSizeT memory' place = loadSizeT memory place := by
    intro place hle hin
    exact loadSizeT_congr fun i h1 h2 => hfield i (by omega) (by omega)
  have hcapacity : capacityAt memory' buffer = capacityAt memory buffer :=
    hload _ (Nat.le_add_right _ _) (by simp [CAPACITY, SIZEOF_BUFFER])
  simp only [bufferAt, Buffer.mk.injEq, Timeouts.mk.injEq]
  refine ⟨?_, hcapacity, ?_, ?_, ?_, ?_⟩
  · rw [sizeAt, Ring.load_congr fun i h1 h2 => hfield i h1 (by unfold SIZEOF_BUFFER; omega), sizeAt]
  · funext operation
    cases operation with
    | read =>
      rw [nonBlockingAt, hfield _ (Nat.le_add_right _ _) (by simp [TIMEOUTS, SIZEOF_BUFFER]),
        nonBlockingAt]
    | write =>
      rw [nonBlockingAt, hfield _ (by omega) (by simp [TIMEOUTS, SIZEOF_BUFFER]), nonBlockingAt]
  · exact hload _ (Nat.le_add_right _ _) (by simp [READ_INDEX, SIZEOF_BUFFER])
  · exact hload _ (Nat.le_add_right _ _) (by simp [WRITE_INDEX, SIZEOF_BUFFER])
  · funext i
    rw [hcapacity]
    unfold dataAt
    split
    · rename_i hi
      exact h _ (by unfold startPointer; omega) (by omega)
    · rfl

theorem loadSizeT_other {place field : Nat} {bytes : List UInt8}
    (h : field + 8 ≤ place ∨ place + bytes.length ≤ field) :
    loadSizeT (Ring.store memory (buffer + place) bytes) (buffer + field) =
      loadSizeT memory (buffer + field) :=
  loadSizeT_disjoint (by omega)

theorem sizeAt_other {place : Nat} {bytes : List UInt8} (h : 4 ≤ place) :
    sizeAt (Ring.store memory (buffer + place) bytes) buffer = sizeAt memory buffer := by
  rw [sizeAt, Ring.load_store_disjoint memory (by omega), sizeAt]

theorem nonBlockingAt_other {place : Nat} {bytes : List UInt8}
    (h : place + bytes.length ≤ TIMEOUTS ∨ TIMEOUTS + 2 ≤ place) :
    nonBlockingAt (Ring.store memory (buffer + place) bytes) buffer =
      nonBlockingAt memory buffer := by
  funext operation
  cases operation with
  | read => rw [nonBlockingAt, Ring.store_outside memory (by omega), nonBlockingAt]
  | write => rw [nonBlockingAt, Ring.store_outside memory (by omega), nonBlockingAt]

theorem dataAt_other {place capacity : Nat} {bytes : List UInt8}
    (h : place + bytes.length ≤ SIZEOF_BUFFER) :
    dataAt (Ring.store memory (buffer + place) bytes) buffer capacity =
      dataAt memory buffer capacity := by
  funext i
  rw [dataAt, Ring.store_outside memory (by unfold startPointer; omega), dataAt]

theorem bufferAt_storeWrite {value : Nat} (h : value < 2 ^ 64) :
    bufferAt (storeSizeT memory (buffer + WRITE_INDEX) value) buffer =
      { bufferAt memory buffer with write := value } := by
  have hcapacity : capacityAt (storeSizeT memory (buffer + WRITE_INDEX) value) buffer =
      capacityAt memory buffer := loadSizeT_other (by simp [CAPACITY, WRITE_INDEX])
  simp only [bufferAt, hcapacity, Buffer.mk.injEq, true_and]
  refine ⟨sizeAt_other (by decide), ?_, ?_, loadSizeT_store h, ?_⟩
  · rw [storeSizeT, nonBlockingAt_other (by simp [TIMEOUTS, WRITE_INDEX])]
  · exact loadSizeT_other (by simp [READ_INDEX, WRITE_INDEX])
  · exact dataAt_other (by simp [WRITE_INDEX, SIZEOF_BUFFER])

theorem bufferAt_storeRead {value : Nat} (h : value < 2 ^ 64) :
    bufferAt (storeSizeT memory (buffer + READ_INDEX) value) buffer =
      { bufferAt memory buffer with read := value } := by
  have hcapacity : capacityAt (storeSizeT memory (buffer + READ_INDEX) value) buffer =
      capacityAt memory buffer := loadSizeT_other (by simp [CAPACITY, READ_INDEX])
  simp only [bufferAt, hcapacity, Buffer.mk.injEq, true_and]
  refine ⟨sizeAt_other (by decide), ?_, loadSizeT_store h, ?_, ?_⟩
  · rw [storeSizeT, nonBlockingAt_other (by simp [TIMEOUTS, READ_INDEX])]
  · exact loadSizeT_other (by simp [READ_INDEX, WRITE_INDEX])
  · exact dataAt_other (by simp [READ_INDEX, SIZEOF_BUFFER])

/-- The `atomic_int` wraps around in the bytes as it does in `fetchAdd`. -/
theorem sizeAt_fetchAdd (bytes : Int) :
    sizeAt (fetchAddAt memory buffer bytes) buffer = int32 (sizeAt memory buffer + bytes) := by
  have hlt : ((sizeAt memory buffer + bytes) % 2 ^ 32).toNat < 256 ^ 4 := by omega
  have hload := Ring.load_store memory buffer
    (Bytes.bytes 4 ((sizeAt memory buffer + bytes) % 2 ^ 32).toNat)
  rw [Bytes.length_bytes] at hload
  rw [sizeAt, fetchAddAt, hload, Bytes.value_bytes hlt, Int.toNat_of_nonneg (by omega)]
  exact Int.emod_bmod _ (2 ^ 32)

theorem bufferAt_fetchAdd (bytes : Int) :
    bufferAt (fetchAddAt memory buffer bytes) buffer =
      { bufferAt memory buffer with size := int32 (sizeAt memory buffer + bytes) } := by
  have hplace : fetchAddAt memory buffer bytes = Ring.store memory (buffer + 0) _ := rfl
  have hcapacity : capacityAt (fetchAddAt memory buffer bytes) buffer =
      capacityAt memory buffer := loadSizeT_disjoint (by simp [CAPACITY])
  simp only [bufferAt, hcapacity, Buffer.mk.injEq, true_and]
  refine ⟨sizeAt_fetchAdd bytes, ?_, ?_, ?_, ?_⟩
  · rw [hplace, nonBlockingAt_other (by simp [TIMEOUTS])]
  · exact loadSizeT_disjoint (by simp [READ_INDEX])
  · exact loadSizeT_disjoint (by simp [WRITE_INDEX])
  · rw [hplace, dataAt_other (by simp [SIZEOF_BUFFER])]

theorem bufferAt_copy {index : Nat} {bytes : List UInt8}
    (h : ∀ i, i < bytes.length → index + i < capacityAt memory buffer) :
    bufferAt (Ring.store memory (startPointer buffer + index) bytes) buffer =
      { bufferAt memory buffer with
        data := Ring.store (bufferAt memory buffer).data index bytes } := by
  have hplace : startPointer buffer + index = buffer + (SIZEOF_BUFFER + index) := by
    rw [startPointer, Nat.add_assoc]
  have hfield : ∀ field, field + 8 ≤ SIZEOF_BUFFER →
      loadSizeT (Ring.store memory (startPointer buffer + index) bytes) (buffer + field) =
        loadSizeT memory (buffer + field) := by
    intro field hin
    rw [hplace]
    exact loadSizeT_other (.inl (by omega))
  have hcapacity : capacityAt (Ring.store memory (startPointer buffer + index) bytes) buffer =
      capacityAt memory buffer := hfield _ (by decide)
  simp only [bufferAt, hcapacity, Buffer.mk.injEq, true_and]
  refine ⟨?_, ?_, hfield _ (by decide), hfield _ (by decide), ?_⟩
  · rw [hplace, sizeAt_other (by unfold SIZEOF_BUFFER; omega)]
  · rw [hplace, nonBlockingAt_other (.inr (by unfold TIMEOUTS SIZEOF_BUFFER; omega))]
  · funext i
    by_cases hin : index ≤ i ∧ i < index + bytes.length
    · obtain ⟨k, rfl⟩ := Nat.exists_eq_add_of_le hin.1
      have hk : bytes[k]? = some bytes[k] := List.getElem?_eq_getElem (by omega)
      rw [dataAt, if_pos (h k (by omega)), ← Nat.add_assoc, Ring.store_inside memory hk,
        Ring.store_inside _ hk]
    · rw [dataAt, Ring.store_outside memory (by omega), Ring.store_outside _ (by omega), dataAt]

theorem load_data {index n : Nat} (h : ∀ i, i < n → index + i < capacityAt memory buffer) :
    Ring.load memory (startPointer buffer + index) n =
      Ring.load (bufferAt memory buffer).data index n := by
  simp only [Ring.load, bufferAt]
  refine List.map_congr_left fun i hi => ?_
  rw [dataAt, if_pos (h i (List.mem_range.mp hi)), Nat.add_assoc]

end Stores

/-! ### An access in the bytes -/

def RingCalls.over (s : RingCalls) (buffer : Buffer) : RingState where
  buffer := buffer
  writer := s.writer
  reader := s.reader
  history := s.history

/-- The ring of which an access in the bytes makes a part. -/
def ringAt (buffer : Nat) (after : SegmentBytes × RingCalls) : RingState :=
  after.2.over (bufferAt after.1 buffer)

section Access

variable {memory memory' : SegmentBytes} {buffer : Nat} {s s' : RingCalls}

theorem copy_inside {data : List UInt8} {index n : Nat}
    (h : ∀ i ∈ Ring.cells index n, i < capacityAt memory buffer) :
    ∀ i, i < (data.take n).length → index + i < capacityAt memory buffer := by
  intro i hi
  rw [List.length_take] at hi
  exact h _ (Ring.mem_cells.mpr ⟨Nat.le_add_right _ _, by omega⟩)

theorem load_inside {index n : Nat} (h : ∀ i ∈ Ring.cells index n, i < capacityAt memory buffer) :
    Ring.load memory (startPointer buffer + index) n =
      Ring.load (bufferAt memory buffer).data index n :=
  load_data fun i hi => h _ (Ring.mem_cells.mpr ⟨Nat.le_add_right _ _, by omega⟩)

/-- **An access of `buffer_write` in the bytes is the one of the ring.** -/
theorem writerStepAt_over (h : ∀ i ∈ s.writer.copies, i < capacityAt memory buffer) :
    (writerStepAt buffer memory s).map (ringAt buffer) =
      writerStep (s.over (bufferAt memory buffer)) := by
  cases hpc : s.writer with
  | idle => simp only [writerStepAt, writerStep, RingCalls.over, hpc, Option.map_none]
  | space source waits =>
    simp only [writerStepAt, writerStep, RingCalls.over, hpc, getAvailableSpace_bufferAt,
      bufferAt_nonBlocking]
    split <;> rfl
  | compareOwn r | loadIndex r =>
    simp only [writerStepAt, writerStep, RingCalls.over, hpc]
    rfl
  | compareOther r index | right r =>
    simp only [writerStepAt, writerStep, RingCalls.over, hpc]
    split <;> rename_i hle
    · exact (if_pos hle).symm
    · exact (if_neg hle).symm
  | firstPointer r | secondPointer r =>
    simp only [writerStepAt, writerStep, RingCalls.over, hpc]
    split <;> rename_i hle
    · exact (if_pos hle).symm
    · exact (if_neg hle).symm
  | firstCopy r index | secondCopy r index =>
    rw [hpc] at h
    simp only [writerStepAt, writerStep, RingCalls.over, hpc, ringAt, Option.map_some,
      bufferAt_copy (copy_inside h)]
  | wrapIndex r =>
    simp only [writerStepAt, writerStep, RingCalls.over, hpc, ringAt, Option.map_some,
      bufferAt_storeWrite (show 0 < 2 ^ 64 by decide)]
  | storeIndex r index =>
    simp only [writerStepAt, writerStep, RingCalls.over, hpc, ringAt, Option.map_some,
      bufferAt_storeWrite (sizeT_lt _)]
  | wrapSize r | addSize r =>
    simp only [writerStepAt, writerStep, RingCalls.over, hpc, ringAt, Option.map_some,
      bufferAt_fetchAdd, fetchAdd_bufferAt]

theorem readerStepAt_over (h : ∀ i ∈ s.reader.copies, i < capacityAt memory buffer) :
    (readerStepAt buffer memory s).map (ringAt buffer) =
      readerStep (s.over (bufferAt memory buffer)) := by
  cases hpc : s.reader with
  | idle => simp only [readerStepAt, readerStep, RingCalls.over, hpc, Option.map_none]
  | space call waits =>
    simp only [readerStepAt, readerStep, RingCalls.over, hpc, getAvailableSpace_bufferAt,
      bufferAt_nonBlocking]
    split <;> rfl
  | compareOwn r | loadIndex r =>
    simp only [readerStepAt, readerStep, RingCalls.over, hpc]
    rfl
  | compareOther r index | right r =>
    simp only [readerStepAt, readerStep, RingCalls.over, hpc]
    split <;> rename_i hle
    · exact (if_pos hle).symm
    · exact (if_neg hle).symm
  | firstPointer r | secondPointer r =>
    simp only [readerStepAt, readerStep, RingCalls.over, hpc]
    split <;> rename_i hle
    · exact (if_pos hle).symm
    · exact (if_neg hle).symm
  | firstCopy r index | secondCopy r index =>
    rw [hpc] at h
    simp only [readerStepAt, readerStep, RingCalls.over, hpc, ringAt, Option.map_some,
      load_inside h]
  | wrapIndex r =>
    simp only [readerStepAt, readerStep, RingCalls.over, hpc, ringAt, Option.map_some,
      bufferAt_storeRead (show 0 < 2 ^ 64 by decide)]
  | storeIndex r index =>
    simp only [readerStepAt, readerStep, RingCalls.over, hpc, ringAt, Option.map_some,
      bufferAt_storeRead (sizeT_lt _)]
  | wrapSize r | addSize r =>
    simp only [readerStepAt, readerStep, RingCalls.over, hpc, ringAt, Option.map_some,
      bufferAt_fetchAdd, fetchSub_bufferAt]

/-- No byte outside of a buffer and its data has changed. -/
def Outside (buffer capacity : Nat) (memory memory' : SegmentBytes) : Prop :=
  ∀ i, i < buffer ∨ startPointer buffer + capacity ≤ i → memory' i = memory i

theorem field_outside (place : Nat) {capacity : Nat} {bytes : List UInt8}
    (h : place + bytes.length ≤ SIZEOF_BUFFER) :
    Outside buffer capacity memory (Ring.store memory (buffer + place) bytes) :=
  fun _ hi => Ring.store_outside memory (by unfold startPointer at hi; omega)

theorem copy_outside {capacity index : Nat} {bytes : List UInt8}
    (h : ∀ i, i < bytes.length → index + i < capacity) :
    Outside buffer capacity memory (Ring.store memory (startPointer buffer + index) bytes) := by
  intro i hi
  by_cases hnil : bytes.length = 0
  · rw [List.length_eq_zero_iff.mp hnil, Ring.store_nil]
  · have hlast := h (bytes.length - 1) (by omega)
    exact Ring.store_outside memory (by unfold startPointer at hi ⊢; omega)

theorem writerStepAt_outside (h : ∀ i ∈ s.writer.copies, i < capacityAt memory buffer)
    (hstep : writerStepAt buffer memory s = some (memory', s')) :
    Outside buffer (capacityAt memory buffer) memory memory' := by
  intro i hi
  cases hpc : s.writer with
  | idle => simp only [writerStepAt, hpc] at hstep; cases hstep
  | space _ _ | compareOther r _ | right r | firstPointer r | secondPointer r =>
    simp only [writerStepAt, hpc] at hstep
    split at hstep <;> cases hstep <;> rfl
  | compareOwn r | loadIndex r =>
    simp only [writerStepAt, hpc] at hstep
    cases hstep
    rfl
  | firstCopy r index | secondCopy r index =>
    rw [hpc] at h
    simp only [writerStepAt, hpc, Option.some.injEq, Prod.mk.injEq] at hstep
    rw [← hstep.1]
    exact copy_outside (copy_inside h) i hi
  | wrapIndex r | storeIndex r _ =>
    simp only [writerStepAt, hpc, Option.some.injEq, Prod.mk.injEq] at hstep
    rw [← hstep.1]
    exact field_outside _ (by simp [WRITE_INDEX, SIZEOF_BUFFER]) i hi
  | wrapSize r | addSize r =>
    simp only [writerStepAt, hpc, Option.some.injEq, Prod.mk.injEq] at hstep
    rw [← hstep.1]
    exact field_outside 0 (by simp [SIZEOF_BUFFER]) i hi

theorem readerStepAt_outside (hstep : readerStepAt buffer memory s = some (memory', s')) :
    Outside buffer (capacityAt memory buffer) memory memory' := by
  intro i hi
  cases hpc : s.reader with
  | idle => simp only [readerStepAt, hpc] at hstep; cases hstep
  | space _ _ | compareOther r _ | right r | firstPointer r | secondPointer r =>
    simp only [readerStepAt, hpc] at hstep
    split at hstep <;> cases hstep <;> rfl
  | compareOwn r | firstCopy r _ | secondCopy r _ | loadIndex r =>
    simp only [readerStepAt, hpc] at hstep
    cases hstep
    rfl
  | wrapIndex r | storeIndex r _ =>
    simp only [readerStepAt, hpc, Option.some.injEq, Prod.mk.injEq] at hstep
    rw [← hstep.1]
    exact field_outside _ (by simp [READ_INDEX, SIZEOF_BUFFER]) i hi
  | wrapSize r | addSize r =>
    simp only [readerStepAt, hpc, Option.some.injEq, Prod.mk.injEq] at hstep
    rw [← hstep.1]
    exact field_outside 0 (by simp [SIZEOF_BUFFER]) i hi

end Access

end Tssx
