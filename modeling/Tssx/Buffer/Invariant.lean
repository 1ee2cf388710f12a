import Tssx.Buffer.Progress

/-!
# The invariant of the ring buffer

`RingInv` joins what the two parties know with the content of the memory: the bytes placed
and not yet released are in their cells, and the bytes delivered are the first ones of the
stream.  There is one lemma for each kind of access (`setWriter`, `place`, `publish` and
`setReader`, `deliver`, `release`); `ringStep_inv` goes through the accesses of both
functions and cites them.
-/

namespace Tssx

/-! ### The invariant -/

/-- The bytes of the call in progress that the writer has copied. -/
def WriterPc.placed (pc : WriterPc) : List UInt8 :=
  match pc.registers with
  | none => []
  | some r => r.call.take pc.moved

/-- The bytes placed so far, in order. -/
def History.stream (h : History) : List UInt8 := h.placed.map Prod.snd

@[simp] theorem History.stream_place (h : History) (index : Nat) (bytes : List UInt8) :
    (h.place index bytes).stream = h.stream ++ bytes := by
  simp [History.place, History.stream, List.map_snd_zip, Ring.cells]

/-- What a finished read has done: it moved as many bytes as were requested and available,
and returned their number, or `-1` for a request of some bytes when there were none. -/
def ReadReturn.Sound (r : ReadReturn) : Prop :=
  r.bytes.length = min r.available r.requested ∧
    r.returned = if r.bytes.length = 0 ∧ r.requested ≠ 0 then sizeT (-1) else r.bytes.length

/-- The invariant of a buffer of capacity `c` shared by one writer and one reader. -/
structure RingInv (c : Nat) (s : RingState) : Prop where
  pos : 0 < c
  bound : c ≤ MAX_CAPACITY
  capacity : s.buffer.capacity = c
  size : s.buffer.size = (s.history.published : Int) - s.history.released
  released_le : s.history.released ≤ s.delivered.length
  delivered_le : s.delivered.length ≤ s.history.published
  published_le : s.history.published ≤ s.history.stream.length
  room : s.history.stream.length ≤ s.history.released + c
  writer : TransferFacts c s.buffer.write s.history.stream.length s.history.published
    (s.history.released + c) s.writer
  reader : TransferFacts c s.buffer.read s.delivered.length s.history.released
    s.history.published s.reader
  /-- Byte `i` of the stream was placed at index `i` modulo the capacity. -/
  indices : s.history.placed.map Prod.fst =
    (List.range s.history.stream.length).map fun i => i % c
  stream : s.history.stream =
    s.history.writes.flatMap (fun w => w.1.take w.2) ++ WriterPc.placed s.writer
  content : Ring.Holds s.buffer.data c s.history.released
    (s.history.stream.drop s.history.released)
  delivered : s.delivered = s.history.stream.take s.delivered.length
  writerFits : ∀ r ∈ s.writer.registers, r.offset + r.bytes ≤ r.call.length
  readerFits : ∀ r ∈ s.reader.registers,
    r.offset + r.bytes = min r.call.available r.call.requested ∧
      r.call.requested ≠ 0 ∧ r.call.destination.length = s.reader.moved
  readerCall : ∀ call waits, s.reader = .space call waits →
    call.requested ≠ 0 ∧ call.destination = []
  reads : ∀ r ∈ s.history.reads, r.Sound

theorem ringInv_init {buffer : Buffer} (hc : 0 < buffer.capacity)
    (hb : buffer.capacity ≤ MAX_CAPACITY) : RingInv buffer.capacity (.init buffer) where
  pos := hc
  bound := hb
  capacity := rfl
  size := rfl
  released_le := Nat.zero_le _
  delivered_le := Nat.zero_le _
  published_le := Nat.zero_le _
  room := Nat.zero_le _
  writer := ⟨rfl, (Nat.zero_mod _).symm⟩
  reader := ⟨rfl, (Nat.zero_mod _).symm⟩
  indices := rfl
  stream := rfl
  content := Ring.holds_nil _ _ _
  delivered := rfl
  writerFits := by simp [RingState.init, TransferPc.registers]
  readerFits := by simp [RingState.init, TransferPc.registers]
  readerCall := by simp [RingState.init]
  reads := by simp [RingState.init]

namespace RingInv

variable {c : Nat} {s t : RingState}

theorem freeSpace (h : RingInv c s) :
    getAvailableSpace s.buffer .write = c - (s.history.published - s.history.released) := by
  have := h.released_le
  have := h.delivered_le
  have := h.published_le
  have := h.room
  have hs := h.size
  rw [getAvailableSpace_write (n := s.history.published - s.history.released) (by omega)
    (by rw [h.capacity]; omega) (by rw [h.capacity]; exact h.bound), h.capacity]

theorem unread (h : RingInv c s) :
    getAvailableSpace s.buffer .read = s.history.published - s.history.released := by
  have := h.released_le
  have := h.delivered_le
  have := h.published_le
  have := h.room
  have hs := h.size
  exact getAvailableSpace_read (by omega) (by rw [h.capacity]; omega)
    (by rw [h.capacity]; exact h.bound)

/-! ### What the accesses of the writer keep -/

theorem setWriter {pc : WriterPc} {index : Nat} (h : RingInv c s)
    (hp : WriterPc.placed pc = WriterPc.placed s.writer)
    (hf : TransferFacts c index s.history.stream.length s.history.published
      (s.history.released + c) pc)
    (hfit : ∀ r ∈ pc.registers, r.offset + r.bytes ≤ r.call.length) :
    RingInv c { s with buffer := { s.buffer with write := index }, writer := pc } :=
  { h with
    writer := hf
    stream := by rw [hp]; exact h.stream
    writerFits := hfit }

/-- The writer's `memcpy` of bytes that it has room for, up to the end of the buffer at most. -/
theorem place {pc : WriterPc} {index : Nat} {bytes : List UInt8} (h : RingInv c s)
    (hi : index = s.history.stream.length % c)
    (hroom : s.history.stream.length + bytes.length ≤ s.history.released + c)
    (hend : index + bytes.length ≤ c)
    (hf : TransferFacts c s.buffer.write (s.history.stream.length + bytes.length)
      s.history.published (s.history.released + c) pc)
    (hp : WriterPc.placed pc = WriterPc.placed s.writer ++ bytes)
    (hfit : ∀ r ∈ pc.registers, r.offset + r.bytes ≤ r.call.length) :
    RingInv c { s with
      buffer := { s.buffer with data := Ring.store s.buffer.data index bytes }
      writer := pc
      history := s.history.place index bytes } := by
  subst hi
  have hlen : s.history.released ≤ s.history.stream.length :=
    h.released_le.trans (h.delivered_le.trans h.published_le)
  have hmod : (s.history.released + (s.history.stream.drop s.history.released).length) =
      s.history.stream.length := by rw [List.length_drop]; omega
  refine { h with
    published_le := ?_, room := ?_, writer := ?_, indices := ?_, stream := ?_, content := ?_
    delivered := ?_, writerFits := hfit }
  · rw [History.stream_place, List.length_append]
    exact h.published_le.trans (Nat.le_add_right _ _)
  · rw [History.stream_place, List.length_append]
    exact hroom
  · rw [History.stream_place, List.length_append]
    exact hf
  · rw [History.stream_place, List.length_append, List.range_add, List.map_append, ← h.indices,
      History.place, List.map_append, List.map_fst_zip (by simp [Ring.cells])]
    congr 1
    rw [List.map_map, Ring.cells]
    apply List.map_congr_left
    intro i hi
    exact (Ring.mod_add_of_lt (by have := List.mem_range.mp hi; omega)).symm
  · rw [History.stream_place, hp, ← List.append_assoc]
    exact congrArg (· ++ bytes) h.stream
  · show Ring.Holds (Ring.store s.buffer.data (s.history.stream.length % c) bytes) c
      s.history.released ((s.history.place (s.history.stream.length % c) bytes).stream.drop
        s.history.released)
    rw [History.stream_place, List.drop_append_of_le_length hlen]
    have := @Ring.Holds.store _ _ _ _ _ bytes h.content (by rw [List.length_drop]; omega)
      (by rw [hmod]; exact hend)
    rwa [hmod] at this
  · show s.delivered = (s.history.place (s.history.stream.length % c) bytes).stream.take
      s.delivered.length
    rw [History.stream_place, List.take_append_of_le_length (h.delivered_le.trans h.published_le)]
    exact h.delivered

theorem publish {pc : WriterPc} {n : Nat} {writes : List (List UInt8 × Nat)} (h : RingInv c s)
    (hn : s.history.published + n ≤ s.history.stream.length)
    (hf : TransferFacts c s.buffer.write s.history.stream.length (s.history.published + n)
      (s.history.released + c) pc)
    (hp : writes.flatMap (fun w => w.1.take w.2) ++ WriterPc.placed pc =
      s.history.writes.flatMap (fun w => w.1.take w.2) ++ WriterPc.placed s.writer)
    (hfit : ∀ r ∈ pc.registers, r.offset + r.bytes ≤ r.call.length) :
    RingInv c { s with
      buffer := s.buffer.fetchAdd n
      writer := pc
      history := { s.history with published := s.history.published + n, writes } } := by
  refine { h with
    size := ?_, delivered_le := h.delivered_le.trans (Nat.le_add_right _ _), published_le := hn
    writer := hf, reader := h.reader.mono (Nat.le_add_right _ _), stream := ?_
    writerFits := hfit }
  · have := h.room
    have := h.released_le
    have := h.delivered_le
    have hs := h.size
    have hb := h.bound
    unfold MAX_CAPACITY at hb
    show int32 (s.buffer.size + n) = ((s.history.published + n : Nat) : Int) - s.history.released
    rw [int32_eq (by omega) (by omega), hs]
    push_cast
    omega
  · rw [hp]; exact h.stream

theorem finishWrite (h : RingInv c s) (data : List UInt8) :
    RingInv c { s with
      history := { s.history with writes := s.history.writes ++ [(data, 0)] } } :=
  { h with
    stream := by
      show s.history.stream = (s.history.writes ++ [(data, 0)]).flatMap _ ++ _
      rw [List.flatMap_append]
      simpa using h.stream }

/-! ### What the accesses of the reader keep -/

/-- What the invariant says of a reader with a given program counter. -/
structure ReaderOk (c : Nat) (s : RingState) (read released : Nat) (pc : ReaderPc) : Prop where
  facts : TransferFacts c read s.delivered.length released s.history.published pc
  fits : ∀ r ∈ pc.registers, r.offset + r.bytes = min r.call.available r.call.requested ∧
    r.call.requested ≠ 0 ∧ r.call.destination.length = pc.moved
  call : ∀ call waits, pc = .space call waits → call.requested ≠ 0 ∧ call.destination = []

theorem setReader {pc : ReaderPc} {index : Nat} (h : RingInv c s)
    (hd : ReaderPc.delivered pc = ReaderPc.delivered s.reader)
    (hok : ReaderOk c s index s.history.released pc) :
    RingInv c { s with buffer := { s.buffer with read := index }, reader := pc } := by
  have hsame : RingState.delivered
      { s with buffer := { s.buffer with read := index }, reader := pc } = s.delivered := by
    simp only [RingState.delivered, hd]
  refine { h with
    released_le := ?_, delivered_le := ?_, reader := ?_, delivered := ?_
    readerFits := hok.fits, readerCall := hok.call }
  · rw [hsame]; exact h.released_le
  · rw [hsame]; exact h.delivered_le
  · rw [hsame]; exact hok.facts
  · rw [hsame]; exact h.delivered

theorem load_eq (h : RingInv c s) {n : Nat} (hn : s.delivered.length + n ≤ s.history.published)
    (hend : s.delivered.length % c + n ≤ c) :
    Ring.load s.buffer.data (s.delivered.length % c) n =
      (s.history.stream.drop s.delivered.length).take n := by
  have := h.released_le
  have := h.published_le
  have hcontent := h.content.drop (s.delivered.length - s.history.released)
  rw [List.drop_drop, Nat.add_sub_of_le h.released_le] at hcontent
  exact hcontent.load (by rw [List.length_drop]; omega) hend

theorem deliver {pc : ReaderPc} {index n : Nat} (h : RingInv c s)
    (hi : index = s.delivered.length % c)
    (hn : s.delivered.length + n ≤ s.history.published) (hend : index + n ≤ c)
    (hd : ReaderPc.delivered pc =
      ReaderPc.delivered s.reader ++ Ring.load s.buffer.data index n)
    (hf : TransferFacts c s.buffer.read (s.delivered.length + n) s.history.released
      s.history.published pc)
    (hfit : ∀ r ∈ pc.registers, r.offset + r.bytes = min r.call.available r.call.requested ∧
      r.call.requested ≠ 0 ∧ r.call.destination.length = pc.moved)
    (hcall : ∀ call waits, pc = .space call waits →
      call.requested ≠ 0 ∧ call.destination = []) :
    RingInv c { s with reader := pc } := by
  subst hi
  have hmore : RingState.delivered { s with reader := pc } =
      s.delivered ++ (s.history.stream.drop s.delivered.length).take n := by
    rw [← h.load_eq hn hend]
    simp only [RingState.delivered, hd, List.append_assoc]
  have hstream := h.published_le
  have hlen : (RingState.delivered { s with reader := pc }).length = s.delivered.length + n := by
    rw [hmore, List.length_append, List.length_take, List.length_drop]
    omega
  refine { h with
    released_le := ?_, delivered_le := ?_, reader := ?_, delivered := ?_
    readerFits := hfit, readerCall := hcall }
  · rw [hlen]; exact h.released_le.trans (Nat.le_add_right _ _)
  · rw [hlen]; exact hn
  · rw [hlen]; exact hf
  · rw [hlen, hmore, List.take_add]
    exact congrArg (· ++ _) h.delivered

theorem release {pc : ReaderPc} {n : Nat} {reads : List ReadReturn} (h : RingInv c s)
    (hn : s.history.released + n ≤ s.delivered.length)
    (hd : reads.flatMap ReadReturn.bytes ++ ReaderPc.delivered pc =
      s.history.reads.flatMap ReadReturn.bytes ++ ReaderPc.delivered s.reader)
    (hok : ReaderOk c s s.buffer.read (s.history.released + n) pc)
    (hreads : ∀ r ∈ reads, r.Sound) :
    RingInv c { s with
      buffer := s.buffer.fetchSub n
      reader := pc
      history := { s.history with released := s.history.released + n, reads } } := by
  have hsame : RingState.delivered { s with
      buffer := s.buffer.fetchSub n, reader := pc
      history := { s.history with released := s.history.released + n, reads } } = s.delivered := hd
  have := h.delivered_le
  have := h.published_le
  have hroom := h.room
  refine { h with
    size := ?_, released_le := ?_, delivered_le := ?_, room := ?_, writer := ?_, reader := ?_
    content := ?_, delivered := ?_, readerFits := hok.fits, readerCall := hok.call
    reads := hreads }
  · have hs := h.size
    have hb := h.bound
    unfold MAX_CAPACITY at hb
    show int32 (s.buffer.size - n) = s.history.published - ((s.history.released + n : Nat) : Int)
    rw [int32_eq (by omega) (by omega), hs]
    push_cast
    omega
  · rw [hsame]; exact hn
  · rw [hsame]; exact h.delivered_le
  · show s.history.stream.length ≤ s.history.released + n + c
    omega
  · exact h.writer.mono (Nat.add_le_add_right (Nat.le_add_right _ _) c)
  · rw [hsame]; exact hok.facts
  · have := h.content.drop n
    rwa [List.drop_drop] at this
  · rw [hsame]; exact h.delivered

theorem finishRead (h : RingInv c s) :
    RingInv c { s with
      history := { s.history with
        reads := s.history.reads ++
          [{ requested := 0, available := 0, returned := 0, bytes := [] }] } } := by
  have hsame : RingState.delivered { s with
      history := { s.history with
        reads := s.history.reads ++
          [{ requested := 0, available := 0, returned := 0, bytes := [] }] } } = s.delivered := by
    simp [RingState.delivered]
  refine { h with
    released_le := ?_, delivered_le := ?_, reader := ?_, delivered := ?_, reads := ?_ }
  · rw [hsame]; exact h.released_le
  · rw [hsame]; exact h.delivered_le
  · rw [hsame]; exact h.reader
  · rw [hsame]; exact h.delivered
  · intro r hr
    rcases List.mem_append.mp hr with hr | hr
    · exact h.reads r hr
    · rw [List.mem_singleton.mp hr]
      exact ⟨rfl, rfl⟩

/-- The writer's comparison of the indices: if it does not look at the end of the buffer,
its bytes fit before it. -/
theorem writer_inside (h : RingInv c s) {r : Registers (List UInt8)}
    (hw : r.Whole c s.buffer.write s.history.stream.length s.history.published
      (s.history.released + c)) (hlt : s.buffer.write < s.buffer.read) :
    s.buffer.write + r.bytes < c := by
  have := h.released_le
  have := h.delivered_le
  have := h.published_le
  rw [hw.own_eq] at hlt ⊢
  rcases h.reader.own_eq with he | he
  · exact writer_not_ahead he le_rfl (by omega) hw.room h.pos hlt
  · exact writer_not_ahead he (by omega) (by omega) hw.room h.pos hlt

theorem reader_inside (h : RingInv c s) {r : Registers ReadCall}
    (hw : r.Whole c s.buffer.read s.delivered.length s.history.released s.history.published)
    (hlt : s.buffer.read < s.buffer.write) : s.buffer.read + r.bytes < c := by
  have := h.released_le
  have := h.delivered_le
  have := h.published_le
  have := h.room
  rw [hw.own_eq] at hlt ⊢
  rcases h.writer.own_eq with he | he
  · exact reader_not_ahead he le_rfl (by omega) hw.room h.pos hlt
  · exact reader_not_ahead he (by omega) (by omega) hw.room h.pos hlt

theorem rightSpace_eq (h : RingInv c s) {index : Nat} (hi : index < c) :
    sizeT (s.buffer.capacity - index) = c - index := by
  have hb := h.bound
  unfold MAX_CAPACITY at hb
  rw [h.capacity]
  exact sizeT_eq (by omega) (by omega)

/-! ### Every step keeps the invariant -/

theorem writerCall_inv (h : RingInv c s) {data : List UInt8} (hs : writerCall s data = some t) :
    RingInv c t := by
  obtain ⟨hpc, ⟨rfl, rfl⟩ | ⟨-, rfl⟩⟩ := writerCall_eq hs
  · exact h.finishWrite []
  · have hf := h.writer
    rw [hpc] at hf
    exact h.setWriter (by rw [hpc]; rfl) hf (by simp [TransferPc.registers])

section Write

variable {r : Registers (List UInt8)} {source : List UInt8} {waits index write : Nat}

theorem writer_start (h : RingInv c s) (hpc : s.writer = .space source waits) :
    RingInv c { s with
      writer := .compareOwn
        { call := source, offset := 0
          bytes := min (getAvailableSpace s.buffer .write) source.length, rightSpace := 0 } } := by
  have hf := h.writer
  rw [hpc] at hf
  have hspace := h.freeSpace
  have := h.released_le
  have := h.delivered_le
  have := h.published_le
  have := h.room
  have hcounted : s.history.published = s.history.stream.length := hf.1
  refine h.setWriter (by rw [hpc]; rfl) ⟨⟨hf.1, hf.2, rfl, ?_, ?_⟩, rfl⟩ ?_
  · show min _ _ ≤ c
    omega
  · show s.history.stream.length + min _ _ ≤ s.history.released + c
    omega
  · intro r hr
    cases hr
    show 0 + min _ _ ≤ source.length
    omega

theorem writer_behind (h : RingInv c s) (hpc : s.writer = .compareOther r write)
    (hlt : ¬ s.buffer.read ≤ write) : RingInv c { s with writer := .secondPointer r } := by
  have hf := h.writer
  have hfit := h.writerFits
  rw [hpc] at hf hfit
  obtain ⟨hw, h0, rfl⟩ := hf
  refine h.setWriter ?_ (hw.last h0 (h.writer_inside hw (by omega))) hfit
  rw [hpc]
  simp [WriterPc.placed, TransferPc.registers, TransferPc.moved, hw.offset_eq]

theorem writer_toEnd (h : RingInv c s) (hpc : s.writer = .right r)
    (hle : sizeT (s.buffer.capacity - s.buffer.write) ≤ r.bytes) :
    RingInv c { s with
      writer := .firstPointer
        { r with rightSpace := sizeT (s.buffer.capacity - s.buffer.write) } } := by
  have hf := h.writer
  have hfit := h.writerFits
  rw [hpc] at hf hfit
  obtain ⟨hw, h0⟩ := hf
  have hlt : s.buffer.write < c := h.writer.own_lt h.pos
  rw [h.rightSpace_eq hlt] at hle ⊢
  refine h.setWriter (by rw [hpc]; rfl) ⟨⟨hw.1, hw.2, hw.3, hw.4, hw.5⟩, ?_, hle⟩ ?_
  · show s.buffer.write + (c - s.buffer.write) = c
    omega
  · intro r' hr'
    cases hr'
    exact hfit r rfl

theorem writer_notToEnd (h : RingInv c s) (hpc : s.writer = .right r)
    (hgt : ¬ sizeT (s.buffer.capacity - s.buffer.write) ≤ r.bytes) :
    RingInv c { s with writer := .secondPointer r } := by
  have hf := h.writer
  have hfit := h.writerFits
  rw [hpc] at hf hfit
  obtain ⟨hw, h0⟩ := hf
  rw [h.rightSpace_eq (h.writer.own_lt h.pos)] at hgt
  refine h.setWriter ?_ (hw.last h0 (by omega)) hfit
  rw [hpc]
  simp [WriterPc.placed, TransferPc.registers, TransferPc.moved, hw.offset_eq]

theorem writer_firstCopy (h : RingInv c s) (hpc : s.writer = .firstCopy r index) :
    RingInv c { s with
      buffer := { s.buffer with
        data := Ring.store s.buffer.data index ((r.call.drop r.offset).take r.rightSpace) }
      writer := .wrapIndex r
      history := s.history.place index ((r.call.drop r.offset).take r.rightSpace) } := by
  have hf := h.writer
  have hfit := h.writerFits
  rw [hpc] at hf hfit
  obtain ⟨hw, hr, hle, rfl⟩ := hf
  have hcall := hfit r rfl
  have hlen : ((r.call.drop r.offset).take r.rightSpace).length = r.rightSpace := by
    rw [List.length_take, List.length_drop]
    omega
  refine h.place hw.own_eq ?_ ?_ ?_ ?_ hfit
  · rw [hlen]
    exact (Nat.add_le_add_left hle _).trans hw.room
  · rw [hlen]
    exact hr.le
  · rw [hlen]
    exact hw.atEnd h.pos hr hle
  · rw [hpc]
    simp [WriterPc.placed, TransferPc.registers, TransferPc.moved, hw.offset_eq]

theorem writer_wrapSize (h : RingInv c s) (hpc : s.writer = .wrapSize r) :
    RingInv c { s with
      buffer := s.buffer.fetchAdd r.rightSpace
      writer := .secondPointer
        { r with offset := r.offset + r.rightSpace, bytes := r.bytes - r.rightSpace }
      history := { s.history with published := s.history.published + r.rightSpace } } := by
  have hf := h.writer
  have hfit := h.writerFits
  rw [hpc] at hf hfit
  obtain ⟨hw, hown⟩ := hf
  refine h.publish hw.counted_eq.le (hw.last hown) ?_ ?_
  · rw [hpc]; rfl
  · intro r' hr'
    cases hr'
    have := hfit r rfl
    have := hw.part
    show r.offset + r.rightSpace + (r.bytes - r.rightSpace) ≤ r.call.length
    omega

theorem writer_secondCopy (h : RingInv c s) (hpc : s.writer = .secondCopy r index) :
    RingInv c { s with
      buffer := { s.buffer with
        data := Ring.store s.buffer.data index ((r.call.drop r.offset).take r.bytes) }
      writer := .loadIndex r
      history := s.history.place index ((r.call.drop r.offset).take r.bytes) } := by
  have hf := h.writer
  have hfit := h.writerFits
  rw [hpc] at hf hfit
  obtain ⟨hw, rfl⟩ := hf
  have hcall := hfit r rfl
  have hlen : ((r.call.drop r.offset).take r.bytes).length = r.bytes := by
    rw [List.length_take, List.length_drop]
    omega
  refine h.place hw.own_eq ?_ ?_ ?_ ?_ hfit
  · rw [hlen]; exact hw.room
  · rw [hlen]; exact hw.inside.le
  · rw [hlen]; exact hw.copied
  · rw [hpc]
    simp [WriterPc.placed, TransferPc.registers, TransferPc.moved, List.take_add]

theorem writer_addSize (h : RingInv c s) (hpc : s.writer = .addSize r) :
    RingInv c { s with
      buffer := s.buffer.fetchAdd r.bytes
      writer := .idle
      history := { s.history with
        published := s.history.published + r.bytes
        writes := s.history.writes ++ [(r.call, sizeT (r.bytes + r.rightSpace))] } } := by
  have hf := h.writer
  rw [hpc] at hf
  obtain ⟨hw, hown⟩ := hf
  have hret : sizeT ((r.bytes : Int) + r.rightSpace) = r.offset + r.bytes := by
    have := hw.bytes_le
    have := h.bound
    unfold MAX_CAPACITY at this
    exact sizeT_eq (by rw [hw.offset_eq]; push_cast; omega) (by omega)
  refine h.publish hw.counted_eq.le ⟨hw.counted_eq, hown⟩ ?_ (by simp [TransferPc.registers])
  rw [hpc, hret, List.flatMap_append]
  simp [WriterPc.placed, TransferPc.registers, TransferPc.moved]

end Write

theorem writerStep_inv (h : RingInv c s) (hs : writerStep s = some t) : RingInv c t := by
  have hf := h.writer
  have hfit := h.writerFits
  cases writerStep_cases hs with
  | again source waits hpc =>
    rw [hpc] at hf
    exact h.setWriter (by rw [hpc]; rfl) hf (by simp [TransferPc.registers])
  | start source waits hpc => exact h.writer_start hpc
  | compareOwn r hpc =>
    rw [hpc] at hf hfit
    exact h.setWriter (by rw [hpc]; rfl) ⟨hf.1, hf.2, rfl⟩ hfit
  | notBehind r write hpc =>
    rw [hpc] at hf hfit
    exact h.setWriter (by rw [hpc]; rfl) ⟨hf.1, hf.2.1⟩ hfit
  | behind r write hpc hlt => exact h.writer_behind hpc hlt
  | toEnd r hpc hle => exact h.writer_toEnd hpc hle
  | notToEnd r hpc hgt => exact h.writer_notToEnd hpc hgt
  | firstPointer r hpc =>
    rw [hpc] at hf hfit
    exact h.setWriter (by rw [hpc]; rfl) ⟨hf.1, hf.2.1, hf.2.2, rfl⟩ hfit
  | firstCopy r index hpc => exact h.writer_firstCopy hpc
  | wrapIndex r hpc =>
    rw [hpc] at hf hfit
    exact h.setWriter (by rw [hpc]; rfl) ⟨hf.1, hf.1.wrapped.symm⟩ hfit
  | wrapSize r hpc => exact h.writer_wrapSize hpc
  | secondPointer r hpc =>
    rw [hpc] at hf hfit
    exact h.setWriter (by rw [hpc]; rfl) ⟨hf, rfl⟩ hfit
  | secondCopy r index hpc => exact h.writer_secondCopy hpc
  | loadIndex r hpc =>
    rw [hpc] at hf hfit
    exact h.setWriter (by rw [hpc]; rfl) ⟨hf.1, hf.2, rfl⟩ hfit
  | storeIndex r index hpc =>
    rw [hpc] at hf hfit
    obtain ⟨hw, hown, rfl⟩ := hf
    exact h.setWriter (by rw [hpc]; rfl) ⟨hw, hw.index h.bound hown⟩ hfit
  | addSize r hpc => exact h.writer_addSize hpc

theorem readerCall_inv (h : RingInv c s) {requested : Nat}
    (hs : Tssx.readerCall s requested = some t) : RingInv c t := by
  obtain ⟨hpc, ⟨-, rfl⟩ | ⟨hreq, rfl⟩⟩ := readerCall_eq hs
  · exact h.finishRead
  · have hf := h.reader
    rw [hpc] at hf
    refine h.setReader (by rw [hpc]; rfl) ⟨hf, by simp [TransferPc.registers], ?_⟩
    intro call waits hcall
    cases hcall
    exact ⟨hreq, rfl⟩

section Read

variable {r : Registers ReadCall} {call : ReadCall} {waits index read : Nat}

theorem reader_start (h : RingInv c s) (hpc : s.reader = .space call waits) :
    RingInv c { s with
      reader := .compareOwn
        { call := { call with available := getAvailableSpace s.buffer .read }, offset := 0
          bytes := min (getAvailableSpace s.buffer .read) call.requested, rightSpace := 0 } } := by
  have hf := h.reader
  rw [hpc] at hf
  obtain ⟨hreq, hdest⟩ := h.readerCall call waits hpc
  have hspace := h.unread
  have := h.released_le
  have := h.delivered_le
  have := h.published_le
  have := h.room
  have hcounted : s.history.released = s.delivered.length := hf.1
  refine h.setReader ?_ ⟨⟨⟨hf.1, hf.2, rfl, ?_, ?_⟩, rfl⟩, ?_, by simp⟩
  · rw [hpc]
    simp [ReaderPc.delivered, TransferPc.registers, hdest]
  · show min _ _ ≤ c
    omega
  · show s.delivered.length + min _ _ ≤ s.history.published
    omega
  · intro r hr
    cases hr
    exact ⟨Nat.zero_add _, hreq, by simp [hdest, TransferPc.moved]⟩

theorem reader_behind (h : RingInv c s) (hpc : s.reader = .compareOther r read)
    (hlt : ¬ s.buffer.write ≤ read) : RingInv c { s with reader := .secondPointer r } := by
  have hf := h.reader
  have hfit := h.readerFits
  rw [hpc] at hf hfit
  obtain ⟨hw, h0, rfl⟩ := hf
  obtain ⟨hmin, hreq, hdest⟩ := hfit r rfl
  refine h.setReader (by rw [hpc]; rfl) ⟨hw.last h0 (h.reader_inside hw (by omega)), ?_, by simp⟩
  intro r' hr'
  cases hr'
  exact ⟨hmin, hreq, hdest.trans hw.offset_eq.symm⟩

theorem reader_toEnd (h : RingInv c s) (hpc : s.reader = .right r)
    (hle : sizeT (s.buffer.capacity - s.buffer.read) ≤ r.bytes) :
    RingInv c { s with
      reader := .firstPointer
        { r with rightSpace := sizeT (s.buffer.capacity - s.buffer.read) } } := by
  have hf := h.reader
  have hfit := h.readerFits
  rw [hpc] at hf hfit
  obtain ⟨hw, h0⟩ := hf
  obtain ⟨hmin, hreq, hdest⟩ := hfit r rfl
  have hlt : s.buffer.read < c := h.reader.own_lt h.pos
  rw [h.rightSpace_eq hlt] at hle ⊢
  refine h.setReader (by rw [hpc]; rfl) ⟨⟨⟨hw.1, hw.2, hw.3, hw.4, hw.5⟩, ?_, hle⟩, ?_, by simp⟩
  · show s.buffer.read + (c - s.buffer.read) = c
    omega
  · intro r' hr'
    cases hr'
    exact ⟨hmin, hreq, hdest⟩

theorem reader_notToEnd (h : RingInv c s) (hpc : s.reader = .right r)
    (hgt : ¬ sizeT (s.buffer.capacity - s.buffer.read) ≤ r.bytes) :
    RingInv c { s with reader := .secondPointer r } := by
  have hf := h.reader
  have hfit := h.readerFits
  rw [hpc] at hf hfit
  obtain ⟨hw, h0⟩ := hf
  obtain ⟨hmin, hreq, hdest⟩ := hfit r rfl
  rw [h.rightSpace_eq (h.reader.own_lt h.pos)] at hgt
  refine h.setReader (by rw [hpc]; rfl) ⟨hw.last h0 (by omega), ?_, by simp⟩
  intro r' hr'
  cases hr'
  exact ⟨hmin, hreq, hdest.trans hw.offset_eq.symm⟩

theorem reader_firstCopy (h : RingInv c s) (hpc : s.reader = .firstCopy r index) :
    RingInv c { s with
      reader := .wrapIndex
        { r with call := r.call.receive (Ring.load s.buffer.data index r.rightSpace) } } := by
  have hf := h.reader
  have hfit := h.readerFits
  rw [hpc] at hf hfit
  obtain ⟨hw, hr, hle, rfl⟩ := hf
  obtain ⟨hmin, hreq, hdest⟩ := hfit r rfl
  obtain ⟨hend, hcounted⟩ := hw.atEnd h.pos hr hle
  refine h.deliver hw.own_eq ((Nat.add_le_add_left hle _).trans hw.room) hr.le ?_
    ⟨⟨hend.1, hend.2, hend.3, hend.4, hend.5, hend.6, hend.7⟩, hcounted⟩ ?_ (by simp)
  · rw [hpc]; rfl
  · intro r' hr'
    cases hr'
    refine ⟨hmin, hreq, ?_⟩
    simp [ReadCall.receive, hdest, TransferPc.moved, hw.offset_eq]

theorem reader_wrapSize (h : RingInv c s) (hpc : s.reader = .wrapSize r) :
    RingInv c { s with
      buffer := s.buffer.fetchSub r.rightSpace
      reader := .secondPointer
        { r with offset := r.offset + r.rightSpace, bytes := r.bytes - r.rightSpace }
      history := { s.history with released := s.history.released + r.rightSpace } } := by
  have hf := h.reader
  have hfit := h.readerFits
  rw [hpc] at hf hfit
  obtain ⟨hw, hown⟩ := hf
  obtain ⟨hmin, hreq, hdest⟩ := hfit r rfl
  refine h.release hw.counted_eq.le ?_ ⟨hw.last hown, ?_, by simp⟩ h.reads
  · rw [hpc]; rfl
  · intro r' hr'
    cases hr'
    have := hw.part
    refine ⟨?_, hreq, hdest⟩
    show r.offset + r.rightSpace + (r.bytes - r.rightSpace) =
      min r.call.available r.call.requested
    omega

theorem reader_secondCopy (h : RingInv c s) (hpc : s.reader = .secondCopy r index) :
    RingInv c { s with
      reader := .loadIndex
        { r with call := r.call.receive (Ring.load s.buffer.data index r.bytes) } } := by
  have hf := h.reader
  have hfit := h.readerFits
  rw [hpc] at hf hfit
  obtain ⟨hw, rfl⟩ := hf
  obtain ⟨hmin, hreq, hdest⟩ := hfit r rfl
  obtain ⟨hcopied, hcounted⟩ := hw.copied
  refine h.deliver hw.own_eq hw.room hw.inside.le ?_
    ⟨⟨hcopied.1, hcopied.2, hcopied.3, hcopied.4, hcopied.5⟩, hcounted⟩ ?_ (by simp)
  · rw [hpc]; rfl
  · intro r' hr'
    cases hr'
    refine ⟨hmin, hreq, ?_⟩
    simp [ReadCall.receive, hdest, TransferPc.moved]

theorem reader_addSize (h : RingInv c s) (hpc : s.reader = .addSize r) :
    RingInv c { s with
      buffer := s.buffer.fetchSub r.bytes
      reader := .idle
      history := { s.history with
        released := s.history.released + r.bytes
        reads := s.history.reads ++
          [{ requested := r.call.requested, available := r.call.available
             returned :=
              if sizeT (r.bytes + r.rightSpace) = 0 then sizeT (-1)
              else sizeT (r.bytes + r.rightSpace)
             bytes := r.call.destination }] } } := by
  have hf := h.reader
  have hfit := h.readerFits
  rw [hpc] at hf hfit
  obtain ⟨hw, hown⟩ := hf
  obtain ⟨hmin, hreq, hdest⟩ := hfit r rfl
  have hret : sizeT ((r.bytes : Int) + r.rightSpace) = r.call.destination.length := by
    have := hw.bytes_le
    have := h.bound
    unfold MAX_CAPACITY at this
    rw [hdest]
    exact sizeT_eq (by rw [TransferPc.moved, hw.offset_eq]; push_cast; omega)
      (by rw [TransferPc.moved]; omega)
  refine h.release hw.counted_eq.le ?_
    ⟨⟨hw.counted_eq, hown⟩, by simp [TransferPc.registers], by simp⟩ ?_
  · rw [hpc, List.flatMap_append]
    simp [ReaderPc.delivered, TransferPc.registers]
  · intro r' hr'
    rcases List.mem_append.mp hr' with hr' | hr'
    · exact h.reads r' hr'
    · rw [List.mem_singleton.mp hr', hret]
      refine ⟨hdest.trans hmin, ?_⟩
      simp [hreq]

end Read

theorem readerStep_inv (h : RingInv c s) (hs : readerStep s = some t) : RingInv c t := by
  have hf := h.reader
  have hfit := h.readerFits
  cases readerStep_cases hs with
  | again call waits hpc =>
    rw [hpc] at hf
    obtain ⟨hreq, hdest⟩ := h.readerCall call waits hpc
    refine h.setReader (by rw [hpc]; rfl) ⟨hf, by simp [TransferPc.registers], ?_⟩
    intro call' waits' hcall
    cases hcall
    exact ⟨hreq, hdest⟩
  | start call waits hpc => exact h.reader_start hpc
  | compareOwn r hpc =>
    rw [hpc] at hf hfit
    exact h.setReader (by rw [hpc]; rfl) ⟨⟨hf.1, hf.2, rfl⟩, hfit, by simp⟩
  | notBehind r read hpc =>
    rw [hpc] at hf hfit
    exact h.setReader (by rw [hpc]; rfl) ⟨⟨hf.1, hf.2.1⟩, hfit, by simp⟩
  | behind r read hpc hlt => exact h.reader_behind hpc hlt
  | toEnd r hpc hle => exact h.reader_toEnd hpc hle
  | notToEnd r hpc hgt => exact h.reader_notToEnd hpc hgt
  | firstPointer r hpc =>
    rw [hpc] at hf hfit
    exact h.setReader (by rw [hpc]; rfl) ⟨⟨hf.1, hf.2.1, hf.2.2, rfl⟩, hfit, by simp⟩
  | firstCopy r index hpc => exact h.reader_firstCopy hpc
  | wrapIndex r hpc =>
    rw [hpc] at hf hfit
    exact h.setReader (by rw [hpc]; rfl) ⟨⟨hf.1, hf.1.wrapped.symm⟩, hfit, by simp⟩
  | wrapSize r hpc => exact h.reader_wrapSize hpc
  | secondPointer r hpc =>
    rw [hpc] at hf hfit
    exact h.setReader (by rw [hpc]; rfl) ⟨⟨hf, rfl⟩, hfit, by simp⟩
  | secondCopy r index hpc => exact h.reader_secondCopy hpc
  | loadIndex r hpc =>
    rw [hpc] at hf hfit
    exact h.setReader (by rw [hpc]; rfl) ⟨⟨hf.1, hf.2, rfl⟩, hfit, by simp⟩
  | storeIndex r index hpc =>
    rw [hpc] at hf hfit
    obtain ⟨hw, hown, rfl⟩ := hf
    exact h.setReader (by rw [hpc]; rfl) ⟨⟨hw, hw.index h.bound hown⟩, hfit, by simp⟩
  | addSize r hpc => exact h.reader_addSize hpc

theorem ringStep_inv (h : RingInv c s) {a : RingAction} (hs : ringStep s a = some t) :
    RingInv c t := by
  cases a with
  | write data => exact h.writerCall_inv hs
  | writerStep => exact h.writerStep_inv hs
  | read requested => exact h.readerCall_inv hs
  | readerStep => exact h.readerStep_inv hs

/-- No assertion of `_pointer_to` fails: a party inside a call can always make its access. -/
theorem writerStep_isSome (h : RingInv c s) (hbusy : s.writer ≠ .idle) :
    (writerStep s).isSome := by
  have hlt : s.buffer.write ≤ s.buffer.capacity := by
    rw [h.capacity]; exact (h.writer.own_lt h.pos).le
  cases hpc : s.writer with
  | idle => exact absurd hpc hbusy
  | space _ _ | compareOther _ _ | right _ =>
    simp only [writerStep, hpc]
    split <;> rfl
  | firstPointer _ | secondPointer _ => simp [writerStep, hpc, hlt]
  | _ => simp [writerStep, hpc]

theorem readerStep_isSome (h : RingInv c s) (hbusy : s.reader ≠ .idle) :
    (readerStep s).isSome := by
  have hlt : s.buffer.read ≤ s.buffer.capacity := by
    rw [h.capacity]; exact (h.reader.own_lt h.pos).le
  cases hpc : s.reader with
  | idle => exact absurd hpc hbusy
  | space _ _ | compareOther _ _ | right _ =>
    simp only [readerStep, hpc]
    split <;> rfl
  | firstPointer _ | secondPointer _ => simp [readerStep, hpc, hlt]
  | _ => simp [readerStep, hpc]

end RingInv

end Tssx
