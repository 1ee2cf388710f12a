import Tssx.Buffer.Invariant
import Tssx.Buffer.Sequential

/-!
# A party alone

`writer_alone` and `reader_alone`: a call of `Buffer/Sequential.lean` is the run of the
accesses of `Buffer/Transfer.lean` by one party, with the other one standing still wherever
it is.  `RingInv.writerReady` and `RingInv.readerReady`: what the invariant of all
interleavings says to a party that is between two calls.
-/

namespace Tssx

abbrev WriterAlone : RingState → RingState → Prop := Run.Reaches fun s (_ : Unit) => writerStep s

abbrev ReaderAlone : RingState → RingState → Prop := Run.Reaches fun s (_ : Unit) => readerStep s

section Alone

variable {s t : RingState}

/-! ### The writer -/

theorem writer_alone_right {r : Registers (List UInt8)} {part : Part}
    (hpc : s.writer = .compareOwn r) (hoffset : r.offset = 0) (hright : r.rightSpace = 0)
    (h : writeRight s.buffer r.call r.bytes = some part) :
    ∃ history, history.writes = s.history.writes ∧ part.data = r.call.drop part.rightSpace ∧
      WriterAlone s { s with
        buffer := part.buffer
        writer := .secondPointer { r with
          offset := part.rightSpace, bytes := part.bytes, rightSpace := part.rightSpace }
        history } := by
  obtain ⟨call, offset, bytes, rightSpace⟩ := r
  dsimp only at hoffset hright h
  subst hoffset hright
  unfold writeRight at h
  split at h
  · rename_i hle
    dsimp only at h
    split at h
    · rename_i hwrap
      obtain ⟨buffer, hcopy, rfl⟩ := Option.map_eq_some_iff.mp h
      obtain ⟨hin, rfl⟩ := copyIn_some hcopy
      refine ⟨{ s.history.place s.buffer.write
          (call.take (sizeT (s.buffer.capacity - s.buffer.write))) with
        published := s.history.published + sizeT (s.buffer.capacity - s.buffer.write) },
        rfl, rfl, List.replicate 7 (), ?_⟩
      simp only [Run.run, List.replicate, writerStep, hpc, hle, hwrap, hin, if_true,
        Option.bind_some, List.drop_zero, Nat.zero_add]
      rfl
    · rename_i hfits
      obtain rfl := Option.some.inj h
      refine ⟨s.history, rfl, rfl, List.replicate 3 (), ?_⟩
      simp only [Run.run, List.replicate, writerStep, hpc, hle, hfits, if_true, if_false,
        Option.bind_some]
  · rename_i hlt
    obtain rfl := Option.some.inj h
    refine ⟨s.history, rfl, rfl, List.replicate 2 (), ?_⟩
    simp only [Run.run, List.replicate, writerStep, hpc, hlt, if_false, Option.bind_some]

theorem writer_alone_last {r : Registers (List UInt8)} {after : Buffer}
    (hpc : s.writer = .secondPointer r)
    (h : copyIn s.buffer ((r.call.drop r.offset).take r.bytes) = some after) :
    ∃ history, history.writes = s.history.writes ++ [(r.call, sizeT (r.bytes + r.rightSpace))] ∧
      WriterAlone s { s with
        buffer := { after with write := sizeT (after.write + r.bytes) }.fetchAdd r.bytes
        writer := .idle
        history } := by
  obtain ⟨hin, rfl⟩ := copyIn_some h
  refine ⟨{ s.history.place s.buffer.write ((r.call.drop r.offset).take r.bytes) with
    published := s.history.published + r.bytes
    writes := s.history.writes ++ [(r.call, sizeT (r.bytes + r.rightSpace))] },
    rfl, List.replicate 5 (), ?_⟩
  simp only [Run.run, List.replicate, writerStep, hpc, hin, if_true, Option.bind_some]
  rfl

/-- **`buffer_write` alone**: the accesses of the writer make the call. -/
theorem writer_alone {data : List UInt8} {n : Nat} {after : Buffer} (hidle : s.writer = .idle)
    (h : bufferWrite s.buffer data = some (n, after)) :
    ∃ m t, writerCall s data = some m ∧ WriterAlone m t ∧ t.writer = .idle ∧ t.buffer = after ∧
      t.reader = s.reader ∧ t.history.writes = s.history.writes ++ [(data, n)] := by
  unfold bufferWrite at h
  split at h
  · rename_i hlen
    cases h
    have hcall : writerCall s data = some { s with
        history := { s.history with writes := s.history.writes ++ [(data, 0)] } } := by
      simp only [writerCall, hidle, hlen, if_true]
    exact ⟨_, _, hcall, .refl _, hidle, rfl, rfl, rfl⟩
  · rename_i hlen
    obtain ⟨availableSpace, hspace, h⟩ := Option.bind_eq_some_iff.mp h
    obtain ⟨part, hpart, h⟩ := Option.bind_eq_some_iff.mp h
    obtain ⟨buffer, hcopy, h⟩ := Option.map_eq_some_iff.mp h
    cases h
    unfold determineAvailableSpace at hspace
    dsimp only at hspace
    split at hspace
    · cases hspace
    · rename_i hfound
      obtain rfl := Option.some.inj hspace
      have hcall : writerCall s data = some { s with writer := .space data 0 } := by
        simp only [writerCall, hidle, hlen, if_false]
      let r : Registers (List UInt8) :=
        { call := data, offset := 0
          bytes := min (getAvailableSpace s.buffer .write) data.length, rightSpace := 0 }
      have hload : writerStep { s with writer := .space data 0 } =
          some { s with writer := .compareOwn r } := by
        simp only [writerStep, hfound, if_false]
        rfl
      obtain ⟨history, hwrites, hdata, hright⟩ :=
        @writer_alone_right { s with writer := .compareOwn r } r part rfl rfl rfl hpart
      rw [hdata] at hcopy
      obtain ⟨history', hwrites', hlast⟩ := writer_alone_last (s := { s with
        buffer := part.buffer
        writer := .secondPointer { r with
          offset := part.rightSpace, bytes := part.bytes, rightSpace := part.rightSpace }
        history }) rfl hcopy
      refine ⟨_, _, hcall, .head (a := ()) hload (hright.trans hlast), rfl, rfl, rfl, ?_⟩
      rw [hwrites', hwrites]

/-! ### The reader -/

theorem reader_alone_right {r : Registers ReadCall} {part : Part} (hpc : s.reader = .compareOwn r)
    (hoffset : r.offset = 0) (hright : r.rightSpace = 0)
    (h : readRight s.buffer r.bytes = some part) :
    ∃ history offset, history.reads = s.history.reads ∧
      ReaderAlone s { s with
        buffer := part.buffer
        reader := .secondPointer { r with
          call := r.call.receive part.data, offset, bytes := part.bytes
          rightSpace := part.rightSpace }
        history } := by
  obtain ⟨call, offset, bytes, rightSpace⟩ := r
  dsimp only at hoffset hright h
  subst hoffset hright
  have hsame : call.receive [] = call := by simp [ReadCall.receive]
  unfold readRight at h
  split at h
  · rename_i hle
    dsimp only at h
    split at h
    · rename_i hwrap
      obtain ⟨bytes, hcopy, rfl⟩ := Option.map_eq_some_iff.mp h
      obtain ⟨hin, rfl⟩ := copyOut_some hcopy
      refine ⟨{ s.history with
        released := s.history.released + sizeT (s.buffer.capacity - s.buffer.read) },
        0 + sizeT (s.buffer.capacity - s.buffer.read), rfl, List.replicate 7 (), ?_⟩
      simp only [Run.run, List.replicate, readerStep, hpc, hle, hwrap, hin, if_true,
        Option.bind_some]
    · rename_i hfits
      obtain rfl := Option.some.inj h
      refine ⟨s.history, 0, rfl, List.replicate 3 (), ?_⟩
      simp only [Run.run, List.replicate, readerStep, hpc, hle, hfits, if_true, if_false,
        Option.bind_some, hsame]
  · rename_i hlt
    obtain rfl := Option.some.inj h
    refine ⟨s.history, 0, rfl, List.replicate 2 (), ?_⟩
    simp only [Run.run, List.replicate, readerStep, hpc, hlt, if_false, Option.bind_some, hsame]

theorem reader_alone_last {r : Registers ReadCall} {bytes : List UInt8}
    (hpc : s.reader = .secondPointer r) (h : copyOut s.buffer r.bytes = some bytes) :
    ∃ history, history.reads = s.history.reads ++
        [{ requested := r.call.requested, available := r.call.available
           returned := if sizeT (r.bytes + r.rightSpace) = 0 then sizeT (-1)
             else sizeT (r.bytes + r.rightSpace)
           bytes := r.call.destination ++ bytes }] ∧
      ReaderAlone s { s with
        buffer := { s.buffer with read := sizeT (s.buffer.read + r.bytes) }.fetchSub r.bytes
        reader := .idle
        history } := by
  obtain ⟨hin, rfl⟩ := copyOut_some h
  refine ⟨{ s.history with released := s.history.released + r.bytes, reads := _ }, rfl,
    List.replicate 5 (), ?_⟩
  simp only [Run.run, List.replicate, readerStep, hpc, hin, if_true, Option.bind_some]
  rfl

theorem reader_alone {n : Nat} {result : CallResult} {after : Buffer} (hidle : s.reader = .idle)
    (h : bufferRead s.buffer n = some (result, after)) :
    ∃ m t record, readerCall s n = some m ∧ ReaderAlone m t ∧ t.reader = .idle ∧
      t.buffer = after ∧ t.writer = s.writer ∧ t.history.reads = s.history.reads ++ [record] ∧
      record.requested = n ∧ record.returned = result.returned ∧ record.bytes = result.bytes := by
  unfold bufferRead at h
  split at h
  · rename_i hzero
    subst hzero
    cases h
    have hcall : readerCall s 0 = some { s with
        history := { s.history with
          reads := s.history.reads ++
            [{ requested := 0, available := 0, returned := 0, bytes := [] }] } } := by
      simp only [readerCall, hidle, if_true]
    exact ⟨_, _, _, hcall, .refl _, hidle, rfl, rfl, rfl, rfl, rfl, rfl⟩
  · rename_i hzero
    obtain ⟨availableSpace, hspace, h⟩ := Option.bind_eq_some_iff.mp h
    obtain ⟨part, hpart, h⟩ := Option.bind_eq_some_iff.mp h
    obtain ⟨bytes, hcopy, h⟩ := Option.map_eq_some_iff.mp h
    cases h
    unfold determineAvailableSpace at hspace
    dsimp only at hspace
    split at hspace
    · cases hspace
    · rename_i hfound
      obtain rfl := Option.some.inj hspace
      have hcall : readerCall s n = some { s with reader := .space { requested := n } 0 } := by
        simp only [readerCall, hidle, hzero, if_false]
      let r : Registers ReadCall :=
        { call := { requested := n, available := getAvailableSpace s.buffer .read }, offset := 0
          bytes := min (getAvailableSpace s.buffer .read) n, rightSpace := 0 }
      have hload : readerStep { s with reader := .space { requested := n } 0 } =
          some { s with reader := .compareOwn r } := by
        simp only [readerStep, hfound, if_false]
        rfl
      obtain ⟨history, offset, hreads, hright⟩ :=
        @reader_alone_right { s with reader := .compareOwn r } r part rfl rfl rfl hpart
      obtain ⟨history', hreads', hlast⟩ := reader_alone_last (s := { s with
        buffer := part.buffer
        reader := .secondPointer { r with
          call := r.call.receive part.data, offset, bytes := part.bytes
          rightSpace := part.rightSpace }
        history }) rfl hcopy
      refine ⟨_, _, _, hcall, .head (a := ()) hload (hright.trans hlast), rfl, rfl, rfl,
        by rw [hreads', hreads], rfl, rfl, rfl⟩

end Alone

/-! ### Between two calls -/

/-- The published bytes that are not released. -/
def RingState.held (s : RingState) : List UInt8 :=
  (s.history.stream.drop s.history.released).take (s.history.published - s.history.released)

namespace RingInv

variable {c : Nat} {s : RingState}

theorem held_length (h : RingInv c s) :
    s.held.length = s.history.published - s.history.released := by
  have := h.published_le
  rw [RingState.held, List.length_take, List.length_drop]
  omega

theorem released_add_held (h : RingInv c s) :
    s.history.released + s.held.length = s.history.published := by
  have hle := h.released_le.trans h.delivered_le
  rw [h.held_length]
  omega

theorem holding (h : RingInv c s) : Holding c s.history.released s.buffer s.held where
  pos := h.pos
  bound := h.bound
  capacity := h.capacity
  size := by
    have := h.released_le.trans h.delivered_le
    have hs := h.size
    rw [h.held_length]
    omega
  room := by
    have := h.published_le.trans h.room
    rw [h.held_length]
    omega
  content := h.content.take _

theorem writerReady (h : RingInv c s) (hidle : s.writer = .idle) :
    WriterReady c s.history.released s.buffer s.held := by
  have hle := h.released_le
  have hdelivered := h.delivered_le
  have hfacts := h.writer
  rw [hidle] at hfacts
  obtain ⟨hcounted, hown⟩ := hfacts
  have hback := h.released_add_held
  refine { h.holding with write_eq := ?_, read_eq := ?_ }
  · rw [hback, hcounted]
    exact hown
  · rw [hback]
    rcases h.reader.own_eq with he | he
    · exact ⟨_, le_rfl, hle.trans hdelivered, he⟩
    · exact ⟨_, hle, hdelivered, he⟩

theorem readerReady (h : RingInv c s) (hidle : s.reader = .idle) :
    ReaderReady c s.history.released s.buffer s.held := by
  have hle := h.released_le.trans h.delivered_le
  have hpublished := h.published_le
  have hroom := h.room
  have hfacts := h.reader
  rw [hidle] at hfacts
  obtain ⟨hcounted, hown⟩ := hfacts
  have hback := h.released_add_held
  refine { h.holding with read_eq := ?_, write_eq := ?_ }
  · rw [hcounted]
    exact hown
  · rw [hback]
    rcases h.writer.own_eq with he | he
    · exact ⟨_, le_rfl, hpublished.trans hroom, he⟩
    · exact ⟨_, hpublished, hroom, he⟩

end RingInv

end Tssx
