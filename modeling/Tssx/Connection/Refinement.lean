import Tssx.Connection.Accesses

/-!
# The segment refines the two rings

`Sides` has two buffers that are apart from each other by construction, and a counter without
bounds.  In the segment all three are bytes in one array of the size that `create_connection`
has asked for, found by two processes that compute their pointers independently.
`segment_refines` says that this makes no difference in any interleaving: the run of the bytes
shows the run of the two rings, and stays inside the segment.

The invariant is that of the two rings, of what the bytes show (`SidesMemory.view`), with the
pointers of the sides that have not detached.
-/

namespace Tssx

/-- The capacities of the two buffers, that of a side being the one it writes. -/
def ConnectionOptions.capacity (options : ConnectionOptions) : Side → Nat
  | .server => options.serverBufferSize
  | .client => options.clientBufferSize

/-- What the bytes show, seen through the pointers of `connection`. -/
def SidesMemory.view (connection : Connection) (s : SidesMemory) : Sides where
  segment := { openCount := countAt s.memory connection.openCount, removed := s.removed }
  ring := fun side => (s.calls side).over (bufferAt s.memory (connection.buffer side))
  pc := s.pc
  reads := s.reads
  writes := s.writes

/-- A side has its pointers until it has detached, and the rings are in order. -/
structure Laid (options : ConnectionOptions) (connection : Connection) (s : SidesMemory) :
    Prop where
  pointers : ∀ side, s.pc side ≠ .closed → s.connection side = some connection
  sides : SidesInv options.capacity (s.view connection)

/-! ### Apart from each other -/

section Apart

variable {options : ConnectionOptions} {segmentId : Int} {memory memory' : SegmentBytes}
  {side : Side}

theorem count_before (segmentId : Int) (options : ConnectionOptions) (side : Side) :
    (Connection.placed segmentId options).openCount + sizeofCount .linux ≤
      (Connection.placed segmentId options).buffer side := by
  cases side with
  | server => exact Nat.le_refl _
  | client => simp only [Connection.placed, Connection.buffer, sizeofCount, SIZEOF_POINTER]; omega

theorem buffers_apart (segmentId : Int) (options : ConnectionOptions) (side : Side) :
    startPointer ((Connection.placed segmentId options).buffer side) + options.capacity side ≤
        (Connection.placed segmentId options).buffer side.peer ∨
      startPointer ((Connection.placed segmentId options).buffer side.peer) +
          options.capacity side.peer ≤
        (Connection.placed segmentId options).buffer side := by
  have hserver : startPointer ((Connection.placed segmentId options).buffer .server) +
      options.capacity .server ≤ (Connection.placed segmentId options).buffer .client := by
    simp only [Connection.placed, Connection.buffer, startPointer, ConnectionOptions.capacity]
    omega
  cases side with
  | server => exact .inl hserver
  | client => exact .inr hserver

theorem countAt_congr {openCount : Nat} (h : ∀ i, i < openCount + sizeofCount .linux →
    memory' i = memory i) : countAt memory' openCount = countAt memory openCount := by
  rw [countAt, Ring.load_congr fun i _ hi => h i hi, countAt]

theorem Outside.count (h : Outside ((Connection.placed segmentId options).buffer side)
    (options.capacity side) memory memory') :
    countAt memory' (Connection.placed segmentId options).openCount =
      countAt memory (Connection.placed segmentId options).openCount :=
  countAt_congr fun i hi => h i (.inl (hi.trans_le (count_before segmentId options side)))

theorem Outside.other (h : Outside ((Connection.placed segmentId options).buffer side)
    (options.capacity side) memory memory')
    (hc : capacityAt memory ((Connection.placed segmentId options).buffer side.peer) =
      options.capacity side.peer) :
    bufferAt memory' ((Connection.placed segmentId options).buffer side.peer) =
      bufferAt memory ((Connection.placed segmentId options).buffer side.peer) := by
  refine bufferAt_congr fun i hle hlt => h i ?_
  rw [hc] at hlt
  rcases buffers_apart segmentId options side with hbefore | hbehind
  · exact .inr (hbefore.trans hle)
  · exact .inl (hlt.trans_le hbehind)

theorem count_store (bytes : List UInt8) (h : bytes.length = sizeofCount .linux) (side : Side) :
    bufferAt (Ring.store memory (Connection.placed segmentId options).openCount bytes)
        ((Connection.placed segmentId options).buffer side) =
      bufferAt memory ((Connection.placed segmentId options).buffer side) := by
  have hbefore := count_before segmentId options side
  exact bufferAt_congr fun i hle _ => Ring.store_outside memory (by omega)

theorem countAt_store {openCount n : Nat} (h : n < 2 ^ 64) :
    countAt (Ring.store memory openCount (Bytes.bytes (sizeofCount .linux) n)) openCount = n := by
  have hload := Ring.load_store memory openCount (Bytes.bytes (sizeofCount .linux) n)
  rw [Bytes.length_bytes] at hload
  rw [countAt, hload, Bytes.value_bytes (by simpa [sizeofCount] using h)]

theorem countAt_lt {openCount : Nat} : countAt memory openCount < 2 ^ 64 := by
  have hlt := Bytes.value_lt (Ring.load memory openCount (sizeofCount .linux))
  rwa [Ring.load_length] at hlt

end Apart

/-! ### A step in the bytes -/

section Step

variable {options : ConnectionOptions} {segmentId : Int} {s t : SidesMemory} {side : Side}
  {memory : SegmentBytes} {calls : RingCalls}

theorem readerCallAt_over (requested : Nat) (buffer : Buffer) :
    (readerCallAt calls requested).map (fun c => c.over buffer) =
      readerCall (calls.over buffer) requested := by
  cases hpc : calls.reader with
  | idle =>
    simp only [readerCallAt, readerCall, RingCalls.over, hpc]
    split <;> rfl
  | _ => simp only [readerCallAt, readerCall, RingCalls.over, hpc, Option.map_none]

theorem writerCallAt_over (data : List UInt8) (buffer : Buffer) :
    (writerCallAt calls data).map (fun c => c.over buffer) =
      writerCall (calls.over buffer) data := by
  cases hpc : calls.writer with
  | idle =>
    simp only [writerCallAt, writerCall, RingCalls.over, hpc]
    split <;> rfl
  | _ => simp only [writerCallAt, writerCall, RingCalls.over, hpc, Option.map_none]

/-- Stores of a side into one buffer, seen through the pointers. -/
theorem view_ring (calls : RingCalls) (b : Side)
    (h : Outside ((Connection.placed segmentId options).buffer b)
      (options.capacity b) s.memory memory)
    (hc : capacityAt s.memory ((Connection.placed segmentId options).buffer b.peer) =
      options.capacity b.peer) :
    ({ s with memory, calls := Function.update s.calls b calls } : SidesMemory).view
        (.placed segmentId options) =
      { s.view (.placed segmentId options) with
        ring := Function.update (s.view (.placed segmentId options)).ring b
          (ringAt ((Connection.placed segmentId options).buffer b) (memory, calls)) } := by
  simp only [SidesMemory.view, h.count, Sides.mk.injEq, true_and, and_true]
  funext other
  rcases Side.eq_or_eq_peer other b with rfl | rfl
  · rw [Function.update_self, Function.update_self, ringAt]
  · rw [Function.update_of_ne b.peer_ne, Function.update_of_ne b.peer_ne, h.other hc]

theorem view_afterRead (peerGone : Bool)
    (h : Outside ((Connection.placed segmentId options).buffer side.peer)
      (options.capacity side.peer) s.memory memory)
    (hc : capacityAt s.memory ((Connection.placed segmentId options).buffer side) =
      options.capacity side) :
    (s.afterRead side peerGone memory calls).view (.placed segmentId options) =
      (s.view (.placed segmentId options)).afterRead side peerGone
        (ringAt ((Connection.placed segmentId options).buffer side.peer) (memory, calls)) := by
  have hring := view_ring calls side.peer h (by rwa [Side.peer_peer])
  unfold SidesMemory.afterRead Sides.afterRead
  rw [← hring]
  dsimp only [ringAt, RingCalls.over]
  cases hpc : calls.reader with
  | idle => cases hlast : calls.history.reads.getLast? <;> rfl
  | _ => rfl

theorem view_afterWrite (h : Outside ((Connection.placed segmentId options).buffer side)
      (options.capacity side) s.memory memory)
    (hc : capacityAt s.memory ((Connection.placed segmentId options).buffer side.peer) =
      options.capacity side.peer) :
    (s.afterWrite side memory calls).view (.placed segmentId options) =
      (s.view (.placed segmentId options)).afterWrite side
        (ringAt ((Connection.placed segmentId options).buffer side) (memory, calls)) := by
  have hring := view_ring calls side h hc
  unfold SidesMemory.afterWrite Sides.afterWrite
  rw [← hring]
  dsimp only [ringAt, RingCalls.over]
  cases hpc : calls.writer with
  | idle => cases hlast : calls.history.writes.getLast? <;> rfl
  | _ => rfl

namespace Laid

theorem capacity_eq (h : Laid options (.placed segmentId options) s) (side : Side) :
    capacityAt s.memory ((Connection.placed segmentId options).buffer side) =
      options.capacity side := (h.sides.ring side).capacity

theorem writer_copies (h : Laid options (.placed segmentId options) s) (side : Side) :
    ∀ i ∈ (s.calls side).writer.copies,
      i < capacityAt s.memory ((Connection.placed segmentId options).buffer side) := by
  intro i hi
  rw [h.capacity_eq]
  exact ((h.sides.ring side).writerFree hi).1

theorem reader_copies (h : Laid options (.placed segmentId options) s) (side : Side) :
    ∀ i ∈ (s.calls side).reader.copies,
      i < capacityAt s.memory ((Connection.placed segmentId options).buffer side) := by
  intro i hi
  have hring := h.sides.ring side
  obtain ⟨k, -, -, rfl⟩ := hring.mem_live.mp (hring.readerPublished hi)
  rw [h.capacity_eq]
  exact Nat.mod_lt _ hring.pos

theorem outside_write (h : Laid options (.placed segmentId options) s) (side : Side)
    (hs : writerStepAt ((Connection.placed segmentId options).buffer side) s.memory
      (s.calls side) = some (memory, calls)) :
    Outside ((Connection.placed segmentId options).buffer side) (options.capacity side)
      s.memory memory := by
  rw [← h.capacity_eq side]
  exact writerStepAt_outside (h.writer_copies side) hs

theorem outside_read (h : Laid options (.placed segmentId options) s) (side : Side)
    (hs : readerStepAt ((Connection.placed segmentId options).buffer side) s.memory
      (s.calls side) = some (memory, calls)) :
    Outside ((Connection.placed segmentId options).buffer side) (options.capacity side)
      s.memory memory := by
  rw [← h.capacity_eq side]
  exact readerStepAt_outside hs

/-- The counter in the bytes is the number of the sides that have not made their decrement. -/
theorem count_eq (h : Laid options (.placed segmentId options) s) (side : Side) :
    (countAt s.memory (Connection.placed segmentId options).openCount : Int) =
      (s.pc side).share + (s.pc side.peer).share := h.sides.count_eq side

theorem peerDied_eq (s : SidesMemory) (connection : Connection) :
    connectionPeerDied (s.view connection).segment =
      decide (countAt s.memory connection.openCount = 1) := by
  simp only [connectionPeerDied, SidesMemory.view, beq_eq_decide]
  exact decide_eq_decide.mpr (by omega)

theorem view_pc (s : SidesMemory) (connection : Connection) : (s.view connection).pc = s.pc := rfl

theorem view_ring_eq (s : SidesMemory) (connection : Connection) (side : Side) :
    (s.view connection).ring side =
      (s.calls side).over (bufferAt s.memory (connection.buffer side)) := rfl

theorem view_fetchSub
    (hcount : countAt s.memory (Connection.placed segmentId options).openCount ≠ 0) :
    ({ s with
      memory := fetchSubCountAt s.memory (Connection.placed segmentId options).openCount } :
        SidesMemory).view (.placed segmentId options) =
      { s.view (.placed segmentId options) with
        segment := (s.view (.placed segmentId options)).segment.fetchSub } := by
  have hlt : countAt s.memory (Connection.placed segmentId options).openCount < 2 ^ 64 :=
    countAt_lt
  simp only [SidesMemory.view, Segment.fetchSub, fetchSubCountAt, Sides.mk.injEq, and_true]
  rw [sizeT_eq (n := countAt s.memory (Connection.placed segmentId options).openCount - 1)
    (by omega) (by omega), countAt_store (by omega)]
  refine ⟨?_, ?_⟩
  · rw [Int.ofNat_sub (by omega)]
    rfl
  · funext side
    rw [count_store _ (Bytes.length_bytes _ _)]

/-- **A step in the bytes is the step of the two sides.** -/
theorem sideStepAt_view (h : Laid options (.placed segmentId options) s) (side : Side) :
    (sideStepAt s side).map (SidesMemory.view (.placed segmentId options)) =
      sideStep (s.view (.placed segmentId options)) side := by
  have hpointers := h.pointers side
  cases hpc : s.pc side with
  | closed | ready =>
    simp only [sideStep, view_pc, hpc]
    cases hconnection : s.connection side with
    | none => simp only [sideStepAt, hconnection, Option.bind_none, Option.map_none]
    | some connection =>
      simp only [sideStepAt, hconnection, hpc, Option.bind_some, Option.map_none]
  | checkRead requestedBytes =>
    rw [hpc] at hpointers
    simp only [sideStep, sideStepAt, view_pc, hpc, hpointers (by simp), Option.bind_some,
      peerDied_eq, decide_eq_true_eq]
    split
    · rfl
    · rw [view_ring_eq, ← readerCallAt_over, Option.map_map, Option.map_map]
      congr 1
      funext calls
      exact view_afterRead _ (fun _ _ => rfl) (h.capacity_eq side)
  | reading peerGone =>
    rw [hpc] at hpointers
    simp only [sideStep, sideStepAt, view_pc, hpc, hpointers (by simp), Option.bind_some,
      view_ring_eq]
    rw [← readerStepAt_over (h.reader_copies side.peer), Option.map_map, Option.map_map]
    refine Option.map_congr fun after hafter => ?_
    exact view_afterRead peerGone (h.outside_read side.peer hafter) (h.capacity_eq side)
  | checkWrite data =>
    rw [hpc] at hpointers
    simp only [sideStep, sideStepAt, view_pc, hpc, hpointers (by simp), Option.bind_some,
      peerDied_eq, decide_eq_true_eq]
    split
    · rfl
    · rw [view_ring_eq, ← writerCallAt_over, Option.map_map, Option.map_map]
      congr 1
      funext calls
      exact view_afterWrite (fun _ _ => rfl) (h.capacity_eq side.peer)
  | writing =>
    rw [hpc] at hpointers
    simp only [sideStep, sideStepAt, view_pc, hpc, hpointers (by simp), Option.bind_some,
      view_ring_eq]
    rw [← writerStepAt_over (h.writer_copies side), Option.map_map, Option.map_map]
    refine Option.map_congr fun after hafter => ?_
    exact view_afterWrite (h.outside_write side hafter) (h.capacity_eq side.peer)
  | subtract =>
    rw [hpc] at hpointers
    have hcount := h.count_eq side
    have hshare : 0 ≤ (s.pc side.peer).share := by
      unfold SidePc.share
      split <;> omega
    have hown : (s.pc side).share = 1 := by rw [hpc]; rfl
    have hsub : countAt s.memory (Connection.placed segmentId options).openCount ≠ 0 := by
      intro h0
      rw [h0] at hcount
      omega
    simp only [sideStep, sideStepAt, view_pc, hpc, hpointers (by simp), Option.bind_some,
      Option.map_some]
    exact congrArg (fun v : Sides => some (v.goto side .test)) (view_fetchSub hsub)
  | test =>
    rw [hpc] at hpointers
    have hcount : (s.view (.placed segmentId options)).segment.openCount = 0 ↔
        countAt s.memory (Connection.placed segmentId options).openCount = 0 := Int.natCast_eq_zero
    simp only [sideStep, sideStepAt, view_pc, hpc, hpointers (by simp), Option.bind_some, hcount]
    split <;> rfl

end Laid

/-- What a step of a side leaves alone: the pointers of the sides that have not closed, the other
side, and the bytes behind the segment. -/
structure KeptSegment (options : ConnectionOptions) (side : Side) (s t : SidesMemory) : Prop where
  connection : ∀ other, t.pc other ≠ .closed → t.connection other = s.connection other
  others : t.pc side.peer = s.pc side.peer
  behind : ∀ i, optionsSegmentSize .linux options ≤ i → t.memory i = s.memory i

theorem kept_afterRead (peerGone : Bool)
    (h : ∀ i, optionsSegmentSize .linux options ≤ i → memory i = s.memory i) :
    KeptSegment options side s (s.afterRead side peerGone memory calls) := by
  unfold SidesMemory.afterRead
  dsimp only
  split
  · exact ⟨fun _ _ => rfl, Function.update_of_ne side.peer_ne _ _, h⟩
  · exact ⟨fun _ _ => rfl, Function.update_of_ne side.peer_ne _ _, h⟩

theorem kept_afterWrite (h : ∀ i, optionsSegmentSize .linux options ≤ i → memory i = s.memory i) :
    KeptSegment options side s (s.afterWrite side memory calls) := by
  unfold SidesMemory.afterWrite
  dsimp only
  split
  · exact ⟨fun _ _ => rfl, Function.update_of_ne side.peer_ne _ _, h⟩
  · exact ⟨fun _ _ => rfl, Function.update_of_ne side.peer_ne _ _, h⟩

theorem Outside.behind (hfit : FitsInt .linux options)
    (h : Outside ((Connection.placed segmentId options).buffer side) (options.capacity side)
      s.memory memory) : ∀ i, optionsSegmentSize .linux options ≤ i → memory i = s.memory i := by
  intro i hi
  have hend := client_end hfit segmentId
  refine h i (.inr (le_trans ?_ hi))
  cases side with
  | server =>
    simp only [Connection.placed, Connection.buffer, startPointer, ConnectionOptions.capacity,
      sizeofCount, SIZEOF_POINTER] at hend ⊢
    omega
  | client =>
    simp only [Connection.placed, Connection.buffer, startPointer, ConnectionOptions.capacity,
      sizeofCount, SIZEOF_POINTER] at hend ⊢
    omega

theorem Laid.sideStepAt_kept (h : Laid options (.placed segmentId options) s)
    (hfit : FitsInt .linux options) (hs : sideStepAt s side = some t) :
    s.pc side ≠ .closed ∧ KeptSegment options side s t := by
  have hpointers := h.pointers side
  obtain ⟨connection, hconnection, hs⟩ := Option.bind_eq_some_iff.mp hs
  cases hpc : s.pc side with
  | closed | ready =>
    simp only [hpc] at hs
    cases hs
  | checkRead requestedBytes =>
    simp only [hpc] at hs
    split at hs
    · obtain rfl := Option.some.inj hs
      exact ⟨by simp, fun _ _ => rfl, Function.update_of_ne side.peer_ne _ _, fun _ _ => rfl⟩
    · obtain ⟨calls, -, rfl⟩ := Option.map_eq_some_iff.mp hs
      exact ⟨by simp, kept_afterRead _ fun _ _ => rfl⟩
  | reading peerGone =>
    rw [hpc] at hpointers
    obtain rfl := Option.some.inj (hconnection.symm.trans (hpointers (by simp)))
    simp only [hpc] at hs
    obtain ⟨⟨memory, calls⟩, hread, rfl⟩ := Option.map_eq_some_iff.mp hs
    exact ⟨by simp, kept_afterRead _ ((h.outside_read side.peer hread).behind hfit)⟩
  | checkWrite data =>
    simp only [hpc] at hs
    split at hs
    · obtain rfl := Option.some.inj hs
      exact ⟨by simp, fun _ _ => rfl, Function.update_of_ne side.peer_ne _ _, fun _ _ => rfl⟩
    · obtain ⟨calls, -, rfl⟩ := Option.map_eq_some_iff.mp hs
      exact ⟨by simp, kept_afterWrite fun _ _ => rfl⟩
  | writing =>
    rw [hpc] at hpointers
    obtain rfl := Option.some.inj (hconnection.symm.trans (hpointers (by simp)))
    simp only [hpc] at hs
    obtain ⟨⟨memory, calls⟩, hwrite, rfl⟩ := Option.map_eq_some_iff.mp hs
    exact ⟨by simp, kept_afterWrite ((h.outside_write side hwrite).behind hfit)⟩
  | subtract =>
    rw [hpc] at hpointers
    obtain rfl := Option.some.inj (hconnection.symm.trans (hpointers (by simp)))
    simp only [hpc] at hs
    obtain rfl := Option.some.inj hs
    refine ⟨by simp, fun _ _ => rfl, Function.update_of_ne side.peer_ne _ _, fun i hi => ?_⟩
    have hsize := hfit.size_eq
    show fetchSubCountAt s.memory (Connection.placed segmentId options).openCount i = s.memory i
    refine Ring.store_outside s.memory (.inr ?_)
    simp only [Bytes.length_bytes, Connection.placed]
    omega
  | test =>
    simp only [hpc] at hs
    have hdetached : ∀ other, Function.update s.pc side .closed other ≠ .closed →
        Function.update s.connection side none other = s.connection other := by
      intro other hother
      refine Function.update_of_ne ?_ _ _
      rintro rfl
      exact hother (Function.update_self ..)
    split at hs <;> obtain rfl := Option.some.inj hs
    · exact ⟨by simp, hdetached, Function.update_of_ne side.peer_ne _ _, fun _ _ => rfl⟩
    · exact ⟨by simp, hdetached, Function.update_of_ne side.peer_ne _ _, fun _ _ => rfl⟩

theorem view_call (s : SidesMemory) (connection : Connection) (side : Side) (pc : SidePc) :
    (s.call side pc).map (SidesMemory.view connection) = (s.view connection).call side pc := by
  unfold SidesMemory.call Sides.call
  rw [Laid.view_pc]
  split <;> rfl

theorem call_kept {pc : SidePc} (hs : s.call side pc = some t) :
    s.pc side ≠ .closed ∧ KeptSegment options side s t := by
  unfold SidesMemory.call at hs
  split at hs
  · rename_i hready
    obtain rfl := Option.some.inj hs
    exact ⟨by simp [hready], fun _ _ => rfl, Function.update_of_ne side.peer_ne _ _,
      fun _ _ => rfl⟩
  · cases hs

namespace Laid

theorem segmentStep_view (h : Laid options (.placed segmentId options) s) (a : SidesAction) :
    (segmentStep s a).map (SidesMemory.view (.placed segmentId options)) =
      sidesStep (s.view (.placed segmentId options)) a := by
  cases a with
  | read side _ | write side _ | close side => exact view_call ..
  | step side => exact h.sideStepAt_view side

theorem segmentStep_kept (h : Laid options (.placed segmentId options) s)
    (hfit : FitsInt .linux options) {a : SidesAction} (hs : segmentStep s a = some t) :
    ∃ side, s.pc side ≠ .closed ∧ KeptSegment options side s t := by
  cases a with
  | read side _ | write side _ | close side => exact ⟨side, call_kept hs⟩
  | step side => exact ⟨side, h.sideStepAt_kept hfit hs⟩

theorem segmentStep_laid (h : Laid options (.placed segmentId options) s)
    (hfit : FitsInt .linux options) {a : SidesAction} (hs : segmentStep s a = some t) :
    Laid options (.placed segmentId options) t := by
  obtain ⟨side, hopen, hkept⟩ := h.segmentStep_kept hfit hs
  refine ⟨fun other hother => ?_, ?_⟩
  · rw [hkept.connection other hother]
    refine h.pointers other ?_
    rcases Side.eq_or_eq_peer other side with rfl | rfl
    · exact hopen
    · rwa [hkept.others] at hother
  · have hview := h.segmentStep_view a
    rw [hs, Option.map_some] at hview
    exact h.sides.sidesStep_inv hview.symm

end Laid

end Step

/-! ### The new segment -/

section Start

variable {options : ConnectionOptions} {memory memory' : SegmentBytes} {buffer capacity : Nat}
  {timeouts : Timeouts}

theorem createBufferAt_outside (h : createBufferAt memory buffer capacity timeouts = some memory') :
    Outside buffer 0 memory memory' := by
  unfold createBufferAt at h
  split at h
  · obtain rfl := Option.some.inj h
    intro i hi
    have hlen := length_timeouts timeouts
    rw [startPointer, Nat.add_zero] at hi
    unfold SIZEOF_BUFFER at hi
    rw [bufferClearAt, Ring.store_outside _ (by rw [Bytes.length_bytes]; omega), storeSizeT,
      Ring.store_outside _ (by rw [Bytes.length_bytes, WRITE_INDEX]; omega), storeSizeT,
      Ring.store_outside _ (by rw [Bytes.length_bytes, READ_INDEX]; omega),
      Ring.store_outside _ (by rw [hlen, TIMEOUTS]; omega), storeSizeT,
      Ring.store_outside _ (by rw [Bytes.length_bytes, CAPACITY]; omega)]
  · cases h

theorem nonBlocking_bytes (timeouts : Timeouts) :
    nonBlockingAt (Ring.store memory (buffer + TIMEOUTS) timeouts.bytes) buffer =
      timeouts.nonBlocking := by
  have hread : timeouts.bytes[0]? = some (timeouts.nonBlocking .read).toUInt8 := rfl
  have hwrite : timeouts.bytes[1]? = some (timeouts.nonBlocking .write).toUInt8 := rfl
  have hstored := Ring.store_inside memory (p := buffer + TIMEOUTS) hread
  rw [Nat.add_zero] at hstored
  funext operation
  cases operation with
  | read =>
    rw [nonBlockingAt, hstored]
    cases timeouts.nonBlocking .read <;> rfl
  | write =>
    rw [nonBlockingAt, Ring.store_inside memory hwrite]
    cases timeouts.nonBlocking .write <;> rfl

theorem bufferClearAt_spec (memory : SegmentBytes) (buffer : Nat) :
    sizeAt (bufferClearAt memory buffer) buffer = 0 ∧
      readAt (bufferClearAt memory buffer) buffer = 0 ∧
      writeAt (bufferClearAt memory buffer) buffer = 0 ∧
      nonBlockingAt (bufferClearAt memory buffer) buffer = nonBlockingAt memory buffer := by
  have hsize : ∀ place, place + 8 ≤ buffer ∨ buffer + 4 ≤ place →
      loadSizeT (bufferClearAt memory buffer) place =
        loadSizeT (storeSizeT (storeSizeT memory (buffer + READ_INDEX) 0) (buffer + WRITE_INDEX) 0)
          place := by
    intro place hplace
    rw [bufferClearAt, loadSizeT_disjoint (by rwa [Bytes.length_bytes])]
  refine ⟨?_, ?_, ?_, ?_⟩
  · have hload := Ring.load_store (storeSizeT (storeSizeT memory (buffer + READ_INDEX) 0)
      (buffer + WRITE_INDEX) 0) buffer (Bytes.bytes 4 0)
    rw [Bytes.length_bytes] at hload
    rw [sizeAt, bufferClearAt, hload, Bytes.value_bytes (by decide)]
    rfl
  · rw [readAt, hsize _ (.inr (by simp [READ_INDEX])), storeSizeT,
      loadSizeT_disjoint (by simp [READ_INDEX, WRITE_INDEX]), loadSizeT_store (by decide)]
  · rw [writeAt, hsize _ (.inr (by simp [WRITE_INDEX])), loadSizeT_store (by decide)]
  · have hplace : bufferClearAt memory buffer = Ring.store
      (storeSizeT (storeSizeT memory (buffer + READ_INDEX) 0) (buffer + WRITE_INDEX) 0)
        (buffer + 0) (Bytes.bytes 4 0) := rfl
    rw [hplace, nonBlockingAt_other (.inl (by simp [TIMEOUTS])), storeSizeT,
      nonBlockingAt_other (.inr (by decide)), storeSizeT, nonBlockingAt_other (.inr (by decide))]

/-- **`create_buffer` makes a new buffer** over the bytes that are there. -/
theorem bufferAt_create (h : createBufferAt memory buffer capacity timeouts = some memory')
    (hc : capacity < 2 ^ 64) :
    bufferAt memory' buffer = .fresh (dataAt memory buffer capacity) capacity timeouts := by
  have hcapacity : capacityAt memory' buffer = capacity := (createBufferAt_spec h hc).2.1
  have hdata : dataAt memory' buffer capacity = dataAt memory buffer capacity := by
    funext i
    rw [dataAt, createBufferAt_outside h _ (.inr (by omega)), dataAt]
  unfold createBufferAt at h
  split at h
  · obtain rfl := Option.some.inj h
    obtain ⟨hsize, hread, hwrite, hnon⟩ := bufferClearAt_spec
      (Ring.store (storeSizeT memory (buffer + CAPACITY) capacity) (buffer + TIMEOUTS)
        timeouts.bytes) buffer
    simp only [bufferAt, Buffer.fresh, bufferClear, Buffer.mk.injEq, hcapacity, hdata, hread,
      hwrite, hnon, nonBlocking_bytes, and_true]
    exact hsize
  · cases h

theorem dataAt_congr {memory memory' : SegmentBytes}
    (h : ∀ i, startPointer buffer ≤ i → memory' i = memory i) :
    dataAt memory' buffer capacity = dataAt memory buffer capacity := by
  funext i
  rw [dataAt, h _ (Nat.le_add_right _ _), dataAt]

/-- The two new buffers, over the bytes that are in the segment. -/
def ConnectionOptions.buffers (options : ConnectionOptions) (memory : SegmentBytes) (side : Side) :
    Buffer :=
  .fresh (dataAt memory ((Connection.placed 0 options).buffer side) (options.capacity side))
    (options.capacity side) (options.timeouts side)

/-- What `create_connection` leaves in the segment. -/
structure Created (options : ConnectionOptions) (memory memory' : SegmentBytes) (count : Nat) :
    Prop where
  count : countAt memory' 0 = count
  buffers : ∀ side, bufferAt memory' ((Connection.placed 0 options).buffer side) =
    options.buffers memory side
  behind : ∀ i, optionsSegmentSize .linux options ≤ i → memory' i = memory i

theorem createConnectionIn_created (hs : 0 < options.serverBufferSize)
    (ht : 0 < options.clientBufferSize) (hfit : FitsInt .linux options) (segmentId : Int)
    (memory : SegmentBytes) : ∃ memory', createConnectionIn .linux segmentId memory options =
      some ((optionsSegmentSize .linux options : Int), .placed segmentId options, memory') ∧
      Created options memory memory' 1 := by
  have hsize := hfit.size_eq
  unfold FitsInt at hfit
  have htotal : int32 (optionsSegmentSize .linux options) =
      optionsSegmentSize .linux options := int32_eq (by omega) (by omega)
  have hcreate : ∀ m place capacity timeouts, 0 < capacity →
      ∃ m', createBufferAt m place capacity timeouts = some m' :=
    fun m place capacity timeouts hpos => ⟨_, if_pos hpos⟩
  obtain ⟨m₁, h₁⟩ := hcreate (Ring.store memory 0 (Bytes.bytes (sizeofCount .linux) 1))
    SIZEOF_POINTER options.serverBufferSize options.serverTimeouts hs
  have hoffset := clientBufferOffset_eq (createBufferAt_spec h₁ (by omega)).2.1 hs (by omega)
  obtain ⟨m₂, h₂⟩ := hcreate m₁ (SIZEOF_POINTER + (SIZEOF_BUFFER + options.serverBufferSize))
    options.clientBufferSize options.clientTimeouts ht
  have hcounted : ∀ i, SIZEOF_POINTER ≤ i →
      Ring.store memory 0 (Bytes.bytes (sizeofCount .linux) 1) i = memory i :=
    fun i hi => Ring.store_outside memory (by simpa [sizeofCount, SIZEOF_POINTER] using hi)
  have hserverData : dataAt (Ring.store memory 0 (Bytes.bytes (sizeofCount .linux) 1))
      SIZEOF_POINTER options.serverBufferSize = dataAt memory SIZEOF_POINTER _ :=
    dataAt_congr fun i hi => hcounted i (by unfold startPointer at hi; omega)
  have hbehind : ∀ i, SIZEOF_POINTER + SIZEOF_BUFFER ≤ i → m₁ i = memory i := fun i hi =>
    (createBufferAt_outside h₁ i (.inr hi)).trans (hcounted i (by omega))
  have hclientData : dataAt m₁ (SIZEOF_POINTER + (SIZEOF_BUFFER + options.serverBufferSize))
      options.clientBufferSize = dataAt memory _ _ :=
    dataAt_congr fun i hi => hbehind i (by unfold startPointer at hi; omega)
  have hserver := bufferAt_create h₁ (by omega)
  refine ⟨m₂, ?_, ?_, ?_, ?_⟩
  · simp only [createConnectionIn, htotal, Nat.zero_add, h₁, hoffset, h₂, Option.bind_some,
      Option.map_some]
    rw [if_neg (by omega)]
    rfl
  · have hfirst : ∀ i, i < SIZEOF_POINTER →
        m₂ i = Ring.store memory 0 (Bytes.bytes (sizeofCount .linux) 1) i := fun i hi =>
      (createBufferAt_outside h₂ i (.inl (by omega))).trans
        (createBufferAt_outside h₁ i (.inl hi))
    rw [countAt_congr fun i hi => hfirst i (by simpa [sizeofCount, SIZEOF_POINTER] using hi),
      countAt_store (by decide)]
  · intro side
    cases side with
    | server =>
      show bufferAt m₂ SIZEOF_POINTER = _
      rw [@bufferAt_congr m₁, hserver, hserverData]
      · rfl
      · intro i _ hlt
        refine createBufferAt_outside h₂ i (.inl ?_)
        rw [capacityAt, (createBufferAt_spec h₁ (by omega)).2.1, startPointer] at hlt
        omega
    | client =>
      show bufferAt m₂ (SIZEOF_POINTER + (SIZEOF_BUFFER + options.serverBufferSize)) = _
      rw [bufferAt_create h₂ (by omega), hclientData]
      rfl
  · intro i hi
    unfold SIZEOF_BUFFER at hsize
    simp only [sizeofCount] at hsize
    rw [createBufferAt_outside h₂ i (.inr (by
      unfold startPointer SIZEOF_BUFFER SIZEOF_POINTER; omega))]
    exact hbehind i (by unfold SIZEOF_BUFFER SIZEOF_POINTER; omega)

/-- **`setup_connection` by any process** that finds the capacities: it gets the same pointers,
adds itself to the counter and changes nothing else. -/
theorem setupConnectionIn_counted (hs : 0 < options.serverBufferSize)
    (hfit : FitsInt .linux options) (segmentId : Int) {count : Nat} (hcount : count + 1 < 2 ^ 64)
    (h : Created options memory memory' count) :
    ∃ counted, setupConnectionIn .linux segmentId memory' =
      some (.placed segmentId options, counted) ∧ Created options memory counted (count + 1) := by
  have hsize := hfit.size_eq
  have hbuffers : ∀ side, bufferAt (Ring.store memory' 0 (Bytes.bytes (sizeofCount .linux)
      (count + 1))) ((Connection.placed 0 options).buffer side) = options.buffers memory side := by
    intro side
    rw [← h.buffers side]
    exact count_store _ (Bytes.length_bytes _ _) side
  unfold FitsInt at hfit
  have hcapacity : (options.buffers memory .server).capacity = options.serverBufferSize := rfl
  rw [← hbuffers .server, bufferAt_capacity] at hcapacity
  have hoffset := clientBufferOffset_eq hcapacity hs (by omega)
  refine ⟨Ring.store memory' 0 (Bytes.bytes (sizeofCount .linux) (count + 1)), ?_,
    countAt_store hcount, hbuffers, ?_⟩
  · have hloaded : Bytes.value (Ring.load memory' 0 (sizeofCount .linux)) = count := h.count
    simp only [setupConnectionIn, hloaded, Nat.zero_add, hoffset, Option.map_some]
    rfl
  · intro i hi
    rw [Ring.store_outside memory' (by rw [Bytes.length_bytes]; omega), h.behind i hi]

/-- Both processes begin with the same pointers and two empty rings. -/
theorem connectIn_laid (hs : 0 < options.serverBufferSize) (ht : 0 < options.clientBufferSize)
    (hfit : FitsInt .linux options) (segmentId : Int) (memory : SegmentBytes) :
    ∃ s, connectIn segmentId memory options = some s ∧ Laid options (.placed segmentId options) s ∧
      s.view (.placed segmentId options) = .init (options.buffers memory) ∧
      ∀ i, optionsSegmentSize .linux options ≤ i → s.memory i = memory i := by
  obtain ⟨m₁, hcreate, hone⟩ := createConnectionIn_created hs ht hfit segmentId memory
  obtain ⟨m₂, hsetup, htwo⟩ := setupConnectionIn_counted hs hfit segmentId (by decide) hone
  have hview : (({ memory := m₂, removed := false
                   connection := fun _ => some (.placed segmentId options)
                   calls := fun _ => { writer := .idle, reader := .idle, history := {} }
                   pc := fun _ => .ready, reads := fun _ => [], writes := fun _ => [] } :
      SidesMemory).view (.placed segmentId options)) = .init (options.buffers memory) := by
    have hcount : countAt m₂ (Connection.placed segmentId options).openCount = 2 := htwo.count
    simp only [SidesMemory.view, hcount, Sides.init, Sides.mk.injEq, and_true]
    refine ⟨rfl, funext fun side => ?_⟩
    exact congrArg (RingCalls.over { writer := .idle, reader := .idle, history := {} })
      (htwo.buffers side)
  refine ⟨_, ?_, ⟨fun _ _ => rfl, ?_⟩, hview, htwo.behind⟩
  · simp only [connectIn, hcreate, hsetup, Option.bind_some, Option.map_some, ite_self]
  · rw [hview]
    unfold FitsInt at hfit
    refine @sidesInv_init (options.buffers memory) (fun side => ?_) fun side => ?_
    · cases side with
      | server => exact hs
      | client => exact ht
    · unfold MAX_CAPACITY
      cases side with
      | server =>
        show options.serverBufferSize ≤ _
        omega
      | client =>
        show options.clientBufferSize ≤ _
        omega

end Start

/-! ### Every run -/

/-- A state of the bytes is one of its segment: the sides that have not closed have the pointers
that `setup_connection` gives any other process, and nothing behind the segment has changed. -/
structure InSegment (options : ConnectionOptions) (segmentId : Int) (memory : SegmentBytes)
    (s : SidesMemory) : Prop where
  pointers : ∀ side, s.pc side ≠ .closed → s.connection side = some (.placed segmentId options)
  setup : ∀ other, ∃ counted,
    setupConnectionIn .linux other s.memory = some (.placed other options, counted)
  behind : ∀ i, optionsSegmentSize .linux options ≤ i → s.memory i = memory i

/-- **The segment refines the two rings.**  Every list of calls, accesses and hang-ups of the two
processes is a run of the bytes if and only if it is one of the rings, the bytes then show the state
of the rings, and no access leaves the segment. -/
theorem segment_refines {options : ConnectionOptions} (hs : 0 < options.serverBufferSize)
    (ht : 0 < options.clientBufferSize) (hfit : FitsInt .linux options) (segmentId : Int)
    (memory : SegmentBytes) : ∃ s, connectIn segmentId memory options = some s ∧
      ∀ actions,
        (Run.run segmentStep s actions).map (SidesMemory.view (.placed segmentId options)) =
          Run.run sidesStep (.init (options.buffers memory)) actions ∧
        ∀ t, Run.run segmentStep s actions = some t → InSegment options segmentId memory t := by
  obtain ⟨s, hconnect, hlaid, hview, hbehind⟩ := connectIn_laid hs ht hfit segmentId memory
  refine ⟨s, hconnect, fun actions => ⟨?_, fun t hrun => ?_⟩⟩
  · rw [← hview]
    exact Run.map_run (fun _ a h => h.segmentStep_view a)
      (fun _ _ _ h hstep => h.segmentStep_laid hfit hstep) hlaid
  · have hall : Laid options (.placed segmentId options) t ∧
        ∀ i, optionsSegmentSize .linux options ≤ i → t.memory i = memory i := by
      refine Run.run_induct (I := fun u => Laid options (.placed segmentId options) u ∧
        ∀ i, optionsSegmentSize .linux options ≤ i → u.memory i = memory i)
        (fun u a v hu hstep => ?_) ⟨hlaid, hbehind⟩ hrun
      obtain ⟨side, -, hkept⟩ := hu.1.segmentStep_kept hfit hstep
      exact ⟨hu.1.segmentStep_laid hfit hstep,
        fun i hi => (hkept.behind i hi).trans (hu.2 i hi)⟩
    refine ⟨hall.1.pointers, fun other => ?_, hall.2⟩
    exact @setupConnectionIn_eq _ _ _ hs hfit other (.placed other options) rfl
      (hall.1.capacity_eq .server)

/-- The client writes a byte, which the server reads. -/
private def oneByteAcross : List SidesAction :=
  .write .client [7] :: List.replicate 10 (.step .client) ++
    .read .server 1 :: List.replicate 9 (.step .server)

theorem segment_refines_at :
    ∃ s t, connectIn 3 (fun _ => 0) { serverBufferSize := 1, clientBufferSize := 2 } = some s ∧
      Run.run segmentStep s oneByteAcross = some t ∧
      (t.reads .server).map ReadRecord.bytes = [[7]] := by
  obtain ⟨s, hconnect, hruns⟩ := @segment_refines
    { serverBufferSize := 1, clientBufferSize := 2 } (by decide) (by decide)
    (by unfold FitsInt; decide) 3 (fun _ => 0)
  have habstract : ∃ u, Run.run sidesStep (.init (ConnectionOptions.buffers
      { serverBufferSize := 1, clientBufferSize := 2 } fun _ => 0)) oneByteAcross = some u ∧
      (u.reads .server).map ReadRecord.bytes = [[7]] := ⟨_, rfl, by decide⟩
  obtain ⟨u, hu, hbytes⟩ := habstract
  have hrun := (hruns oneByteAcross).1
  rw [hu] at hrun
  obtain ⟨t, ht, rfl⟩ := Option.map_eq_some_iff.mp hrun
  exact ⟨s, t, hconnect, ht, hbytes⟩

end Tssx
