import Tssx.Connection.BlockingWrite

/-!
# Transfers in one piece

`buffer_write` publishes the bytes up to the end of the memory first.  A call whose bytes do not
cross the end publishes all of them at once: in every state of the call the reader finds none of
them or all (`Sending.published`).  A `buffer_read` that finds all the bytes it asks for returns
that many (`Receiving.step`).
-/

namespace Tssx

/-- The writer is inside a call with `data`, has published `start` bytes before it, and publishes
its own at once. -/
structure Sending (start : Nat) (data : List UInt8) (writer : WriterPc) (published : Nat) :
    Prop where
  busy : writer ≠ .idle
  space : ∀ call waits, writer = .space call waits → call = data ∧ published = start
  registers : ∀ r ∈ writer.registers, r.call = data ∧ r.offset + r.bytes = data.length ∧
    published = start + r.offset ∧ (r.offset = 0 ∨ r.offset = data.length) ∧
    (r.rightSpace = 0 ∨ r.rightSpace = data.length)

/-- The reader is inside a call for `requested` bytes, has released `start` bytes before it, and
finds as many as it asks for. -/
structure Receiving (start requested : Nat) (reader : ReaderPc) (released : Nat) : Prop where
  busy : reader ≠ .idle
  space : ∀ call waits, reader = .space call waits →
    call.requested = requested ∧ released = start
  registers : ∀ r ∈ reader.registers, r.call.requested = requested ∧
    requested ≤ r.call.available ∧ released = start + r.offset

section Ring

variable {c start requested : Nat} {data : List UInt8} {ring ring' : RingState}

theorem sending_of_registers {pc : WriterPc} {published : Nat} {r : Registers (List UInt8)}
    (hreg : pc.registers = some r) (hcall : r.call = data)
    (hsum : r.offset + r.bytes = data.length) (hpub : published = start + r.offset)
    (hoffset : r.offset = 0 ∨ r.offset = data.length)
    (hright : r.rightSpace = 0 ∨ r.rightSpace = data.length) :
    Sending start data pc published where
  busy := by
    rintro rfl
    cases hreg
  space := by
    rintro call waits rfl
    cases hreg
  registers := by
    intro r' hr'
    rw [hreg] at hr'
    obtain rfl := Option.some.inj hr'
    exact ⟨hcall, hsum, hpub, hoffset, hright⟩

theorem receiving_of_registers {pc : ReaderPc} {released : Nat} {r : Registers ReadCall}
    (hreg : pc.registers = some r) (hrequested : r.call.requested = requested)
    (havailable : requested ≤ r.call.available) (hrel : released = start + r.offset) :
    Receiving start requested pc released where
  busy := by
    rintro rfl
    cases hreg
  space := by
    rintro call waits rfl
    cases hreg
  registers := by
    intro r' hr'
    rw [hreg] at hr'
    obtain rfl := Option.some.inj hr'
    exact ⟨hrequested, havailable, hrel⟩

/-- **Nothing or everything** of the call is published. -/
theorem Sending.published {writer : WriterPc} {published : Nat}
    (h : Sending start data writer published) :
    published = start ∨ published = start + data.length := by
  cases hreg : writer.registers with
  | some r =>
    obtain ⟨-, -, hpub, hoffset, -⟩ := h.registers r hreg
    rcases hoffset with hoffset | hoffset
    · exact .inl (by omega)
    · exact .inr (by omega)
  | none =>
    refine .inl ?_
    cases writer with
    | idle => exact absurd rfl h.busy
    | space call waits => exact (h.space call waits rfl).2
    | _ => cases hreg

theorem Receiving.released_le {reader : ReaderPc} {released : Nat}
    (h : Receiving start requested reader released) : start ≤ released := by
  cases hreg : reader.registers with
  | some r =>
    obtain ⟨-, -, hrel⟩ := h.registers r hreg
    omega
  | none =>
    cases reader with
    | idle => exact absurd rfl h.busy
    | space call waits => exact (h.space call waits rfl).2.ge
    | _ => cases hreg

/-- **An access of a write in one piece**, which finds room for all of its data. -/
theorem Sending.step (h : Sending start data ring.writer ring.history.published)
    (hr : RingInv c ring) (hend : start % c + data.length ≤ c)
    (hroom : start + data.length ≤ ring.history.released + c) (hdata : data ≠ [])
    (hstep : writerStep ring = some ring') :
    Sending start data ring'.writer ring'.history.published ∨
      ring'.writer = .idle ∧ ring'.history.published = start + data.length ∧
        ring'.history.writes = ring.history.writes ++ [(data, data.length)] := by
  have hpos : 0 < data.length := List.length_pos_iff.mpr hdata
  have hf := hr.writer
  cases writerStep_cases hstep with
  | again call waits hpc hwait =>
    obtain ⟨-, hpub⟩ := h.space call waits hpc
    have hfree := hr.freeSpace
    omega
  | start call waits hpc hgo =>
    obtain ⟨rfl, hpub⟩ := h.space call waits hpc
    have hfree := hr.freeSpace
    refine .inl (sending_of_registers rfl rfl ?_ hpub (.inl rfl) (.inl rfl))
    show 0 + min (getAvailableSpace ring.buffer .write) call.length = call.length
    omega
  | toEnd r hpc hle =>
    rw [hpc] at hf h
    obtain ⟨hcall, hsum, hpub, hoffset, -⟩ := h.registers r rfl
    obtain ⟨hwhole, -⟩ := hf
    have hown : ring.buffer.write = start % c := by
      rw [hwhole.own_eq, ← hwhole.counted_eq, hpub, hwhole.offset_eq, Nat.add_zero]
    have hright : sizeT (ring.buffer.capacity - ring.buffer.write) = c - ring.buffer.write := by
      have hb := hr.bound
      unfold MAX_CAPACITY at hb
      rw [hr.capacity]
      exact sizeT_eq (by omega) (by omega)
    refine .inl (sending_of_registers rfl hcall hsum hpub hoffset (.inr ?_))
    -- the call reaches the end of the memory, and does not go beyond it
    have hzero := hwhole.offset_eq
    show sizeT (ring.buffer.capacity - ring.buffer.write) = data.length
    omega
  | wrapSize r hpc =>
    rw [hpc] at hf h
    obtain ⟨hcall, hsum, hpub, -, hright⟩ := h.registers r rfl
    have hzero := hf.1.offset_eq
    have hpart := hf.1.part
    refine .inl (sending_of_registers rfl hcall ?_ ?_ ?_ hright)
    · show r.offset + r.rightSpace + (r.bytes - r.rightSpace) = data.length
      omega
    · show ring.history.published + r.rightSpace = start + (r.offset + r.rightSpace)
      omega
    · show r.offset + r.rightSpace = 0 ∨ r.offset + r.rightSpace = data.length
      omega
  | addSize r hpc =>
    rw [hpc] at hf h
    obtain ⟨hcall, hsum, hpub, -, -⟩ := h.registers r rfl
    have hoffset := hf.1.offset_eq
    have hle := hf.1.bytes_le
    have hb := hr.bound
    unfold MAX_CAPACITY at hb
    have hreturned : sizeT ((r.bytes : Int) + r.rightSpace) = data.length := by
      rw [sizeT_eq (n := r.offset + r.bytes) (by rw [hoffset]; push_cast; omega) (by omega)]
      exact hsum
    refine .inr ⟨rfl, ?_, ?_⟩
    · show ring.history.published + r.bytes = start + data.length
      omega
    · show ring.history.writes ++ [(r.call, sizeT ((r.bytes : Int) + r.rightSpace))] = _
      rw [hreturned, hcall]
  | compareOwn r hpc | notBehind r _ hpc | behind r _ hpc | notToEnd r hpc | firstPointer r hpc
  | firstCopy r _ hpc | wrapIndex r hpc | secondPointer r hpc | secondCopy r _ hpc
  | loadIndex r hpc | storeIndex r _ hpc =>
    rw [hpc] at h
    obtain ⟨hcall, hsum, hpub, hoffset, hright⟩ := h.registers r rfl
    exact .inl (sending_of_registers rfl hcall hsum hpub hoffset hright)

/-- **An access of a blocking read** that finds nothing or all it asks for. -/
theorem Receiving.step (h : Receiving start requested ring.reader ring.history.released)
    (hr : RingInv c ring) (hblocking : ring.buffer.timeouts.nonBlocking .read = false)
    (hall : ring.history.published ≤ start ∨ start + requested ≤ ring.history.published)
    (hrequested : requested ≠ 0) (hstep : readerStep ring = some ring') :
    Receiving start requested ring'.reader ring'.history.released ∨
      ring'.reader = .idle ∧ ring'.history.released = start + requested ∧
        ∃ record, ring'.history.reads = ring.history.reads ++ [record] ∧
          record.returned = requested := by
  have hf := hr.reader
  cases readerStep_cases hstep with
  | again call waits hpc =>
    obtain ⟨hcall, hrel⟩ := h.space call waits hpc
    refine .inl ⟨by simp, ?_, by simp [TransferPc.registers]⟩
    rintro _ _ ⟨rfl, rfl⟩
    exact ⟨hcall, hrel⟩
  | start call waits hpc hgo =>
    obtain ⟨hcall, hrel⟩ := h.space call waits hpc
    have hfound : getAvailableSpace ring.buffer .read ≠ 0 := fun h0 => hgo ⟨h0, hblocking⟩
    have hunread := hr.unread
    refine .inl (receiving_of_registers rfl hcall ?_ hrel)
    show requested ≤ getAvailableSpace ring.buffer .read
    omega
  | wrapSize r hpc =>
    rw [hpc] at h
    obtain ⟨hcall, havailable, hrel⟩ := h.registers r rfl
    refine .inl (receiving_of_registers rfl hcall havailable ?_)
    show ring.history.released + r.rightSpace = start + (r.offset + r.rightSpace)
    omega
  | addSize r hpc =>
    obtain ⟨hsum, -, -⟩ := hr.readerFits r (by rw [hpc]; rfl)
    rw [hpc] at hf h
    obtain ⟨hcall, havailable, hrel⟩ := h.registers r rfl
    have hoffset := hf.1.offset_eq
    have hle := hf.1.bytes_le
    have hb := hr.bound
    unfold MAX_CAPACITY at hb
    have htotal : sizeT ((r.bytes : Int) + r.rightSpace) = requested := by
      rw [sizeT_eq (n := r.offset + r.bytes) (by rw [hoffset]; push_cast; omega) (by omega)]
      omega
    refine .inr ⟨rfl, ?_, _, rfl, ?_⟩
    · show ring.history.released + r.bytes = start + requested
      omega
    · show (if sizeT ((r.bytes : Int) + r.rightSpace) = 0 then sizeT (-1)
        else sizeT ((r.bytes : Int) + r.rightSpace)) = requested
      rw [htotal, if_neg hrequested]
  | compareOwn r hpc | notBehind r _ hpc | behind r _ hpc | toEnd r hpc | notToEnd r hpc
  | firstPointer r hpc | firstCopy r _ hpc | wrapIndex r hpc | secondPointer r hpc
  | secondCopy r _ hpc | loadIndex r hpc | storeIndex r _ hpc =>
    rw [hpc] at h
    obtain ⟨hcall, havailable, hrel⟩ := h.registers r rfl
    exact .inl (receiving_of_registers rfl hcall havailable hrel)

end Ring

end Tssx
