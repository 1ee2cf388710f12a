import Tssx.Buffer.Invariant

/-!
# The ring buffer is safe for one writer and one reader

`RingSafe` is what the invariant says of a reachable state in the terms of the two parties.
A `buffer_write` may accept less than it was passed, so the stream that the reader sees is
the one of the accepted bytes.
-/

namespace Tssx

/-- The bytes passed to the writer's calls, the call in progress included. -/
def RingState.passed (s : RingState) : List UInt8 :=
  s.history.writes.flatMap Prod.fst ++
    match s.writer with
    | .space call _ => call
    | pc => (pc.registers.map Registers.call).getD []

/-- Safety of one state of a buffer of capacity `c`. -/
structure RingSafe (c : Nat) (s : RingState) : Prop where
  delivered : s.delivered <+: s.accepted
  writerFree : ∀ i ∈ s.writer.copies, i < c ∧ i ∉ s.live
  readerPublished : ∀ i ∈ s.reader.copies, i ∈ s.live
  size_nonneg : 0 ≤ s.buffer.size
  size_le : s.buffer.size ≤ c
  read_lt : s.buffer.read < c
  write_lt : s.buffer.write < c
  idle : s.writer = .idle → s.reader = .idle →
    (s.buffer.write : Int) = (s.buffer.read + s.buffer.size) % c ∧
      s.buffer.size = (s.accepted.length : Int) - s.delivered.length

variable {c : Nat} {s : RingState}

theorem RingInv.mem_live (h : RingInv c s) {i : Nat} :
    i ∈ s.live ↔ ∃ k, s.history.released ≤ k ∧ k < s.history.published ∧ i = k % c := by
  have hp := h.published_le
  rw [RingState.live, List.map_drop, List.map_take, h.indices, ← List.map_take, ← List.map_drop,
    List.take_range, Nat.min_eq_left hp]
  rw [List.mem_map]
  constructor
  · rintro ⟨k, hk, rfl⟩
    obtain ⟨j, hj⟩ := List.mem_iff_getElem?.mp hk
    rw [List.getElem?_drop] at hj
    obtain ⟨hlt, rfl⟩ := List.getElem?_eq_some_iff.mp hj
    rw [List.length_range] at hlt
    rw [List.getElem_range]
    exact ⟨_, Nat.le_add_right _ _, hlt, rfl⟩
  · rintro ⟨k, hk, hlt, rfl⟩
    refine ⟨k, List.mem_iff_getElem?.mpr ⟨k - s.history.released, ?_⟩, rfl⟩
    rw [List.getElem?_drop, Nat.add_sub_of_le hk, List.getElem?_range hlt]

theorem RingInv.placed_prefix (h : RingInv c s) : s.history.stream <+: s.accepted := by
  rw [h.stream, RingState.accepted]
  refine (List.prefix_append_right_inj _).mpr ?_
  have hf := h.writer
  cases hpc : s.writer with
  | idle | space _ _ => exact List.prefix_refl _
  | wrapIndex r | wrapSize r =>
    rw [hpc] at hf
    exact List.take_prefix_take_left (Nat.add_le_add_left hf.1.part _)
  | secondPointer r | secondCopy r _ =>
    exact List.take_prefix_take_left (Nat.le_add_right _ _)
  | _ => exact List.take_prefix_take_left (by simp [TransferPc.moved])

theorem RingInv.writerFree (h : RingInv c s) {i : Nat} (hi : i ∈ s.writer.copies) :
    i < c ∧ i ∉ s.live := by
  have hp := h.published_le
  have hf := h.writer
  have free : ∀ n j, s.history.stream.length % c + n ≤ c → j < n →
      s.history.stream.length + n ≤ s.history.released + c →
      s.history.stream.length % c + j < c ∧ s.history.stream.length % c + j ∉ s.live := by
    intro n j hend hj hroom
    refine ⟨by omega, ?_⟩
    intro hlive
    obtain ⟨k, hk, hlt, he⟩ := h.mem_live.mp hlive
    rw [← Ring.mod_add_of_lt (by omega)] at he
    have := Ring.mod_inj_of_window (s := s.history.released) (by omega) (by omega) hk (by omega) he
    omega
  cases hpc : s.writer with
  | firstCopy r index =>
    rw [hpc] at hf hi
    obtain ⟨hw, hr, hle, rfl⟩ := hf
    obtain ⟨h1, h2⟩ := Ring.mem_cells.mp hi
    have hroom := hw.room
    rw [hw.own_eq] at h1 h2 hr
    have := free r.rightSpace (i - s.history.stream.length % c) hr.le (by omega) (by omega)
    rwa [Nat.add_sub_of_le h1] at this
  | secondCopy r index =>
    rw [hpc] at hf hi
    obtain ⟨hw, rfl⟩ := hf
    obtain ⟨h1, h2⟩ := Ring.mem_cells.mp hi
    have hin := hw.inside
    rw [hw.own_eq] at h1 h2 hin
    have := free r.bytes (i - s.history.stream.length % c) hin.le (by omega) hw.room
    rwa [Nat.add_sub_of_le h1] at this
  | _ =>
    rw [hpc] at hi
    simp [TransferPc.copies] at hi

theorem RingInv.readerPublished (h : RingInv c s) {i : Nat} (hi : i ∈ s.reader.copies) :
    i ∈ s.live := by
  have hf := h.reader
  have hrel := h.released_le
  have live : ∀ n j, s.delivered.length % c + n ≤ c → j < n →
      s.delivered.length + n ≤ s.history.published → s.delivered.length % c + j ∈ s.live := by
    intro n j hend hj hroom
    refine h.mem_live.mpr ⟨s.delivered.length + j, by omega, by omega, ?_⟩
    exact (Ring.mod_add_of_lt (by omega)).symm
  cases hpc : s.reader with
  | firstCopy r index =>
    rw [hpc] at hf hi
    obtain ⟨hw, hr, hle, rfl⟩ := hf
    obtain ⟨h1, h2⟩ := Ring.mem_cells.mp hi
    have hroom := hw.room
    rw [hw.own_eq] at h1 h2 hr
    have := live r.rightSpace (i - s.delivered.length % c) hr.le (by omega) (by omega)
    rwa [Nat.add_sub_of_le h1] at this
  | secondCopy r index =>
    rw [hpc] at hf hi
    obtain ⟨hw, rfl⟩ := hf
    obtain ⟨h1, h2⟩ := Ring.mem_cells.mp hi
    have hin := hw.inside
    rw [hw.own_eq] at h1 h2 hin
    have := live r.bytes (i - s.delivered.length % c) hin.le (by omega) hw.room
    rwa [Nat.add_sub_of_le h1] at this
  | _ =>
    rw [hpc] at hi
    simp [TransferPc.copies] at hi

theorem RingInv.idle (h : RingInv c s) (hw : s.writer = .idle) (hr : s.reader = .idle) :
    (s.buffer.write : Int) = (s.buffer.read + s.buffer.size) % c ∧
      s.buffer.size = (s.accepted.length : Int) - s.delivered.length := by
  have hfw := h.writer
  have hfr := h.reader
  rw [hw] at hfw
  rw [hr] at hfr
  obtain ⟨hcw, how⟩ := hfw
  obtain ⟨hcr, hor⟩ := hfr
  have hacc : s.accepted = s.history.stream := by
    rw [h.stream, RingState.accepted, hw]
    rfl
  have hsize := h.size
  rw [hcw, hcr] at hsize
  refine ⟨?_, by rw [hacc]; exact hsize⟩
  rw [how, hor, hsize]
  push_cast
  rw [Int.emod_add_emod]
  congr 1
  omega

theorem RingInv.safe (h : RingInv c s) : RingSafe c s where
  delivered := by
    rw [h.delivered]
    exact (List.take_prefix _ _).trans h.placed_prefix
  writerFree := fun _ hi => h.writerFree hi
  readerPublished := fun _ hi => h.readerPublished hi
  size_nonneg := by
    have := h.released_le.trans h.delivered_le
    have := h.size
    omega
  size_le := by
    have := h.published_le.trans h.room
    have := h.size
    omega
  read_lt := h.reader.own_lt h.pos
  write_lt := h.writer.own_lt h.pos
  idle := h.idle

/-- **Single-writer, single-reader safety of the shared ring buffer**, in every state that
any interleaving of the accesses of the two parties reaches. -/
theorem ring_safe {buffer : Buffer} (hc : 1 ≤ buffer.capacity)
    (hb : buffer.capacity ≤ 2 ^ 31 - 1) (h : Run.Reaches ringStep (.init buffer) s) :
    RingSafe buffer.capacity s :=
  (h.induct (fun _ _ _ hi hs => RingInv.ringStep_inv hi hs) (ringInv_init hc hb)).safe

/-- A blocking write of three bytes that gets two, and a read of one of them. -/
theorem ring_safe_at :
    ∃ s, Run.run ringStep (.init (.fresh (fun _ => 0) 2 ⟨fun _ => false⟩))
        (.write [1, 2, 3] :: List.replicate 13 .writerStep ++ .read 1 ::
          List.replicate 8 .readerStep) = some s ∧
      s.delivered = [1] ∧ RingSafe 2 s := by
  have hrun : ∃ s, Run.run ringStep (.init (.fresh (fun _ => 0) 2 ⟨fun _ => false⟩))
      (.write [1, 2, 3] :: List.replicate 13 .writerStep ++ .read 1 ::
        List.replicate 8 .readerStep) = some s ∧ s.delivered = [1] := ⟨_, rfl, by decide⟩
  obtain ⟨s, hs, hd⟩ := hrun
  exact ⟨s, hs, hd, @ring_safe s (.fresh (fun _ => 0) 2 ⟨fun _ => false⟩) (by decide) (by decide)
    ⟨_, hs⟩⟩

/-- **The bytes passed are not the stream**: a short write in between leaves a gap. -/
theorem passed_not_prefix :
    ∃ s, Run.Reaches ringStep (.init (.fresh (fun _ => 0) 1 ⟨fun _ => true⟩)) s ∧
      ¬ s.delivered <+: s.passed :=
  ⟨_, ⟨.write [1, 2] :: List.replicate 13 .writerStep ++ .read 1 :: List.replicate 13 .readerStep ++
    .write [3] :: List.replicate 13 .writerStep ++ .read 1 :: List.replicate 13 .readerStep, rfl⟩,
    by decide⟩

end Tssx
