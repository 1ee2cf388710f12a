import Tssx.Connection.BlockingWrite
import Tssx.Connection.Ready

/-!
# What a side can do alone

A side *halts* where it waits in vain, is about to, or leaves.  A side that has not halted
comes nearer to the end of its call with every step of its own (`SidesInv.going_step`), so it
returns if it goes on alone (`SidesInv.run_ready`).

A side whose two operations do not block halts only by closing: `call_bounded` says that its
calls return after 14 steps of its own at most, in every interleaving.
-/

namespace Tssx

/-! ### Halted sides -/

/-- A load of the available space would find nothing, and the loop would go on. -/
def Sides.wouldStarve (s : Sides) (side : Side) : Operation → Bool
  | .read => getAvailableSpace (s.ring side.peer).buffer .read == 0 &&
      !(s.ring side.peer).buffer.timeouts.nonBlocking .read
  | .write => getAvailableSpace (s.ring side).buffer .write == 0 &&
      !(s.ring side).buffer.timeouts.nonBlocking .write

/-- By its own steps the side makes no copy any more and begins no call. -/
def Sides.halted (s : Sides) (side : Side) : Bool :=
  match s.pc side with
  | .ready => false
  | .checkRead requestedBytes => requestedBytes != 0 && s.wouldStarve side .read
  | .checkWrite data => data.length != 0 && s.wouldStarve side .write
  | .reading _ | .writing => s.starved side
  | .subtract | .test | .closed => true

/-- The own steps until the side is between two calls or has left. -/
def Sides.stepsLeft (s : Sides) (side : Side) : Nat :=
  match s.pc side with
  | .subtract => 2
  | .test => 1
  | _ => s.remaining side

/-- A side inside a transfer has a next access. -/
structure Engaged (s : Sides) (side : Side) : Prop where
  reading : ∀ peerGone, s.pc side = .reading peerGone → (s.ring side.peer).reader ≠ .idle
  writing : s.pc side = .writing → (s.ring side).writer ≠ .idle

section Step

variable {capacity : Side → Nat} {s t u : Sides} {side : Side} {ring : RingState}

theorem engaged_afterRead {peerGone : Bool} (h : ring.reader = .idle → ring.history.reads ≠ []) :
    Engaged (s.afterRead side peerGone ring) side := by
  rcases afterRead_pc s side peerGone h with ⟨-, hready⟩ | ⟨hbusy, hreading⟩
  · exact ⟨by simp [hready], by simp [hready]⟩
  · refine ⟨fun _ _ => ?_, by simp [hreading]⟩
    rw [Sides.afterRead_ring, Function.update_self]
    exact hbusy

theorem engaged_afterWrite (h : ring.writer = .idle → ring.history.writes ≠ []) :
    Engaged (s.afterWrite side ring) side := by
  rcases afterWrite_pc s side h with ⟨-, hready⟩ | ⟨hbusy, hwriting⟩
  · exact ⟨by simp [hready], by simp [hready]⟩
  · refine ⟨by simp [hwriting], fun _ => ?_⟩
    rw [Sides.afterWrite_ring, Function.update_self]
    exact hbusy

theorem Waiting.engaged (h : Waiting s t side) (he : Engaged s side) : Engaged t side := by
  refine ⟨fun peerGone hpc => ?_, fun hpc => ?_⟩
  · rw [h.reader]
    exact he.reading peerGone (h.pc.symm.trans hpc)
  · rw [h.writer]
    exact he.writing (h.pc.symm.trans hpc)

theorem Waiting.trans (h : Waiting s t side) (h' : Waiting t u side) : Waiting s u side where
  pc := h'.pc.trans h.pc
  reader := h'.reader.trans h.reader
  writer := h'.writer.trans h.writer
  available := fun operation => (h.available operation).trans (h'.available operation)
  gone := fun hg => h'.gone (h.gone hg)

theorem Waiting.refl (s : Sides) (side : Side) : Waiting s s side :=
  ⟨rfl, rfl, rfl, fun _ => le_rfl, id⟩

theorem sideStep_engaged (hs : sideStep s side = some t) : Engaged t side := by
  have hother : ∀ {u : Sides} {pc}, (∀ b, pc ≠ .reading b) → pc ≠ .writing →
      Engaged (u.goto side pc) side := by
    intro u pc hread hwrite
    refine ⟨fun b hpc => ?_, fun hpc => ?_⟩ <;>
      simp only [Sides.goto, Function.update_self] at hpc
    · exact absurd hpc (hread b)
    · exact absurd hpc hwrite
  cases sideStep_cases hs with
  | readCall _ _ _ _ hcall =>
    exact engaged_afterRead (begun_returned (readerCall_cases hcall).2.2.2.2)
  | readStep _ _ _ hstep => exact engaged_afterRead (readerStep_access hstep).returned
  | writeCall _ _ _ _ hcall =>
    exact engaged_afterWrite (begun_returned (writerCall_cases hcall).2.2.2.2)
  | writeStep _ _ hstep => exact engaged_afterWrite (writerStep_access hstep).returned
  | readGone | writeGone | subtract | destroy | leave => exact hother (by simp) (by simp)

theorem SidesInv.step_engaged (h : SidesInv capacity s) (he : ∀ b, Engaged s b) {a : SidesAction}
    (hs : sidesStep s a = some t) : ∀ b, Engaged t b := by
  intro b
  rcases Side.eq_or_eq_peer a.side b with ha | ha
  · have hcall : ∀ pc, (∀ g, pc ≠ .reading g) → pc ≠ .writing → s.call b pc = some t →
        Engaged t b := by
      intro pc hread hwrite hs
      unfold Sides.call at hs
      split at hs
      · obtain rfl := Option.some.inj hs
        refine ⟨fun g hpc => ?_, fun hpc => ?_⟩ <;>
          simp only [Sides.goto, Function.update_self] at hpc
        · exact absurd hpc (hread g)
        · exact absurd hpc hwrite
      · cases hs
    cases a with
    | read _ _ | write _ _ | close _ =>
      obtain rfl : _ = b := ha
      exact hcall _ (by simp) (by simp) hs
    | step _ =>
      obtain rfl : _ = b := ha
      exact sideStep_engaged hs
  · exact (h.peer_step ha hs).engaged (he b)

/-! ### Steps of a side that has not halted -/

theorem TransferPc.Moves.less_or {κ : Type} {starved : Prop} {pc pc' : TransferPc κ}
    (h : TransferPc.Moves starved pc pc') : pc'.remaining < pc.remaining ∨
      ((∃ call waits, pc = .space call waits) ∧ starved) ∧ pc'.remaining = pc.remaining := by
  cases h with
  | again call waits hstarved => exact .inr ⟨⟨⟨call, waits, rfl⟩, hstarved⟩, rfl⟩
  | start | finish => exact .inl (Nat.lt_succ_self _)
  | inside _ _ _ _ hless => exact .inl hless

theorem wouldStarve_read : s.wouldStarve side .read = true ↔
    getAvailableSpace (s.ring side.peer).buffer .read = 0 ∧
      (s.ring side.peer).buffer.timeouts.nonBlocking .read = false := by
  simp [Sides.wouldStarve]

theorem wouldStarve_write : s.wouldStarve side .write = true ↔
    getAvailableSpace (s.ring side).buffer .write = 0 ∧
      (s.ring side).buffer.timeouts.nonBlocking .write = false := by
  simp [Sides.wouldStarve]

theorem halted_ready (hpc : s.pc side = .ready) : s.halted side = false := by
  rw [Sides.halted, hpc]

/-- A transfer that has begun waits in vain only if its first load will. -/
theorem readerStarved_begun (hcase : ring.reader = .idle ∨
    ¬ (getAvailableSpace ring.buffer .read = 0 ∧
      ring.buffer.timeouts.nonBlocking .read = false)) : ring.readerStarved = false := by
  rw [← Bool.not_eq_true, readerStarved_iff]
  rintro ⟨⟨call, waits, hpc⟩, hempty⟩
  rcases hcase with hidle | hfinds
  · rw [hidle] at hpc
    cases hpc
  · exact hfinds hempty

theorem writerStarved_begun (hcase : ring.writer = .idle ∨
    ¬ (getAvailableSpace ring.buffer .write = 0 ∧
      ring.buffer.timeouts.nonBlocking .write = false)) : ring.writerStarved = false := by
  rw [← Bool.not_eq_true, writerStarved_iff]
  rintro ⟨⟨call, waits, hpc⟩, hempty⟩
  rcases hcase with hidle | hfinds
  · rw [hidle] at hpc
    cases hpc
  · exact hfinds hempty

theorem stepsLeft_afterRead {peerGone : Bool}
    (hret : ring.reader = .idle → ring.history.reads ≠ []) :
    (s.afterRead side peerGone ring).stepsLeft side = ring.reader.remaining := by
  have hring : (s.afterRead side peerGone ring).ring side.peer = ring := by
    rw [Sides.afterRead_ring, Function.update_self]
  rcases afterRead_pc s side peerGone hret with ⟨hidle, hready⟩ | ⟨-, hreading⟩
  · rw [Sides.stepsLeft, hready]
    dsimp only
    rw [remaining_ready hready, hidle]
    rfl
  · rw [Sides.stepsLeft, hreading]
    dsimp only
    rw [remaining_reading hreading, hring]

theorem stepsLeft_afterWrite (hret : ring.writer = .idle → ring.history.writes ≠ []) :
    (s.afterWrite side ring).stepsLeft side = ring.writer.remaining := by
  have hring : (s.afterWrite side ring).ring side = ring := by
    rw [Sides.afterWrite_ring, Function.update_self]
  rcases afterWrite_pc s side hret with ⟨hidle, hready⟩ | ⟨-, hwriting⟩
  · rw [Sides.stepsLeft, hready]
    dsimp only
    rw [remaining_ready hready, hidle]
    rfl
  · rw [Sides.stepsLeft, hwriting]
    dsimp only
    rw [remaining_writing hwriting, hring]

/-- **A step is one less**, unless it waits in vain. -/
theorem sideStep_left (hs : sideStep s side = some t) : t.stepsLeft side < s.stepsLeft side ∨
    s.starved side = true ∧ t.stepsLeft side = s.stepsLeft side := by
  have hgoto : ∀ (u : Sides) pc, (u.goto side pc).pc side = pc :=
    fun u pc => Function.update_self ..
  cases sideStep_cases hs with
  | readGone _ hpc | writeGone _ hpc =>
    rw [Sides.stepsLeft, Sides.stepsLeft, Sides.remaining, Sides.remaining, hgoto, hpc]
    exact .inl (Nat.zero_lt_succ _)
  | readCall n ring hpc hlive hcall =>
    obtain ⟨-, -, -, -, hcases⟩ := readerCall_cases hcall
    rw [stepsLeft_afterRead (begun_returned hcases), Sides.stepsLeft, Sides.remaining, hpc]
    rcases hcases with ⟨hidle, -⟩ | ⟨call, hspace⟩
    · rw [hidle]
      exact .inl (Nat.zero_lt_succ _)
    · rw [hspace]
      exact .inl (Nat.lt_succ_self _)
  | writeCall data ring hpc hlive hcall =>
    obtain ⟨-, -, -, -, hcases⟩ := writerCall_cases hcall
    rw [stepsLeft_afterWrite (begun_returned hcases), Sides.stepsLeft, Sides.remaining, hpc]
    rcases hcases with ⟨hidle, -⟩ | ⟨call, hspace⟩
    · rw [hidle]
      exact .inl (Nat.zero_lt_succ _)
    · rw [hspace]
      exact .inl (Nat.lt_succ_self _)
  | readStep peerGone ring hpc hstep =>
    have haccess := readerStep_access hstep
    rw [stepsLeft_afterRead haccess.returned, Sides.stepsLeft, hpc]
    dsimp only
    rw [remaining_reading hpc]
    refine haccess.moves.less_or.imp_right fun hwaits => ⟨?_, hwaits.2⟩
    rw [Sides.starved, readerStarved_iff.mpr hwaits.1, Bool.true_or]
  | writeStep ring hpc hstep =>
    have haccess := writerStep_access hstep
    rw [stepsLeft_afterWrite haccess.returned, Sides.stepsLeft, hpc]
    dsimp only
    rw [remaining_writing hpc]
    refine haccess.moves.less_or.imp_right fun hwaits => ⟨?_, hwaits.2⟩
    rw [Sides.starved, writerStarved_iff.mpr hwaits.1, Bool.or_true]
  | subtract hpc =>
    rw [Sides.stepsLeft, Sides.stepsLeft, hgoto, hpc]
    exact .inl (Nat.lt_succ_self 1)
  | destroy hpc | leave hpc =>
    rw [Sides.stepsLeft, Sides.stepsLeft, Sides.remaining, hgoto, hpc]
    exact .inl Nat.zero_lt_one

theorem unstarved_step (hst : s.starved side = false) (hs : sideStep s side = some t) :
    t.stepsLeft side < s.stepsLeft side :=
  (sideStep_left hs).resolve_right fun hwaits => Bool.false_ne_true (hst.symm.trans hwaits.1)

theorem SidesInv.afterRead_going {peerGone : Bool}
    (h : SidesInv capacity (s.afterRead side peerGone ring))
    (hret : ring.reader = .idle → ring.history.reads ≠ []) (hst : ring.readerStarved = false) :
    (s.afterRead side peerGone ring).halted side = false := by
  have hring : (s.afterRead side peerGone ring).ring side.peer = ring := by
    rw [Sides.afterRead_ring, Function.update_self]
  rcases afterRead_pc s side peerGone hret with ⟨hidle, hready⟩ | ⟨-, hreading⟩
  · exact halted_ready hready
  · have hw := h.writer_idle side (by rw [hreading]; simp)
    rw [Sides.halted, hreading]
    simp only [Sides.starved, hring, hst, RingState.writerStarved, hw, Bool.or_false]

theorem SidesInv.afterWrite_going (h : SidesInv capacity (s.afterWrite side ring))
    (hret : ring.writer = .idle → ring.history.writes ≠ []) (hst : ring.writerStarved = false) :
    (s.afterWrite side ring).halted side = false := by
  have hring : (s.afterWrite side ring).ring side = ring := by
    rw [Sides.afterWrite_ring, Function.update_self]
  rcases afterWrite_pc s side hret with ⟨hidle, hready⟩ | ⟨-, hwriting⟩
  · exact halted_ready hready
  · have hr := h.reader_idle side (by rw [hwriting]; simp)
    rw [Sides.halted, hwriting]
    simp only [Sides.starved, hring, hst, RingState.readerStarved, hr, Bool.false_or]

theorem SidesInv.unstarved (h : SidesInv capacity s) (hr : s.pc side ≠ .reading false)
    (hw : s.pc side ≠ .writing) : s.starved side = false := by
  have hreader := h.reader_idle side hr
  have hwriter := h.writer_idle side hw
  simp only [Sides.starved, RingState.readerStarved, RingState.writerStarved, hreader, hwriter,
    Bool.or_self]

theorem SidesInv.going_unstarved (h : SidesInv capacity s) (hh : s.halted side = false) :
    s.starved side = false := by
  cases hpc : s.pc side with
  | reading peerGone | writing =>
    rw [Sides.halted, hpc] at hh
    exact hh
  | _ => exact h.unstarved (by simp [hpc]) (by simp [hpc])

theorem SidesInv.engaged_step (h : SidesInv capacity s) (he : Engaged s side)
    (hready : s.pc side ≠ .ready) (hclosed : s.pc side ≠ .closed) :
    ∃ t, sideStep s side = some t := by
  rw [← Option.isSome_iff_exists]
  cases hpc : s.pc side with
  | ready => exact absurd hpc hready
  | closed => exact absurd hpc hclosed
  | subtract | test =>
    simp only [sideStep, hpc]
    first | rfl | (split <;> rfl)
  | checkRead n =>
    have hidle := h.reader_idle side (by rw [hpc]; simp)
    simp only [sideStep, hpc]
    split
    · rfl
    · simp only [Option.isSome_map, readerCall, hidle]
      split <;> rfl
  | checkWrite data =>
    have hidle := h.writer_idle side (by rw [hpc]; simp)
    simp only [sideStep, hpc]
    split
    · rfl
    · simp only [Option.isSome_map, writerCall, hidle]
      split <;> rfl
  | reading peerGone =>
    simp only [sideStep, hpc, Option.isSome_map]
    exact (h.ring side.peer).readerStep_isSome (he.reading peerGone hpc)
  | writing =>
    simp only [sideStep, hpc, Option.isSome_map]
    exact (h.ring side).writerStep_isSome (he.writing hpc)

theorem SidesInv.going_halted (h : SidesInv capacity s) (hh : s.halted side = false)
    (hs : sideStep s side = some t) : t.halted side = false := by
  have ht : SidesInv capacity t := h.sideStep_inv hs
  cases sideStep_cases hs with
  | readGone | writeGone => exact halted_ready (Function.update_self ..)
  | readCall n ring hpc hlive hcall =>
    obtain ⟨hbuffer, -, -, -, hcases⟩ := readerCall_cases hcall
    obtain ⟨-, hzero⟩ := readerCall_eq hcall
    rw [Sides.halted, hpc] at hh
    refine ht.afterRead_going (begun_returned hcases) (readerStarved_begun ?_)
    rcases hzero with ⟨rfl, rfl⟩ | ⟨hn, rfl⟩
    · exact .inl (readerCall_eq hcall).1
    · refine .inr fun hempty => ?_
      have hstarve := wouldStarve_read.mpr hempty
      simp [hn, hstarve] at hh
  | writeCall data ring hpc hlive hcall =>
    obtain ⟨hbuffer, -, -, -, hcases⟩ := writerCall_cases hcall
    obtain ⟨-, hzero⟩ := writerCall_eq hcall
    rw [Sides.halted, hpc] at hh
    refine ht.afterWrite_going (begun_returned hcases) (writerStarved_begun ?_)
    rcases hzero with ⟨hn, rfl⟩ | ⟨hn, rfl⟩
    · exact .inl (writerCall_eq hcall).1
    · refine .inr fun hempty => ?_
      have hstarve := wouldStarve_write.mpr hempty
      simp [hn, hstarve] at hh
  | readStep peerGone ring hpc hstep =>
    rw [Sides.halted, hpc, Sides.starved, Bool.or_eq_false_iff] at hh
    exact ht.afterRead_going (readerStep_access hstep).returned
      ((readerStep_space hstep).2 hh.1).1
  | writeStep ring hpc hstep =>
    rw [Sides.halted, hpc, Sides.starved, Bool.or_eq_false_iff] at hh
    exact ht.afterWrite_going (writerStep_access hstep).returned
      ((writerStep_space hstep).2 hh.2).1
  | subtract hpc | destroy hpc | leave hpc =>
    rw [Sides.halted, hpc] at hh
    cases hh

/-- **A side that has not halted comes nearer to the end of its call.** -/
theorem SidesInv.going_step (h : SidesInv capacity s) (hh : s.halted side = false)
    (hs : sideStep s side = some t) :
    t.halted side = false ∧ t.stepsLeft side < s.stepsLeft side :=
  ⟨h.going_halted hh hs, unstarved_step (h.going_unstarved hh) hs⟩

/-- **A side that has not halted comes back from its call** if it goes on alone. -/
theorem SidesInv.run_ready (h : SidesInv capacity s) (he : ∀ b, Engaged s b)
    (hh : s.halted side = false) :
    ∃ t, Run.Reaches sidesStep s t ∧ SidesInv capacity t ∧ Waiting s t side.peer ∧
      t.pc side = .ready := by
  induction hn : s.stepsLeft side using Nat.strong_induction_on generalizing s with
  | _ n ih =>
    by_cases hready : s.pc side = .ready
    · exact ⟨s, .refl s, h, .refl s side.peer, hready⟩
    · have hclosed : s.pc side ≠ .closed := by
        intro hpc
        rw [Sides.halted, hpc] at hh
        cases hh
      obtain ⟨m, hm⟩ := h.engaged_step (he side) hready hclosed
      have hstep : sidesStep s (.step side) = some m := hm
      obtain ⟨hgoing, hless⟩ := h.going_step hh hm
      obtain ⟨t, ht, hinv, hwait, htready⟩ := ih _ (by omega) (h.sidesStep_inv hstep)
        (h.step_engaged he hstep) hgoing rfl
      have hfirst : Waiting s m side.peer :=
        h.peer_step (by simp [SidesAction.side]) hstep
      exact ⟨t, .head hstep ht, hinv, hfirst.trans hwait, htready⟩

end Step

/-! ### Calls that do not block -/

/-- Neither of the side's two operations blocks. -/
def Sides.nonBlocking (s : Sides) (side : Side) : Prop :=
  (s.ring side.peer).buffer.timeouts.nonBlocking .read = true ∧
    (s.ring side).buffer.timeouts.nonBlocking .write = true

section NonBlocking

variable {capacity : Side → Nat} {s t : Sides} {side : Side}

theorem sidesStep_timeouts {a : SidesAction} (hs : sidesStep s a = some t) (b : Side) :
    (t.ring b).buffer.timeouts = (s.ring b).buffer.timeouts := by
  have hcall : ∀ side pc, s.call side pc = some t →
      (t.ring b).buffer.timeouts = (s.ring b).buffer.timeouts := by
    intro side pc hs
    unfold Sides.call at hs
    split at hs
    · obtain rfl := Option.some.inj hs
      rfl
    · cases hs
  cases a with
  | read side n => exact hcall side _ hs
  | write side data => exact hcall side _ hs
  | close side => exact hcall side _ hs
  | step side => exact sideStep_timeouts hs b

/-- A side that does not wait in vain is not brought to it by its peer. -/
theorem SidesInv.peer_unstarved (h : SidesInv capacity s) {a : SidesAction}
    (ha : a.side = side.peer) (hs : sidesStep s a = some t) (hst : s.starved side = false) :
    t.starved side = false := by
  have hwait := h.peer_step ha hs
  have hread := hwait.available .read
  have hwrite := hwait.available .write
  obtain ⟨hr, hw⟩ := Bool.or_eq_false_iff.mp hst
  rw [Sides.starved, Bool.or_eq_false_iff]
  constructor
  · by_contra hstarved
    obtain ⟨hpc, hempty, hblocking⟩ := readerStarved_iff.mp (Bool.not_eq_false _ |>.mp hstarved)
    rw [hwait.reader] at hpc
    rw [sidesStep_timeouts hs] at hblocking
    refine Bool.eq_false_iff.mp hr (readerStarved_iff.mpr ⟨hpc, ?_, hblocking⟩)
    exact Nat.eq_zero_of_le_zero (hread.trans hempty.le)
  · by_contra hstarved
    obtain ⟨hpc, hfull, hblocking⟩ := writerStarved_iff.mp (Bool.not_eq_false _ |>.mp hstarved)
    rw [hwait.writer] at hpc
    rw [sidesStep_timeouts hs] at hblocking
    refine Bool.eq_false_iff.mp hw (writerStarved_iff.mpr ⟨hpc, ?_, hblocking⟩)
    exact Nat.eq_zero_of_le_zero (hwrite.trans hfull.le)

theorem Sides.nonBlocking.step (h : s.nonBlocking side) {a : SidesAction}
    (hs : sidesStep s a = some t) : t.nonBlocking side := by
  obtain ⟨hread, hwrite⟩ := h
  exact ⟨by rw [sidesStep_timeouts hs, hread], by rw [sidesStep_timeouts hs, hwrite]⟩

theorem Sides.nonBlocking.unstarved (h : s.nonBlocking side) : s.starved side = false := by
  obtain ⟨hread, hwrite⟩ := h
  have hr : (s.ring side.peer).readerStarved = false := by
    rw [← Bool.not_eq_true, readerStarved_iff]
    simp [hread]
  have hw : (s.ring side).writerStarved = false := by
    rw [← Bool.not_eq_true, writerStarved_iff]
    simp [hwrite]
  rw [Sides.starved, hr, hw]
  rfl

theorem stepsLeft_le (s : Sides) (side : Side) : s.stepsLeft side ≤ 14 := by
  have htransfer : ∀ {κ : Type} (pc : TransferPc κ), pc.remaining ≤ 14 := by
    intro κ pc
    cases pc <;> simp [TransferPc.remaining]
  unfold Sides.stepsLeft Sides.remaining
  repeat' split
  all_goals first | omega | exact htransfer _

theorem SidesInv.nonBlocking_run (h : SidesInv capacity s) (hn : s.nonBlocking side)
    {as : List SidesAction} (has : ∀ a ∈ as, a.side = side → a = .step side)
    (hrun : Run.run sidesStep s as = some t) :
    as.countP (SidesAction.isStepOf side) + t.stepsLeft side ≤ s.stepsLeft side := by
  induction as generalizing s with
  | nil =>
    obtain rfl := Option.some.inj hrun
    exact Nat.le_of_eq (Nat.zero_add _)
  | cons a as ih =>
    obtain ⟨m, hm, hrest⟩ := Run.run_cons.mp hrun
    have hcount := ih (h.sidesStep_inv hm) (hn.step hm)
      (fun b hb => has b (List.mem_cons_of_mem a hb)) hrest
    rcases Side.eq_or_eq_peer a.side side with ha | ha
    · obtain rfl := has a List.mem_cons_self ha
      have hless := unstarved_step hn.unstarved hm
      rw [List.countP_cons_of_pos (by simp [SidesAction.isStepOf])]
      omega
    · have hsame : m.stepsLeft side = s.stepsLeft side := by
        have hwait := h.peer_step ha hm
        rw [Sides.stepsLeft, Sides.stepsLeft, hwait.pc, hwait.remaining_eq]
      have hother : a.isStepOf side = false := by
        cases a with
        | step b =>
          simp only [SidesAction.isStepOf, decide_eq_false_iff_not]
          rintro rfl
          exact b.peer_ne ha.symm
        | _ => rfl
      rw [List.countP_cons_of_neg (by simp [hother])]
      omega

end NonBlocking

section Run

variable {buffer : Side → Buffer} {s t : Sides} {side : Side}

theorem engaged_reaches (hc : ∀ side, 1 ≤ (buffer side).capacity)
    (hb : ∀ side, (buffer side).capacity ≤ MAX_CAPACITY)
    (h : Run.Reaches sidesStep (.init buffer) s) : ∀ b, Engaged s b := by
  have hkeep : SidesInv (fun side => (buffer side).capacity) s ∧ ∀ b, Engaged s b :=
    h.induct (I := fun u => SidesInv (fun side => (buffer side).capacity) u ∧ ∀ b, Engaged u b)
      (fun _ _ _ hu hs => ⟨hu.1.sidesStep_inv hs, hu.1.step_engaged hu.2 hs⟩)
      ⟨sidesInv_init hc hb, fun b => ⟨by simp [Sides.init], by simp [Sides.init]⟩⟩
  exact hkeep.2

/-- **Calls that do not block return** after 14 own steps at most, whatever the peer does. -/
theorem call_bounded (hc : ∀ side, 1 ≤ (buffer side).capacity)
    (hb : ∀ side, (buffer side).capacity ≤ 2 ^ 31 - 1)
    (hread : (buffer side.peer).timeouts.nonBlocking .read = true)
    (hwrite : (buffer side).timeouts.nonBlocking .write = true)
    (h : Run.Reaches sidesStep (.init buffer) s) {as : List SidesAction}
    (has : ∀ a ∈ as, a.side = side → a = .step side) (hrun : Run.run sidesStep s as = some t) :
    as.countP (SidesAction.isStepOf side) ≤ 14 ∧
      (t.pc side ≠ .ready → t.pc side ≠ .closed → (sidesStep t (.step side)).isSome) := by
  have hinv := sidesInv_reaches hc hb h
  have hn : s.nonBlocking side :=
    h.induct (I := fun u => u.nonBlocking side) (fun _ _ _ hu hs => hu.step hs) ⟨hread, hwrite⟩
  have hcount := hinv.nonBlocking_run hn has hrun
  have hle := stepsLeft_le s side
  refine ⟨by omega, fun hready hclosed => ?_⟩
  have ht : Run.Reaches sidesStep (.init buffer) t := h.trans ⟨as, hrun⟩
  rw [Option.isSome_iff_exists]
  exact (sidesInv_reaches hc hb ht).engaged_step (engaged_reaches hc hb ht side) hready hclosed

/-- A client that writes beside a server that reads an empty buffer. -/
theorem call_bounded_empty :
    ∃ s t, Run.run sidesStep (.init fun _ => .fresh (fun _ => 0) 2 ⟨fun _ => true⟩)
        [.read .server 1] = some s ∧
      Run.run sidesStep s [.write .client [7], .step .server, .step .client, .step .server] =
        some t ∧
      (sidesStep t (.step .server)).isSome := by
  refine ⟨_, _, rfl, rfl, ?_⟩
  refine (@call_bounded (fun _ => .fresh (fun _ => 0) 2 ⟨fun _ => true⟩) _ _ .server
    (fun _ => by decide) (fun _ => by decide) rfl rfl ⟨[.read .server 1], rfl⟩
    [.write .client [7], .step .server, .step .client, .step .server]
    (by simp [SidesAction.side]) rfl).2 ?_ ?_
  · decide
  · decide

end Run

end Tssx
