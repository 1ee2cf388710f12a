import Tssx.Connection.Logs
import Tssx.Connection.Ready

/-!
# A blocking write

`_block_for_available_space` waits until there is some space, and `buffer_write` then moves as
much as fits into it; "after the branch there is enough space to do the operation" holds of
the calls only that find it at the load of `size` that ends the wait.

What a call will return is decided at that load (`writerStep_whole`).  So, in every
interleaving of the two sides, the writes of a side are complete in exactly the runs in which
each such load finds enough space (`write_complete_iff`).
-/

namespace Tssx

/-- The call in progress takes over all its data, as far as its availability test has decided. -/
def WriterPc.Whole (pc : WriterPc) : Prop :=
  ∀ r ∈ pc.registers, r.offset + r.bytes = r.call.length

/-- The next access is not a load of `size` that ends the wait, or there is space for the
whole of the data. -/
def RingState.enoughSpace (r : RingState) : Bool :=
  match r.writer with
  | .space data _ =>
    getAvailableSpace r.buffer .write = 0 ∨ data.length ≤ getAvailableSpace r.buffer .write
  | _ => true

/-- If the step is the side's own, it finds enough space. -/
def FindsEnough (side : Side) (s : Sides) : SidesAction → Prop
  | .step b => b = side → (s.ring side).enoughSpace = true
  | _ => True

/-- A `connection_write` that the step finishes, with the peer still there, returns the number
of bytes it was passed and has appended all of them to the stream. -/
def WritesComplete (side : Side) (s : Sides) (a : SidesAction) : Prop :=
  ∀ t ∈ sidesStep s a, t.gone side.peer = false →
    ∀ w ∈ (t.writes side).drop (s.writes side).length,
      w.2 = w.1.length ∧ (t.ring side).finished = (s.ring side).finished ++ w.1

instance decidableFindsEnough (side : Side) (s : Sides) : ∀ a, Decidable (FindsEnough side s a)
  | .step _ => inferInstanceAs (Decidable (_ → _))
  | .read _ _ | .write _ _ | .close _ => isTrue trivial

instance decidableWritesComplete (side : Side) (s : Sides) (a : SidesAction) :
    Decidable (WritesComplete side s a) :=
  inferInstanceAs (Decidable (∀ t ∈ sidesStep s a, _ → _))

/-! ### What the availability test decides -/

section Access

variable {c : Nat} {r r' : RingState}

theorem whole_of_registers {pc : WriterPc} (h : pc.registers = none) : pc.Whole := by
  simp [WriterPc.Whole, h]

theorem whole_congr {pc pc' : WriterPc} {reg reg' : Registers (List UInt8)}
    (h : pc.registers = some reg) (h' : pc'.registers = some reg')
    (hsum : reg'.offset + reg'.bytes = reg.offset + reg.bytes) (hcall : reg'.call = reg.call) :
    pc'.Whole ↔ pc.Whole := by
  simp [WriterPc.Whole, h, h', hsum, hcall]

theorem writerStep_registers (hr : RingInv c r) {reg : Registers (List UInt8)}
    (hreg : r.writer.registers = some reg) (h : writerStep r = some r') :
    (∃ reg', r'.writer.registers = some reg' ∧ reg'.call = reg.call ∧
      reg'.offset + reg'.bytes = reg.offset + reg.bytes ∧
      r'.history.writes = r.history.writes) ∨
    r'.writer = .idle ∧
      r'.history.writes = r.history.writes ++ [(reg.call, reg.offset + reg.bytes)] := by
  have hf := hr.writer
  cases writerStep_cases h with
  | again _ _ hpc | start _ _ hpc => rw [hpc] at hreg; cases hreg
  | wrapSize q hpc =>
    rw [hpc] at hreg hf
    cases hreg
    have hpart := hf.1.part
    refine .inl ⟨_, rfl, rfl, ?_, rfl⟩
    show reg.offset + reg.rightSpace + (reg.bytes - reg.rightSpace) = reg.offset + reg.bytes
    omega
  | addSize q hpc =>
    rw [hpc] at hreg hf
    cases hreg
    have hle := hf.1.bytes_le
    have hoffset := hf.1.offset_eq
    have hbound := hr.bound
    unfold MAX_CAPACITY at hbound
    refine .inr ⟨rfl, ?_⟩
    show _ ++ [(reg.call, sizeT ((reg.bytes : Int) + reg.rightSpace))] = _
    rw [sizeT_eq (n := reg.offset + reg.bytes) (by rw [hoffset]; push_cast; omega) (by omega)]
  | compareOwn _ hpc | notBehind _ _ hpc | behind _ _ hpc | toEnd _ hpc | notToEnd _ hpc
  | firstPointer _ hpc | firstCopy _ _ hpc | wrapIndex _ hpc | secondPointer _ hpc
  | secondCopy _ _ hpc | loadIndex _ hpc | storeIndex _ _ hpc =>
    rw [hpc] at hreg
    cases hreg
    exact .inl ⟨_, rfl, rfl, rfl, rfl⟩

/-- **An access of a blocking `buffer_write`**: a call that it ends is complete, and one that it
brings on is whole, exactly if the call was whole before and the access finds enough space. -/
theorem writerStep_whole (hr : RingInv c r)
    (hblocking : r.buffer.timeouts.nonBlocking .write = false) (h : writerStep r = some r') :
    (∀ w ∈ r'.history.writes.drop r.history.writes.length, w.2 = w.1.length) ∧ r'.writer.Whole ↔
      r.writer.Whole ∧ r.enoughSpace = true := by
  have hsame : r'.history.writes = r.history.writes →
      ∀ w ∈ r'.history.writes.drop r.history.writes.length, w.2 = w.1.length := by
    intro hwrites
    rw [hwrites, List.drop_length]
    simp
  cases hreg : r.writer.registers with
  | some reg =>
    have henough : r.enoughSpace = true := by
      cases hpc : r.writer with
      | space _ _ => rw [hpc] at hreg; cases hreg
      | _ => rw [RingState.enoughSpace, hpc]
    rcases writerStep_registers hr hreg h with
      ⟨reg', hreg', hcall, hsum, hwrites⟩ | ⟨hidle, hwrites⟩
    · rw [whole_congr hreg hreg' hsum hcall]
      exact ⟨fun hw => ⟨hw.2, henough⟩, fun hw => ⟨hsame hwrites, hw.1⟩⟩
    · rw [hwrites, List.drop_left, List.forall_mem_singleton]
      have hone : r.writer.Whole ↔ reg.offset + reg.bytes = reg.call.length := by
        simp [WriterPc.Whole, hreg]
      have hafter : r'.writer.Whole := whole_of_registers (by rw [hidle]; rfl)
      rw [hone]
      exact ⟨fun hw => ⟨hw.1, henough⟩, fun hw => ⟨hw.1, hafter⟩⟩
  | none =>
    have hbefore : r.writer.Whole := whole_of_registers hreg
    cases writerStep_cases h with
    | again data waits hpc hwait =>
      have henough : r.enoughSpace = true := by simp [RingState.enoughSpace, hpc, hwait.1]
      exact ⟨fun _ => ⟨hbefore, henough⟩, fun _ => ⟨hsame rfl, whole_of_registers rfl⟩⟩
    | start data waits hpc hgo =>
      -- the test decides how much of the data the call takes over
      have hfound : getAvailableSpace r.buffer .write ≠ 0 := fun h0 => hgo ⟨h0, hblocking⟩
      have henough : r.enoughSpace = true ↔ data.length ≤ getAvailableSpace r.buffer .write := by
        simp [RingState.enoughSpace, hpc, hfound]
      have hafter : WriterPc.Whole (.compareOwn
          { call := data, offset := 0
            bytes := min (getAvailableSpace r.buffer .write) data.length, rightSpace := 0 }) ↔
          data.length ≤ getAvailableSpace r.buffer .write := by
        simp [WriterPc.Whole, TransferPc.registers]
      rw [henough]
      exact ⟨fun hw => ⟨hbefore, hafter.mp hw.2⟩, fun hw => ⟨hsame rfl, hafter.mpr hw.2⟩⟩
    | compareOwn _ hpc | notBehind _ _ hpc | behind _ _ hpc | toEnd _ hpc | notToEnd _ hpc
    | firstPointer _ hpc | firstCopy _ _ hpc | wrapIndex _ hpc | wrapSize _ hpc
    | secondPointer _ hpc | secondCopy _ _ hpc | loadIndex _ hpc | storeIndex _ _ hpc
    | addSize _ hpc => rw [hpc] at hreg; cases hreg

end Access

/-! ### Every interleaving -/

section Sides

variable {capacity : Side → Nat} {s t : Sides} {side : Side}

/-- What the steps rely on: the invariant, and the side's writes block. -/
structure BlockingInv (capacity : Side → Nat) (side : Side) (s : Sides) : Prop where
  sides : SidesInv capacity s
  blocking : (s.ring side).buffer.timeouts.nonBlocking .write = false

theorem sideStep_timeouts {b : Side} (hs : sideStep s b = some t) (side : Side) :
    (t.ring side).buffer.timeouts = (s.ring side).buffer.timeouts := by
  have update : ∀ {b : Side} {ring : RingState},
      ring.buffer.timeouts = (s.ring b).buffer.timeouts →
      (Function.update s.ring b ring side).buffer.timeouts = (s.ring side).buffer.timeouts := by
    intro b ring h
    by_cases hb : side = b
    · rw [hb, Function.update_self, h]
    · rw [Function.update_of_ne hb]
  cases sideStep_cases hs with
  | readCall _ ring _ _ hcall =>
    rw [Sides.afterRead_ring]
    exact update (by rw [readerCall_buffer hcall])
  | readStep _ ring _ hstep =>
    rw [Sides.afterRead_ring]
    exact update (readerStep_frame hstep).1
  | writeCall _ ring _ _ hcall =>
    rw [Sides.afterWrite_ring]
    exact update (by rw [writerCall_buffer hcall])
  | writeStep ring _ hstep =>
    rw [Sides.afterWrite_ring]
    exact update (writerStep_frame hstep).1
  | readGone | writeGone | subtract | destroy | leave => rfl

theorem BlockingInv.step (h : BlockingInv capacity side s) {a : SidesAction}
    (hs : sidesStep s a = some t) : BlockingInv capacity side t := by
  refine ⟨h.sides.sidesStep_inv hs, ?_⟩
  cases a with
  | read b _ | write b _ | close b =>
    obtain ⟨hring, -⟩ := Sides.call_eq rfl hs
    rw [hring]
    exact h.blocking
  | step b =>
    rw [sideStep_timeouts hs]
    exact h.blocking

theorem complete_access {c : Nat} {ring : RingState} (hb : c ≤ MAX_CAPACITY)
    (hmoved : WriterMoved c (s.ring side) ring)
    (hs : sideStep s side = some (s.afterWrite side ring)) (hlive : s.gone side.peer = false) :
    WritesComplete side s (.step side) ↔
      ∀ w ∈ ring.history.writes.drop (s.ring side).history.writes.length, w.2 = w.1.length := by
  have hgone : (s.afterWrite side ring).gone side.peer = false := by
    rw [Sides.gone, sideStep_peer hs]
    exact hlive
  have hiff : WritesComplete side s (.step side) ↔
      ∀ w ∈ ((s.afterWrite side ring).writes side).drop (s.writes side).length,
        w.2 = w.1.length ∧
          ((s.afterWrite side ring).ring side).finished = (s.ring side).finished ++ w.1 := by
    constructor
    · exact fun h => h _ hs hgone
    · intro h t ht _
      obtain rfl := Option.some.inj (ht.symm.trans hs)
      exact h
  rw [hiff]
  rcases hmoved with ⟨hbusy, hwrites⟩ | ⟨w, hidle, hwrites, hle⟩
  · rw [afterWrite_busy hbusy, hwrites, List.drop_length]
    show (∀ w ∈ (s.writes side).drop (s.writes side).length, _) ↔ _
    rw [List.drop_length]
    simp
  · have hreturned : ssizeT w.2 = w.2 := by
      unfold MAX_CAPACITY at hb
      exact ssizeT_eq (by omega)
    have hfinished : ((s.afterWrite side ring).ring side).finished =
        (s.ring side).finished ++ w.1.take w.2 := by
      rw [Sides.afterWrite_ring, Function.update_self, RingState.finished, hwrites,
        List.flatMap_append]
      simp [RingState.finished]
    have hlog : (s.afterWrite side ring).writes side =
        s.writes side ++ [(w.1, ssizeT w.2)] := by
      rw [afterWrite_returned hidle hwrites]
      simp [Sides.goto, Sides.logWrite]
    rw [hlog, hwrites, List.drop_left, List.drop_left, List.forall_mem_singleton,
      List.forall_mem_singleton, hfinished, hreturned]
    constructor
    · exact fun h => Int.ofNat.inj h.1
    · intro h
      exact ⟨congrArg Nat.cast h, by rw [h, List.take_length]⟩

/-- What a step finishes is complete, and the side's call in progress whole, exactly if the call
was whole before and the step finds enough space.  A peer that has gone is no longer waited
for. -/
structure Decides (side : Side) (s : Sides) (a : SidesAction) (t : Sides) : Prop where
  keeps : (s.ring side).writer.Whole → FindsEnough side s a →
    WritesComplete side s a ∧ (t.ring side).writer.Whole
  needs : t.gone side.peer = false → WritesComplete side s a → (t.ring side).writer.Whole →
    (s.ring side).writer.Whole ∧ FindsEnough side s a

theorem Decides.quiet {a : SidesAction} (hs : sidesStep s a = some t)
    (hwrites : t.writes side = s.writes side)
    (hwriter : (t.ring side).writer = (s.ring side).writer) (hfinds : FindsEnough side s a) :
    Decides side s a t := by
  refine ⟨fun hw _ => ⟨?_, by rwa [hwriter]⟩, fun _ _ hw => ⟨by rwa [← hwriter], hfinds⟩⟩
  intro u hu _ w hw
  obtain rfl := Option.some.inj (hu.symm.trans hs)
  rw [hwrites, List.drop_length] at hw
  cases hw

theorem complete_of_gone {a : SidesAction} (hs : sidesStep s a = some t)
    (hgone : t.gone side.peer = true) : WritesComplete side s a := by
  intro u hu hlive
  obtain rfl := Option.some.inj (hu.symm.trans hs)
  rw [hgone] at hlive
  cases hlive

theorem BlockingInv.off (h : BlockingInv capacity side s) (hpc : s.pc side ≠ .writing) :
    (s.ring side).writer.Whole ∧ FindsEnough side s (.step side) := by
  have hidle := h.sides.writer_idle side hpc
  refine ⟨whole_of_registers (by rw [hidle]; rfl), fun _ => ?_⟩
  rw [RingState.enoughSpace, hidle]

/-- The beginning of a transfer: a write of nothing is complete, any other makes its load
next. -/
theorem BlockingInv.decides_call (h : BlockingInv capacity side s) {data : List UInt8}
    {ring : RingState} (hpc : s.pc side = .checkWrite data)
    (hlive : connectionPeerDied s.segment = false)
    (hcall : writerCall (s.ring side) data = some ring)
    (hs : sideStep s side = some (s.afterWrite side ring)) :
    Decides side s (.step side) (s.afterWrite side ring) := by
  have hgone : s.gone side.peer = false := by
    rw [← h.sides.peerDied_eq side (by rw [Sides.gone, hpc]; rfl)]
    exact hlive
  have hbefore := h.off (by rw [hpc]; simp)
  have hcomplete := (complete_access (h.sides.ring side).bound (writerCall_moved hcall) hs
    hgone).mpr
  suffices hafter : (∀ w ∈ ring.history.writes.drop (s.ring side).history.writes.length,
      w.2 = w.1.length) ∧ ring.writer.Whole by
    refine ⟨fun _ _ => ⟨hcomplete hafter.1, ?_⟩, fun _ _ _ => hbefore⟩
    rw [Sides.afterWrite_ring, Function.update_self]
    exact hafter.2
  obtain ⟨-, ⟨-, rfl⟩ | ⟨-, rfl⟩⟩ := writerCall_eq hcall
  · exact ⟨by simp, hbefore.1⟩
  · exact ⟨by simp, whole_of_registers rfl⟩

theorem BlockingInv.decides_access (h : BlockingInv capacity side s) {ring : RingState}
    (hstep : writerStep (s.ring side) = some ring)
    (hs : sideStep s side = some (s.afterWrite side ring)) :
    Decides side s (.step side) (s.afterWrite side ring) := by
  have hwhole := writerStep_whole (h.sides.ring side) h.blocking hstep
  have hcomplete := complete_access (h.sides.ring side).bound
    (writerStep_moved (h.sides.ring side) hstep) hs
  have hpeer : (s.afterWrite side ring).gone side.peer = s.gone side.peer := by
    rw [Sides.gone, sideStep_peer hs, Sides.gone]
  have hring : (s.afterWrite side ring).ring side = ring := by
    rw [Sides.afterWrite_ring, Function.update_self]
  constructor
  · intro hw hfinds
    obtain ⟨hdone, hafter⟩ := hwhole.mpr ⟨hw, hfinds rfl⟩
    rw [hring]
    refine ⟨?_, hafter⟩
    cases hgone : s.gone side.peer with
    | false => exact (hcomplete hgone).mpr hdone
    | true => exact complete_of_gone hs (hpeer.trans hgone)
  · intro hlive hdone hw
    rw [hpeer] at hlive
    rw [hring] at hw
    obtain ⟨hbefore, henough⟩ := hwhole.mp ⟨(hcomplete hlive).mp hdone, hw⟩
    exact ⟨hbefore, fun _ => henough⟩

theorem BlockingInv.decides (h : BlockingInv capacity side s) {a : SidesAction}
    (hs : sidesStep s a = some t) : Decides side s a t := by
  have hbegin : ∀ b pc, s.call b pc = some t →
      t.writes side = s.writes side ∧ (t.ring side).writer = (s.ring side).writer := by
    intro b pc hs
    unfold Sides.call at hs
    split at hs
    · obtain rfl := Option.some.inj hs
      exact ⟨rfl, rfl⟩
    · cases hs
  cases a with
  | read b _ | write b _ | close b =>
    obtain ⟨hwrites, hwriter⟩ := hbegin b _ hs
    exact .quiet hs hwrites hwriter trivial
  | step b =>
    have hs' : sideStep s b = some t := hs
    rcases Side.eq_or_eq_peer side b with rfl | rfl
    · cases sideStep_cases hs' with
      | readGone _ hpc | subtract hpc | destroy hpc | leave hpc =>
        exact .quiet hs rfl rfl (h.off (by rw [hpc]; simp)).2
      | readCall _ ring hpc | readStep _ ring hpc =>
        refine .quiet hs ?_ ?_ (h.off (by rw [hpc]; simp)).2
        · unfold Sides.afterRead
          dsimp only
          split <;> rfl
        · rw [Sides.afterRead_ring, Function.update_of_ne side.peer_ne.symm]
      | writeGone data hpc hdied =>
        have hgone : Sides.gone ((s.logWrite side data 0).goto side .ready) side.peer = true := by
          rw [Sides.gone, sideStep_peer hs']
          exact (h.sides.peerDied_eq side (by rw [Sides.gone, hpc]; rfl)).symm.trans hdied
        refine ⟨fun hw _ => ⟨complete_of_gone hs hgone, hw⟩, fun hlive => ?_⟩
        rw [hgone] at hlive
        cases hlive
      | writeCall data ring hpc hlive hcall => exact h.decides_call hpc hlive hcall hs'
      | writeStep ring _ hstep => exact h.decides_access hstep hs'
    · refine .quiet hs (sideStep_writes_peer hs') ?_ fun hb => absurd hb b.peer_ne.symm
      rcases sideStep_ring hs' with hring | ⟨ring, hring, hw, -⟩ | ⟨ring, hring, -⟩
      · rw [hring]
      · rw [hring, Function.update_self, hw]
      · rw [hring, Function.update_of_ne b.peer_ne]

theorem SidesInv.gone_back (h : SidesInv capacity s) {a : SidesAction}
    (hs : sidesStep s a = some t) (hlive : t.gone side = false) : s.gone side = false := by
  by_contra hgone
  rw [Bool.not_eq_false] at hgone
  rw [← side.peer_peer] at hgone hlive
  rw [(h.step_gone hgone hs).1] at hlive
  cases hlive

end Sides

/-- **A blocking write is complete exactly if it finds enough space**: in a run whose steps all
find enough space every finished write is complete; and in a run at whose end the side is not
inside a write and its peer is still there, every finished write is complete if and only if
every step has found enough space. -/
theorem write_complete_iff {buffer : Side → Buffer} (hc : ∀ side, 1 ≤ (buffer side).capacity)
    (hb : ∀ side, (buffer side).capacity ≤ 2 ^ 31 - 1) {side : Side}
    (hblocking : (buffer side).timeouts.nonBlocking .write = false) {actions : List SidesAction} :
    (Run.Meets sidesStep (FindsEnough side) (.init buffer) actions →
      Run.Meets sidesStep (WritesComplete side) (.init buffer) actions) ∧
    ∀ s, Run.run sidesStep (.init buffer) actions = some s → s.pc side ≠ .writing →
      s.gone side.peer = false →
      (Run.Meets sidesStep (WritesComplete side) (.init buffer) actions ↔
        Run.Meets sidesStep (FindsEnough side) (.init buffer) actions) := by
  have hinit : BlockingInv (fun side => (buffer side).capacity) side (.init buffer) :=
    ⟨sidesInv_init hc hb, hblocking⟩
  have hwhole : ((Sides.init buffer).ring side).writer.Whole := whole_of_registers rfl
  constructor
  · refine Run.meets_of_meets (W := fun s => (s.ring side).writer.Whole)
      (fun s a t hs ht => BlockingInv.step hs ht) ?_ ?_ hinit hwhole
    · intro s a hnone t ht
      rw [Option.mem_def, hnone] at ht
      cases ht
    · exact fun s a t hs ht hw hd => (BlockingInv.decides hs ht).keeps hw hd
  · intro s hrun hpc hlive
    have hend := (Run.run_induct (fun s a t hs ht => BlockingInv.step hs ht) hinit hrun).off hpc
    have hiff := Run.meets_iff_meets (B := fun s => s.gone side.peer = false)
      (W := fun s => (s.ring side).writer.Whole) (fun s a t hs ht => BlockingInv.step hs ht)
      (fun s a t hs ht hgone => hs.sides.gone_back ht hgone)
      (fun s a t hs hgone ht => ⟨fun h => (hs.decides ht).needs hgone h.1 h.2,
        fun h => (hs.decides ht).keeps h.1 h.2⟩) hinit hrun hlive hend.1
    rw [hiff]
    exact ⟨fun h => h.2, fun h => ⟨hwhole, h⟩⟩

/-- The client writes three bytes to a buffer of two, which the server empties in between. -/
private def emptied : List SidesAction :=
  .write .client [1] :: List.replicate 10 (.step .client) ++
    .read .server 1 :: List.replicate 9 (.step .server) ++
    .write .client [2, 3] :: List.replicate 14 (.step .client)

theorem write_complete_iff_emptied :
    ∃ s, Run.run sidesStep (.init fun _ => .fresh (fun _ => 0) 2 ⟨fun _ => false⟩) emptied =
        some s ∧
      s.writes .client = [([1], 1), ([2, 3], 2)] ∧
      Run.Meets sidesStep (WritesComplete .client)
        (.init fun _ => .fresh (fun _ => 0) 2 ⟨fun _ => false⟩) emptied := by
  have hrun : ∃ s, Run.run sidesStep (.init fun _ => .fresh (fun _ => 0) 2 ⟨fun _ => false⟩)
      emptied = some s ∧ s.writes .client = [([1], 1), ([2, 3], 2)] ∧
      s.pc .client ≠ .writing ∧ s.gone .server = false :=
    ⟨_, rfl, by decide, by decide, by decide⟩
  obtain ⟨s, hs, hwrites, hpc, hlive⟩ := hrun
  have hiff := (@write_complete_iff (fun _ => .fresh (fun _ => 0) 2 ⟨fun _ => false⟩)
    (fun _ => by decide) (fun _ => by decide) .client rfl emptied).2 s hs hpc hlive
  exact ⟨s, hs, hwrites, hiff.mpr (by decide)⟩

/-- The same without the server's read. -/
private def nearlyFull : List SidesAction :=
  .write .client [1] :: List.replicate 10 (.step .client) ++
    .write .client [2, 3] :: List.replicate 14 (.step .client)

/-- **A short blocking write**: with one byte free a `write` of two returns `1`. -/
theorem blocking_write_short :
    (∃ s, Run.run sidesStep (.init fun _ => .fresh (fun _ => 0) 2 ⟨fun _ => false⟩)
        nearlyFull = some s ∧
      s.writes .client = [([1], 1), ([2, 3], 1)] ∧ s.gone .server = false) ∧
    ¬ Run.Meets sidesStep (WritesComplete .client)
      (.init fun _ => .fresh (fun _ => 0) 2 ⟨fun _ => false⟩) nearlyFull :=
  ⟨⟨_, rfl, by decide, by decide⟩, by decide⟩

end Tssx
