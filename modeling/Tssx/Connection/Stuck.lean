import Tssx.Buffer.Alone
import Tssx.Connection.Progress

/-!
# Which waits never end

`_block_for_available_space` has no other exit than a load that finds something.  A side that is
in its loop stays there in every continuation exactly if its load finds nothing and its peer has
halted: the peer has disconnected or is about to, waits in vain itself, or has begun a call that
will (`stuck_iff`).  Any other peer comes back from its call by its own steps and can then read
or write the byte that ends the wait (`SidesInv.run_write`, `SidesInv.run_read`).
-/

namespace Tssx

section Step

variable {capacity : Side → Nat} {s t u : Sides} {side : Side} {ring : RingState}

/-! ### The byte that ends the wait -/

theorem SidesInv.writer_run (h : SidesInv capacity s) (hpc : s.pc side = .writing)
    (hrun : WriterAlone (s.ring side) ring) :
    ∃ t, Run.Reaches sidesStep s t ∧ SidesInv capacity t ∧ Waiting s t side.peer ∧
      t.ring side = ring := by
  obtain ⟨as, has⟩ := hrun
  induction as generalizing s with
  | nil =>
    obtain rfl := Option.some.inj has
    exact ⟨s, .refl s, h, .refl s side.peer, rfl⟩
  | cons _ as ih =>
    obtain ⟨m, hm, hrest⟩ := Run.run_cons.mp has
    have hstep : sidesStep s (.step side) = some (s.afterWrite side m) := by
      simp only [sidesStep, sideStep, hpc, hm, Option.map_some]
    have hinv := h.sidesStep_inv hstep
    have hwait : Waiting s (s.afterWrite side m) side.peer :=
      h.peer_step (by simp [SidesAction.side]) hstep
    have hring : (s.afterWrite side m).ring side = m := by
      rw [Sides.afterWrite_ring, Function.update_self]
    rcases afterWrite_pc s side (writerStep_access hm).returned with ⟨hidle, -⟩ | ⟨-, hwriting⟩
    · -- the call has returned, and the run is over
      cases as with
      | nil =>
        obtain rfl := Option.some.inj hrest
        exact ⟨_, .single hstep, hinv, hwait, hring⟩
      | cons b as =>
        obtain ⟨_, hnone, -⟩ := Run.run_cons.mp hrest
        simp only [writerStep, hidle] at hnone
        cases hnone
    · obtain ⟨t, ht, hinv', hwait', hring'⟩ := ih hinv hwriting (by rw [hring]; exact hrest)
      exact ⟨t, .head hstep ht, hinv', hwait.trans hwait', hring'⟩

theorem SidesInv.reader_run (h : SidesInv capacity s) {peerGone : Bool}
    (hpc : s.pc side = .reading peerGone) (hrun : ReaderAlone (s.ring side.peer) ring) :
    ∃ t, Run.Reaches sidesStep s t ∧ SidesInv capacity t ∧ Waiting s t side.peer ∧
      t.ring side.peer = ring := by
  obtain ⟨as, has⟩ := hrun
  induction as generalizing s with
  | nil =>
    obtain rfl := Option.some.inj has
    exact ⟨s, .refl s, h, .refl s side.peer, rfl⟩
  | cons _ as ih =>
    obtain ⟨m, hm, hrest⟩ := Run.run_cons.mp has
    have hstep : sidesStep s (.step side) = some (s.afterRead side peerGone m) := by
      simp only [sidesStep, sideStep, hpc, hm, Option.map_some]
    have hinv := h.sidesStep_inv hstep
    have hwait : Waiting s (s.afterRead side peerGone m) side.peer :=
      h.peer_step (by simp [SidesAction.side]) hstep
    have hring : (s.afterRead side peerGone m).ring side.peer = m := by
      rw [Sides.afterRead_ring, Function.update_self]
    rcases afterRead_pc s side peerGone (readerStep_access hm).returned with
      ⟨hidle, -⟩ | ⟨-, hreading⟩
    · cases as with
      | nil =>
        obtain rfl := Option.some.inj hrest
        exact ⟨_, .single hstep, hinv, hwait, hring⟩
      | cons b as =>
        obtain ⟨_, hnone, -⟩ := Run.run_cons.mp hrest
        simp only [readerStep, hidle] at hnone
        cases hnone
    · obtain ⟨t, ht, hinv', hwait', hring'⟩ := ih hinv hreading (by rw [hring]; exact hrest)
      exact ⟨t, .head hstep ht, hinv', hwait.trans hwait', hring'⟩

theorem SidesInv.begin_call (h : SidesInv capacity s) (hpc : s.pc side = .ready)
    (hlive : s.gone side.peer = false) {pc : SidePc} {a : SidesAction} (ha : a.side = side)
    (hcall : sidesStep s a = s.call side pc) (hgone : pc.gone = false) :
    sidesStep s a = some (s.goto side pc) ∧ SidesInv capacity (s.goto side pc) ∧
      Waiting s (s.goto side pc) side.peer ∧
      connectionPeerDied (s.goto side pc).segment = false := by
  have hstep : sidesStep s a = some (s.goto side pc) := by
    rw [hcall, Sides.call, if_pos hpc]
  have hinv := h.sidesStep_inv hstep
  refine ⟨hstep, hinv, h.peer_step (by rw [ha, Side.peer_peer]) hstep, ?_⟩
  rw [hinv.peerDied_eq side (by simp [Sides.gone, Sides.goto, hgone])]
  simpa [Sides.gone, Sides.goto, side.peer_ne] using hlive

/-- **A side between its calls can write a byte** into a buffer that has room. -/
theorem SidesInv.run_write (h : SidesInv capacity s) (hpc : s.pc side = .ready)
    (hlive : s.gone side.peer = false) (hroom : 0 < s.available side .write) :
    ∃ t, Run.Reaches sidesStep s t ∧ SidesInv capacity t ∧ Waiting s t side.peer ∧
      0 < t.available side.peer .read := by
  obtain ⟨hbegin, hinv, hwait, hthere⟩ :=
    h.begin_call (a := .write side [0]) hpc hlive rfl rfl rfl
  have hw := h.writer_idle side (by rw [hpc]; simp)
  have hready := (h.ring side).writerReady hw
  have hfree : (s.ring side).held.length < capacity side := by
    rw [Sides.available, hready.freeSpace] at hroom
    omega
  obtain ⟨after, hcall, hafter, -, -⟩ :=
    @WriterReady.write_call _ _ _ _ hready [0] (.inl hfree)
  obtain ⟨m, ring, hm, hrun, hidle, hbuffer, -, -⟩ := writer_alone hw hcall
  have hcheck : sidesStep (s.goto side (.checkWrite [0])) (.step side) =
      some ((s.goto side (.checkWrite [0])).afterWrite side m) := by
    have hring : (s.goto side (.checkWrite [0])).ring side = s.ring side := rfl
    have hgoto : (s.goto side (.checkWrite [0])).pc side = .checkWrite [0] :=
      Function.update_self ..
    simp [sidesStep, sideStep, hgoto, hthere, hring, hm]
  have hbusy : m.writer ≠ .idle := by
    obtain ⟨-, ⟨hempty, -⟩ | ⟨-, rfl⟩⟩ := writerCall_eq hm
    · cases hempty
    · simp
  have hinv' := hinv.sidesStep_inv hcheck
  have hwait' : Waiting (s.goto side (.checkWrite [0])) _ side.peer :=
    hinv.peer_step (by simp [SidesAction.side]) hcheck
  have hwriting : ((s.goto side (.checkWrite [0])).afterWrite side m).pc side = .writing := by
    rcases @afterWrite_pc (s.goto side (.checkWrite [0])) side m (fun hc => absurd hc hbusy) with
      ⟨hc, -⟩ | ⟨-, hwriting⟩
    · exact absurd hc hbusy
    · exact hwriting
  have halone : WriterAlone
      (((s.goto side (.checkWrite [0])).afterWrite side m).ring side) ring := by
    rw [Sides.afterWrite_ring, Function.update_self]
    exact hrun
  obtain ⟨t, ht, htinv, htwait, hring⟩ := hinv'.writer_run hwriting halone
  refine ⟨t, .head hbegin (.head hcheck ht), htinv, hwait.trans (hwait'.trans htwait), ?_⟩
  rw [Sides.available, Side.peer_peer, hring, hbuffer, hafter.unread]
  rw [Sides.available, hready.freeSpace] at hroom
  simp only [List.length_append, List.length_take, List.length_singleton]
  omega

theorem SidesInv.run_read (h : SidesInv capacity s) (hpc : s.pc side = .ready)
    (hlive : s.gone side.peer = false) (hheld : 0 < s.available side .read) :
    ∃ t, Run.Reaches sidesStep s t ∧ SidesInv capacity t ∧ Waiting s t side.peer ∧
      0 < t.available side.peer .write := by
  obtain ⟨hbegin, hinv, hwait, hthere⟩ :=
    h.begin_call (a := .read side 1) hpc hlive rfl rfl rfl
  have hr := h.reader_idle side (by rw [hpc]; simp)
  have hready := (h.ring side.peer).readerReady hr
  have hpos : 0 < (s.ring side.peer).held.length := by
    rw [Sides.available, hready.unread] at hheld
    exact hheld
  obtain ⟨after, hcall, hafter, -, -⟩ := hready.read_call (n := 1)
    (.inl (List.length_pos_iff.mp hpos))
  obtain ⟨m, ring, record, hm, hrun, hidle, hbuffer, -⟩ := reader_alone hr hcall
  have hcheck : sidesStep (s.goto side (.checkRead 1)) (.step side) =
      some ((s.goto side (.checkRead 1)).afterRead side false m) := by
    have hring : (s.goto side (.checkRead 1)).ring side.peer = s.ring side.peer := rfl
    have hgone : (s.goto side (.checkRead 1)).gone side.peer = false := by
      simpa [Sides.gone, Sides.goto, side.peer_ne] using hlive
    have hgoto : (s.goto side (.checkRead 1)).pc side = .checkRead 1 := Function.update_self ..
    simp [sidesStep, sideStep, hgoto, hthere, hring, hm, hgone]
  have hbusy : m.reader ≠ .idle := by
    obtain ⟨-, ⟨hzero, -⟩ | ⟨-, rfl⟩⟩ := readerCall_eq hm
    · cases hzero
    · simp
  have hinv' := hinv.sidesStep_inv hcheck
  have hwait' : Waiting (s.goto side (.checkRead 1)) _ side.peer :=
    hinv.peer_step (by simp [SidesAction.side]) hcheck
  have hreading :
      ((s.goto side (.checkRead 1)).afterRead side false m).pc side = .reading false := by
    rcases @afterRead_pc (s.goto side (.checkRead 1)) side false m (fun hc => absurd hc hbusy)
      with ⟨hc, -⟩ | ⟨-, hreading⟩
    · exact absurd hc hbusy
    · exact hreading
  have halone : ReaderAlone
      (((s.goto side (.checkRead 1)).afterRead side false m).ring side.peer) ring := by
    rw [Sides.afterRead_ring, Function.update_self]
    exact hrun
  obtain ⟨t, ht, htinv, htwait, hring⟩ := hinv'.reader_run hreading halone
  refine ⟨t, .head hbegin (.head hcheck ht), htinv, hwait.trans (hwait'.trans htwait), ?_⟩
  rw [Sides.available, hring, hbuffer, hafter.freeSpace, List.length_drop]
  have := hready.room
  have := hready.pos
  omega

/-! ### Waits that never end -/

/-- A step after which a side waits for the same as before. -/
structure Still (s t : Sides) (side : Side) : Prop where
  pc : t.pc side = s.pc side
  reader : (t.ring side.peer).reader = (s.ring side.peer).reader
  writer : (t.ring side).writer = (s.ring side).writer
  buffer : ∀ b, (t.ring b).buffer = (s.ring b).buffer

theorem Still.inLoop (h : Still s t side) : t.inLoop side = s.inLoop side := by
  rw [Sides.inLoop, Sides.inLoop, h.reader, h.writer]

theorem Still.starved (h : Still s t side) : t.starved side = s.starved side := by
  simp only [Sides.starved, RingState.readerStarved, RingState.writerStarved, h.reader, h.writer,
    h.buffer]

theorem Still.halted (h : Still s t side) : t.halted side = s.halted side := by
  simp only [Sides.halted, h.pc, h.starved, Sides.wouldStarve, h.buffer]

theorem still_peer {ring : RingState} {b : Side} (hpc : t.pc side.peer = s.pc side.peer)
    (hring : t.ring = Function.update s.ring b ring) (hbuffer : ring.buffer = (s.ring b).buffer)
    (hreader : b = side → ring.reader = (s.ring side).reader)
    (hwriter : b = side.peer → ring.writer = (s.ring side.peer).writer) :
    Still s t side.peer where
  pc := hpc
  reader := by
    rw [Side.peer_peer, hring]
    by_cases hb : b = side
    · rw [← hb, Function.update_self, hreader hb, hb]
    · rw [Function.update_of_ne (Ne.symm hb)]
  writer := by
    rw [hring]
    by_cases hb : b = side.peer
    · rw [← hb, Function.update_self, hwriter hb, hb]
    · rw [Function.update_of_ne (Ne.symm hb)]
  buffer := by
    intro b'
    rw [hring]
    by_cases hb : b' = b
    · rw [hb, Function.update_self, hbuffer]
    · rw [Function.update_of_ne hb]

/-- **A load that finds nothing** leaves the side in the loop and everything else as it is. -/
theorem SidesInv.load_step (h : SidesInv capacity s) (hst : s.starved side = true)
    (hs : sideStep s side = some t) :
    t.starved side = true ∧ t.inLoop side = true ∧ t.pc side = s.pc side ∧
      Still s t side.peer := by
  have hne : side ≠ side.peer := side.peer_ne.symm
  have hpeer := sideStep_peer hs
  have outside : s.pc side ≠ .reading false → s.pc side ≠ .writing → False := by
    intro hr hw
    obtain ⟨hr, hw⟩ := h.idle side hr hw
    rw [(notWaiting hr hw).1] at hst
    cases hst
  cases sideStep_cases hs with
  | readGone _ hpc | readCall _ _ hpc | writeGone _ hpc | writeCall _ _ hpc | subtract hpc
  | destroy hpc | leave hpc => exact (outside (by rw [hpc]; simp) (by rw [hpc]; simp)).elim
  | readStep peerGone ring hpc hstep =>
    have hw := h.writer_idle side (by rw [hpc]; simp)
    have hr : (s.ring side.peer).readerStarved = true := by
      simpa [Sides.starved, RingState.writerStarved, hw] using hst
    have haccess := readerStep_access hstep
    obtain ⟨hst', hloop⟩ := (readerStep_space hstep).1 hr
    obtain ⟨⟨call, waits, hspace⟩, -⟩ := readerStarved_iff.mp hr
    refine ⟨?_, ?_, ?_, still_peer hpeer (Sides.afterRead_ring ..)
      (haccess.load call waits hspace) (fun hc => absurd hc.symm hne) (fun _ => haccess.writer)⟩
    · simp only [Sides.starved, Sides.afterRead_ring, Function.update_self, hst', Bool.true_or]
    · simp only [Sides.inLoop, Sides.afterRead_ring, Function.update_self, hloop, Bool.true_or]
    · rcases afterRead_pc s side peerGone haccess.returned with ⟨hidle, -⟩ | ⟨-, hreading⟩
      · rw [hidle] at hloop
        cases hloop
      · rw [hreading, hpc]
  | writeStep ring hpc hstep =>
    have hr := h.reader_idle side (by rw [hpc]; simp)
    have hw : (s.ring side).writerStarved = true := by
      simpa [Sides.starved, RingState.readerStarved, hr] using hst
    have haccess := writerStep_access hstep
    obtain ⟨hst', hloop⟩ := (writerStep_space hstep).1 hw
    obtain ⟨⟨call, waits, hspace⟩, -⟩ := writerStarved_iff.mp hw
    refine ⟨?_, ?_, ?_, still_peer hpeer (Sides.afterWrite_ring ..)
      (haccess.load call waits hspace) (fun _ => haccess.reader) (fun hc => absurd hc hne)⟩
    · simp only [Sides.starved, Sides.afterWrite_ring, Function.update_self, hst', Bool.or_true]
    · simp only [Sides.inLoop, Sides.afterWrite_ring, Function.update_self, hloop, Bool.or_true]
    · rcases afterWrite_pc s side haccess.returned with ⟨hidle, -⟩ | ⟨-, hwriting⟩
      · rw [hidle] at hloop
        cases hloop
      · rw [hwriting, hpc]

/-- **A halted side stays halted**, and its steps give its peer nothing. -/
theorem SidesInv.halted_step (h : SidesInv capacity s) (hh : s.halted side = true)
    (hlive : s.gone side.peer = false) {a : SidesAction} (ha : a.side = side)
    (hs : sidesStep s a = some t) : t.halted side = true ∧ Still s t side.peer := by
  have hbegin : ∀ pc, s.call side pc = some t → t.halted side = true ∧ Still s t side.peer := by
    intro pc hs
    unfold Sides.call at hs
    split at hs
    · rw [halted_ready ‹_›] at hh
      cases hh
    · cases hs
  have hwait : s.pc side = .writing ∨ (∃ b, s.pc side = .reading b) → s.starved side = true := by
    rintro (hpc | ⟨b, hpc⟩) <;> rw [Sides.halted, hpc] at hh <;> exact hh
  have hthere : s.gone side = false → connectionPeerDied s.segment = false :=
    fun hs => (h.peerDied_eq side hs).trans hlive
  cases a with
  | read b _ | write b _ | close b =>
    obtain rfl : b = side := ha
    exact hbegin _ hs
  | step b =>
    obtain rfl : b = side := ha
    have hs' : sideStep s b = some t := hs
    have hpeer := sideStep_peer hs'
    have hgoto : ∀ (u : Sides) pc, (u.goto b pc).pc b = pc := fun u pc => Function.update_self ..
    cases sideStep_cases hs' with
    | readGone _ hpc hdied | writeGone _ hpc hdied =>
      rw [hthere (by rw [Sides.gone, hpc]; rfl)] at hdied
      cases hdied
    | readCall n ring hpc _ hcall =>
      simp only [Sides.halted, hpc, Bool.and_eq_true, bne_iff_ne] at hh
      obtain ⟨-, ⟨hn, -⟩ | ⟨-, rfl⟩⟩ := readerCall_eq hcall
      · exact absurd hn hh.1
      · refine ⟨?_, still_peer hpeer (Sides.afterRead_ring ..) rfl
          (fun hc => absurd hc b.peer_ne) (fun _ => rfl)⟩
        have hstarve := wouldStarve_read.mp hh.2
        simp [Sides.halted, Sides.afterRead, Sides.goto, Sides.starved, RingState.readerStarved,
          hstarve]
    | writeCall data ring hpc _ hcall =>
      simp only [Sides.halted, hpc, Bool.and_eq_true, bne_iff_ne] at hh
      obtain ⟨-, ⟨hn, -⟩ | ⟨-, rfl⟩⟩ := writerCall_eq hcall
      · exact absurd (List.length_eq_zero_iff.mpr hn) hh.1
      · refine ⟨?_, still_peer hpeer (Sides.afterWrite_ring ..) rfl (fun _ => rfl)
          (fun hc => absurd hc.symm b.peer_ne)⟩
        have hstarve := wouldStarve_write.mp hh.2
        simp [Sides.halted, Sides.afterWrite, Sides.goto, Sides.starved, RingState.writerStarved,
          hstarve]
    | readStep peerGone ring hpc _ =>
      obtain ⟨hst, -, hsame, hstill⟩ := h.load_step (hwait (.inr ⟨peerGone, hpc⟩)) hs'
      exact ⟨by rw [Sides.halted, hsame, hpc]; exact hst, hstill⟩
    | writeStep ring hpc _ =>
      obtain ⟨hst, -, hsame, hstill⟩ := h.load_step (hwait (.inl hpc)) hs'
      exact ⟨by rw [Sides.halted, hsame, hpc]; exact hst, hstill⟩
    | subtract | destroy | leave =>
      exact ⟨by rw [Sides.halted, hgoto], hpeer, rfl, rfl, fun _ => rfl⟩

theorem SidesInv.loop_pc (h : SidesInv capacity s) (hl : s.inLoop side = true) :
    s.pc side = .reading false ∨ s.pc side = .writing := by
  by_contra hpc
  obtain ⟨hr, hw⟩ := h.idle side (fun hc => hpc (.inl hc)) (fun hc => hpc (.inr hc))
  rw [(notWaiting hr hw).2] at hl
  cases hl

theorem SidesInv.loop_live (h : SidesInv capacity s) (hl : s.inLoop side = true) :
    s.gone side = false := by
  rcases h.loop_pc hl with hpc | hpc <;> rw [Sides.gone, hpc] <;> rfl

theorem SidesInv.loop_own (h : SidesInv capacity s) (hl : s.inLoop side = true) :
    ∃ t, Run.Reaches sidesStep s t ∧ t.inLoop side = s.starved side := by
  obtain ⟨t, hs⟩ := h.loop_step hl
  refine ⟨t, .single (a := .step side) hs, ?_⟩
  have hne : side ≠ side.peer := side.peer_ne.symm
  cases sideStep_cases hs with
  | readGone _ hpc | readCall _ _ hpc | writeGone _ hpc | writeCall _ _ hpc | subtract hpc
  | destroy hpc | leave hpc => rcases h.loop_pc hl with hc | hc <;> rw [hpc] at hc <;> cases hc
  | readStep peerGone ring hpc hstep =>
    have hw := h.writer_idle side (by rw [hpc]; simp)
    obtain ⟨hin, hout⟩ := readerStep_space hstep
    simp only [Sides.starved, Sides.inLoop, Sides.afterRead_ring, Function.update_self,
      Function.update_of_ne hne, RingState.writerStarved, hw, TransferPc.inLoop, Bool.or_false]
    cases hv : (s.ring side.peer).readerStarved with
    | true => exact (hin hv).2
    | false => exact (hout hv).2
  | writeStep ring hpc hstep =>
    have hr := h.reader_idle side (by rw [hpc]; simp)
    obtain ⟨hin, hout⟩ := writerStep_space hstep
    simp only [Sides.starved, Sides.inLoop, Sides.afterWrite_ring, Function.update_self,
      Function.update_of_ne side.peer_ne, RingState.readerStarved, hr, TransferPc.inLoop,
      Bool.false_or]
    cases hv : (s.ring side).writerStarved with
    | true => exact (hin hv).2
    | false => exact (hout hv).2

theorem SidesInv.starved_empty (h : SidesInv capacity s) (hst : s.starved side = true) :
    (s.pc side = .reading false ∧ s.available side .read = 0) ∨
      (s.pc side = .writing ∧ s.available side .write = 0) := by
  rcases Bool.or_eq_true _ _ |>.mp hst with hst | hst
  · obtain ⟨⟨call, waits, hpc⟩, hempty, -⟩ := readerStarved_iff.mp hst
    exact .inl ⟨(h.side side).reader (by rw [hpc]; simp), hempty⟩
  · obtain ⟨⟨call, waits, hpc⟩, hempty, -⟩ := writerStarved_iff.mp hst
    exact .inr ⟨(h.side side).writer (by rw [hpc]; simp), hempty⟩

theorem SidesInv.available_pos (h : SidesInv capacity s) :
    s.available side .read = 0 → 0 < s.available side.peer .write := by
  have hring := h.ring side.peer
  have := hring.unread
  have := hring.freeSpace
  have := hring.pos
  simp only [Sides.available]
  omega

theorem Waiting.inLoop (h : Waiting s t side) : t.inLoop side = s.inLoop side := by
  rw [Sides.inLoop, Sides.inLoop, h.reader, h.writer]

/-- **A side whose peer has not halted can leave the loop.** -/
theorem SidesInv.loop_ends (h : SidesInv capacity s) (he : ∀ b, Engaged s b)
    (hl : s.inLoop side = true) (hh : s.halted side.peer = false) :
    ∃ t, Run.Reaches sidesStep s t ∧ t.inLoop side = false := by
  obtain ⟨u, hu, hinv, hwait, hready⟩ := h.run_ready he hh
  rw [Side.peer_peer] at hwait
  have hlu : u.inLoop side = true := hwait.inLoop.trans hl
  have hlive : u.gone side.peer.peer = false := by
    rw [Side.peer_peer]
    exact hinv.loop_live hlu
  -- after the peer's call, if one is needed, the load finds something
  have hfed : ∃ v, Run.Reaches sidesStep u v ∧ SidesInv capacity v ∧ v.inLoop side = true ∧
      v.starved side = false := by
    cases hst : u.starved side with
    | false => exact ⟨u, .refl u, hinv, hlu, hst⟩
    | true =>
      rcases hinv.starved_empty hst with ⟨hpc, hempty⟩ | ⟨hpc, hempty⟩
      · obtain ⟨v, hv, hvinv, hvwait, hpos⟩ :=
          hinv.run_write hready hlive (hinv.available_pos hempty)
        rw [Side.peer_peer] at hvwait hpos
        refine ⟨v, hv, hvinv, hvwait.inLoop.trans hlu, ?_⟩
        rw [← Bool.not_eq_true]
        intro hst'
        rcases hvinv.starved_empty hst' with ⟨-, hzero⟩ | ⟨hwriting, -⟩
        · omega
        · rw [hvwait.pc, hpc] at hwriting
          cases hwriting
      · have hheld : 0 < u.available side.peer .read := by
          have hring := hinv.ring side
          have := hring.unread
          have := hring.freeSpace
          have := hring.pos
          simp only [Sides.available, Side.peer_peer] at hempty ⊢
          omega
        obtain ⟨v, hv, hvinv, hvwait, hpos⟩ := hinv.run_read hready hlive hheld
        rw [Side.peer_peer] at hvwait hpos
        refine ⟨v, hv, hvinv, hvwait.inLoop.trans hlu, ?_⟩
        rw [← Bool.not_eq_true]
        intro hst'
        rcases hvinv.starved_empty hst' with ⟨hreading, -⟩ | ⟨-, hzero⟩
        · rw [hvwait.pc, hpc] at hreading
          cases hreading
        · omega
  obtain ⟨v, hv, hvinv, hlv, hst⟩ := hfed
  obtain ⟨t, ht, hlt⟩ := hvinv.loop_own hlv
  exact ⟨t, hu.trans (hv.trans ht), hlt.trans hst⟩

end Step

section Run

variable {buffer : Side → Buffer} {s t : Sides} {side : Side}

/-- A side that waits in vain for a peer that has halted stays in the loop. -/
theorem SidesInv.stuck {capacity : Side → Nat} (h : SidesInv capacity s)
    (hl : s.inLoop side = true) (hst : s.starved side = true) (hh : s.halted side.peer = true)
    (ht : Run.Reaches sidesStep s t) : t.inLoop side = true := by
  have hkeep : SidesInv capacity t ∧ t.inLoop side = true ∧ t.starved side = true ∧
      t.halted side.peer = true :=
    ht.induct (I := fun u => SidesInv capacity u ∧ u.inLoop side = true ∧
        u.starved side = true ∧ u.halted side.peer = true)
      (by
        rintro u a v ⟨hu, hlu, hstu, hhu⟩ hv
        refine ⟨hu.sidesStep_inv hv, ?_⟩
        rcases Side.eq_or_eq_peer a.side side with ha | ha
        · cases a with
          | read b _ | write b _ | close b =>
            obtain rfl : b = side := ha
            -- a side in the loop begins no call
            have hready : u.pc b = .ready := by
              simp only [sidesStep, Sides.call] at hv
              split at hv
              · assumption
              · cases hv
            rcases hu.loop_pc hlu with hpc | hpc <;> rw [hpc] at hready <;> cases hready
          | step b =>
            obtain rfl : b = side := ha
            obtain ⟨hst', hl', -, hstill⟩ := hu.load_step hstu hv
            exact ⟨hl', hst', hstill.halted.trans hhu⟩
        · have hlive : u.gone side.peer.peer = false := by
            rw [Side.peer_peer]
            exact hu.loop_live hlu
          obtain ⟨hh', hstill⟩ := hu.halted_step hhu hlive ha hv
          rw [Side.peer_peer] at hstill
          exact ⟨hstill.inLoop.trans hlu, hstill.starved.trans hstu, hh'⟩)
      ⟨h, hl, hst, hh⟩
  exact hkeep.2.1

/-- **The waits that never end**: those in vain for a peer that has halted. -/
theorem stuck_iff (hc : ∀ side, 1 ≤ (buffer side).capacity)
    (hb : ∀ side, (buffer side).capacity ≤ 2 ^ 31 - 1)
    (h : Run.Reaches sidesStep (.init buffer) s) (hl : s.inLoop side = true) :
    (∀ t, Run.Reaches sidesStep s t → t.inLoop side = true) ↔
      s.starved side = true ∧ s.halted side.peer = true := by
  have hinv := sidesInv_reaches hc hb h
  constructor
  · intro hall
    refine ⟨?_, ?_⟩
    · obtain ⟨t, ht, hlt⟩ := hinv.loop_own hl
      rw [← hlt]
      exact hall t ht
    · by_contra hgoing
      rw [Bool.not_eq_true] at hgoing
      obtain ⟨t, ht, hlt⟩ := hinv.loop_ends (engaged_reaches hc hb h) hl hgoing
      rw [hall t ht] at hlt
      cases hlt
  · rintro ⟨hst, hh⟩ t ht
    exact hinv.stuck hl hst hh ht

/-- Two sides that fill their buffers of one byte and write on. -/
private def bothWrite : List SidesAction :=
  .write .client [1] :: List.replicate 14 (.step .client) ++
    .write .server [2] :: List.replicate 14 (.step .server) ++
    [.write .client [3], .step .client, .step .client, .write .server [4], .step .server,
      .step .server]

/-- Two writers in each other's way. -/
theorem stuck_iff_full :
    ∃ s, Run.run sidesStep (.init fun _ => .fresh (fun _ => 0) 1 ⟨fun _ => false⟩) bothWrite =
        some s ∧
      ∀ side t, Run.Reaches sidesStep s t → t.inLoop side = true := by
  have hrun : ∃ s, Run.run sidesStep (.init fun _ => .fresh (fun _ => 0) 1 ⟨fun _ => false⟩)
      bothWrite = some s ∧
      (s.inLoop .server = true ∧ s.starved .server = true ∧ s.halted .client = true) ∧
      s.inLoop .client = true ∧ s.starved .client = true ∧ s.halted .server = true :=
    ⟨_, rfl, by decide, by decide⟩
  obtain ⟨s, hs, ⟨hls, hsts, hhs⟩, hlc, hstc, hhc⟩ := hrun
  refine ⟨s, hs, ?_⟩
  intro side
  cases side with
  | server =>
    exact (stuck_iff (fun _ => by decide) (fun _ => by decide) ⟨bothWrite, hs⟩ hls).mpr
      ⟨hsts, hhs⟩
  | client =>
    exact (stuck_iff (fun _ => by decide) (fun _ => by decide) ⟨bothWrite, hs⟩ hlc).mpr
      ⟨hstc, hhc⟩

end Run

end Tssx
